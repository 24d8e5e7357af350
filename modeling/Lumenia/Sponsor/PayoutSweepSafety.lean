import Lumenia.Sponsor.AntiDrainSafety
import Lumenia.Sponsor.PayoutSweep

/-!
# What a payout and a sweep can do

A payout that is accepted is one payment of the declared sender to the declared destination, of an amount
with the double of the declared text. It is the declared amount to the stroop, and no money of the
sponsor, where the text is not ambiguous and the sender is not the sponsor in a muxed disguise
(`payout_exact_iff`). A sweep that is accepted moves everything home (`swept_home`).
-/

namespace Lumenia.Sponsor.PayoutSweep

open Stellar AntiDrain

/-! ## The checks -/

theorem same_finite {q : ℚ} {n : Number} : (Number.finite q).same n = true ↔ n = .finite q := by
  have hsame : (Number.finite q).same n = decide (Number.finite q = n) := by
    rw [Number.same]
    exact fun h => nomatch h
  rw [hsame, decide_eq_true_eq]
  exact eq_comm

theorem gt_zero_finite {q : ℚ} : (Number.finite q).gt (.finite 0) = true ↔ 0 < q := by
  rw [Number.gt, decide_eq_true_eq, gt_iff_lt]

/-- The amounts of an operation fit in 64 bits, as they do on the ledger. -/
def HasInt64 : Body Key MuxedAccount ℤ → Prop
  | .createAccount _ stroops | .payment _ _ stroops | .changeTrust _ stroops
  | .createClaimableBalance _ stroops _ => IsInt64 stroops
  | _ => True

/-- A signing key of its own is not the address. -/
def NotSigner (sponsorSigner : Option String) (sponsor value : String) : Prop :=
  ∀ key, sponsorSigner = some key → key = "" ∨ key = sponsor ∨ value ≠ key

theorem signerRefusal_ok_iff {policy : InnerTxPolicy} {tx : LedgerTx} {roles : List (String × String)} :
    signerRefusal tx.parse policy roles = .ok () ↔ ∀ key, policy.sponsorSigner = some key →
      key = "" ∨ key = policy.sponsor ∨ (∀ role ∈ roles, role.2 ≠ key) ∧ tx.source.address ≠ key ∧
        ∀ op ∈ tx.operations, (op.effectiveSource tx.source).address ≠ key := by
  cases hsigner : policy.sponsorSigner with
  | none =>
    rw [signerRefusal, hsigner]
    exact iff_of_true rfl fun key h => nomatch h
  | some key =>
    rw [signerRefusal_eq_ok hsigner]
    constructor
    · rintro h _ ⟨⟩
      exact h
    · exact fun h => h key rfl

/-! ## Payout -/

section

variable {policy : PayoutPolicy} {tx : LedgerTx}

variable (policy) in
/-- The accounts and the asset are as the policy has them, and none is the sponsor's by name. -/
structure Admits (source destination : MuxedAccount) (asset : Asset Key) : Prop where
  sender : source.address = policy.sender
  notSponsor : policy.sender ≠ policy.sponsor
  notSigner : NotSigner policy.sponsorSigner policy.sponsor policy.sender
  named : destination.address ≠ ""
  declared : destination.address = policy.expectedDestination
  usdc : asset.map address = policy.usdc

theorem checkPayout_eq_ok {destination : MuxedAccount} {asset : Asset Key} {stroops : ℤ} (hint : IsInt64 stroops) :
    checkPayout policy (.payment destination.address (asset.map address) (fromXDRAmount stroops)) = .ok () ↔
      destination.address ≠ "" ∧ destination.address = policy.expectedDestination ∧
        asset.map address = policy.usdc ∧ 0 < stroops ∧
        parseDouble policy.expectedAmount = .finite (amountDouble stroops) := by
  simp only [checkPayout, check_bind_eq_ok, failWhen_eq_ok, not_or, ne_eq, not_not, Bool.not_eq_false,
    parseDouble_fromXDRAmount hint, same_finite, gt_zero_finite, amountDouble_pos_iff, Number.isFinite, true_and,
    and_assoc]
  rw [eq_comm (a := policy.usdc)]

/-- The one operation, where it is a payment. -/
theorem validatePayout_payment {source : MuxedAccount} {own : Option MuxedAccount} {destination : MuxedAccount}
    {asset : Asset Key} {stroops : ℤ} (hint : IsInt64 stroops) :
    validatePayoutTransaction (Transaction.parse ⟨source, [⟨own, .payment destination asset stroops⟩]⟩) policy = .ok () ↔
      (own.getD source).address = source.address ∧ Admits policy source destination asset ∧
        0 < stroops ∧ parseDouble policy.expectedAmount = .finite (amountDouble stroops) := by
  let tx : LedgerTx := ⟨source, [⟨own, .payment destination asset stroops⟩]⟩
  have hsource : (Operation.parse ⟨own, .payment destination asset stroops⟩).effectiveSource source.address =
      (own.getD source).address := effectiveSource_parse
  have hrun : validatePayoutTransaction tx.parse policy = (do
      failWhen (OpType.payment ∉ allowedPayoutOpTypes) ("disallowed op type: " ++ OpType.payment.name)
      failWhen (source.address ≠ policy.sender) ("unexpected tx source " ++ short source.address)
      signerRefusal tx.parse policy.signerAware [("sender", policy.sender)]
      failWhen ((own.getD source).address = policy.sponsor) "payout payment sourced from sponsor (drain attempt)"
      failWhen ((own.getD source).address ≠ policy.sender)
        ("payout payment must be sourced by the sender, got " ++ short (own.getD source).address)
      checkPayout policy (.payment destination.address (asset.map address) (fromXDRAmount stroops))) := by
    rw [← hsource]
    rfl
  rw [hrun]
  simp only [check_bind_eq_ok, failWhen_eq_ok, checkPayout_eq_ok hint, signerRefusal_ok_iff, not_not, ne_eq]
  constructor
  · rintro ⟨-, hsender, hsigner, hsponsor, hown, hnamed, hdeclared, husdc, hpos, hread⟩
    refine ⟨hown.trans hsender.symm, ⟨hsender, hown ▸ hsponsor, fun key hkey => ?_, hnamed, hdeclared, husdc⟩,
      hpos, hread⟩
    exact (hsigner key hkey).imp_right (Or.imp_right fun h => h.1 _ List.mem_cons_self)
  · rintro ⟨hown, hadmits, hpos, hread⟩
    have hsender : (own.getD source).address = policy.sender := hown.trans hadmits.sender
    refine ⟨by decide, hadmits.sender, fun key hkey => ?_, hsender ▸ hadmits.notSponsor, hsender, hadmits.named,
      hadmits.declared, hadmits.usdc, hpos, hread⟩
    refine (hadmits.notSigner key hkey).imp_right (Or.imp_right fun hne => ⟨?_, ?_, ?_⟩)
    · exact List.forall_mem_singleton.mpr hne
    · rwa [← hadmits.sender] at hne
    · refine List.forall_mem_singleton.mpr ?_
      rwa [← hsender] at hne

/-- **What is accepted**: one payment. -/
theorem validatePayout_eq_ok (hint : ∀ op ∈ tx.operations, HasInt64 op.body) :
    validatePayoutTransaction tx.parse policy = .ok () ↔ ∃ own destination asset stroops,
      tx.operations = [⟨own, .payment destination asset stroops⟩] ∧
        (own.getD tx.source).address = tx.source.address ∧ Admits policy tx.source destination asset ∧
        0 < stroops ∧ parseDouble policy.expectedAmount = .finite (amountDouble stroops) := by
  obtain ⟨source, ops⟩ := tx
  constructor
  · intro h
    match ops with
    | [] => cases h
    | _ :: _ :: _ => cases h
    | [⟨own, body⟩] =>
      have htype : body.type = .payment := by
        have hallowed := (check_bind_eq_ok.mp h).1
        rw [failWhen_eq_ok, not_not] at hallowed
        simpa [Operation.parse, allowedPayoutOpTypes] using hallowed
      cases body with
      | payment destination asset stroops =>
        have hint64 : IsInt64 stroops := hint _ List.mem_cons_self
        exact ⟨own, destination, asset, stroops, rfl, (validatePayout_payment hint64).mp h⟩
      | other type =>
        have hfields := type.2
        rw [show type.1 = .payment from htype] at hfields
        cases hfields
      | _ => cases htype
  · rintro ⟨own, destination, asset, stroops, rfl, h⟩
    have hint64 : IsInt64 stroops := hint _ List.mem_cons_self
    exact (validatePayout_payment hint64).mpr h

variable (policy) in
/-- A key whose account the sponsor pays from or signs for. -/
def SponsorKey (key : Key) : Prop := address key = policy.sponsor ∨ policy.sponsorSigner = some (address key)

variable (policy) in
/-- The declared payment of the user, to the stroop, and nothing of the sponsor. -/
structure PaidAsDeclared (tx : LedgerTx) : Prop where
  shape : ∃ own destination asset stroops, tx.operations = [⟨own, .payment destination asset stroops⟩] ∧
    destination.address = policy.expectedDestination ∧ asset.map address = policy.usdc ∧
    Declares policy.expectedAmount stroops
  sender : tx.source.address = policy.sender
  own : ∀ op ∈ tx.operations, (op.effectiveSource tx.source).address = policy.sender
  sponsor : ∀ key, SponsorKey policy key →
    tx.source.account ≠ key ∧ ∀ op ∈ tx.operations, (op.effectiveSource tx.source).account ≠ key

variable (policy) in
/-- The declared sender is an address of the sponsor's account, or of its signing key. -/
def Disguised : Prop := ∃ source : MuxedAccount, source.address = policy.sender ∧ SponsorKey policy source.account

/-- An amount can be paid for the text. -/
def Payable (s : String) : Prop :=
  ∃ stroops : ℤ, 0 < stroops ∧ stroops < 2 ^ 63 ∧ parseDouble s = .finite (amountDouble stroops)

variable (policy) in
/-- Some payment is accepted under the policy. -/
def Open : Prop := (∃ source destination asset, Admits policy source destination asset) ∧ Payable policy.expectedAmount

theorem paidAsDeclared_of_ok (hint : ∀ op ∈ tx.operations, HasInt64 op.body) (hdisguised : ¬ Disguised policy)
    (hambiguous : ¬ Ambiguous policy.expectedAmount) (h : validatePayoutTransaction tx.parse policy = .ok ()) :
    PaidAsDeclared policy tx := by
  obtain ⟨own, destination, asset, stroops, hops, hown, hadmits, hpos, hread⟩ := (validatePayout_eq_ok hint).mp h
  have hint64 : IsInt64 stroops := hint ⟨own, .payment destination asset stroops⟩ (by rw [hops]; exact List.mem_cons_self)
  have hsender : (own.getD tx.source).address = policy.sender := hown.trans hadmits.sender
  have hdeclares : Declares policy.expectedAmount stroops := by
    by_contra hnot
    exact hambiguous ⟨stroops, hpos, hint64.2, hread, hnot⟩
  refine ⟨⟨own, destination, asset, stroops, hops, hadmits.declared, hadmits.usdc, hdeclares⟩, hadmits.sender, ?_, ?_⟩
  · rw [hops]
    exact List.forall_mem_singleton.mpr hsender
  · rintro key hkey
    refine ⟨?_, ?_⟩
    · rintro rfl
      exact hdisguised ⟨tx.source, hadmits.sender, hkey⟩
    · rw [hops]
      refine List.forall_mem_singleton.mpr ?_
      rintro rfl
      exact hdisguised ⟨own.getD tx.source, hsender, hkey⟩

/-- **Every payout that is accepted is the declared one, to the stroop and without the sponsor's accounts,
exactly where** the sender is none of them in disguise and the amount is not ambiguous (or nothing is
accepted). -/
theorem payout_exact_iff :
    (∀ tx : LedgerTx, (∀ op ∈ tx.operations, HasInt64 op.body) →
      validatePayoutTransaction tx.parse policy = .ok () → PaidAsDeclared policy tx) ↔
    (Open policy → ¬ Disguised policy ∧ ¬ Ambiguous policy.expectedAmount) := by
  constructor
  · rintro hexact ⟨⟨source, destination, asset, hadmits⟩, stroops, hpos, hlt, hread⟩
    have hpaid : ∀ {source' stroops'}, source'.address = policy.sender → 0 < stroops' → stroops' < 2 ^ 63 →
        parseDouble policy.expectedAmount = .finite (amountDouble stroops') →
        PaidAsDeclared policy ⟨source', [⟨none, .payment destination asset stroops'⟩]⟩ := by
      intro source' stroops' hsender hpos hlt hread
      have hint64 : IsInt64 stroops' := ⟨by omega, hlt⟩
      refine hexact _ (List.forall_mem_singleton.mpr hint64) ((validatePayout_payment hint64).mpr ⟨rfl, ?_, hpos, hread⟩)
      exact { hadmits with sender := hsender }
    refine ⟨?_, ?_⟩
    · rintro ⟨source', hsender, hkey⟩
      exact ((hpaid hsender hpos hlt hread).sponsor _ hkey).1 rfl
    · rintro ⟨stroops', hpos', hlt', hread', hnot⟩
      obtain ⟨own, destination', asset', stroops'', hops, -, -, hdeclares⟩ :=
        (hpaid hadmits.sender hpos' hlt' hread').shape
      cases hops
      exact hnot hdeclares
  · intro hopen tx hint h
    obtain ⟨own, destination, asset, stroops, hops, -, hadmits, hpos, hread⟩ := (validatePayout_eq_ok hint).mp h
    have hint64 : IsInt64 stroops :=
      hint ⟨own, .payment destination asset stroops⟩ (by rw [hops]; exact List.mem_cons_self)
    obtain ⟨hdisguised, hambiguous⟩ := hopen ⟨⟨_, _, _, hadmits⟩, stroops, hpos, hint64.2, hread⟩
    exact paidAsDeclared_of_ok hint hdisguised hambiguous h

end

/-! ## Sweep -/

section

variable {policy : SweepPolicy} {tx : LedgerSweep} {op : SweepOperation Key MuxedAccount ℤ} {source : MuxedAccount}

theorem effectiveSource_parseSwept :
    op.parse.effectiveSource source.address = (op.effectiveSource source).address := effectiveSource_parse

/-- **The loop**: each operation has its type and is the user's. -/
theorem forall_of_checkAllSwept {i : ℕ} {seq : List OpType} {ops : List (SweepOperation Key MuxedAccount ℤ)}
    (hlen : ops.length = seq.length)
    (h : checkAllSwept policy source.address i seq (ops.map SweepOperation.parse) = .ok ()) :
    List.Forall₂ (fun expected op => op.body.type = expected ∧ (op.effectiveSource source).address = policy.throwaway)
      seq ops := by
  induction seq generalizing i ops with
  | nil =>
    obtain rfl := List.eq_nil_of_length_eq_zero hlen
    exact .nil
  | cons expected seq ih =>
    cases ops with
    | nil => cases hlen
    | cons op ops =>
      rw [List.map_cons, checkAllSwept, check_bind_eq_ok] at h
      obtain ⟨hop, hrest⟩ := h
      simp only [checkSwept, check_bind_eq_ok, failWhen_eq_ok, ne_eq, not_not, effectiveSource_parseSwept] at hop
      obtain ⟨htype, -, hsource⟩ := hop
      refine .cons ⟨?_, hsource⟩ (ih (Nat.succ.inj hlen) hrest)
      rw [← htype]
      exact (type_parse op.toOperation).symm

variable (op) in
/-- The account that gets what the operation moves out of its source. -/
def recipient : Option MuxedAccount :=
  match op.body with
  | .payment destination _ _ => some destination
  | _ => op.merge

variable (policy) in
/-- The dollars go home. -/
def PaysHome (body : Body Key MuxedAccount ℤ) : Prop :=
  ∃ destination asset stroops, body = .payment destination asset stroops ∧ destination.address = policy.home ∧
    asset.map address = policy.usdc ∧ 0 < stroops ∧ parseDouble policy.expectedAmount = .finite (amountDouble stroops)

variable (policy) in
/-- The trustline is removed, so that no dollar is left. -/
def RemovesTrust (body : Body Key MuxedAccount ℤ) : Prop :=
  ∃ line, body = .changeTrust line 0 ∧ line.map address = .asset policy.usdc

variable (policy) in
/-- The pinned balance is claimed. -/
def ClaimsPinned (body : Body Key MuxedAccount ℤ) : Prop :=
  ∃ balanceId, body = .claimClaimableBalance balanceId ∧ policy.expectedBalanceId = some balanceId

variable (policy) in
/-- Everything is the user's own and goes to the home account. -/
structure SweptHome (tx : LedgerSweep) : Prop where
  throwaway : tx.source.address = policy.throwaway
  own : ∀ op ∈ tx.operations, (op.effectiveSource tx.source).address = policy.throwaway
  moved : ∀ op ∈ tx.operations, ∀ destination ∈ recipient op, destination.address = policy.home
  shape : ∃ claim pay trust merge, tx.operations = claim ++ [pay, trust, merge] ∧
    (claim = [] ∨ ∃ op, claim = [op] ∧ ClaimsPinned policy op.body) ∧ PaysHome policy pay.body ∧
    RemovesTrust policy trust.body ∧ merge.body.type = .accountMerge

theorem paysHome_of_ok (hint : HasInt64 op.body) (h : checkSweepPayment policy op.parse.body = .ok ()) :
    PaysHome policy op.body := by
  have hbody : op.parse.body = op.body.map address MuxedAccount.address fromXDRAmount := rfl
  rw [hbody] at h
  cases hop : op.body with
  | payment destination asset stroops =>
    rw [hop] at h hint
    simp only [Body.map, checkSweepPayment, check_bind_eq_ok, failWhen_eq_ok, ne_eq, not_not, Bool.not_eq_false,
      parseDouble_fromXDRAmount hint, same_finite, gt_zero_finite, amountDouble_pos_iff] at h
    obtain ⟨hhome, husdc, hpos, hread⟩ := h
    exact ⟨destination, asset, stroops, rfl, hhome, husdc.symm, hpos, hread⟩
  | _ =>
    rw [hop] at h
    cases h

theorem removesTrust_of_ok (hint : HasInt64 op.body) (h : checkSweepTrust policy op.parse.body = .ok ()) :
    RemovesTrust policy op.body := by
  have hbody : op.parse.body = op.body.map address MuxedAccount.address fromXDRAmount := rfl
  rw [hbody] at h
  cases hop : op.body with
  | changeTrust line limit =>
    rw [hop] at h hint
    simp only [Body.map, checkSweepTrust, check_bind_eq_ok, failWhen_eq_ok, ne_eq, not_not, Bool.not_eq_false,
      parseDouble_fromXDRAmount hint, same_finite] at h
    obtain ⟨hline, hlimit⟩ := h
    obtain rfl := amountDouble_eq_zero_iff.mp (Number.finite.inj hlimit).symm
    exact ⟨line, rfl, hline.symm⟩
  | _ =>
    rw [hop] at h
    cases h

theorem claimsPinned_of_ok (h : checkSweepClaim policy op.parse.body = .ok ()) : ClaimsPinned policy op.body := by
  have hbody : op.parse.body = op.body.map address MuxedAccount.address fromXDRAmount := rfl
  rw [hbody] at h
  cases hop : op.body with
  | claimClaimableBalance balanceId =>
    rw [hop] at h
    simp only [Body.map, checkSweepClaim] at h
    split at h
    · cases h
    · next expected hpinned =>
      rw [failWhen_eq_ok, ne_eq, not_not] at h
      exact ⟨balanceId, rfl, h ▸ hpinned⟩
  | _ =>
    rw [hop] at h
    cases h

/-- Only a payment and a merge move anything. -/
theorem recipient_eq_none {type : OpType} (htype : op.body.type = type)
    (hother : type ≠ .payment ∧ type ≠ .accountMerge) : recipient op = none := by
  have hnone : op.merge = none := by
    rw [← Option.not_isSome_iff_eq_none, op.isSome_merge, decide_eq_true_eq, htype]
    exact hother.2
  rw [recipient]
  split
  · next hbody => exact absurd (htype.symm.trans (congrArg Body.type hbody)) hother.1
  · exact hnone

theorem tailHome_of_ok {pay trust merge : SweepOperation Key MuxedAccount ℤ} (hpay : HasInt64 pay.body)
    (htrust : HasInt64 trust.body)
    (h : checkSweepTail policy [pay.parse, trust.parse, merge.parse] = .ok ()) :
    PaysHome policy pay.body ∧ RemovesTrust policy trust.body ∧
      ∀ destination ∈ merge.merge, destination.address = policy.home := by
  simp only [checkSweepTail, check_bind_eq_ok, checkSweepMerge, failWhen_eq_ok, ne_eq, not_not] at h
  obtain ⟨hpaid, hremoved, hmerge⟩ := h
  refine ⟨paysHome_of_ok hpay hpaid, removesTrust_of_ok htrust hremoved, fun destination hmem => ?_⟩
  have hmap : merge.merge.map MuxedAccount.address = some policy.home := hmerge
  rw [Option.mem_def.mp hmem] at hmap
  exact Option.some.inj hmap

theorem sweptHome_of_parts {claim : List (SweepOperation Key MuxedAccount ℤ)}
    {pay trust merge : SweepOperation Key MuxedAccount ℤ} (hsource : source.address = policy.throwaway)
    (hown : ∀ op ∈ claim ++ [pay, trust, merge], (op.effectiveSource source).address = policy.throwaway)
    (hclaim : claim = [] ∨ ∃ op, claim = [op] ∧ ClaimsPinned policy op.body) (hpay : PaysHome policy pay.body)
    (htrust : RemovesTrust policy trust.body) (htype : merge.body.type = .accountMerge)
    (hmerge : ∀ destination ∈ merge.merge, destination.address = policy.home) :
    SweptHome policy ⟨source, claim ++ [pay, trust, merge]⟩ := by
  refine ⟨hsource, hown, fun op hop destination hmem => ?_, claim, pay, trust, merge, rfl, hclaim, hpay, htrust, htype⟩
  have hnone : recipient op ≠ none := by
    rw [Option.mem_def.mp hmem]
    exact Option.some_ne_none destination
  rcases List.mem_append.mp hop with hop | hop
  · rcases hclaim with rfl | ⟨first, rfl, balanceId, hbody, -⟩
    · cases hop
    · obtain rfl := List.mem_singleton.mp hop
      have hfirst : op.body.type = .claimClaimableBalance := congrArg Body.type hbody
      exact absurd (recipient_eq_none hfirst (by decide)) hnone
  · rcases List.mem_cons.mp hop with rfl | hop
    · obtain ⟨paid, asset, stroops, hbody, hhome, -⟩ := hpay
      rw [recipient, hbody] at hmem
      rwa [← Option.some.inj (Option.mem_def.mp hmem)]
    rcases List.mem_cons.mp hop with rfl | hop
    · obtain ⟨line, hbody, -⟩ := htrust
      have hsecond : op.body.type = .changeTrust := congrArg Body.type hbody
      exact absurd (recipient_eq_none hsecond (by decide)) hnone
    · obtain rfl := List.mem_singleton.mp hop
      refine hmerge destination ?_
      rw [recipient] at hmem
      split at hmem
      · next hbody =>
        rw [hbody] at htype
        cases htype
      · exact hmem

/-- **A sweep that is accepted is the user's own and moves everything home.** -/
theorem swept_home (hint : ∀ op ∈ tx.operations, HasInt64 op.body)
    (h : validateSweepTransaction tx.parse policy = .ok ()) : SweptHome policy tx := by
  obtain ⟨source, ops⟩ := tx
  simp only [validateSweepTransaction] at h
  split at h
  · -- led by a claim
    simp only [check_bind_eq_ok, failWhen_eq_ok, ne_eq, not_not] at h
    obtain ⟨hlen, hsource, -, -, hloop, hclaim, htail⟩ := h
    have hall : List.Forall₂ _ (OpType.claimClaimableBalance :: sweepTail) ops :=
      forall_of_checkAllSwept ((List.length_map _).symm.trans hlen) hloop
    obtain _ | @⟨_, claim, _, _, ⟨-, hownClaim⟩, hall⟩ := hall
    obtain _ | @⟨_, pay, _, _, ⟨-, hownPay⟩, hall⟩ := hall
    obtain _ | @⟨_, trust, _, _, ⟨-, hownTrust⟩, hall⟩ := hall
    obtain _ | @⟨_, merge, _, _, ⟨htype, hownMerge⟩, ⟨⟩⟩ := hall
    have hpinned : ClaimsPinned policy claim.body :=
      claimsPinned_of_ok (check_forM_eq_ok.mp hclaim claim.parse List.mem_cons_self)
    obtain ⟨hpay, htrust, hmerge⟩ := tailHome_of_ok (hint pay (by simp)) (hint trust (by simp)) htail
    change SweptHome policy ⟨source, [claim] ++ [pay, trust, merge]⟩
    refine sweptHome_of_parts hsource ?_ (.inr ⟨claim, rfl, hpinned⟩) hpay htrust htype hmerge
    simp [hownClaim, hownPay, hownTrust, hownMerge]
  · simp only [check_bind_eq_ok, failWhen_eq_ok, ne_eq, not_not] at h
    obtain ⟨hlen, hsource, -, -, hloop, htail⟩ := h
    have hall : List.Forall₂ _ sweepTail ops :=
      forall_of_checkAllSwept ((List.length_map _).symm.trans hlen) hloop
    obtain _ | @⟨_, pay, _, _, ⟨-, hownPay⟩, hall⟩ := hall
    obtain _ | @⟨_, trust, _, _, ⟨-, hownTrust⟩, hall⟩ := hall
    obtain _ | @⟨_, merge, _, _, ⟨htype, hownMerge⟩, ⟨⟩⟩ := hall
    obtain ⟨hpay, htrust, hmerge⟩ := tailHome_of_ok (hint pay (by simp)) (hint trust (by simp)) htail
    change SweptHome policy ⟨source, [] ++ [pay, trust, merge]⟩
    refine sweptHome_of_parts hsource ?_ (.inl rfl) hpay htrust htype hmerge
    simp [hownPay, hownTrust, hownMerge]

end

/-! ## Both validators -/

/-- **Everything the two validators accept is as declared, exactly where** the sender of the payout is not
the sponsor in disguise and its amount is not ambiguous. -/
theorem payout_and_sweep_exact_iff (payout : PayoutPolicy) (sweep : SweepPolicy) :
    ((∀ tx : LedgerTx, (∀ op ∈ tx.operations, HasInt64 op.body) →
        validatePayoutTransaction tx.parse payout = .ok () → PaidAsDeclared payout tx) ∧
      ∀ tx : LedgerSweep, (∀ op ∈ tx.operations, HasInt64 op.body) →
        validateSweepTransaction tx.parse sweep = .ok () → SweptHome sweep tx) ↔
    (Open payout → ¬ Disguised payout ∧ ¬ Ambiguous payout.expectedAmount) := by
  rw [payout_exact_iff]
  exact and_iff_left fun tx hint h => swept_home hint h

/-- Two amounts next to each other read as one double: the second is paid for the first. -/
theorem payout_off_by_a_stroop : ∃ (policy : PayoutPolicy) (tx : LedgerTx),
    (∀ op ∈ tx.operations, HasInt64 op.body) ∧ validatePayoutTransaction tx.parse policy = .ok () ∧
      Declares policy.expectedAmount 5368709120000003 ∧ ¬ PaidAsDeclared policy tx := by
  let policy : PayoutPolicy :=
    { sender := address 1
      sponsor := address 2
      sponsorSigner := some (address 3)
      usdc := .credit "USDC" (address 4)
      expectedDestination := address 5
      expectedAmount := "536870912.0000003" }
  have hint : IsInt64 5368709120000004 := ⟨by decide, by decide⟩
  have hdeclares : Declares policy.expectedAmount 5368709120000003 := ⟨by decide +kernel, by decide +kernel⟩
  have hadmits : Admits policy (.ed25519 1) (.ed25519 5) (.credit "USDC" 4) := by
    have hsponsor : address 1 ≠ address 2 := fun h => absurd (address_inj h) (by decide)
    have hsigner : address 1 ≠ address 3 := fun h => absurd (address_inj h) (by decide)
    refine ⟨rfl, hsponsor, fun key hkey => ?_, address_ne_empty, rfl, rfl⟩
    rw [← Option.some.inj hkey]
    exact .inr (.inr hsigner)
  have hread : parseDouble policy.expectedAmount = .finite (amountDouble 5368709120000004) := by decide +kernel
  refine ⟨policy, ⟨.ed25519 1, [⟨none, .payment (.ed25519 5) (.credit "USDC" 4) 5368709120000004⟩]⟩,
    List.forall_mem_singleton.mpr hint, (validatePayout_payment hint).mpr ⟨rfl, hadmits, by decide, hread⟩, hdeclares, fun hpaid => ?_⟩
  obtain ⟨own, destination, asset, stroops, hops, -, -, hother⟩ := hpaid.shape
  cases hops
  exact absurd (hdeclares.unique hother) (by decide)

end Lumenia.Sponsor.PayoutSweep
