import Lumenia.Sponsor.AntiDrain

/-!
# The sponsor is not drained

What a transaction can do that the validator accepts under the policy of a route. Sources are
resolved as the ledger does it: an operation without one has the transaction's, and a muxed address
belongs to the account of its key.
-/

namespace Lumenia.Sponsor

open Stellar AntiDrain

/-! ## One lemma for each check -/

section

variable {policy : InnerTxPolicy} {recipient : Key} {source : MuxedAccount}
  {op : Operation Key MuxedAccount ℤ} {tx : LedgerTx}

@[simp] theorem type_map {A M N A' M' N' : Type} {f : A → A'} {g : M → M'} {h : N → N'}
    {b : Body A M N} : (b.map f g h).type = b.type := by
  cases b <;> rfl

theorem assertPlainAccount_eq_ok {label value : String} :
    assertPlainAccount label value = .ok () ↔ isValidEd25519PublicKey value = true := by
  rw [assertPlainAccount, failWhen_eq_ok, Bool.not_eq_false]

/-- A plain account is the address of a key. -/
theorem exists_key {value : String} (h : isValidEd25519PublicKey value = true) :
    ∃ key, address key = value :=
  ⟨addressKey value, of_decide_eq_true h⟩

theorem checkPinned_eq_ok {α : Type} [DecidableEq α] {expected : Option α} {actual : α}
    {mismatch strict : String} :
    checkPinned expected actual false mismatch strict = .ok () ↔ expected = some actual := by
  cases expected with
  | none => simp [checkPinned]
  | some e =>
    rw [checkPinned, failWhen_eq_ok, not_not, Option.some_inj]
    exact eq_comm

theorem checkClaimantCount_eq_ok {count : ℕ} :
    checkClaimantCount policy count = .ok () ↔ policy.expectedClaimantCount = some count := by
  unfold checkClaimantCount
  cases policy.expectedClaimantCount with
  | none => simp
  | some e =>
    simp only [failWhen_eq_ok, not_not, Option.some_inj]
    exact eq_comm

theorem signerRefusal_eq_ok {roles : List (String × String)} {key : String}
    (hkey : policy.sponsorSigner = some key) :
    signerRefusal tx.parse policy roles = .ok () ↔ key = "" ∨ key = policy.sponsor ∨
      (∀ role ∈ roles, role.2 ≠ key) ∧ tx.source.address ≠ key ∧
        ∀ op ∈ tx.operations, (op.effectiveSource tx.source).address ≠ key := by
  unfold signerRefusal
  rw [hkey]
  dsimp only
  split
  · rename_i hskip
    exact iff_of_true rfl (hskip.imp_right .inl)
  · rename_i hact
    obtain ⟨hempty, hsponsor⟩ := not_or.mp hact
    simp only [check_bind_eq_ok, check_forM_eq_ok, failWhen_eq_ok, hempty, hsponsor, false_or]
    refine and_congr_right fun _ => and_congr_right fun _ => ?_
    rw [Transaction.parse, List.forall_mem_map]
    simp only [effectiveSource_parse, ne_eq]

variable (policy) in
/-- A policy of the strict mode, which pins the operations and has no payment and no new account
among them. -/
structure Strict (sequence : List OpType) : Prop where
  asset : policy.allowUncheckedAsset = false
  balanceId : policy.allowUncheckedBalanceId = false
  payments : policy.allowedPaymentDestinations = []
  types : ∀ t ∈ policy.allowedOpTypes, t.hasFields = true
  pinned : policy.expectedOpSequence = some sequence
  sourceable : ∀ t ∈ sequence, t ∈ sponsorSourceableOps → t = .beginSponsoringFutureReserves
  own : ∃ t ∈ sequence, t ∉ sponsorSourceableOps

variable (policy recipient) in
/-- An operation of the recipient that is as the policy pins it. -/
def Pinned : Body Key MuxedAccount ℤ → Prop
  | .changeTrust line _ => policy.expectedAsset.map .asset = some (line.map address)
  | .claimClaimableBalance balanceId => policy.expectedBalanceId = some balanceId
  | .createClaimableBalance asset _ claimants =>
    policy.expectedAsset = some (asset.map address) ∧
      policy.expectedClaimantCount = some claimants.length ∧
      (∃ c ∈ claimants, c.predicate = .unconditional) ∧ ∃ c ∈ claimants, c.destination = recipient
  | .endSponsoringFutureReserves => True
  | _ => False

variable {sequence : List OpType}

theorem pinned_of_checkParameters (hstrict : Strict policy sequence)
    (hrecipient : address recipient = policy.expectedSource)
    (htype : op.body.type ∈ policy.allowedOpTypes) (howner : op.body.type ∉ sponsorSourceableOps)
    (h : checkParameters policy op.parse.body = .ok ()) : Pinned policy recipient op.body := by
  obtain ⟨opSource, body⟩ := op
  cases body with
  | createAccount => exact absurd (List.mem_cons_of_mem _ List.mem_cons_self) howner
  | beginSponsoringFutureReserves => exact absurd List.mem_cons_self howner
  | endSponsoringFutureReserves => trivial
  | other type => exact absurd (hstrict.types _ htype) (Bool.eq_false_iff.mp type.2)
  | payment => simp [checkParameters, Operation.parse, Body.map, hstrict.payments] at h
  | changeTrust line limit =>
    simp only [checkParameters, Operation.parse, Body.map, hstrict.asset] at h
    exact checkPinned_eq_ok.mp h
  | claimClaimableBalance balanceId =>
    simp only [checkParameters, Operation.parse, Body.map, hstrict.balanceId] at h
    exact (Option.filter_eq_some_iff.mp (checkPinned_eq_ok.mp h)).1
  | createClaimableBalance asset amount claimants =>
    simp only [checkParameters, Operation.parse, Body.map, hstrict.asset, check_bind_eq_ok,
      failWhen_eq_ok, List.all_eq_true, decide_eq_true_eq, not_forall, not_not,
      List.length_map] at h
    obtain ⟨hasset, hcount, ⟨c, hc, hunconditional⟩, c', hc', hdestination⟩ := h
    obtain ⟨d, hd, rfl⟩ := List.mem_map.mp hc
    obtain ⟨d', hd', rfl⟩ := List.mem_map.mp hc'
    refine ⟨checkPinned_eq_ok.mp hasset, checkClaimantCount_eq_ok.mp hcount, ⟨d, hd, hunconditional⟩,
      d', hd', ?_⟩
    exact address_inj (Eq.trans hdestination hrecipient.symm)

/-- What the sponsor itself may do in a transaction. -/
theorem sponsored_of_checkParameters (hrecipient : address recipient = policy.expectedSource)
    (howner : op.body.type = .beginSponsoringFutureReserves)
    (h : checkParameters policy op.parse.body = .ok ()) :
    op.body = .beginSponsoringFutureReserves recipient := by
  obtain ⟨opSource, body⟩ := op
  cases body with
  | beginSponsoringFutureReserves sponsoredId =>
    simp only [checkParameters, Operation.parse, Body.map, failWhen_eq_ok, not_not] at h
    rw [address_inj (h.trans hrecipient.symm)]
  | other type =>
    have hfields := type.2
    rw [show type.1 = _ from howner] at hfields
    cases hfields
  | createAccount | payment | changeTrust | createClaimableBalance | claimClaimableBalance
  | endSponsoringFutureReserves => cases howner

/-- An operation that passes has a plain source: the sponsor for what it may source, and the
recipient for everything else. -/
theorem checkOperation_eq_ok (h : checkOperation policy source.address op.parse = .ok ()) :
    op.body.type ∈ policy.allowedOpTypes ∧ checkParameters policy op.parse.body = .ok () ∧
      ∃ key, op.effectiveSource source = .ed25519 key ∧
        (op.body.type ∈ sponsorSourceableOps → address key = policy.sponsor) ∧
        (op.body.type ∉ sponsorSourceableOps →
          address key = policy.expectedSource ∧ address key ≠ policy.sponsor) := by
  have htype : op.parse.body.type = op.body.type := type_map
  simp only [checkOperation, check_bind_eq_ok, failWhen_eq_ok, assertPlainAccount_eq_ok, htype,
    not_not, not_and] at h
  obtain ⟨hallowed, hplain, hsponsor, hrest⟩ := h
  obtain ⟨key, hkey⟩ := exists_key hplain
  have hsource := effectiveSource_parse_eq.mp hkey.symm
  split at hrest
  · rename_i hown
    simp only [check_bind_eq_ok, failWhen_eq_ok, not_not] at hrest
    obtain ⟨heq, hparameters⟩ := hrest
    exact ⟨hallowed, hparameters, key, hsource, fun _ => hkey.trans heq, fun h => absurd hown h⟩
  · rename_i hown
    simp only [check_bind_eq_ok, failWhen_eq_ok, not_not] at hrest
    obtain ⟨heq, hparameters⟩ := hrest
    exact ⟨hallowed, hparameters, key, hsource, fun h => absurd h hown, fun _ =>
      ⟨hkey.trans heq, fun h => hown (hsponsor (hkey.symm.trans h))⟩⟩

/-! ## The whole transaction -/

variable (recipient) in
/-- What the sponsor may source: no value leaves it, and its account stays as it is. -/
def SponsorMay : Body Key MuxedAccount ℤ → Prop
  | .beginSponsoringFutureReserves sponsoredId => sponsoredId = recipient
  | .createAccount destination startingBalance => destination = recipient ∧ startingBalance = 0
  | _ => False

/-- An operation in a transaction that a strict policy accepts. -/
theorem operation_of_accepted (hstrict : Strict policy sequence)
    (hrecipient : address recipient = policy.expectedSource) (htype : op.body.type ∈ sequence)
    (hop : checkOperation policy source.address op.parse = .ok ()) :
    (address (op.effectiveSource source).account = policy.sponsor →
      SponsorMay recipient op.body) ∧
    (op.body.type ∉ sponsorSourceableOps →
      op.effectiveSource source = .ed25519 recipient ∧ Pinned policy recipient op.body) ∧
    (op.body.type ∈ sponsorSourceableOps →
      address (op.effectiveSource source).account = policy.sponsor ∧ SponsorMay recipient op.body) := by
  obtain ⟨hallowed, hparameters, key, hsource, hsponsor, hown⟩ := checkOperation_eq_ok hop
  have hmay : op.body.type ∈ sponsorSourceableOps →
      address (op.effectiveSource source).account = policy.sponsor ∧ SponsorMay recipient op.body := by
    intro hsourceable
    rw [sponsored_of_checkParameters hrecipient (hstrict.sourceable _ htype hsourceable) hparameters,
      hsource]
    exact ⟨hsponsor hsourceable, rfl⟩
  refine ⟨fun haccount => ?_, fun hnot => ?_, hmay⟩
  · by_contra hmust
    have hnot : op.body.type ∉ sponsorSourceableOps := fun h => hmust (hmay h).2
    rw [hsource] at haccount
    exact (hown hnot).2 haccount
  · have hkey : key = recipient := address_inj ((hown hnot).1.trans hrecipient.symm)
    rw [hsource, hkey]
    exact ⟨rfl, pinned_of_checkParameters hstrict hrecipient hallowed hnot hparameters⟩

variable (config : SponsorAccount)

theorem hasFields_of_allowedInner : ∀ t ∈ allowedInnerOpTypes, t.hasFields = true := by decide

theorem hasFields_of_allowedSend : ∀ t ∈ allowedSendOpTypes, t.hasFields = true := by decide

theorem strict_feebumpPolicy {recipientPublicKey balanceId : String} :
    Strict (feebumpPolicy config recipientPublicKey balanceId) [.claimClaimableBalance] where
  asset := rfl
  balanceId := rfl
  payments := rfl
  types := hasFields_of_allowedInner
  pinned := rfl
  sourceable := by decide
  own := ⟨_, List.mem_cons_self, by decide⟩

theorem strict_sendPolicy {senderPublicKey : String} : Strict (sendPolicy config senderPublicKey)
    [.beginSponsoringFutureReserves, .createClaimableBalance, .endSponsoringFutureReserves] where
  asset := rfl
  balanceId := rfl
  payments := rfl
  types := hasFields_of_allowedSend
  pinned := rfl
  sourceable := by decide
  own := ⟨.createClaimableBalance, by decide, by decide⟩

/-- The policies that the routes construct. -/
inductive RoutePolicy : InnerTxPolicy → Prop
  | feebump (recipientPublicKey balanceId : String) :
    RoutePolicy (feebumpPolicy config recipientPublicKey balanceId)
  | send (senderPublicKey : String) : RoutePolicy (sendPolicy config senderPublicKey)

variable {config}

theorem RoutePolicy.strict (h : RoutePolicy config policy) :
    policy.sponsor = config.sponsorAccountId ∧ policy.sponsorSigner = some config.signer ∧
      ∃ sequence, Strict policy sequence := by
  cases h with
  | feebump => exact ⟨rfl, rfl, _, strict_feebumpPolicy config⟩
  | send => exact ⟨rfl, rfl, _, strict_sendPolicy config⟩

/-- **The sponsor is not drained.** Let a transaction be accepted under the policy of a route. It is
the recipient's; an operation sourced by the sponsor or its signing key is one that the sponsor may
source; every other operation is sourced by the recipient and as the policy pins it; the operations
are exactly the pinned ones; and the check for the signing key still passes afterwards. -/
theorem sponsor_not_drained (hroute : RoutePolicy config policy)
    (h : validateInnerTransaction policy tx.parse = .ok ()) :
    ∃ recipient, address recipient = policy.expectedSource ∧ tx.source = .ed25519 recipient ∧
      address recipient ≠ config.sponsorAccountId ∧ address recipient ≠ config.signer ∧
      (∀ op ∈ tx.operations,
        let account := (op.effectiveSource tx.source).account
        (address account = config.sponsorAccountId ∨ address account = config.signer →
          SponsorMay recipient op.body) ∧
        (address account = config.sponsorAccountId ∧ SponsorMay recipient op.body ∨
          op.effectiveSource tx.source = .ed25519 recipient ∧ Pinned policy recipient op.body)) ∧
      policy.expectedOpSequence = some (tx.operations.map (·.body.type)) ∧
      signerRefusal tx.parse policy [("expectedSource", policy.expectedSource)] = .ok () := by
  obtain ⟨hsponsor, hkey, sequence, hstrict⟩ := hroute.strict
  simp only [validateInnerTransaction, check_bind_eq_ok, failWhen_eq_ok, assertPlainAccount_eq_ok,
    not_not, check_forM_eq_ok] at h
  obtain ⟨-, -, hsource, -, hplain, -, hsigner, hsequence, hops⟩ := h
  obtain ⟨recipient, hrecipient⟩ := exists_key hplain
  have htx : tx.source = .ed25519 recipient :=
    MuxedAccount.address_eq.mp (hsource.trans hrecipient.symm)
  -- The operations are the pinned ones.
  have htypes : tx.operations.map (·.body.type) = sequence := by
    rw [hstrict.pinned, Option.any_some, decide_eq_true_eq, not_not] at hsequence
    rw [← hsequence, Transaction.parse, List.map_map]
    exact List.map_congr_left fun op _ => type_map.symm
  have hop : ∀ op ∈ tx.operations, op.body.type ∈ sequence ∧
      checkOperation policy tx.source.address op.parse = .ok () := by
    intro op hmem
    refine ⟨htypes ▸ List.mem_map_of_mem hmem, hops op.parse ?_⟩
    exact List.mem_map_of_mem hmem
  -- One of them is the recipient's own, so the recipient is not the sponsor.
  have hsponsor' : address recipient ≠ config.sponsorAccountId := by
    obtain ⟨t, ht, hnot⟩ := hstrict.own
    obtain ⟨op, hmem, rfl⟩ := List.mem_map.mp (htypes ▸ ht)
    obtain ⟨-, -, key, -, -, hown⟩ := checkOperation_eq_ok (hop op hmem).2
    rw [hrecipient, ← (hown hnot).1, ← hsponsor]
    exact (hown hnot).2
  have hact := (signerRefusal_eq_ok hkey).mp hsigner
  have hsigner' : address recipient ≠ config.signer := by
    rcases hact with hempty | hsame | ⟨hroles, -⟩
    · rw [hempty]
      exact address_ne_empty
    · rwa [hsame, hsponsor]
    · rw [hrecipient]
      exact hroles _ List.mem_cons_self
  refine ⟨recipient, hrecipient, htx, hsponsor', hsigner', fun op hmem => ?_, ?_, hsigner⟩
  · obtain ⟨htype, hcheck⟩ := hop op hmem
    obtain ⟨hofSponsor, hofRecipient, hmay⟩ := operation_of_accepted hstrict hrecipient htype hcheck
    refine ⟨fun haccount => ?_, ?_⟩
    · rcases haccount with haccount | haccount
      · exact hofSponsor (haccount.trans hsponsor.symm)
      · rcases hact with hempty | hsame | ⟨-, -, hnone⟩
        · exact absurd (haccount.trans hempty) address_ne_empty
        · exact hofSponsor (haccount.trans hsame)
        · obtain ⟨-, -, key, hsource, -⟩ := checkOperation_eq_ok hcheck
          have hne := hnone op hmem
          rw [hsource] at haccount hne
          exact absurd haccount hne
    · rcases Decidable.em (op.body.type ∈ sponsorSourceableOps) with hmem' | hnot
      · exact .inl (hsponsor ▸ hmay hmem')
      · exact .inr (hofRecipient hnot)
  · rw [hstrict.pinned, htypes]

end

namespace Demo

/-- A sponsor with a separate signing key. -/
def sponsorAccount : SponsorAccount := ⟨address 1, address 2, .credit "USDC" (address 3)⟩

/-- A sender with its link, as the client builds it. -/
def sending : LedgerTx where
  source := .ed25519 4
  operations := [
    ⟨some (.ed25519 1), .beginSponsoringFutureReserves 4⟩,
    ⟨none, .createClaimableBalance (.credit "USDC" 3) 50000000
      [⟨5, .unconditional⟩, ⟨4, .not⟩]⟩,
    ⟨some (.ed25519 4), .endSponsoringFutureReserves⟩]

end Demo

theorem sponsor_not_drained_sending : ∃ recipient, address recipient = address 4 ∧
    address recipient ≠ Demo.sponsorAccount.sponsorAccountId ∧
    ∀ op ∈ Demo.sending.operations,
      address (op.effectiveSource Demo.sending.source).account = address 1 →
        SponsorMay recipient op.body := by
  have haccepted : validateInnerTransaction (sendPolicy Demo.sponsorAccount (address 4))
      Demo.sending.parse = .ok () := by decide +kernel
  obtain ⟨recipient, hrecipient, -, hne, -, hops, -⟩ := sponsor_not_drained (.send _) haccepted
  exact ⟨recipient, hrecipient, hne, fun op hop haccount => (hops op hop).1 (.inl haccount)⟩

end Lumenia.Sponsor
