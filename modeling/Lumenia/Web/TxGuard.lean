import Lumenia.Stellar.Transaction
import Lumenia.Theory.Checks

/-!
# What a device signs

`apps/web/lib/tx-guard.ts`: the two checks on a transaction that the sponsor's server has built,
right before the account `me` signs it. A refusal throws; here it is an `Except`.

The checks compare address texts, and a muxed address of `me` is another text. So what they accept
is what they describe exactly when no source in the transaction is one (`guarded_iff`); a transaction
whose own source is a muxed address of `me` passes, and spends its sequence number and its fee
(`muxed_source_passes`).
-/

namespace Lumenia.Web

open Stellar

/-- The networks; `mainnet` is the source's `public`. -/
inductive NetworkId
  | testnet
  | mainnet
  deriving DecidableEq

/-- `USDC_ISSUER` -/
def pinnedUsdcIssuer : NetworkId → String
  | .testnet => "GBBD47IF6LWK7P7MDEVSCWR7DPUWV3NY3DTQEVFL4NAT4AQH3ZLLFLA5"
  | .mainnet => "GA5ZSEJYB37JRC5AVCIA5MOP4RHTM335X2KGX3IHOJAPP5RE34K4KZVN"

/-- `REFUSED` -/
def guardRefused : String :=
  "The server sent back something this app did not ask for, so nothing was signed."

/-- An amount by its value. -/
def amount (raw : String) : Option ℚ :=
  match parseFloat raw with
  | .finite q => some q
  | _ => none

/-- A credit asset exposes its code and its issuer. -/
def isPinnedUsdc (line : Line String) (issuer : String) : Bool :=
  match line with
  | .asset (.credit code i) => code = "USDC" && i = issuer
  | _ => false

section

variable (txSource me issuer : String) (op : Operation String String String)

def isOurBegin : Bool :=
  match op.body with
  | .beginSponsoringFutureReserves sponsoredId =>
    sponsoredId = me && op.effectiveSource txSource ≠ me
  | _ => false

def isOurCreate : Bool :=
  match op.body with
  | .createAccount destination startingBalance =>
    destination = me && amount startingBalance = some 0 && op.effectiveSource txSource ≠ me
  | _ => false

def isOurTrust : Bool :=
  match op.body with
  | .changeTrust line _ => isPinnedUsdc line issuer && op.effectiveSource txSource = me
  | _ => false

/-- A zero limit deletes a trustline. -/
def hasPositiveLimit : Bool :=
  match op.body with
  | .changeTrust _ limit => (amount limit).any (· > 0)
  | _ => false

def isOurEnd : Bool :=
  match op.body with
  | .endSponsoringFutureReserves => op.effectiveSource txSource = me
  | _ => false

end

variable (tx : ParsedTx) (me : String) (net : NetworkId)

/-- A trustline for an account that already exists. -/
def assertSponsoredTrustline : Except String Unit := do
  let issuer := pinnedUsdcIssuer net
  failWhen (tx.source = me) guardRefused
  match tx.operations with
  | [start, trust, finish] =>
    failWhen (isOurBegin tx.source me start = false) guardRefused
    failWhen ((isOurTrust tx.source me issuer trust && hasPositiveLimit trust) = false) guardRefused
    failWhen (isOurEnd tx.source me finish = false) guardRefused
  | _ => .error guardRefused

/-- The sponsored onboarding of a new account. -/
def assertSponsoredOnboarding : Except String Unit := do
  let issuer := pinnedUsdcIssuer net
  -- Our sequence number and our fee are ours to spend.
  failWhen (tx.source = me) guardRefused
  match tx.operations with
  | [start, create, trust, finish] =>
    failWhen (isOurBegin tx.source me start = false) guardRefused
    failWhen (isOurCreate tx.source me create = false) guardRefused
    -- The two operations our signature authorises.
    failWhen (isOurTrust tx.source me issuer trust = false) guardRefused
    failWhen (hasPositiveLimit trust = false) guardRefused
    failWhen (isOurEnd tx.source me finish = false) guardRefused
  | _ => .error guardRefused

/-! ## What they accept -/

section

variable {tx : LedgerTx} {me : Key} {net : NetworkId} {source : MuxedAccount} {issuer : String}
  {op : Operation Key MuxedAccount ℤ}

variable (issuer) in
/-- A positive trustline for the pinned dollar. -/
def OpensTrustline (body : Body Key MuxedAccount ℤ) : Prop :=
  ∃ i limit, body = .changeTrust (.asset (.credit "USDC" i)) limit ∧ address i = issuer ∧ 0 < limit

theorem isPinnedUsdc_map {line : Line Key} (h : isPinnedUsdc (line.map address) issuer = true) :
    ∃ i, line = .asset (.credit "USDC" i) ∧ address i = issuer := by
  cases line with
  | liquidityPool => cases h
  | asset a =>
    cases a with
    | native => cases h
    | credit code i =>
      obtain ⟨hcode, hissuer⟩ := Bool.and_eq_true_iff.mp h
      rw [of_decide_eq_true hcode]
      exact ⟨i, rfl, of_decide_eq_true hissuer⟩

theorem pos_of_amount {limit : ℤ} (h : (amount (fromXDRAmount limit)).any (· > 0) = true) :
    0 < limit := by
  obtain ⟨q, hq, hpos⟩ := (Option.any_eq_true _ _).mp h
  have hfinite : parseFloat (fromXDRAmount limit) = .finite q := by
    unfold amount at hq
    split at hq
    · rename_i hfinite
      rwa [← Option.some_inj.mp hq]
    · cases hq
  have hlt : (0 : ℚ) < limit / 10 ^ 7 := eq_of_parseFloat hfinite ▸ of_decide_eq_true hpos
  have hlimit : (0 : ℚ) < limit := (div_pos_iff_of_pos_right (by positivity)).mp hlt
  exact_mod_cast hlimit

theorem opensTrustline (htrust : isOurTrust source.address (address me) issuer op.parse = true)
    (hlimit : hasPositiveLimit op.parse = true) :
    op.effectiveSource source = .ed25519 me ∧ OpensTrustline issuer op.body := by
  unfold isOurTrust at htrust
  split at htrust
  · rename_i line limit hbody
    obtain ⟨hline, hsource⟩ := Bool.and_eq_true_iff.mp htrust
    refine ⟨effectiveSource_parse_eq.mp (of_decide_eq_true hsource), ?_⟩
    unfold hasPositiveLimit at hlimit
    rw [hbody] at hlimit
    obtain ⟨opSource, body⟩ := op
    cases body with
    | changeTrust line' limit' =>
      obtain ⟨rfl, rfl⟩ := Body.changeTrust.inj hbody
      obtain ⟨i, rfl, hissuer⟩ := isPinnedUsdc_map hline
      exact ⟨i, limit', rfl, hissuer, pos_of_amount hlimit⟩
    | createAccount | payment | createClaimableBalance | claimClaimableBalance
    | beginSponsoringFutureReserves | endSponsoringFutureReserves | other => cases hbody
  · cases htrust

theorem endsSponsoring (h : isOurEnd source.address (address me) op.parse = true) :
    op.effectiveSource source = .ed25519 me ∧ op.body = .endSponsoringFutureReserves := by
  unfold isOurEnd at h
  split at h
  · rename_i hbody
    refine ⟨effectiveSource_parse_eq.mp (of_decide_eq_true h), ?_⟩
    obtain ⟨opSource, body⟩ := op
    cases body with
    | endSponsoringFutureReserves => rfl
    | createAccount | payment | changeTrust | createClaimableBalance | claimClaimableBalance
    | beginSponsoringFutureReserves | other => cases hbody
  · cases h

theorem source_of_isOurBegin (h : isOurBegin source.address (address me) op.parse = true) :
    op.effectiveSource source ≠ .ed25519 me := by
  unfold isOurBegin at h
  split at h
  · have hne := of_decide_eq_true (Bool.and_eq_true_iff.mp h).2
    exact fun hsource => hne (effectiveSource_parse_eq.mpr hsource)
  · cases h

theorem source_of_isOurCreate (h : isOurCreate source.address (address me) op.parse = true) :
    op.effectiveSource source ≠ .ed25519 me := by
  unfold isOurCreate at h
  split at h
  · have hne := of_decide_eq_true (Bool.and_eq_true_iff.mp h).2
    exact fun hsource => hne (effectiveSource_parse_eq.mpr hsource)
  · cases h

variable (tx me net) in
/-- One of the two checks passes. -/
def Accepted : Prop :=
  assertSponsoredOnboarding tx.parse (address me) net = .ok () ∨
    assertSponsoredTrustline tx.parse (address me) net = .ok ()

variable (tx me issuer) in
/-- As the ledger resolves sources, `me` pays for nothing and sources a trustline and the end of its
sponsoring. -/
structure OnlyAuthorises : Prop where
  /-- Its sequence number and its fee are not spent. -/
  source : tx.source.account ≠ me
  operations : ∃ trust finish,
    tx.operations.filter (fun op => (op.effectiveSource tx.source).account = me) = [trust, finish] ∧
      OpensTrustline issuer trust.body ∧ finish.body = .endSponsoringFutureReserves

variable (tx me) in
/-- A source that the transaction states is a muxed address of `me`. -/
def MuxedAlias : Prop :=
  ∃ s ∈ tx.source :: tx.operations.filterMap (·.source), ∃ id, s = .med25519 id me

variable (tx me issuer) in
/-- What the texts say: the last two operations are those of `me`, and the others have the text of
another address. -/
structure Sandwich (sponsored : List (Operation Key MuxedAccount ℤ))
    (trust finish : Operation Key MuxedAccount ℤ) : Prop where
  source : tx.source ≠ .ed25519 me
  operations : tx.operations = sponsored ++ [trust, finish]
  others : ∀ op ∈ sponsored, op.effectiveSource tx.source ≠ .ed25519 me
  trustSource : trust.effectiveSource tx.source = .ed25519 me
  finishSource : finish.effectiveSource tx.source = .ed25519 me
  opens : OpensTrustline issuer trust.body
  ends : finish.body = .endSponsoringFutureReserves

theorem source_ne_of_address_ne (h : ¬source.address = address me) : source ≠ .ed25519 me :=
  fun hsource => h (MuxedAccount.address_eq.mpr hsource)

theorem sandwich_of_trustline (h : assertSponsoredTrustline tx.parse (address me) net = .ok ()) :
    ∃ sponsored trust finish, Sandwich tx me (pinnedUsdcIssuer net) sponsored trust finish := by
  obtain ⟨source, ops⟩ := tx
  rw [assertSponsoredTrustline, check_bind_eq_ok, failWhen_eq_ok] at h
  obtain ⟨hsource, hops⟩ := h
  rcases ops with _ | ⟨start, _ | ⟨trust, _ | ⟨finish, _ | ⟨more, rest⟩⟩⟩⟩ <;>
    simp only [Transaction.parse, List.map_cons, List.map_nil, reduceCtorEq] at hops
  simp only [check_bind_eq_ok, failWhen_eq_ok, Bool.not_eq_false, Bool.and_eq_true] at hops
  obtain ⟨hstart, ⟨htrust, hlimit⟩, hfinish⟩ := hops
  obtain ⟨htrustSource, hopens⟩ := opensTrustline htrust hlimit
  obtain ⟨hfinishSource, hends⟩ := endsSponsoring hfinish
  refine ⟨[start], trust, finish, source_ne_of_address_ne hsource, rfl, ?_, htrustSource,
    hfinishSource, hopens, hends⟩
  intro op hop
  rw [List.mem_singleton.mp hop]
  exact source_of_isOurBegin hstart

theorem sandwich_of_onboarding (h : assertSponsoredOnboarding tx.parse (address me) net = .ok ()) :
    ∃ sponsored trust finish, Sandwich tx me (pinnedUsdcIssuer net) sponsored trust finish := by
  obtain ⟨source, ops⟩ := tx
  rw [assertSponsoredOnboarding, check_bind_eq_ok, failWhen_eq_ok] at h
  obtain ⟨hsource, hops⟩ := h
  rcases ops with _ | ⟨start, _ | ⟨create, _ | ⟨trust, _ | ⟨finish, _ | ⟨more, rest⟩⟩⟩⟩⟩ <;>
    simp only [Transaction.parse, List.map_cons, List.map_nil, reduceCtorEq] at hops
  simp only [check_bind_eq_ok, failWhen_eq_ok, Bool.not_eq_false] at hops
  obtain ⟨hstart, hcreate, htrust, hlimit, hfinish⟩ := hops
  obtain ⟨htrustSource, hopens⟩ := opensTrustline htrust hlimit
  obtain ⟨hfinishSource, hends⟩ := endsSponsoring hfinish
  refine ⟨[start, create], trust, finish, source_ne_of_address_ne hsource, rfl, ?_, htrustSource,
    hfinishSource, hopens, hends⟩
  intro op hop
  rcases List.mem_pair.mp hop with rfl | rfl
  · exact source_of_isOurBegin hstart
  · exact source_of_isOurCreate hcreate

theorem Accepted.sandwich (h : Accepted tx me net) :
    ∃ sponsored trust finish, Sandwich tx me (pinnedUsdcIssuer net) sponsored trust finish := by
  rcases h with h | h
  · exact sandwich_of_onboarding h
  · exact sandwich_of_trustline h

variable {sponsored : List (Operation Key MuxedAccount ℤ)} {trust finish : Operation Key MuxedAccount ℤ}

/-- The operations that the ledger asks `me` for: the two, and those of the others that a muxed
address makes its own. -/
theorem Sandwich.filter (h : Sandwich tx me issuer sponsored trust finish) :
    tx.operations.filter (fun op => (op.effectiveSource tx.source).account = me) =
      sponsored.filter (fun op => (op.effectiveSource tx.source).account = me) ++ [trust, finish] := by
  rw [h.operations, List.filter_append]
  congr 1
  refine List.filter_eq_self.mpr fun op hop => decide_eq_true ?_
  rcases List.mem_pair.mp hop with rfl | rfl
  · rw [h.trustSource, MuxedAccount.account]
  · rw [h.finishSource, MuxedAccount.account]

/-- An account that is `me` is so by its key or by a muxed address. -/
theorem muxed_of_account_eq (hne : source ≠ .ed25519 me) (h : source.account = me) :
    ∃ id, source = .med25519 id me := by
  cases source with
  | ed25519 key => exact absurd (congrArg MuxedAccount.ed25519 h) hne
  | med25519 id key =>
    rw [← show key = me from h]
    exact ⟨id, rfl⟩

/-- **What a device signs.** A transaction that passes authorises nothing but the trustline and the
end of its sponsoring, exactly when none of its sources is a muxed address of `me`. -/
theorem guarded_iff (h : Accepted tx me net) :
    OnlyAuthorises tx me (pinnedUsdcIssuer net) ↔ ¬MuxedAlias tx me := by
  obtain ⟨sponsored, trust, finish, hs⟩ := h.sandwich
  constructor
  · rintro ⟨hsource, trust', finish', hfilter, -⟩ ⟨s, hmem, id, rfl⟩
    rcases List.mem_cons.mp hmem with heq | hmem
    · exact hsource (by rw [← heq, MuxedAccount.account])
    obtain ⟨op, hop, hopSource⟩ := List.mem_filterMap.mp hmem
    have heffective : op.effectiveSource tx.source = .med25519 id me := by
      rw [Operation.effectiveSource, hopSource, Option.getD_some]
    -- The two operations of `me` state another source.
    have hsponsored : op ∈ sponsored := by
      rw [hs.operations] at hop
      rcases List.mem_append.mp hop with hop | hop
      · exact hop
      · rcases List.mem_pair.mp hop with rfl | rfl
        · cases heffective.symm.trans hs.trustSource
        · cases heffective.symm.trans hs.finishSource
    have hlength := congrArg List.length (hs.filter.symm.trans hfilter)
    have hin : op ∈ sponsored.filter (fun op => (op.effectiveSource tx.source).account = me) := by
      refine List.mem_filter.mpr ⟨hsponsored, decide_eq_true ?_⟩
      rw [heffective, MuxedAccount.account]
    have hpos := List.length_pos_of_mem hin
    rw [List.length_append, List.length_cons, List.length_singleton, List.length_cons,
      List.length_singleton] at hlength
    omega
  · intro hno
    have hplain : ∀ op ∈ sponsored, (op.effectiveSource tx.source).account ≠ me := by
      intro op hop haccount
      obtain ⟨id, hid⟩ := muxed_of_account_eq (hs.others op hop) haccount
      refine hno ⟨_, ?_, id, hid⟩
      cases hopSource : op.source with
      | none =>
        rw [Operation.effectiveSource, hopSource, Option.getD_none]
        exact List.mem_cons_self
      | some s =>
        rw [Operation.effectiveSource, hopSource, Option.getD_some]
        refine List.mem_cons_of_mem _ (List.mem_filterMap.mpr ⟨op, ?_, hopSource⟩)
        rw [hs.operations]
        exact List.mem_append_left _ hop
    refine ⟨fun haccount => ?_, trust, finish, ?_, hs.opens, hs.ends⟩
    · obtain ⟨id, hid⟩ := muxed_of_account_eq hs.source haccount
      exact hno ⟨_, List.mem_cons_self, id, hid⟩
    · rw [hs.filter, List.filter_eq_nil_iff.mpr, List.nil_append]
      intro op hop
      rw [decide_eq_true_eq]
      exact hplain op hop

end

namespace Demo

/-- The onboarding of the account of key 4, in a transaction of `source`. -/
def onboarding (source : MuxedAccount) : LedgerTx where
  source := source
  operations := [
    ⟨some (.ed25519 1), .beginSponsoringFutureReserves 4⟩,
    ⟨some (.ed25519 1), .createAccount 4 0⟩,
    ⟨some (.ed25519 4), .changeTrust
      (.asset (.credit "USDC" (addressKey (pinnedUsdcIssuer .testnet)))) (2 ^ 63 - 1)⟩,
    ⟨some (.ed25519 4), .endSponsoringFutureReserves⟩]

end Demo

theorem guarded_iff_onboarding :
    OnlyAuthorises (Demo.onboarding (.ed25519 1)) 4 (pinnedUsdcIssuer .testnet) := by
  have haccepted : Accepted (Demo.onboarding (.ed25519 1)) 4 .testnet := .inl (by decide +kernel)
  refine (guarded_iff haccepted).mpr ?_
  rintro ⟨s, hmem, id, rfl⟩
  simp [Demo.onboarding] at hmem

/-- A transaction whose own source is a muxed address of `me` passes. -/
theorem muxed_source_passes : ¬∀ (tx : LedgerTx) (me : Key) (net : NetworkId),
    Accepted tx me net → OnlyAuthorises tx me (pinnedUsdcIssuer net) := by
  intro hall
  have haccepted : Accepted (Demo.onboarding (.med25519 7 4)) 4 .testnet := .inl (by decide +kernel)
  exact (hall _ _ _ haccepted).source rfl

end Lumenia.Web
