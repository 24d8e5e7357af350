import Lumenia.Sponsor.Deposit
import Lumenia.Sponsor.SubmitSafety
import Lumenia.Theory.Parallel
import Mathlib.Data.Int.ConditionallyCompleteOrder

/-!
# The bids of the relays

`relayReclaimHandler` of `apps/sponsor/src/lib/soroban-relay.ts`, the sibling of the deposit relay: a
reclaim that its sender has signed is checked, simulated and sent in a fee-bump. Whatever the sender
has signed and the RPC answers, the two relays charge and sign a bid of `2 * (I - R) + R` only, for the
fee `I` of the transaction and the resource fee `R` that it declares (`bids_bounded`).
-/

namespace Lumenia.Sponsor

open Dialogue

/-! ## The reclaim relay -/

structure RelayConfig extends DepositConfig where
  lumendropLegacyContracts : List String

/-- The contract of an exit, which may be a superseded one. -/
def exitContract (cfg : RelayConfig) (current requested : String) : Except OwnError String :=
  if requested = "" ∨ requested = current then return current
  else if requested ∈ cfg.lumendropLegacyContracts then return requested
  else throw (.thrown ("contract not allowed: " ++ requested))

def allowedReclaimMethods : List String := ["reclaim", "reclaim_pool"]

def v2ReclaimInclusionHeadroom : ℤ := 2500000

/-- The call in the one operation of a reclaim. -/
def reclaimCall (cfg : RelayConfig) (current : String) : List InnerOp → Except OwnError Unit
  | [.invokeContract called fn _] => do
    let _ ← exitContract cfg current called
    failWhen (fn ∉ allowedReclaimMethods)
      (.thrown ("only reclaim/reclaim_pool is relayed here, got '" ++ fn ++ "'"))
  | [.hostFunction] => .error (.thrown "not a contract call")
  | [.classic] => .error (.thrown "not a contract invoke")
  | _ => .error (.thrown "reclaim tx must have exactly 1 op")

/-- Everything that is checked before the simulation. -/
def checkReclaim (cfg : RelayConfig) (input : RelayDepositInput) :
    Except OwnError InnerTransaction := do
  match cfg.lumendropContract, input.inner with
  | none, _ => throw (.thrown "v2 relayer not configured (LUMENDROP_CONTRACT unset)")
  | _, .error message => throw (.thrown message)
  | some contract, .ok inner =>
    failWhen (inner.source ≠ input.senderPublicKey)
      (.thrown ("unexpected inner source " ++ shortKey inner.source))
    reclaimCall cfg contract inner.operations
    failWhen (inner.fee > v2DepositFeeCap)
      (.thrown ("inner fee " ++ toString inner.fee ++ " exceeds cap " ++ toString v2DepositFeeCap))
    return inner

/-- The fee is what the reclaim needs, not what its sender wrote. -/
def checkReclaimSimulation (inner : InnerTransaction) (sim : Simulated) : Except OwnError Unit :=
  match sim.error with
  | some error => .error (.thrown ("v2-reclaim would fail: " ++ simErrorHead error))
  | none =>
    match parseInt sim.minResourceFee with
    | none => .error (.thrown "v2-reclaim simulation named no resource fee")
    | some minResourceFee => do
      let needed := minResourceFee + v2ReclaimInclusionHeadroom
      failWhen ((inner.fee : ℤ) > needed)
        (.thrown ("inner fee " ++ toString inner.fee ++ " exceeds what the reclaim needs (" ++
          toString needed ++ ")"))
      refuseOversizedResourceFee inner "v2-reclaim"

/-- The fee-bump to sign, with a bid of at most twice the inner fee. -/
def reclaimFeeBump (cfg : RelayConfig) (inner : InnerTransaction) : Except OwnError Payable := do
  let base ← feeBumpBase inner
  match cfg.buildFeeBump base inner with
  | .error message => throw (.thrown message)
  | .ok feeBump =>
    failWhen (feeBump.fee > 2 * inner.fee)
      (.thrown ("v2-reclaim: fee-bump bid " ++ toString feeBump.fee ++
        " exceeds twice the inner fee " ++ toString inner.fee))
    return feeBump

/-- Accepted and undecided is no failure. -/
def reclaimWatched (w : Watched) : Route Relayed :=
  match w.got.status with
  | .FAILED => throw (.error "v2-reclaim tx FAILED")
  | .SUCCESS => return ⟨w.hash, true⟩
  | .NOT_FOUND | .other => return ⟨w.hash, false⟩

/-- The gasless reclaim relayer. -/
def relayReclaim (cfg : RelayConfig) (input : RelayDepositInput) : Route Relayed :=
  match checkReclaim cfg input with
  | .error e => throw e.failure
  | .ok inner => do
    match ← wait .simulateTransaction with
    | .error t => throw (.passed t)
    | .ok sim =>
      match checkReclaimSimulation inner sim with
      | .error e => throw e.failure
      | .ok () =>
        match reclaimFeeBump cfg inner with
        | .error e => throw e.failure
        | .ok feeBump => do
          let w ← payAndSubmit feeBump "v2-reclaim" ⟨40, 0⟩
          reclaimWatched w

inductive Relay
  | deposit
  | reclaim
  deriving DecidableEq

def Relay.handler : Relay → RelayConfig → RelayDepositInput → Route Relayed
  | deposit, cfg => relayDeposit cfg.toDepositConfig
  | reclaim, cfg => relayReclaim cfg

/-! ## What is charged and signed -/

/-- Only the fee of this transaction is charged, and only this transaction is signed. -/
def Await.Pays (built : Option Payable) : Await → Prop
  | chargeSponsorFee fee => ∃ tx ∈ built, tx.fee = fee
  | sign tx => built = some tx
  | _ => True

section

variable {bumped : Option Payable} {feeBump : Payable} {label : String} {window : Window}

theorem asks_pauseUnless {isFirst : Bool} : (pauseUnless isFirst).Asks (Await.Pays bumped) :=
  asks_ite asks_pure (asks_question trivial)

theorem asks_pollReads {hash : Option String} {reserve : ℤ} {reads : ℕ} {isFirst : Bool}
    {got : Polled} : (pollReads hash reserve reads isFirst got).Asks (Await.Pays bumped) := by
  induction reads generalizing isFirst got with
  | zero => exact asks_pure
  | succ reads ih =>
    refine asks_ask.mpr ⟨trivial, fun left => asks_ite asks_pure ?_⟩
    apply asks_pauseUnless.bind
    intro _
    refine asks_ask.mpr ⟨trivial, fun answer => ?_⟩
    cases answer with
    | error t => exact asks_throw
    | ok got => exact asks_ite asks_pure ih

theorem asks_signCharged (hbumped : bumped = some feeBump) : (signCharged feeBump).Asks (Await.Pays bumped) := by
  refine asks_ask.mpr ⟨hbumped, fun answer => ?_⟩
  cases answer with
  | error t => exact asks_ask.mpr ⟨trivial, fun _ => asks_throw⟩
  | ok u => exact asks_pure

theorem asks_watch {sent : Sent} : (watch sent window).Asks (Await.Pays bumped) := by
  apply Asks.bind asks_pollReads
  intro seen
  exact asks_ite (Asks.bind (asks_question trivial) fun _ => asks_pure) asks_pure

theorem asks_sendSigned : (sendSigned feeBump label window).Asks (Await.Pays bumped) := by
  unfold sendSigned
  cases feeBump.hash with
  | none => exact asks_throw
  | some hash =>
    refine asks_ask.mpr ⟨trivial, fun answer => ?_⟩
    cases answer with
    | error t => exact asks_ite (asks_ask.mpr ⟨trivial, fun _ => asks_throw⟩) asks_throw
    | ok sent =>
      change (sendAnswered label window sent).Asks _
      unfold sendAnswered
      cases sent.status with
      | ERROR | TRY_AGAIN_LATER => exact asks_ask.mpr ⟨trivial, fun _ => asks_throw⟩
      | PENDING | DUPLICATE | other => exact asks_watch

/-- The bid is that of the fee-bump. -/
theorem asks_payAndSubmit : (payAndSubmit feeBump label window).Asks (Await.Pays (some feeBump)) := by
  refine asks_ask.mpr ⟨⟨feeBump, rfl, rfl⟩, fun answer => ?_⟩
  cases answer with
  | error e => exact asks_throw
  | ok charge =>
    have hsign : (signCharged feeBump).Asks (Await.Pays (some feeBump)) := asks_signCharged rfl
    exact hsign.bind fun _ => asks_sendSigned

theorem asks_releaseOnce {release released : Bool} :
    (releaseOnce release released).Asks (Await.Pays bumped) :=
  asks_ite (Asks.bind (asks_question trivial) fun _ => asks_pure) asks_pure

variable {cfg : RelayConfig} {inner : InnerTransaction}

theorem asks_depositAttempt {release : Bool} : (depositAttempt cfg.toDepositConfig inner release).Asks
    (Await.Pays (depositFeeBump cfg.toDepositConfig inner).toOption) := by
  unfold depositAttempt
  cases depositFeeBump cfg.toDepositConfig inner with
  | error e => exact asks_pure
  | ok feeBump =>
    apply Asks.bind asks_payAndSubmit.outcome
    intro r
    cases r with
    | error e => exact asks_pure
    | ok w =>
      change (depositWatched release w).Asks _
      unfold depositWatched
      cases w.got.status with
      | SUCCESS | NOT_FOUND | other => exact asks_pure
      | FAILED => exact Asks.bind asks_releaseOnce fun _ => asks_pure

theorem asks_depositReserved {release : Bool} : (depositReserved cfg.toDepositConfig inner release).Asks
    (Await.Pays (depositFeeBump cfg.toDepositConfig inner).toOption) := by
  apply Asks.bind asks_depositAttempt
  intro r
  obtain ⟨r, released⟩ := r
  cases r with
  | ok relayed => exact asks_pure
  | error e =>
    exact asks_ite (asks_releaseOnce.bind fun _ => asks_throw) asks_throw

/-! ## The bound -/

/-- The base of a fee-bump and its bid, for a transaction whose simulation has named this minimum. -/
structure BoundedBid (inner : InnerTransaction) (minResourceFee base : ℤ) (bid : ℕ) : Prop where
  base : 100 ≤ base ∧ base ≤ inner.fee
  total : (bid : ℤ) = 2 * (inner.fee - inner.resourceFee) + inner.resourceFee
  twice : bid ≤ 2 * inner.fee
  bounded : (bid : ℤ) ≤ 2 * min 20000000 (minResourceFee + 2500000)
  /-- Nothing that the bid is computed from is negative. -/
  nonneg : 0 ≤ inner.resourceFee ∧ 0 ≤ (inner.fee : ℤ) - inner.resourceFee
  /-- Where the sum of the minimum and its headroom is rounded to a `number`, no fee is judged
  otherwise for it. All else is far below the numbers that are. -/
  rounded : ∀ round : ℤ → ℤ, Monotone round → (∀ n, |n| ≤ 2 ^ 53 → round n = n) →
    (inner.fee : ℤ) ≤ round (round minResourceFee + 2500000)

/-- What the SDK bids around a transaction: the base for each of its operations and the fee-bump's
own, and its resource fee. -/
def BuildsBids (buildFeeBump : ℤ → InnerTransaction → Except String Payable) : Prop :=
  ∀ base inner feeBump, buildFeeBump base inner = .ok feeBump →
    (feeBump.fee : ℤ) = base * (inner.operations.length + 1) + inner.resourceFee

/-- Rounding leaves a small number below what it rounds. -/
theorem le_round {round : ℤ → ℤ} (hmono : Monotone round) (hround : ∀ n, |n| ≤ 2 ^ 53 → round n = n)
    {fee m : ℤ} (hfee : |fee| ≤ 20000000) (hle : fee ≤ m + 2500000) :
    fee ≤ round (round m + 2500000) := by
  have hfee' : -20000000 ≤ fee ∧ fee ≤ 20000000 := abs_le.mp hfee
  have hm : fee - 2500000 ≤ round m := by
    rw [← hround (fee - 2500000) (abs_le.mpr (by omega))]
    exact hmono (by omega)
  rw [← hround fee (abs_le.mpr (by omega))]
  exact hmono (by omega)

variable {minResourceFee : ℤ} {route : String}

theorem refuseOversized_eq_ok : refuseOversizedResourceFee inner route = .ok () ↔
    0 ≤ inner.resourceFee ∧ inner.resourceFee ≤ (inner.fee : ℤ) - 100 := by
  rw [refuseOversizedResourceFee, check_bind_eq_ok, failWhen_eq_ok, failWhen_eq_ok, not_lt, not_lt]

/-- For one operation the base is its inclusion fee. -/
theorem feeBumpBase_eq {base : ℤ} (hone : inner.operations.length = 1)
    (hfits : 0 ≤ inner.resourceFee ∧ inner.resourceFee ≤ (inner.fee : ℤ) - 100)
    (h : feeBumpBase inner = .ok base) : base = inner.fee - inner.resourceFee := by
  simp only [feeBumpBase, hone, check_bind_eq_ok, failWhen_eq_ok] at h
  obtain ⟨-, -, hbase⟩ := h
  have hmax : max (((inner.fee : ℤ) + max 1 ((1 : ℕ) : ℤ) - 1).tdiv (max 1 ((1 : ℕ) : ℤ)) -
      inner.resourceFee) 100 = base := Except.ok.inj hbase
  rw [Nat.cast_one, max_self, Int.tdiv_one, add_sub_cancel_right, max_eq_left (by omega)] at hmax
  exact hmax.symm

/-- **What the guards leave of a bid.** -/
theorem boundedBid {base : ℤ} (hbuild : BuildsBids cfg.buildFeeBump)
    (hone : inner.operations.length = 1) (hcap : inner.fee ≤ v2DepositFeeCap)
    (hneeded : (inner.fee : ℤ) ≤ minResourceFee + 2500000)
    (hfits : 0 ≤ inner.resourceFee ∧ inner.resourceFee ≤ (inner.fee : ℤ) - 100)
    (hbase : feeBumpBase inner = .ok base) (hbuilt : cfg.buildFeeBump base inner = .ok feeBump) :
    BoundedBid inner minResourceFee base feeBump.fee := by
  have hcap' : inner.fee ≤ 20000000 := hcap
  have heq := feeBumpBase_eq hone hfits hbase
  have hbid := hbuild base inner feeBump hbuilt
  rw [hone, heq] at hbid
  have htotal : (feeBump.fee : ℤ) = 2 * (inner.fee - inner.resourceFee) + inner.resourceFee := by
    rw [hbid]
    ring
  refine ⟨by omega, htotal, by omega, ?_, by omega, fun round hmono hround => ?_⟩
  · have hmin : (inner.fee : ℤ) ≤ min 20000000 (minResourceFee + 2500000) :=
      le_min (by omega) hneeded
    omega
  · exact le_round hmono hround (abs_le.mpr (by omega)) hneeded

/-! ## What has been checked -/

variable {input : RelayDepositInput} {sim : Simulated} {feeBump : Payable}

theorem length_of_depositCall {contract : String} {ops : List InnerOp} {r : String × List ScArg}
    (h : depositCall contract ops = .ok r) : ops.length = 1 := by
  unfold depositCall at h
  split at h
  · rfl
  · rfl
  · rfl
  · cases h

theorem length_of_reclaimCall {contract : String} {ops : List InnerOp}
    (h : reclaimCall cfg contract ops = .ok ()) : ops.length = 1 := by
  unfold reclaimCall at h
  split at h
  · rfl
  · rfl
  · rfl
  · cases h

variable (inner input) in
/-- A transaction of one operation, and a fee under the cap. -/
structure Plain : Prop where
  parsed : input.inner = .ok inner
  one : inner.operations.length = 1
  cap : inner.fee ≤ v2DepositFeeCap

theorem plain_of_checkDeposit {amountStroops : ℤ}
    (h : checkDeposit cfg.toDepositConfig input = .ok (inner, amountStroops)) : Plain inner input := by
  unfold checkDeposit at h
  split at h
  · cases h
  · cases h
  · rename_i contract parsed hcontract hparsed
    rw [check_bind_eq_ok] at h
    obtain ⟨-, h⟩ := h
    cases hcall : depositCall contract parsed.operations with
    | error e =>
      rw [hcall] at h
      cases h
    | ok call =>
      rw [hcall] at h
      obtain ⟨hcap, h⟩ := check_bind_eq_ok.mp h
      obtain ⟨amount, -, hinner⟩ := value_bind_eq_ok.mp h
      obtain ⟨rfl, -⟩ := Prod.mk.inj (Except.ok.inj hinner)
      exact ⟨hparsed, length_of_depositCall hcall, not_lt.mp (failWhen_eq_ok.mp hcap)⟩

theorem plain_of_checkReclaim (h : checkReclaim cfg input = .ok inner) : Plain inner input := by
  unfold checkReclaim at h
  split at h
  · cases h
  · cases h
  · rename_i contract parsed hcontract hparsed
    simp only [check_bind_eq_ok, failWhen_eq_ok] at h
    obtain ⟨-, hcall, hcap, hinner⟩ := h
    obtain rfl := Except.ok.inj hinner
    exact ⟨hparsed, length_of_reclaimCall hcall, not_lt.mp hcap⟩

variable {m : ℤ}

theorem refuseOversized_of_needed {c : Prop} [Decidable c] {e : OwnError}
    (h : (failWhen c e >>= fun _ => refuseOversizedResourceFee inner route) = .ok ()) :
    ¬c ∧ 0 ≤ inner.resourceFee ∧ inner.resourceFee ≤ (inner.fee : ℤ) - 100 := by
  obtain ⟨hneeded, hfits⟩ := check_bind_eq_ok.mp h
  exact ⟨failWhen_eq_ok.mp hneeded, refuseOversized_eq_ok.mp hfits⟩

variable (inner sim) in
/-- The fee is what the simulation has named, and covers its resource fee. -/
structure Needed (m : ℤ) : Prop where
  named : parseInt sim.minResourceFee = some m
  needed : (inner.fee : ℤ) ≤ m + 2500000
  fits : 0 ≤ inner.resourceFee ∧ inner.resourceFee ≤ (inner.fee : ℤ) - 100

theorem needed_of_checkSimulation (h : checkSimulation inner sim = .ok ()) :
    ∃ m, Needed inner sim m := by
  unfold checkSimulation at h
  split at h
  · cases h
  · split at h
    · cases h
    · next m hnamed =>
      obtain ⟨hneeded, hfits⟩ := refuseOversized_of_needed h
      exact ⟨m, hnamed, not_lt.mp hneeded, hfits⟩

theorem needed_of_checkReclaimSimulation (h : checkReclaimSimulation inner sim = .ok ()) :
    ∃ m, Needed inner sim m := by
  unfold checkReclaimSimulation at h
  split at h
  · cases h
  · split at h
    · cases h
    · next m hnamed =>
      obtain ⟨hneeded, hfits⟩ := refuseOversized_of_needed h
      exact ⟨m, hnamed, not_lt.mp hneeded, hfits⟩

/-- Both relays build the fee-bump from the base of the transaction. -/
def Built (cfg : RelayConfig) (inner : InnerTransaction) (built : Except OwnError Payable) : Prop :=
  ∀ feeBump, built = .ok feeBump →
    ∃ base, feeBumpBase inner = .ok base ∧ cfg.buildFeeBump base inner = .ok feeBump

theorem built_depositFeeBump : Built cfg inner (depositFeeBump cfg.toDepositConfig inner) := by
  intro feeBump h
  obtain ⟨base, hbase, h⟩ := value_bind_eq_ok.mp h
  refine ⟨base, hbase, ?_⟩
  cases hbuilt : cfg.buildFeeBump base inner with
  | error message =>
    rw [hbuilt] at h
    cases h
  | ok bumped =>
    rw [hbuilt] at h
    obtain ⟨-, heq⟩ := check_bind_eq_ok.mp h
    exact congrArg _ (Except.ok.inj heq)

theorem built_reclaimFeeBump : Built cfg inner (reclaimFeeBump cfg inner) := by
  intro feeBump h
  obtain ⟨base, hbase, h⟩ := value_bind_eq_ok.mp h
  refine ⟨base, hbase, ?_⟩
  cases hbuilt : cfg.buildFeeBump base inner with
  | error message =>
    rw [hbuilt] at h
    cases h
  | ok bumped =>
    rw [hbuilt] at h
    obtain ⟨-, heq⟩ := check_bind_eq_ok.mp h
    exact congrArg _ (Except.ok.inj heq)

/-! ## Whole runs -/

/-- The charge of a fee, and the signature. -/
def Await.pays : Await → Bool
  | chargeSponsorFee _ | sign _ => true
  | _ => false

/-- What a run has charged and signed is a fee-bump around the transaction it was given, for the
simulation it was told. -/
structure Bidding (cfg : RelayConfig) (input : RelayDepositInput) (h : History)
    (inner : InnerTransaction) (m base : ℤ) (feeBump : Payable) : Prop where
  parsed : input.inner = .ok inner
  simulated : ∃ sim, ⟨.simulateTransaction, .ok sim⟩ ∈ h ∧ parseInt sim.minResourceFee = some m
  bumped : feeBumpBase inner = .ok base
  built : cfg.buildFeeBump base inner = .ok feeBump
  charged : ∀ fee answer, ⟨.chargeSponsorFee fee, answer⟩ ∈ h → fee = feeBump.fee
  signed : ∀ tx answer, ⟨.sign tx, answer⟩ ∈ h → tx = feeBump

variable (cfg input) in
def Bounded (h : History) : Prop := (∃ e ∈ h, e.1.pays) →
  ∃ inner m base feeBump, Bidding cfg input h inner m base feeBump ∧
    BoundedBid inner m base feeBump.fee

theorem bounded_of_quiet {h : History} (hquiet : ∀ e ∈ h, e.1.pays = false) : Bounded cfg input h := by
  rintro ⟨e, he, hpays⟩
  rw [hquiet e he] at hpays
  cases hpays

/-- After the checks, whatever is charged and signed is bounded. -/
theorem wp_bounded {built : Except OwnError Payable} {p : Route Relayed} {h : History}
    (hbuild : BuildsBids cfg.buildFeeBump) (hplain : Plain inner input) (hneeded : Needed inner sim m)
    (hbuilt : Built cfg inner built) (hp : p.Asks (Await.Pays built.toOption))
    (hsim : ⟨.simulateTransaction, .ok sim⟩ ∈ h) (hquiet : ∀ e ∈ h, e.1.pays = false) :
    p.wp (recorded fun _ _ => True) (fun _ => Bounded cfg input) h := by
  refine wp_mono (fun r h' => ?_) hp.wp_recorded
  rintro ⟨hsub, hasked⟩ ⟨e, he, hpays⟩
  have hlater : ∀ e ∈ h', e.1.pays → Await.Pays built.toOption e.1 := by
    intro e he hpays
    refine (hasked e he).resolve_left fun hmem => ?_
    rw [hquiet e hmem] at hpays
    cases hpays
  obtain ⟨feeBump, rfl⟩ : ∃ feeBump, built = .ok feeBump := by
    have hbumped : ∃ tx, built.toOption = some tx := by
      obtain ⟨q, answer⟩ := e
      cases q with
      | chargeSponsorFee fee =>
        obtain ⟨tx, htx, -⟩ := hlater _ he rfl
        exact ⟨tx, htx⟩
      | sign tx => exact ⟨tx, hlater _ he rfl⟩
      | _ => cases hpays
    cases built with
    | error e => exact absurd hbumped.choose_spec nofun
    | ok feeBump => exact ⟨feeBump, rfl⟩
  obtain ⟨base, hbase, hmade⟩ := hbuilt feeBump rfl
  refine ⟨inner, m, base, feeBump, ⟨hplain.parsed, ⟨sim, hsub hsim, hneeded.named⟩, hbase, hmade, ?_, ?_⟩,
    boundedBid hbuild hplain.one hplain.cap hneeded.needed hneeded.fits hbase hmade⟩
  · intro fee answer hmem
    obtain ⟨tx, htx, hfee⟩ := hlater _ hmem rfl
    rw [← hfee, ← Option.some.inj htx]
  · intro tx answer hmem
    exact (Option.some.inj (hlater _ hmem rfl)).symm

theorem wp_relayDeposit_bounded (hbuild : BuildsBids cfg.buildFeeBump) :
    (relayDeposit cfg.toDepositConfig input).wp (recorded fun _ _ => True)
      (fun _ => Bounded cfg input) [] := by
  unfold relayDeposit
  split
  · exact wp_throw.mpr (bounded_of_quiet (List.forall_mem_nil _))
  rename_i inner amountStroops hchecked
  rw [wp_recorded_bind]
  intro answer _
  cases answer with
  | error t => exact wp_throw.mpr (bounded_of_quiet (by simp [Await.pays]))
  | ok sim =>
    dsimp only
    split
    · exact wp_throw.mpr (bounded_of_quiet (by simp [Await.pays]))
    rename_i hsim
    obtain ⟨m, hneeded⟩ := needed_of_checkSimulation hsim
    rw [wp_recorded_bind]
    intro verdict _
    cases verdict with
    | refused reason => exact wp_throw.mpr (bounded_of_quiet (by simp [Await.pays]))
    | admitted release =>
      exact wp_bounded hbuild (plain_of_checkDeposit hchecked) hneeded built_depositFeeBump
        asks_depositReserved (by simp) (by simp [Await.pays])

theorem asks_reclaimWatched {w : Watched} : (reclaimWatched w).Asks (Await.Pays bumped) := by
  unfold reclaimWatched
  cases w.got.status with
  | FAILED => exact asks_throw
  | SUCCESS | NOT_FOUND | other => exact asks_pure

theorem wp_relayReclaim_bounded (hbuild : BuildsBids cfg.buildFeeBump) :
    (relayReclaim cfg input).wp (recorded fun _ _ => True) (fun _ => Bounded cfg input) [] := by
  unfold relayReclaim
  split
  · exact wp_throw.mpr (bounded_of_quiet (List.forall_mem_nil _))
  rename_i inner hchecked
  rw [wp_recorded_bind]
  intro answer _
  cases answer with
  | error t => exact wp_throw.mpr (bounded_of_quiet (by simp [Await.pays]))
  | ok sim =>
    dsimp only
    split
    · exact wp_throw.mpr (bounded_of_quiet (by simp [Await.pays]))
    rename_i hsim
    obtain ⟨m, hneeded⟩ := needed_of_checkReclaimSimulation hsim
    split
    · exact wp_throw.mpr (bounded_of_quiet (by simp [Await.pays]))
    rename_i feeBump hbump
    refine wp_bounded hbuild (plain_of_checkReclaim hchecked) hneeded
      (hbump ▸ built_reclaimFeeBump) ?_ (by simp) (by simp [Await.pays])
    exact asks_payAndSubmit.bind fun w => asks_reclaimWatched

/-- **The bids are bounded.** Whatever the transaction declares and the simulation answers, a run of
either relay that charges a fee or signs does so for a fee-bump whose base is within the minimum and
the fee of the transaction, and whose bid is at most twice what the transaction needs. -/
theorem bids_bounded {relay : Relay} {r : Except Failure Relayed} {h : History}
    (hbuild : BuildsBids cfg.buildFeeBump)
    (hrun : Runs (recorded fun _ _ => True) (relay.handler cfg input) [] r h)
    (hpays : ∃ e ∈ h, e.1.pays) : ∃ inner m base feeBump,
      Bidding cfg input h inner m base feeBump ∧ BoundedBid inner m base feeBump.fee := by
  cases relay with
  | deposit => exact hrun.sound (wp_relayDeposit_bounded hbuild) hpays
  | reclaim => exact hrun.sound (wp_relayReclaim_bounded hbuild) hpays

end

namespace Demo

/-- An SDK that refuses a base below its minimum. -/
def buildFeeBump (base : ℤ) (inner : InnerTransaction) : Except String Payable :=
  let bid := base * (inner.operations.length + 1) + inner.resourceFee
  if 100 ≤ base ∧ 0 ≤ bid then .ok ⟨bid.toNat, some "ab"⟩ else .error "Invalid baseFee"

theorem buildsBids : BuildsBids buildFeeBump := by
  intro base inner feeBump h
  simp only [buildFeeBump] at h
  split at h
  · next hfits =>
    obtain rfl := Except.ok.inj h
    exact Int.toNat_of_nonneg hfits.2
  · cases h

def relayConfig : RelayConfig := ⟨⟨some "escrow", true, none, limits, buildFeeBump⟩, ["superseded"]⟩

/-- A reclaim from a superseded contract, by the account that signed. -/
def reclaimInput : RelayDepositInput where
  inner := .ok ⟨"sender", 2100000, 100000, [.invokeContract "superseded" "reclaim" []]⟩
  senderPublicKey := "sender"

def reclaimRun : Except Failure Relayed × History :=
  (Relay.reclaim.handler relayConfig reclaimInput).play
    (network (.error unavailable) (.error unavailable) included) []

theorem runs_reclaimRun : Runs (recorded fun _ _ => True)
    (Relay.reclaim.handler relayConfig reclaimInput) [] reclaimRun.1 reclaimRun.2 :=
  runs_play (fun _ _ => trivial) _ _

end Demo

/-- The reclaim lands. -/
theorem bids_bounded_reclaim : Demo.reclaimRun.1 = .ok ⟨some "ab", true⟩ ∧
    ∃ inner m base feeBump,
      Bidding Demo.relayConfig Demo.reclaimInput Demo.reclaimRun.2 inner m base feeBump ∧
        BoundedBid inner m base feeBump.fee := by
  refine ⟨by decide +kernel, bids_bounded Demo.buildsBids Demo.runs_reclaimRun ?_⟩
  have hsigned : (Demo.reclaimRun.2.any fun e => e.1.pays) = true := by decide +kernel
  exact List.any_eq_true.mp hsigned

end Lumenia.Sponsor
