import Lumenia.Sponsor.DayKeys
import Lumenia.Sponsor.Kv
import Mathlib.Algebra.Order.Floor.Defs
import Mathlib.Data.Rat.Floor

/-!
# The sponsor's fee budget

`chargeSponsorFee` of `apps/sponsor/src/lib/caps.ts`: the fee a transaction bids is counted for its
UTC day before the sponsor signs, and the count moves once more when the network has decided the
transaction. When the store cannot be read, the fee is counted in the memory of the process.

The closure of a charge has one variable, `open`. It lives here in the memory of the process, under
the index of the request; and instead of `false` the model keeps the call that closed it. The steps
a process takes in its memory are finer than between two awaits of the source, so the model has more
interleavings. What the functions print on the console is left out.
-/

namespace Lumenia.Sponsor

/-! ## Amounts -/

/-- A `bigint`, a `number` (`none` where it is not finite) or a `string`. -/
inductive Fee
  | bigint (n : ℤ)
  | number (x : Option ℚ)
  | string (s : String)
  deriving DecidableEq

/-- `/^\d+$/`, and the number it spells. -/
def digits (cs : List Char) : Option ℕ :=
  if cs ≠ [] ∧ cs.all Char.isDigit then
    some (cs.foldl (fun n c => 10 * n + (c.toNat - '0'.toNat)) 0)
  else none

/-- `/^-?\d+$/`, and `BigInt` of it. -/
def wholeNumber (s : String) : Option ℤ :=
  match s.toList with
  | '-' :: cs => (digits cs).map fun n => -(n : ℤ)
  | cs => (digits cs).map Nat.cast

/-- A fee as a whole number; a fraction of a number rounds up. -/
def Fee.whole : Fee → Except String ℤ
  | .bigint n => .ok n
  | .number none => .error "a fee bid must be a finite number of stroops"
  | .number (some x) => .ok ⌈x⌉
  | .string s =>
    match wholeNumber (trim s) with
    | some n => .ok n
    | none => .error ("a fee bid must be a whole number of stroops, got \"" ++ s ++ "\"")

/-- A fee as whole stroops. -/
def toStroops (fee : Fee) : Except String ℤ := do
  let n ← fee.whole
  if n < 0 then .error "a fee bid cannot be negative" else return n

/-- A ledger-reported fee as whole stroops; `none` is also `null` and `undefined`. -/
def chargedStroops (v : Option Fee) : Option ℤ := v.bind fun v => (toStroops v).toOption

theorem toStroops_nonneg {fee : Fee} {n : ℤ} (h : toStroops fee = .ok n) : 0 ≤ n := by
  unfold toStroops at h
  cases hwhole : fee.whole with
  | error msg => simp [hwhole, bind, Except.bind] at h
  | ok m =>
    simp only [hwhole, bind, Except.bind] at h
    split at h
    · cases h
    · rename_i hneg
      cases h
      exact not_lt.mp hneg

theorem chargedStroops_nonneg {v : Option Fee} {n : ℤ} (h : chargedStroops v = some n) : 0 ≤ n := by
  cases v with
  | none => cases h
  | some fee =>
    rw [chargedStroops, Option.bind_some] at h
    cases hfee : toStroops fee with
    | error => simp [hfee, Except.toOption] at h
    | ok m =>
      obtain rfl : m = n := by simpa [hfee, Except.toOption] using h
      exact toStroops_nonneg hfee

example : toStroops (.number (some (1 / 2))) = .ok 1 := by decide +kernel

/-! ## Keys -/

/-- The fee bucket of a day. -/
def feeDayKey (env : Env) (now : Instant) : String :=
  "caps:" ++ env.network ++ ":fees:" ++ utcDay now

/-- Every bid the budget accepted. -/
def feeGrossDayKey (env : Env) (now : Instant) : String := feeDayKey env now ++ ":gross"

section

variable {env : Env} {now now' : Instant}

theorem feeDayKey_inj : feeDayKey env now = feeDayKey env now' ↔ utcDay now = utcDay now' :=
  append_left_inj'

theorem feeGrossDayKey_inj :
    feeGrossDayKey env now = feeGrossDayKey env now' ↔ utcDay now = utcDay now' := by
  unfold feeGrossDayKey
  constructor
  · intro h
    unfold feeDayKey at h
    simp only [String.append_assoc, append_left_inj'] at h
    exact (utcDay_append_inj h).1
  · intro h
    rw [feeDayKey_inj.mpr h]

theorem feeDayKey_ne_feeGrossDayKey : feeDayKey env now ≠ feeGrossDayKey env now' := by
  intro h
  have hlen := congrArg String.length h
  have hgross : ":gross".length = 6 := rfl
  simp only [feeDayKey, feeGrossDayKey, String.length_append, length_utcDay, hgross] at hlen
  omega

end

/-! ## The counter in memory -/

/-- The fallback, reached only while the shared store cannot be read. -/
structure LocalFees where
  localFeeDay : String
  localFeeStroops : ℤ
  localFeeGross : ℤ

namespace LocalFees

def fresh (day : String) : LocalFees := ⟨day, 0, 0⟩

def addToLocalFees (delta : ℤ) (dayMarker : String) (gross : ℤ) (m : LocalFees) : LocalFees × ℤ :=
  -- A give-back for a day that rolled has nothing to give back to.
  if dayMarker ≠ m.localFeeDay ∧ delta < 0 then (m, 0)
  else
    let m := if dayMarker = m.localFeeDay then m else fresh dayMarker
    let net := if m.localFeeStroops + delta < 0 then 0 else m.localFeeStroops + delta
    let gross := if m.localFeeGross + gross < 0 then 0 else m.localFeeGross + gross
    ({ m with localFeeStroops := net, localFeeGross := gross }, net)

end LocalFees

/-! ## Charges -/

/-- A call of one of the two methods of a charge. -/
inductive SettleCall
  | notIncluded
  | settled (feeCharged : Option Fee)
  deriving DecidableEq

/-- One charge against the day's fee budget. -/
structure FeeCharge where
  /-- The day's total right after this charge. -/
  totalStroops : ℤ
  /-- False when the counter in memory took the charge. -/
  shared : Bool
  /-- The bid this charge counted. -/
  bidStroops : ℤ
  /-- The day the charge landed in. A give-back goes to that day. -/
  key : String

/-- A charge that was handed out, and the first call made on it. -/
structure Handle where
  charge : FeeCharge
  closedBy : Option SettleCall

structure FeeMemory (ι : Type) where
  counters : LocalFees
  handles : ι → Option Handle

namespace FeeMemory

variable {ι : Type} [DecidableEq ι] (m : FeeMemory ι) (i : ι)

def fresh : FeeMemory ι := ⟨.fresh "", fun _ => none⟩

def openHandle (charge : FeeCharge) : FeeMemory ι :=
  { m with handles := Function.update m.handles i (some ⟨charge, none⟩) }

/-- `open` -/
def isOpen : Bool := (m.handles i).any fun h => h.closedBy.isNone

/-- `open = false` -/
def close (call : SettleCall) : FeeMemory ι :=
  let closed := (m.handles i).map fun h => { h with closedBy := h.closedBy.or (some call) }
  { m with handles := Function.update m.handles i closed }

/-- Add to the counter in memory. -/
def addFees (delta : ℤ) (dayMarker : String) (gross : ℤ) : FeeMemory ι × ℤ :=
  let (counters, net) := m.counters.addToLocalFees delta dayMarker gross
  ({ m with counters }, net)

end FeeMemory

inductive FeeError
  /-- A `PublicRefusal`. -/
  | refusal (message : String)
  | thrown (message : String)
  deriving DecidableEq

def feeBudgetRefusal : String := "today's sponsor fee budget is spent; try again tomorrow"

section

variable {ε ι : Type} [DecidableEq ι] (env : Env) (maxDayFeeStroops : ℕ) (i : ι)

/-- Count a fee against the shared counter, or against the one in memory. -/
def countFee (fee : ℤ) (now : Instant) : Task (FeeMemory ι) ε (ℤ × Bool) := do
  let key := feeDayKey env now
  if !env.kv then
    let total ← atomically fun m => m.addFees fee key fee
    return (total, false)
  else
    match ← addToDays [key, feeGrossDayKey env now] fee with
    | .ok totals => return (totals.headD 0, true)
    | .error _ =>
      let total ← atomically fun m => m.addFees fee key fee
      return (total, false)

/-- Add a bid to the day's sponsor fee total, or refuse. -/
def chargeSponsorFee (feeBid : Fee) (now : Instant) :
    Task (FeeMemory ι) ε (Except FeeError FeeCharge) :=
  match toStroops feeBid with
  | .error msg => return .error (.thrown msg)
  | .ok fee => do
    let key := feeDayKey env now
    let (total, shared) ← countFee env fee now
    if total > maxDayFeeStroops then
      -- Nothing was signed, so this increment can be undone, in both keys.
      if shared then
        let _ ← addToDays [key, feeGrossDayKey env now] (-fee)
      else
        let _ ← atomically fun m => m.addFees (-fee) key (-fee)
      return .error (.refusal feeBudgetRefusal)
    else
      let charge : FeeCharge :=
        { totalStroops := total, shared := shared, bidStroops := fee, key := key }
      atomically fun m => (m.openHandle i charge, ())
      return .ok charge

namespace FeeCharge

variable (h : FeeCharge)

/-- Take `stroops` off the count, unless the charge is closed. -/
def giveBack (call : SettleCall) (stroops : ℤ) : Task (FeeMemory ι) ε Unit := do
  let proceed ← atomically fun m =>
    if !m.isOpen i then (m, false)
    else
      let m := m.close i call
      if stroops ≤ 0 then (m, false)
      else if !h.shared then ((m.addFees (-stroops) h.key 0).1, false)
      else (m, true)
  if proceed then
    -- Where this fails, the count stays high.
    let _ ← addToDays [h.key] (-stroops)

/-- The transaction never reached a ledger. -/
def notIncluded : Task (FeeMemory ι) ε Unit := h.giveBack i .notIncluded h.bidStroops

/-- The ledger included the transaction, and its result says what it charged. -/
def settled (feeCharged : Option Fee) : Task (FeeMemory ι) ε Unit :=
  match chargedStroops feeCharged with
  | none => atomically fun m => (m.close i (.settled feeCharged), ())
  | some charged =>
    if charged > h.bidStroops then atomically fun m => (m.close i (.settled feeCharged), ())
    else h.giveBack i (.settled feeCharged) (h.bidStroops - charged)

def call : SettleCall → Task (FeeMemory ι) ε Unit
  | .notIncluded => h.notIncluded i
  | .settled feeCharged => h.settled i feeCharged

/-- Any calls on a charge. A call that finds the charge closed does nothing, whether or not the call
that closed it has returned. -/
def calls : List SettleCall → Task (FeeMemory ι) ε Unit
  | [] => return ()
  | c :: cs => do
    h.call i c
    calls cs

end FeeCharge

end

/-! ## Requests -/

/-- A fee to be charged, and the calls that its route will make on the charge. -/
structure FeeRequest where
  feeBid : Fee
  now : Instant
  calls : List SettleCall

inductive FeeStage
  | waiting
  | refused
  | done
  deriving DecidableEq

def feeRequest {ι : Type} [DecidableEq ι] (env : Env) (maxDayFeeStroops : ℕ) (i : ι)
    (r : FeeRequest) : Task (FeeMemory ι) FeeStage FeeStage :=
  .hold .waiting do
    match ← chargeSponsorFee env maxDayFeeStroops i r.feeBid r.now with
    | .error _ => return .refused
    | .ok charge =>
      charge.calls i r.calls
      return .done

/-- Any number of charges, each in its process, over one store, empty at first. -/
def feeCharges {ι ν : Type} [DecidableEq ι] [DecidableEq ν] (env : Env) (maxDayFeeStroops : ℕ)
    (home : ι → ν) (req : ι → FeeRequest) :
    Machine (Sys ι ν Cmd KvReply (FeeMemory ι) FeeStage FeeStage (Store ι)) (ι × Fault) Unit :=
  system (backend ι) home
    ⟨Store.empty, fun _ => .fresh, fun i => feeRequest env maxDayFeeStroops i (req i)⟩

end Lumenia.Sponsor
