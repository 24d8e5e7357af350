import Mathlib.Data.Nat.Notation
import Mathlib.Data.Option.Basic
import Mathlib.Logic.Function.Basic

/-!
# Values that expire

A store of typed keys. A value that was stored with a time to live is gone from its expiry on, and
is then as if it had never been there.
-/

namespace Lumenia

/-- Each key with its value and the moment from which that is gone, if there is one. -/
abbrev Cells {K : Type} (E : K → Type) := (k : K) → Option (E k × Option ℕ)

namespace Cells

variable {K : Type} {E : K → Type} {s : Cells E} {now now' : ℕ} {k k' : K} {v v' : E k}
  {expiry : Option ℕ}

def empty : Cells E := fun _ => none

/-- What a key holds at the time `now`. -/
def get (s : Cells E) (now : ℕ) (k : K) : Option (E k) :=
  ((s k).filter fun cell => cell.2.all fun expiry => now < expiry).map Prod.fst

@[simp] theorem get_empty : (empty : Cells E).get now k = none := rfl

theorem get_eq_some :
    s.get now k = some v ↔ ∃ expiry, s k = some (v, expiry) ∧ ∀ t ∈ expiry, now < t := by
  simp [get, Option.filter_eq_some_iff, Option.all_eq_true]

/-- A value that is there was there before, unless it has been stored since. -/
theorem get_of_le (hle : now ≤ now') (h : s.get now' k = some v) : s.get now k = some v := by
  obtain ⟨expiry, hcell, hlive⟩ := get_eq_some.mp h
  exact get_eq_some.mpr ⟨expiry, hcell, fun t ht => Nat.lt_of_le_of_lt hle (hlive t ht)⟩

/-- A value without an expiry stays. -/
theorem get_of_cell (h : s k = some (v, none)) : s.get now k = some v :=
  get_eq_some.mpr ⟨none, h, nofun⟩

/-- A value that is gone stays so. -/
theorem get_none_of_le (hle : now ≤ now') (h : s.get now k = none) : s.get now' k = none := by
  apply Option.eq_none_iff_forall_ne_some.mpr
  intro v hv
  rw [get_of_le hle hv] at h
  cases h

theorem get_congr {s' : Cells E} (h : s k = s' k) : s.get now k = s'.get now k := by
  rw [get, get, h]

variable [DecidableEq K]

def set (s : Cells E) (k : K) (v : E k) (expiry : Option ℕ) : Cells E :=
  Function.update s k (some (v, expiry))

def del (s : Cells E) (k : K) : Cells E := Function.update s k none

/-- `SET … NX`: whether it was stored, and the store. -/
def setNx (s : Cells E) (now : ℕ) (k : K) (v : E k) (expiry : Option ℕ) : Bool × Cells E :=
  if (s.get now k).isSome then (false, s) else (true, s.set k v expiry)

@[simp] theorem set_self : s.set k v expiry k = some (v, expiry) := Function.update_self ..

@[simp] theorem set_of_ne (h : k' ≠ k) : s.set k v expiry k' = s k' := Function.update_of_ne h ..

@[simp] theorem del_self : s.del k k = none := Function.update_self ..

@[simp] theorem del_of_ne (h : k' ≠ k) : s.del k k' = s k' := Function.update_of_ne h ..

@[simp] theorem get_set_self : (s.set k v none).get now k = some v :=
  get_of_cell set_self

@[simp] theorem get_set_of_ne (h : k' ≠ k) : (s.set k v expiry).get now k' = s.get now k' :=
  get_congr (set_of_ne h)

@[simp] theorem get_del_self : (s.del k).get now k = none := by simp [get]

@[simp] theorem get_del_of_ne (h : k' ≠ k) : (s.del k).get now k' = s.get now k' :=
  get_congr (del_of_ne h)

theorem setNx_of_none (h : s.get now k = none) : s.setNx now k v expiry = (true, s.set k v expiry) := by
  simp [setNx, h]

theorem setNx_of_some (h : s.get now k = some v') : s.setNx now k v expiry = (false, s) := by
  simp [setNx, h]

theorem setNx_of_ne {e : Option ℕ} (h : k' ≠ k) : (s.setNx now k v e).2 k' = s k' := by
  unfold setNx
  split
  · rfl
  · exact set_of_ne h

/-! ## Commands -/

/-- A time to live is in units of the clock. -/
inductive Command {K : Type} (E : K → Type)
  | get (k : K)
  | set (k : K) (v : E k) (ttl : Option ℕ)
  | setNx (k : K) (v : E k) (ttl : Option ℕ)
  | del (k : K)

abbrev Command.Answer : Command E → Type
  | .get k => Option (E k)
  | .set .. | .del _ => Unit
  | .setNx .. => Bool

def Command.key : Command E → K
  | .get k | .set k .. | .setNx k .. | .del k => k

/-- One command at the time `now`, atomic on its own. -/
def exec (now : ℕ) (s : Cells E) : (c : Command E) → c.Answer × Cells E
  | .get k => (s.get now k, s)
  | .set k v ttl => ((), s.set k v (ttl.map (now + ·)))
  | .setNx k v ttl => s.setNx now k v (ttl.map (now + ·))
  | .del k => ((), s.del k)

theorem exec_setNx_of_some {ttl : Option ℕ} (h : s.get now k = some v') :
    s.exec now (.setNx k v ttl) = (false, s) :=
  setNx_of_some h

theorem exec_setNx_of_none {ttl : Option ℕ} (h : s.get now k = none) :
    s.exec now (.setNx k v ttl) = (true, s.set k v (ttl.map (now + ·))) :=
  setNx_of_none h

/-- What becomes of a command that is sent to the store. -/
inductive Fate
  | done
  /-- It is executed, and its answer is lost. -/
  | lost (message : String)
  | failed (message : String)
  deriving DecidableEq

/-- The answer that comes back, and the store that is left. -/
def Fate.exec (now : ℕ) (s : Cells E) (c : Command E) : Fate → Except String c.Answer × Cells E
  | .done => (.ok (s.exec now c).1, (s.exec now c).2)
  | .lost message => (.error message, (s.exec now c).2)
  | .failed message => (.error message, s)

def Fate.executes : Fate → Bool
  | .done | .lost _ => true
  | .failed _ => false

theorem Fate.exec_cells {c : Command E} {fate : Fate} :
    (fate.exec now s c).2 = if fate.executes then (s.exec now c).2 else s := by
  cases fate <;> rfl

/-- A command leaves every key but its own as it was. -/
theorem exec_of_ne {c : Command E} (h : k' ≠ c.key) : (s.exec now c).2 k' = s k' := by
  cases c with
  | get k => rfl
  | set k v ttl => exact set_of_ne h
  | setNx k v ttl => exact setNx_of_ne h
  | del k => exact del_of_ne h

theorem Fate.exec_of_ne {c : Command E} {fate : Fate} (h : k' ≠ c.key) :
    (fate.exec now s c).2 k' = s k' := by
  cases fate with
  | done => exact Cells.exec_of_ne h
  | lost message => exact Cells.exec_of_ne h
  | failed message => rfl

@[simp] theorem Fate.exec_get {fate : Fate} : (fate.exec now s (.get k)).2 = s := by
  cases fate <;> rfl

/-! ## Commands that an answer can refuse -/

/-- What becomes of a command that is sent in a request of its own: an answer that comes has an entry
for the command, which may be an error. -/
inductive Delivery
  | done
  /-- It is executed, and the answer is lost. -/
  | lost (message : String)
  | failed (message : String)
  /-- It is not executed, and the entry says so. -/
  | refused (message : String)
  deriving DecidableEq

/-- The entry that comes back, if an answer does, and the store that is left. -/
def Delivery.exec (now : ℕ) (s : Cells E) (c : Command E) :
    Delivery → Except String (Except String c.Answer) × Cells E
  | .done => (.ok (.ok (s.exec now c).1), (s.exec now c).2)
  | .lost message => (.error message, (s.exec now c).2)
  | .failed message => (.error message, s)
  | .refused message => (.ok (.error message), s)

def Delivery.executes : Delivery → Bool
  | .done | .lost _ => true
  | .failed _ | .refused _ => false

theorem Delivery.exec_cells {c : Command E} {delivery : Delivery} :
    (delivery.exec now s c).2 = if delivery.executes then (s.exec now c).2 else s := by
  cases delivery <;> rfl

theorem Delivery.exec_of_ne {c : Command E} {delivery : Delivery} (h : k' ≠ c.key) :
    (delivery.exec now s c).2 k' = s k' := by
  rw [Delivery.exec_cells]
  split
  · exact Cells.exec_of_ne h
  · rfl

@[simp] theorem Delivery.exec_get {delivery : Delivery} : (delivery.exec now s (.get k)).2 = s := by
  cases delivery <;> rfl

end Cells

end Lumenia
