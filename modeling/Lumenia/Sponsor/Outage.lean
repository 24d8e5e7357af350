import Lumenia.Sponsor.Onboarding
import Lumenia.Sponsor.Fees
import Lumenia.Theory.Pacts

/-!
# Budgets while the store is down

Requests of both kinds, for an account and for a fee, in processes that fall back to counters in
their memory. The counters of a process are for one day at a time, the day of the request that rolled
them last; and a request brings the day on which it began, which may be over when it gets to them.
Beside them the model keeps which days the counters have been for.
-/

namespace Lumenia.Sponsor

/-! ## The days of a counter -/

/-- The days a counter was begun for, the last one first, after a step from a day to another. -/
def begun (log : List String) (old new : String) : List String :=
  if new = old then log else new :: log

/-- Where a counter is with the day `D`: nothing was counted in it, or the counter is in it and has
the right content, or the day is over. -/
inductive DayPhase (log : List String) (current D : String) (untouched right : Prop) : Prop
  | before (hlog : D ∉ log) (hday : current ≠ D) (huntouched : untouched)
  | here (hlog : D ∈ log) (hday : current = D) (hright : right)
  | left (hlog : D ∈ log) (hday : current ≠ D)

section

variable {log : List String} {old new D : String} {U U' R R' : Prop}

theorem begun_of_eq (h : new = old) : begun log old new = log := if_pos h

theorem begun_of_ne (h : new ≠ old) : begun log old new = new :: log := if_neg h

theorem count_le_begun : log.count D ≤ (begun log old new).count D := by
  rcases eq_or_ne new old with h | h
  · rw [begun_of_eq h]
  · rw [begun_of_ne h]
    exact List.count_le_count_cons

theorem mem_begun (h : D ∈ log) : D ∈ begun log old new := by
  rw [← List.one_le_count_iff] at h ⊢
  exact h.trans count_le_begun

theorem not_mem_begun (h : D ∉ log) (hne : new ≠ D) : D ∉ begun log old new := by
  rcases eq_or_ne new old with heq | hday
  · rwa [begun_of_eq heq]
  · rw [begun_of_ne hday, List.mem_cons, not_or]
    exact ⟨hne.symm, h⟩

/-- The day is begun again, and what was counted in it is forgotten. -/
theorem again (hlog : D ∈ log) (hday : old ≠ D) (hnew : new = D) :
    2 ≤ (begun log old new).count D := by
  rw [begun_of_ne (hnew.trans_ne hday.symm), hnew, List.count_cons_self]
  exact Nat.succ_le_succ (List.one_le_count_iff.mpr hlog)

namespace DayPhase

/-- A step to another day. -/
theorem away (h : DayPhase log old D U R) (hne : new ≠ D) (hU : U → U') :
    DayPhase (begun log old new) new D U' R' := by
  cases h with
  | before hlog hday hu => exact .before (not_mem_begun hlog hne) hne (hU hu)
  | here hlog => exact .left (mem_begun hlog) hne
  | left hlog => exact .left (mem_begun hlog) hne

/-- A step within a day. -/
theorem same (h : DayPhase log old D U R) (heq : new = old) (hU : U → U') (hR : R → R') :
    DayPhase (begun log old new) new D U' R' := by
  rw [begun_of_eq heq, heq]
  cases h with
  | before hlog hday hu => exact .before hlog hday (hU hu)
  | here hlog hday hr => exact .here hlog hday (hR hr)
  | left hlog hday => exact .left hlog hday

/-- A step into the day, unless the day was over. -/
theorem into (h : DayPhase log old D U R) (hnew : new = D) (hU : U → R') (hR : R → R') :
    2 ≤ (begun log old new).count D ∨ DayPhase (begun log old new) new D U' R' := by
  cases h with
  | before hlog hday hu =>
    refine .inr (.here ?_ hnew (hU hu))
    rw [begun_of_ne (hnew.trans_ne hday.symm), hnew]
    exact List.mem_cons_self
  | here hlog hday hr => exact .inr (.here (mem_begun hlog) hnew (hR hr))
  | left hlog hday => exact .inl (again hlog hday hnew)

end DayPhase

end

/-! ## Processes -/

/-- The memory of one process. -/
structure Process (κ : Type) where
  accounts : Isolate
  fees : FeeMemory κ
  /-- The days the counter of accounts was begun for, the last one first. -/
  accountDays : List String
  /-- The days the counter of fees was begun for. -/
  feeDays : List String

namespace Process

variable {κ : Type}

def fresh : Process κ := ⟨.fresh "", .fresh, [], []⟩

def setAccounts (m : Isolate) (p : Process κ) : Process κ :=
  { p with
    accounts := m
    accountDays := begun p.accountDays p.accounts.localDay m.localDay }

def setFees (m : FeeMemory κ) (p : Process κ) : Process κ :=
  { p with
    fees := m
    feeDays := begun p.feeDays p.fees.counters.localFeeDay m.counters.localFeeDay }

end Process

inductive Shown
  | account (e : Onboarding)
  | fee (e : FeeStage)
  deriving DecidableEq

section

variable {ι κ ν : Type} [DecidableEq ι] [DecidableEq κ] [DecidableEq ν] (env : Env)
  (valid : String → Bool) (budget : OnboardingBudget) (maxDayFeeStroops : ℕ) (home : ι ⊕ κ → ν)
  (req : ι → OnboardingRequest) (fee : κ → FeeRequest)

def accountTask (r : OnboardingRequest) : Task (Process κ) Shown Shown := do
  let e ← (onboardingRequest env valid budget r).within Process.accounts Process.setAccounts .account
  return .account e

def feeTask (j : κ) (r : FeeRequest) : Task (Process κ) Shown Shown := do
  let e ← (feeRequest env maxDayFeeStroops j r).within Process.fees Process.setFees .fee
  return .fee e

/-- Any number of requests of both kinds, each in its process, over one store, empty at first. -/
def sponsorRequests : Machine (Sys (ι ⊕ κ) ν Cmd KvReply (Process κ) Shown Shown (Store (ι ⊕ κ)))
    ((ι ⊕ κ) × Fault) Unit :=
  system (backend (ι ⊕ κ)) home ⟨Store.empty, fun _ => .fresh,
    Sum.elim (fun i => accountTask env valid budget (req i))
      fun j => feeTask env maxDayFeeStroops j (fee j)⟩

end

end Lumenia.Sponsor
