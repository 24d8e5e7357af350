import Lumenia.Sponsor.PilotStore
import Mathlib.Data.Finset.Card

/-!
# The budget of a pilot wallet

Operations under `withPilotSlot`, and the owner's approvals, refusals, revocations and resets, one
after another or at once. A slot is taken by an INCR and handed back by a DECR, and a reset puts the
counter back to 0. As long as no slot is handed back that a reset has cleared meanwhile, and every
operation that throws although it may yet happen says so, the counter is never negative, and no more
operations that happened or may yet happen have been admitted since the last reset than the limit
allows (`pilot_budget_kept`). A slot that is handed back late brings the counter below 0, and one more
operation is admitted (`pilot_budget_exceeded`).
-/

namespace Lumenia.Sponsor.Pilot

open Dialogue

/-! ## The calls -/

namespace Budget

inductive Request
  | send (pubkey : String)
  | approve (pubkey : String)
  | reject (pubkey : String)
  | revoke (pubkey : String)
  | reset (pubkey : String)
  deriving DecidableEq

def Request.call (env : Env) : Request → Operation (Except String Unit)
  | send pubkey => withPilotSlot env pubkey
  | approve pubkey => (approvePilot pubkey).outcome
  | reject pubkey => (rejectPilot pubkey).outcome
  | revoke pubkey => (revokePilot env pubkey).outcome
  | reset pubkey => do
    let used ← (resetPilotBudget pubkey).outcome
    return used.map fun _ => ()

/-- What a call has made of the budget: of which wallet, and after how many resets of it. -/
inductive Progress
  | idle
  /-- A slot is taken, and the call is not admitted. -/
  | taken (pubkey : String) (epoch : ℕ)
  /-- The operation happened, or may yet happen. -/
  | admitted (pubkey : String) (epoch : ℕ)
  /-- The operation did not happen. -/
  | failed (pubkey : String) (epoch : ℕ)
  | paidBack
  deriving DecidableEq

namespace Progress

def next (env : Env) (p : Progress) (d : Chance) (s : Store) (q : Ask) : Progress :=
  match p, q with
  | idle, .incr pubkey =>
    match d.fate with
    | .failed _ => idle
    | .lost _ => taken pubkey (s.resets pubkey)
    | .done =>
      if s.used pubkey + 1 ≤ maxTx env then admitted pubkey (s.resets pubkey)
      else taken pubkey (s.resets pubkey)
  | admitted pubkey epoch, .operate =>
    match d.answer .operate with
    | .ok () => admitted pubkey epoch
    | .error _ => if d.happens then admitted pubkey epoch else failed pubkey epoch
  | taken pubkey epoch, .decr _ => if d.fate.executes then paidBack else taken pubkey epoch
  | failed pubkey epoch, .decr _ => if d.fate.executes then paidBack else failed pubkey epoch
  | p, _ => p

/-- The slot that the call holds. -/
def slot : Progress → Option (String × ℕ)
  | taken pubkey epoch | admitted pubkey epoch | failed pubkey epoch => some (pubkey, epoch)
  | idle | paidBack => none

end Progress

def surroundings (env : Env) : Surroundings Ask.Answer Chance Store Progress := ⟨react, Progress.next env⟩

variable {ι : Type}

/-- A slot is handed back only while its wallet has not been reset since it was taken, and an operation
that throws although it may yet happen says so. -/
def inTime (i : ι) (d : Chance) (w : Tracked ι Store Progress) : Ask → Bool
  | .decr _ => !d.fate.executes || (w.calls i).slot.all fun slot => slot.2 = w.shared.resets slot.1
  | .operate => !d.happens || match d.answer .operate with
    | .ok () => true
    | .error e => e.isSubmitUnconfirmed
  | _ => true

abbrev InTime : Condition ι Ask Chance Store Progress := fun i d w q => inTime i d w q = true

/-! ## The counter -/

/-- A counter, once it is there, stays. -/
def Lasting (cells : Cells Key.Entry) : Prop := ∀ pubkey cell, cells (.tx pubkey) = some cell → cell.2 = none

/-- The value of a counter that stays. -/
def counter (cells : Cells Key.Entry) (pubkey : String) : ℤ :=
  ((cells (.tx pubkey)).map Prod.fst).getD (0 : ℤ)

theorem used_eq_counter {s : Store} (h : Lasting s.cells) (pubkey : String) :
    s.used pubkey = counter s.cells pubkey := by
  unfold Store.used counter
  cases hcell : s.cells (.tx pubkey) with
  | none => simp [Cells.get, hcell]
  | some cell =>
    obtain ⟨v, expiry⟩ := cell
    obtain rfl : expiry = none := h pubkey _ hcell
    rw [Cells.get_of_cell hcell]
    rfl

/-! ## The invariant -/

/-- Every slot that was taken since the last reset is counted, and no more calls are admitted than the
limit allows. -/
structure Tallied (env : Env) (w : Tracked ι Store Progress) : Prop where
  lasting : Lasting w.shared.cells
  known : ∀ i pubkey epoch, (w.calls i).slot = some (pubkey, epoch) → epoch ≤ w.shared.resets pubkey
  tally : ∀ pubkey (F : Finset ι),
    (∀ i ∈ F, (w.calls i).slot = some (pubkey, w.shared.resets pubkey)) →
      (F.card : ℤ) ≤ counter w.shared.cells pubkey
  budget : ∀ pubkey (F : Finset ι),
    (∀ i ∈ F, w.calls i = .admitted pubkey (w.shared.resets pubkey)) → (F.card : ℤ) ≤ maxTx env

section

variable {env : Env} {w w' : Tracked ι Store Progress} {pubkey : String}

theorem Tallied.nonneg (h : Tallied env w) : 0 ≤ counter w.shared.cells pubkey := by
  have hempty := h.tally pubkey ∅ (by simp)
  simpa using hempty

/-- What leaves the counters, the resets and the calls as they were. -/
theorem Tallied.of_same (h : Tallied env w) (hlasting : Lasting w'.shared.cells) (hcalls : w'.calls = w.calls)
    (hresets : w'.shared.resets = w.shared.resets)
    (hcounter : ∀ pubkey, counter w'.shared.cells pubkey = counter w.shared.cells pubkey) : Tallied env w' where
  lasting := hlasting
  known := by
    rw [hcalls, hresets]
    exact h.known
  tally pubkey F := by
    rw [hcalls, hresets, hcounter]
    exact h.tally pubkey F
  budget := by
    rw [hcalls, hresets]
    exact h.budget

variable (pubkey) in
/-- No slot that is held was taken after a reset of just now. -/
theorem Tallied.reset (h : Tallied env w) (hlasting : Lasting w'.shared.cells) (hcalls : w'.calls = w.calls)
    (hresets : w'.shared.resets =
      Function.update w.shared.resets pubkey (w.shared.resets pubkey + 1))
    (hzero : counter w'.shared.cells pubkey = 0)
    (hcounter : ∀ k, k ≠ pubkey → counter w'.shared.cells k = counter w.shared.cells k) : Tallied env w' := by
  have hold : ∀ i epoch, (w.calls i).slot = some (pubkey, epoch) →
      epoch ≠ w'.shared.resets pubkey := by
    intro i epoch hslot
    have hle := h.known i pubkey epoch hslot
    rw [hresets, Function.update_self]
    omega
  refine ⟨hlasting, fun i k epoch hslot => ?_, fun k F hF => ?_, fun k F hF => ?_⟩
  · rw [hcalls] at hslot
    have hle := h.known i k epoch hslot
    rcases eq_or_ne k pubkey with rfl | hne
    · rw [hresets, Function.update_self]
      omega
    · rwa [hresets, Function.update_of_ne hne]
  · rw [hcalls] at hF
    rcases eq_or_ne k pubkey with rfl | hne
    · rw [hzero, Finset.eq_empty_of_forall_notMem fun i hi => hold i _ (hF i hi) rfl]
      rfl
    · rw [hresets, Function.update_of_ne hne] at hF
      rw [hcounter k hne]
      exact h.tally k F hF
  · rw [hcalls] at hF
    rcases eq_or_ne k pubkey with rfl | hne
    · have hnone : ∀ i, i ∉ F := fun i hi => hold i _ (by rw [hF i hi, Progress.slot]) rfl
      rw [Finset.eq_empty_of_forall_notMem hnone]
      exact (h.budget k ∅ (by simp))
    · rw [hresets, Function.update_of_ne hne] at hF
      exact h.budget k F hF

section

variable [DecidableEq ι] {i : ι} {p : Progress}

variable (pubkey) in
/-- One more slot is taken, and counted. -/
theorem Tallied.take (h : Tallied env w) (hlasting : Lasting w'.shared.cells)
    (hcalls : w'.calls = Function.update w.calls i p)
    (hresets : w'.shared.resets = w.shared.resets)
    (hslot : p.slot = some (pubkey, w.shared.resets pubkey))
    (hcounter : counter w'.shared.cells pubkey = counter w.shared.cells pubkey + 1)
    (hothers : ∀ k, k ≠ pubkey → counter w'.shared.cells k = counter w.shared.cells k)
    (hadmitted : p = .admitted pubkey (w.shared.resets pubkey) →
      counter w'.shared.cells pubkey ≤ maxTx env) : Tallied env w' := by
  have hself : w'.calls i = p := by rw [hcalls, Function.update_self]
  have hrest : ∀ j, j ≠ i → w'.calls j = w.calls j := by
    intro j hj
    rw [hcalls, Function.update_of_ne hj]
  have htally : ∀ k (F : Finset ι),
      (∀ j ∈ F, (w'.calls j).slot = some (k, w'.shared.resets k)) →
        (F.card : ℤ) ≤ counter w'.shared.cells k := by
    intro k F hF
    rw [hresets] at hF
    rcases eq_or_ne k pubkey with rfl | hk
    · have herase : ∀ j ∈ F.erase i, (w.calls j).slot = some (k, w.shared.resets k) := by
        intro j hj
        rw [← hrest j (Finset.ne_of_mem_erase hj)]
        exact hF j (Finset.mem_of_mem_erase hj)
      have hle := h.tally k (F.erase i) herase
      have hcard := Finset.pred_card_le_card_erase (s := F) (a := i)
      omega
    · rw [hothers k hk]
      apply h.tally k F
      intro j hj
      rcases eq_or_ne j i with rfl | hne
      · have hboth := (hF j hj).symm.trans (hself ▸ hslot)
        exact absurd (Prod.mk.inj (Option.some.inj hboth)).1 hk
      · rw [← hrest j hne]
        exact hF j hj
  refine ⟨hlasting, fun j k epoch hj => ?_, htally, fun k F hF => ?_⟩
  · rw [hresets]
    rcases eq_or_ne j i with rfl | hne
    · rw [hself, hslot] at hj
      obtain ⟨rfl, rfl⟩ := Prod.mk.inj (Option.some.inj hj)
      exact le_rfl
    · rw [hrest j hne] at hj
      exact h.known j k epoch hj
  · by_cases hi : i ∈ F
    · have hp : p = .admitted k (w'.shared.resets k) := hself ▸ hF i hi
      obtain ⟨rfl, hepoch⟩ : pubkey = k ∧ w.shared.resets pubkey = w'.shared.resets k := by
        rw [hp, Progress.slot] at hslot
        obtain ⟨rfl, heq⟩ := Prod.mk.inj (Option.some.inj hslot)
        exact ⟨rfl, heq.symm⟩
      refine (htally pubkey F fun j hj => by rw [hF j hj, Progress.slot]).trans (hadmitted ?_)
      rw [hp, hepoch]
    · apply h.budget k F
      intro j hj
      rw [← hrest j fun heq => hi (heq ▸ hj), ← hresets]
      exact hF j hj

/-- An operation that did not happen holds its slot still. -/
theorem Tallied.fail {epoch : ℕ} (h : Tallied env w) (hshared : w'.shared = w.shared)
    (hcalls : w'.calls = Function.update w.calls i (.failed pubkey epoch))
    (hi : w.calls i = .admitted pubkey epoch) : Tallied env w' := by
  have hslots : ∀ j, (w'.calls j).slot = (w.calls j).slot := by
    intro j
    rcases eq_or_ne j i with rfl | hne
    · rw [hcalls, Function.update_self, hi, Progress.slot, Progress.slot]
    · rw [hcalls, Function.update_of_ne hne]
  refine ⟨hshared ▸ h.lasting, fun j k epoch hj => ?_, fun k F hF => ?_, fun k F hF => ?_⟩
  · rw [hslots] at hj
    rw [hshared]
    exact h.known j k epoch hj
  · rw [hshared] at hF ⊢
    exact h.tally k F fun j hj => hslots j ▸ hF j hj
  · rw [hshared] at hF
    apply h.budget k F
    intro j hj
    rcases eq_or_ne j i with rfl | hne
    · have hboth := hF j hj
      rw [hcalls, Function.update_self] at hboth
      cases hboth
    · have hboth := hF j hj
      rwa [hcalls, Function.update_of_ne hne] at hboth

/-- A slot that is counted since the last reset is handed back. -/
theorem Tallied.payBack (h : Tallied env w) (hlasting : Lasting w'.shared.cells)
    (hcalls : w'.calls = Function.update w.calls i .paidBack)
    (hresets : w'.shared.resets = w.shared.resets)
    (hslot : (w.calls i).slot = some (pubkey, w.shared.resets pubkey))
    (hcounter : counter w'.shared.cells pubkey = counter w.shared.cells pubkey - 1)
    (hothers : ∀ k, k ≠ pubkey → counter w'.shared.cells k = counter w.shared.cells k) : Tallied env w' := by
  have hself : w'.calls i = .paidBack := by rw [hcalls, Function.update_self]
  have hrest : ∀ j, j ≠ i → w'.calls j = w.calls j := by
    intro j hj
    rw [hcalls, Function.update_of_ne hj]
  refine ⟨hlasting, fun j k epoch hj => ?_, fun k F hF => ?_, fun k F hF => ?_⟩
  · rw [hresets]
    rcases eq_or_ne j i with rfl | hne
    · rw [hself, Progress.slot] at hj
      cases hj
    · rw [hrest j hne] at hj
      exact h.known j k epoch hj
  · rw [hresets] at hF
    have hi : i ∉ F := by
      intro hi
      have hboth := hF i hi
      rw [hself, Progress.slot] at hboth
      cases hboth
    have hF' : ∀ j ∈ F, (w.calls j).slot = some (k, w.shared.resets k) := by
      intro j hj
      rw [← hrest j fun heq => hi (heq ▸ hj)]
      exact hF j hj
    rcases eq_or_ne k pubkey with rfl | hk
    · -- The call that hands its slot back has been counted beside them.
      have hcons : ∀ j ∈ F.cons i hi, (w.calls j).slot = some (k, w.shared.resets k) := by
        intro j hj
        rcases Finset.mem_cons.mp hj with rfl | hj
        · exact hslot
        · exact hF' j hj
      have hle := h.tally k _ hcons
      rw [Finset.card_cons] at hle
      omega
    · rw [hothers k hk]
      exact h.tally k F hF'
  · rw [hresets] at hF
    apply h.budget k F
    intro j hj
    have hne : j ≠ i := by
      rintro rfl
      have hboth := hF j hj
      rw [hself] at hboth
      cases hboth
    rw [← hrest j hne]
    exact hF j hj

end

/-! ## The commands -/

/-- A command touches a counter only to put it to 0, for good. -/
def Tame : Ask → Prop
  | .run (.set (.tx _) v ttl) | .run (.setNx (.tx _) v ttl) => v = (0 : ℤ) ∧ ttl = none
  | .run (.del (.tx _)) => False
  | .run _ => True
  | _ => False

section

variable {d : Chance} {c : Command} {n : ℤ} {cells cells' : Cells Key.Entry}

theorem lasting_of_same (h : Lasting cells)
    (hsame : ∀ pubkey, cells' (.tx pubkey) = cells (.tx pubkey)) : Lasting cells' := by
  intro pubkey cell hcell
  exact h pubkey cell ((hsame pubkey).symm.trans hcell)

theorem counter_of_same (hsame : cells' (.tx pubkey) = cells (.tx pubkey)) :
    counter cells' pubkey = counter cells pubkey := by
  rw [counter, hsame, counter]

theorem lasting_set (h : Lasting cells) : Lasting (cells.set (.tx pubkey) n none) := by
  intro k cell hcell
  rcases eq_or_ne k pubkey with rfl | hne
  · rw [Cells.set_self] at hcell
    rw [← Option.some.inj hcell]
  · rw [Cells.set_of_ne fun heq => hne (Key.tx.inj heq)] at hcell
    exact h k cell hcell

@[simp] theorem counter_set_self : counter (cells.set (.tx pubkey) n none) pubkey = n := by
  rw [counter, Cells.set_self]
  rfl

theorem counter_set_of_ne {k : String} (hne : k ≠ pubkey) :
    counter (cells.set (.tx pubkey) n none) k = counter cells k :=
  counter_of_same (Cells.set_of_ne fun heq => hne (Key.tx.inj heq))

theorem counter_of_none {now : ℕ} (h : Lasting cells) (hnone : cells.get now (.tx pubkey) = none) :
    counter cells pubkey = 0 := by
  cases hcell : cells (.tx pubkey) with
  | none =>
    rw [counter, hcell]
    rfl
  | some cell =>
    obtain ⟨v, expiry⟩ := cell
    obtain rfl : expiry = none := h pubkey _ hcell
    rw [Cells.get_of_cell hcell] at hnone
    cases hnone

variable [DecidableEq ι] {i : ι}

theorem calls_meet_run : ((surroundings env).meet i d w (.run c)).2.calls = w.calls := by
  have hnext : (w.calls i).next env d w.shared (.run c) = w.calls i := by
    cases w.calls i <;> rfl
  exact (congrArg _ hnext).trans (Function.update_eq_self i w.calls)

/-- A command that leaves the counters as they were. -/
theorem Tallied.run_same (h : Tallied env w)
    (hsame : ∀ pubkey, (d.fate.exec w.shared.now w.shared.cells c).2 (.tx pubkey) =
      w.shared.cells (.tx pubkey))
    (hresets : w.shared.resetsAfter d.fate c = w.shared.resets) :
    Tallied env ((surroundings env).meet i d w (.run c)).2 :=
  h.of_same (lasting_of_same h.lasting hsame) calls_meet_run hresets fun _ => counter_of_same (hsame _)

theorem Tallied.run (h : Tallied env w) (htame : Tame (.run c)) :
    Tallied env ((surroundings env).meet i d w (.run c)).2 := by
  have hother : ∀ k, c.key = k → (∀ pubkey, k ≠ .tx pubkey) → ∀ pubkey,
      (d.fate.exec w.shared.now w.shared.cells c).2 (.tx pubkey) = w.shared.cells (.tx pubkey) := by
    intro k hkey hne pubkey
    exact Cells.Fate.exec_of_ne fun heq => hne pubkey (hkey.symm.trans heq.symm)
  cases c with
  | get k => exact h.run_same (fun pubkey => by rw [Cells.Fate.exec_get]) rfl
  | del k =>
    cases k with
    | tx pubkey => exact htame.elim
    | appr | status | email | seen | src | mailed | revoked => exact h.run_same (hother _ rfl nofun) rfl
  | set k v ttl =>
    cases k with
    | tx pubkey =>
      obtain ⟨rfl, rfl⟩ : v = (0 : ℤ) ∧ ttl = none := htame
      cases hfate : d.fate.executes with
      | false =>
        refine h.run_same (fun k => ?_) ?_
        · rw [Cells.Fate.exec_cells, hfate, if_neg Bool.false_ne_true]
        · simp [Store.resetsAfter, hfate]
      | true =>
        have hcells : ((surroundings env).meet i d w (.run (.set (.tx pubkey) (0 : ℤ) none))).2.shared.cells =
            w.shared.cells.set (.tx pubkey) (0 : ℤ) none := Cells.Fate.exec_cells.trans (if_pos hfate)
        refine h.reset pubkey ?_ calls_meet_run ?_ ?_ fun k hne => ?_
        · rw [hcells]
          exact lasting_set h.lasting
        · exact if_pos hfate
        · rw [hcells, counter_set_self]
        · rw [hcells, counter_set_of_ne hne]
    | appr | status | email | seen | src | mailed | revoked => exact h.run_same (hother _ rfl nofun) rfl
  | setNx k v ttl =>
    cases k with
    | tx pubkey =>
      obtain ⟨rfl, rfl⟩ : v = (0 : ℤ) ∧ ttl = none := htame
      cases hfate : d.fate.executes with
      | false =>
        exact h.run_same (fun k => by rw [Cells.Fate.exec_cells, hfate, if_neg Bool.false_ne_true]) rfl
      | true =>
        cases hget : w.shared.cells.get w.shared.now (.tx pubkey) with
        | some v =>
          refine h.run_same (fun k => ?_) rfl
          rw [Cells.Fate.exec_cells, if_pos hfate, Cells.exec_setNx_of_some hget]
        | none =>
          have hcells : ((surroundings env).meet i d w
              (.run (.setNx (.tx pubkey) (0 : ℤ) none))).2.shared.cells =
                w.shared.cells.set (.tx pubkey) (0 : ℤ) none := by
            refine (Cells.Fate.exec_cells.trans (if_pos hfate)).trans ?_
            rw [Cells.exec_setNx_of_none hget]
            rfl
          refine h.of_same ?_ calls_meet_run rfl fun k => ?_
          · rw [hcells]
            exact lasting_set h.lasting
          · rw [hcells]
            rcases eq_or_ne k pubkey with rfl | hne
            · rw [counter_set_self, counter_of_none h.lasting hget]
            · rw [counter_set_of_ne hne]
    | appr | status | email | seen | src | mailed | revoked => exact h.run_same (hother _ rfl nofun) rfl

/-! ## The steps of an operation -/

variable (pubkey) in
theorem count_cells_executed {fate : Cells.Fate} {s : Store} (hlasting : Lasting s.cells)
    (hfate : fate.executes = true) : (s.count fate pubkey n).2.cells =
      s.cells.set (.tx pubkey) (counter s.cells pubkey + n) none := by
  rw [count_cells, if_pos hfate, used_eq_counter hlasting]

/-- An INCR, by a call that has done nothing. -/
theorem Tallied.incr (h : Tallied env w) (hp : w.calls i = .idle) :
    Tallied env ((surroundings env).meet i d w (.incr pubkey)).2 := by
  cases hfate : d.fate.executes with
  | false =>
    obtain ⟨message, hfailed⟩ : ∃ message, d.fate = .failed message := by
      cases hd : d.fate with
      | done => rw [hd] at hfate; cases hfate
      | lost message => rw [hd] at hfate; cases hfate
      | failed message => exact ⟨message, rfl⟩
    have hcells : ((surroundings env).meet i d w (.incr pubkey)).2.shared = w.shared := by
      rw [meet_shared]
      simp only [surroundings, react, hfailed]
      rfl
    have hcalls : ((surroundings env).meet i d w (.incr pubkey)).2.calls = w.calls := by
      have hnext : (surroundings env).next (w.calls i) d w.shared (.incr pubkey) = w.calls i := by
        simp only [surroundings, hp, Progress.next, hfailed]
      exact (congrArg _ hnext).trans (Function.update_eq_self i w.calls)
    exact h.of_same (hcells ▸ h.lasting) hcalls (by rw [hcells]) fun _ => by rw [hcells]
  | true =>
    have hcells := count_cells_executed pubkey (n := 1) h.lasting hfate
    refine h.take pubkey (i := i) (p := Progress.next env .idle d w.shared (.incr pubkey)) ?_ ?_
      count_resets ?_ ?_ (fun k hne => ?_) fun hadmitted => ?_
    · rw [meet_shared]
      exact hcells ▸ lasting_set h.lasting
    · rw [← hp]
      rfl
    · unfold Progress.next
      cases hd : d.fate with
      | done => dsimp only; split <;> rfl
      | lost message => rfl
      | failed message => rw [hd] at hfate; cases hfate
    · rw [meet_shared]
      exact (congrArg (counter · pubkey) hcells).trans counter_set_self
    · rw [meet_shared]
      exact (congrArg (counter · k) hcells).trans (counter_set_of_ne hne)
    · rw [meet_shared]
      refine ((congrArg (counter · pubkey) hcells).trans counter_set_self).trans_le ?_
      unfold Progress.next at hadmitted
      cases hd : d.fate with
      | done =>
        simp only [hd, used_eq_counter h.lasting] at hadmitted
        split at hadmitted
        · assumption
        · cases hadmitted
      | lost message => rw [hd] at hadmitted; cases hadmitted
      | failed message => rw [hd] at hadmitted; cases hadmitted

/-- A DECR in time, by a call that holds a slot and will not use it. -/
theorem Tallied.decr {epoch : ℕ} (h : Tallied env w) (hmet : inTime i d w (.decr pubkey) = true)
    (hslot : (w.calls i).slot = some (pubkey, epoch))
    (hnext : Progress.next env (w.calls i) d w.shared (.decr pubkey) =
      if d.fate.executes then .paidBack else w.calls i) :
    Tallied env ((surroundings env).meet i d w (.decr pubkey)).2 := by
  have hcalls : ((surroundings env).meet i d w (.decr pubkey)).2.calls =
      Function.update w.calls i (if d.fate.executes then .paidBack else w.calls i) :=
    congrArg (Function.update w.calls i) hnext
  cases hfate : d.fate.executes with
  | false =>
    rw [hfate, if_neg Bool.false_ne_true, Function.update_eq_self] at hcalls
    have hcells : ((surroundings env).meet i d w (.decr pubkey)).2.shared.cells = w.shared.cells := by
      rw [meet_shared]
      exact count_cells.trans (by rw [hfate, if_neg Bool.false_ne_true])
    exact h.of_same (hcells ▸ h.lasting) hcalls count_resets fun _ => by rw [hcells]
  | true =>
    rw [hfate, if_pos rfl] at hcalls
    have hepoch : epoch = w.shared.resets pubkey := by
      simpa [inTime, hfate, hslot] using hmet
    rw [hepoch] at hslot
    have hcells := count_cells_executed pubkey (n := -1) h.lasting hfate
    refine h.payBack ?_ hcalls count_resets hslot ?_ fun k hne => ?_
    · rw [meet_shared]
      exact hcells ▸ lasting_set h.lasting
    · rw [meet_shared]
      exact (congrArg (counter · pubkey) hcells).trans counter_set_self
    · rw [meet_shared]
      exact (congrArg (counter · k) hcells).trans (counter_set_of_ne hne)

/-- Another question changes nothing in the store. -/
theorem Tallied.operate (h : Tallied env w) :
    Tallied env ((surroundings env).meet i d w .operate).2 := by
  have hsame : Progress.next env (w.calls i) d w.shared .operate = w.calls i → Tallied env
      ((surroundings env).meet i d w .operate).2 := by
    intro hnext
    refine h.of_same h.lasting ?_ rfl fun _ => rfl
    exact (congrArg _ hnext).trans (Function.update_eq_self i w.calls)
  cases hp : w.calls i with
  | admitted pubkey epoch =>
    cases houtcome : d.answer .operate with
    | ok u =>
      apply hsame
      rw [hp, Progress.next, houtcome]
    | error e =>
      cases hhappens : d.happens with
      | true =>
        apply hsame
        rw [hp, Progress.next, houtcome, hhappens]
        rfl
      | false =>
        refine h.fail rfl ?_ hp
        change Function.update w.calls i (Progress.next env (w.calls i) d w.shared .operate) = _
        rw [hp, Progress.next, houtcome, hhappens]
        rfl
  | idle | taken | failed | paidBack =>
    apply hsame
    rw [hp]
    rfl

/-! ## The calls keep it -/

section

variable {α : Type} {p : Progress} {epoch : ℕ} {N : Except Failure α → Progress → Prop}

theorem keeps_get {k : Key} {f : Except String (Option k.Entry) → Operation α}
    (hf : ∀ a, Keeps (surroundings env) InTime (Tallied env) i p (f a) N) :
    Keeps (surroundings env) InTime (Tallied env) i p (send (.get k) >>= f) N := by
  refine .ask (fun d w h hp hmet => h.run trivial) fun d w h hp hmet => ?_
  have hnext : (surroundings env).next p d w.shared (.run (.get k)) = p := by cases p <;> rfl
  rw [hnext]
  exact hf _

theorem keeps_incr {f : Except String ℤ → Operation α}
    (hok : ∀ n epoch, Keeps (surroundings env) InTime (Tallied env) i
      (if n ≤ maxTx env then .admitted pubkey epoch else .taken pubkey epoch) (f (.ok n)) N)
    (herror : ∀ message p', Keeps (surroundings env) InTime (Tallied env) i p' (f (.error message)) N) :
    Keeps (surroundings env) InTime (Tallied env) i .idle (ask (.incr pubkey) >>= f) N := by
  refine .ask (fun d w h hp hmet => h.incr hp) fun d w h hp hmet => ?_
  change Keeps _ _ _ i (Progress.next env .idle d w.shared (.incr pubkey))
    (f (w.shared.count d.fate pubkey 1).1) _
  unfold Progress.next
  cases hfate : d.fate with
  | failed message => exact herror _ _
  | lost message => exact herror _ _
  | done => exact hok _ _

/-- A call that holds a slot gives it back, and goes on. -/
theorem keeps_decr {f : Except String ℤ → Operation α} (hslot : p.slot = some (pubkey, epoch))
    (hnext : ∀ d s, Progress.next env p d s (.decr pubkey) = if d.fate.executes then .paidBack else p)
    (hf : ∀ a p', Keeps (surroundings env) InTime (Tallied env) i p' (f a) N) :
    Keeps (surroundings env) InTime (Tallied env) i p (ask (.decr pubkey) >>= f) N := by
  refine .ask (fun d w h hp hmet => ?_) fun d w h hp hmet => hf _ _
  rw [← hp] at hslot
  apply h.decr hmet hslot
  rw [hp, hnext]

/-- An operation that throws an ordinary error has not happened, and never will. -/
theorem keeps_operate {f : Except Failure Unit → Operation α}
    (hok : Keeps (surroundings env) InTime (Tallied env) i (.admitted pubkey epoch) (f (.ok ())) N)
    (hplain : ∀ e, e.isSubmitUnconfirmed = false →
      Keeps (surroundings env) InTime (Tallied env) i (.failed pubkey epoch) (f (.error e)) N)
    (hunconfirmed : ∀ e p', e.isSubmitUnconfirmed = true →
      Keeps (surroundings env) InTime (Tallied env) i p' (f (.error e)) N) :
    Keeps (surroundings env) InTime (Tallied env) i (.admitted pubkey epoch) (ask .operate >>= f) N := by
  refine .ask (fun d w h hp hmet => h.operate) fun d w h hp hmet => ?_
  change Keeps _ _ _ i (Progress.next env (.admitted pubkey epoch) d w.shared .operate)
    (f (d.answer .operate)) _
  unfold Progress.next
  cases houtcome : d.answer .operate with
  | ok u => exact hok
  | error e =>
    cases hbrand : e.isSubmitUnconfirmed with
    | true => exact hunconfirmed e _ hbrand
    | false =>
      have hhappens : d.happens = false := by
        simpa [InTime, inTime, houtcome, hbrand] using hmet
      rw [hhappens]
      exact hplain e hbrand

end

/-- What an admission has made of the budget. -/
def Entered (pubkey : String) (r : Except Failure (Except String Unit)) (p : Progress) : Prop :=
  r = .ok (.ok ()) → ∃ epoch, p = .admitted pubkey epoch

theorem keeps_refused {p : Progress} {reason : String} : Keeps (surroundings env) InTime (Tallied env) i p
    (pure (.error reason) : Operation (Except String Unit)) (Entered pubkey) := by
  refine .ret fun h => ?_
  cases Except.ok.inj h

theorem keeps_threw {p : Progress} {e : Failure} : Keeps (surroundings env) InTime (Tallied env) i p
    (throw e : Operation (Except String Unit)) (Entered pubkey) :=
  .ret nofun

theorem keeps_enforcePilot : Keeps (surroundings env) InTime (Tallied env) i .idle
    (enforcePilot env pubkey) (Entered pubkey) := by
  apply keeps_get
  intro approved
  cases approved with
  | error message => exact keeps_refused
  | ok approved =>
    refine .ite (fun _ => keeps_refused) fun _ => keeps_incr (fun n epoch => ?_) fun _ _ => keeps_refused
    refine .ite (fun hover => ?_) fun hwithin => ?_
    · rw [if_neg (not_le.mpr hover)]
      exact keeps_decr rfl (fun d s => rfl) fun a p' => keeps_refused
    · rw [if_pos (not_lt.mp hwithin)]
      exact .ret fun _ => ⟨epoch, rfl⟩

theorem keeps_withPilotSlot (hmode : env.pilotMode = true) : Keeps (surroundings env) InTime
    (Tallied env) i .idle (withPilotSlot env pubkey) (Entered pubkey) := by
  rw [withPilotSlot, if_neg (by rw [hmode]; exact Bool.noConfusion)]
  refine keeps_enforcePilot.bind (fun a p hentered => ?_) fun e p _ => nofun
  cases a with
  | error reason => exact keeps_refused
  | ok u =>
    obtain ⟨epoch, rfl⟩ := hentered rfl
    refine keeps_operate (.ret fun _ => ⟨epoch, rfl⟩) (fun e hplain => ?_) fun e p' hbrand => ?_
    · refine .ite (fun _ => ?_) fun hkept => ?_
      · exact keeps_decr rfl (fun d s => rfl) fun a p' => keeps_threw
      · rw [hplain] at hkept
        exact absurd rfl hkept
    · exact .ite (fun hreleased => by rw [hbrand] at hreleased; cases hreleased) fun _ => keeps_threw

theorem keeps_plain {p : Progress} {ε α : Type} {call : Dialogue Ask.Answer ε α}
    (hcall : call.Asks Tame) :
    Keeps (surroundings env) InTime (Tallied env) i p call fun _ _ => True := by
  refine keeps_of_asks hcall trivial (fun q hq d w h hmet => ?_) fun _ _ _ _ _ _ => trivial
  cases q with
  | run c => exact h.run hq
  | _ => exact hq.elim

theorem asks_get {k : Key} : (send (.get k) : Call _).Asks Tame :=
  asks_question (show Tame (.run (.get k)) from trivial)

theorem asks_approvePilot : (approvePilot pubkey).Asks Tame := by
  apply asks_pipe
  intro c hc
  simp only [List.mem_cons, List.not_mem_nil, or_false] at hc
  rcases hc with rfl | rfl | rfl | rfl | rfl
  · trivial
  · exact ⟨rfl, rfl⟩
  · trivial
  · trivial
  · trivial

theorem asks_rejectPilot : (rejectPilot pubkey).Asks Tame := by
  apply asks_pipe
  intro c hc
  simp only [List.mem_cons, List.not_mem_nil, or_false] at hc
  rcases hc with rfl | rfl | rfl <;> trivial

theorem asks_resetPilotBudget : (resetPilotBudget pubkey).Asks Tame := by
  apply Asks.bind asks_get
  intro old
  apply asks_orThrow.bind
  intro old
  refine Asks.bind (asks_pipe fun c hc => ?_) fun _ => asks_pure
  rcases List.mem_pair.mp hc with rfl | rfl
  · exact ⟨rfl, rfl⟩
  · trivial

/-- What is deleted besides is the marker of the email. -/
theorem asks_seenDel_bind {α : Type} {email : Option String} {f : List Command → Call α}
    (hf : ∀ commands, (∀ c ∈ commands, ∃ hash, c = .del (.seen hash)) → (f commands).Asks Tame) :
    (seenDel env pubkey email >>= f).Asks Tame := by
  unfold seenDel
  split
  · exact hf [] (List.forall_mem_nil _)
  · refine asks_ask.mpr ⟨trivial, fun seen => ?_⟩
    cases seen with
    | error message => exact asks_throw
    | ok seen =>
      apply hf _
      intro c hc
      split at hc
      · exact ⟨_, List.mem_singleton.mp hc⟩
      · cases hc

theorem asks_revokePilot : (revokePilot env pubkey).Asks Tame := by
  apply Asks.bind asks_get
  intro email
  apply asks_orThrow.bind
  intro email
  apply asks_seenDel_bind
  intro commands hcommands
  apply asks_pipe
  intro c hc
  rcases List.mem_append.mp hc with hc | hc
  · simp only [List.mem_cons, List.not_mem_nil, or_false] at hc
    rcases hc with rfl | rfl | rfl | rfl <;> trivial
  · obtain ⟨hash, rfl⟩ := hcommands c hc
    trivial

/-- How far a call has come when it ends. -/
def Request.Ends (env : Env) (req : Request) (r : Except Failure (Except String Unit)) (p : Progress) :
    Prop :=
  ∀ pubkey, req = .send pubkey → env.pilotMode = true → Entered pubkey r p

theorem keeps_call (hmode : env.pilotMode = true) (req : Request) : Keeps (surroundings env) InTime
    (Tallied env) i .idle (req.call env) (req.Ends env) := by
  have howner : ∀ {call : Operation (Except String Unit)}, call.Asks Tame → (∀ pubkey, req ≠ .send pubkey) →
      Keeps (surroundings env) InTime (Tallied env) i .idle call (req.Ends env) := by
    intro call hcall hne
    exact (keeps_plain hcall).mono fun r p _ pubkey heq => absurd heq (hne pubkey)
  cases req with
  | send pubkey =>
    refine (keeps_withPilotSlot hmode).mono fun r p hentered k heq _ => ?_
    obtain rfl := Request.send.inj heq
    exact hentered
  | approve pubkey => exact howner asks_approvePilot.outcome nofun
  | reject pubkey => exact howner asks_rejectPilot.outcome nofun
  | revoke pubkey => exact howner asks_revokePilot.outcome nofun
  | reset pubkey => exact howner (asks_resetPilotBudget.outcome.bind fun _ => asks_pure) nofun

end

/-! ## Whole runs -/

variable [DecidableEq ι]

/-- Counters that stay and are not negative. -/
structure Sound (s : Store) : Prop where
  lasting : Lasting s.cells
  nonneg : ∀ pubkey, 0 ≤ counter s.cells pubkey

omit [DecidableEq ι] in
theorem Sound.tallied {s : Store} (h : Sound s) (hmax : 0 ≤ maxTx env) :
    Tallied env (⟨s, fun _ => .idle⟩ : Tracked ι Store Progress) where
  lasting := h.lasting
  known _ _ _ hslot := by cases hslot
  tally pubkey F hF := by
    have hempty : F = ∅ := Finset.eq_empty_of_forall_notMem fun i hi => nomatch hF i hi
    rw [hempty]
    exact h.nonneg pubkey
  budget pubkey F hF := by
    have hempty : F = ∅ := Finset.eq_empty_of_forall_notMem fun i hi => nomatch hF i hi
    rw [hempty]
    exact hmax

theorem maxTx_pos : 0 < maxTx env := by
  unfold maxTx
  cases hmax : env.pilotMaxTx.filter fun n => 0 < n with
  | none => decide
  | some n => exact of_decide_eq_true (Option.filter_eq_some_iff.mp hmax).2

/-- Calls of these requests. -/
abbrev crowd (env : Env) (s : Store) (req : ι → Request) :
    Crowd ι Ask.Answer Failure (Except String Unit) (Tracked ι Store Progress) :=
  started s .idle fun i => (req i).call env

/-- What the owner may rely on, for the calls that run together. -/
structure Conserved (env : Env) (req : ι → Request)
    (y : Crowd ι Ask.Answer Failure (Except String Unit) (Tracked ι Store Progress)) (pubkey : String) :
    Prop where
  nonneg : 0 ≤ y.world.shared.used pubkey
  /-- Of the operations that were admitted since the last reset, those that happened or may yet. -/
  limit : ∀ F : Finset ι,
    (∀ i ∈ F, y.world.calls i = .admitted pubkey (y.world.shared.resets pubkey)) →
      (F.card : ℤ) ≤ maxTx env
  /-- One that has landed is among them. -/
  landed : ∀ i, req i = .send pubkey → y.prog i = .ret (.ok (.ok ())) →
    ∃ epoch, y.world.calls i = .admitted pubkey epoch

/-- **The budget is kept** in every run in which no slot is handed back that a reset has cleared, and no
operation that may yet happen throws an ordinary error. -/
theorem pilot_budget_kept {s : Store} {req : ι → Request}
    {y : Crowd ι Ask.Answer Failure (Except String Unit) (Tracked ι Store Progress)}
    (hmode : env.pilotMode = true) (hs : Sound s)
    (hy : Leads ((surroundings env).Steps InTime) (Stirs Store.Passes) (crowd env s req) y)
    (pubkey : String) : Conserved env req y pubkey := by
  have hstir : ∀ (w : Tracked ι Store Progress) s', Tallied env w → Store.Passes w.shared s' →
      Tallied env { w with shared := s' } := by
    intro w s' hw h
    obtain ⟨-, hs'⟩ := h
    rw [hs']
    exact hw.of_same hw.lasting rfl rfl fun _ => rfl
  obtain ⟨hinv, -, hends⟩ := leads_keeps (hs.tallied maxTx_pos.le) hstir
    (fun i => keeps_call hmode (req i)) hy
  refine ⟨?_, hinv.budget pubkey, fun i hi hret => hends i _ hret pubkey hi hmode rfl⟩
  rw [used_eq_counter hinv.lasting]
  exact hinv.nonneg

end

namespace Demo

local instance inhabited : NeZero 4 := ⟨by decide⟩

/-- One operation for each wallet. -/
def env : Env where
  sha256Hex s := s
  finite _ := some 1000
  verifies _ message proof := message == proof
  toLowerCase s := s
  pilotMode := true
  pilotMaxTx := some 1
  requireProof := true
  network := .mainnet

/-- The wallet "G" is approved, and has used nothing. -/
def approved : Store := ⟨0, Cells.empty.set (.appr "G") "1" none, fun _ => 0⟩

theorem tx_approved {pubkey : String} : approved.cells (.tx pubkey) = none := by
  have hne : Key.tx pubkey ≠ .appr "G" := nofun
  change (Cells.empty.set (.appr "G") "1" none : Cells Key.Entry) (.tx pubkey) = none
  rw [Cells.set_of_ne hne]
  rfl

theorem sound_approved : Sound approved where
  lasting pubkey cell hcell := by
    rw [tx_approved] at hcell
    cases hcell
  nonneg pubkey := by
    rw [counter, tx_approved]
    exact le_rfl

/-- The owner resets the budget, and the wallet sends three times. -/
def requests (i : Fin 4) : Request := if i = 1 then .reset "G" else .send "G"

def done : Chance := .plain .done (.ok ())

/-- The operation does not happen. -/
def lapsed : Chance := .plain .done (.error (.error "tx_bad_seq"))

abbrev after (ds : List (Fin 4 × Chance)) :
    Crowd (Fin 4) Ask.Answer Failure (Except String Unit) (Tracked (Fin 4) Store Progress) :=
  (crowd env approved requests).play (surroundings env).meet ds

/-- The first operation fails, and hands its slot back, before the reset. -/
def inTurn : List (Fin 4 × Chance) :=
  [(0, done), (0, done), (0, lapsed), (0, done), (1, done), (1, done), (1, done),
    (2, done), (2, done), (2, done)]

/-- The first operation is under way during the reset, and fails after it. -/
def late : List (Fin 4 × Chance) :=
  [(0, done), (0, done), (1, done), (1, done), (1, done), (0, lapsed), (0, done),
    (2, done), (2, done), (2, done), (3, done), (3, done), (3, done)]

theorem ends : ((crowd env approved requests).fairly (surroundings env).meet inTime inTurn = true ∧
      (after inTurn).world.calls 2 = .admitted "G" 1) ∧
    (∀ i ∈ ({2, 3} : Finset (Fin 4)),
      (after late).world.calls i = .admitted "G" ((after late).world.shared.resets "G")) := by
  decide +kernel

end Demo

/-- An operation fails, and another is admitted after a reset. -/
theorem pilot_budget_kept_in_turn : (Demo.after Demo.inTurn).world.calls 2 = .admitted "G" 1 ∧
    Conserved Demo.env Demo.requests (Demo.after Demo.inTurn) "G" := by
  refine ⟨Demo.ends.1.2, pilot_budget_kept rfl Demo.sound_approved ?_ "G"⟩
  exact leads_meet (fun i d w q hok => hok) Demo.ends.1.1

/-- A slot is handed back after a reset has cleared it, and two operations are admitted for one. -/
theorem pilot_budget_exceeded : ¬∀ (env : Env) (s : Store) (req : Fin 4 → Request)
    (y : Crowd (Fin 4) Ask.Answer Failure (Except String Unit) (Tracked (Fin 4) Store Progress)),
    env.pilotMode = true → Sound s →
      Leads ((surroundings env).Steps fun _ _ _ _ => True) (Stirs Store.Passes) (crowd env s req) y →
        ∀ pubkey, Conserved env req y pubkey := by
  intro hall
  have hleads : Leads ((surroundings Demo.env).Steps fun _ _ _ _ => True) (Stirs Store.Passes)
      (crowd Demo.env Demo.approved Demo.requests) (Demo.after Demo.late) :=
    leads_meet (fun _ _ _ _ _ => trivial) fairly_true
  have hcard := (hall _ _ _ _ rfl Demo.sound_approved hleads "G").limit {2, 3} Demo.ends.2
  revert hcard
  decide

end Budget

end Lumenia.Sponsor.Pilot
