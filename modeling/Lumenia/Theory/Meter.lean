import Mathlib.Algebra.BigOperators.Group.Finset.Basic
import Mathlib.Algebra.Order.BigOperators.Group.Finset

/-!
# Metering by a shared counter

A client of a shared counter adds an amount, is told the total its addition led to, and may take the
amount back later. A `Ticket` is an amount that stands, with the total its owner goes by. In any set
of standing tickets the one added last was told at least the sum of the set, whatever was added and
taken back in between (`Metered.last`); so if each owner found its total within a limit, the set is
within the limit (`Metered.sum_le`).
-/

namespace Lumenia

structure Ticket where
  amount : ℤ
  seen : ℤ

namespace Ticket

/-- The amount of a ticket that may be absent. -/
def worth (o : Option Ticket) : ℤ := o.elim 0 amount

@[simp] theorem worth_none : worth none = 0 := rfl

@[simp] theorem worth_some {x : Ticket} : worth (some x) = x.amount := rfl

end Ticket

open Ticket

variable {ι : Type*} [Fintype ι] [DecidableEq ι]

/-- The counter stands at `c` with the tickets `t`. -/
structure Metered (c : ℤ) (t : ι → Option Ticket) : Prop where
  total : c = ∑ i, worth (t i)
  nonneg : ∀ i, 0 ≤ worth (t i)
  last : ∀ A : Finset ι, A.Nonempty → (∀ i ∈ A, (t i).isSome = true) →
    ∃ i ∈ A, ∃ x, t i = some x ∧ ∑ j ∈ A, worth (t j) ≤ x.seen

namespace Metered

variable {c : ℤ} {t : ι → Option Ticket} {i : ι} {x : Ticket}

omit [DecidableEq ι] in
theorem zero : Metered 0 (fun _ : ι => none) where
  total := by simp
  nonneg _ := le_rfl
  last A hA h := by
    obtain ⟨i, hi⟩ := hA
    simpa using h i hi

omit [DecidableEq ι] in
theorem sum_le_total (h : Metered c t) (A : Finset ι) : ∑ j ∈ A, worth (t j) ≤ c := by
  rw [h.total]
  exact Finset.sum_le_sum_of_subset_of_nonneg (Finset.subset_univ A) fun j _ _ => h.nonneg j

omit [DecidableEq ι] in
/-- Owners that found their totals within a limit are within it together. -/
theorem sum_le (h : Metered c t) {A : Finset ι} {max : ℤ} (hmax : 0 ≤ max)
    (hA : ∀ i ∈ A, ∃ x, t i = some x ∧ x.seen ≤ max) : ∑ j ∈ A, worth (t j) ≤ max := by
  obtain rfl | hne := A.eq_empty_or_nonempty
  · simpa using hmax
  · obtain ⟨i, hi, x, hx, hle⟩ := h.last A hne fun i hi => by
      obtain ⟨x, hx, -⟩ := hA i hi
      simp [hx]
    obtain ⟨y, hy, hseen⟩ := hA i hi
    obtain rfl : x = y := Option.some.inj (hx.symm.trans hy)
    exact hle.trans hseen

omit [Fintype ι] [DecidableEq ι] in
theorem sum_worth_of_one {A : Finset ι} (hA : ∀ i ∈ A, ∃ x, t i = some x ∧ x.amount = 1) :
    ∑ j ∈ A, worth (t j) = A.card := by
  have hone : ∀ j ∈ A, worth (t j) = 1 := by
    intro j hj
    obtain ⟨x, hx, hamount⟩ := hA j hj
    rw [hx, worth_some, hamount]
  rw [Finset.sum_congr rfl hone, Finset.sum_const, Int.nsmul_eq_mul, mul_one]

omit [DecidableEq ι] in
/-- Tickets of one unit are counted. -/
theorem card_le_total (h : Metered c t) {A : Finset ι}
    (hA : ∀ i ∈ A, ∃ x, t i = some x ∧ x.amount = 1) : A.card ≤ c := by
  rw [← sum_worth_of_one hA]
  exact h.sum_le_total A

omit [DecidableEq ι] in
theorem card_le (h : Metered c t) {A : Finset ι} {max : ℤ} (hmax : 0 ≤ max)
    (hA : ∀ i ∈ A, ∃ x, t i = some x ∧ x.amount = 1 ∧ x.seen ≤ max) : A.card ≤ max := by
  have hone : ∀ i ∈ A, ∃ x, t i = some x ∧ x.amount = 1 := fun i hi => by
    obtain ⟨x, hx, hamount, -⟩ := hA i hi
    exact ⟨x, hx, hamount⟩
  rw [← sum_worth_of_one hone]
  refine h.sum_le hmax fun i hi => ?_
  obtain ⟨x, hx, -, hseen⟩ := hA i hi
  exact ⟨x, hx, hseen⟩

omit [Fintype ι] in
/-- Sums of worths after one ticket changed. -/
theorem sum_update {A : Finset ι} {o : Option Ticket} :
    ∑ j ∈ A, worth (Function.update t i o j) =
      ∑ j ∈ A, worth (t j) + if i ∈ A then worth o - worth (t i) else 0 := by
  by_cases hi : i ∈ A
  · rw [if_pos hi, ← Finset.add_sum_erase A _ hi, ← Finset.add_sum_erase A (fun j => worth (t j)) hi]
    have hrest : ∑ j ∈ A.erase i, worth (Function.update t i o j) = ∑ j ∈ A.erase i, worth (t j) :=
      Finset.sum_congr rfl fun j hj => by rw [Function.update_of_ne (Finset.ne_of_mem_erase hj)]
    rw [hrest, Function.update_self]
    omega
  · rw [if_neg hi, add_zero]
    refine Finset.sum_congr rfl fun j hj => ?_
    rw [Function.update_of_ne (ne_of_mem_of_not_mem hj hi)]

omit [Fintype ι] in
theorem isSome_of_update {A : Finset ι} {o : Option Ticket} (hi : i ∉ A)
    (h : ∀ j ∈ A, (Function.update t i o j).isSome = true) : ∀ j ∈ A, (t j).isSome = true := by
  intro j hj
  have := h j hj
  rwa [Function.update_of_ne (ne_of_mem_of_not_mem hj hi)] at this

/-- Adding an amount. -/
theorem take (h : Metered c t) (hi : t i = none) {a : ℤ} (ha : 0 ≤ a) :
    Metered (c + a) (Function.update t i (some ⟨a, c + a⟩)) where
  total := by
    rw [sum_update, if_pos (Finset.mem_univ i), ← h.total, hi]
    simp
  nonneg j := by
    by_cases hj : j = i
    · subst hj
      simpa using ha
    · simpa [Function.update_of_ne hj] using h.nonneg j
  last A hne hA := by
    by_cases hmem : i ∈ A
    · refine ⟨i, hmem, _, Function.update_self .., ?_⟩
      have hle := h.sum_le_total A
      rw [sum_update, if_pos hmem, hi]
      simpa using hle
    · obtain ⟨j, hj, x, hx, hle⟩ := h.last A hne (isSome_of_update hmem hA)
      refine ⟨j, hj, x, ?_, ?_⟩
      · rwa [Function.update_of_ne (ne_of_mem_of_not_mem hj hmem)]
      · rwa [sum_update, if_neg hmem, add_zero]

/-- Taking an amount back. -/
theorem drop (h : Metered c t) (hi : t i = some x) :
    Metered (c - x.amount) (Function.update t i none) where
  total := by
    rw [sum_update, if_pos (Finset.mem_univ i), ← h.total, hi]
    simp [sub_eq_add_neg]
  nonneg j := by
    by_cases hj : j = i
    · subst hj
      simp
    · simpa [Function.update_of_ne hj] using h.nonneg j
  last A hne hA := by
    have hmem : i ∉ A := fun hmem => by simpa using hA i hmem
    obtain ⟨j, hj, y, hy, hle⟩ := h.last A hne (isSome_of_update hmem hA)
    refine ⟨j, hj, y, ?_, ?_⟩
    · rwa [Function.update_of_ne (ne_of_mem_of_not_mem hj hmem)]
    · rwa [sum_update, if_neg hmem, add_zero]

/-- Taking a part of an amount back. -/
theorem lower (h : Metered c t) (hi : t i = some x) {b : ℤ} (hb : 0 ≤ b) (hle : b ≤ x.amount) :
    Metered (c - b) (Function.update t i (some ⟨x.amount - b, x.seen⟩)) where
  total := by
    rw [sum_update, if_pos (Finset.mem_univ i), ← h.total, hi, worth_some, worth_some]
    dsimp only
    omega
  nonneg j := by
    rcases eq_or_ne j i with rfl | hj
    · rw [Function.update_self, worth_some]
      exact sub_nonneg.mpr hle
    · rw [Function.update_of_ne hj]
      exact h.nonneg j
  last A hne hA := by
    have hsum : ∑ j ∈ A, worth (Function.update t i (some ⟨x.amount - b, x.seen⟩) j) ≤
        ∑ j ∈ A, worth (t j) := by
      rw [sum_update, hi, worth_some, worth_some]
      dsimp only
      split <;> omega
    have hA' : ∀ j ∈ A, (t j).isSome = true := by
      intro j hj
      rcases eq_or_ne j i with rfl | heq
      · rw [hi, Option.isSome_some]
      · have hsome := hA j hj
        rwa [Function.update_of_ne heq] at hsome
    obtain ⟨j, hj, y, hy, hseen⟩ := h.last A hne hA'
    rcases eq_or_ne j i with rfl | heq
    · obtain rfl : x = y := Option.some.inj (hi.symm.trans hy)
      exact ⟨j, hj, _, Function.update_self .., hsum.trans hseen⟩
    · exact ⟨j, hj, y, by rwa [Function.update_of_ne heq], hsum.trans hseen⟩

/-- Reading the counter again: the owner may go by either total from then on. -/
theorem reread (h : Metered c t) (hi : t i = some x) :
    Metered c (Function.update t i (some ⟨x.amount, min x.seen c⟩)) where
  total := by
    rw [sum_update, if_pos (Finset.mem_univ i), ← h.total, hi]
    simp
  nonneg j := by
    by_cases hj : j = i
    · subst hj
      simpa [hi] using h.nonneg j
    · simpa [Function.update_of_ne hj] using h.nonneg j
  last A hne hA := by
    have hsum : ∑ j ∈ A, worth (Function.update t i (some ⟨x.amount, min x.seen c⟩) j) =
        ∑ j ∈ A, worth (t j) := by
      rw [sum_update, hi]
      simp
    have hA' : ∀ j ∈ A, (t j).isSome = true := fun j hj => by
      by_cases heq : j = i
      · simp [heq, hi]
      · have := hA j hj
        rwa [Function.update_of_ne heq] at this
    obtain ⟨j, hj, y, hy, hle⟩ := h.last A hne hA'
    rw [hsum]
    by_cases heq : j = i
    · subst heq
      obtain rfl : x = y := Option.some.inj (hi.symm.trans hy)
      exact ⟨j, hj, _, Function.update_self .., le_min hle (h.sum_le_total A)⟩
    · exact ⟨j, hj, y, by rwa [Function.update_of_ne heq], hle⟩

end Metered

end Lumenia
