import Mathlib.Data.Finmap
import Mathlib.Algebra.Order.BigOperators.Group.Finset
import Mathlib.Tactic.Abel

/-!
# Totals over a finite map

`Finmap.total w s` adds up a weight over the bindings of `s`. Writing one binding changes the total
by the new weight minus the weight it replaces (`total_insert`), and no binding weighs more than
the total when weights are not negative (`weight_le_total`).
-/

namespace Finmap

variable {α : Type*} {β : α → Type*} [DecidableEq α] {M : Type*} [AddCommGroup M]

/-- The weight found at a key, zero where nothing is bound. -/
def weight (w : ∀ a, β a → M) (s : Finmap β) (a : α) : M := (s.lookup a).elim 0 (w a)

/-- The sum of the weights of all bindings. -/
def total (w : ∀ a, β a → M) (s : Finmap β) : M := ∑ a ∈ s.keys, s.weight w a

variable {w : ∀ a, β a → M} {s : Finmap β} {a b : α} {v : β a}

theorem weight_of_lookup (h : s.lookup a = some v) : s.weight w a = w a v := by
  simp [weight, h]

theorem weight_of_lookup_none (h : s.lookup a = none) : s.weight w a = 0 := by
  simp [weight, h]

@[simp] theorem weight_insert_self : (s.insert a v).weight w a = w a v :=
  weight_of_lookup (lookup_insert s)

theorem weight_insert_of_ne (h : b ≠ a) : (s.insert a v).weight w b = s.weight w b := by
  simp [weight, lookup_insert_of_ne s h]

theorem keys_insert : (s.insert a v).keys = Insert.insert a s.keys := by
  ext b; simp [mem_keys, mem_insert]

/-- A total may be taken over any finite set that holds the keys. -/
theorem total_eq_sum {t : Finset α} (h : s.keys ⊆ t) : s.total w = ∑ a ∈ t, s.weight w a :=
  Finset.sum_subset h fun _ _ ha =>
    weight_of_lookup_none (lookup_eq_none.mpr fun hm => ha (mem_keys.mpr hm))

@[simp] theorem total_empty : (∅ : Finmap β).total w = 0 := by simp [total]

/-- One write moves the total by what it puts in minus what it replaces. -/
theorem total_insert : (s.insert a v).total w = s.total w - s.weight w a + w a v := by
  have hkeys : s.keys ⊆ Insert.insert a s.keys := Finset.subset_insert _ _
  rw [total_eq_sum hkeys, total, keys_insert]
  have ha : a ∈ Insert.insert a s.keys := Finset.mem_insert_self _ _
  rw [← Finset.add_sum_erase _ _ ha, ← Finset.add_sum_erase _ _ ha, weight_insert_self]
  have hrest : ∑ b ∈ (Insert.insert a s.keys).erase a, (s.insert a v).weight w b =
      ∑ b ∈ (Insert.insert a s.keys).erase a, s.weight w b :=
    Finset.sum_congr rfl fun b hb => weight_insert_of_ne (Finset.ne_of_mem_erase hb)
  rw [hrest]; abel

end Finmap

namespace Finmap

variable {α : Type*} {β : α → Type*} [DecidableEq α] {M : Type*} [AddCommGroup M]
  [PartialOrder M] [IsOrderedAddMonoid M] {w : ∀ a, β a → M} {s : Finmap β} {a b : α}

/-- No binding weighs more than everything. -/
theorem weight_le_total (hw : ∀ c, 0 ≤ s.weight w c) : s.weight w a ≤ s.total w := by
  have hkeys : s.keys ⊆ Insert.insert a s.keys := Finset.subset_insert _ _
  rw [total_eq_sum hkeys]
  exact Finset.single_le_sum (fun c _ => hw c) (Finset.mem_insert_self _ _)

/-- Two different bindings together weigh no more than everything. -/
theorem weight_add_weight_le_total (hw : ∀ c, 0 ≤ s.weight w c) (hne : a ≠ b) :
    s.weight w a + s.weight w b ≤ s.total w := by
  have hkeys : s.keys ⊆ Insert.insert a (Insert.insert b s.keys) := fun c hc => by simp [hc]
  rw [total_eq_sum hkeys]
  have hsub : ({a, b} : Finset α) ⊆ Insert.insert a (Insert.insert b s.keys) := by
    intro c hc; simp only [Finset.mem_insert, Finset.mem_singleton] at hc ⊢; tauto
  rw [← Finset.sum_pair hne]
  exact Finset.sum_le_sum_of_subset_of_nonneg hsub fun c _ _ => hw c

end Finmap
