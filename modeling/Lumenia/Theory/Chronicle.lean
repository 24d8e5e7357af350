import Mathlib.Data.List.Infix
import Mathlib.Data.List.Nodup
import Mathlib.Order.Interval.Finset.Nat

/-!
# Laws of a history

What each event of a history owes to those before it.
-/

namespace Lumenia

variable {E : Type} {P P' : List E → E → Prop} {h : List E} {e : E}

/-- Every event obeys `P`, given what happened before it. -/
def Lawful (P : List E → E → Prop) (h : List E) : Prop :=
  ∀ before e after, h = before ++ e :: after → P before e

theorem lawful_nil : Lawful P [] := fun before e after h => by simp at h

theorem lawful_concat : Lawful P (h ++ [e]) ↔ Lawful P h ∧ P h e := by
  constructor
  · intro hP
    refine ⟨?_, hP h e [] rfl⟩
    rintro before e' after rfl
    exact hP before e' (after ++ [e]) (by simp)
  · rintro ⟨hP, he⟩ before e' after heq
    rcases List.eq_nil_or_concat after with rfl | ⟨rest, last, rfl⟩
    · obtain ⟨rfl, rfl⟩ := List.append_inj' heq rfl |>.imp_right List.singleton_inj.mp
      exact he
    · have hsplit : h ++ [e] = (before ++ e' :: rest) ++ [last] := by simpa using heq
      exact hP before e' rest (List.append_inj' hsplit rfl).1

theorem Lawful.concat (hP : Lawful P h) (he : P h e) : Lawful P (h ++ [e]) :=
  lawful_concat.mpr ⟨hP, he⟩

theorem Lawful.mono (hP : Lawful P h) (hmono : ∀ before e, P before e → P' before e) :
    Lawful P' h :=
  fun before e after heq => hmono before e (hP before e after heq)

/-- An event of a lawful history obeyed the law when it came. -/
theorem Lawful.of_mem (hP : Lawful P h) (he : e ∈ h) :
    ∃ before after, h = before ++ e :: after ∧ P before e := by
  obtain ⟨before, after, heq⟩ := List.append_of_mem he
  exact ⟨before, after, heq, hP before e after heq⟩

/-- Of two events one came after the other. -/
theorem Lawful.order {e' : E} (hP : Lawful P h) (he : e ∈ h) (he' : e' ∈ h) (hne : e ≠ e') :
    (∃ before, e ∈ before ∧ P before e') ∨ ∃ before, e' ∈ before ∧ P before e := by
  obtain ⟨before, after, rfl, hPe⟩ := hP.of_mem he
  rcases List.mem_append.mp he' with hbefore | hafter
  · exact .inr ⟨before, hbefore, hPe⟩
  · obtain ⟨middle, rest, rfl⟩ := List.append_of_mem (List.mem_of_ne_of_mem hne.symm hafter)
    refine .inl ⟨before ++ e :: middle, by simp, hP _ e' rest (by simp)⟩

/-- Distinct numbers from one to `n` are at most `n`. -/
theorem length_le_of_nodup {ns : List ℕ} {n : ℕ} (hnodup : ns.Nodup)
    (hns : ∀ m ∈ ns, 1 ≤ m ∧ m ≤ n) : ns.length ≤ n := by
  have hsub : ns.toFinset ⊆ Finset.Icc 1 n := by
    intro m hm
    rw [Finset.mem_Icc]
    exact hns m (List.mem_toFinset.mp hm)
  have hcard := Finset.card_le_card hsub
  rwa [List.toFinset_card_of_nodup hnodup, Nat.card_Icc, Nat.add_sub_cancel] at hcard

end Lumenia
