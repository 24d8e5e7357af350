import Mathlib.Logic.Basic

/-!
# Checks

Programs that go through a list of checks and stop at the first that fails.
-/

namespace Lumenia

variable {ε α β : Type}

/-- Stop with `e` if `bad`. -/
def failWhen (bad : Prop) [Decidable bad] (e : ε) : Except ε Unit :=
  if bad then .error e else .ok ()

@[simp] theorem failWhen_eq_ok {bad : Prop} [Decidable bad] {e : ε} {u : Unit} :
    failWhen bad e = .ok u ↔ ¬bad := by
  unfold failWhen
  split
  · simpa
  · simpa

/-- Both the first check and the rest pass. -/
theorem check_bind_eq_ok {x : Except ε Unit} {k : Unit → Except ε β} {r : β} :
    (x >>= k) = .ok r ↔ x = .ok () ∧ k () = .ok r := by
  cases x <;> simp [bind, Except.bind]

/-- What is computed first is what the rest goes on with. -/
theorem value_bind_eq_ok {x : Except ε α} {k : α → Except ε β} {r : β} :
    (x >>= k) = .ok r ↔ ∃ a, x = .ok a ∧ k a = .ok r := by
  cases x <;> simp [bind, Except.bind]

/-- All of a list pass a check. -/
theorem check_forM_eq_ok {check : α → Except ε Unit} {as : List α} :
    as.forM check = .ok () ↔ ∀ a ∈ as, check a = .ok () := by
  induction as with
  | nil => simp [List.forM, pure, Except.pure]
  | cons a as ih =>
    have hcons : (a :: as).forM check = (check a >>= fun _ => as.forM check) := rfl
    rw [hcons, check_bind_eq_ok, List.forall_mem_cons]
    constructor
    · intro ⟨ha, has⟩
      exact ⟨ha, ih.mp has⟩
    · intro ⟨ha, has⟩
      exact ⟨ha, ih.mpr has⟩

end Lumenia
