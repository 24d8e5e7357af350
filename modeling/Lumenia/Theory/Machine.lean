import Mathlib.Data.List.Induction

/-!
# Runs of a deterministic machine

A `Machine` consumes inputs one at a time and emits an output for each; whatever is left to chance
or to an adversary (who calls, when, what the environment answers) is part of the input. `run`
keeps the whole history of inputs and outputs next to the state, so that an invariant can speak of
what has happened so far. `Machine.invariant_of` is the only induction over runs that users of this
file need.
-/

namespace Lumenia

/-- An opening state and a step from a state and an input to a state and an output. -/
structure Machine (σ ι ο : Type*) where
  init : σ
  step : σ → ι → σ × ο

namespace Machine

variable {σ ι ο : Type*} (m : Machine σ ι ο)

/-- One more input: the history grows at its end. -/
def extend (r : List (ι × ο) × σ) (i : ι) : List (ι × ο) × σ :=
  (r.1 ++ [(i, (m.step r.2 i).2)], (m.step r.2 i).1)

/-- The history and the state after the given inputs. -/
def run (is : List ι) : List (ι × ο) × σ := is.foldl m.extend ([], m.init)

/-- The history after the given inputs, oldest first. -/
def history (is : List ι) : List (ι × ο) := (m.run is).1

/-- The state after the given inputs. -/
def final (is : List ι) : σ := (m.run is).2

/-- States some inputs lead to. -/
def Reachable (s : σ) : Prop := ∃ is, m.final is = s

variable {m}

@[simp] theorem history_nil : m.history [] = [] := rfl

@[simp] theorem final_nil : m.final [] = m.init := rfl

theorem history_concat {is : List ι} {i : ι} :
    m.history (is ++ [i]) = m.history is ++ [(i, (m.step (m.final is) i).2)] := by
  simp [history, final, run, extend]

theorem final_concat {is : List ι} {i : ι} :
    m.final (is ++ [i]) = (m.step (m.final is) i).1 := by
  simp [final, run, extend]

/-- The invariant rule, over inputs that all satisfy `C`. -/
theorem invariant_of {C : ι → Prop} {P : List (ι × ο) → σ → Prop} (init : P [] m.init)
    (step : ∀ {h s i}, C i → P h s → P (h ++ [(i, (m.step s i).2)]) (m.step s i).1)
    {is : List ι} (hC : ∀ i ∈ is, C i) : P (m.history is) (m.final is) := by
  induction is using List.reverseRecOn with
  | nil => exact init
  | append_singleton is i ih =>
    rw [history_concat, final_concat]
    exact step (hC i (by simp)) (ih fun j hj => hC j (by simp [hj]))

/-- The invariant rule over all inputs. -/
theorem invariant {P : List (ι × ο) → σ → Prop} (init : P [] m.init)
    (step : ∀ {h s i}, P h s → P (h ++ [(i, (m.step s i).2)]) (m.step s i).1) (is : List ι) :
    P (m.history is) (m.final is) :=
  invariant_of (C := fun _ => True) init (fun _ => step) fun _ _ => trivial

/-- A property of the states holds all along a run exactly if each step obeys the rule that keeps it. -/
theorem along_iff {P : σ → Prop} {C : σ → ι → Prop} (init : P m.init)
    (step : ∀ {s i}, P s → (P (m.step s i).1 ↔ C s i)) {is : List ι} :
    (∀ is', is' <+: is → P (m.final is')) ↔ ∀ is' i, is' ++ [i] <+: is → C (m.final is') i := by
  constructor
  · intro h is' i his
    have hafter := h _ his
    rw [final_concat] at hafter
    exact (step (h is' ((List.prefix_append _ _).trans his))).mp hafter
  · intro h is' his
    induction is' using List.reverseRecOn with
    | nil => exact init
    | append_singleton is' i ih =>
      rw [final_concat]
      exact (step (ih ((List.prefix_append _ _).trans his))).mpr (h is' i his)

/-- The invariant rule for a property of the state alone. -/
theorem Reachable.induction {P : σ → Prop} (init : P m.init)
    (step : ∀ {s i}, P s → P (m.step s i).1) {s : σ} (hs : m.Reachable s) : P s := by
  obtain ⟨is, rfl⟩ := hs
  exact invariant (P := fun _ s => P s) init step is

end Machine

end Lumenia
