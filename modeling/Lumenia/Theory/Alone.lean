import Lumenia.Theory.Dialogue
import Lumenia.Theory.Threads

/-!
# A program that is followed alone

A `Prog` as a `Dialogue`: its batches and its reads of memory are the questions. What others do with
the store and the memory is then left to the surroundings.
-/

namespace Lumenia.Prog

variable {C R M ε α β : Type}

/-- What a program waits for, or reads. -/
inductive Query (C M : Type)
  | batch (cmds : List C)
  /-- The memory is read, and left as `f` makes it. -/
  | memory (f : M → M)

/-- The replies to a batch, or the memory before. -/
abbrev Query.Answer (R : Type) : Query C M → Type
  | .batch _ => Except String (List R)
  | .memory _ => M

abbrev Alone (C R M α : Type) := Dialogue (Query.Answer (C := C) (M := M) R) Empty α

/-- A label that is shown does not end the program. -/
def alone : Prog C R M ε α → Alone C R M α
  | .ret a => .ret (.ok a)
  | .pipe todo got k => .ask (.batch todo) fun r => (k (r.map (got ++ ·))).alone
  | .mem f k => .ask (.memory f) fun m => (k m).alone
  | .hold _ k => k.alone

theorem alone_bind {p : Prog C R M ε α} {f : α → Prog C R M ε β} :
    (p >>= f).alone = p.alone.andThen (Dialogue.onValue fun a => (f a).alone) := by
  induction p with
  | ret a => rfl
  | pipe todo got k ih => exact congrArg (Dialogue.ask (.batch todo)) (funext fun r => ih _)
  | mem g k ih => exact congrArg (Dialogue.ask (.memory g)) (funext fun m => ih m)
  | hold e k ih => exact ih

section

variable {W : Type} {step : W → (q : Query C M) → q.Answer R → W → Prop} {w : W}
  {p : Prog C R M ε α} {Q : α → W → Prop}

/-- The program ends in `Q`. Nothing is thrown. -/
def Leaves (step : W → (q : Query C M) → q.Answer R → W → Prop) (Q : α → W → Prop) (p : Prog C R M ε α)
    (w : W) : Prop :=
  p.alone.wp step (fun r w => ∀ a, r = .ok a → Q a w) w

theorem leaves_ret {a : α} : (ret a : Prog C R M ε α).Leaves step Q w ↔ Q a w :=
  ⟨fun h => h a rfl, fun h _ ha => Except.ok.inj ha ▸ h⟩

theorem leaves_bind {f : α → Prog C R M ε β} {Q : β → W → Prop} :
    (p >>= f).Leaves step Q w ↔ p.Leaves step (fun a w => (f a).Leaves step Q w) w := by
  unfold Leaves
  rw [alone_bind, Dialogue.wp_andThen]
  constructor
  · refine Dialogue.wp_mono fun r w h a ha => ?_
    subst ha
    exact h
  · refine Dialogue.wp_mono fun r w h => ?_
    cases r with
    | ok a => exact h a rfl
    | error e => exact e.elim

theorem leaves_mono {Q' : α → W → Prop} (h : p.Leaves step Q w) (hQ : ∀ a w, Q a w → Q' a w) :
    p.Leaves step Q' w :=
  Dialogue.wp_mono (fun _ _ h a ha => hQ a _ (h a ha)) h

theorem leaves_pipe {cmds : List C} {k : Except String (List R) → Prog C R M ε α} :
    (pipe cmds [] k).Leaves step Q w ↔
      ∀ r w', step w (.batch cmds) r w' → (k r).Leaves step Q w' := by
  have hmap : ∀ r : Except String (List R), r.map ([] ++ ·) = r := fun r => by cases r <;> rfl
  unfold Leaves
  rw [alone]
  simp only [Dialogue.wp, hmap]

theorem leaves_mem {f : M → M} {k : M → Prog C R M ε α} :
    (mem f k).Leaves step Q w ↔ ∀ m w', step w (.memory f) m w' → (k m).Leaves step Q w' :=
  Iff.rfl

/-- What a run of the program ends with. -/
theorem Leaves.of_runs {r : Except Empty α} {a : α} {w' : W} (h : p.Leaves step Q w)
    (hrun : Dialogue.Runs step p.alone w r w') (hr : r = .ok a) : Q a w' :=
  hrun.sound h a hr

end

end Lumenia.Prog
