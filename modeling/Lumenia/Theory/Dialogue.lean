import Mathlib.Logic.Basic

/-!
# Programs and their surroundings

A `Dialogue` is a program that asks its surroundings one question after another and goes on with the
answers, until it returns a value or throws. The surroundings are a relation: the answers a question
can get in a state, and the states it leaves. `Runs` are the runs in such surroundings, `wp` the
weakest preconditions, and `Runs.sound` the one induction over runs.
-/

namespace Lumenia

/-- A question of the type `Q` has answers of the type `A q`. -/
inductive Dialogue {Q : Type} (A : Q → Type) (ε α : Type)
  | ret (r : Except ε α)
  | ask (q : Q) (k : A q → Dialogue A ε α)

namespace Dialogue

variable {Q : Type} {A : Q → Type} {ε ε' α β : Type}

/-- Go on with the result, whether it is a value or was thrown. -/
def andThen : Dialogue A ε α → (Except ε α → Dialogue A ε' β) → Dialogue A ε' β
  | .ret r, f => f r
  | .ask q k, f => .ask q fun a => (k a).andThen f

/-- Go on with a value, and pass on what was thrown. -/
def onValue (f : α → Dialogue A ε β) : Except ε α → Dialogue A ε β
  | .ok a => f a
  | .error e => .ret (.error e)

/-- Go on with what was thrown, and pass on a value. -/
def onError (f : ε → Dialogue A ε α) : Except ε α → Dialogue A ε α
  | .ok a => .ret (.ok a)
  | .error e => f e

instance : Monad (Dialogue A ε) where
  pure a := .ret (.ok a)
  bind p f := p.andThen (onValue f)

instance : MonadExcept ε (Dialogue A ε) where
  throw e := .ret (.error e)
  tryCatch p f := p.andThen (onError f)

/-- The result as a value. -/
def outcome (p : Dialogue A ε α) : Dialogue A ε' (Except ε α) := p.andThen fun r => .ret (.ok r)

/-- One question, and its answer. -/
def question (q : Q) : Dialogue A ε (A q) := .ask q fun a => .ret (.ok a)

/-! ## Runs -/

section

variable {W : Type} (step : W → (q : Q) → A q → W → Prop)

/-- From the first state to the result, and the state that is left. -/
inductive Runs : Dialogue A ε α → W → Except ε α → W → Prop
  | ret {r : Except ε α} {w : W} : Runs (.ret r) w r w
  | ask {q : Q} {k : A q → Dialogue A ε α} {w w' w'' : W} {r : Except ε α} (a : A q)
    (h : step w q a w') (rest : Runs (k a) w' r w'') : Runs (.ask q k) w r w''

/-- What has to hold for every run to end well. -/
def wp (post : Except ε α → W → Prop) : Dialogue A ε α → W → Prop
  | .ret r, w => post r w
  | .ask q k, w => ∀ a w', step w q a w' → (k a).wp post w'

end

section

variable {W : Type} {step : W → (q : Q) → A q → W → Prop} {post post' : Except ε α → W → Prop}
  {p : Dialogue A ε α} {r : Except ε α} {w w' : W}

theorem Runs.sound (h : Runs step p w r w') (hp : p.wp step post w) : post r w' := by
  induction h with
  | ret => exact hp
  | ask a hstep _ ih => exact ih (hp a _ hstep)

theorem wp_mono (hpost : ∀ r w, post r w → post' r w) (h : p.wp step post w) :
    p.wp step post' w := by
  induction p generalizing w with
  | ret r => exact hpost r w h
  | ask q k ih => exact fun a w' hstep => ih a (h a w' hstep)

theorem wp_of_forall (hpost : ∀ r w, post r w) : p.wp step post w := by
  induction p generalizing w with
  | ret r => exact hpost r w
  | ask q k ih => exact fun a w' _ => ih a

@[simp] theorem wp_ret : (Dialogue.ret r : Dialogue A ε α).wp step post w ↔ post r w := Iff.rfl

@[simp] theorem wp_pure {a : α} :
    (pure a : Dialogue A ε α).wp step post w ↔ post (.ok a) w := Iff.rfl

@[simp] theorem wp_throw {e : ε} :
    (throw e : Dialogue A ε α).wp step post w ↔ post (.error e) w := Iff.rfl

@[simp] theorem wp_question {q : Q} {post : Except ε (A q) → W → Prop} :
    (question q : Dialogue A ε (A q)).wp step post w ↔
      ∀ a w', step w q a w' → post (.ok a) w' := Iff.rfl

theorem wp_andThen {f : Except ε α → Dialogue A ε' β} {post : Except ε' β → W → Prop} :
    (p.andThen f).wp step post w ↔ p.wp step (fun r w => (f r).wp step post w) w := by
  induction p generalizing w with
  | ret r => exact Iff.rfl
  | ask q k ih => exact forall_congr' fun a => forall_congr' fun w' => imp_congr_right fun _ => ih a

theorem wp_bind {f : α → Dialogue A ε β} {post : Except ε β → W → Prop} :
    (p >>= f).wp step post w ↔ p.wp step (fun r w => (onValue f r).wp step post w) w :=
  wp_andThen

theorem wp_outcome {post : Except ε' (Except ε α) → W → Prop} :
    (p.outcome : Dialogue A ε' (Except ε α)).wp step post w ↔
      p.wp step (fun r w => post (.ok r) w) w :=
  wp_andThen

theorem wp_ite {c : Prop} [Decidable c] {p' : Dialogue A ε α} :
    (if c then p else p').wp step post w ↔ (c → p.wp step post w) ∧ (¬c → p'.wp step post w) := by
  by_cases hc : c <;> simp [hc]

@[simp] theorem onValue_ok {f : α → Dialogue A ε β} {a : α} : onValue f (.ok a) = f a := rfl

@[simp] theorem onValue_error {f : α → Dialogue A ε β} {e : ε} :
    onValue f (.error e) = .ret (.error e) := rfl

@[simp] theorem question_bind {q : Q} {f : A q → Dialogue A ε β} :
    (question q >>= f : Dialogue A ε β) = .ask q f := rfl

/-- Runs are runs in any surroundings that abstract from these. -/
theorem Runs.simulate {V : Type} {step' : V → (q : Q) → A q → V → Prop} {f : W → V}
    (hstep : ∀ w q a w', step w q a w' → step' (f w) q a (f w')) (h : Runs step p w r w') :
    Runs step' p (f w) r (f w') := by
  induction h with
  | ret => exact .ret
  | ask a hs _ ih => exact .ask a (hstep _ _ _ _ hs) ih

/-- The runs of a sequence are those of its parts. -/
theorem runs_andThen {f : Except ε α → Dialogue A ε' β} {r' : Except ε' β} {w'' : W}
    (h : Runs step p w r w') (hf : Runs step (f r) w' r' w'') :
    Runs step (p.andThen f) w r' w'' := by
  induction h with
  | ret => exact hf
  | ask a hstep _ ih => exact .ask a hstep (ih hf)

end

/-! ## What was asked and answered -/

/-- A question with its answer. -/
abbrev Event (A : Q → Type) := (q : Q) × A q

/-- Surroundings that answer as they like within `fair`, and keep a record of it. -/
def recorded (fair : (q : Q) → A q → Prop) (h : List (Event A)) (q : Q) (a : A q)
    (h' : List (Event A)) : Prop :=
  fair q a ∧ h' = h ++ [⟨q, a⟩]

section

variable {fair : (q : Q) → A q → Prop} {h : List (Event A)} {q : Q}

theorem wp_recorded_question {post : Except ε (A q) → List (Event A) → Prop} :
    (question q : Dialogue A ε (A q)).wp (recorded fair) post h ↔
      ∀ a, fair q a → post (.ok a) (h ++ [⟨q, a⟩]) := by
  constructor
  · intro hwp a ha
    exact hwp a _ ⟨ha, rfl⟩
  · rintro hwp a h' ⟨ha, rfl⟩
    exact hwp a ha

theorem wp_recorded_bind {k : A q → Dialogue A ε α} {post : Except ε α → List (Event A) → Prop} :
    (question q >>= k).wp (recorded fair) post h ↔
      ∀ a, fair q a → (k a).wp (recorded fair) post (h ++ [⟨q, a⟩]) := by
  rw [wp_bind, wp_recorded_question]
  exact Iff.rfl

end

/-- The run with the given answers, and the record of it. -/
def play (answer : List (Event A) → (q : Q) → A q) :
    Dialogue A ε α → List (Event A) → Except ε α × List (Event A)
  | .ret r, h => (r, h)
  | .ask q k, h => (k (answer h q)).play answer (h ++ [⟨q, answer h q⟩])

theorem runs_play {fair : (q : Q) → A q → Prop} {answer : List (Event A) → (q : Q) → A q}
    (hfair : ∀ h q, fair q (answer h q)) (p : Dialogue A ε α) (h : List (Event A)) :
    Runs (recorded fair) p h (p.play answer h).1 (p.play answer h).2 := by
  induction p generalizing h with
  | ret r => exact .ret
  | ask q k ih => exact .ask (answer h q) ⟨hfair h q, rfl⟩ (ih _ _)

/-! ## Other questions -/

section

variable {Q' : Type} {A' : Q' → Type}

/-- The same program where each question stands for one of another kind. -/
def relabel (f : Q → Q') (g : ∀ q, A' (f q) → A q) : Dialogue A ε α → Dialogue A' ε α
  | .ret r => .ret r
  | .ask q k => .ask (f q) fun a => (k (g q a)).relabel f g

variable {f : Q → Q'} {g : ∀ q, A' (f q) → A q}

@[simp] theorem relabel_ret {r : Except ε α} : (ret r : Dialogue A ε α).relabel f g = .ret r := rfl

@[simp] theorem relabel_question {q : Q} :
    (question q : Dialogue A ε (A q)).relabel f g = .ask (f q) fun a => .ret (.ok (g q a)) := rfl

theorem relabel_andThen {p : Dialogue A ε α} {k : Except ε α → Dialogue A ε' β} :
    (p.andThen k).relabel f g = (p.relabel f g).andThen fun r => (k r).relabel f g := by
  induction p with
  | ret r => rfl
  | ask q _ ih => exact congrArg (Dialogue.ask (f q)) (funext fun a => ih (g q a))

theorem relabel_bind {p : Dialogue A ε α} {k : α → Dialogue A ε β} :
    (p >>= k).relabel f g = (p.relabel f g) >>= fun a => (k a).relabel f g := by
  refine relabel_andThen.trans (congrArg (Dialogue.andThen _) (funext fun r => ?_))
  cases r <;> rfl

end

end Dialogue

end Lumenia
