import Lumenia.Theory.Parallel

/-!
# What a program never comes to

A program that denies a result does not end with it, whatever it is answered, and asks only certain questions on the
way.
-/

namespace Lumenia.Dialogue

variable {Q : Type} {A : Q → Type} {ε ε' α β : Type}

/-- Every question is of the kind `S`, and no result is granted. -/
def Denies (S : Q → Prop) (granted : α → Prop) : Dialogue A ε α → Prop
  | .ret (.ok a) => ¬granted a
  | .ret (.error _) => True
  | .ask q k => S q ∧ ∀ a, (k a).Denies S granted

section

variable {S S' : Q → Prop} {granted granted' : α → Prop} {p p' : Dialogue A ε α}

theorem denies_pure {a : α} (h : ¬granted a) : (pure a : Dialogue A ε α).Denies S granted := h

theorem denies_throw {e : ε} : (throw e : Dialogue A ε α).Denies S granted := trivial

theorem denies_ite {c : Prop} [Decidable c] (h : c → p.Denies S granted) (h' : ¬c → p'.Denies S granted) :
    (if c then p else p').Denies S granted := by
  split
  · exact h ‹_›
  · exact h' ‹_›

theorem denies_question_bind {q : Q} {f : A q → Dialogue A ε β} {granted : β → Prop} (hq : S q)
    (h : ∀ a, (f a).Denies S granted) : (question q >>= f : Dialogue A ε β).Denies S granted :=
  ⟨hq, h⟩

theorem Denies.mono (hS : ∀ q, S q → S' q) (hgranted : ∀ a, granted' a → granted a) (h : p.Denies S granted) :
    p.Denies S' granted' := by
  induction p with
  | ret r => cases r with
    | ok a => exact fun ha => h (hgranted a ha)
    | error e => trivial
  | ask q k ih => exact ⟨hS q h.1, fun a => ih a (h.2 a)⟩

/-- What is denied need not be looked at further. -/
theorem Denies.bind {f : α → Dialogue A ε β} {granted' : β → Prop} (h : p.Denies S granted)
    (hf : ∀ a, ¬granted a → (f a).Denies S granted') : (p >>= f).Denies S granted' := by
  induction p with
  | ret r => cases r with
    | ok a => exact hf a h
    | error e => trivial
  | ask q k ih => exact ⟨h.1, fun a => ih a (h.2 a)⟩

theorem Asks.denies_bind {f : α → Dialogue A ε β} {granted : β → Prop} (h : p.Asks S)
    (hf : ∀ a, (f a).Denies S granted) : (p >>= f).Denies S granted := by
  induction p with
  | ret r => cases r with
    | ok a => exact hf a
    | error e => trivial
  | ask q k ih => exact ⟨(asks_ask.mp h).1, fun a => ih a ((asks_ask.mp h).2 a)⟩

theorem Denies.tryCatch {f : ε → Dialogue A ε α} (h : p.Denies S granted) (hf : ∀ e, (f e).Denies S granted) :
    (tryCatch p f).Denies S granted := by
  induction p with
  | ret r => cases r with
    | ok a => exact h
    | error e => exact hf e
  | ask q k ih => exact ⟨h.1, fun a => ih a (h.2 a)⟩

theorem Denies.asks (h : p.Denies S granted) : p.Asks S := by
  induction p with
  | ret r => cases r with
    | ok a => exact asks_pure
    | error e => exact asks_throw
  | ask q k ih => exact asks_ask.mpr ⟨h.1, fun a => ih a (h.2 a)⟩

/-- A run that is recorded adds no other questions, and does not end with what is denied. -/
theorem Denies.wp_recorded {fair : (q : Q) → A q → Prop} {h : List (Event A)} (hp : p.Denies S granted) :
    p.wp (recorded fair) (fun r h' => (∀ a, r = .ok a → ¬granted a) ∧ ∀ e ∈ h', e ∈ h ∨ S e.1) h := by
  induction p generalizing h with
  | ret r => cases r with
    | ok a =>
      refine ⟨fun b hb => ?_, fun e he => .inl he⟩
      rw [← Except.ok.inj hb]
      exact hp
    | error e => exact ⟨nofun, fun e he => .inl he⟩
  | ask q k ih =>
    rintro a h' ⟨-, rfl⟩
    refine wp_mono (fun r h' => ?_) (ih a (hp.2 a))
    rintro ⟨hr, hkinds⟩
    refine ⟨hr, fun e he => ?_⟩
    rcases hkinds e he with hbefore | hkind
    · rcases List.mem_append.mp hbefore with hmem | hlast
      · exact .inl hmem
      · rw [List.mem_singleton.mp hlast]
        exact .inr hp.1
    · exact .inr hkind

end

attribute [irreducible] Denies

end Lumenia.Dialogue
