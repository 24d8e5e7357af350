import Lumenia.Theory.Parallel

/-!
# Excerpts of a record

The steps of one program inside another: what is kept of the record of the whole is a record of the part.
-/

namespace Lumenia.Dialogue

variable {Q Q' : Type} {A : Q → Type} {A' : Q' → Type} {ε α : Type}

/-- What is kept of one event. -/
abbrev Part (A' : Q' → Type) (A : Q → Type) : Type := Event A' → Option (Event A)

/-- Only the part is written down; `fair` tells which answers are considered. -/
def noted (fair : (q : Q') → A' q → Prop) (part : Part A' A) (h : List (Event A)) (q : Q') (a : A' q)
    (h' : List (Event A)) : Prop :=
  fair q a ∧ h' = h ++ (part ⟨q, a⟩).toList

section

variable {fair : (q : Q') → A' q → Prop} {part : Part A' A} {p : Dialogue A' ε α} {r : Except ε α}

theorem noted_filterMap {h h' : List (Event A')} (hrun : Runs (recorded fair) p h r h') :
    Runs (noted fair part) p (h.filterMap part) r (h'.filterMap part) := by
  refine hrun.simulate fun before q a after hstep => ⟨hstep.1, ?_⟩
  rw [hstep.2, List.filterMap_append]
  cases hpart : part ⟨q, a⟩ with
  | none => simp [hpart]
  | some e => simp [hpart]

theorem wp_noted_aside {q : Q'} {k : A' q → Dialogue A' ε α} {post : Except ε α → List (Event A) → Prop}
    {h : List (Event A)} (hq : ∀ a, part ⟨q, a⟩ = none)
    (hk : ∀ a, fair q a → (k a).wp (noted fair part) post h) :
    (Dialogue.ask q k).wp (noted fair part) post h := by
  intro a h' ⟨hfair, hnoted⟩
  rw [hq a, Option.toList_none, List.append_nil] at hnoted
  rw [hnoted]
  exact hk a hfair

/-- Steps of no part leave the excerpt as it is. -/
theorem Asks.wp_noted {h : List (Event A)} (hp : p.Asks fun q => ∀ a, part ⟨q, a⟩ = none) :
    p.wp (noted fair part) (fun _ h' => h' = h) h := by
  induction p with
  | ret r => exact rfl
  | ask q k ih => exact wp_noted_aside (asks_ask.mp hp).1 fun a _ => ih a ((asks_ask.mp hp).2 a)

/-- What a run adds at the end of the record is of that kind. -/
theorem Asks.wp_recorded_append {S : Q → Prop} {fair : (q : Q) → A q → Prop} {p : Dialogue A ε α}
    {h : List (Event A)} (hp : p.Asks S) :
    p.wp (recorded fair) (fun _ h' => ∃ es, h' = h ++ es ∧ ∀ e ∈ es, S e.1) h := by
  induction p generalizing h with
  | ret r => exact ⟨[], (List.append_nil h).symm, List.forall_mem_nil _⟩
  | ask q k ih =>
    rintro a _ ⟨-, rfl⟩
    refine wp_mono ?_ (ih a ((asks_ask.mp hp).2 a))
    rintro r _ ⟨es, rfl, hes⟩
    exact ⟨⟨q, a⟩ :: es, List.append_assoc _ _ _, List.forall_mem_cons.mpr ⟨(asks_ask.mp hp).1, hes⟩⟩

/-- The part of a part. -/
theorem wp_noted_relabel {Q'' : Type} {A'' : Q'' → Type} {fair'' : (q : Q'') → A'' q → Prop}
    {part'' : Part A'' A} {f : Q' → Q''} {g : ∀ q, A'' (f q) → A' q}
    {post : Except ε α → List (Event A) → Prop} {h : List (Event A)}
    (hfair : ∀ q a, fair'' (f q) a → fair q (g q a))
    (hpart : ∀ q a, part'' ⟨f q, a⟩ = part ⟨q, g q a⟩) (hp : p.wp (noted fair part) post h) :
    (p.relabel f g).wp (noted fair'' part'') post h := by
  induction p generalizing h with
  | ret r => exact hp
  | ask q k ih =>
    intro a h' ⟨ha, hnoted⟩
    refine ih (g q a) (hp (g q a) _ ⟨hfair q a ha, ?_⟩)
    rw [hnoted, hpart]

/-- The whole is noted as it is recorded. -/
theorem wp_noted_some {fair : (q : Q) → A q → Prop} {p : Dialogue A ε α}
    {post : Except ε α → List (Event A) → Prop} {h : List (Event A)} (hp : p.wp (recorded fair) post h) :
    p.wp (noted fair some) post h := by
  induction p generalizing h with
  | ret r => exact hp
  | ask q k ih =>
    intro a h' ⟨ha, hnoted⟩
    exact ih a (hp a h' ⟨ha, hnoted⟩)

end

end Lumenia.Dialogue
