import Lumenia.Theory.Dialogue
import Mathlib.Logic.Relation
import Mathlib.Logic.Function.Basic
import Mathlib.Order.RelClasses

/-!
# Programs side by side

Any number of dialogues that share their surroundings: at each moment one of them gets the answer to
the question it has asked, or the surroundings move by themselves. A program that is never answered
again has been cut off.

`Terms` are what the programs agree on, in the manner of rely and guarantee: an invariant of the
surroundings, and for every program a preorder that bounds what the others may do to them. A program
`keeps` the terms if each of its steps does, from whatever the others have left it; `Terms.sound` is
the one induction over runs.
-/

namespace Lumenia.Dialogue

variable {ι Q : Type} {A : Q → Type} {ε ε' α β W : Type}

/-- The surroundings, and what is left of each program. -/
structure Crowd (ι : Type) {Q : Type} (A : Q → Type) (ε α W : Type) where
  world : W
  prog : ι → Dialogue A ε α

section

variable [DecidableEq ι] (step : ι → W → (q : Q) → A q → W → Prop) (stir : W → W → Prop)

inductive Moves : Crowd ι A ε α W → Crowd ι A ε α W → Prop
  | answer {i : ι} {q : Q} {k : A q → Dialogue A ε α} {a : A q} {w w' : W}
    {prog : ι → Dialogue A ε α} (hask : prog i = .ask q k) (h : step i w q a w') :
    Moves ⟨w, prog⟩ ⟨w', Function.update prog i (k a)⟩
  | stir {w w' : W} {prog : ι → Dialogue A ε α} (h : stir w w') : Moves ⟨w, prog⟩ ⟨w', prog⟩

/-- Any run of the programs. -/
abbrev Leads : Crowd ι A ε α W → Crowd ι A ε α W → Prop := Relation.ReflTransGen (Moves step stir)

end

/-! ## Terms -/

structure Terms (ι W : Type) where
  inv : W → Prop
  /-- What the others may do to the surroundings of a program. -/
  rely : ι → W → W → Prop
  refl : ∀ i w, rely i w w
  trans : ∀ i {w₁ w₂ w₃}, rely i w₁ w₂ → rely i w₂ w₃ → rely i w₁ w₃

namespace Terms

variable (T : Terms ι W) (step : ι → W → (q : Q) → A q → W → Prop) (i : ι)

/-- Every step of the program `i` keeps the invariant and what the others rely on, and it ends with
`post`, also after the others have gone on. -/
def keeps (post : Except ε α → W → Prop) : Dialogue A ε α → W → Prop
  | .ret r, w => ∀ w', T.rely i w w' → T.inv w' → post r w'
  | .ask q k, w => ∀ w₁, T.rely i w w₁ → T.inv w₁ → ∀ a w₂, step i w₁ q a w₂ →
    T.inv w₂ ∧ (∀ j, j ≠ i → T.rely j w₁ w₂) ∧ keeps post (k a) w₂

variable {T step i} {post post' : Except ε α → W → Prop} {p : Dialogue A ε α} {w w' : W}

theorem keeps.stable (h : T.keeps step i post p w) (hw : T.rely i w w') :
    T.keeps step i post p w' := by
  cases p with
  | ret r => exact fun w'' hw' => h w'' (T.trans i hw hw')
  | ask q k => exact fun w'' hw' => h w'' (T.trans i hw hw')

theorem keeps_mono (hpost : ∀ r w, T.inv w → post r w → post' r w) (h : T.keeps step i post p w) :
    T.keeps step i post' p w := by
  induction p generalizing w with
  | ret r => exact fun w' hw hinv => hpost r w' hinv (h w' hw hinv)
  | ask q k ih =>
    intro w₁ hw hinv a w₂ hstep
    obtain ⟨hinv', hrely, hrest⟩ := h w₁ hw hinv a w₂ hstep
    exact ⟨hinv', hrely, ih a hrest⟩

/-- Sequencing: what the first part ends with is what the second may start from. -/
theorem keeps_andThen {f : Except ε α → Dialogue A ε' β} {post : Except ε' β → W → Prop}
    (h : T.keeps step i (fun r w => T.keeps step i post (f r) w) p w) (hinv : T.inv w) :
    T.keeps step i post (p.andThen f) w := by
  induction p generalizing w with
  | ret r => exact h w (T.refl i w) hinv
  | ask q k ih =>
    intro w₁ hw hinv₁ a w₂ hstep
    obtain ⟨hinv₂, hrely, hrest⟩ := h w₁ hw hinv₁ a w₂ hstep
    exact ⟨hinv₂, hrely, ih a hrest hinv₂⟩

theorem keeps_bind {f : α → Dialogue A ε β} {post : Except ε β → W → Prop}
    (h : T.keeps step i (fun r w => T.keeps step i post (onValue f r) w) p w) (hinv : T.inv w) :
    T.keeps step i post (p >>= f) w :=
  keeps_andThen h hinv

/-! ### Triples -/

/-- What the others leave true. -/
def Stable (T : Terms ι W) (i : ι) (P : W → Prop) : Prop :=
  ∀ w w', T.rely i w w' → T.inv w' → P w → P w'

/-- From every state with `P` the program keeps the terms and ends with `post`. -/
def Triple (T : Terms ι W) (step : ι → W → (q : Q) → A q → W → Prop) (i : ι) (P : W → Prop)
    (p : Dialogue A ε α) (post : Except ε α → W → Prop) : Prop :=
  ∀ w, T.inv w → P w → T.keeps step i post p w

section

theorem Triple.keeps {P : W → Prop} (h : T.Triple step i P p post) (hinv : T.inv w) (hw : P w) :
    T.keeps step i post p w :=
  h w hinv hw

variable {P P' : W → Prop} {f : Except ε α → Dialogue A ε' β} {R : Except ε' β → W → Prop}

theorem Stable.and (hP : T.Stable i P) (hP' : T.Stable i P') : T.Stable i fun w => P w ∧ P' w :=
  fun w w' hrely hinv h => ⟨hP w w' hrely hinv h.1, hP' w w' hrely hinv h.2⟩

theorem Triple.weaken (h : T.Triple step i P p post) (hP : ∀ w, T.inv w → P' w → P w) :
    T.Triple step i P' p post :=
  fun w hinv hw => h w hinv (hP w hinv hw)

theorem Triple.mono (h : T.Triple step i P p post)
    (hpost : ∀ r w, T.inv w → post r w → post' r w) : T.Triple step i P p post' :=
  fun w hinv hw => keeps_mono hpost (h w hinv hw)

theorem Triple.ret {r : Except ε α} (hP : T.Stable i P) (hpost : ∀ w, T.inv w → P w → post r w) :
    T.Triple step i P (.ret r) post :=
  fun w _ hw w' hrely hinv => hpost w' hinv (hP w w' hrely hinv hw)

theorem Triple.ask {q : Q} {k : A q → Dialogue A ε α} {N : A q → W → Prop} (hP : T.Stable i P)
    (hstep : ∀ w a w', T.inv w → P w → step i w q a w' →
      T.inv w' ∧ (∀ j, j ≠ i → T.rely j w w') ∧ N a w')
    (hrest : ∀ a, T.Triple step i (N a) (k a) post) : T.Triple step i P (.ask q k) post := by
  intro w _ hw w₁ hrely hinv a w₂ ha
  obtain ⟨hinv', hguarantee, hnext⟩ := hstep w₁ a w₂ hinv (hP w w₁ hrely hinv hw) ha
  exact ⟨hinv', hguarantee, hrest a w₂ hinv' hnext⟩

theorem Triple.ite {c : Prop} [Decidable c] {p' : Dialogue A ε α}
    (h : c → T.Triple step i P p post) (h' : ¬c → T.Triple step i P p' post) :
    T.Triple step i P (if c then p else p') post := by
  split
  · next hc => exact h hc
  · next hc => exact h' hc

theorem Triple.andThen (h : T.Triple step i P p post)
    (hf : ∀ r, T.Triple step i (post r) (f r) R) : T.Triple step i P (p.andThen f) R :=
  fun w hinv hw => keeps_andThen (keeps_mono (fun r w' => hf r w') (h w hinv hw)) hinv

theorem Triple.bind {f : α → Dialogue A ε β} {R : Except ε β → W → Prop}
    (h : T.Triple step i P p post) (hf : ∀ a, T.Triple step i (post (.ok a)) (f a) R)
    (hstable : ∀ e, T.Stable i (post (.error e)))
    (herror : ∀ e w, T.inv w → post (.error e) w → R (.error e) w) :
    T.Triple step i P (p >>= f) R := by
  refine h.andThen fun r => ?_
  cases r with
  | ok a => exact hf a
  | error e => exact .ret (hstable e) (herror e)

theorem Triple.outcome {R : Except ε' (Except ε α) → W → Prop} (h : T.Triple step i P p post)
    (hstable : ∀ r, T.Stable i (post r)) (hpost : ∀ r w, T.inv w → post r w → R (.ok r) w) :
    T.Triple step i P p.outcome R :=
  h.andThen fun r => .ret (hstable r) (hpost r)

/-- Go on with what a part has come to, whether it is a value or was thrown. -/
theorem Triple.attempt {f : Except ε α → Dialogue A ε' β} (h : T.Triple step i P p post)
    (hstable : ∀ r, T.Stable i (post r)) (hf : ∀ r, T.Triple step i (post r) (f r) R) :
    T.Triple step i P (p.outcome >>= f) R := by
  refine (h.outcome (R := fun r w => ∃ r', r = .ok r' ∧ post r' w) hstable
    fun r w _ hw => ⟨r, rfl, hw⟩).bind (fun r => (hf r).weaken ?_) (fun e => ?_) fun e w _ hw => ?_
  · rintro w - ⟨r', heq, hw⟩
    obtain rfl := Except.ok.inj heq
    exact hw
  · rintro w w' - - ⟨r', heq, -⟩
    cases heq
  · obtain ⟨r', heq, -⟩ := hw
    cases heq

attribute [irreducible] Triple

end

variable {stir : W → W → Prop} {post : ι → Except ε α → W → Prop} {x y : Crowd ι A ε α W}

/-- The terms hold, and every program keeps them from here on. -/
structure Kept (T : Terms ι W) (step : ι → W → (q : Q) → A q → W → Prop)
    (post : ι → Except ε α → W → Prop) (x : Crowd ι A ε α W) : Prop where
  inv : T.inv x.world
  each : ∀ i, T.keeps step i (post i) (x.prog i) x.world

/-- A program that has ended has ended well. -/
theorem Kept.ended (h : T.Kept step post x) {i : ι} {r : Except ε α} (hret : x.prog i = .ret r) :
    post i r x.world := by
  have hi := h.each i
  rw [hret] at hi
  exact hi x.world (T.refl i _) h.inv

variable [DecidableEq ι]

theorem Kept.moves (hstir : ∀ w w', T.inv w → stir w w' → T.inv w' ∧ ∀ i, T.rely i w w')
    (h : T.Kept step post x) (hxy : Moves step stir x y) : T.Kept step post y := by
  cases hxy with
  | @answer i q k a w w' prog hask hstep =>
    have hi := h.each i
    simp only [hask] at hi
    obtain ⟨hinv, hrely, hrest⟩ := hi w (T.refl i w) h.inv a w' hstep
    refine ⟨hinv, fun j => ?_⟩
    by_cases hj : j = i
    · subst hj
      simpa using hrest
    · simpa [Function.update_of_ne hj] using (h.each j).stable (hrely j hj)
  | stir hw =>
    obtain ⟨hinv, hrely⟩ := hstir _ _ h.inv hw
    exact ⟨hinv, fun i => (h.each i).stable (hrely i)⟩

/-- **Soundness.** The terms that hold at first, and that every program keeps, hold throughout. -/
theorem sound (hstir : ∀ w w', T.inv w → stir w w' → T.inv w' ∧ ∀ i, T.rely i w w')
    (h : T.Kept step post x) (hxy : Leads step stir x y) : T.Kept step post y := by
  induction hxy with
  | refl => exact h
  | tail _ hmove ih => exact ih.moves hstir hmove

end Terms

/-! ## Programs that wait -/

/-- What is left of a program after one answer. -/
inductive Goes : Dialogue A ε α → Dialogue A ε α → Prop
  | answer {q : Q} {k : A q → Dialogue A ε α} {a : A q} : Goes (.ask q k) (k a)

theorem wellFounded_goes : WellFounded (flip (Goes (A := A) (ε := ε) (α := α))) := by
  refine ⟨fun p => ?_⟩
  induction p with
  | ret r => exact ⟨_, nofun⟩
  | ask q k ih =>
    refine ⟨_, fun p' hp' => ?_⟩
    cases hp'
    exact ih _

/-- A program that has been answered is never the same again. -/
theorem not_goes_self {p : Dialogue A ε α} : ¬Relation.TransGen Goes p p := by
  intro h
  have hflip : Relation.TransGen (flip (Goes (A := A) (ε := ε) (α := α))) p p :=
    Relation.transGen_swap.mp h
  exact wellFounded_goes.transGen.asymmetric p p hflip hflip

namespace Terms

variable {T : Terms ι W} {step : ι → W → (q : Q) → A q → W → Prop} {stir : W → W → Prop}
  {post : ι → Except ε α → W → Prop} {x y : Crowd ι A ε α W} [DecidableEq ι]

/-- To a program that has not been answered, a run is what the others have done. -/
theorem Kept.still (hstir : ∀ w w', T.inv w → stir w w' → T.inv w' ∧ ∀ i, T.rely i w w')
    (h : T.Kept step post x) (hxy : Leads step stir x y) {i : ι} (hi : y.prog i = x.prog i) :
    T.rely i x.world y.world := by
  have hgoes : (y.prog i = x.prog i ∧ T.rely i x.world y.world) ∨
      Relation.TransGen Goes (x.prog i) (y.prog i) := by
    clear hi
    induction hxy with
    | refl => exact .inl ⟨rfl, T.refl i _⟩
    | @tail y z hxy hmove ih =>
      have hkept := T.sound hstir h hxy
      cases hmove with
      | @answer j q k a w w' prog hask hstep =>
        by_cases hj : i = j
        · subst hj
          have hnext : Goes (prog i) (Function.update prog i (k a) i) := by
            rw [hask, Function.update_self]
            exact .answer
          rcases ih with ⟨hsame, -⟩ | hlater
          · exact .inr (.single (hsame ▸ hnext))
          · exact .inr (hlater.tail hnext)
        · have hother : Function.update prog j (k a) i = prog i := Function.update_of_ne hj ..
          have hj' := hkept.each j
          simp only [hask] at hj'
          obtain ⟨-, hrely, -⟩ := hj' w (T.refl j w) hkept.inv a w' hstep
          rcases ih with ⟨hsame, hrely'⟩ | hlater
          · exact .inl ⟨hother.trans hsame, T.trans i hrely' (hrely i hj)⟩
          · refine .inr ?_
            change Relation.TransGen Goes _ (Function.update prog j (k a) i)
            rwa [hother]
      | stir hw =>
        rcases ih with ⟨hsame, hrely⟩ | hlater
        · exact .inl ⟨hsame, T.trans i hrely ((hstir _ _ hkept.inv hw).2 i)⟩
        · exact .inr hlater
  rcases hgoes with ⟨-, hrely⟩ | hlater
  · exact hrely
  · exact absurd (hi ▸ hlater) not_goes_self

end Terms

/-! ## Questions -/

/-- Every question the program can come to ask is of the kind `S`. -/
def Asks (S : Q → Prop) : Dialogue A ε α → Prop
  | .ret _ => True
  | .ask q k => S q ∧ ∀ a, (k a).Asks S

section

variable {S S' : Q → Prop} {p : Dialogue A ε α}

theorem Asks.mono (hS : ∀ q, S q → S' q) (h : p.Asks S) : p.Asks S' := by
  induction p with
  | ret r => trivial
  | ask q k ih => exact ⟨hS q h.1, fun a => ih a (h.2 a)⟩

theorem Asks.andThen {f : Except ε α → Dialogue A ε' β} (h : p.Asks S) (hf : ∀ r, (f r).Asks S) :
    (p.andThen f).Asks S := by
  induction p with
  | ret r => exact hf r
  | ask q k ih => exact ⟨h.1, fun a => ih a (h.2 a)⟩

theorem Asks.bind {f : α → Dialogue A ε β} (h : p.Asks S) (hf : ∀ a, (f a).Asks S) :
    (p >>= f).Asks S := by
  refine h.andThen fun r => ?_
  cases r with
  | ok a => exact hf a
  | error e => trivial

theorem Asks.tryCatch {f : ε → Dialogue A ε α} (h : p.Asks S) (hf : ∀ e, (f e).Asks S) :
    (tryCatch p f).Asks S := by
  refine h.andThen fun r => ?_
  cases r with
  | ok a => trivial
  | error e => exact hf e

theorem Asks.outcome (h : p.Asks S) : (p.outcome : Dialogue A ε' (Except ε α)).Asks S :=
  h.andThen fun _ => trivial

theorem asks_question {q : Q} (hq : S q) : (question q : Dialogue A ε (A q)).Asks S :=
  ⟨hq, fun _ => trivial⟩

theorem asks_ask {q : Q} {k : A q → Dialogue A ε α} :
    (Dialogue.ask q k).Asks S ↔ S q ∧ ∀ a, (k a).Asks S := Iff.rfl

theorem asks_ite {c : Prop} [Decidable c] {p' : Dialogue A ε α} (h : p.Asks S) (h' : p'.Asks S) :
    (if c then p else p').Asks S := by
  split
  · exact h
  · exact h'

theorem asks_pure {a : α} : (pure a : Dialogue A ε α).Asks S := trivial

theorem asks_throw {e : ε} : (throw e : Dialogue A ε α).Asks S := trivial

/-- What a run adds to the record is of that kind. -/
theorem Asks.wp_recorded {fair : (q : Q) → A q → Prop} {h : List (Event A)} (hp : p.Asks S) :
    p.wp (recorded fair) (fun _ h' => h ⊆ h' ∧ ∀ e ∈ h', e ∈ h ∨ S e.1) h := by
  induction p generalizing h with
  | ret r => exact ⟨List.Subset.refl h, fun e he => .inl he⟩
  | ask q k ih =>
    rintro a h' ⟨-, rfl⟩
    refine wp_mono (fun r h' => ?_) (ih a (hp.2 a))
    rintro ⟨hsub, hkinds⟩
    refine ⟨List.Subset.trans (List.subset_append_left h _) hsub, fun e he => ?_⟩
    rcases hkinds e he with hbefore | hkind
    · rcases List.mem_append.mp hbefore with hmem | hlast
      · exact .inl hmem
      · rw [List.mem_singleton.mp hlast]
        exact .inr hp.1
    · exact .inr hkind

/-- What is left of a program asks no more than it did. -/
theorem asks_leads [DecidableEq ι] {step : ι → W → (q : Q) → A q → W → Prop} {stir : W → W → Prop}
    {x y : Crowd ι A ε α W} {i : ι} (hx : (x.prog i).Asks S) (hxy : Leads step stir x y) :
    (y.prog i).Asks S := by
  induction hxy with
  | refl => exact hx
  | tail _ hmove ih =>
    cases hmove with
    | @answer j q k a w w' prog hask hstep =>
      rcases eq_or_ne i j with rfl | hne
      · simp only [hask] at ih
        simpa using ih.2 a
      · simpa [Function.update_of_ne hne] using ih
    | stir hw => exact ih

attribute [irreducible] Asks

end

/-! ## Playing a run -/

/-- What the program has ended with. -/
def result : Dialogue A ε α → Option (Except ε α)
  | .ret r => some r
  | .ask .. => none

theorem eq_ret_of_result {p : Dialogue A ε α} {r : Except ε α} (h : p.result = some r) : p = .ret r := by
  cases p with
  | ret r' =>
    cases h
    rfl
  | ask q k => cases h

section

variable [DecidableEq ι] {step : ι → W → (q : Q) → A q → W → Prop} {stir : W → W → Prop}

/-- The program `i` gets the answer that `react` gives. -/
def Crowd.answered (x : Crowd ι A ε α W) (i : ι) (react : (q : Q) → A q × W) : Crowd ι A ε α W :=
  match x.prog i with
  | .ret _ => x
  | .ask q k => ⟨(react q).2, Function.update x.prog i (k (react q).1)⟩

theorem leads_answered {x : Crowd ι A ε α W} {i : ι} {react : (q : Q) → A q × W}
    (h : ∀ q k, x.prog i = .ask q k → step i x.world q (react q).1 (react q).2) :
    Leads step stir x (x.answered i react) := by
  match hp : x.prog i with
  | .ret r =>
    have hsame : x.answered i react = x := by rw [Crowd.answered, hp]
    rw [hsame]
  | .ask q k =>
    have hnext : x.answered i react =
        ⟨(react q).2, Function.update x.prog i (k (react q).1)⟩ := by rw [Crowd.answered, hp]
    rw [hnext]
    exact .single (.answer hp (h q k hp))

variable {D : Type}

/-- The answers of `react`, chosen by `D`, in the given order. -/
def Crowd.play (react : ι → D → W → (q : Q) → A q × W) (x : Crowd ι A ε α W) :
    List (ι × D) → Crowd ι A ε α W
  | [] => x
  | (i, d) :: rest => (x.answered i (react i d x.world)).play react rest

/-- Every choice is `fair` to the question it answers. -/
def Crowd.fairly (react : ι → D → W → (q : Q) → A q × W) (fair : ι → D → W → Q → Bool)
    (x : Crowd ι A ε α W) : List (ι × D) → Bool
  | [] => true
  | (i, d) :: rest =>
    (match x.prog i with
    | .ret _ => true
    | .ask q _ => fair i d x.world q) &&
    (x.answered i (react i d x.world)).fairly react fair rest

theorem leads_play {react : ι → D → W → (q : Q) → A q × W} {fair : ι → D → W → Q → Bool}
    (hstep : ∀ i d w q, fair i d w q = true → step i w q (react i d w q).1 (react i d w q).2)
    {x : Crowd ι A ε α W} {ds : List (ι × D)} (h : x.fairly react fair ds = true) :
    Leads step stir x (x.play react ds) := by
  induction ds generalizing x with
  | nil => exact .refl
  | cons e rest ih =>
    obtain ⟨i, d⟩ := e
    rw [Crowd.fairly, Bool.and_eq_true] at h
    refine (leads_answered fun q k hask => hstep i d x.world q ?_).trans (ih h.2)
    simpa only [hask] using h.1

end

end Lumenia.Dialogue
