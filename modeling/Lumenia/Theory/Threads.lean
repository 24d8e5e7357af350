import Lumenia.Theory.Machine
import Mathlib.Logic.Function.Basic

/-!
# Programs that share a store

A `Prog` is a request handler: it sends batches of commands to a store it shares with other
handlers, reads and writes the memory of the process it runs in, and at some points shows a label to
the outside and rests until it is resumed. A batch is not atomic: its commands are executed one by
one, in order, and those of other programs may come in between; the replies come back together, or
are damaged on the way (`Backend.deliver`).

`Outline.wp` is a logic for such programs in the manner of Owicki and Gries. Every program owns a
ghost value; `inv` relates the store to all ghosts; and what a program relies on between its steps
may speak of its own ghost only, so that it is stable under the steps of others. `Outline.sound` is
the one induction over runs.
-/

namespace Lumenia

/-- `pipe todo got k`: a batch under way, with the commands still to be executed and the replies so
far; `k` gets the replies, or the text of the failure. -/
inductive Prog (C R M ε α : Type)
  | ret (a : α)
  | pipe (todo : List C) (got : List R) (k : Except String (List R) → Prog C R M ε α)
  | mem (f : M → M) (k : M → Prog C R M ε α)
  | hold (e : ε) (k : Prog C R M ε α)

namespace Prog

variable {C R M ε α β : Type}

def bind : Prog C R M ε α → (α → Prog C R M ε β) → Prog C R M ε β
  | .ret a, f => f a
  | .pipe todo got k, f => .pipe todo got fun r => (k r).bind f
  | .mem g k, f => .mem g fun m => (k m).bind f
  | .hold e k, f => .hold e (k.bind f)

instance : Monad (Prog C R M ε) where
  pure := .ret
  bind := .bind

variable {f : α → Prog C R M ε β}

@[simp] theorem pure_eq {a : α} : (pure a : Prog C R M ε α) = .ret a := rfl

@[simp] theorem ret_bind {a : α} : (.ret a : Prog C R M ε α) >>= f = f a := rfl

@[simp] theorem pipe_bind {todo : List C} {got : List R}
    {k : Except String (List R) → Prog C R M ε α} :
    .pipe todo got k >>= f = .pipe todo got fun r => k r >>= f := rfl

@[simp] theorem mem_bind {g : M → M} {k : M → Prog C R M ε α} :
    .mem g k >>= f = .mem g fun m => k m >>= f := rfl

@[simp] theorem hold_bind {e : ε} {k : Prog C R M ε α} : .hold e k >>= f = .hold e (k >>= f) := rfl

/-- The program with its memory inside a larger one, and its labels among others. -/
def within {N ε' : Type} (get : N → M) (set : M → N → N) (lab : ε → ε') :
    Prog C R M ε α → Prog C R N ε' α
  | .ret a => .ret a
  | .pipe todo got k => .pipe todo got fun r => (k r).within get set lab
  | .mem g k => .mem (fun n => set (g (get n)) n) fun n => (k (get n)).within get set lab
  | .hold e k => .hold (lab e) (k.within get set lab)

theorem within_bind {N ε' : Type} {get : N → M} {set : M → N → N} {lab : ε → ε'}
    {p : Prog C R M ε α} :
    (p >>= f).within get set lab = p.within get set lab >>= fun a => (f a).within get set lab := by
  induction p with
  | ret a => rfl
  | pipe todo got k ih => exact congrArg (Prog.pipe todo got) (funext ih)
  | mem g k ih => exact congrArg (Prog.mem _) (funext fun n => ih (get n))
  | hold e k ih => exact congrArg (Prog.hold (lab e)) ih

/-- The steps of memory the program takes are in `S`, the labels it holds in `L`, and it ends in `A`,
whatever the store answers. -/
def Does (S : M → M → Prop) (L : ε → Prop) (A : α → Prop) : Prog C R M ε α → Prop
  | .ret a => A a
  | .pipe _ _ k => ∀ r, (k r).Does S L A
  | .mem g k => ∀ m, S m (g m) ∧ (k m).Does S L A
  | .hold e k => L e ∧ k.Does S L A

section

variable {S : M → M → Prop} {L : ε → Prop} {A : α → Prop} {B : β → Prop} {p : Prog C R M ε α}

theorem Does.bind (h : p.Does S L A) (hf : ∀ a, A a → (f a).Does S L B) : (p >>= f).Does S L B := by
  induction p with
  | ret a => exact hf a h
  | pipe todo got k ih => exact fun r => ih r (h r)
  | mem g k ih => exact fun m => ⟨(h m).1, ih m (h m).2⟩
  | hold e k ih => exact ⟨h.1, ih h.2⟩

theorem Does.mono {S' : M → M → Prop} (h : p.Does S L A) (hS : ∀ m m', S m m' → S' m m') :
    p.Does S' L A := by
  induction p with
  | ret a => exact h
  | pipe todo got k ih => exact fun r => ih r (h r)
  | mem g k ih => exact fun m => ⟨hS _ _ (h m).1, ih m (h m).2⟩
  | hold e k ih => exact ⟨h.1, ih h.2⟩

theorem Does.anything : p.Does (fun _ _ => True) (fun _ => True) fun _ => True := by
  induction p with
  | ret a => trivial
  | pipe todo got k ih => exact ih
  | mem g k ih => exact fun m => ⟨trivial, ih m⟩
  | hold e k ih => exact ⟨trivial, ih⟩

end

/-- What a resting program shows: the label it holds, or the result it ended with. -/
def shows : Prog C R M ε ε → Option ε
  | .ret e | .hold e _ => some e
  | .pipe .. | .mem .. => none

end Prog

/-- The store: how it executes a command of one of its clients, and what can become of the replies to
a batch on their way back. -/
structure Backend (ι C R σ Δ : Type) where
  exec : ι → C → σ → σ × R
  deliver : Δ → List R → Except String (List R)

/-- All programs, the memories of the processes they run in, and the store. -/
structure Sys (ι ν C R M ε α σ : Type) where
  store : σ
  mem : ν → M
  prog : ι → Prog C R M ε α

section

variable {ι ν C R M ε α β σ Δ : Type} (B : Backend ι C R σ Δ)

/-- The next step of a program; `d` decides the fate of a batch that is due for its replies. -/
def Prog.advance (i : ι) (d : Δ) : Prog C R M ε α → σ → M → Prog C R M ε α × σ × M
  | .ret a, s, m => (.ret a, s, m)
  | .pipe (c :: cs) got k, s, m =>
    (.pipe cs (got ++ [(B.exec i c s).2]) k, (B.exec i c s).1, m)
  | .pipe [] got k, s, m => (k (B.deliver d got), s, m)
  | .mem f k, s, m => (k m, s, f m)
  | .hold _ k, s, m => (k, s, m)

variable [DecidableEq ι] [DecidableEq ν] (home : ι → ν)

/-- One step of the program `i`, which runs in the process `home i`. -/
def Sys.step (x : Sys ι ν C R M ε α σ) (i : ι) (d : Δ) : Sys ι ν C R M ε α σ :=
  let next := (x.prog i).advance B i d x.store (x.mem (home i))
  ⟨next.2.1, Function.update x.mem (home i) next.2.2, Function.update x.prog i next.1⟩

/-- Any interleaving of the programs, with any fates of the replies. -/
def system (opening : Sys ι ν C R M ε α σ) : Machine (Sys ι ν C R M ε α σ) (ι × Δ) Unit :=
  ⟨opening, fun x e => (x.step B home e.1 e.2, ())⟩

end

/-! ## The logic -/

/-- The invariant of store and ghosts, the fates of replies that are considered, and what a label
says about the ghost of the program that shows it. -/
structure Outline (ι σ Γ Δ ε : Type) where
  inv : σ → (ι → Γ) → Prop
  allowed : Δ → Prop
  shown : ι → ε → Γ → Prop

namespace Outline

variable {ι ν C R M ε α β σ Δ Γ : Type} [DecidableEq ι] (O : Outline ι σ Γ Δ ε)
  (B : Backend ι C R σ Δ) (i : ι)

/-- The ghost may change from `γ` to `γ'` at any moment. -/
def Turns (γ γ' : Γ) : Prop :=
  ∀ s g, O.inv s g → g i = γ → O.inv s (Function.update g i γ')

/-- One command, executed at any store, keeps the invariant with some new ghost. -/
def wpCmds : List C → List R → (List R → Γ → Prop) → Γ → Prop
  | [], got, K, γ => K got γ
  | c :: cs, got, K, γ => ∀ s g, O.inv s g → g i = γ →
    ∃ γ', O.inv (B.exec i c s).1 (Function.update g i γ') ∧
      wpCmds cs (got ++ [(B.exec i c s).2]) K γ'

/-- From the ghost `γ` on, every step of the program keeps the invariant, every label it shows holds
of its ghost, and it ends with `Q`. -/
def wp : Prog C R M ε α → (α → Γ → Prop) → Γ → Prop
  | .ret a, Q, γ => Q a γ
  | .pipe todo got k, Q, γ => O.wpCmds B i todo got
    (fun got γ => ∀ d, O.allowed d → ∃ γ', O.Turns i γ γ' ∧ wp (k (B.deliver d got)) Q γ') γ
  | .mem _ k, Q, γ => ∀ m, wp (k m) Q γ
  | .hold e k, Q, γ => O.shown i e γ ∧ ∃ γ', O.Turns i γ γ' ∧ wp k Q γ'

variable {O B i} {Q : α → Γ → Prop} {γ : Γ}

theorem wp_pure {a : α} : O.wp B i (pure a : Prog C R M ε α) Q γ ↔ Q a γ := Iff.rfl

theorem Turns.refl : O.Turns i γ γ := by
  rintro s g hinv rfl
  rwa [Function.update_eq_self]

theorem wpCmds_mono {K K' : List R → Γ → Prop} (hK : ∀ got γ, K got γ → K' got γ) {todo : List C}
    {got : List R} (h : O.wpCmds B i todo got K γ) : O.wpCmds B i todo got K' γ := by
  induction todo generalizing got γ with
  | nil => exact hK got γ h
  | cons c cs ih =>
    intro s g hinv hg
    obtain ⟨γ', hinv', h'⟩ := h s g hinv hg
    exact ⟨γ', hinv', ih h'⟩

theorem wp_mono {p : Prog C R M ε α} {Q' : α → Γ → Prop} (hQ : ∀ a γ, Q a γ → Q' a γ)
    (h : O.wp B i p Q γ) : O.wp B i p Q' γ := by
  induction p generalizing γ with
  | ret a => exact hQ a γ h
  | pipe todo got k ih =>
    refine wpCmds_mono (fun got γ h d hd => ?_) h
    obtain ⟨γ', hturn, h'⟩ := h d hd
    exact ⟨γ', hturn, ih _ h'⟩
  | mem f k ih => exact fun m => ih m (h m)
  | hold e k ih =>
    obtain ⟨hshown, γ', hturn, h'⟩ := h
    exact ⟨hshown, γ', hturn, ih h'⟩

/-- Sequencing: specifications of functions compose. -/
theorem wp_bind {p : Prog C R M ε α} {f : α → Prog C R M ε β} {Q : β → Γ → Prop} :
    O.wp B i (p >>= f) Q γ ↔ O.wp B i p (fun a γ => O.wp B i (f a) Q γ) γ := by
  induction p generalizing γ with
  | ret a => rfl
  | pipe todo got k ih =>
    constructor <;> refine wpCmds_mono fun got γ h d hd => ?_
    · obtain ⟨γ', hturn, h'⟩ := h d hd
      exact ⟨γ', hturn, (ih _).mp h'⟩
    · obtain ⟨γ', hturn, h'⟩ := h d hd
      exact ⟨γ', hturn, (ih _).mpr h'⟩
  | mem f k ih => exact forall_congr' fun m => ih m
  | hold e k ih =>
    exact and_congr_right fun _ => exists_congr fun γ' => and_congr_right fun _ => ih

variable (O B i) in
/-- A program that only reads and writes memory. -/
def Quiet (p : Prog C R M ε α) : Prop := ∀ {Q : α → Γ → Prop} {γ}, (∀ a, Q a γ) → O.wp B i p Q γ

/-- What a program that satisfies the logic shows, holds. -/
theorem shown_of_wp {p : Prog C R M ε ε} (h : O.wp B i p (O.shown i) γ) {e : ε}
    (he : p.shows = some e) : O.shown i e γ := by
  match p with
  | .ret e' =>
    cases he
    exact h
  | .hold e' k =>
    cases he
    exact h.1

/-- One step of a program keeps the invariant, and leaves a program that satisfies the logic. -/
theorem wp_advance {p : Prog C R M ε α} (h : O.wp B i p Q γ) {s : σ} {g : ι → Γ} {m : M} {d : Δ}
    (hinv : O.inv s g) (hg : g i = γ) (hd : O.allowed d) :
    ∃ γ', O.inv (p.advance B i d s m).2.1 (Function.update g i γ') ∧
      O.wp B i (p.advance B i d s m).1 Q γ' := by
  match p with
  | .ret a => exact ⟨γ, Turns.refl s g hinv hg, h⟩
  | .pipe (c :: cs) got k => exact h s g hinv hg
  | .pipe [] got k =>
    obtain ⟨γ', hturn, h'⟩ := h d hd
    exact ⟨γ', hturn s g hinv hg, h'⟩
  | .mem f k => exact ⟨γ, Turns.refl s g hinv hg, h m⟩
  | .hold e k =>
    obtain ⟨-, γ', hturn, h'⟩ := h
    exact ⟨γ', hturn s g hinv hg, h'⟩

variable [DecidableEq ν] {Q : ι → α → Γ → Prop}

/-- **Soundness.** Programs that satisfy the logic keep the invariant, for some ghosts, over every
interleaving. -/
theorem sound (home : ι → ν) (opening : Sys ι ν C R M ε α σ) {g₀ : ι → Γ} (hinv : O.inv opening.store g₀)
    (hprog : ∀ i, O.wp B i (opening.prog i) (Q i) (g₀ i)) {es : List (ι × Δ)}
    (hes : ∀ e ∈ es, O.allowed e.2) :
    ∃ g, O.inv ((system B home opening).final es).store g ∧
      ∀ i, O.wp B i (((system B home opening).final es).prog i) (Q i) (g i) := by
  refine Machine.invariant_of (m := system B home opening) (C := fun e => O.allowed e.2)
    (P := fun _ x => ∃ g, O.inv x.store g ∧ ∀ i, O.wp B i (x.prog i) (Q i) (g i))
    ⟨g₀, hinv, hprog⟩ ?_ hes
  rintro - x ⟨i, d⟩ hd ⟨g, hinv, hprog⟩
  obtain ⟨γ', hinv', h'⟩ := wp_advance (hprog i) (m := x.mem (home i)) hinv rfl hd
  refine ⟨Function.update g i γ', hinv', fun j => ?_⟩
  change O.wp B j (Function.update x.prog i _ j) (Q j) _
  by_cases hj : j = i
  · subst hj
    simpa using h'
  · simpa [Function.update_of_ne hj] using hprog j

end Outline

end Lumenia
