import Lumenia.Theory.Threads

/-!
# Programs that share a store and their memories

The logic of `Theory.Threads` for invariants that speak of the memories as well: every access to the
memory of a process is a step that keeps the invariant. Each step also meets a guarantee, a relation
between the world before it and the world after it; so what a run may change can be stated of any
two of its states (`Pact.later`). And some things hold of a ghost whenever its program is not half
way through a batch (`Pact.rest_of_wp`).
-/

namespace Lumenia

/-- Some, but not all, of the commands of a batch have been executed. -/
def Prog.midway {C R M ε α : Type} : Prog C R M ε α → Bool
  | .pipe (_ :: _) (_ :: _) _ => true
  | _ => false

/-- An invariant of store, memories and ghosts; what a step guarantees; what holds of a ghost unless
its program is half way through a batch; the fates of replies that are considered; and what a label
says about the ghost of the program that shows it. -/
structure Pact (ι ν M σ Γ Δ ε : Type) where
  inv : σ → (ν → M) → (ι → Γ) → Prop
  guar : σ → (ν → M) → σ → (ν → M) → Prop
  guar_refl : ∀ s μ, guar s μ s μ
  guar_trans : ∀ {s₁ μ₁ s₂ μ₂ s₃ μ₃}, guar s₁ μ₁ s₂ μ₂ → guar s₂ μ₂ s₃ μ₃ → guar s₁ μ₁ s₃ μ₃
  rest : ι → Γ → Prop
  allowed : Δ → Prop
  shown : ι → ε → Γ → Prop

namespace Pact

variable {ι ν C R M ε α β σ Δ Γ : Type} [DecidableEq ι] [DecidableEq ν] (P : Pact ι ν M σ Γ Δ ε)
  (B : Backend ι C R σ Δ) (home : ι → ν) (i : ι)

/-- The ghost may change from `γ` to `γ'` at any moment. -/
def Turns (γ γ' : Γ) : Prop :=
  ∀ s μ g, P.inv s μ g → g i = γ → P.inv s μ (Function.update g i γ')

/-- A step of memory keeps the invariant and the guarantee, and leaves a ghost with `K`. -/
def wpMem (f : M → M) (K : M → Γ → Prop) (γ : Γ) : Prop :=
  P.rest i γ ∧ ∀ s μ g, P.inv s μ g → g i = γ →
    let μ' := Function.update μ (home i) (f (μ (home i)))
    ∃ γ', P.inv s μ' (Function.update g i γ') ∧ P.guar s μ s μ' ∧ K (μ (home i)) γ'

/-- So does every one of these commands. -/
def wpCmds : List C → List R → (List R → Γ → Prop) → Γ → Prop
  | [], got, K, γ => P.rest i γ ∧ K got γ
  | c :: cs, got, K, γ => (got = [] → P.rest i γ) ∧ ∀ s μ g, P.inv s μ g → g i = γ →
    ∃ γ', P.inv (B.exec i c s).1 μ (Function.update g i γ') ∧ P.guar s μ (B.exec i c s).1 μ ∧
      wpCmds cs (got ++ [(B.exec i c s).2]) K γ'

/-- From the ghost `γ` on, every step of the program keeps invariant and guarantee, every label it
shows holds of its ghost, and it ends with `Q`. -/
def wp : Prog C R M ε α → (α → Γ → Prop) → Γ → Prop
  | .ret a, Q, γ => Q a γ
  | .pipe todo got k, Q, γ => P.wpCmds B i todo got
    (fun got γ => ∀ d, P.allowed d → ∃ γ', P.Turns i γ γ' ∧ wp (k (B.deliver d got)) Q γ') γ
  | .mem f k, Q, γ => P.wpMem home i f (fun m γ => wp (k m) Q γ) γ
  | .hold e k, Q, γ => P.rest i γ ∧ P.shown i e γ ∧ ∃ γ', P.Turns i γ γ' ∧ wp k Q γ'

variable {P B home i} {Q Q' : α → Γ → Prop} {γ : Γ}

omit [DecidableEq ν] in
theorem Turns.refl : P.Turns i γ γ := by
  intro s μ g hinv hg
  rwa [← hg, Function.update_eq_self]

theorem wp_pure {a : α} : P.wp B home i (pure a : Prog C R M ε α) Q γ ↔ Q a γ := Iff.rfl

omit [DecidableEq ν] in
theorem wpCmds_mono {K K' : List R → Γ → Prop} (hK : ∀ got γ, K got γ → K' got γ) {todo : List C}
    {got : List R} (h : P.wpCmds B i todo got K γ) : P.wpCmds B i todo got K' γ := by
  induction todo generalizing got γ with
  | nil => exact ⟨h.1, hK got γ h.2⟩
  | cons c cs ih =>
    refine ⟨h.1, fun s μ g hinv hg => ?_⟩
    obtain ⟨γ', hinv', hguar, h'⟩ := h.2 s μ g hinv hg
    exact ⟨γ', hinv', hguar, ih h'⟩

theorem wpMem_mono {f : M → M} {K K' : M → Γ → Prop} (hK : ∀ m γ, K m γ → K' m γ)
    (h : P.wpMem home i f K γ) : P.wpMem home i f K' γ := by
  refine ⟨h.1, fun s μ g hinv hg => ?_⟩
  obtain ⟨γ', hinv', hguar, h'⟩ := h.2 s μ g hinv hg
  exact ⟨γ', hinv', hguar, hK _ _ h'⟩

theorem wp_mono {p : Prog C R M ε α} (hQ : ∀ a γ, Q a γ → Q' a γ) (h : P.wp B home i p Q γ) :
    P.wp B home i p Q' γ := by
  induction p generalizing γ with
  | ret a => exact hQ a γ h
  | pipe todo got k ih =>
    refine wpCmds_mono (fun got γ h d hd => ?_) h
    obtain ⟨γ', hturn, h'⟩ := h d hd
    exact ⟨γ', hturn, ih _ h'⟩
  | mem f k ih => exact wpMem_mono (fun m γ h => ih m h) h
  | hold e k ih =>
    obtain ⟨hrest, hshown, γ', hturn, h'⟩ := h
    exact ⟨hrest, hshown, γ', hturn, ih h'⟩

/-- Sequencing. -/
theorem wp_bind {p : Prog C R M ε α} {f : α → Prog C R M ε β} {Q : β → Γ → Prop} :
    P.wp B home i (p >>= f) Q γ ↔ P.wp B home i p (fun a γ => P.wp B home i (f a) Q γ) γ := by
  induction p generalizing γ with
  | ret a => rfl
  | pipe todo got k ih =>
    constructor <;> refine wpCmds_mono fun got γ h d hd => ?_
    · obtain ⟨γ', hturn, h'⟩ := h d hd
      exact ⟨γ', hturn, (ih _).mp h'⟩
    · obtain ⟨γ', hturn, h'⟩ := h d hd
      exact ⟨γ', hturn, (ih _).mpr h'⟩
  | mem f k ih => exact ⟨wpMem_mono fun m γ => (ih m).mp, wpMem_mono fun m γ => (ih m).mpr⟩
  | hold e k ih =>
    exact and_congr_right fun _ => and_congr_right fun _ =>
      exists_congr fun γ' => and_congr_right fun _ => ih

/-- What a program that satisfies the logic shows, holds. -/
theorem shown_of_wp {p : Prog C R M ε ε} (h : P.wp B home i p (P.shown i) γ) {e : ε}
    (he : p.shows = some e) : P.shown i e γ := by
  cases p with
  | ret e' =>
    cases he
    exact h
  | hold e' k =>
    cases he
    exact h.2.1
  | pipe => cases he
  | mem => cases he

theorem rest_of_wp {p : Prog C R M ε α} (h : P.wp B home i p Q γ)
    (hQ : ∀ a γ, Q a γ → P.rest i γ) (hp : p.midway = false) : P.rest i γ := by
  cases p with
  | ret a => exact hQ a γ h
  | pipe todo got k =>
    cases todo with
    | nil => exact h.1
    | cons c cs =>
      cases got with
      | nil => exact h.1 rfl
      | cons => cases hp
  | mem => exact h.1
  | hold => exact h.1

/-- One step of a program keeps invariant and guarantee, and leaves a program that satisfies the
logic. -/
theorem wp_advance {p : Prog C R M ε α} (h : P.wp B home i p Q γ) {s : σ} {μ : ν → M} {g : ι → Γ}
    {d : Δ} (hinv : P.inv s μ g) (hg : g i = γ) (hd : P.allowed d) :
    let next := p.advance B i d s (μ (home i))
    let μ' := Function.update μ (home i) next.2.2
    ∃ γ', P.inv next.2.1 μ' (Function.update g i γ') ∧ P.guar s μ next.2.1 μ' ∧
      P.wp B home i next.1 Q γ' := by
  cases p with
  | ret a =>
    refine ⟨γ, ?_, ?_, h⟩ <;> simp only [Prog.advance, Function.update_eq_self]
    · exact Turns.refl s μ g hinv hg
    · exact P.guar_refl s μ
  | pipe todo got k =>
    cases todo with
    | nil =>
      obtain ⟨γ', hturn, h'⟩ := h.2 d hd
      refine ⟨γ', ?_, ?_, h'⟩ <;> simp only [Prog.advance, Function.update_eq_self]
      · exact hturn s μ g hinv hg
      · exact P.guar_refl s μ
    | cons c cs =>
      obtain ⟨γ', hinv', hguar, h'⟩ := h.2 s μ g hinv hg
      refine ⟨γ', ?_, ?_, h'⟩ <;> simp only [Prog.advance, Function.update_eq_self]
      · exact hinv'
      · exact hguar
  | mem f k => exact h.2 s μ g hinv hg
  | hold e k =>
    obtain ⟨-, -, γ', hturn, h'⟩ := h
    refine ⟨γ', ?_, ?_, h'⟩ <;> simp only [Prog.advance, Function.update_eq_self]
    · exact hturn s μ g hinv hg
    · exact P.guar_refl s μ

variable {Q : ι → α → Γ → Prop}

/-- **Soundness.** Programs that satisfy the logic keep the invariant, for some ghosts, over every
interleaving, and the run as a whole meets the guarantee. -/
theorem sound (opening : Sys ι ν C R M ε α σ) {g₀ : ι → Γ}
    (hinv : P.inv opening.store opening.mem g₀)
    (hprog : ∀ i, P.wp B home i (opening.prog i) (Q i) (g₀ i)) {es : List (ι × Δ)}
    (hes : ∀ e ∈ es, P.allowed e.2) :
    let x := (system B home opening).final es
    P.guar opening.store opening.mem x.store x.mem ∧
      ∃ g, P.inv x.store x.mem g ∧ ∀ i, P.wp B home i (x.prog i) (Q i) (g i) := by
  refine Machine.invariant_of (m := system B home opening) (C := fun e => P.allowed e.2)
    (P := fun _ x => P.guar opening.store opening.mem x.store x.mem ∧
      ∃ g, P.inv x.store x.mem g ∧ ∀ i, P.wp B home i (x.prog i) (Q i) (g i))
    ⟨P.guar_refl _ _, g₀, hinv, hprog⟩ ?_ hes
  intro _ x e hd hx
  obtain ⟨hguar, g, hinv, hprog⟩ := hx
  obtain ⟨γ', hinv', hguar', h'⟩ := wp_advance (hprog e.1) hinv rfl hd
  refine ⟨P.guar_trans hguar hguar', Function.update g e.1 γ', hinv', fun j => ?_⟩
  change P.wp B home j (Function.update x.prog e.1 _ j) (Q j) _
  rcases eq_or_ne j e.1 with rfl | hj
  · rwa [Function.update_self, Function.update_self]
  · rw [Function.update_of_ne hj, Function.update_of_ne hj]
    exact hprog j

theorem final_append (opening : Sys ι ν C R M ε α σ)
    (es es' : List (ι × Δ)) :
    (system B home opening).final (es ++ es') =
      (system B home ((system B home opening).final es)).final es' := by
  induction es' using List.reverseRecOn with
  | nil => rw [List.append_nil, Machine.final_nil]; rfl
  | append_singleton es' e ih =>
    rw [← List.append_assoc, Machine.final_concat, Machine.final_concat, ih]
    rfl

/-- Any two states of a run meet the guarantee. -/
theorem later (opening : Sys ι ν C R M ε α σ) {g₀ : ι → Γ}
    (hinv : P.inv opening.store opening.mem g₀)
    (hprog : ∀ i, P.wp B home i (opening.prog i) (Q i) (g₀ i)) {es es' : List (ι × Δ)}
    (hes : ∀ e ∈ es ++ es', P.allowed e.2) :
    let x := (system B home opening).final es
    let x' := (system B home opening).final (es ++ es')
    P.guar x.store x.mem x'.store x'.mem := by
  have hfirst : ∀ e ∈ es, P.allowed e.2 := fun e he => hes e (List.mem_append_left _ he)
  obtain ⟨-, g, hinv', hprog'⟩ := sound opening hinv hprog hfirst
  rw [final_append]
  exact (sound _ hinv' hprog' fun e he => hes e (List.mem_append_right _ he)).1

/-! ## Programs that only matter to a memory -/

variable (σ Δ) in
/-- A pact about memories alone, over a store that may answer anything. -/
def inMemories (I : (ν → M) → (ι → Γ) → Prop) (shown : ι → ε → Γ → Prop) :
    Pact ι ν M σ Γ Δ ε where
  inv _ := I
  guar _ _ _ _ := True
  guar_refl _ _ := trivial
  guar_trans _ _ := trivial
  rest _ _ := True
  allowed _ := True
  shown := shown

section

variable {I : (ν → M) → (ι → Γ) → Prop} {shown : ι → ε → Γ → Prop} {Q : α → Γ → Prop}

omit [DecidableEq ν] in
theorem wpCmds_inMemories {todo : List C} {got : List R} {K : List R → Γ → Prop}
    (h : ∀ got, K got γ) : (inMemories σ Δ I shown).wpCmds B i todo got K γ := by
  induction todo generalizing got with
  | nil => exact ⟨trivial, h got⟩
  | cons c cs ih =>
    refine ⟨fun _ => trivial, fun s μ g hinv hg => ⟨γ, ?_, trivial, ih⟩⟩
    rw [← hg, Function.update_eq_self]
    exact hinv

/-- A step of memory that keeps the invariant with some new ghost. -/
theorem wpMem_inMemories {f : M → M} {K : M → Γ → Prop}
    (h : ∀ μ g, I μ g → g i = γ → ∃ γ',
      I (Function.update μ (home i) (f (μ (home i)))) (Function.update g i γ') ∧
        K (μ (home i)) γ') :
    (inMemories σ Δ I shown).wpMem home i f K γ := by
  refine ⟨trivial, fun s μ g hinv hg => ?_⟩
  obtain ⟨γ', hinv', hK⟩ := h μ g hinv hg
  exact ⟨γ', hinv', trivial, hK⟩

/-- A program inside a larger memory whose steps of memory keep the invariant as it is. -/
theorem wp_within {N ε' : Type} {I : (ν → N) → (ι → Γ) → Prop} {shown : ι → ε' → Γ → Prop}
    {get : N → M} {set : M → N → N} {lab : ε → ε'} {S : M → M → Prop} {L : ε → Prop} {A : α → Prop}
    {p : Prog C R M ε α} (hp : p.Does S L A)
    (hS : ∀ μ g m, S (get (μ (home i))) m → I μ g →
      I (Function.update μ (home i) (set m (μ (home i)))) g)
    (hL : ∀ e, L e → shown i (lab e) γ) (hQ : ∀ a, A a → Q a γ) :
    (inMemories σ Δ I shown).wp B home i (p.within get set lab) Q γ := by
  induction p with
  | ret a => exact hQ a hp
  | pipe todo got k ih =>
    exact wpCmds_inMemories fun got d _ => ⟨γ, Turns.refl, ih _ (hp _)⟩
  | mem f k ih =>
    refine wpMem_inMemories fun μ g hinv hg => ⟨γ, ?_, ih _ (hp _).2⟩
    rw [← hg, Function.update_eq_self]
    exact hS μ g _ (hp _).1 hinv
  | hold e k ih => exact ⟨trivial, hL e hp.1, γ, Turns.refl, ih hp.2⟩

end

end Pact

end Lumenia
