import Lumenia.Theory.Parallel

/-!
# Calls and their progress

Programs side by side over a state that they share, where each has a progress of its own beside it:
what it has done so far, and what it has yet to do. The surroundings answer by a choice of theirs, and
an answer moves the progress of the call it goes to, and no other. `Keeps` says of a call that is at
some progress that each of its steps keeps an invariant of the shared state and of all progress, and
what progress it ends with; `leads_keeps` is what that comes to in a run.
-/

namespace Lumenia.Dialogue

variable {ι Q D S P : Type} {A : Q → Type} {ε ε' α β : Type}

/-- The state that the calls share, and how far each of them has come. -/
structure Tracked (ι S P : Type) where
  shared : S
  calls : ι → P

/-- What a choice makes of a question: its answer with the state that is left, and the progress of the
call that has asked. -/
structure Surroundings (A : Q → Type) (D S P : Type) where
  react : D → S → (q : Q) → A q × S
  next : P → D → S → Q → P

/-- What is asked of the steps of a run: of the call, the choice, what is there before, and the
question. -/
abbrev Condition (ι Q D S P : Type) := ι → D → Tracked ι S P → Q → Prop

namespace Surroundings

variable [DecidableEq ι] (R : Surroundings A D S P)

/-- The answer to a question of the call `i`, and what it leaves. -/
def meet (i : ι) (d : D) (w : Tracked ι S P) (q : Q) : A q × Tracked ι S P :=
  ((R.react d w.shared q).1,
    ⟨(R.react d w.shared q).2, Function.update w.calls i (R.next (w.calls i) d w.shared q)⟩)

def Steps (met : Condition ι Q D S P) (i : ι) (w : Tracked ι S P) (q : Q) (a : A q)
    (w' : Tracked ι S P) : Prop :=
  ∃ d, met i d w q ∧ R.meet i d w q = (a, w')

end Surroundings

/-- The shared state moves by itself. -/
def Stirs (stir : S → S → Prop) (w w' : Tracked ι S P) : Prop :=
  ∃ s, stir w.shared s ∧ w' = { w with shared := s }

/-- The invariant, and for a call that nobody else moves its progress. -/
def progressTerms (inv : Tracked ι S P → Prop) : Terms ι (Tracked ι S P) where
  inv
  rely i w w' := w'.calls i = w.calls i
  refl _ _ := rfl
  trans _ _ _ _ h h' := h'.trans h

section

variable [DecidableEq ι] {R : Surroundings A D S P} {met : Condition ι Q D S P}
  {inv : Tracked ι S P → Prop} {i j : ι} {p : P} {d : D} {w : Tracked ι S P} {q : Q}

@[simp] theorem meet_calls_self :
    (R.meet i d w q).2.calls i = R.next (w.calls i) d w.shared q := Function.update_self ..

@[simp] theorem meet_calls_ne (h : j ≠ i) : (R.meet i d w q).2.calls j = w.calls j :=
  Function.update_of_ne h ..

@[simp] theorem meet_shared : (R.meet i d w q).2.shared = (R.react d w.shared q).2 := rfl

/-- From the progress `p`, each step of the call keeps the invariant, and it ends with a progress
that `N` allows for its result. -/
def Keeps (R : Surroundings A D S P) (met : Condition ι Q D S P) (inv : Tracked ι S P → Prop) (i : ι)
    (p : P) (call : Dialogue A ε α) (N : Except ε α → P → Prop) : Prop :=
  (progressTerms inv).Triple (R.Steps met) i (fun w => w.calls i = p) call
    fun r w => N r (w.calls i)

variable {call : Dialogue A ε α} {N N' : Except ε α → P → Prop}

omit [DecidableEq ι] in
theorem stable_progress {K : P → Prop} :
    (progressTerms inv).Stable i fun w => K (w.calls i) := by
  intro w w' hrely _ hw
  have hsame : w'.calls i = w.calls i := hrely
  rwa [hsame]

theorem Keeps.ret {r : Except ε α} (h : N r p) : Keeps R met inv i p (.ret r) N := by
  refine Terms.Triple.ret (stable_progress (K := (· = p))) fun w _ hw => ?_
  rwa [hw]

theorem Keeps.mono (h : Keeps R met inv i p call N) (hN : ∀ r p', N r p' → N' r p') :
    Keeps R met inv i p call N' :=
  Terms.Triple.mono h fun r w _ => hN r (w.calls i)

/-- One question: what the answer keeps, and what the call goes on with. -/
theorem Keeps.ask {k : A q → Dialogue A ε α}
    (hinv : ∀ d w, inv w → w.calls i = p → met i d w q → inv (R.meet i d w q).2)
    (hk : ∀ d w, inv w → w.calls i = p → met i d w q →
      Keeps R met inv i (R.next p d w.shared q) (k (R.react d w.shared q).1) N) :
    Keeps R met inv i p (.ask q k) N := by
  refine Terms.Triple.ask (N := fun a w' => ∃ d w, inv w ∧ w.calls i = p ∧ met i d w q ∧
    R.meet i d w q = (a, w')) (stable_progress (K := (· = p))) ?_ fun a => ?_
  · rintro w a w' hw hp ⟨d, hmet, heq⟩
    have hw' : (R.meet i d w q).2 = w' := congrArg Prod.snd heq
    subst hw'
    exact ⟨hinv d w hw hp hmet, fun j hj => meet_calls_ne hj, d, w, hw, hp, hmet, heq⟩
  · unfold Terms.Triple
    rintro w' hw' ⟨d, w, hw, hp, hmet, heq⟩
    obtain ⟨rfl, rfl⟩ := Prod.mk.inj heq
    have hnext : (R.meet i d w q).2.calls i = R.next p d w.shared q := by rw [meet_calls_self, hp]
    exact (hk d w hw hp hmet).keeps hw' hnext

theorem Keeps.andThen {f : Except ε α → Dialogue A ε' β} {M : Except ε' β → P → Prop}
    (h : Keeps R met inv i p call N) (hf : ∀ r p', N r p' → Keeps R met inv i p' (f r) M) :
    Keeps R met inv i p (call.andThen f) M := by
  refine Terms.Triple.andThen h fun r => ?_
  unfold Terms.Triple
  exact fun w hw hr => (hf r (w.calls i) hr).keeps hw rfl

theorem Keeps.bind {f : α → Dialogue A ε β} {M : Except ε β → P → Prop}
    (h : Keeps R met inv i p call N) (hf : ∀ a p', N (.ok a) p' → Keeps R met inv i p' (f a) M)
    (herror : ∀ e p', N (.error e) p' → M (.error e) p') :
    Keeps R met inv i p (call >>= f) M := by
  refine h.andThen fun r p' hr => ?_
  cases r with
  | ok a => exact hf a p' hr
  | error e => exact .ret (herror e p' hr)

theorem Keeps.ite {c : Prop} [Decidable c] {call' : Dialogue A ε α}
    (h : c → Keeps R met inv i p call N) (h' : ¬c → Keeps R met inv i p call' N) :
    Keeps R met inv i p (if c then call else call') N :=
  Terms.Triple.ite h h'

/-- A call keeps what each of its questions keeps, however far it has come. -/
theorem keeps_of_asks {K : Q → Prop} {M : P → Prop} (hcall : call.Asks K) (hp : M p)
    (h : ∀ q, K q → ∀ d w, inv w → met i d w q → inv (R.meet i d w q).2)
    (hnext : ∀ q, K q → ∀ p d s, M p → M (R.next p d s q)) :
    Keeps R met inv i p call fun _ => M := by
  induction call generalizing p with
  | ret r => exact .ret hp
  | ask q k ih =>
    obtain ⟨hq, hrest⟩ := asks_ask.mp hcall
    refine .ask (fun d w hw _ hmet => h q hq d w hw hmet) fun d w _ _ _ => ?_
    exact ih _ (hrest _) (hnext q hq p d w.shared hp)

/-! ## Runs -/

variable {stir : S → S → Prop} {s : S} {prog : ι → Dialogue A ε α} {p₀ : P}
  {N : ι → Except ε α → P → Prop} {y : Crowd ι A ε α (Tracked ι S P)}

/-- The calls all start from the progress `p₀`. -/
def started (s : S) (p₀ : P) (prog : ι → Dialogue A ε α) : Crowd ι A ε α (Tracked ι S P) :=
  ⟨⟨s, fun _ => p₀⟩, prog⟩

omit [DecidableEq ι] in
theorem stirs_keeps (hstir : ∀ w s', inv w → stir w.shared s' → inv { w with shared := s' })
    (w w' : Tracked ι S P) (hw : (progressTerms inv).inv w) (h : Stirs stir w w') :
    (progressTerms inv).inv w' ∧ ∀ i, (progressTerms inv).rely i w w' := by
  obtain ⟨s', hs, rfl⟩ := h
  exact ⟨hstir w s' hw hs, fun i => rfl⟩

theorem kept_started (hinv : inv ⟨s, fun _ => p₀⟩)
    (h : ∀ i, Keeps R met inv i p₀ (prog i) (N i)) :
    (progressTerms inv).Kept (R.Steps met) (fun i r w => N i r (w.calls i)) (started s p₀ prog) :=
  ⟨hinv, fun i => (h i).keeps hinv rfl⟩

/-- What holds in a run: the invariant, that a call which has not been answered has done nothing, and
that one which has ended is as far as it can be. -/
theorem leads_keeps (hinv : inv ⟨s, fun _ => p₀⟩)
    (hstir : ∀ w s', inv w → stir w.shared s' → inv { w with shared := s' })
    (h : ∀ i, Keeps R met inv i p₀ (prog i) (N i))
    (hy : Leads (R.Steps met) (Stirs stir) (started s p₀ prog) y) :
    inv y.world ∧ (∀ i, y.prog i = prog i → y.world.calls i = p₀) ∧
      ∀ i r, y.prog i = .ret r → N i r (y.world.calls i) := by
  have hstart := kept_started hinv h
  have hkept := Terms.sound (stirs_keeps hstir) hstart hy
  exact ⟨hkept.inv, fun i hi => hstart.still (stirs_keeps hstir) hy hi, fun i r => hkept.ended⟩

theorem fairly_true {ds : List (ι × D)} : y.fairly R.meet (fun _ _ _ _ => true) ds = true := by
  induction ds generalizing y with
  | nil => rfl
  | cons e rest ih =>
    rw [Crowd.fairly, Bool.and_eq_true]
    refine ⟨?_, ih⟩
    split <;> rfl

/-- The calls with the answers of these choices, in the given order. -/
theorem leads_meet {ok : ι → D → Tracked ι S P → Q → Bool}
    (hok : ∀ i d w q, ok i d w q = true → met i d w q) {ds : List (ι × D)}
    (h : y.fairly R.meet ok ds = true) :
    Leads (R.Steps met) (Stirs stir) y (y.play R.meet ds) :=
  leads_play (fun i d w q hd => ⟨d, hok i d w q hd, rfl⟩) h

end

end Lumenia.Dialogue
