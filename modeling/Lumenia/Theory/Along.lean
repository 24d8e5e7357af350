import Lumenia.Theory.Chronicle
import Lumenia.Theory.Dialogue

/-!
# Programs that are cut off

A run of a dialogue may end at any question, so what matters of it holds along the way and not at its end
alone. `along` is that, `Reaches` a run that has come so far, and `Reaches.along` the one induction.
-/

namespace Lumenia.Dialogue

variable {Q : Type} {A : Q → Type} {ε ε' α β W : Type}

section

variable (step : W → (q : Q) → A q → W → Prop)

/-- What is left of a program after some questions, and the state then. -/
inductive Reaches : Dialogue A ε α → W → Dialogue A ε α → W → Prop
  | here {p : Dialogue A ε α} {w : W} : Reaches p w p w
  | ask {q : Q} {k : A q → Dialogue A ε α} {p : Dialogue A ε α} {w w' w'' : W} (a : A q)
    (h : step w q a w') (rest : Reaches (k a) w' p w'') : Reaches (.ask q k) w p w''

/-- The invariant holds all the way, and in the end `post` as well. -/
def along (inv : W → Prop) (post : Except ε α → W → Prop) : Dialogue A ε α → W → Prop
  | .ret r, w => inv w ∧ post r w
  | .ask q k, w => inv w ∧ ∀ a w', step w q a w' → (k a).along inv post w'

end

variable {step : W → (q : Q) → A q → W → Prop} {inv : W → Prop} {post post' : Except ε α → W → Prop}
  {p p' : Dialogue A ε α} {w w' : W}

theorem along.now (h : p.along step inv post w) : inv w := by
  cases p with
  | ret r => exact h.1
  | ask q k => exact h.1

theorem Reaches.along (hreach : Reaches step p w p' w') (h : p.along step inv post w) :
    p'.along step inv post w' := by
  induction hreach with
  | here => exact h
  | ask a hstep _ ih => exact ih (h.2 a _ hstep)

theorem Runs.reaches {r : Except ε α} (h : Runs step p w r w') : Reaches step p w (.ret r) w' := by
  induction h with
  | ret => exact .here
  | ask a hstep _ ih => exact .ask a hstep ih

/-- The run in surroundings that leave no choice. -/
def runIn (meet : W → (q : Q) → A q × W) : Dialogue A ε α → W → Except ε α × W
  | .ret r, w => (r, w)
  | .ask q k, w => (k (meet w q).1).runIn meet (meet w q).2

theorem runs_runIn {meet : W → (q : Q) → A q × W} (hmeet : ∀ w q, step w q (meet w q).1 (meet w q).2) :
    Runs step p w (p.runIn meet w).1 (p.runIn meet w).2 := by
  induction p generalizing w with
  | ret r => exact .ret
  | ask q k ih => exact .ask _ (hmeet w q) (ih _)

theorem reaches_runIn {meet : W → (q : Q) → A q × W} (hmeet : ∀ w q, step w q (meet w q).1 (meet w q).2) :
    Reaches step p w (.ret (p.runIn meet w).1) (p.runIn meet w).2 :=
  (runs_runIn hmeet).reaches

theorem along_mono (hpost : ∀ r w, inv w → post r w → post' r w) (h : p.along step inv post w) :
    p.along step inv post' w := by
  induction p generalizing w with
  | ret r => exact ⟨h.1, hpost r w h.1 h.2⟩
  | ask q k ih => exact ⟨h.1, fun a w' hstep => ih a (h.2 a w' hstep)⟩

theorem along_andThen {f : Except ε α → Dialogue A ε' β} {post : Except ε' β → W → Prop}
    (h : p.along step inv (fun r w => (f r).along step inv post w) w) :
    (p.andThen f).along step inv post w := by
  induction p generalizing w with
  | ret r => exact h.2
  | ask q k ih => exact ⟨h.1, fun a w' hstep => ih a (h.2 a w' hstep)⟩

theorem along_bind {f : α → Dialogue A ε β} {post : Except ε β → W → Prop}
    (h : p.along step inv (fun r w => (onValue f r).along step inv post w) w) :
    (p >>= f).along step inv post w :=
  along_andThen h

theorem along_question_bind {q : Q} {f : A q → Dialogue A ε β} {post : Except ε β → W → Prop} (hw : inv w)
    (h : ∀ a w', step w q a w' → (f a).along step inv post w') :
    (question q >>= f : Dialogue A ε β).along step inv post w :=
  ⟨hw, h⟩

/-- A program that does not throw goes on. -/
theorem along_seq {p : Dialogue A Empty α} {f : α → Dialogue A Empty β} {post : Except Empty β → W → Prop}
    (h : p.along step inv (fun r w => ∀ a, r = .ok a → (f a).along step inv post w) w) :
    (p >>= f).along step inv post w := by
  refine along_bind (along_mono (fun r w _ hr => ?_) h)
  cases r with
  | ok a => exact hr a rfl
  | error e => exact e.elim

theorem wp_seq {p : Dialogue A Empty α} {f : α → Dialogue A Empty β} {post : Except Empty β → W → Prop}
    (h : p.wp step (fun r w => ∀ a, r = .ok a → (f a).wp step post w) w) : (p >>= f).wp step post w := by
  rw [wp_bind]
  refine wp_mono (fun r w hr => ?_) h
  cases r with
  | ok a => exact hr a rfl
  | error e => exact e.elim

/-! ## Whatever is answered -/

/-- Every question is among those of `K`, and every result among those of `N`. -/
def Within (K : Q → Prop) (N : Except ε α → Prop) : Dialogue A ε α → Prop
  | .ret r => N r
  | .ask q k => K q ∧ ∀ a, (k a).Within K N

section

variable {K K' : Q → Prop} {N N' : Except ε α → Prop}

theorem Within.mono (hK : ∀ q, K q → K' q) (hN : ∀ r, N r → N' r) (h : p.Within K N) : p.Within K' N' := by
  induction p with
  | ret r => exact hN r h
  | ask q k ih => exact ⟨hK q h.1, fun a => ih a (h.2 a)⟩

theorem within_of_forall (hK : ∀ q, K q) : p.Within K fun _ => True := by
  induction p with
  | ret r => trivial
  | ask q k ih => exact ⟨hK q, ih⟩

theorem Within.andThen {f : Except ε α → Dialogue A ε' β} {M : Except ε' β → Prop} (h : p.Within K N)
    (hf : ∀ r, N r → (f r).Within K M) : (p.andThen f).Within K M := by
  induction p with
  | ret r => exact hf r h
  | ask q k ih => exact ⟨h.1, fun a => ih a (h.2 a)⟩

theorem Within.bind {f : α → Dialogue A ε β} {M : Except ε β → Prop} (h : p.Within K N)
    (hf : ∀ a, N (.ok a) → (f a).Within K M) (herror : ∀ e, N (.error e) → M (.error e)) :
    (p >>= f).Within K M := by
  apply h.andThen
  intro r hr
  cases r with
  | ok a => exact hf a hr
  | error e => exact herror e hr

theorem Within.seq {p : Dialogue A Empty α} {f : α → Dialogue A Empty β} {N : Except Empty α → Prop}
    {M : Except Empty β → Prop} (h : p.Within K N) (hf : ∀ a, N (.ok a) → (f a).Within K M) :
    (p >>= f).Within K M :=
  h.bind hf fun e => e.elim

theorem within_question_bind {q : Q} {f : A q → Dialogue A ε β} {N : Except ε β → Prop} (hq : K q)
    (h : ∀ a, (f a).Within K N) : (question q >>= f : Dialogue A ε β).Within K N :=
  ⟨hq, h⟩

theorem Within.result (h : p.Within K N) (hN : ∀ r, N r → N' r) : p.Within K N' := h.mono (fun _ => id) hN

theorem within_ite {c : Prop} [Decidable c] (h : c → p.Within K N) (h' : ¬c → p'.Within K N) :
    (if c then p else p').Within K N := by
  split
  · exact h ‹_›
  · exact h' ‹_›

theorem Within.tryCatch {f : ε → Dialogue A ε α} (h : p.Within K N') (hok : ∀ a, N' (.ok a) → N (.ok a))
    (herror : ∀ e, N' (.error e) → (f e).Within K N) : (tryCatch p f).Within K N := by
  apply h.andThen
  intro r hr
  cases r with
  | ok a => exact hok a hr
  | error e => exact herror e hr

/-- No result is among these, but a program may throw. -/
def Never (granted : α → Prop) : Except ε α → Prop
  | .ok a => ¬granted a
  | .error _ => True

theorem Within.before {f : α → Dialogue A ε β} {granted : β → Prop} (h : p.Within K fun _ => True)
    (hf : ∀ a, (f a).Within K (Never granted)) : (p >>= f).Within K (Never granted) :=
  h.bind (fun a _ => hf a) fun _ _ => trivial

/-- What such questions keep holds all the way. -/
theorem Within.along {I : W → Prop} (h : p.Within K N)
    (hstep : ∀ q, K q → ∀ w a w', I w → step w q a w' → I w') (hinv : ∀ w, I w → inv w) (hw : I w) :
    p.along step inv (fun r w' => N r ∧ I w') w := by
  induction p generalizing w with
  | ret r => exact ⟨hinv w hw, h, hw⟩
  | ask q k ih => exact ⟨hinv w hw, fun a w' hs => ih a (h.2 a) (hstep q h.1 w a w' hw hs)⟩

theorem Within.and {N' : Except ε α → Prop} (h : p.Within K N) (h' : p.Within K' N') :
    p.Within (fun q => K q ∧ K' q) fun r => N r ∧ N' r := by
  induction p with
  | ret r => exact ⟨h, h'⟩
  | ask q k ih => exact ⟨⟨h.1, h'.1⟩, fun a => ih a (h.2 a) (h'.2 a)⟩

/-- What a run adds to a record. -/
theorem Within.wp_recorded {fair : (q : Q) → A q → Prop} {h : List (Event A)} (hp : p.Within K N) :
    p.wp (recorded fair) (fun r h' => N r ∧ ∃ es, h' = h ++ es ∧ ∀ e ∈ es, K e.1) h := by
  induction p generalizing h with
  | ret r => exact ⟨hp, [], (List.append_nil h).symm, nofun⟩
  | ask q k ih =>
    rintro a h' ⟨-, rfl⟩
    refine wp_mono (fun r h' => ?_) (ih a (hp.2 a) (h := h ++ [⟨q, a⟩]))
    rintro ⟨hr, es, rfl, hes⟩
    refine ⟨hr, ⟨q, a⟩ :: es, by rw [List.append_assoc, List.singleton_append], ?_⟩
    exact List.forall_mem_cons.mpr ⟨hp.1, hes⟩

theorem Within.recorded_seq {fair : (q : Q) → A q → Prop} {h : List (Event A)} {p : Dialogue A Empty α}
    {f : α → Dialogue A Empty β} {N : Except Empty α → Prop} {post : Except Empty β → List (Event A) → Prop}
    (hp : p.Within K N)
    (hf : ∀ a es, N (.ok a) → (∀ e ∈ es, K e.1) → (f a).wp (recorded fair) post (h ++ es)) :
    (p >>= f).wp (recorded fair) post h := by
  rw [wp_bind]
  refine wp_mono (fun r h' => ?_) hp.wp_recorded
  rintro ⟨hr, es, rfl, hes⟩
  cases r with
  | ok a => exact hf a es hr hes
  | error e => exact e.elim

theorem within_relabel {Q' : Type} {A' : Q' → Type} {f : Q → Q'} {g : ∀ q, A' (f q) → A q} {K : Q' → Prop}
    (h : p.Within (fun q => K (f q)) N) : (p.relabel f g).Within K N := by
  induction p with
  | ret r => exact h
  | ask q k ih => exact ⟨h.1, fun a => ih (g q a) (h.2 (g q a))⟩

end

section

variable {P : List (Event A) → Event A → Prop} {h : List (Event A)}

/-- A question that may be asked after what was asked and answered before. -/
theorem along_lawful_question {fair : (q : Q) → A q → Prop} {q : Q} {f : A q → Dialogue A ε β}
    {post : Except ε β → List (Event A) → Prop} (hlawful : Lawful P h) (hq : ∀ a, P h ⟨q, a⟩)
    (hf : ∀ a, Lawful P (h ++ [⟨q, a⟩]) → (f a).along (recorded fair) (Lawful P) post (h ++ [⟨q, a⟩])) :
    (question q >>= f : Dialogue A ε β).along (recorded fair) (Lawful P) post h := by
  apply along_question_bind hlawful
  rintro a _ ⟨-, rfl⟩
  exact hf a (hlawful.concat (hq a))

end

/-! ## Good results and bad answers -/

/-- The result is good exactly if no answer was bad. -/
def Exact (bad : (q : Q) → A q → Prop) (good : Except ε α → Prop) : Dialogue A ε α → Prop
  | .ret r => good r
  | .ask q k => ∀ a, (bad q a → (k a).Within (fun _ => True) fun r => ¬good r) ∧
      (¬bad q a → (k a).Exact bad good)

section

variable {bad : (q : Q) → A q → Prop} {good good' : Except ε α → Prop} {K : Q → Prop} {N : Except ε α → Prop}

theorem exact_ite {c : Prop} [Decidable c] (h : c → p.Exact bad good) (h' : ¬c → p'.Exact bad good) :
    (if c then p else p').Exact bad good := by
  split
  · exact h ‹_›
  · exact h' ‹_›

theorem exact_question_bind {q : Q} {f : A q → Dialogue A ε β} {good : Except ε β → Prop}
    (h : ∀ a, (bad q a → (f a).Within (fun _ => True) fun r => ¬good r) ∧ (¬bad q a → (f a).Exact bad good)) :
    (question q >>= f : Dialogue A ε β).Exact bad good :=
  h

/-- What is never asked is never answered badly. -/
theorem Within.exact (h : p.Within K good) (hK : ∀ q, K q → ∀ a, ¬bad q a) : p.Exact bad good := by
  induction p with
  | ret r => exact h
  | ask q k ih => exact fun a => ⟨fun hbad => absurd hbad (hK q h.1 a), fun _ => ih a (h.2 a)⟩

theorem Exact.seq {p : Dialogue A Empty α} {f : α → Dialogue A Empty β} {good : α → Prop}
    {good' : Except Empty β → Prop} (h : p.Exact bad fun r => ∀ a, r = .ok a → good a)
    (hf : ∀ a, good a → (f a).Exact bad good')
    (hbad : ∀ a, ¬good a → (f a).Within (fun _ => True) fun r => ¬good' r) : (p >>= f).Exact bad good' := by
  induction p with
  | ret r =>
    cases r with
    | ok a => exact hf a (h a rfl)
    | error e => exact e.elim
  | ask q k ih =>
    refine fun a => ⟨fun ha => ((h a).1 ha).seq fun b hb => hbad b fun hgood => hb fun b' hb' => ?_, ?_⟩
    · obtain rfl := Except.ok.inj hb'
      exact hgood
    · exact fun ha => ih a ((h a).2 ha)

/-- A step that no answer is bad for. -/
theorem Within.exact_seq {p : Dialogue A Empty α} {f : α → Dialogue A Empty β} {N : Except Empty α → Prop}
    {good' : Except Empty β → Prop} (h : p.Within K N) (hK : ∀ q, K q → ∀ a, ¬bad q a)
    (hf : ∀ a, N (.ok a) → (f a).Exact bad good') : (p >>= f).Exact bad good' := by
  induction p with
  | ret r =>
    cases r with
    | ok a => exact hf a h
    | error e => exact e.elim
  | ask q k ih => exact fun a => ⟨fun ha => absurd ha (hK q h.1 a), fun _ => ih a (h.2 a)⟩

/-- In a run that is recorded, the result tells of the answers that the run has got. -/
theorem Exact.wp_recorded {fair : (q : Q) → A q → Prop} {h : List (Event A)} (hp : p.Exact bad good)
    (hN : p.Within K N) :
    p.wp (recorded fair) (fun r h' => N r ∧ ∃ es, h' = h ++ es ∧ (∀ e ∈ es, K e.1) ∧
      (good r ↔ ∀ e ∈ es, ¬bad e.1 e.2)) h := by
  induction p generalizing h with
  | ret r => exact ⟨hN, [], (List.append_nil h).symm, nofun, iff_of_true hp nofun⟩
  | ask q k ih =>
    rintro a h' ⟨-, rfl⟩
    by_cases ha : bad q a
    · refine wp_mono (fun r h' => ?_) (((hN.2 a).and ((hp a).1 ha)).wp_recorded (h := h ++ [⟨q, a⟩]))
      rintro ⟨⟨hr, hnot⟩, es, rfl, hes⟩
      refine ⟨hr, ⟨q, a⟩ :: es, by rw [List.append_assoc, List.singleton_append], ?_, ?_⟩
      · exact List.forall_mem_cons.mpr ⟨hN.1, fun e he => (hes e he).1⟩
      · exact iff_of_false hnot fun hall => hall _ List.mem_cons_self ha
    · refine wp_mono (fun r h' => ?_) (ih a ((hp a).2 ha) (hN.2 a) (h := h ++ [⟨q, a⟩]))
      rintro ⟨hr, es, rfl, hes, hiff⟩
      refine ⟨hr, ⟨q, a⟩ :: es, by rw [List.append_assoc, List.singleton_append], ?_, ?_⟩
      · exact List.forall_mem_cons.mpr ⟨hN.1, hes⟩
      · rw [hiff, List.forall_mem_cons]
        exact (and_iff_right ha).symm

theorem Exact.recorded_seq {fair : (q : Q) → A q → Prop} {h : List (Event A)} {p : Dialogue A Empty α}
    {f : α → Dialogue A Empty β} {good N : Except Empty α → Prop} {post : Except Empty β → List (Event A) → Prop}
    (hp : p.Exact bad good) (hN : p.Within K N)
    (hf : ∀ a es, N (.ok a) → (∀ e ∈ es, K e.1) → (good (.ok a) ↔ ∀ e ∈ es, ¬bad e.1 e.2) →
      (f a).wp (recorded fair) post (h ++ es)) :
    (p >>= f).wp (recorded fair) post h := by
  rw [wp_bind]
  refine wp_mono (fun r h' => ?_) (hp.wp_recorded hN)
  rintro ⟨hr, es, rfl, hes, hiff⟩
  cases r with
  | ok a => exact hf a es hr hes hiff
  | error e => exact e.elim

end

end Lumenia.Dialogue
