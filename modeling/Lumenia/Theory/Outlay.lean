import Lumenia.Theory.Parallel
import Lumenia.Theory.Threads
import Mathlib.Algebra.GroupWithZero.Nat

/-!
# Programs under a meter

What the questions of a program cost. `metered` are surroundings that keep a record of each answer
with its cost, and may let an answer depend on the sum so far. `Takes` and `Sends` say how many
questions a `Dialogue` asks, and how many pipelines a `Prog` sends, in one of its runs.
-/

namespace Lumenia

namespace Dialogue

variable {Q : Type} {A : Q → Type} {ε ε' α β : Type}

/-- A question with its answer, and what it cost. -/
structure Outlay (A : Q → Type) where
  event : Event A
  cost : ℕ

/-- What a record comes to. -/
def spent (h : List (Outlay A)) : ℕ := (h.map Outlay.cost).sum

section

variable {h h' : List (Outlay A)} {o : Outlay A}

@[simp] theorem spent_nil : spent ([] : List (Outlay A)) = 0 := rfl

@[simp] theorem spent_cons : spent (o :: h) = o.cost + spent h := by
  rw [spent, List.map_cons, List.sum_cons, spent]

@[simp] theorem spent_append : spent (h ++ h') = spent h + spent h' := by
  rw [spent, List.map_append, List.sum_append, spent, spent]

theorem spent_filter_le {p : Outlay A → Bool} : spent (h.filter p) ≤ spent h := by
  induction h with
  | nil => exact Nat.le_refl 0
  | cons o h ih =>
    rw [spent_cons]
    cases hp : p o with
    | false =>
      rw [List.filter_cons_of_neg (by simp [hp])]
      exact Nat.le_trans ih (Nat.le_add_left _ _)
    | true =>
      rw [List.filter_cons_of_pos hp, spent_cons]
      exact Nat.add_le_add_left ih _

end

theorem wp_and {W : Type} {step : W → (q : Q) → A q → W → Prop} {post post' : Except ε α → W → Prop}
    {p : Dialogue A ε α} {w : W} (hp : p.wp step post w) (hp' : p.wp step post' w) :
    p.wp step (fun r w => post r w ∧ post' r w) w := by
  induction p generalizing w with
  | ret r => exact ⟨hp, hp'⟩
  | ask q k ih => exact fun a w' hstep => ih a (hp a w' hstep) (hp' a w' hstep)

/-- Surroundings with a meter: the cost of a question is one of those that `costs` allows, and `fair`
may have the answer depend on what has been spent. -/
def metered (costs : Q → ℕ → Prop) (fair : ℕ → (q : Q) → A q → Prop) (h : List (Outlay A)) (q : Q)
    (a : A q) (h' : List (Outlay A)) : Prop :=
  ∃ n, costs q n ∧ fair (spent h) q a ∧ h' = h ++ [⟨⟨q, a⟩, n⟩]

section

variable {costs : Q → ℕ → Prop} {fair : ℕ → (q : Q) → A q → Prop} {h h' : List (Outlay A)} {q : Q}

theorem wp_metered_ask {k : A q → Dialogue A ε α} {post : Except ε α → List (Outlay A) → Prop} :
    (Dialogue.ask q k).wp (metered costs fair) post h ↔ ∀ a n, costs q n → fair (spent h) q a →
      (k a).wp (metered costs fair) post (h ++ [⟨⟨q, a⟩, n⟩]) := by
  constructor
  · intro hwp a n hn ha
    exact hwp a _ ⟨n, hn, ha, rfl⟩
  · rintro hwp a _ ⟨n, hn, ha, rfl⟩
    exact hwp a n hn ha

theorem wp_metered_bind {k : A q → Dialogue A ε α} {post : Except ε α → List (Outlay A) → Prop} :
    (question q >>= k).wp (metered costs fair) post h ↔ ∀ a n, costs q n → fair (spent h) q a →
      (k a).wp (metered costs fair) post (h ++ [⟨⟨q, a⟩, n⟩]) :=
  wp_metered_ask

/-- What a run adds to the record is of the kinds that the program can ask, at their costs. -/
theorem Asks.wp_metered {S : Q → Prop} {p : Dialogue A ε α} (hp : p.Asks S) :
    p.wp (metered costs fair) (fun _ h' => ∃ es, h' = h ++ es ∧
      ∀ o ∈ es, S o.event.1 ∧ costs o.event.1 o.cost) h := by
  induction p generalizing h with
  | ret r => exact ⟨[], (List.append_nil h).symm, List.forall_mem_nil _⟩
  | ask q k ih =>
    obtain ⟨hq, hk⟩ := asks_ask.mp hp
    refine wp_metered_ask.mpr fun a n hn _ => wp_mono ?_ (ih a (hk a))
    rintro r _ ⟨es, rfl, hes⟩
    exact ⟨_, List.append_assoc .., List.forall_mem_cons.mpr ⟨⟨hq, hn⟩, hes⟩⟩

/-- The surroundings may answer more than they do. -/
theorem Runs.metered_mono {fair' : ℕ → (q : Q) → A q → Prop} {p : Dialogue A ε α} {r : Except ε α}
    (hrun : Runs (metered costs fair) p h r h') (hfair : ∀ n q a, fair n q a → fair' n q a) :
    Runs (metered costs fair') p h r h' := by
  refine hrun.simulate (f := id) ?_
  rintro w q a _ ⟨n, hn, ha, rfl⟩
  exact ⟨n, hn, hfair _ q a ha, rfl⟩

/-- The run with the given answers and costs, and the record of it. -/
def playMetered (answer : List (Outlay A) → (q : Q) → A q × ℕ) :
    Dialogue A ε α → List (Outlay A) → Except ε α × List (Outlay A)
  | .ret r, h => (r, h)
  | .ask q k, h => (k (answer h q).1).playMetered answer (h ++ [⟨⟨q, (answer h q).1⟩, (answer h q).2⟩])

theorem runs_playMetered {answer : List (Outlay A) → (q : Q) → A q × ℕ}
    (hcosts : ∀ h q, costs q (answer h q).2) (hfair : ∀ h q, fair (spent h) q (answer h q).1)
    (p : Dialogue A ε α) (h : List (Outlay A)) :
    Runs (metered costs fair) p h (p.playMetered answer h).1 (p.playMetered answer h).2 := by
  induction p generalizing h with
  | ret r => exact .ret
  | ask q k ih => exact .ask (answer h q).1 ⟨_, hcosts h q, hfair h q, rfl⟩ (ih _ _)

end

/-! ## How much a program asks -/

/-- A run of the program asks so many questions. -/
inductive Takes : Dialogue A ε α → ℕ → Prop
  | ret {r : Except ε α} : Takes (.ret r) 0
  | ask {q : Q} {k : A q → Dialogue A ε α} {n : ℕ} (a : A q) (h : Takes (k a) n) :
    Takes (.ask q k) (n + 1)

end Dialogue

namespace Prog

variable {C R M ε α β : Type}

/-- A run of the program sends so many pipelines, whatever it is answered and finds in its memory. -/
inductive Sends : Prog C R M ε α → ℕ → Prop
  | ret {a : α} : Sends (.ret a) 0
  | pipe {todo : List C} {got : List R} {k : Except String (List R) → Prog C R M ε α} {n : ℕ}
    (r : Except String (List R)) (h : Sends (k r) n) : Sends (.pipe todo got k) (n + 1)
  | mem {f : M → M} {k : M → Prog C R M ε α} {n : ℕ} (m : M) (h : Sends (k m) n) : Sends (.mem f k) n
  | hold {e : ε} {k : Prog C R M ε α} {n : ℕ} (h : Sends k n) : Sends (.hold e k) n

/-- What a sequence sends, its parts send. -/
theorem Sends.of_bind {p : Prog C R M ε α} {f : α → Prog C R M ε β} {n : ℕ}
    (h : (p >>= f).Sends n) : ∃ a m k, p.Sends m ∧ (f a).Sends k ∧ n = m + k := by
  change (p.bind f).Sends n at h
  induction p generalizing n with
  | ret a => exact ⟨a, 0, n, .ret, h, (Nat.zero_add n).symm⟩
  | pipe todo got k ih =>
    cases h with
    | pipe r h =>
      obtain ⟨a, m, l, hp, hf, rfl⟩ := ih r h
      exact ⟨a, m + 1, l, .pipe r hp, hf, Nat.add_right_comm m l 1⟩
  | mem g k ih =>
    cases h with
    | mem x h =>
      obtain ⟨a, m, l, hp, hf, rfl⟩ := ih x h
      exact ⟨a, m, l, .mem x hp, hf, rfl⟩
  | hold e k ih =>
    cases h with
    | hold h =>
      obtain ⟨a, m, l, hp, hf, rfl⟩ := ih h
      exact ⟨a, m, l, .hold hp, hf, rfl⟩

theorem Sends.of_ret {a : α} {n : ℕ} (h : (.ret a : Prog C R M ε α).Sends n) : n = 0 := by
  cases h
  rfl

end Prog

end Lumenia
