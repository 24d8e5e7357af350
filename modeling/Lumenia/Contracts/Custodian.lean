import Lumenia.Contracts.Host

/-!
# Contracts that keep money for their records

A contract whose records owe money is a `Custody` of its own account. Once each step of its ledger
is shown to be the custody move that the receipt of the step describes (`moveOf`), the balance after
a run is what the records owe plus what strayed into the contract over the history
(`final_custody`).
-/

namespace Lumenia.Soroban

variable {Address : Type} [DecidableEq Address] {κ : Type} [DecidableEq κ] {Val : κ → Type}
  {G : Governance Address} {Op ε ev : Type} (env : Env Address) (owed : ∀ k, Val k → ℤ)

/-- What all records together owe. -/
def escrowed (w : World Address Val G.State) : ℤ := w.storage.total owed

/-- The custody a world stands for. -/
def custody (w : World Address Val G.State) : Custody Address := ⟨escrowed owed w, w.balance⟩

/-- The custody move that one step of the ledger is, by its receipt. -/
def moveOf : Input Address Op → Except (Fault ε) (Receipt Address ev) → Custody.Move Address
  | .outside src dst n, .ok _ => .outside src dst n
  | .call _ _, .ok ⟨[t], _⟩ =>
    if t.src = env.contract then .pay t.dst t.amount else .fund t.src t.amount
  | _, _ => .idle

/-- What came to the contract beyond its records over a history. -/
def strays (h : List (Input Address Op × Except (Fault ε) (Receipt Address ev))) : ℤ :=
  (h.map fun x => (moveOf env x.1 x.2).stray env.contract).sum

/-- No transfer into the contract other than its own calls'. -/
def NoGift : Input Address Op → Prop
  | .outside _ dst _ => dst ≠ env.contract
  | .call .. => True

variable {env owed}

omit [DecidableEq κ] in
@[simp] theorem moveOf_error {i : Input Address Op} {f : Fault ε} :
    moveOf env i (.error f : Except _ (Receipt Address ev)) = .idle := by
  cases i <;> rfl

omit [DecidableEq κ] in
/-- A call strays what it pays to the contract out of the contract. -/
theorem stray_call {c : Ctx Address} {op : Op} {t : Transfer Address} {evs : List ev} :
    (moveOf env (.call c op) (.ok ⟨[t], evs⟩ : Except (Fault ε) _)).stray env.contract =
      if t.src = env.contract ∧ t.dst = env.contract then t.amount else 0 := by
  by_cases hsrc : t.src = env.contract <;> simp [moveOf, hsrc, Custody.Move.stray]

@[simp] theorem strays_nil :
    strays env ([] : List (Input Address Op × Except (Fault ε) (Receipt Address ev))) = 0 := rfl

theorem strays_concat {h : List (Input Address Op × Except (Fault ε) (Receipt Address ev))}
    {x : Input Address Op × Except (Fault ε) (Receipt Address ev)} :
    strays env (h ++ [x]) = strays env h + (moveOf env x.1 x.2).stray env.contract := by
  simp [strays]

variable {w : World Address Val G.State}
  {invoke : Ctx Address → Op → World Address Val G.State →
    Except (Fault ε) (World Address Val G.State × Receipt Address ev)}
  {opening : World Address Val G.State} {S : World Address Val G.State → Prop}

/-- One step is one honest move of the custody. -/
def Simulates (env : Env Address) (owed : ∀ k, Val k → ℤ)
    (invoke : Ctx Address → Op → World Address Val G.State →
      Except (Fault ε) (World Address Val G.State × Receipt Address ev))
    (w : World Address Val G.State) (i : Input Address Op) : Prop :=
  (moveOf env i (step env invoke w i).2).Honest env.contract ∧
    custody owed (step env invoke w i).1 =
      (custody owed w).apply env.contract (moveOf env i (step env invoke w i).2)

/-- Steps that are not accepted calls are moves of the custody whatever the contract. -/
theorem simulates_of_ok {i : Input Address Op}
    (h : ∀ {c op w' r}, i = .call c op → invoke c op w = .ok (w', r) →
      (moveOf env i (.ok r : Except (Fault ε) _)).Honest env.contract ∧
        custody owed w' = (custody owed w).apply env.contract (moveOf env i (.ok r : Except (Fault ε) _))) :
    Simulates env owed invoke w i := by
  cases i with
  | outside src dst n =>
    simp only [Simulates, step]
    split
    · exact ⟨trivial, rfl⟩
    · rename_i hne
      exact ⟨⟨hne, Int.natCast_nonneg n⟩, rfl⟩
  | call c op =>
    cases hinv : invoke c op w with
    | error f =>
      rw [Simulates, step_call_error hinv, moveOf_error]
      exact ⟨trivial, rfl⟩
    | ok x =>
      rw [Simulates, step_call_ok hinv]
      exact h rfl hinv

/-- Every reachable world keeps `S`, and holds what its records owe plus what strayed into it. -/
theorem final_custody (init : S opening) (keep : ∀ {w i}, S w → S (step env invoke w i).1)
    (sim : ∀ {w i}, S w → Simulates env owed invoke w i) (is : List (Input Address Op)) :
    let m := ledger env invoke opening
    S (m.final is) ∧ 0 ≤ strays env (m.history is) ∧
      (m.final is).balance env.contract = escrowed owed (m.final is) +
        (opening.balance env.contract - escrowed owed opening) + strays env (m.history is) := by
  refine Machine.invariant (m := ledger env invoke opening)
    (P := fun h s => S s ∧ 0 ≤ strays env h ∧ s.balance env.contract = escrowed owed s +
      (opening.balance env.contract - escrowed owed opening) + strays env h)
    ⟨init, le_rfl, ?_⟩ ?_ is
  · simp [ledger]
  · rintro h s i ⟨hs, hnonneg, hsum⟩
    obtain ⟨hon, hstep⟩ := sim (i := i) hs
    have hstray : 0 ≤ (moveOf env i (step env invoke s i).2).stray env.contract :=
      Custody.Move.stray_nonneg hon
    have hsurplus := congrArg (Custody.surplus env.contract) hstep
    rw [Custody.surplus_apply hon] at hsurplus
    simp only [custody, Custody.surplus] at hsurplus
    rw [strays_concat]
    refine ⟨keep hs, add_nonneg hnonneg hstray, ?_⟩
    change (step env invoke s i).1.balance _ = escrowed owed (step env invoke s i).1 + _ +
      (_ + (moveOf env i (step env invoke s i).2).stray _)
    omega

end Lumenia.Soroban
