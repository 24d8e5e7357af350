import Lumenia.Contracts.Host

/-!
# The journal of a record

Out of the history of a run, `journal` keeps the accepted calls that address one record, oldest
first, each with the moment it came at and the receipt it left. `journal_induction` is the rule for
what a run does to one record: a call that addresses it extends its journal, everything else leaves
it alone.
-/

namespace Lumenia.Soroban

/-- An accepted call. -/
structure Entry (Address Op ev : Type) where
  ctx : Ctx Address
  op : Op
  receipt : Receipt Address ev

variable {Address Op κ ε ev : Type}

def accepted : Input Address Op × Except (Fault ε) (Receipt Address ev) →
    Option (Entry Address Op ev)
  | (.call c op, .ok r) => some ⟨c, op, r⟩
  | _ => none

variable [DecidableEq κ] (key : Op → Option κ) (k : κ)

def journal (h : List (Input Address Op × Except (Fault ε) (Receipt Address ev))) :
    List (Entry Address Op ev) :=
  (h.filterMap accepted).filter fun e => key e.op = some k

variable {key k} {h : List (Input Address Op × Except (Fault ε) (Receipt Address ev))}

@[simp] theorem journal_nil :
    journal key k ([] : List (Input Address Op × Except (Fault ε) (Receipt Address ev))) = [] := rfl

theorem journal_concat_ok {c : Ctx Address} {op : Op} {r : Receipt Address ev} :
    journal key k (h ++ [(.call c op, .ok r)]) =
      journal key k h ++ if key op = some k then [⟨c, op, r⟩] else [] := by
  simp [journal, accepted, List.filter_cons]

theorem journal_concat_error {i : Input Address Op} {f : Fault ε} :
    journal key k (h ++ [(i, .error f)]) = journal key k h := by
  cases i <;> simp [journal, accepted]

theorem journal_concat_outside {src dst : Address} {n : ℕ}
    {o : Except (Fault ε) (Receipt Address ev)} :
    journal key k (h ++ [(.outside src dst n, o)]) = journal key k h := by
  cases o <;> simp [journal, accepted]

variable [DecidableEq Address] {env : Env Address} {κ' : Type} {Val : κ' → Type}
  {G : Governance Address}
  {invoke : Ctx Address → Op → World Address Val G.State →
    Except (Fault ε) (World Address Val G.State × Receipt Address ev)}
  {opening : World Address Val G.State} {S : World Address Val G.State → Prop}
  {L : List (Entry Address Op ev) → World Address Val G.State → Prop}

/-- An accepted call of a run was accepted at a world that keeps `S`. -/
theorem accepted_of_mem_history (init : S opening)
    (keep : ∀ {w i}, S w → S (step env invoke w i).1) {is : List (Input Address Op)}
    {c : Ctx Address} {op : Op} {r : Receipt Address ev}
    (h : (.call c op, .ok r) ∈ (ledger env invoke opening).history is) :
    ∃ w w', S w ∧ invoke c op w = .ok (w', r) := by
  refine (Machine.invariant (m := ledger env invoke opening)
    (P := fun h w => S w ∧ ((.call c op, .ok r) ∈ h → ∃ w w', S w ∧ invoke c op w = .ok (w', r)))
    ⟨init, fun h => nomatch h⟩ ?_ is).2 h
  rintro h w i ⟨hw, ih⟩
  refine ⟨keep hw, fun hmem => ?_⟩
  obtain hmem | hlast := List.mem_append.mp hmem
  · exact ih hmem
  · obtain ⟨rfl, hout⟩ := Prod.mk.inj (List.mem_singleton.mp hlast)
    change .ok r = (step env invoke w (.call c op)).2 at hout
    cases hinv : invoke c op w with
    | error f => simp [step_call_error hinv] at hout
    | ok x =>
      rw [step_call_ok hinv, Except.ok.injEq] at hout
      exact ⟨w, x.1, hw, by rw [hinv, hout]⟩

/-- The life of the record `k`, along a run that keeps `S`. -/
theorem journal_induction (init : S opening)
    (keep : ∀ {w i}, S w → S (step env invoke w i).1) (unused : L [] opening)
    (outside : ∀ {j w b}, L j w → L j { w with balance := b })
    (other : ∀ {j w c op w' r}, S w → invoke c op w = .ok (w', r) → key op ≠ some k → L j w →
      L j w')
    (mine : ∀ {j w c op w' r}, S w → invoke c op w = .ok (w', r) → key op = some k → L j w →
      L (j ++ [⟨c, op, r⟩]) w') (is : List (Input Address Op)) :
    L (journal key k ((ledger env invoke opening).history is))
      ((ledger env invoke opening).final is) := by
  refine (Machine.invariant (m := ledger env invoke opening)
    (P := fun h w => S w ∧ L (journal key k h) w) ⟨init, unused⟩ ?_ is).2
  rintro h w i ⟨hw, ih⟩
  refine ⟨keep hw, ?_⟩
  change L (journal key k (h ++ [(i, (step env invoke w i).2)])) (step env invoke w i).1
  cases i with
  | outside src dst n =>
    rw [journal_concat_outside]
    simp only [step]
    split
    · exact ih
    · exact outside ih
  | call c op =>
    cases hinv : invoke c op w with
    | error f =>
      rw [step_call_error hinv, journal_concat_error]
      exact ih
    | ok x =>
      rw [step_call_ok hinv, journal_concat_ok]
      split
      · exact mine hw hinv ‹_› ih
      · rw [List.append_nil]
        exact other hw hinv ‹_› ih

end Lumenia.Soroban
