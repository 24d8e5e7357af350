import Lumenia.Sponsor.Pilot
import Lumenia.Theory.Calls

/-!
# What the calls over the pilot meet

One store with its clock, which executes their commands one by one. The mailer, the limiter, the codes
and the rows of the backups answer as they like, and so does what an operation comes to.
-/

namespace Lumenia.Sponsor.Pilot

open Dialogue

structure Store where
  now : ℕ
  cells : Cells Key.Entry
  /-- How often each counter has been put back to 0 by a SET. -/
  resets : String → ℕ

namespace Store

variable (s : Store)

/-- How much of its budget a wallet has used. -/
def used (pubkey : String) : ℤ := (s.cells.get s.now (.tx pubkey)).getD (0 : ℤ)

/-- INCR or DECR: a counter that is missing starts from 0. -/
def count (fate : Cells.Fate) (pubkey : String) (n : ℤ) : Except String ℤ × Store :=
  let counted := { s with cells := s.cells.set (.tx pubkey) (s.used pubkey + n) none }
  match fate with
  | .done => (.ok (s.used pubkey + n), counted)
  | .lost message => (.error message, counted)
  | .failed message => (.error message, s)

def resetsAfter (fate : Cells.Fate) : Command → String → ℕ
  | .set (.tx pubkey) _ _ =>
    if fate.executes then Function.update s.resets pubkey (s.resets pubkey + 1) else s.resets
  | _ => s.resets

/-- Time goes by. -/
def Passes (s s' : Store) : Prop := s.now ≤ s'.now ∧ s' = { s with now := s'.now }

end Store

/-- What becomes of a question. -/
structure Chance where
  fate : Cells.Fate
  /-- The operation has happened, or may yet. -/
  happens : Bool
  /-- What is answered by others than the store. -/
  answer : (q : Ask) → q.Answer

def react (d : Chance) (s : Store) : (q : Ask) → q.Answer × Store
  | .run c => ((d.fate.exec s.now s.cells c).1,
    { s with cells := (d.fate.exec s.now s.cells c).2, resets := s.resetsAfter d.fate c })
  | .incr pubkey => s.count d.fate pubkey 1
  | .decr pubkey => s.count d.fate pubkey (-1)
  | q => (d.answer q, s)

section

variable {d : Chance} {s : Store} {c : Command} {pubkey : String} {n : ℤ} {fate : Cells.Fate}

@[simp] theorem react_run_cells :
    (react d s (.run c)).2.cells = (d.fate.exec s.now s.cells c).2 := rfl

@[simp] theorem react_run_resets : (react d s (.run c)).2.resets = s.resetsAfter d.fate c := rfl

@[simp] theorem react_run_now : (react d s (.run c)).2.now = s.now := rfl

@[simp] theorem react_get {k : Key} : (react d s (.run (.get k))).2 = s := by
  change ({ s with cells := (d.fate.exec s.now s.cells (.get k)).2 } : Store) = s
  rw [Cells.Fate.exec_get]

@[simp] theorem count_now : (s.count fate pubkey n).2.now = s.now := by cases fate <;> rfl

@[simp] theorem count_resets : (s.count fate pubkey n).2.resets = s.resets := by cases fate <;> rfl

theorem count_cells : (s.count fate pubkey n).2.cells =
    if fate.executes then s.cells.set (.tx pubkey) (s.used pubkey + n) none else s.cells := by
  cases fate <;> rfl

end

/-- No other questions are asked of this one: the operation comes to `outcome`, and happens where it
returns; all else fails. -/
def Chance.plain (fate : Cells.Fate) (outcome : Except Failure Unit) : Chance where
  fate
  happens := outcome.isOk
  answer
    | .run _ => .error "store"
    | .incr _ | .decr _ => .error "store"
    | .operate => outcome
    | .mailOwner .. => false
    | .now => (0 : ℕ)
    | .enforceRateLimit => none
    | .rememberProof .. => .error "store"
    | .verifyOtp .. => .error "store"
    | .ownerHash _ => .error "store"

/-! ## What is asked -/

section

variable {α : Type} {K : Ask → Prop} {commands : List Command}

theorem asks_orThrow {r : Except String α} : (orThrow r).Asks K := by
  cases r with
  | ok a => exact asks_pure
  | error message => exact asks_throw

theorem asks_sendAll (h : ∀ c ∈ commands, K (.run c)) : (sendAll commands).Asks K := by
  induction commands with
  | nil => exact asks_pure
  | cons c commands ih =>
    obtain ⟨hc, hcommands⟩ := List.forall_mem_cons.mp h
    refine Asks.bind (asks_question hc) fun result => (ih hcommands).bind fun failed => ?_
    cases result with
    | error message => exact asks_pure
    | ok a => exact asks_pure

theorem asks_pipe (h : ∀ c ∈ commands, K (.run c)) : (pipe commands).Asks K := by
  refine (asks_sendAll h).bind fun failed => ?_
  cases failed with
  | some message => exact asks_throw
  | none => exact asks_pure

end

end Lumenia.Sponsor.Pilot
