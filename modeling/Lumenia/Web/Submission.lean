import Mathlib.Data.Int.Notation
import Mathlib.Data.List.Infix

/-!
# Submitting and confirming

`submitOrConfirm` of `apps/web/lib/submit.ts`: one submission to Horizon, raced by reads of what the
ledger has done with the transaction. The promises settle in any order. The clock is any sequence of
readings; its first is taken when the first sleep of the reads is over.

An HTTP status between 400 and 499 is taken as a refusal that decides. A 408 decides nothing: where one is
answered for a transaction that is included afterwards, the call has reported a failure of a success.
-/

namespace Lumenia.Web.Submission

/-! ## The program -/

def giveUpMs : ℤ := 90000

/-- An error of the submission, with the status of its response if it has one. -/
structure Failure where
  status : Option ℕ
  message : String
  deriving DecidableEq

def decidedRefusal (e : Failure) : Bool :=
  match e.status with
  | some status => 400 ≤ status ∧ status < 500
  | none => false

/-- What the promise of the submission settles with. -/
inductive Answer
  | answered
  | error (e : Failure)
  deriving DecidableEq

inductive SubmitOutcome
  | landed
  | failed
  | pending
  | unknown
  deriving DecidableEq

/-- What the promise of the reads settles with. -/
inductive Verdict
  | landed
  | failed
  | undecided
  deriving DecidableEq

/-- Where the reads of the ledger are: in the first sleep, at a read, in a sleep between two, or at their
end. -/
inductive Reads
  | first
  | asking
  | sleeping
  | done (o : Verdict)
  deriving DecidableEq

inductive ConfirmedBy
  | horizon
  | ledger
  deriving DecidableEq

inductive Thrown
  | submission (e : Failure)
  | error (message : String)
  deriving DecidableEq

/-- Where the call is. `told` is the verdict of the reads that it has waited for. -/
inductive Caller
  | racing
  | awaitingLedger (e : Failure)
  | lastRace (told : Verdict)
  | resolved (hash : String) (confirmedBy : ConfirmedBy)
  | rejected (e : Thrown) (told : Option Verdict)
  deriving DecidableEq

namespace Caller

/-- `decided`: the call has settled. -/
def decided : Caller → Bool
  | resolved .. | rejected .. => true
  | racing | awaitingLedger _ | lastRace _ => false

variable (hash : String)

/-- The submission settles. -/
def onAnswer : Caller → Answer → Caller
  | racing, .answered => resolved hash .horizon
  | racing, .error e => if decidedRefusal e then rejected (.submission e) none else awaitingLedger e
  | lastRace _, .answered => resolved hash .horizon
  | lastRace told, .error e => rejected (.submission e) (some told)
  | caller, _ => caller

/-- The reads settle. -/
def onVerdict : Caller → Verdict → Caller
  | racing, .landed => resolved hash .ledger
  | racing, o => lastRace o
  | awaitingLedger _, .landed => resolved hash .ledger
  | awaitingLedger e, o => rejected (.submission e) (some o)
  | caller, _ => caller

/-- The last sleep is over. -/
def onSilence : Caller → Caller
  | lastRace told =>
    rejected (.error (if told = .failed then "transaction " ++ hash ++ " failed on the ledger"
      else "no answer from Horizon or the ledger for transaction " ++ hash)) (some told)
  | caller => caller

end Caller

/-! ## Steps -/

/-- What the ledger does with the transaction in the end. -/
inductive Ledger
  | open_
  | applied
  | excluded
  deriving DecidableEq

structure State where
  /-- How often `submit` has been called. -/
  sent : ℕ
  answer : Option Answer
  reads : Reads
  /-- How often the clock has been read. -/
  readings : ℕ
  caller : Caller
  ledger : Ledger
  deriving DecidableEq

/-- The submission has been sent, and the reads sleep. -/
def start : State := ⟨1, none, .first, 0, .racing, .open_⟩

inductive Event
  | answer (a : Answer)
  /-- A sleep of the reads is over. -/
  | wake
  /-- `none` where the read has thrown. -/
  | outcome (o : Option SubmitOutcome)
  /-- The sleep of the last race is over. -/
  | silence
  | ledger (l : Ledger)
  deriving DecidableEq

def Event.isWait : Event → Bool
  | wake | outcome _ | silence => true
  | answer _ | ledger _ => false

namespace State

variable (clock : ℕ → ℤ) (hash : String)

def settleReads (s : State) (o : Verdict) : State :=
  { s with reads := .done o, caller := s.caller.onVerdict hash o }

/-- The head of the loop: `while (!decided && d.now() < end)`. -/
def loop (s : State) : State :=
  if s.caller.decided then s.settleReads hash .undecided
  else if clock s.readings < clock 0 + giveUpMs then { s with reads := .asking, readings := s.readings + 1 }
  else { s.settleReads hash .undecided with readings := s.readings + 1 }

/-- The next state, if the event is one that can come now. -/
def step (s : State) : Event → Option State
  | .answer a =>
    if s.answer = none then some { s with answer := some a, caller := s.caller.onAnswer hash a } else none
  | .wake =>
    match s.reads with
    | .first => some ({ s with readings := 1 }.loop clock hash)
    | .sleeping => some (s.loop clock hash)
    | .asking | .done _ => none
  | .outcome o =>
    match s.reads with
    | .asking =>
      match o.getD .unknown with
      | .landed => some (s.settleReads hash .landed)
      | .failed => some (s.settleReads hash .failed)
      | .pending | .unknown => some { s with reads := .sleeping }
    | .first | .sleeping | .done _ => none
  | .silence =>
    match s.caller with
    | .lastRace _ => some { s with caller := s.caller.onSilence hash }
    | .racing | .awaitingLedger _ | .resolved .. | .rejected .. => none
  | .ledger l => if s.ledger = .open_ then some { s with ledger := l } else none

end State

/-- A success, and a read that landed or failed, are true. -/
def Truthful (s : State) : Event → Prop
  | .answer .answered => s.ledger = .applied
  | .outcome (some .landed) => s.ledger = .applied
  | .outcome (some .failed) => s.ledger = .excluded
  | _ => True

/-- Any order of events. -/
inductive Run (clock : ℕ → ℤ) (hash : String) : List Event → State → Prop
  | start : Run clock hash [] start
  | next {es : List Event} {s s' : State} {e : Event} (run : Run clock hash es s) (htrue : Truthful s e)
    (hstep : s.step clock hash e = some s') : Run clock hash (es ++ [e]) s'

def waits (es : List Event) : ℕ := es.countP Event.isWait

/-! ## What is reported -/

/-- What is right of a run up to here. -/
structure Right (clock : ℕ → ℤ) (es : List Event) (s : State) : Prop where
  sent : s.sent = 1
  resolved : ∀ hash by_, s.caller = .resolved hash by_ → s.ledger = .applied
  /-- A call is rejected after the ledger has decided, or the time for its reads is over, or on an answer
  that came when the transaction could not be included any more. -/
  rejected : ∀ e told, s.caller = .rejected e told → told = some .failed ∧ s.ledger = .excluded ∨
    (told = some .undecided ∧ ∃ n < s.readings, clock 0 + giveUpMs ≤ clock n) ∨
      ∃ f, e = .submission f ∧ s.answer = some (.error f) ∧ s.ledger = .excluded
  /-- After so many waits the call has settled, whatever the clock, if that comes to the end of the time. -/
  settled : ∀ n, clock 0 + giveUpMs ≤ clock (n + 1) → 2 * n + 2 ≤ waits es → s.caller.decided = true
  /-- Until then there is a wait that will end. -/
  waiting : s.caller.decided = false →
    s.reads = .first ∨ s.reads = .asking ∨ s.reads = .sleeping ∨ ∃ o, s.caller = .lastRace o

/-- Every refusal that is taken as one that decides is of a transaction that cannot be included. -/
def Proven (clock : ℕ → ℤ) (hash : String) (es : List Event) : Prop :=
  ∀ es' s f, es' ++ [.answer (.error f)] <+: es → Run clock hash es' s → s.caller = .racing →
    decidedRefusal f = true → s.ledger = .excluded

section

variable {clock : ℕ → ℤ} {hash : String} {es es' : List Event} {s s' : State} {e : Event} {o : Verdict}
  {caller : Caller}

theorem waits_concat : waits (es ++ [e]) = waits es + if e.isWait then 1 else 0 := by
  rw [waits, List.countP_append, List.countP_singleton]
  rfl

/-! ## An invariant -/

/-- What the call has been told. -/
structure Told (clock : ℕ → ℤ) (s : State) (o : Verdict) : Prop where
  landed : o = .landed → s.ledger = .applied
  failed : o = .failed → s.ledger = .excluded
  undecided : o = .undecided → ∃ n < s.readings, clock 0 + giveUpMs ≤ clock n

/-- The readings before `r` have been in time. -/
def Early (clock : ℕ → ℤ) (r : ℕ) : Prop := ∀ n, 0 < n → n < r → clock n < clock 0 + giveUpMs

/-- How many waits are over when the clock has been read so often. -/
def Pace (clock : ℕ → ℤ) (waits : ℕ) : Reads → ℕ → Prop
  | .first, r => waits = 0 ∧ r = 0
  | .asking, r => waits + 3 = 2 * r ∧ Early clock r
  | .sleeping, r => waits + 2 = 2 * r ∧ Early clock r
  | .done _, r => waits + 2 = 2 * r ∧ Early clock r ∨ waits + 3 = 2 * r ∧ Early clock (r - 1)

/-- What is known where the call is. -/
def Known (clock : ℕ → ℤ) (s : State) : Caller → Prop
  | .racing => s.answer = none ∧ ∀ o, s.reads ≠ .done o
  | .awaitingLedger e => s.answer = some (.error e) ∧ ∀ o, s.reads ≠ .done o
  | .lastRace o => s.answer = none ∧ s.reads = .done o ∧ o ≠ .landed ∧ Told clock s o
  | .resolved .. => s.ledger = .applied
  | .rejected e told => (∃ o, told = some o ∧ o ≠ .landed ∧ Told clock s o) ∨
    ∃ f, e = .submission f ∧ s.answer = some (.error f) ∧ s.ledger = .excluded

structure Inv (clock : ℕ → ℤ) (es : List Event) (s : State) : Prop where
  sent : s.sent = 1
  unread : s.reads = .first → s.readings = 0
  known : Known clock s s.caller
  pace : s.caller.decided = false → Pace clock (waits es) s.reads s.readings

theorem inv_start : Inv clock [] start := ⟨rfl, fun _ => rfl, ⟨rfl, nofun⟩, fun _ => ⟨rfl, rfl⟩⟩

theorem Told.mono (h : Told clock s o) (hledger : s'.ledger = s.ledger) (hreadings : s.readings ≤ s'.readings) :
    Told clock s' o where
  landed ho := hledger.trans (h.landed ho)
  failed ho := hledger.trans (h.failed ho)
  undecided ho := by
    obtain ⟨n, hn, hlate⟩ := h.undecided ho
    exact ⟨n, hn.trans_le hreadings, hlate⟩

/-- A settled call stays as it is. -/
theorem Known.decided (h : Known clock s caller) (hdecided : caller.decided = true)
    (hledger : s'.ledger = s.ledger) (hreadings : s.readings ≤ s'.readings) (hanswer : s'.answer = s.answer) :
    Known clock s' caller := by
  cases caller with
  | racing | awaitingLedger _ | lastRace _ => cases hdecided
  | resolved _ _ => exact hledger.trans h
  | rejected e told =>
    rcases h with ⟨o, htold, ho, hknown⟩ | ⟨f, hf, ha, hexcluded⟩
    · exact .inl ⟨o, htold, ho, hknown.mono hledger hreadings⟩
    · exact .inr ⟨f, hf, hanswer.trans ha, hledger.trans hexcluded⟩

theorem onVerdict_decided (h : caller.decided = true) : caller.onVerdict hash o = caller := by
  cases caller with
  | racing | awaitingLedger _ | lastRace _ => cases h
  | resolved _ _ => rfl
  | rejected _ _ => rfl

theorem Inv.answer {a : Answer} (h : Inv clock es s) (htrue : Truthful s (.answer a)) (hnone : s.answer = none)
    (hproven : ∀ f, a = .error f → s.caller = .racing → decidedRefusal f = true → s.ledger = .excluded) :
    Inv clock (es ++ [.answer a]) { s with answer := some a, caller := s.caller.onAnswer hash a } := by
  have hwaits : waits (es ++ [.answer a]) = waits es := waits_concat
  have hknown := h.known
  have hpace := h.pace
  rw [← hwaits] at hpace
  cases hcaller : s.caller with
  | racing =>
    rw [hcaller] at hknown hpace
    cases a with
    | answered => exact ⟨h.sent, h.unread, htrue, nofun⟩
    | error e =>
      by_cases hrefusal : decidedRefusal e = true
      · have hexcluded := hproven e rfl hcaller hrefusal
        rw [Caller.onAnswer, if_pos hrefusal]
        exact ⟨h.sent, h.unread, .inr ⟨e, rfl, rfl, hexcluded⟩, nofun⟩
      · rw [Caller.onAnswer, if_neg hrefusal]
        exact ⟨h.sent, h.unread, ⟨rfl, hknown.2⟩, fun _ => hpace rfl⟩
  | awaitingLedger e =>
    rw [hcaller] at hknown
    cases hnone.symm.trans hknown.1
  | lastRace o =>
    rw [hcaller] at hknown
    cases a with
    | answered => exact ⟨h.sent, h.unread, htrue, nofun⟩
    | error e => exact ⟨h.sent, h.unread, .inl ⟨o, rfl, hknown.2.2.1, hknown.2.2.2.mono rfl le_rfl⟩, nofun⟩
  | resolved hash by_ =>
    rw [hcaller] at hknown
    cases a <;> exact ⟨h.sent, h.unread, hknown, nofun⟩
  | rejected e told =>
    rw [hcaller] at hknown
    rcases hknown with ⟨o, htold, ho, hknown⟩ | ⟨f, -, ha, -⟩
    · cases a <;> exact ⟨h.sent, h.unread, .inl ⟨o, htold, ho, hknown.mono rfl le_rfl⟩, nofun⟩
    · cases hnone.symm.trans ha

/-- The reads settle while the call is waiting for them. -/
theorem Known.settles (h : Known clock s s.caller) (hdone : ∀ o, s.reads ≠ .done o) (htold : Told clock s' o)
    (hledger : s'.ledger = s.ledger) (hreadings : s.readings ≤ s'.readings) (hanswer : s'.answer = s.answer)
    (hreads : s'.reads = .done o) : Known clock s' (s.caller.onVerdict hash o) := by
  cases hcaller : s.caller with
  | racing =>
    rw [hcaller] at h
    cases o with
    | landed => exact htold.landed rfl
    | failed => exact ⟨hanswer.trans h.1, hreads, nofun, htold⟩
    | undecided => exact ⟨hanswer.trans h.1, hreads, nofun, htold⟩
  | awaitingLedger e =>
    cases o with
    | landed => exact htold.landed rfl
    | failed => exact .inl ⟨_, rfl, nofun, htold⟩
    | undecided => exact .inl ⟨_, rfl, nofun, htold⟩
  | lastRace o =>
    rw [hcaller] at h
    exact absurd h.2.1 (hdone o)
  | resolved _ _ =>
    rw [hcaller] at h
    exact h.decided rfl hledger hreadings hanswer
  | rejected _ _ =>
    rw [hcaller] at h
    exact h.decided rfl hledger hreadings hanswer

theorem Known.goesOn {reads : Reads} {readings : ℕ} (h : Known clock s s.caller)
    (hdone : ∀ o, s.reads ≠ .done o) (hnext : ∀ o, reads ≠ .done o) (hreadings : s.readings ≤ readings) :
    Known clock { s with reads := reads, readings := readings } s.caller := by
  cases hcaller : s.caller with
  | racing =>
    rw [hcaller] at h
    exact ⟨h.1, hnext⟩
  | awaitingLedger e =>
    rw [hcaller] at h
    exact ⟨h.1, hnext⟩
  | lastRace o =>
    rw [hcaller] at h
    exact absurd h.2.1 (hdone o)
  | resolved _ _ =>
    rw [hcaller] at h
    exact h.decided rfl rfl hreadings rfl
  | rejected _ _ =>
    rw [hcaller] at h
    exact h.decided rfl rfl hreadings rfl

theorem undecided_of_onVerdict : (caller.onVerdict hash o).decided = false → caller.decided = false := by
  cases caller with
  | racing | awaitingLedger _ | lastRace _ => exact fun _ => rfl
  | resolved _ _ => exact id
  | rejected _ _ => exact id

theorem inv_loop (hsent : s.sent = 1) (hknown : Known clock s s.caller) (hdone : ∀ o, s.reads ≠ .done o)
    (hpace : s.caller.decided = false → waits es + 3 = 2 * (s.readings + 1) ∧ Early clock s.readings) :
    Inv clock es (s.loop clock hash) := by
  unfold State.loop
  split
  · rename_i hdecided
    refine ⟨hsent, nofun, ?_, fun hundecided => ?_⟩
    · rw [State.settleReads, onVerdict_decided hdecided]
      exact hknown.decided hdecided rfl le_rfl rfl
    · rw [State.settleReads, onVerdict_decided hdecided, hdecided] at hundecided
      cases hundecided
  · split
    · rename_i hearly
      refine ⟨hsent, nofun, hknown.goesOn hdone nofun (Nat.le_succ _), fun hundecided => ?_⟩
      obtain ⟨hwaits, hbefore⟩ := hpace hundecided
      refine ⟨hwaits, fun n hpos hn => ?_⟩
      rcases Nat.lt_succ_iff_lt_or_eq.mp hn with hn | rfl
      · exact hbefore n hpos hn
      · exact hearly
    · rename_i hlate
      refine ⟨hsent, nofun, ?_, fun hundecided => .inr (hpace (undecided_of_onVerdict hundecided))⟩
      exact hknown.settles hdone ⟨nofun, nofun, fun _ => ⟨s.readings, Nat.lt_succ_self _, Int.not_lt.mp hlate⟩⟩
        rfl (Nat.le_succ _) rfl rfl

theorem Inv.wake (h : Inv clock es s) (hstep : s.step clock hash .wake = some s') :
    Inv clock (es ++ [.wake]) s' := by
  have hwaits : waits (es ++ [.wake]) = waits es + 1 := waits_concat
  cases hreads : s.reads with
  | first =>
    rw [State.step, hreads, Option.some.injEq] at hstep
    subst hstep
    have hzero := h.unread hreads
    have hdone : ∀ o, s.reads ≠ .done o := by
      rw [hreads]
      exact nofun
    refine inv_loop h.sent (h.known.goesOn hdone nofun (by omega)) nofun fun hundecided => ?_
    have hpace := h.pace hundecided
    rw [hreads] at hpace
    refine ⟨?_, fun n hpos hn => ?_⟩
    · rw [hwaits, hpace.1]
      rfl
    · exact absurd hn (Nat.not_lt.mpr hpos)
  | sleeping =>
    rw [State.step, hreads, Option.some.injEq] at hstep
    subst hstep
    refine inv_loop h.sent h.known (fun o hdone => ?_) fun hundecided => ?_
    · cases hreads.symm.trans hdone
    · have hpace := h.pace hundecided
      rw [hreads] at hpace
      refine ⟨?_, hpace.2⟩
      have hcount := hpace.1
      omega
  | asking =>
    rw [State.step, hreads] at hstep
    cases hstep
  | done o =>
    rw [State.step, hreads] at hstep
    cases hstep

/-- A read that decides settles the reads. -/
theorem Inv.settleReads (h : Inv clock es s) (hreads : s.reads = .asking) (hwait : e.isWait = true)
    (htold : Told clock s o) : Inv clock (es ++ [e]) (s.settleReads hash o) := by
  have hdone : ∀ o, s.reads ≠ .done o := by
    rw [hreads]
    exact nofun
  refine ⟨h.sent, nofun, h.known.settles hdone (htold.mono rfl le_rfl) rfl le_rfl rfl rfl, fun hundecided => .inl ?_⟩
  have hpace := h.pace (undecided_of_onVerdict hundecided)
  rw [hreads] at hpace
  refine ⟨?_, hpace.2⟩
  have hcount := hpace.1
  rw [waits_concat, if_pos hwait]
  change waits es + 1 + 2 = 2 * s.readings
  omega

theorem Inv.outcome {r : Option SubmitOutcome} (h : Inv clock es s) (htrue : Truthful s (.outcome r))
    (hstep : s.step clock hash (.outcome r) = some s') : Inv clock (es ++ [.outcome r]) s' := by
  cases hreads : s.reads with
  | asking =>
    have hpending : some { s with reads := .sleeping } = some s' → Inv clock (es ++ [.outcome r]) s' := by
      intro hs
      obtain rfl := Option.some.inj hs
      have hdone : ∀ o, s.reads ≠ .done o := by
        rw [hreads]
        exact nofun
      refine ⟨h.sent, nofun, h.known.goesOn hdone nofun le_rfl, fun hundecided => ?_⟩
      have hpace := h.pace hundecided
      rw [hreads] at hpace
      refine ⟨?_, hpace.2⟩
      have hcount := hpace.1
      rw [waits_concat]
      change waits es + 1 + 2 = 2 * s.readings
      omega
    rw [State.step, hreads] at hstep
    cases r with
    | none => exact hpending hstep
    | some r =>
      cases r with
      | landed =>
        obtain rfl := Option.some.inj hstep
        exact h.settleReads hreads rfl ⟨fun _ => htrue, nofun, nofun⟩
      | failed =>
        obtain rfl := Option.some.inj hstep
        exact h.settleReads hreads rfl ⟨nofun, fun _ => htrue, nofun⟩
      | pending => exact hpending hstep
      | unknown => exact hpending hstep
  | first =>
    rw [State.step, hreads] at hstep
    cases hstep
  | sleeping =>
    rw [State.step, hreads] at hstep
    cases hstep
  | done o =>
    rw [State.step, hreads] at hstep
    cases hstep

theorem Inv.silence (h : Inv clock es s) (hstep : s.step clock hash .silence = some s') :
    Inv clock (es ++ [.silence]) s' := by
  cases hcaller : s.caller with
  | lastRace o =>
    rw [State.step, hcaller] at hstep
    obtain rfl := Option.some.inj hstep
    have hknown := h.known
    rw [hcaller] at hknown
    exact ⟨h.sent, h.unread, .inl ⟨o, rfl, hknown.2.2.1, hknown.2.2.2.mono rfl le_rfl⟩, nofun⟩
  | racing | awaitingLedger _ | resolved _ _ | rejected _ _ =>
    rw [State.step, hcaller] at hstep
    cases hstep

/-- Nothing is known yet of a transaction that is open. -/
theorem Inv.ledger {l : Ledger} (h : Inv clock es s) (hopen : s.ledger = .open_) :
    Inv clock (es ++ [.ledger l]) { s with ledger := l } := by
  have hwaits : waits (es ++ [.ledger l]) = waits es := waits_concat
  have htold : ∀ o, Told clock s o → Told clock { s with ledger := l } o := by
    intro o hknown
    refine ⟨fun ho => ?_, fun ho => ?_, hknown.undecided⟩
    · cases hopen.symm.trans (hknown.landed ho)
    · cases hopen.symm.trans (hknown.failed ho)
  refine ⟨h.sent, h.unread, ?_, hwaits ▸ h.pace⟩
  have hknown := h.known
  change Known clock { s with ledger := l } s.caller
  cases hcaller : s.caller with
  | racing =>
    rw [hcaller] at hknown
    exact hknown
  | awaitingLedger e =>
    rw [hcaller] at hknown
    exact hknown
  | lastRace o =>
    rw [hcaller] at hknown
    exact ⟨hknown.1, hknown.2.1, hknown.2.2.1, (htold o hknown.2.2.2).mono rfl le_rfl⟩
  | resolved _ _ =>
    rw [hcaller] at hknown
    cases hopen.symm.trans hknown
  | rejected e told =>
    rw [hcaller] at hknown
    rcases hknown with ⟨o, ho, hne, hknown⟩ | ⟨f, -, -, hexcluded⟩
    · exact .inl ⟨o, ho, hne, (htold o hknown).mono rfl le_rfl⟩
    · cases hopen.symm.trans hexcluded

/-- Each step keeps the invariant, unless a refusal that proves nothing ends the call. -/
theorem Inv.step (h : Inv clock es s) (htrue : Truthful s e) (hstep : s.step clock hash e = some s')
    (hproven : ∀ f, e = .answer (.error f) → s.caller = .racing → decidedRefusal f = true →
      s.ledger = .excluded) : Inv clock (es ++ [e]) s' := by
  cases e with
  | answer a =>
    rw [State.step] at hstep
    split at hstep
    · rename_i hnone
      obtain rfl := Option.some.inj hstep
      exact h.answer htrue hnone fun f hf => hproven f (hf ▸ rfl)
    · cases hstep
  | wake => exact h.wake hstep
  | outcome r => exact h.outcome htrue hstep
  | silence => exact h.silence hstep
  | ledger l =>
    rw [State.step] at hstep
    split at hstep
    · rename_i hopen
      obtain rfl := Option.some.inj hstep
      exact h.ledger hopen
    · cases hstep

theorem Proven.before {es₁ es₂ : List Event} (h : Proven clock hash (es₁ ++ es₂)) : Proven clock hash es₁ :=
  fun es' s f hpart => h es' s f (hpart.trans (List.prefix_append ..))

theorem Run.inv (hrun : Run clock hash es s) (hproven : Proven clock hash es) : Inv clock es s := by
  induction hrun with
  | start => exact inv_start
  | @next es s s' e run htrue hstep ih =>
    refine (ih hproven.before).step htrue hstep fun f hf => ?_
    exact hproven es s f (hf ▸ List.prefix_rfl) run

/-- What the invariant says of the call. -/
theorem Inv.right (h : Inv clock es s) : Right clock es s := by
  have hknown := h.known
  refine ⟨h.sent, fun hash by_ hcaller => ?_, fun e told hcaller => ?_, fun n hend hlong => ?_, fun hundecided => ?_⟩
  · rw [hcaller] at hknown
    exact hknown
  · rw [hcaller] at hknown
    rcases hknown with ⟨o, rfl, hne, hknown⟩ | hanswer
    · cases o with
      | landed => exact absurd rfl hne
      | failed => exact .inl ⟨rfl, hknown.failed rfl⟩
      | undecided => exact .inr (.inl ⟨rfl, hknown.undecided rfl⟩)
    · exact .inr (.inr hanswer)
  · by_contra hundecided
    have hpace := h.pace (Bool.eq_false_iff.mpr hundecided)
    have hreadings : ∀ r, Early clock r → r ≤ n + 1 := by
      intro r hearly
      by_contra hlt
      exact absurd (hearly (n + 1) (Nat.succ_pos n) (by omega)) (Int.not_lt.mpr hend)
    cases hreads : s.reads with
    | first =>
      rw [hreads] at hpace
      have hcount := hpace.1
      omega
    | asking =>
      rw [hreads] at hpace
      have hcount := hpace.1
      have hle := hreadings _ hpace.2
      omega
    | sleeping =>
      rw [hreads] at hpace
      have hcount := hpace.1
      have hle := hreadings _ hpace.2
      omega
    | done o =>
      rw [hreads] at hpace
      rcases hpace with ⟨hcount, hearly⟩ | ⟨hcount, hearly⟩
      · have hle := hreadings _ hearly
        omega
      · have hle := hreadings _ hearly
        omega
  · cases hreads : s.reads with
    | first => exact .inl rfl
    | asking => exact .inr (.inl rfl)
    | sleeping => exact .inr (.inr (.inl rfl))
    | done o =>
      refine .inr (.inr (.inr ?_))
      cases hcaller : s.caller with
      | racing =>
        rw [hcaller] at hknown
        exact absurd hreads (hknown.2 o)
      | awaitingLedger e =>
        rw [hcaller] at hknown
        exact absurd hreads (hknown.2 o)
      | lastRace o' => exact ⟨o', rfl⟩
      | resolved _ _ | rejected _ _ =>
        rw [hcaller] at hundecided
        cases hundecided

theorem run_concat : Run clock hash (es ++ [e]) s' ↔
    ∃ s, Run clock hash es s ∧ Truthful s e ∧ s.step clock hash e = some s' := by
  constructor
  · intro h
    generalize hes : es ++ [e] = es₁ at h
    cases h with
    | start => cases List.append_eq_nil_iff.mp hes |>.2
    | next run htrue hstep =>
      obtain ⟨rfl, he⟩ := List.append_inj' hes rfl
      obtain rfl := List.singleton_inj.mp he
      exact ⟨_, run, htrue, hstep⟩
  · rintro ⟨s, run, htrue, hstep⟩
    exact .next run htrue hstep

/-- The events of a run are those of one run. -/
theorem Run.unique {t : State} (h : Run clock hash es s) (h' : Run clock hash es t) : s = t := by
  induction h generalizing t with
  | start =>
    generalize hes : [] = es₁ at h'
    cases h' with
    | start => rfl
    | next _ _ _ => cases List.append_eq_nil_iff.mp hes.symm |>.2
  | next _ _ hstep ih =>
    obtain ⟨s₁, run₁, -, hstep₁⟩ := run_concat.mp h'
    obtain rfl := ih run₁
    exact Option.some.inj (hstep.symm.trans hstep₁)

theorem Run.upTo (h : Run clock hash es s) {rest : List Event} (hes : es' ++ rest = es) :
    ∃ s', Run clock hash es' s' := by
  induction h generalizing rest with
  | start =>
    obtain rfl := (List.append_eq_nil_iff.mp hes).1
    exact ⟨_, .start⟩
  | @next es s s' e run htrue hstep ih =>
    rcases List.eq_nil_or_concat rest with rfl | ⟨rest, last, rfl⟩
    · rw [List.append_nil] at hes
      exact ⟨s', hes ▸ run.next htrue hstep⟩
    · rw [List.concat_eq_append, ← List.append_assoc] at hes
      exact ih (List.append_inj' hes rfl).1

/-- **Only what is decided is reported**, if and only if the refusals that are taken as decided are so. -/
theorem reports_decided_iff (hrun : Run clock hash es s) :
    (∀ es' s', es' <+: es → Run clock hash es' s' → Right clock es' s') ↔ Proven clock hash es := by
  constructor
  · rintro hright es' s' f ⟨rest, hrest⟩ hrun' hracing hrefusal
    obtain ⟨s₁, hrun₁⟩ := hrun.upTo hrest
    obtain ⟨s₀, hrun₀, -, hstep⟩ := run_concat.mp hrun₁
    obtain rfl := hrun'.unique hrun₀
    have hright₁ := (hright _ s₁ ⟨rest, hrest⟩ hrun₁).rejected (.submission f) none
    rw [State.step] at hstep
    split at hstep
    · obtain rfl := Option.some.inj hstep
      rw [hracing, Caller.onAnswer, if_pos hrefusal] at hright₁
      rcases hright₁ rfl with ⟨htold, -⟩ | ⟨htold, -⟩ | ⟨-, -, -, hexcluded⟩
      · cases htold
      · cases htold
      · exact hexcluded
    · cases hstep
  · rintro hproven es' s' ⟨rest, rfl⟩ hrun'
    exact (hrun'.inv hproven.before).right

end

/-! ## A lost reply -/

namespace Demo

/-- A gateway gives up waiting, and the transaction is included a moment later. -/
def timedOut : List Event := [.answer (.error ⟨some 408, "Request Timeout"⟩), .ledger .applied]

def reported : State :=
  ⟨1, some (.error ⟨some 408, "Request Timeout"⟩), .first, 0,
    .rejected (.submission ⟨some 408, "Request Timeout"⟩) none, .applied⟩

theorem run_timedOut : Run (fun n => n) "h" timedOut reported := by
  change Run _ _ ([] ++ [_] ++ [_]) _
  exact .next (.next .start trivial rfl) trivial rfl

/-- A read finds nothing, and then the time is over. -/
def exhausted : List Event :=
  [.answer (.error ⟨none, "fetch failed"⟩), .wake, .outcome (some .pending), .wake]

def givenUp : State :=
  ⟨1, some (.error ⟨none, "fetch failed"⟩), .done .undecided, 3,
    .rejected (.submission ⟨none, "fetch failed"⟩) (some .undecided), .open_⟩

theorem run_exhausted : Run (fun n => 50000 * n) "h" exhausted givenUp := by
  change Run _ _ ([] ++ [_] ++ [_] ++ [_] ++ [_]) _
  exact .next (.next (.next (.next .start trivial rfl) trivial rfl) trivial rfl) trivial (by decide +kernel)

end Demo

theorem timeout_reported : Run (fun n => n) "h" Demo.timedOut Demo.reported ∧
    ¬Right (fun n => n) Demo.timedOut Demo.reported := by
  refine ⟨Demo.run_timedOut, fun h => ?_⟩
  rcases h.rejected _ _ rfl with ⟨htold, -⟩ | ⟨htold, -⟩ | ⟨-, -, -, hledger⟩
  · cases htold
  · cases htold
  · cases hledger

theorem reports_decided_iff_exhausted :
    (∀ es' s', es' <+: Demo.exhausted → Run (fun n => 50000 * n) "h" es' s' →
      Right (fun n => 50000 * n) es' s') ↔ Proven (fun n => 50000 * n) "h" Demo.exhausted :=
  reports_decided_iff Demo.run_exhausted

end Lumenia.Web.Submission
