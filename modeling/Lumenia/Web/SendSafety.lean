import Lumenia.Web.Send

/-!
# A send that failed cannot land

Time passes between the steps of a send, and somewhere in it the ledger includes the signed
transaction, or never does. A sender who is told of a failure must be able to send again: the
transaction has not been applied and never will be. `failed_send_final_iff` says when that is so. It
goes wrong where an answer that decides nothing is taken for a refusal, where a body that cannot be
read is, and where the ledger is read before it includes the transaction and the clock is only read
after the time for that has run out.
-/

namespace Lumenia.Web

open Dialogue

/-! ## The ledger and the time -/

/-- What becomes of the signed transaction, at a close time in Unix seconds. -/
inductive Inclusion
  | never
  | failed (closeTime : ℕ)
  | applied (closeTime : ℕ)

namespace Inclusion

/-- The record of the transaction at a moment, in Unix ms. -/
def record (i : Inclusion) (now : ℕ) : Option Bool :=
  match i with
  | never => none
  | failed closeTime => if closeTime * 1000 ≤ now then some false else none
  | applied closeTime => if closeTime * 1000 ≤ now then some true else none

/-- The transaction is applied, at some time. -/
def Applies (i : Inclusion) : Prop := ∃ closeTime, i = applied closeTime

end Inclusion

/-- An answer with this status is only produced when nothing was submitted. -/
def nothingSubmitted (status : ℕ) : Bool :=
  (400 ≤ status && status < 500 && status ≠ 408) || status = 503

abbrev History := List (Event Ask.Answer)

/-- A step, from its beginning to its answer. -/
structure Entry where
  start : ℕ
  stop : ℕ
  event : Event Ask.Answer

structure Moment where
  now : ℕ
  seen : List Entry

def Moment.events (w : Moment) : History := w.seen.map Entry.event

/-- The network that transactions are sent to. -/
structure Network where
  /-- The hash of the transaction in an envelope. -/
  hashOf : String → String
  /-- What becomes of a transaction, by its hash. -/
  ledger : String → Inclusion
  /-- The deposit that makes the record of a link, by its hash. -/
  deposit : View → String → Option String

/-- The escrow has a record of the link. -/
def Network.Holds (n : Network) (view : View) (linkHex : String) (now : ℕ) : Prop :=
  ∃ hash ∈ n.deposit view linkHex, (n.ledger hash).record now = some true

/-- What an answer tells is true of some moment of the step: of the transaction that was posted, of the
record of the link in the view that was asked, or of the transaction whose hash was asked for. -/
def Truthful (n : Network) (start stop : ℕ) : (q : Ask) → q.Answer → Prop
  | .post _ body, .ok status => nothingSubmitted status = true →
    ∀ xdr, ("xdr", .str xdr) ∈ body → n.ledger (n.hashOf xdr) = .never
  | .readView view linkHex, .ok found =>
    ∃ now, start ≤ now ∧ now ≤ stop ∧ (found = true ↔ n.Holds view linkHex now)
  | .loadTransfer hash, .ok record =>
    ∃ now, start ≤ now ∧ now ≤ stop ∧ record = (n.ledger hash).record now
  | .clock, now => start ≤ now ∧ now ≤ stop
  | _, _ => True

/-- One step of a send. -/
def passes (n : Network) (w : Moment) (q : Ask) (a : q.Answer) (w' : Moment) : Prop :=
  w.now ≤ w'.now ∧ w'.seen = w.seen ++ [⟨w.now, w'.now, ⟨q, a⟩⟩] ∧ Truthful n w.now w'.now q a

/-! ## Sends -/

/-- The three ways to send. -/
inductive Send
  | v2Link (p : PreparedDeposit) (sender : String)
  | v2GroupLink (p : PreparedDeposit) (sender perShare : String) (slots : ℕ) (total : String)
  | payout (input : PayoutInput)

def Send.tx : Send → SignedTransaction
  | v2Link p _ | v2GroupLink p .. => p.tx
  | payout input => input.tx

def Send.run : Send → Sending Unit
  | v2Link p sender => do let _ ← createV2Link p sender
  | v2GroupLink p sender perShare slots total => do
    let _ ← createV2GroupLink p sender perShare slots total
  | payout input => do let _ ← sendOut input

/-- The hash of what is sent is that of its envelope; and what a deposit makes is the record of its link. -/
structure Send.On (n : Network) (s : Send) : Prop where
  hash : n.hashOf s.tx.xdr = s.tx.hash
  deposit : match s with
    | v2Link p _ => n.deposit .getDrop p.linkHex = some p.tx.hash
    | v2GroupLink p .. => n.deposit .getPool p.linkHex = some p.tx.hash
    | payout _ => True

/-- A failure is told only of a transaction that is never applied. -/
def FailureIsFinal (i : Inclusion) (r : Except SendError Unit) : Prop :=
  ∀ e, r = .error e → e.isUncertain = false → ¬i.Applies

/-! ## Where it goes wrong -/

/-- The status of the answer, and what reading its body gave. -/
def Answered (h : History) (status : ℕ) (body : Except String String) : Prop :=
  (∃ route request, ⟨.post route request, .ok status⟩ ∈ h) ∧ ⟨.text, body⟩ ∈ h

/-- A status that is neither a success nor a refusal. -/
def opaqueStatus (status : ℕ) : Bool := !isOk status && !nothingSubmitted status

/-- The clock was read after the deadline. -/
def PastDeadline (tx : SignedTransaction) (h : History) : Prop :=
  ∃ now, ⟨.clock, now⟩ ∈ h ∧ retrySafe tx.retrySafeAfter now = true

/-- A deposit's answer is taken for a refusal: an opaque status, or a body that is lost or cannot be
read (after a 202, once the escrow has shown the deposit). -/
def DepositMisread (view : View) (p : PreparedDeposit) (h : History) : Prop :=
  (∃ status message, Answered h status (.error message)) ∨
    (∃ status text, Answered h status (.ok text) ∧ opaqueStatus status = true) ∨
    ∃ status text, Answered h status (.ok text) ∧ isOk status = true ∧
      readHash text = .error .malformed ∧ (status = 202 → ⟨.readView view p.linkHex, .ok true⟩ ∈ h)

/-- A payment's answer is taken for a refusal: an opaque status that is not on the list, or a success
whose body cannot be read. -/
def PayoutMisread (h : History) : Prop :=
  ∃ status text, Answered h status (.ok text) ∧ decidesNothing status text = false ∧
    (opaqueStatus status = true ∨ isOk status = true ∧ Json.parse text = none)

def Send.Misread : Send → History → Prop
  | v2Link p _ => DepositMisread .getDrop p
  | v2GroupLink p .. => DepositMisread .getPool p
  | payout _ => PayoutMisread

/-- The ledger shows nothing of the link, or of the payment. -/
def Send.showsNothing : Send → Event Ask.Answer
  | v2Link p _ => ⟨.readView .getDrop p.linkHex, .ok false⟩
  | v2GroupLink p .. => ⟨.readView .getPool p.linkHex, .ok false⟩
  | payout input => ⟨.loadTransfer input.tx.hash, .ok none⟩

/-- The ledger was read while it did not have the transaction, and the clock after the deadline. -/
def Send.ReadsTooEarly (n : Network) (s : Send) (w : Moment) : Prop :=
  (∃ e ∈ w.seen, e.event = s.showsNothing ∧ ∃ now, e.start ≤ now ∧ now ≤ e.stop ∧
    (n.ledger s.tx.hash).record now ≠ some true) ∧ PastDeadline s.tx w.events

def Send.Misjudges (n : Network) (s : Send) (w : Moment) : Prop :=
  s.ReadsTooEarly n w ∨ s.Misread w.events

/-! ## Every run -/

section

variable {n : Network} {i : Inclusion} {h : History} {α : Type}

/-- What is used of the truth of an answer. -/
def Fair (n : Network) : (q : Ask) → q.Answer → Prop
  | .post _ body, .ok status => nothingSubmitted status = true →
    ∀ xdr, ("xdr", .str xdr) ∈ body → ¬(n.ledger (n.hashOf xdr)).Applies
  | .loadTransfer hash, .ok (some false) => ¬(n.ledger hash).Applies
  | _, _ => True

theorem Truthful.fair {start stop : ℕ} {q : Ask} {a : q.Answer} (ht : Truthful n start stop q a) :
    Fair n q a := by
  cases q with
  | post route request =>
    cases a with
    | error u => trivial
    | ok status =>
      intro hnothing xdr hxdr happlies
      obtain ⟨c, hc⟩ := happlies
      cases (ht hnothing xdr hxdr).symm.trans hc
  | loadTransfer hash =>
    match a with
    | .error u => trivial
    | .ok none => trivial
    | .ok (some true) => trivial
    | .ok (some false) =>
      obtain ⟨now, -, -, hrecord⟩ := ht
      intro happlies
      obtain ⟨c, hc⟩ := happlies
      rw [hc, Inclusion.record] at hrecord
      split at hrecord <;> cases hrecord
  | _ => trivial

/-- A run ends as it should. -/
def EndsRight (i : Inclusion) (misjudged : History → Prop) (r : Except SendError α) (h : History) :
    Prop :=
  (∀ e, r = .error e → e.isUncertain = false → ¬i.Applies) ↔ ¬(i.Applies ∧ misjudged h)

variable {misjudged : History → Prop} {r : Except SendError α} {e : SendError}

theorem EndsRight.of_value {a : α} (h' : ¬misjudged h) : EndsRight i misjudged (.ok a) h :=
  iff_of_true nofun fun hboth => h' hboth.2

theorem EndsRight.of_uncertain (he : e.isUncertain = true) (h' : ¬misjudged h) :
    EndsRight i misjudged (.error e : Except SendError α) h := by
  refine iff_of_true ?_ fun hboth => h' hboth.2
  rintro _ ⟨⟩ hcertain
  rw [he] at hcertain
  cases hcertain

/-- A failure that was told although nothing excludes that the transaction is applied. -/
theorem EndsRight.of_misjudged (he : e.isUncertain = false) (h' : misjudged h) :
    EndsRight i misjudged (.error e : Except SendError α) h := by
  constructor
  · intro hfinal hboth
    exact hfinal e rfl he hboth.1
  · rintro hnot _ - - happlies
    exact hnot ⟨happlies, h'⟩

theorem EndsRight.of_final (h' : ¬i.Applies) : EndsRight i misjudged r h :=
  iff_of_true (fun _ _ _ => h') fun hboth => h' hboth.1

/-- The ledger has shown nothing, and the clock was read after the deadline. -/
def TooEarly (tx : SignedTransaction) (nothing : Event Ask.Answer) (h : History) : Prop :=
  nothing ∈ h ∧ PastDeadline tx h

/-! ## Deposits -/

/-- How a deposit is judged. -/
abbrev DepositMisjudged (view : View) (p : PreparedDeposit) (h : History) : Prop :=
  TooEarly p.tx ⟨.readView view p.linkHex, .ok false⟩ h ∨ DepositMisread view p h

variable {view : View} {p : PreparedDeposit} {tx : SignedTransaction} {message : String}

theorem readHash_cases {text : String} :
    (∃ hash, readHash text = .ok hash) ∨ readHash text = .error .malformed := by
  unfold readHash
  split
  · exact .inl ⟨_, rfl⟩
  · split
    · exact .inr rfl
    · rename_i body _
      cases body.property "hash" with
      | ok hash => exact .inl ⟨hash, rfl⟩
      | error u => exact .inr rfl

/-- The ledger had nothing: the clock decides. -/
theorem wp_notLanded (hlate : ∀ now, retrySafe p.tx.retrySafeAfter now = true →
      misjudged (h ++ [⟨.clock, now⟩]))
    (hearly : ∀ now, retrySafe p.tx.retrySafeAfter now = false → ¬misjudged (h ++ [⟨.clock, now⟩])) :
    (notLanded p message : Sending α).wp (recorded (Fair n)) (EndsRight i misjudged) h := by
  unfold notLanded
  apply wp_recorded_bind.mpr
  intro now _
  split
  · rename_i hsafe
    exact .of_misjudged rfl (hlate now hsafe)
  · rename_i hsafe
    exact .of_uncertain rfl (hearly now (Bool.not_eq_true _ ▸ hsafe))

theorem wp_depositUnanswered {route : String} {request : List (String × Json.Scalar)} :
    (depositUnanswered view p).wp (recorded (Fair n)) (EndsRight i (DepositMisjudged view p))
      [⟨.post route request, .error ()⟩] := by
  unfold depositUnanswered v2DepositLanded
  rw [wp_bind, wp_recorded_bind]
  intro found _
  match found with
  | .error u => exact .of_uncertain rfl (by simp [TooEarly, PastDeadline, DepositMisread, Answered])
  | .ok true => exact .of_value (by simp [TooEarly, PastDeadline, DepositMisread, Answered])
  | .ok false =>
    refine wp_notLanded (fun now hsafe => ?_) fun now hsafe => ?_
    · exact .inl ⟨by simp, now, by simp, hsafe⟩
    · simp [TooEarly, PastDeadline, DepositMisread, Answered, hsafe]

/-- The hash is all that is left to read. -/
theorem ends_readHash {text : String}
    (hread : ∀ hash, readHash text = .ok hash → ¬misjudged h)
    (hmalformed : readHash text = .error .malformed → misjudged h) :
    EndsRight i misjudged (readHash text) h := by
  rcases readHash_cases with ⟨hash, heq⟩ | heq
  · rw [heq]
    exact .of_value (hread hash heq)
  · rw [heq]
    exact .of_misjudged rfl (hmalformed heq)

theorem wp_depositUndecided {route text : String} {request : List (String × Json.Scalar)} :
    (depositUndecided view p text).wp (recorded (Fair n)) (EndsRight i (DepositMisjudged view p))
      [⟨.post route request, .ok 202⟩, ⟨.text, .ok text⟩] := by
  have hok : isOk 202 = true ∧ opaqueStatus 202 = false := ⟨rfl, rfl⟩
  unfold depositUndecided v2DepositLanded
  rw [wp_bind, wp_recorded_bind]
  intro found _
  match found with
  | .error u => exact .of_uncertain rfl (by simp [TooEarly, PastDeadline, DepositMisread, Answered, hok])
  | .ok true =>
    refine ends_readHash (fun hash heq => ?_) fun heq => ?_
    · simp [TooEarly, PastDeadline, DepositMisread, Answered, hok, heq]
    · exact .inr (.inr (.inr ⟨202, text, by simp [Answered], rfl, heq, fun _ => by simp⟩))
  | .ok false =>
    refine wp_notLanded (fun now hsafe => ?_) fun now hsafe => ?_
    · exact .inl ⟨by simp, now, by simp, hsafe⟩
    · simp [TooEarly, PastDeadline, DepositMisread, Answered, hok, hsafe]

theorem wp_depositAnswered {route text : String} {request : List (String × Json.Scalar)} {status : ℕ}
    (hfair : nothingSubmitted status = true → ¬i.Applies) :
    (depositAnswered view p status text).wp (recorded (Fair n)) (EndsRight i (DepositMisjudged view p))
      [⟨.post route request, .ok status⟩, ⟨.text, .ok text⟩] := by
  unfold depositAnswered
  split
  · rename_i hstatus
    subst hstatus
    exact wp_depositUndecided
  rename_i hstatus
  split
  · rename_i hok
    cases hnothing : nothingSubmitted status with
    | true => exact .of_final (hfair hnothing)
    | false =>
      refine .of_misjudged rfl (.inr (.inr (.inl ⟨status, text, ?_, ?_⟩)))
      · simp [Answered]
      · simpa [opaqueStatus, hnothing] using hok
  · rename_i hok
    have hok : isOk status = true := by simpa using hok
    refine ends_readHash (fun hash heq => ?_) fun heq => ?_
    · simp [TooEarly, PastDeadline, DepositMisread, Answered, hok, opaqueStatus, heq]
    · exact .inr (.inr (.inr ⟨status, text, by simp [Answered], hok, heq, fun h => absurd h hstatus⟩))

theorem wp_postDeposit {sender : String} (hash : n.hashOf p.tx.xdr = p.tx.hash) :
    (postDeposit view p sender).wp (recorded (Fair n))
      (EndsRight (n.ledger p.tx.hash) (DepositMisjudged view p)) [] := by
  unfold postDeposit
  rw [wp_recorded_bind]
  intro status hstatus
  cases status with
  | error u => exact wp_depositUnanswered
  | ok status =>
    apply wp_recorded_bind.mpr
    intro text _
    cases text with
    | error message => exact .of_misjudged rfl (.inr (.inl ⟨status, message, by simp [Answered]⟩))
    | ok text =>
      apply wp_depositAnswered
      intro hnothing
      rw [← hash]
      exact hstatus hnothing _ (by simp)

/-! ## Payments -/

/-- How a payment is judged. -/
abbrev PayoutMisjudged (tx : SignedTransaction) (h : History) : Prop :=
  TooEarly tx ⟨.loadTransfer tx.hash, .ok none⟩ h ∨ PayoutMisread h

/-- The answer of the step before did not decide. -/
theorem wp_settle (hread : ∀ a, ¬PayoutMisread (h ++ [⟨.loadTransfer tx.hash, a⟩]) ∧
      ∀ now, ¬PayoutMisread (h ++ [⟨.loadTransfer tx.hash, a⟩] ++ [⟨.clock, now⟩]))
    (hclock : ∀ now, ⟨.clock, now⟩ ∉ h) :
    (settle tx message).wp (recorded (Fair n)) (EndsRight (n.ledger tx.hash) (PayoutMisjudged tx)) h := by
  have hright : ∀ a, ¬PayoutMisjudged tx (h ++ [⟨.loadTransfer tx.hash, a⟩]) := by
    rintro a (⟨-, now, hnow, -⟩ | hmisread)
    · simp [hclock] at hnow
    · exact (hread a).1 hmisread
  unfold settle payoutRecord
  rw [wp_bind, wp_recorded_bind]
  intro record hrecord
  match record with
  | .error u => exact .of_uncertain rfl (hright _)
  | .ok (some true) => exact .of_value (hright _)
  | .ok (some false) => exact .of_final hrecord
  | .ok none =>
    apply wp_recorded_bind.mpr
    intro now _
    split
    · rename_i hsafe
      exact .of_misjudged rfl (.inl ⟨by simp, now, by simp, hsafe⟩)
    · rename_i hsafe
      refine .of_uncertain rfl ?_
      rintro (⟨-, now', hnow, hsafe'⟩ | hmisread)
      · obtain rfl : now' = now := by simpa [hclock] using hnow
        exact hsafe hsafe'
      · exact (hread _).2 now hmisread

theorem wp_payoutAnswered {route text : String} {request : List (String × Json.Scalar)} {status : ℕ}
    (hfair : nothingSubmitted status = true → ¬(n.ledger tx.hash).Applies) :
    (payoutAnswered tx status text).wp (recorded (Fair n)) (EndsRight (n.ledger tx.hash) (PayoutMisjudged tx))
      [⟨.post route request, .ok status⟩, ⟨.text, .ok text⟩] := by
  unfold payoutAnswered
  split
  · rename_i hnothing
    refine wp_settle (fun a => ⟨?_, fun now => ?_⟩) (by simp)
    · simp [PayoutMisread, Answered, hnothing]
    · simp [PayoutMisread, Answered, hnothing]
  rename_i hsays
  have hsays : decidesNothing status text = false := by simpa using hsays
  split
  · rename_i hok
    cases hnothing : nothingSubmitted status with
    | true => exact .of_final (hfair hnothing)
    | false =>
      refine .of_misjudged rfl (.inr ⟨status, text, by simp [Answered], hsays, .inl ?_⟩)
      simpa [opaqueStatus, hnothing] using hok
  · rename_i hok
    have hok : isOk status = true := by simpa using hok
    split
    · rename_i hparse
      exact .of_misjudged rfl (.inr ⟨status, text, by simp [Answered], hsays, .inr ⟨hok, hparse⟩⟩)
    · rename_i hparse
      exact .of_value (by simp [TooEarly, PastDeadline, PayoutMisread, Answered, hok, opaqueStatus, hparse])

theorem wp_sendOut {input : PayoutInput} (hash : n.hashOf input.tx.xdr = input.tx.hash) :
    (sendOut input).wp (recorded (Fair n)) (EndsRight (n.ledger input.tx.hash) (PayoutMisjudged input.tx))
      [] := by
  unfold sendOut
  rw [wp_recorded_bind]
  intro status hstatus
  cases status with
  | error u =>
    refine wp_settle (fun a => ⟨?_, fun now => ?_⟩) (by simp)
    · simp [PayoutMisread, Answered]
    · simp [PayoutMisread, Answered]
  | ok status =>
    apply wp_recorded_bind.mpr
    intro text _
    cases text with
    | error message =>
      refine wp_settle (fun a => ⟨?_, fun now => ?_⟩) (by simp)
      · simp [PayoutMisread, Answered]
      · simp [PayoutMisread, Answered]
    | ok text =>
      apply wp_payoutAnswered
      intro hnothing
      rw [← hash]
      exact hstatus hnothing _ (by simp)

/-! ## Every send -/

/-- A value that is only handed on. -/
theorem EndsRight.congr {β : Type} {r' : Except SendError β} (hr : EndsRight i misjudged r h)
    (herror : ∀ e, r' = .error e ↔ r = .error e) : EndsRight i misjudged r' h :=
  Iff.trans (forall_congr' fun e => imp_congr_left (herror e)) hr

theorem wp_map {β : Type} {m : Sending α} {f : α → β}
    (hm : m.wp (recorded (Fair n)) (EndsRight i misjudged) []) :
    (m >>= fun a => pure (f a) : Sending β).wp (recorded (Fair n)) (EndsRight i misjudged) [] := by
  rw [wp_bind]
  refine wp_mono ?_ hm
  rintro (e | a) h' hends
  · exact hends.congr fun e' => by simp
  · exact hends.congr fun e' => by simp

theorem wp_send {s : Send} (hash : n.hashOf s.tx.xdr = s.tx.hash) :
    s.run.wp (recorded (Fair n)) (EndsRight (n.ledger s.tx.hash) fun h => TooEarly s.tx s.showsNothing h ∨ s.Misread h) [] := by
  cases s with
  | v2Link p sender => exact wp_map (wp_map (wp_postDeposit hash))
  | v2GroupLink p sender perShare slots total => exact wp_map (wp_map (wp_postDeposit hash))
  | payout input => exact wp_map (wp_sendOut hash)

/-! ## What the ledger showed -/

/-- Every answer of a run is true of its time. -/
theorem truthful_of_run {s : Send} {start : ℕ} {r : Except SendError Unit} {w : Moment}
    (hrun : Runs (passes n) s.run ⟨start, []⟩ r w) :
    ∀ e ∈ w.seen, Truthful n e.start e.stop e.event.1 e.event.2 := by
  have hall : ∀ {p : Sending Unit} {w w' : Moment} {r : Except SendError Unit}, Runs (passes n) p w r w' →
      (∀ e ∈ w.seen, Truthful n e.start e.stop e.event.1 e.event.2) →
      ∀ e ∈ w'.seen, Truthful n e.start e.stop e.event.1 e.event.2 := by
    intro p w w' r hrun
    induction hrun with
    | ret => exact id
    | ask a hstep _ ih =>
      intro hseen
      obtain ⟨-, heq, htrue⟩ := hstep
      apply ih
      rw [heq]
      exact List.forall_mem_append.mpr ⟨hseen, List.forall_mem_singleton.mpr htrue⟩
  exact hall hrun (List.forall_mem_nil _)

/-- A true answer that shows nothing is of a moment when the transaction was not applied. -/
theorem Send.On.not_applied {s : Send} {e : Entry} (hon : s.On n)
    (htrue : Truthful n e.start e.stop e.event.1 e.event.2) (hevent : e.event = s.showsNothing) :
    ∃ now, e.start ≤ now ∧ now ≤ e.stop ∧ (n.ledger s.tx.hash).record now ≠ some true := by
  have hview : ∀ {view linkHex hash}, e.event = ⟨.readView view linkHex, .ok false⟩ →
      n.deposit view linkHex = some hash →
      ∃ now, e.start ≤ now ∧ now ≤ e.stop ∧ (n.ledger hash).record now ≠ some true := by
    intro view linkHex hash hevent hdeposit
    rw [hevent] at htrue
    obtain ⟨now, hstart, hstop, hfound⟩ := htrue
    refine ⟨now, hstart, hstop, fun happlied => ?_⟩
    cases hfound.mpr ⟨hash, hdeposit, happlied⟩
  cases s with
  | v2Link p sender => exact hview hevent hon.deposit
  | v2GroupLink p sender perShare slots total => exact hview hevent hon.deposit
  | payout input =>
    rw [hevent] at htrue
    obtain ⟨now, hstart, hstop, hnone⟩ := htrue
    refine ⟨now, hstart, hstop, fun happlied => ?_⟩
    cases hnone.trans happlied

theorem Send.On.readsTooEarly_iff {s : Send} {w : Moment} (hon : s.On n)
    (htrue : ∀ e ∈ w.seen, Truthful n e.start e.stop e.event.1 e.event.2) :
    s.ReadsTooEarly n w ↔ TooEarly s.tx s.showsNothing w.events := by
  apply and_congr_left
  intro _
  constructor
  · intro hread
    obtain ⟨e, he, hevent, -⟩ := hread
    exact List.mem_map.mpr ⟨e, he, hevent⟩
  · intro hmem
    obtain ⟨e, he, hevent⟩ := List.mem_map.mp hmem
    exact ⟨e, he, hevent, hon.not_applied (htrue e he) hevent⟩

end

/-- **A send that failed cannot land.** In every run of a send, a failure is told only of a
transaction that is never applied, unless the transaction is applied and the send misjudges what it
was answered; and then it is told of one that is. -/
theorem failed_send_final_iff {n : Network} {s : Send} {start : ℕ} {r : Except SendError Unit}
    {w : Moment} (hon : s.On n) (hrun : Runs (passes n) s.run ⟨start, []⟩ r w) :
    FailureIsFinal (n.ledger s.tx.hash) r ↔
      ¬((n.ledger s.tx.hash).Applies ∧ s.Misjudges n w) := by
  have hfair : Runs (recorded (Fair n)) s.run [] r w.events := by
    refine hrun.simulate (f := Moment.events) fun w q a w' hstep => ⟨hstep.2.2.fair, ?_⟩
    rw [Moment.events, hstep.2.1, List.map_append]
    rfl
  unfold Send.Misjudges
  rw [hon.readsTooEarly_iff (truthful_of_run hrun)]
  exact hfair.sound (wp_send hon.hash)

namespace Demo

def signed : SignedTransaction := ⟨"AAAA", "ab", some 120⟩

/-- A link over five dollars. -/
def send : Send := .v2Link ⟨"https://getlumenia.com/v2/c/cd#S", "cd", signed⟩ "sender"

/-- The deposit makes the record of its link. -/
def network (i : Inclusion) : Network where
  hashOf xdr := if xdr = "AAAA" then "ab" else ""
  ledger hash := if hash = "ab" then i else .never
  deposit view linkHex := if view = .getDrop ∧ linkHex = "cd" then some "ab" else none

theorem on_network {i : Inclusion} : send.On (network i) := ⟨rfl, rfl⟩

/-- The request, whose answer comes after ten seconds. -/
def post : Ask := .post "/v2-deposit" [("xdr", .str "AAAA"), ("senderPublicKey", .str "sender")]

theorem passes_until {n : Network} {w : Moment} {q : Ask} {a : q.Answer} (stop : ℕ) (h : w.now ≤ stop)
    (htrue : Truthful n w.now stop q a) :
    passes n w q a ⟨stop, w.seen ++ [⟨w.now, stop, ⟨q, a⟩⟩]⟩ := ⟨h, rfl, htrue⟩

theorem passes_post {i : Inclusion} {status : ℕ} (hnothing : nothingSubmitted status = false) :
    passes (network i) ⟨0, []⟩ post (.ok status) ⟨10000, [⟨0, 10000, ⟨post, .ok status⟩⟩]⟩ := by
  apply passes_until 10000 (Nat.zero_le _)
  intro htrue
  rw [hnothing] at htrue
  cases htrue

/-- A 202, and the escrow is empty when the time for the deposit is over. -/
def lost : Moment := ⟨130000, [⟨0, 10000, ⟨post, .ok 202⟩⟩, ⟨10000, 10000, ⟨.text, .ok ""⟩⟩,
  ⟨10000, 130000, ⟨.readView .getDrop "cd", .ok false⟩⟩, ⟨130000, 130000, ⟨.clock, 130000⟩⟩]⟩

theorem runs_lost : Runs (passes (network .never)) send.run ⟨0, []⟩
    (.error (.error "/v2-deposit → not submitted: ")) lost := by
  have hempty : ¬(network .never).Holds .getDrop "cd" 130000 := by
    intro hholds
    obtain ⟨hash, hmem, happlied⟩ := hholds
    obtain rfl : "ab" = hash := Option.some.inj hmem
    cases happlied
  have hread : Truthful (network .never) 10000 130000 (.readView .getDrop "cd") (.ok false) :=
    ⟨130000, by decide, le_rfl, iff_of_false Bool.false_ne_true hempty⟩
  exact .ask (.ok 202) (passes_post rfl) (.ask (.ok "") (passes_until 10000 le_rfl trivial)
    (.ask (.ok false) (passes_until 130000 (by decide) hread)
      (.ask 130000 (passes_until 130000 le_rfl ⟨le_rfl, le_rfl⟩) .ret)))

/-- The deposit is in the ledger of the fifth second. -/
def inclusion : Inclusion := .applied 5

theorem runs_gateway : Runs (passes (network inclusion)) send.run ⟨0, []⟩
    (.error (.error "/v2-deposit → 504: gateway timeout"))
    ⟨10000, [⟨0, 10000, ⟨post, .ok 504⟩⟩, ⟨10000, 10000, ⟨.text, .ok "gateway timeout"⟩⟩]⟩ :=
  .ask (.ok 504) (passes_post rfl)
    (.ask (.ok "gateway timeout") (passes_until 10000 le_rfl trivial) .ret)

end Demo

/-- The escrow is empty when the time is over: the sender is told so, and may send again. -/
theorem failed_send_final_iff_lost :
    FailureIsFinal .never (.error (.error "/v2-deposit → not submitted: ")) := by
  refine (failed_send_final_iff Demo.on_network Demo.runs_lost).mpr fun hboth => ?_
  obtain ⟨⟨closeTime, happlied⟩, -⟩ := hboth
  cases happlied

/-- A gateway gives up on a deposit that lands. -/
theorem gateway_timeout_fails : ¬∀ (n : Network) (s : Send) (start : ℕ) (r : Except SendError Unit)
    (w : Moment), s.On n → Runs (passes n) s.run ⟨start, []⟩ r w →
      FailureIsFinal (n.ledger s.tx.hash) r := by
  intro hall
  exact hall _ _ _ _ _ Demo.on_network Demo.runs_gateway _ rfl rfl ⟨5, rfl⟩

end Lumenia.Web
