import Lumenia.Sponsor.Fees
import Lumenia.Theory.Dialogue

/-!
# Submitting what the sponsor pays

`submit` of `apps/sponsor/src/lib/stellar.ts`, over Horizon, and `payAndSubmit` of
`apps/sponsor/src/lib/soroban-relay.ts`, over the Soroban RPC: the network's answer settles the
charge of the fee. They are dialogues whose questions are the steps they wait for, so an answer is a
value or whatever the step throws. What the SDK makes of a text is part of the answer.
-/

namespace Lumenia.Sponsor

/-! ## Answers -/

/-- The code of a transaction's result. -/
inductive ResultCode
  | txFeeBumpInnerSuccess
  | txSuccess
  | txFailed
  | txTooEarly
  | txTooLate
  | txMissingOperation
  | txBadSeq
  | txBadAuth
  | txInsufficientBalance
  | txNoAccount
  | txInsufficientFee
  | txBadAuthExtra
  | txInternalError
  | txNotSupported
  | txFeeBumpInnerFailed
  | txBadSponsorship
  | txBadMinSeqAgeOrGap
  | txMalformed
  | txSorobanInvalid
  | newer (code : ℤ)
  deriving DecidableEq

/-- What is read of a `TransactionResult`. -/
structure TransactionResult where
  feeCharged : ℤ
  code : ResultCode
  /-- The code of the inner transaction of a fee-bump. -/
  innerCode : Option ResultCode
  deriving DecidableEq

/-- Horizon's `extras`. -/
structure Extras where
  /-- A text, and the result in it where it can be read. -/
  resultXdr : Option (Option TransactionResult)
  /-- There are result codes. -/
  resultCodes : Bool
  /-- Everything but the envelope and the result, as JSON. -/
  rest : String
  deriving DecidableEq

structure HttpResponse where
  /-- Where it is a number. -/
  status : Option ℕ
  extras : Option Extras
  deriving DecidableEq

/-- The value of a member of an object. -/
inductive Member
  | null
  | number (n : ℤ)
  | text (s : String)
  /-- Another value, with what `String` makes of it; it throws for an object whose own `toString` is no
  function. -/
  | other (printed : Option String)
  deriving DecidableEq

/-- The brands that the sponsor's own errors carry. -/
inductive Brand
  | isPublicRefusal
  | submitUnconfirmed
  | relayBusy
  deriving DecidableEq

structure ThrownObject where
  isError : Bool
  name : Option String
  message : Option Member
  code : Option Member
  response : Option HttpResponse
  /-- The members of these names that are `true`. -/
  brands : List Brand
  hash : Option String
  deriving DecidableEq

/-- What a step outside the sponsor throws: for the RPC also the `error` of an answer, as it is. -/
inductive Thrown
  | null
  | undefined
  | text (s : String)
  | object (o : ThrownObject)
  deriving DecidableEq

namespace Thrown

def object? : Thrown → Option ThrownObject
  | object o => some o
  | _ => none

def response (t : Thrown) : Option HttpResponse := t.object?.bind (·.response)

def status (t : Thrown) : Option ℕ := t.response.bind (·.status)

def extras (t : Thrown) : Option Extras := t.response.bind (·.extras)

def name (t : Thrown) : Option String := t.object?.bind (·.name)

def code (t : Thrown) : Option Member := t.object?.bind (·.code)

def hash (t : Thrown) : Option String := t.object?.bind (·.hash)

def branded (b : Brand) (t : Thrown) : Bool := t.object?.any fun o => b ∈ o.brands

end Thrown

/-- What the sponsor's own functions throw. -/
inductive Failure
  /-- Thrown by a step, and passed on. -/
  | passed (t : Thrown)
  | error (message : String)
  /-- A `PublicRefusal`. -/
  | refusal (message : String)
  /-- A `SubmitUnconfirmedError`. -/
  | unconfirmed (detail : String) (hash : Option String)
  /-- A `RelayBusyError`. -/
  | busy
  deriving DecidableEq

namespace Failure

def isPublicRefusal : Failure → Bool
  | refusal _ => true
  | passed t => t.branded .isPublicRefusal
  | _ => false

/-- Reads the brand, so a value that a step throws is as good as the sponsor's own error. -/
def isSubmitUnconfirmed : Failure → Bool
  | unconfirmed .. => true
  | passed t => t.branded .submitUnconfirmed
  | _ => false

def isRelayBusy : Failure → Bool
  | busy => true
  | passed t => t.branded .relayBusy
  | _ => false

/-- `(e as { hash?: string }).hash` -/
def hash : Failure → Option String
  | unconfirmed _ hash => hash
  | passed t => t.hash
  | _ => none

/-- The error with this text, or what was thrown while the text was written. -/
def worded (error : String → Failure) : Except Failure String → Failure
  | .ok text => error text
  | .error e => e

end Failure

/-- An ordinary error or a `PublicRefusal` of the sponsor's own code. -/
abbrev OwnError := FeeError

def FeeError.failure : OwnError → Failure
  | refusal message => .refusal message
  | thrown message => .error message

theorem FeeError.not_unconfirmed {e : OwnError} : e.failure.isSubmitUnconfirmed = false := by
  cases e <;> rfl

def Member.toText : Member → Except Failure String
  | null => .ok "null"
  | number n => .ok (toString n)
  | text s => .ok s
  | other (some printed) => .ok printed
  | other none => .error (.error "Cannot convert object to primitive value")

/-- The member of an object inside a text. -/
def inText : Option Member → Except Failure String
  | none => .ok "undefined"
  | some m => m.toText

/-- `String(m ?? "")` -/
def textOrEmpty : Option Member → Except Failure String
  | none | some .null => .ok ""
  | some m => m.toText

/-- `(e as Error).message` -/
def Thrown.message : Thrown → Except Failure (Option Member)
  | null => .error (.error "Cannot read properties of null (reading 'message')")
  | undefined => .error (.error "Cannot read properties of undefined (reading 'message')")
  | text _ => .ok none
  | object o => .ok o.message

/-- The message inside a text. -/
def Thrown.readMessage (t : Thrown) : Except Failure String := t.message >>= inText

/-- A thrown value as one log line. -/
def describeThrow : Thrown → Except Failure String
  | .null => .ok "null"
  | .undefined => .ok "undefined"
  | .text s => .ok s
  | .object o =>
    if o.isError then inText o.message
    else do
      let code ← textOrEmpty o.code
      let message ← textOrEmpty o.message
      return trim (code ++ " " ++ message)

/-- What is thrown where a text cannot be written. -/
def typeErrors : List Failure :=
  [.error "Cannot read properties of null (reading 'message')",
    .error "Cannot read properties of undefined (reading 'message')",
    .error "Cannot convert object to primitive value"]

section

variable {e : Failure}

theorem Member.toText_error {m : Member} (h : m.toText = .error e) : e ∈ typeErrors := by
  cases m with
  | other printed =>
    cases printed <;> cases h
    simp [typeErrors]
  | _ => cases h

theorem inText_error {m : Option Member} (h : inText m = .error e) : e ∈ typeErrors := by
  cases m with
  | none => cases h
  | some m => exact Member.toText_error h

theorem textOrEmpty_error {m : Option Member} (h : textOrEmpty m = .error e) : e ∈ typeErrors := by
  unfold textOrEmpty at h
  split at h
  · cases h
  · cases h
  · exact Member.toText_error h

theorem Thrown.message_error {t : Thrown} (h : t.message = .error e) : e ∈ typeErrors := by
  cases t <;> cases h <;> simp [typeErrors]

theorem Thrown.readMessage_error {t : Thrown} (h : t.readMessage = .error e) : e ∈ typeErrors := by
  unfold Thrown.readMessage at h
  cases hmessage : t.message with
  | error e' =>
    rw [hmessage] at h
    cases h
    exact Thrown.message_error hmessage
  | ok m =>
    rw [hmessage] at h
    exact inText_error h

theorem describeThrow_error {t : Thrown} (h : describeThrow t = .error e) : e ∈ typeErrors := by
  cases t with
  | object o =>
    unfold describeThrow at h
    dsimp only at h
    split at h
    · exact inText_error h
    · cases hcode : textOrEmpty o.code with
      | error e' =>
        rw [hcode] at h
        cases h
        exact textOrEmpty_error hcode
      | ok code =>
        rw [hcode] at h
        cases hmessage : textOrEmpty o.message with
        | error e' =>
          rw [hmessage] at h
          cases h
          exact textOrEmpty_error hmessage
        | ok message =>
          rw [hmessage] at h
          cases h
  | _ => cases h

theorem not_unconfirmed_of_typeErrors (h : e ∈ typeErrors) : e.isSubmitUnconfirmed = false := by
  simp only [typeErrors, List.mem_cons, List.not_mem_nil, or_false] at h
  obtain rfl | rfl | rfl := h <;> rfl

/-- An error in the sponsor's own words, or a `TypeError` for want of them. -/
theorem Failure.worded_plain {error : String → Failure} {text : Except Failure String}
    (herror : ∀ s, (error s).isSubmitUnconfirmed = false)
    (htext : ∀ e, text = .error e → e ∈ typeErrors) :
    (Failure.worded error text).isSubmitUnconfirmed = false := by
  cases text with
  | ok s => exact herror s
  | error e => exact not_unconfirmed_of_typeErrors (htext e rfl)

end

/-- Horizon's answer to a submission. -/
structure Posted where
  hash : String
  resultXdr : Option (Option TransactionResult)
  feeCharged : Option Fee

inductive SendStatus
  | PENDING
  | DUPLICATE
  | TRY_AGAIN_LATER
  | ERROR
  /-- A malformed answer. -/
  | other
  deriving DecidableEq

structure Sent where
  status : SendStatus
  hash : Option String
  /-- As JSON. -/
  errorResult : String

inductive PollStatus
  | SUCCESS
  | FAILED
  | NOT_FOUND
  /-- A malformed answer. -/
  | other
  deriving DecidableEq

structure Polled where
  status : PollStatus
  /-- Where it can be read. -/
  resultXdr : Option TransactionResult

structure Simulated where
  /-- The error text of a simulation that fails. -/
  error : Option String
  minResourceFee : String

/-- The verdict of a cap or of the pilot: admitted, with or without a reservation to release. -/
inductive Reserved
  | refused (reason : String)
  | admitted (release : Bool)
  deriving DecidableEq

/-- A transaction that the sponsor pays; the hash is missing where it cannot be computed, or is not
asked for. -/
structure Payable where
  fee : ℕ
  hash : Option String
  deriving DecidableEq

/-! ## The steps -/

/-- What the sponsor's routes wait for. -/
inductive Await
  | chargeSponsorFee (feeBid : ℕ)
  | sign (tx : Payable)
  /-- A call on the charge. -/
  | settle (call : SettleCall)
  | submitTransaction (tx : Payable)
  /-- Horizon's record of a transaction. -/
  | transaction (hash : String) (recheck : Bool)
  | recheckPause
  | simulateTransaction
  | sendTransaction (tx : Payable)
  | subrequestsLeft
  | sleep
  | getTransaction (hash : Option String)
  | checkCaps (amountStroops : ℤ) (senderPublicKey : String)
  | releaseCap
  | enforcePilot (pubkey : String)
  | releasePilot
  deriving DecidableEq

/-- For a record of a transaction, what `BigInt` makes of its `fee_charged`, where it has one. -/
abbrev Await.Answer : Await → Type
  | chargeSponsorFee _ => Except FeeError FeeCharge
  | sign _ => Except Thrown Unit
  | submitTransaction _ => Except Thrown Posted
  | transaction .. => Except Thrown (Option (Option ℤ))
  | simulateTransaction => Except Thrown Simulated
  | sendTransaction _ => Except Thrown Sent
  | subrequestsLeft => ℤ
  | getTransaction _ => Except Thrown Polled
  | checkCaps .. | enforcePilot _ => Reserved
  | settle _ | recheckPause | sleep | releaseCap | releasePilot => Unit

abbrev Route := Dialogue Await.Answer Failure

/-- Wait for one step. -/
abbrev wait (q : Await) : Route q.Answer := Dialogue.question q

/-! ## Horizon -/

/-- The fee the ledger charged, from a result. -/
def feeChargedOf (result : Option TransactionResult) : Option Fee :=
  result.map fun r => .bigint r.feeCharged

/-- `VALIDATION_ONLY_CODES` -/
def validationOnlyCodes : List ResultCode :=
  [.txTooEarly, .txTooLate, .txMissingOperation, .txBadSeq, .txBadAuth, .txInsufficientBalance,
    .txNoAccount, .txInsufficientFee, .txBadAuthExtra, .txNotSupported, .txBadMinSeqAgeOrGap,
    .txMalformed, .txSorobanInvalid]

/-- True when a result names a refusal core only makes while validating. -/
def refusedWhileValidating : Option TransactionResult → Bool
  | none => false
  | some r =>
    if r.code = .txFeeBumpInnerFailed then r.innerCode.any (· ∈ validationOnlyCodes)
    else r.code ∈ validationOnlyCodes

/-- What the ledger says about a transaction that was refused. -/
inductive OnLedger
  | charged (fee : ℤ)
  | never
  | undecided

def OnLedger.ofRecord : Option (Option ℤ) → OnLedger
  | some (some fee) => charged fee
  | _ => undecided

def isNotFound (t : Thrown) : Bool := t.status = some 404 || t.name = some "NotFoundError"

/-- Ask the ledger twice, about one ledger close apart. -/
def ledgerFeeCharged (tx : Payable) : Route OnLedger :=
  match tx.hash with
  | none => return .undecided
  | some hash => do
    match ← wait (.transaction hash false) with
    | .ok record => return .ofRecord record
    | .error t =>
      if !isNotFound t then return .undecided
      wait .recheckPause
      match ← wait (.transaction hash true) with
      | .ok record => return .ofRecord record
      | .error t => return if isNotFound t then .never else .undecided

/-- Settle a charge on a refusal that was ruled on. -/
def settleRefusal (tx : Payable) (t : Thrown) : Route Unit :=
  match t.extras.bind (·.resultXdr) with
  | some result => do
    if refusedWhileValidating result then wait (.settle .notIncluded)
    else
      match ← ledgerFeeCharged tx with
      | .never => wait (.settle .notIncluded)
      | .charged fee => wait (.settle (.settled (some (.bigint fee))))
      -- The fee the result names keeps the count high, never low.
      | .undecided => wait (.settle (.settled (feeChargedOf result)))
  | none =>
    if t.extras.any (·.resultCodes) then wait (.settle (.settled none))
    else wait (.settle .notIncluded)

/-- Did anything decide this transaction? Only the ledger's verdict and a refusal before the POST. -/
def outcomeUnknown (t : Thrown) : Bool :=
  if t.name = some "AccountRequiresMemoError" then false
  else if t.extras.any (·.resultCodes) then false
  else
    match t.status with
    | none => true
    | some status => status = 408 || status ≥ 500

def refusalDetail (t : Thrown) : Except Failure (Option Member) :=
  match t.extras with
  | some extras => .ok (some (.text extras.rest))
  | none => t.message

/-- Horizon did not accept the submission, or nobody knows whether it did. -/
def submitRefused (tx : Payable) (charged : Bool) (t : Thrown) : Route Posted :=
  match refusalDetail t with
  | .error e => throw e
  | .ok detail =>
    if outcomeUnknown t then throw (.worded (.unconfirmed · tx.hash) (inText detail))
    else do
      if charged then settleRefusal tx t
      throw (.worded (fun detail => .error ("submit failed: " ++ detail)) (inText detail))

/-- Submit a transaction, and with a charge settle it by the answer. -/
def submit (tx : Payable) (charged : Bool) : Route Posted := do
  match ← wait (.submitTransaction tx) with
  | .error t => submitRefused tx charged t
  | .ok posted =>
    if charged then
      wait (.settle (.settled ((feeChargedOf (posted.resultXdr.join)).or posted.feeCharged)))
    return posted

/-! ## The Soroban RPC -/

/-- A throw from the send that reached nothing: the request-shape codes of JSON-RPC, and an HTTP 4xx
other than 408. -/
def sendRefusedOutright (t : Thrown) : Bool :=
  match t.object? with
  | none => false
  | some o =>
    match o.isError, o.code with
    | false, some code => code ∈ [-32700, -32600, -32601, -32602].map Member.number
    | _, _ => t.status.any fun status => 400 ≤ status && status < 500 && status ≠ 408

structure Window where
  maxPolls : ℕ
  reserve : ℤ

structure Watched where
  hash : Option String
  got : Polled
  /-- The budget of subrequests ended the window. -/
  cut : Bool

/-- `notFoundYet` -/
def Polled.notFoundYet : Polled := ⟨.NOT_FOUND, none⟩

def pollFailure (hash : Option String) (t : Thrown) : Failure :=
  .worded (fun message =>
    .unconfirmed ("the RPC stopped answering while the transaction was being watched: " ++ message) hash)
    t.readMessage

/-- All reads but the first come after a pause. -/
def pauseUnless (isFirst : Bool) : Route Unit := if isFirst then return () else wait .sleep

/-- The reads that are left, and the last answer. -/
def pollReads (hash : Option String) (reserve : ℤ) : ℕ → Bool → Polled → Route (Polled × Bool)
  | 0, _, got => return (got, false)
  | reads + 1, isFirst, got => do
    let left ← wait .subrequestsLeft
    if left < 1 + reserve then return (got, true)
    else do
      pauseUnless isFirst
      match ← wait (.getTransaction hash) with
      | .error t => throw (pollFailure hash t)
      | .ok got =>
        if got.status ≠ .NOT_FOUND then return (got, false)
        else pollReads hash reserve reads false got

/-- Watch a transaction the RPC has accepted until the ledger decides it, or the window closes. -/
def pollUntilDecided (hash : Option String) (window : Window) : Route (Polled × Bool) :=
  pollReads hash window.reserve (window.maxPolls + 1) true .notFoundYet

/-- A signer that throws produced nothing that can be submitted. -/
def signCharged (tx : Payable) : Route Unit := do
  match ← wait (.sign tx) with
  | .ok () => return ()
  | .error t =>
    wait (.settle .notIncluded)
    throw (.passed t)

def sendThrew (label : String) (hash : String) (t : Thrown) : Route Watched :=
  if sendRefusedOutright t then do
    wait (.settle .notIncluded)
    throw (.worded (fun line => .error (label ++ " send refused: " ++ line)) (describeThrow t))
  else
    throw (.worded (fun line =>
      .unconfirmed (label ++ ": the RPC did not answer the send (" ++ line ++ ")") hash)
      (describeThrow t))

/-- Whether the ledger included the transaction. -/
def Polled.isIncluded (got : Polled) : Bool := got.status = .SUCCESS || got.status = .FAILED

/-- After the send was accepted. One subrequest is held back for the settle. -/
def watch (sent : Sent) (window : Window) : Route Watched := do
  let (got, cut) ← pollUntilDecided sent.hash { window with reserve := window.reserve + 1 }
  if got.isIncluded then wait (.settle (.settled (feeChargedOf got.resultXdr)))
  return { hash := sent.hash, got := got, cut := cut }

def sendAnswered (label : String) (window : Window) (sent : Sent) : Route Watched :=
  match sent.status with
  | .ERROR => do
    wait (.settle .notIncluded)
    throw (.error (label ++ " send failed: " ++ sent.errorResult))
  | .TRY_AGAIN_LATER => do
    wait (.settle .notIncluded)
    throw .busy
  | .PENDING | .DUPLICATE | .other => watch sent window

def sendSigned (tx : Payable) (label : String) (window : Window) : Route Watched :=
  match tx.hash with
  | none => throw (.error (label ++ ": the transaction has no hash"))
  | some hash => do
    match ← wait (.sendTransaction tx) with
    | .error t => sendThrew label hash t
    | .ok sent => sendAnswered label window sent

/-- Charge, sign, send and watch one transaction that the sponsor pays. -/
def payAndSubmit (tx : Payable) (label : String) (window : Window) : Route Watched := do
  match ← wait (.chargeSponsorFee tx.fee) with
  | .error e => throw e.failure
  | .ok _ =>
    signCharged tx
    sendSigned tx label window

/-! ## What a poll sees -/

abbrev History := List (Dialogue.Event Await.Answer)

/-- The steps of a poll of the transaction with this hash. -/
def Await.polls (hash : Option String) : Await → Bool
  | subrequestsLeft | sleep => true
  | getTransaction asked => asked = hash
  | _ => false

def reading : Dialogue.Event Await.Answer → Option (Except Thrown Polled)
  | ⟨.getTransaction _, answer⟩ => some answer
  | _ => none

def NotYet (answer : Except Thrown Polled) : Prop := ∃ got, answer = .ok got ∧ got.status = .NOT_FOUND

/-- The result of a poll is its last reading, and the others found nothing. -/
def LastSeen (hash : Option String) (readings : List (Except Thrown Polled)) :
    Except Failure (Polled × Bool) → Prop
  | .ok (got, _) => (got.status = .NOT_FOUND ∨ .ok got ∈ readings) ∧
      ∀ answer ∈ readings, answer = .ok got ∨ NotYet answer
  | .error e => ∃ t, e = pollFailure hash t ∧ .error t ∈ readings ∧
      ∀ answer ∈ readings, answer = .error t ∨ NotYet answer

/-- A poll, as the events it adds. -/
structure Watching (fair : (q : Await) → q.Answer → Prop) (hash : Option String)
    (r : Except Failure (Polled × Bool)) (es : History) : Prop where
  polls : ∀ e ∈ es, e.1.polls hash = true
  fair : ∀ e ∈ es, fair e.1 e.2
  seen : LastSeen hash (es.filterMap reading) r

section

open Dialogue

variable {fair : (q : Await) → q.Answer → Prop} {hash : Option String} {h : History}

theorem LastSeen.of_notYet {before readings : List (Except Thrown Polled)}
    {r : Except Failure (Polled × Bool)} (hbefore : ∀ answer ∈ before, NotYet answer)
    (hlast : LastSeen hash readings r) : LastSeen hash (before ++ readings) r := by
  cases r with
  | ok read =>
    refine ⟨hlast.1.imp_right (List.mem_append_right _), fun answer hanswer => ?_⟩
    rcases List.mem_append.mp hanswer with hanswer | hanswer
    · exact .inr (hbefore answer hanswer)
    · exact hlast.2 answer hanswer
  | error e =>
    obtain ⟨t, rfl, hmem, hlast⟩ := hlast
    refine ⟨t, rfl, List.mem_append_right _ hmem, fun answer hanswer => ?_⟩
    rcases List.mem_append.mp hanswer with hanswer | hanswer
    · exact .inr (hbefore answer hanswer)
    · exact hlast answer hanswer

theorem Watching.append {before es : History} {r : Except Failure (Polled × Bool)}
    (hpolls : ∀ e ∈ before, e.1.polls hash = true) (hfair : ∀ e ∈ before, fair e.1 e.2)
    (hbefore : ∀ answer ∈ before.filterMap reading, NotYet answer) (hes : Watching fair hash r es) :
    Watching fair hash r (before ++ es) where
  polls := List.forall_mem_append.mpr ⟨hpolls, hes.polls⟩
  fair := List.forall_mem_append.mpr ⟨hfair, hes.fair⟩
  seen := by
    rw [List.filterMap_append]
    exact hes.seen.of_notYet hbefore

/-- The events of a pause. -/
theorem wp_pauseUnless {isFirst : Bool} {post : Except Failure Unit → History → Prop}
    (hpost : ∀ es : History, (∀ e ∈ es, e.1.polls hash = true) → (∀ e ∈ es, fair e.1 e.2) →
      es.filterMap reading = [] → post (.ok ()) (h ++ es)) :
    (pauseUnless isFirst).wp (recorded fair) post h := by
  unfold pauseUnless
  split
  · have hnone := hpost [] (List.forall_mem_nil _) (List.forall_mem_nil _) rfl
    rwa [List.append_nil] at hnone
  · refine wp_recorded_question.mpr fun u hu => hpost _ ?_ ?_ rfl
    · exact List.forall_mem_singleton.mpr rfl
    · exact List.forall_mem_singleton.mpr hu

theorem wp_pollReads {reserve : ℤ} {reads : ℕ} {isFirst : Bool} {got : Polled}
    (hgot : got.status = .NOT_FOUND) :
    (pollReads hash reserve reads isFirst got).wp (recorded fair)
      (fun r h' => ∃ es, h' = h ++ es ∧ Watching fair hash r es) h := by
  induction reads generalizing h isFirst got with
  | zero =>
    exact ⟨[], (List.append_nil h).symm, List.forall_mem_nil _, List.forall_mem_nil _, .inl hgot,
      List.forall_mem_nil _⟩
  | succ reads ih =>
    rw [pollReads, wp_recorded_bind]
    intro left hleft
    have hone : ∀ e ∈ [(⟨.subrequestsLeft, left⟩ : Event Await.Answer)], e.1.polls hash = true :=
      List.forall_mem_singleton.mpr rfl
    have hfair : ∀ e ∈ [(⟨.subrequestsLeft, left⟩ : Event Await.Answer)], fair e.1 e.2 :=
      List.forall_mem_singleton.mpr hleft
    split
    · exact ⟨_, rfl, hone, hfair, .inl hgot, List.forall_mem_nil _⟩
    rw [wp_bind]
    refine wp_pauseUnless fun pause (hpause : ∀ e ∈ pause, e.1.polls hash = true) hpauseFair
      hnoReading => ?_
    rw [onValue_ok, wp_recorded_bind]
    intro answer hanswer
    -- What this round of the loop adds.
    let round : History := [⟨.subrequestsLeft, left⟩] ++ pause ++ [⟨.getTransaction hash, answer⟩]
    have hpolls : ∀ e ∈ round, e.1.polls hash = true := List.forall_mem_append.mpr
      ⟨List.forall_mem_append.mpr ⟨hone, hpause⟩,
        List.forall_mem_singleton.mpr (decide_eq_true rfl)⟩
    have hroundFair : ∀ e ∈ round, fair e.1 e.2 := List.forall_mem_append.mpr
      ⟨List.forall_mem_append.mpr ⟨hfair, hpauseFair⟩, List.forall_mem_singleton.mpr hanswer⟩
    have hreading : round.filterMap reading = [answer] := by
      simp only [round, List.filterMap_append, hnoReading]
      rfl
    have hround : h ++ [⟨.subrequestsLeft, left⟩] ++ pause ++ [⟨.getTransaction hash, answer⟩] =
        h ++ round := by simp only [round, List.append_assoc]
    rw [hround]
    cases answer with
    | error t =>
      refine ⟨round, rfl, hpolls, hroundFair, t, rfl, ?_⟩
      rw [hreading]
      exact ⟨List.mem_singleton_self _, List.forall_mem_singleton.mpr (.inl rfl)⟩
    | ok got' =>
      dsimp only
      split
      · refine ⟨round, rfl, hpolls, hroundFair, ?_⟩
        rw [hreading]
        exact ⟨.inr (List.mem_singleton_self _), List.forall_mem_singleton.mpr (.inl rfl)⟩
      · rename_i hstatus
        refine wp_mono ?_ (ih (not_not.mp hstatus))
        rintro r h' ⟨es, rfl, hes⟩
        refine ⟨round ++ es, List.append_assoc .., hes.append hpolls hroundFair ?_⟩
        rw [hreading]
        exact List.forall_mem_singleton.mpr ⟨got', rfl, not_not.mp hstatus⟩

end

end Lumenia.Sponsor
