import Lumenia.Theory.Dialogue
import Lumenia.Theory.Json
import Lumenia.Theory.Text

/-!
# Sending money

What happens from the moment a signed transaction leaves the device: `createV2Link`,
`createV2GroupLink` and `v2DepositLanded` of `apps/web/lib/lumendrop.ts`, which post a deposit to the
sponsor, and `sendOut` of `apps/web/lib/payout.ts`, which posts a payment. Before that moment nothing
has left, and after it the answer, the ledger and the clock decide what the sender is told.
-/

namespace Lumenia.Web

/-- The view of the escrow that holds one kind of link. -/
inductive View
  | getDrop
  | getPool
  deriving DecidableEq

structure SignedTransaction where
  xdr : String
  hash : String
  /-- In Unix seconds. -/
  maxTime : Option ℕ

/-- Unix ms after which the transaction can no longer be included; missing where there is no bound. -/
def SignedTransaction.retrySafeAfter (tx : SignedTransaction) : Option ℕ :=
  match tx.maxTime with
  | none | some 0 => none
  | some maxTime => some (maxTime * 1000)

/-- What the app waits for, or reads. -/
inductive Ask
  /-- A request leaves, and the status of its answer. -/
  | post (route : String) (body : List (String × Json.Scalar))
  /-- The body of the answer. -/
  | text
  /-- Whether the escrow has a record of the link. -/
  | readView (view : View) (linkHex : String)
  /-- The public record of a transaction: whether it succeeded, where there is one. -/
  | loadTransfer (hash : String)
  /-- `Date.now()` -/
  | clock
  deriving DecidableEq

/-- Where a step can throw, with the message where it is looked at. -/
abbrev Ask.Answer : Ask → Type
  | post .. => Except Unit ℕ
  | text => Except String String
  | readView .. => Except Unit Bool
  | loadTransfer _ => Except Unit (Option Bool)
  | clock => ℕ

/-- What the sender is told. -/
inductive SendError
  | depositUncertain (linkHex link : String) (retrySafeAfter : Option ℕ)
  | payoutUncertain (hash : String) (retrySafeAfter : Option ℕ)
  | error (message : String)
  /-- Thrown by a step, and passed on. -/
  | passed (message : String)
  /-- Reading what `JSON.parse` makes of the body throws. -/
  | malformed
  deriving DecidableEq

/-- A `DepositUncertainError` or a `PayoutUncertainError`. -/
def SendError.isUncertain : SendError → Bool
  | depositUncertain .. | payoutUncertain .. => true
  | _ => false

abbrev Sending := Dialogue Ask.Answer SendError

/-- Wait for one answer. -/
abbrev ask (q : Ask) : Sending q.Answer := Dialogue.question q

/-- `res.ok` -/
def isOk (status : ℕ) : Bool := 200 ≤ status && status < 300

/-- `Date.now() >= retrySafeAfter` -/
def retrySafe (retrySafeAfter : Option ℕ) (now : ℕ) : Bool := retrySafeAfter.any (· ≤ now)

def answered (route : String) (status : ℕ) (text : String) : String :=
  route ++ " → " ++ toString status ++ ": " ++ text

/-! ## Deposits -/

/-- A deposit that is signed, and its link. -/
structure PreparedDeposit where
  link : String
  linkHex : String
  tx : SignedTransaction

def PreparedDeposit.uncertain (p : PreparedDeposit) : SendError :=
  .depositUncertain p.linkHex p.link p.tx.retrySafeAfter

inductive Landed
  | yes
  | no
  | unknown

/-- Did the deposit reach the escrow? -/
def v2DepositLanded (view : View) (linkHex : String) : Sending Landed := do
  match ← ask (.readView view linkHex) with
  | .ok found => return if found then .yes else .no
  | .error _ => return .unknown

/-- The `hash` of the body; a missing body has the empty one. -/
def readHash (text : String) : Except SendError (Option Json) :=
  if text = "" then .ok (some (.str ""))
  else
    match Json.parse text with
    | none => .error .malformed
    | some body => (body.property "hash").mapError fun _ => .malformed

/-- An empty escrow counts from the moment the transaction can no longer be included. -/
def notLanded {α : Type} (p : PreparedDeposit) (message : String) : Sending α := do
  if retrySafe p.tx.retrySafeAfter (← ask .clock) then throw (.error message)
  else throw p.uncertain

/-- The connection dropped: the escrow is asked. -/
def depositUnanswered (view : View) (p : PreparedDeposit) : Sending (Option Json) := do
  match ← v2DepositLanded view p.linkHex with
  | .yes => return some (.str "")
  | .unknown => throw p.uncertain
  | .no => notLanded p "couldn't reach the sponsor"

/-- Accepted, and not yet observed: the escrow is asked. -/
def depositUndecided (view : View) (p : PreparedDeposit) (text : String) :
    Sending (Option Json) := do
  match ← v2DepositLanded view p.linkHex with
  | .yes => .ret (readHash text)
  | .unknown => throw p.uncertain
  | .no => notLanded p ("/v2-deposit → not submitted: " ++ text)

def depositAnswered (view : View) (p : PreparedDeposit) (status : ℕ) (text : String) :
    Sending (Option Json) :=
  if status = 202 then depositUndecided view p text
  else if !isOk status then throw (.error (answered "/v2-deposit" status text))
  else .ret (readHash text)

/-- Post a deposit, and settle what became of it. -/
def postDeposit (view : View) (p : PreparedDeposit) (sender : String) : Sending (Option Json) := do
  match ← ask (.post "/v2-deposit" [("xdr", .str p.tx.xdr), ("senderPublicKey", .str sender)]) with
  | .error _ => depositUnanswered view p
  | .ok status =>
    match ← ask .text with
    | .error message => throw (.passed message)
    | .ok text => depositAnswered view p status text

structure V2Link where
  link : String
  linkHex : String
  /-- What the body has under that name. -/
  hash : Option Json

structure V2GroupLink extends V2Link where
  perShare : String
  slots : ℕ
  total : String

def createV2Link (p : PreparedDeposit) (sender : String) : Sending V2Link := do
  let hash ← postDeposit .getDrop p sender
  return { link := p.link, linkHex := p.linkHex, hash := hash }

def createV2GroupLink (p : PreparedDeposit) (sender perShare : String) (slots : ℕ)
    (total : String) : Sending V2GroupLink := do
  let hash ← postDeposit .getPool p sender
  return { link := p.link, linkHex := p.linkHex, hash := hash, perShare, slots, total }

/-! ## Payments -/

structure PayoutInput where
  tx : SignedTransaction
  senderPublicKey : String
  destination : String
  amount : String

/-- `UNCONFIRMED_STATUS` -/
def unconfirmedStatus : List ℕ := [202, 408, 500, 502, 504, 522, 524]

/-- The mainnet answer that says nothing. -/
def sponsorGaveNoReason (text : String) : Bool :=
  match Json.parse text with
  | none => false
  | some body =>
    match body.property "error" with
    | .ok (some (.str reason)) => reason = "request failed"
    | _ => false

inductive PayoutRecord
  | confirmed
  | rejected
  | absent
  | unknown

/-- What the public record says about one payment. -/
def payoutRecord (hash : String) : Sending PayoutRecord := do
  match ← ask (.loadTransfer hash) with
  | .error _ => return .unknown
  | .ok none => return .absent
  | .ok (some successful) => return if successful then .confirmed else .rejected

/-- An answer that decided nothing: the ledger is asked. -/
def settle (tx : SignedTransaction) (detail : String) : Sending Json := do
  match ← payoutRecord tx.hash with
  | .confirmed => return .obj [("hash", .str tx.hash)]
  | .rejected => throw (.error detail)
  | .absent =>
    if retrySafe tx.retrySafeAfter (← ask .clock) then throw (.error detail)
    else throw (.payoutUncertain tx.hash tx.retrySafeAfter)
  | .unknown => throw (.payoutUncertain tx.hash tx.retrySafeAfter)

/-- The answer leaves open what became of the payment. -/
def decidesNothing (status : ℕ) (text : String) : Bool :=
  status ∈ unconfirmedStatus || mentions "submit unconfirmed" text || sponsorGaveNoReason text

def payoutAnswered (tx : SignedTransaction) (status : ℕ) (text : String) : Sending Json :=
  if decidesNothing status text then settle tx (answered "/payout" status text)
  else if !isOk status then throw (.error (answered "/payout" status text))
  else
    match Json.parse text with
    | none => throw .malformed
    | some result => return result

/-- Post a payment, and settle what became of it. -/
def sendOut (input : PayoutInput) : Sending Json := do
  match ← ask (.post "/payout" [("xdr", .str input.tx.xdr),
    ("senderPublicKey", .str input.senderPublicKey), ("destination", .str input.destination),
    ("amount", .str input.amount)]) with
  | .error _ => settle input.tx "/payout → no answer"
  | .ok status =>
    match ← ask .text with
    | .error _ => settle input.tx "/payout → no answer"
    | .ok text => payoutAnswered input.tx status text

end Lumenia.Web
