import Lumenia.Contracts.LumenDrop
import Lumenia.Web.Send

/-!
# Claiming a link

The recipient's side of a link, `apps/web/lib/lumendrop.ts`: what the escrows say of it
(`readClaimState`, `poolStatusOf`), the record of it on this device (`readClaimLatch`), the claim
itself (`claimV2ToSponsoredAccount`, `claimV2`), what an undecided one comes to
(`settleUnconfirmedClaim`) and what a device that already asked may say (`readClaimProgress`).

One link on one device: the link's key and the item of `localStorage` that belongs to it are left out
of the questions.
-/

namespace Lumenia.Web.Claim

open LumenDrop (Drop Pool)

inductive V2LinkKind
  | single
  | group
  deriving DecidableEq

def V2LinkKind.text : V2LinkKind → String
  | single => "single"
  | group => "group"

/-- What `get_drop` and `get_pool` return. -/
abbrev Record : View → Type
  | .getDrop => Drop String
  | .getPool => Pool String

def kindOf : View → V2LinkKind
  | .getDrop => .single
  | .getPool => .group

def V2LinkKind.view : V2LinkKind → View
  | single => .getDrop
  | group => .getPool

/-- What the app waits for, or reads. -/
inductive Ask
  /-- `localStorage.getItem(latchKey(linkHex))` -/
  | getItem
  | setItem (text : String)
  /-- `Date.now()` -/
  | now
  | readView (contract : String) (view : View)
  /-- The public key of `Keypair.random()`. -/
  | random
  /-- `/create-account`, and the transaction it answers with. -/
  | createAccount (recipient : String)
  /-- The guard of that transaction, the recipient's signature and `submitOrConfirm`. -/
  | submitSandwich (recipient : String)
  | onAccountReady (publicKey : String)
  /-- The bytes that the link's key signs, read from the contract. -/
  | claimMessage (contract : String) (kind : V2LinkKind) (payout : String)
  /-- `/v2-claim`, and the status of its answer. -/
  | post (contract : String) (kind : V2LinkKind) (payout : String)
  /-- The body of the answer. -/
  | text (contract : String) (kind : V2LinkKind) (payout : String) (status : ℕ)
  | getTransaction (hash : String)
  /-- The USDC of an account in stroops, where it could be read. -/
  | payoutStroops (address : String)
  | sleep (ms : ℕ)
  deriving DecidableEq

/-- Where a step can throw, with the message. -/
abbrev Ask.Answer : Ask → Type
  | getItem => Except String (Option String)
  | setItem _ | createAccount _ | submitSandwich _ | onAccountReady _ | claimMessage .. =>
    Except String Unit
  | now => ℕ
  | readView _ view => Except String (Option (Record view))
  | random => String
  | post .. => Except String ℕ
  | text .. | getTransaction _ => Except String String
  | payoutStroops _ => Except String (Option ℤ)
  | sleep _ => Unit

inductive Thrown
  | error (message : String)
  /-- A body that is not what was expected. -/
  | malformed
  /-- The page is gone. -/
  | cutOff
  deriving DecidableEq

abbrev Call := Dialogue Ask.Answer Thrown

abbrev ask (q : Ask) : Call q.Answer := Dialogue.question q

/-- Wait for an answer, and throw where there is none. -/
def orThrow {α : Type} : Except String α → Call α
  | .ok a => pure a
  | .error message => throw (.error message)

structure NetworkConfig where
  contract : String
  legacyContracts : List String

def dropContracts (net : NetworkConfig) : List String :=
  net.contract :: net.legacyContracts.filter (· ≠ net.contract)

/-! ## What the escrows say -/

inductive ClaimState
  | claimable
  | alreadyClaimed
  | noSuchDrop
  | expired
  deriving DecidableEq

/-- What the record of a link says at this time. -/
def stateOf (nowSec : ℕ) : (view : View) → Record view → ClaimState
  | .getDrop, d => if d.claimed then .alreadyClaimed else .claimable
  | .getPool, p =>
    if p.expiry ≤ nowSec then .expired
    else if p.slots ≤ p.claimed ∨ p.remaining < p.amountPer then .alreadyClaimed
    else .claimable

/-- Which views are asked; a link that says it is a group link has no drop. -/
def views (groupHint : Bool) : List View := if groupHint then [.getPool] else [.getDrop, .getPool]

/-- Ask one escrow after another, until one has the record; `unread` where one has not answered. -/
def searchRecord (nowSec : ℕ) (none : V2LinkKind) :
    List (View × String) → Bool → Call (ClaimState × V2LinkKind)
  | [], unread =>
    if unread then throw (.error "couldn't read the escrow") else return (.noSuchDrop, none)
  | (view, contract) :: rest, unread => do
    match ← ask (.readView contract view) with
    | .error _ => searchRecord nowSec none rest true
    | .ok .none => searchRecord nowSec none rest unread
    | .ok (some record) => return (stateOf nowSec view record, kindOf view)

def readClaimState (net : NetworkConfig) (groupHint : Bool) : Call (ClaimState × V2LinkKind) := do
  let now ← ask .now
  let asked := (views groupHint).flatMap fun view => (dropContracts net).map fun c => (view, c)
  searchRecord (now / 1000) (if groupHint then .group else .single) asked false

inductive PoolStatus
  | open
  | full
  | expired
  | closed
  deriving DecidableEq

def poolStatusOf (p : Pool String) (nowSec : ℕ) : PoolStatus :=
  if p.expiry ≤ nowSec then
    if p.remaining ≤ 0 then .closed else .expired
  else if p.slots ≤ p.claimed ∨ p.remaining ≤ 0 then .full else .open

/-- The first escrow that answers with the record, or else the one in use. -/
def searchContract (net : NetworkConfig) (kind : V2LinkKind) : List String → Call String
  | [] => return net.contract
  | contract :: rest => do
    match ← ask (.readView contract kind.view) with
    | .ok (some _) => return contract
    | .ok none | .error _ => searchContract net kind rest

/-- The escrow that a claim goes to. -/
def resolveDropContract (net : NetworkConfig) (kind : V2LinkKind) : Call String :=
  if (dropContracts net).length = 1 then return net.contract
  else searchContract net kind (dropContracts net)

/-! ## Answers of the relay -/

/-- `/^[0-9a-f]{64}$/i` -/
def isHash (s : String) : Bool :=
  s.length = 64 && s.toList.all fun c =>
    ('0' ≤ c && c ≤ '9') || ('a' ≤ c.toLower && c.toLower ≤ 'f')

/-- A property of a body that is an object. -/
def property (name : String) (body : Option Json) : Option Json :=
  body.bind fun body => (body.property name).toOption.join

/-- The body says that the claim was accepted and is undecided. -/
def saysUndecided (body : Option Json) : Bool :=
  (match property "confirmed" body with
  | some (.bool b) => !b
  | _ => false) ||
  match property "error" body with
  | some (.str reason) => mentions "submit unconfirmed" reason
  | _ => false

/-- The hash of a claim that was accepted and is undecided, or missing for any other answer. -/
def readRelayReply (status : ℕ) (text : String) : Option String :=
  let body := Json.parse text
  if status ≠ 202 ∧ ¬(isOk status = true ∧ saysUndecided body = true) then none
  else
    match property "hash" body with
    | some (.str hash) => some (if isHash hash then hash.toLower else "")
    | _ => some ""

inductive Relayed
  | confirmed (hash : Option Json)
  | undecided (hash : String)

def readAnswer (status : ℕ) (text : String) : Except Thrown Relayed :=
  match readRelayReply status text with
  | some hash => .ok (.undecided hash)
  | none =>
    if !isOk status then .error (.error (answered "/v2-claim" status text))
    else
      match Json.parse text with
      | none => .error .malformed
      | some body =>
        match body.property "hash" with
        | .error _ => .error .malformed
        | .ok hash => .ok (.confirmed hash)

def claimV2 (net : NetworkConfig) (kind : V2LinkKind) (payout : String) : Call Relayed := do
  let contract ← resolveDropContract net kind
  let message ← ask (.claimMessage contract kind payout)
  orThrow message
  let status ← ask (.post contract kind payout)
  let status ← orThrow status
  let text ← ask (.text contract kind payout status)
  let text ← orThrow text
  .ret (readAnswer status text)

/-! ## Undecided claims -/

inductive Settled
  | claimed
  | notLanded
  | unknown
  deriving DecidableEq

def timeboundMs : ℕ := 60000

def marginMs : ℕ := 20000

def stepMs : ℕ := 2000

structure SettleOptions where
  acceptedAt : ℕ
  timeboundMs : Option ℕ := none
  marginMs : Option ℕ := none
  stepMs : Option ℕ := none
  useBalance : Option Bool := none

def SettleOptions.deadline (opts : SettleOptions) : ℕ :=
  opts.acceptedAt + opts.timeboundMs.getD Claim.timeboundMs + opts.marginMs.getD Claim.marginMs

/-- What the transaction itself says: a verdict, or whether it was not found. -/
def askTransaction (hash : String) : Call (Settled ⊕ Bool) := do
  if isHash hash then
    match ← ask (.getTransaction hash) with
    | .error _ => return .inr false
    | .ok status =>
      if status = "SUCCESS" then return .inl .claimed
      else if status = "FAILED" then return .inl .notLanded
      else return .inr (status = "NOT_FOUND")
  else return .inr false

/-- Whether the payout account holds dollars; unreadable is not empty. -/
def askBalance (payout : String) (useBalance : Bool) : Call Bool := do
  if useBalance then
    match ← ask (.payoutStroops payout) with
    | .ok (some held) => return decide (0 < held)
    | _ => return false
  else return false

/-- The polling loop, for so many rounds until the page is gone. -/
def settleUnconfirmedClaim (hash payout : String) (opts : SettleOptions) : ℕ → Call Settled
  | 0 => throw .cutOff
  | rounds + 1 => do
    -- taken before the reads: only an answer asked for at or past the deadline is final
    let start ← ask .now
    match ← askTransaction hash with
    | .inl verdict => return verdict
    | .inr notFound =>
      if ← askBalance payout (opts.useBalance.getD true) then return .claimed
      else if opts.deadline ≤ start then return if notFound then .notLanded else .unknown
      else do
        ask (.sleep (opts.stepMs.getD stepMs))
        settleUnconfirmedClaim hash payout opts rounds

/-! ## The record on this device -/

inductive LatchState
  | attempted
  | taken
  deriving DecidableEq

def LatchState.text : LatchState → String
  | attempted => "attempted"
  | taken => "taken"

structure ClaimLatch where
  state : LatchState
  payout : String
  link : V2LinkKind
  at_ : Option ℕ
  deriving DecidableEq

/-- The item as it is written; its moment is missing where it was not a number. -/
def ClaimLatch.encode (latch : ClaimLatch) : String :=
  Json.stringify ([("state", .str latch.state.text), ("payout", .str latch.payout),
    ("link", .str latch.link.text)] ++ latch.at_.toList.map fun at_ => ("at", .nat at_))

/-- What the item says, or nothing where it says something else. -/
def decodeLatch (raw : String) : Option ClaimLatch :=
  let body := Json.parse raw
  match property "payout" body, property "state" body with
  | some (.str payout), some (.str state) =>
    if state = "attempted" ∨ state = "taken" then
      some {
        state := if state = "taken" then .taken else .attempted
        payout := payout
        link := if ((property "link" body).bind Json.string?) = some "group" then .group else .single
        at_ := match property "at" body with
          | some (.num numeral) => numeral.toNat?
          | _ => none }
    else none
  | _, _ => none

def readClaimLatch : Call (Option ClaimLatch) := do
  match ← ask .getItem with
  | .ok (some raw) => return decodeLatch raw
  | .ok none | .error _ => return none

def writeClaimLatch (latch : ClaimLatch) : Call Unit := do
  let _ ← ask (.setItem latch.encode)
  return ()

/-! ## The claim -/

inductive V2ClaimOutcome
  /-- `seeded` where the payout was made in this attempt and its key is handed out. -/
  | claimed (hash : Option Json) (publicKey : String) (seeded : Bool) (link : V2LinkKind)
  | alreadyYours (publicKey : String) (link : V2LinkKind)
  | alreadyClaimed (link : V2LinkKind)
  | noSuchDrop (link : V2LinkKind)
  | expired (link : V2LinkKind)

/-- The outcome of a link that cannot be claimed. -/
def ClaimState.refusal (link : V2LinkKind) : ClaimState → Option V2ClaimOutcome
  | claimable => none
  | alreadyClaimed => some (.alreadyClaimed link)
  | noSuchDrop => some (.noSuchDrop link)
  | expired => some (.expired link)

/-- `classifyClaimError(e).kind === "already-yours"`; `redact` takes keys out of the text. -/
def isAlreadyYours (redact : String → String) : Thrown → Bool
  | .error message =>
    let blob := String.ofList ((redact message).toList.take 2000)
    !mentions "missing key" blob && !mentions "missing balance" blob &&
      !mentions "nothing was signed" blob && mentions "already-claimed-this" blob
  | .malformed | .cutOff => false

/-- Make an account for the claim. -/
def freshPayout : Call String := do
  let publicKey ← ask .random
  let created ← ask (.createAccount publicKey)
  orThrow created
  let submitted ← ask (.submitSandwich publicKey)
  orThrow submitted
  let ready ← ask (.onAccountReady publicKey)
  orThrow ready
  return publicKey

/-- Relay the claim, and settle it where the relay could not. -/
def relayAndSettle (net : NetworkConfig) (kind : V2LinkKind) (payout : String) (fresh : Bool)
    (rounds : ℕ) : Call (Option Json) := do
  match ← claimV2 net kind payout with
  | .confirmed hash => return hash
  | .undecided hash => do
    let acceptedAt ← ask .now
    match ← settleUnconfirmedClaim hash payout { acceptedAt, useBalance := some fresh } rounds with
    | .claimed => return some (.str hash)
    | .notLanded =>
      throw (.error ("v2-claim did not go through (tx " ++ hash ++
        "): the network refused it or its window closed"))
    | .unknown =>
      throw (.error ("v2-claim tx NOT_FOUND: the relayer accepted this claim (" ++ hash ++
        ") but the ledger has not shown it yet"))

def latchNow (state : LatchState) (payout : String) (link : V2LinkKind) : Call Unit := do
  let at_ ← ask .now
  writeClaimLatch ⟨state, payout, link, some at_⟩

/-- From the moment the link is known to be claimable. -/
def claimTo (redact : String → String) (net : NetworkConfig) (kind : V2LinkKind) (payout : String)
    (fresh : Bool) (rounds : ℕ) : Call V2ClaimOutcome := do
  latchNow .attempted payout kind
  match ← (relayAndSettle net kind payout fresh rounds).outcome with
  | .ok hash => do
    latchNow .taken payout kind
    return .claimed hash payout fresh kind
  | .error e =>
    if isAlreadyYours redact e then do
      latchNow .taken payout kind
      return .alreadyYours payout kind
    else throw e

/-- The payout to present: the one of the latch, or a new one. -/
def payoutFor (latch : Option ClaimLatch) : Call (String × Bool) :=
  match (latch.map ClaimLatch.payout).filter (· ≠ "") with
  | some payout => return (payout, false)
  | none => do
    let payout ← freshPayout
    return (payout, true)

def claimV2ToSponsoredAccount (redact : String → String) (net : NetworkConfig) (group : Bool)
    (rounds : ℕ) : Call V2ClaimOutcome := do
  let latch ← readClaimLatch
  match latch.filter fun l => l.state = .taken && l.link = .group with
  | some l => return .alreadyYours l.payout l.link
  | none => do
    let (state, kind) ← readClaimState net group
    match state.refusal kind with
    | some outcome => return outcome
    | none => do
      let (payout, fresh) ← payoutFor latch
      claimTo redact net kind payout fresh rounds

/-! ## What this device may say -/

inductive ResumeDecision
  | nothing
  | taken (stroops : ℤ)
  | resume
  | missed
  | unsure
  deriving DecidableEq

def resumeDecision (latch : Option ClaimLatch) (payoutUsd : Option ℤ) (claimable : Option Bool) :
    ResumeDecision :=
  match latch, payoutUsd with
  | none, _ => .nothing
  | some _, none => .unsure
  | some _, some usd =>
    if 0 < usd then .taken usd
    else
      match claimable with
      | none => .unsure
      | some true => .resume
      | some false => .missed

/-- Whether the link can still pay, where the payout account came back empty. -/
def probeLink (net : NetworkConfig) (group : Bool) (payoutUsd : Option ℤ) : Call (Option Bool) :=
  if payoutUsd = some 0 then do
    match ← (readClaimState net group).outcome with
    | .ok (state, _) => return some (decide (state = .claimable))
    | .error _ => return none
  else return none

def readClaimProgress (net : NetworkConfig) (group : Option Bool) :
    Call (ResumeDecision × Option ClaimLatch) := do
  match ← readClaimLatch with
  | none => return (.nothing, none)
  | some latch => do
    let held ← ask (.payoutStroops latch.payout)
    let payoutUsd := held.toOption.join
    let claimable ← probeLink net (group.getD (latch.link = .group)) payoutUsd
    let decision := resumeDecision (some latch) payoutUsd claimable
    match decision with
    | .taken _ =>
      if latch.state ≠ .taken then writeClaimLatch { latch with state := .taken }
      return (decision, some latch)
    | _ => return (decision, some latch)

end Lumenia.Web.Claim
