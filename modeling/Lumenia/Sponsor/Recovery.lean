import Lumenia.Sponsor.DayKeys
import Lumenia.Sponsor.RecoveryStore
import Lumenia.Stellar.StrKey

/-!
# Recovery codes, rows and tickets

`requestOtp` and `verifyOtpDetailed` of `apps/sponsor/src/lib/recovery-otp.ts`, `putBox`,
`releaseBox` and the tickets of `recovery-store.ts`, `verifyHandleProof` of `handles.ts`, and the
routes of `worker.ts` that call them, all with a key-value store configured. What a route throws is
left to the worker.
-/

namespace Lumenia.Sponsor.Recovery

open Dialogue Stellar

/-- What the deployment and the platform bring. -/
structure Env where
  sha256Hex : String → String
  toLowerCase : String → String
  /-- `Keypair.fromPublicKey(pubkey).verify(message, proof)`, false where it throws. -/
  verifies : (pubkey message proof : String) → Bool
  validateBox : Option Json → Except String Box
  network : String
  requireOwner : Bool

/-! ## Texts -/

/-- `length` of a JavaScript string. -/
def utf16Length (s : String) : ℕ := (s.toList.map fun c => if c.toNat < 0x10000 then 1 else 2).sum

/-- `/^[0-9a-f]{64}$/` -/
def isId (s : String) : Bool :=
  s.length = 64 && s.toList.all fun c => ('0' ≤ c && c ≤ '9') || ('a' ≤ c && c ≤ 'f')

/-- `/^\d{6}$/` -/
def isSixDigits (s : String) : Bool := s.length = 6 && s.toList.all fun c => '0' ≤ c && c ≤ '9'

/-- `/^[0-9a-f]{8,32}$/` -/
def isNonce (s : String) : Bool :=
  8 ≤ s.length && s.length ≤ 32 &&
    s.toList.all fun c => ('0' ≤ c && c ≤ '9') || ('a' ≤ c && c ≤ 'f')

/-- A dot with something on both sides. -/
def hasInnerDot (cs : List Char) : Bool := (cs.drop 1).dropLast.contains '.'

/-- `EMAIL_RE` -/
def isEmail (s : String) : Bool :=
  match s.toList.span (· ≠ '@') with
  | (_ :: _, _ :: domain) =>
    !s.toList.any isSpace && !domain.contains '@' && hasInnerDot domain
  | _ => false

/-- A value that `typeof` calls a string. -/
def text : Option Json → Option String
  | some (.str s) => some s
  | _ => none

/-! ## Codes -/

def ttlSec : ℕ := 600

def maxTries : ℕ := 5

def maxVerifyPerWindow : ℤ := 12

def verifyWindowSec : ℕ := 3600

def maxOtpPerWindow : ℤ := 10

def otpWindowSec : ℕ := 3600

/-- `Number(first?.result ?? 0)`, missing where it is not a number. -/
def firstNumber (replies : List KvReply) : Option ℤ :=
  match replies[0]?.bind KvReply.result with
  | none | some .null => some 0
  | some (.int n) => some n
  | some (.str s) => s.toInt?

/-- Nothing is greater than a value that is not a number. -/
def exceeds (replies : List KvReply) (max : ℤ) : Bool := (firstNumber replies).any (max < ·)

def overRequestCap (id : String) : Call Bool := do
  match ← ask (.incr (.otpreq id) otpWindowSec) with
  | .error _ => return false
  | .ok replies => return exceeds replies maxOtpPerWindow

def overVerifyBudget (id : String) : Call Bool := do
  match ← ask (.incr (.otptry id) verifyWindowSec) with
  | .error _ => throw .otpCheckUnavailable
  | .ok replies => return exceeds replies maxVerifyPerWindow

inductive Verdict
  | ok
  | wrong
  | budget
  deriving DecidableEq

/-- `await kvDel(kv, key)`, which swallows what goes wrong. -/
def kvDel (key : Key) : Call Unit := do
  let _ ← ask (.del key)
  return ()

section

variable (env : Env)

def idForEmail (email : String) : String := env.sha256Hex (env.toLowerCase (trim email))

def requestOtp (rawEmail : Option Json) (purpose : OtpPurpose) : Call Unit := do
  let email := env.toLowerCase (trim ((text rawEmail).getD ""))
  if 200 < utf16Length email ∨ isEmail email = false then throw (.error "invalid email")
  else do
    let id := idForEmail env email
    if ← overRequestCap id then throw .otpBudgetExceeded
    else do
      let code ← ask .sixDigit
      let codeHash := env.sha256Hex (id ++ ":" ++ code)
      let now ← ask .now
      let stored ← ask (.set (.otp id) ⟨codeHash, now + ttlSec * 1000, 0⟩ (some ttlSec))
      orThrow stored
      let sent ← ask (.sendCodeEmail email code purpose)
      orThrow sent

/-- `verifyOtpDetailed` after the budget. -/
def judgeCode (id code : String) : Call Verdict := do
  let found ← ask (.get (.otp id))
  match ← orThrow found with
  | none => return .wrong
  | some record =>
    let now ← ask .now
    if record.exp < now ∨ maxTries ≤ record.tries then do
      kvDel (.otp id)
      return .wrong
    else do
      let equal ← ask (.compare id code record.codeHash)
      if equal then do
        kvDel (.otp id)
        return .ok
      else do
        let now ← ask .now
        let remainSec := max 1 ((record.exp - now + 999) / 1000)
        let stored ← ask (.set (.otp id) { record with tries := record.tries + 1 } (some remainSec))
        orThrow stored
        return .wrong

def verifyOtpDetailed (rawId rawCode : Option Json) : Call Verdict := do
  let id := ((text rawId).filter fun s => isId s).getD ""
  let code := trim ((text rawCode).getD "")
  if id = "" ∨ isSixDigits code = false then return .wrong
  else do
    if ← overVerifyBudget id then return .budget
    else judgeCode id code

/-! ## Signatures -/

/-- The fields as `String(…)` and `Number(…)` read them; `ts` is missing where it is not finite, and
`tsText` is how it is written. -/
structure OwnerProof where
  pubkey : String
  ts : Option Rat
  tsText : String
  nonce : String
  proof : String

def proofSkewSec : Rat := 300

def proofMemorySec : ℕ := 660

/-- `handleProofMessage` for the action `links`. -/
def handleProofMessage (name pubkey ts nonce network : String) : String :=
  "lumenia-handle-links:v1:" ++ name ++ ":" ++ pubkey ++ ":" ++ ts ++ ":" ++ nonce ++ ":" ++ network

/-- The message the owner of a proof has signed if it is good. -/
def OwnerProof.message (owner : OwnerProof) (name : String) : String :=
  handleProofMessage name owner.pubkey owner.tsText owner.nonce env.network

/-- `await kvSetNx(KEY_PROOF + hash, "1", PROOF_MEMORY_SEC)` -/
def kvSetNx (hash : String) : Call Bool := do
  let replies ← ask (.setNx hash proofMemorySec)
  let replies ← orThrow replies
  match replies[0]? with
  | none => return false
  | some first =>
    if first.failed then throw (.error ("handle store error: " ++ first.error.getD ""))
    else return decide (first.result = some (.str "OK"))

/-- A refusal is returned, not thrown. -/
def verifyHandleProof (name : String) (owner : OwnerProof) : Call (Except String Unit) := do
  if isValidEd25519PublicKey owner.pubkey = false then return .error "invalid account address"
  else do
    let now ← ask .now
    let sec : Rat := ((now / 1000 : ℕ) : Rat)
    if (owner.ts.all fun ts => proofSkewSec < sec - ts ∨ proofSkewSec < ts - sec) then
      return .error "this request expired — check your device clock and try again"
    else if isNonce owner.nonce = false then return .error "malformed request"
    else do
      let message := owner.message env name
      if env.verifies owner.pubkey message owner.proof = false then
        return .error "that signature does not match this account"
      else do
        if ← kvSetNx (env.sha256Hex message) then return .ok ()
        else return .error "this request was already used"

/-- The hash of the key that signed, or why the proof is refused. -/
def verifyOwner (name : String) (owner : OwnerProof) : Call (Except String String) := do
  match ← verifyHandleProof env name owner with
  | .error reason => return .error reason
  | .ok () => return .ok (env.sha256Hex owner.pubkey)

def ownerHashFrom (id : String) : Option OwnerProof → Call (Option String)
  | none => return none
  | some owner => do
    match ← verifyOwner env id owner with
    | .error reason => throw (.error reason)
    | .ok hash => return some hash

/-! ## Rows -/

def maxBoxBytes : ℕ := 4096

def emailTakenError : String :=
  "That email already holds a backup for a different account. Use another email address for this one."

def ownerRequiredError : String :=
  "Back up again from the latest version of Lumenia: this backup has to be signed by your account."

def needsSignatureError : String :=
  "Replacing this backup needs a signature from the account it belongs to."

def differentPasskeyError : String := "This Face ID backup belongs to a different passkey."

def validateId (id : Option Json) : Except String String :=
  match (text id).filter fun s => isId s with
  | some s => .ok s
  | none => .error "id must be a 64-char hex string"

/-- `JSON.stringify(row)` -/
def StoredRow.json (row : StoredRow) : String :=
  let field (name : String) (value : Option String) :=
    match value with
    | none => ""
    | some s => ",\"" ++ name ++ "\":\"" ++ s ++ "\""
  "\x7b\"box\":" ++ row.box ++ field "proofHash" row.proofHash ++ field "ownerHash" row.ownerHash ++
    "\x7d"

/-- `readRow(KEY_EMAIL, id)` -/
def readRow (id : String) : Call (Option StoredRow) := do
  let found ← ask (.get (.email id))
  orThrow found

/-- `writeRow(KEY_EMAIL, id, row)` -/
def writeRow (id : String) (row : StoredRow) : Call Unit := do
  if maxBoxBytes < utf16Length row.json then throw (.error "box too large")
  else do
    let stored ← ask (.set (.email id) row none)
    orThrow stored

/-- `deleteRow(KEY_EMAIL, id)` -/
def deleteRow (id : String) : Call Unit := do
  let deleted ← ask (.del (.email id))
  orThrow deleted

/-- Whether the row is now bound. -/
def putBox (rawId rawBox : Option Json) (owner : Option OwnerProof) (replace : Bool) : Call Bool := do
  let id ← orThrow (validateId rawId)
  let box ← orThrow (env.validateBox rawBox)
  let ownerHash ← ownerHashFrom env id owner
  match ← readRow id with
  | none =>
    if ownerHash = none ∧ env.requireOwner = true then
      throw (.publicRefusal ownerRequiredError (some "owner-required"))
    else do
      writeRow id ⟨box, none, ownerHash⟩
      return ownerHash.isSome
  | some existing =>
    match existing.ownerHash, ownerHash with
    | some _, none => throw (.publicRefusal needsSignatureError none)
    | some h, some h' =>
      if h' ≠ h then throw (.backupConflict false existing.box)
      else do
        writeRow id ⟨box, none, some h'⟩
        return true
    | none, some h =>
      if replace then do
        writeRow id ⟨box, none, some h⟩
        return true
      else throw (.backupConflict true existing.box)
    | none, none => throw (.backupConflict true existing.box)

/-- Whether the row is released, or why the proof is refused. -/
def releaseBox (rawId : Option Json) (owner : OwnerProof) : Call (Except String Bool) := do
  let id ← orThrow (validateId rawId)
  match ← verifyOwner env ("release:" ++ id) owner with
  | .error reason => return .error reason
  | .ok ownerHash =>
    let row ← readRow id
    if row.bind StoredRow.ownerHash ≠ some ownerHash then return .ok false
    else do
      deleteRow id
      return .ok true

/-- Whether the row is bound to the signer, or why the proof is refused. -/
def checkMine (rawId : Option Json) (owner : OwnerProof) : Call (Except String Bool) := do
  let id ← orThrow (validateId rawId)
  match ← verifyOwner env ("check:" ++ id) owner with
  | .error reason => return .error reason
  | .ok ownerHash =>
    let row ← readRow id
    return .ok (decide (row.bind StoredRow.ownerHash = some ownerHash))

/-- The box and whether its row is bound. -/
def getBoxState (rawId : Option Json) : Call (Option (Box × Bool)) := do
  let id ← orThrow (validateId rawId)
  let row ← readRow id
  return row.map fun row => (row.box, row.ownerHash.isSome)

def aliasWriteCheck (rawId rawProof : Option Json) : Call (String × String) := do
  let id ← orThrow (validateId rawId)
  match (text rawProof).filter fun s => isId s with
  | none => throw (.error "aliasProof must be a 64-char hex string")
  | some proof =>
    let proofHash := env.sha256Hex proof
    let found ← ask (.get (.pk id))
    let existing ← orThrow found
    if ((existing.bind StoredRow.proofHash).all fun h => h = proofHash) = false then
      throw (.publicRefusal differentPasskeyError none)
    else return (id, proofHash)

def putAliasBox (rawId rawBox rawProof : Option Json) : Call Unit := do
  let box ← orThrow (env.validateBox rawBox)
  let (id, proofHash) ← aliasWriteCheck env rawId rawProof
  let row : StoredRow := ⟨box, some proofHash, none⟩
  if maxBoxBytes < utf16Length row.json then throw (.error "box too large")
  else do
    let stored ← ask (.set (.pk id) row none)
    orThrow stored

/-! ## Tickets -/

def recoveryTicketTtlSec : ℕ := 600

def mintRecoveryTicket (rawId : Option Json) : Call String := do
  let id ← orThrow (validateId rawId)
  let ticket ← ask .randomHex
  let stored ← ask (.set (.ticket ticket) id (some recoveryTicketTtlSec))
  orThrow stored
  return ticket

def consumeRecoveryTicket (rawTicket rawId : Option Json) : Call Bool :=
  match (text rawTicket).filter fun s => isId s, (text rawId).filter fun s => isId s with
  | some ticket, some id => do
    let replies ← ask (.getdel ticket)
    let replies ← orThrow replies
    match replies[0]? with
    | none => return false
    | some first =>
      if first.failed then throw (.error ("recovery store error: " ++ first.error.getD ""))
      else return decide (first.result = some (.str id))
  | _, _ => return false

/-! ## Routes -/

inductive Field
  | str (s : String)
  | bool (b : Bool)
  | box (b : Box)
  deriving DecidableEq

structure Response where
  status : ℕ
  body : List (String × Field)
  deriving DecidableEq

/-- The body of `/recovery`; `owner` is missing where it is not an object. -/
structure RecoveryBody where
  id : Option Json
  box : Option Json
  code : Option Json
  ticket : Option Json
  owner : Option OwnerProof
  replace : Bool
  aliasId : Option Json
  aliasProof : Option Json

/-- `v !== undefined && v !== null && v !== ""` -/
def present : Option Json → Bool
  | none | some .null => false
  | some (.str s) => s ≠ ""
  | some _ => true

def otpBudgetError : String :=
  "Too many tries for this email in the last hour. Wait, then ask for a new code."

def otpBudgetBody : List (String × Field) := [("error", .str otpBudgetError), ("code", .str "otp-budget")]

def invalidCode : Response := ⟨401, [("error", .str "invalid or expired code")]⟩

/-- The answer of a request that is not let in. -/
def refusal : Verdict → Option Response
  | .ok => none
  | .budget => some ⟨429, otpBudgetBody⟩
  | .wrong => some invalidCode

/-- `enforceRateLimit`, and what a limited request is answered. -/
def rateLimited (k : Call Response) : Call Response := do
  match ← ask .enforceRateLimit with
  | some reason => return ⟨429, [("error", .str reason)]⟩
  | none => k

def ticketField (ticket : Option String) : List (String × Field) :=
  ticket.toList.map fun t => ("ticket", .str t)

/-- Let the request in by its ticket or its code. -/
def gate (body : RecoveryBody) : Call (Option Response) := do
  if present body.ticket then do
    if ← consumeRecoveryTicket body.ticket body.id then return none
    else return some invalidCode
  else do
    let verdict ← verifyOtpDetailed body.id body.code
    return refusal verdict

def freshTicket (wanted : Bool) (id : Option Json) : Call (Option String) := do
  if wanted then
    let ticket ← mintRecoveryTicket id
    return some ticket
  else return none

/-- A 409, with a fresh ticket only for a write that a code let in. -/
def answerConflict (body : RecoveryBody) (unbound : Bool) (box : Box) : Call Response := do
  let ticket ← freshTicket (unbound && !present body.ticket) body.id
  return ⟨409, [("error", .str emailTakenError), ("code", .str "email-taken"),
    ("unbound", .bool unbound), ("box", .box box)] ++ ticketField ticket⟩

def storeAlias (body : RecoveryBody) : Call Unit :=
  if body.aliasId.isSome then putAliasBox env body.aliasId body.box body.aliasProof else pure ()

/-- The email row, and then the alias row. -/
def storeRows (body : RecoveryBody) : Call Response := do
  match ← (putBox env body.id body.box body.owner body.replace).outcome with
  | .error (.backupConflict unbound box) => answerConflict body unbound box
  | .error e => throw e
  | .ok bound =>
    storeAlias env body
    return ⟨200, [("ok", .bool true), ("bound", .bool bound)]⟩

/-- `/recovery` behind the gate. -/
def admitted (body : RecoveryBody) : Call Response := do
  if body.aliasId.isSome then do
    if (text body.aliasId).isSome ∧ text body.aliasId = text body.id then
      return ⟨400, [("error", .str "aliasId must differ from id")]⟩
    else do
      let _ ← aliasWriteCheck env body.aliasId body.aliasProof
      storeRows env body
  else storeRows env body

def recovery (body : RecoveryBody) : Call Response :=
  rateLimited do
    if present body.code = present body.ticket then return invalidCode
    else do
      match ← gate body with
      | some response => return response
      | none => admitted env body

def recoveryFetch (id code : Option Json) : Call Response :=
  rateLimited do
    let verdict ← verifyOtpDetailed id code
    match refusal verdict with
    | some response => return response
    | none => do
      match ← getBoxState id with
      | none => return ⟨404, [("error", .str "not found")]⟩
      | some (box, bound) => do
        let ticket ← freshTicket (!bound) id
        return ⟨200, [("box", .box box), ("bound", .bool bound)] ++ ticketField ticket⟩

def recoveryOtp (email : Option Json) (purpose : OtpPurpose) : Call Response :=
  rateLimited do
    match ← (requestOtp env email purpose).outcome with
    | .error .otpBudgetExceeded => return ⟨429, otpBudgetBody⟩
    | .error e => throw e
    | .ok () => return ⟨200, [("ok", .bool true)]⟩

def accountNotConfirmedError : String :=
  "We couldn't confirm this account signed the request. Check your device clock and try again."

def notYoursError : String := "That email doesn't back up this account."

/-- `/recovery-check` and `/recovery-release` up to where they part. -/
def asOwner (id : Option Json) (owner : Option OwnerProof) (k : OwnerProof → Call Response) :
    Call Response :=
  rateLimited do
    match (text id).filter fun s => isId s, owner with
    | some _, some owner => k owner
    | _, _ => return ⟨400, [("error", .str "id and owner are required")]⟩

def recoveryCheck (id : Option Json) (owner : Option OwnerProof) : Call Response :=
  asOwner id owner fun owner => do
    match ← checkMine env id owner with
    | .error _ => return ⟨401, [("error", .str accountNotConfirmedError)]⟩
    | .ok mine => return ⟨200, [("mine", .bool mine)]⟩

def recoveryRelease (id : Option Json) (owner : Option OwnerProof) : Call Response :=
  asOwner id owner fun owner => do
    match ← releaseBox env id owner with
    | .error _ => return ⟨401, [("error", .str accountNotConfirmedError)]⟩
    | .ok false => return ⟨409, [("error", .str notYoursError), ("code", .str "not-yours")]⟩
    | .ok true => return ⟨200, [("ok", .bool true)]⟩

/-- A call of the service that touches these keys. `/pilot-request` and the identity routes verify a
code as well, and then leave the rows as they are. -/
inductive Request
  | recoveryOtp (email : Option Json) (purpose : OtpPurpose)
  | recovery (body : RecoveryBody)
  | recoveryFetch (id code : Option Json)
  | recoveryCheck (id : Option Json) (owner : Option OwnerProof)
  | recoveryRelease (id : Option Json) (owner : Option OwnerProof)
  | verify (id code : Option Json)

/-- What a call ends with. -/
inductive Served
  | response (r : Response)
  | verdict (v : Verdict)
  deriving DecidableEq

def serve : Request → Call Served
  | .recoveryOtp email purpose => .response <$> recoveryOtp env email purpose
  | .recovery body => .response <$> recovery env body
  | .recoveryFetch id code => .response <$> recoveryFetch id code
  | .recoveryCheck id owner => .response <$> recoveryCheck env id owner
  | .recoveryRelease id owner => .response <$> recoveryRelease env id owner
  | .verify id code => .verdict <$> verifyOtpDetailed id code

end

/-! ## Runs -/

section

variable {ι : Type} [DecidableEq ι] (env : Env)

/-- Before any of the calls has begun. -/
def opening (requests : ι → Request) : Crowd ι Ask.Answer Thrown Served (World ι) :=
  ⟨.empty, fun i => serve env (requests i)⟩

/-- Any run of the calls, in any order of their steps, with keys that expire on the way. -/
abbrev Run (met : Condition ι) (requests : ι → Request)
    (x : Crowd ι Ask.Answer Thrown Served (World ι)) : Prop :=
  Leads (Steps env.sha256Hex met) World.Expires (opening env requests) x

end

end Lumenia.Sponsor.Recovery
