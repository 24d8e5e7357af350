import Lumenia.Sponsor.Proofs
import Lumenia.Sponsor.Submit
import Lumenia.Theory.Cells

/-!
# The pilot

The allowlist of the mainnet pilot with its budget of operations (`apps/sponsor/src/lib/pilot.ts`), the
asks to join it (`pilot-request.ts`), and the gate and the route of `worker.ts` over them, with a
configured key-value store, on one network. The commands of a pipeline are executed one by one, and
those of others may come between them. The texts of the mails and what only they show are left out.
-/

namespace Lumenia.Sponsor.Pilot

open Dialogue Proofs Stellar
open Recovery (isEmail Verdict text)

/-! ## The store -/

inductive Key
  | appr (pubkey : String)
  | tx (pubkey : String)
  | status (pubkey : String)
  | email (pubkey : String)
  /-- Under the hash of an email address. -/
  | seen (hash : String)
  | src (pubkey : String)
  | mailed (pubkey : String)
  | revoked (pubkey : String)
  deriving DecidableEq

abbrev Key.Entry : Key → Type
  | tx _ => ℤ
  | _ => String

/-- The key itself, a text. -/
def Key.text (net : String) : Key → String
  | appr pubkey => "pilot:" ++ net ++ ":appr:" ++ pubkey
  | tx pubkey => "pilot:" ++ net ++ ":tx:" ++ pubkey
  | status pubkey => "pilot:" ++ net ++ ":status:" ++ pubkey
  | email pubkey => "pilot:" ++ net ++ ":email:" ++ pubkey
  | seen hash => "pilot:" ++ net ++ ":seen:" ++ hash
  | src pubkey => "pilot:" ++ net ++ ":src:" ++ pubkey
  | mailed pubkey => "pilot:" ++ net ++ ":mailed:" ++ pubkey
  | revoked pubkey => "pilot:" ++ net ++ ":revoked:" ++ pubkey

abbrev Command := Cells.Command Key.Entry

inductive MailKind
  | request
  | moreSends
  | collision
  deriving DecidableEq

/-- What a call waits for. -/
inductive Ask
  | run (command : Command)
  | incr (pubkey : String)
  | decr (pubkey : String)
  /-- The operation that a slot is for: it returns, or throws. -/
  | operate
  /-- Whether the mailer has accepted the mail. -/
  | mailOwner (kind : MailKind) (pubkey : String)
  | now
  | enforceRateLimit
  /-- `kvSetNx` under `lumenia:handle-proof:`. -/
  | rememberProof (hash : String) (ttlSec : ℕ)
  | verifyOtp (id code : String)
  /-- The hash of the account that the row of the email is bound to. -/
  | ownerHash (id : String)

/-- What a step that throws has to say comes as an error. -/
abbrev Ask.Answer : Ask → Type
  | run command => Except String command.Answer
  | incr _ | decr _ => Except String ℤ
  | operate => Except Failure Unit
  | mailOwner .. => Bool
  | now => ℕ
  | enforceRateLimit => Option String
  | rememberProof .. => Except String Bool
  | verifyOtp .. => Except String Verdict
  | ownerHash _ => Except String (Option String)

abbrev Call := Dialogue Ask.Answer String

abbrev ask {ε : Type} (q : Ask) : Dialogue Ask.Answer ε q.Answer := question q

/-- Wait for an answer, and throw where there is none. -/
def orThrow {α : Type} : Except String α → Call α
  | .ok a => pure a
  | .error message => throw message

/-- One command of a pipeline, whose error is thrown when all have been sent. -/
abbrev send {ε : Type} (command : Command) : Dialogue Ask.Answer ε (Except String command.Answer) :=
  ask (.run command)

/-- The first error of the commands. -/
def sendAll : List Command → Call (Option String)
  | [] => return none
  | command :: commands => do
    let result ← send command
    let failed ← sendAll commands
    match result with
    | .error message => return some message
    | .ok _ => return failed

/-- A pipeline whose results are not used. -/
def pipe (commands : List Command) : Call Unit := do
  let failed ← sendAll commands
  match failed with
  | some message => throw message
  | none => return ()

/-- What the deployment and the platform bring. -/
structure Env extends ProofEnv where
  toLowerCase : String → String
  /-- `PILOT_MODE=1` -/
  pilotMode : Bool
  /-- `Number.parseInt` of `PILOT_MAX_TX`, missing where it is not finite. -/
  pilotMaxTx : Option ℤ
  /-- `PILOT_REQUIRE_PROOF=1` -/
  requireProof : Bool
  network : NetworkId

section

variable (env : Env)

def maxTx : ℤ := (env.pilotMaxTx.filter fun n => 0 < n).getD 5

/-! ## The gate -/

/-- A call that throws what its operation throws. -/
abbrev Operation := Dialogue Ask.Answer Failure

/-- Why the wallet is not admitted, if it is not; else a slot of its budget is taken. -/
def enforcePilot (pubkey : String) : Operation (Except String Unit) := do
  let approved ← send (.get (.appr pubkey))
  match approved with
  | .error message => return .error ("pilot allowlist unreadable (fail-closed): " ++ message)
  | .ok approved =>
    if approved ≠ some "1" then return .error "this wallet is not on the pilot allowlist yet"
    else do
      let used ← ask (.incr pubkey)
      match used with
      | .error message => return .error ("pilot counter unavailable (fail-closed): " ++ message)
      | .ok used =>
        if maxTx env < used then do
          let _ ← ask (.decr pubkey)
          return .error ("pilot limit reached: " ++ toString (maxTx env) ++ " transactions used")
        else return .ok ()

/-- The slot is handed back, if the store will have it. -/
def release (pubkey : String) : Operation Unit := do
  let _ ← ask (.decr pubkey)
  return ()

/-- The slot is kept for a submission that may yet land. -/
def withPilotSlot (pubkey : String) : Operation (Except String Unit) :=
  if env.pilotMode = false then do
    let outcome ← ask .operate
    match outcome with
    | .ok () => return .ok ()
    | .error e => throw e
  else do
    let p ← enforcePilot env pubkey
    match p with
    | .error reason => return .error reason
    | .ok () => do
      let outcome ← ask .operate
      match outcome with
      | .ok () => return .ok ()
      | .error e =>
        if !e.isSubmitUnconfirmed then do
          release pubkey
          throw e
        else throw e

/-! ## The owner -/

def approvePilot (pubkey : String) : Call Unit :=
  pipe [.set (.appr pubkey) "1" none, .setNx (.tx pubkey) (0 : ℤ) none,
    .set (.status pubkey) "approved" none, .del (.revoked pubkey), .del (.mailed pubkey)]

/-- How much had been used. -/
def resetPilotBudget (pubkey : String) : Call ℤ := do
  let old ← send (.get (.tx pubkey))
  let old ← orThrow old
  pipe [.set (.tx pubkey) (0 : ℤ) none, .del (.mailed pubkey)]
  return Option.getD old (0 : ℤ)

def rejectPilot (pubkey : String) : Call Unit :=
  pipe [.set (.status pubkey) "rejected" none, .del (.appr pubkey), .del (.revoked pubkey)]

/-- The one key of an email address. -/
def seenEmailKey (email : String) : Key := .seen (env.sha256Hex (env.toLowerCase (trim email)))

/-- The marker of the email goes too where it names this wallet. -/
def seenDel (pubkey : String) (email : Option String) : Call (List Command) :=
  match email.filter (· ≠ "") with
  | none => return []
  | some email => do
    let seen ← send (.get (.seen (env.sha256Hex (env.toLowerCase (trim email)))))
    let seen ← orThrow seen
    return if seen = some pubkey then [.del (seenEmailKey env email)] else []

def revokePilot (pubkey : String) : Call Unit := do
  let email ← send (.get (.email pubkey))
  let email ← orThrow email
  let seenDel ← seenDel env pubkey email
  pipe ([.del (.appr pubkey), .del (.email pubkey), .set (.status pubkey) "rejected" none,
    .set (.revoked pubkey) "1" none] ++ seenDel)

/-! ## What is reported -/

inductive PilotState
  | none
  | pending
  | approved
  | rejected
  deriving DecidableEq

/-- The state of this name, if there is one. -/
def PilotState.ofText (s : String) : Option PilotState :=
  if s = "none" then some .none
  else if s = "pending" then some .pending
  else if s = "approved" then some .approved
  else if s = "rejected" then some .rejected
  else Option.none

structure Reading where
  state : PilotState
  approved : Bool
  revoked : Bool
  deriving DecidableEq

/-- Where the two disagree, the allowlist wins over the record. -/
def readState (st appr revokedFlag : Option String) : Reading :=
  let approved : Bool := appr = some "1"
  let recorded := st.bind PilotState.ofText
  if recorded = some .approved ∧ approved = false then ⟨.rejected, false, true⟩
  else ⟨recorded.getD (if approved then .approved else .none), approved, revokedFlag = some "1"⟩

structure PilotStatus where
  reading : Reading
  used : ℤ
  limit : ℤ
  deriving DecidableEq

def pilotStatus (pubkey : String) : Call PilotStatus := do
  let appr ← send (.get (.appr pubkey))
  let tx ← send (.get (.tx pubkey))
  let st ← send (.get (.status pubkey))
  let revoked ← send (.get (.revoked pubkey))
  let appr ← orThrow appr
  let tx ← orThrow tx
  let st ← orThrow st
  let revoked ← orThrow revoked
  return ⟨readState st appr revoked, Option.getD tx (0 : ℤ), maxTx env⟩

/-- Nothing is known of a wallet that cannot be read. -/
def getPilotState (pubkey : String) : Call PilotState := do
  let st ← send (.get (.status pubkey))
  let appr ← send (.get (.appr pubkey))
  let revoked ← send (.get (.revoked pubkey))
  match st, appr, revoked with
  | .ok st, .ok appr, .ok revoked => return (readState st appr revoked).state
  | _, _, _ => return (readState none none none).state

/-! ## Asking -/

def emailRetentionSeconds : ℕ := 90 * 24 * 60 * 60

def mailedSeconds : ℕ := 7 * 24 * 60 * 60

/-- A time to live of the store, in milliseconds. -/
def expiry (seconds : ℕ) : Option ℕ := some (seconds * 1000)

/-- Whether a request was filed, the state that is answered, and the wallet that had asked with the
email before, where that is why it was not. -/
structure Started where
  created : Bool
  state : String
  other : Option String
  deriving DecidableEq

/-- The ask of a page that does not sign. -/
def startPilotRequest (pubkey email : String) : Call Started := do
  let clean := env.toLowerCase (trim email)
  let st ← send (.get (.status pubkey))
  let seen ← send (.get (.seen (env.sha256Hex clean)))
  let st ← orThrow st
  let seen ← orThrow seen
  let existing := Option.getD st "none"
  if existing ≠ "none" then return ⟨false, existing, none⟩
  else
    match Option.filter (· ≠ pubkey) seen with
    | some other => return ⟨false, "pending", some other⟩
    | none => do
      pipe [.set (.status pubkey) "pending" none,
        .set (.seen (env.sha256Hex clean)) pubkey (expiry emailRetentionSeconds),
        .set (.email pubkey) clean (expiry emailRetentionSeconds)]
      return ⟨true, "pending", none⟩

inductive PilotSource
  | web
  | ext
  deriving DecidableEq

def PilotSource.text : PilotSource → String
  | web => "web"
  | ext => "ext"

structure Filing where
  state : PilotState
  already : Bool
  mail : Option MailKind
  other : Option (String × PilotState)
  used : ℤ
  limit : ℤ
  deriving DecidableEq

/-- The latest other wallet to ask with this email, and where it stands. -/
def otherWallet (pubkey : String) (seen : Option String) : Call (Option (String × PilotState)) :=
  match seen.filter fun other => other ≠ "" ∧ other ≠ pubkey with
  | none => return none
  | some other => do
    let st ← send (.get (.status other))
    let appr ← send (.get (.appr other))
    let revoked ← send (.get (.revoked other))
    let st ← orThrow st
    let appr ← orThrow appr
    let revoked ← orThrow revoked
    return some (other, (readState st appr revoked).state)

def refresh (pubkey clean : String) (src : Option PilotSource) : List Command :=
  [.set (.email pubkey) clean (expiry emailRetentionSeconds),
    .set (.seen (env.sha256Hex clean)) pubkey (expiry emailRetentionSeconds)] ++
  (src.map fun src => .set (.src pubkey) src.text (expiry emailRetentionSeconds)).toList

/-- The ask that the account has signed, its email proven. -/
def filePilotRequest (pubkey email : String) (src : Option PilotSource) : Call Filing := do
  let clean := env.toLowerCase (trim email)
  let st ← send (.get (.status pubkey))
  let appr ← send (.get (.appr pubkey))
  let tx ← send (.get (.tx pubkey))
  let revoked ← send (.get (.revoked pubkey))
  let seen ← send (.get (.seen (env.sha256Hex clean)))
  let mailed ← send (.get (.mailed pubkey))
  let st ← orThrow st
  let appr ← orThrow appr
  let tx ← orThrow tx
  let revoked ← orThrow revoked
  let seen ← orThrow seen
  let mailed ← orThrow mailed
  let used := Option.getD tx (0 : ℤ)
  let other ← otherWallet pubkey seen
  let mail := if mailed = some "1" then none else some MailKind.request
  match (readState st appr revoked).state with
  | .none => do
    let created ← send (.setNx (.status pubkey) "pending" none)
    let failed ← sendAll (refresh env pubkey clean src)
    let created ← orThrow created
    match failed with
    | some message => throw message
    | none =>
      return if created then ⟨.pending, false, some .request, other, used, maxTx env⟩
        else ⟨.pending, true, mail, other, used, maxTx env⟩
  | .pending => do
    pipe (refresh env pubkey clean src)
    return ⟨.pending, true, mail, other, used, maxTx env⟩
  | .approved => do
    pipe (refresh env pubkey clean src)
    let mail := if maxTx env ≤ used ∧ mailed ≠ some "1" then some MailKind.moreSends else none
    return ⟨.approved, true, mail, other, used, maxTx env⟩
  | .rejected => do
    pipe (refresh env pubkey clean src)
    return ⟨.rejected, true, none, other, used, maxTx env⟩

def markOwnerMailed (pubkey : String) : Call Unit :=
  pipe [.set (.mailed pubkey) "1" (expiry mailedSeconds)]

def ownerMailedRecently (pubkey : String) : Call Bool := do
  let v ← send (.get (.mailed pubkey))
  let v ← orThrow v
  return v = some "1"

/-- An owner mail, which is marked where it was accepted. -/
def mailAndMark (kind : MailKind) (pubkey : String) : Call Bool := do
  let mailed ← ask (.mailOwner kind pubkey)
  if mailed then do
    let _ ← tryCatch (markOwnerMailed pubkey) fun _ => return ()
    return true
  else return false

/-- The address as every pilot path stores and compares it, if it is one. -/
def normalizePilotEmail (email : String) : Option String :=
  let clean := env.toLowerCase (trim email)
  if Recovery.utf16Length clean ≤ 200 ∧ isEmail clean then some clean else none

/-- Whether the wallet had a state already. -/
def notifyPilotRequest (pubkey email : String) : Call Bool :=
  if isValidEd25519PublicKey pubkey = false then throw "invalid pubkey"
  else
    match normalizePilotEmail env email with
    | none => throw "invalid email"
    | some clean => do
      let started ← startPilotRequest env pubkey clean
      if started.created then do
        let _ ← mailAndMark .request pubkey
        return false
      else
        match started.other with
        | none => return true
        | some other => do
          let recently ← ownerMailedRecently pubkey
          if recently then return false
          else do
            let _ ← getPilotState other
            let _ ← mailAndMark .collision pubkey
            return false

/-- The mail that a filing calls for. -/
def mailFor (pubkey : String) : Option MailKind → Call Bool
  | none => return false
  | some kind => mailAndMark kind pubkey

/-- How every mail and owner page names an account. -/
def shortAddress (pubkey : String) : String :=
  let chars := pubkey.toList
  if 12 < chars.length then
    String.ofList (chars.take 6) ++ "..." ++ String.ofList (chars.drop (chars.length - 6))
  else pubkey

structure SignedAnswer where
  state : PilotState
  filed : Bool
  already : Bool
  emailAlsoFor : Option String
  deriving DecidableEq

def answerSignedPilotRequest (pubkey email : String) (src : Option PilotSource) :
    Call SignedAnswer := do
  let filing ← filePilotRequest env pubkey email src
  let mailed ← mailFor pubkey filing.mail
  return ⟨filing.state, if filing.already then mailed else true, filing.already,
    filing.other.map fun other => shortAddress other.1⟩

/-! ## The route -/

/-- The proof of an ask, as `Number(…)` and `String(…)` read its fields. -/
structure OwnerProof where
  pubkey : String
  ts : Proofs.Number
  nonce : String
  proof : String
  deriving DecidableEq

structure PilotBody where
  pubkey : String
  email : String
  owner : Option OwnerProof
  /-- Missing where it is empty. -/
  code : Option String
  src : Option PilotSource

inductive Reply
  | refused (status : ℕ) (error : String) (code : Option String)
  | notified (already : Bool)
  | answered (answer : SignedAnswer)
  deriving DecidableEq

def deps : ProofDeps Ask.Answer String where
  now := ask .now
  kvSetNx hash ttlSec := do
    let fresh ← ask (.rememberProof hash ttlSec)
    orThrow fresh

def accountNotConfirmed : Reply :=
  .refused 401 Recovery.accountNotConfirmedError (some "bad-proof")

/-- Why the inbox is not proven, if it is not. -/
def proveInbox (id pubkey : String) (code : Option String) : Call (Option Reply) :=
  match code with
  | some code => do
    let verdict ← ask (.verifyOtp id code)
    let verdict ← orThrow verdict
    match verdict with
    | .budget => return some (.refused 429 Recovery.otpBudgetError (some "otp-budget"))
    | .wrong => return some (.refused 401 "That code is wrong or has expired." (some "bad-code"))
    | .ok => do
      let row ← ask (.ownerHash id)
      match row with
      | .ok (some hash) =>
        return if hash ≠ env.sha256Hex pubkey then
          some (.refused 409
            "That email backs up another Lumenia account. Ask with the email that backs up this one."
            (some "email-taken"))
        else none
      | _ => return none
  | none => do
    let row ← ask (.ownerHash id)
    let row ← orThrow row
    return if row = some (env.sha256Hex pubkey) then none
      else some (.refused 401 "Confirm your email with a code first." (some "code-required"))

/-- The ask of an account that offers a proof. -/
def signedRequest (body : PilotBody) (email : String) (owner : OwnerProof) : Call Reply :=
  if owner.pubkey ≠ body.pubkey then return accountNotConfirmed
  else do
    let id := env.sha256Hex (env.toLowerCase (trim email))
    let signed ← verifyHandleProof deps env.toProofEnv
      ⟨.pilot, id, body.pubkey, owner.ts, owner.nonce, env.network, owner.proof⟩
    match signed with
    | .error _ => return accountNotConfirmed
    | .ok () => do
      let refusal ← proveInbox env id body.pubkey body.code
      match refusal with
      | some reply => return reply
      | none => do
        let answer ← answerSignedPilotRequest env body.pubkey email body.src
        return .answered answer

/-- `/pilot-request` -/
def pilotRequest (body : PilotBody) : Call Reply :=
  if body.pubkey = "" ∨ body.email = "" then
    return .refused 400 "pubkey and email are required" none
  else if isValidEd25519PublicKey body.pubkey = false then
    return .refused 400 "invalid pubkey" none
  else
    match normalizePilotEmail env body.email with
    | none => return .refused 400 "invalid email" none
    | some email => do
      let limited ← ask .enforceRateLimit
      match limited with
      | some reason => return .refused 429 reason none
      | none =>
        let unavailable (_ : String) : Call Reply :=
          return .refused 503 "We couldn't record that just now. Try again in a minute."
            (some "store-unavailable")
        match body.owner with
        | none =>
          if env.requireProof then
            return .refused 400 "Reload the page and ask again." (some "proof-required")
          else tryCatch (do
            let already ← notifyPilotRequest env body.pubkey email
            return .notified already) unavailable
        | some owner => tryCatch (signedRequest env body email owner) unavailable

end

end Lumenia.Sponsor.Pilot
