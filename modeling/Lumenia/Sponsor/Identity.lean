import Lumenia.Sponsor.Handles

/-!
# Identity links

The ways back in of `apps/sponsor/src/lib/identity-links.ts`, with a configured key-value store: the
row an identity is filed under, the index of an account's links, and the one-time states and tickets
of an OAuth round trip; with the routes of `worker.ts` over them. A key holds values of one kind, so
their JSON texts are left out but for the length a row may have.
-/

namespace Lumenia.Sponsor.Identity

open Dialogue Proofs Stellar
open Recovery (Box isEmail isId text utf16Length)

inductive OAuthProvider
  | google
  | github
  | x
  deriving DecidableEq

inductive Provider
  | passkey
  | email
  | oauth (provider : OAuthProvider)
  deriving DecidableEq

def OAuthProvider.text : OAuthProvider → String
  | google => "google"
  | github => "github"
  | x => "x"

def Provider.text : Provider → String
  | passkey => "passkey"
  | email => "email"
  | oauth provider => provider.text

def oauthProviders : List OAuthProvider := [.google, .github, .x]

def providers : List Provider := [.passkey, .email] ++ oauthProviders.map .oauth

/-! ## The store -/

structure IdentityRow where
  provider : Provider
  address : String
  network : NetworkId
  createdAt : ℕ
  box : Option Box
  proofHash : Option String
  deriving DecidableEq

structure LinkSummary where
  provider : Provider
  id : String
  createdAt : ℕ
  deriving DecidableEq

structure OAuthState where
  provider : OAuthProvider
  verifier : String
  address : Option String
  network : NetworkId
  deriving DecidableEq

structure OAuthTicket where
  provider : OAuthProvider
  subject : String
  label : Option String
  address : Option String
  network : NetworkId
  deriving DecidableEq

inductive Key
  | identity (id : String)
  | of_ (network : NetworkId) (address : String)
  | state (state : String)
  | ticket (ticket : String)
  | proof (hash : String)
  deriving DecidableEq

abbrev Key.Entry : Key → Type
  | identity _ => IdentityRow
  | of_ .. => List LinkSummary
  | state _ => OAuthState
  | ticket _ => OAuthTicket
  | proof _ => Unit

/-- The key itself, a text. -/
def Key.text : Key → String
  | identity id => "lumenia:identity:" ++ id
  | of_ network address => "lumenia:identity-of:" ++ network.text ++ ":" ++ address
  | state s => "lumenia:oauth-state:" ++ s
  | ticket t => "lumenia:oauth-ticket:" ++ t
  | proof hash => "lumenia:handle-proof:" ++ hash

abbrev Command := Cells.Command Key.Entry

/-- What a call waits for, or reads. -/
inductive Ask
  | run (command : Command)
  | now
  /-- A read of the registry of handles. -/
  | handles (q : Handles.Ask)
  | randomHex (bytes : ℕ)
  /-- `verifyOtp(await idForEmail(email), code)` -/
  | verifyOtp (email code : String)
  /-- `rowState(await idForEmail(email))`, of which the hash is used. -/
  | ownerHash (email : String)
  | enforceRateLimit
  /-- The code is exchanged with the provider, for an access token where it agrees. -/
  | exchange (provider : OAuthProvider) (code verifier : String)
  /-- The subject and the label of the user, where the provider tells them. -/
  | readUser (provider : OAuthProvider) (token : String)

/-- What a step that throws has to say comes as an error; the entry of an answer that has come from the
store may be an error of the command itself. -/
abbrev Ask.Answer : Ask → Type
  | run command => Except String (Except String command.Answer)
  | now => ℕ
  | handles q => q.Answer
  | randomHex _ => String
  | verifyOtp .. => Except String Bool
  | ownerHash _ => Except String (Option String)
  | enforceRateLimit => Option String
  | exchange .. => Except String (Option String)
  | readUser .. => Except String (Option (String × Option String))

abbrev Call := Dialogue Ask.Answer String

abbrev ask (q : Ask) : Call q.Answer := question q

/-- Wait for an answer, and throw where there is none. -/
def orThrow {α : Type} : Except String α → Call α
  | .ok a => pure a
  | .error message => throw message

def maxRowBytes : ℕ := 8192

/-- The entry of the command, in an answer of status 200. -/
def entry (command : Command) : Call (Except String command.Answer) := do
  let answer ← ask (.run command)
  orThrow answer

def kvGet (key : Key) : Call (Option key.Entry) := do
  let found ← entry (.get key)
  return found.toOption.join

/-- `json` is the text of the value; the entry is not looked at. -/
def kvSet (key : Key) (value : key.Entry) (json : String) (ttlSec : Option ℕ) : Call Unit :=
  if maxRowBytes < utf16Length json then throw "identity row too large"
  else do
    let _ ← entry (.set key value (ttlSec.map (· * 1000)))
    return ()

def kvDel (key : Key) : Call Unit := do
  let _ ← entry (.del key)
  return ()

/-- The proofs are remembered under the keys of the handles, and by the `kvSetNx` of these. -/
def deps : ProofDeps Ask.Answer String where
  now := ask .now
  kvSetNx hash ttlSec := do
    let first ← entry (.setNx (.proof hash) () (some (ttlSec * 1000)))
    match first with
    | .ok taken => return taken
    | .error message => throw ("handle store error: " ++ message)

def handleOf (address : String) : Call (Option String) :=
  (Handles.handleOf address).relabel .handles fun _ a => a

/-- What the deployment and the platform bring. -/
structure Env extends Handles.Env where
  validateBox : Option Json → Except String Box
  /-- `JSON.stringify` of a text. -/
  quote : String → String
  /-- The deployment has an app registered with the provider. -/
  oauthConfig : OAuthProvider → Bool
  publicUrl : String
  webUrl : String

/-! ## Texts -/

/-- `/^[0-9a-f]{32,64}$/` -/
def isTicket (s : String) : Bool :=
  32 ≤ s.length && s.length ≤ 64 &&
    s.toList.all fun c => ('0' ≤ c && c ≤ '9') || ('a' ≤ c && c ≤ 'f')

section

variable (env : Env)

/-- A member of an object with a text in it, where it is there. -/
def member (name : String) : Option String → String
  | none => ""
  | some value => ",\"" ++ name ++ "\":" ++ env.quote value

def IdentityRow.json (row : IdentityRow) : String :=
  "\x7b\"provider\":" ++ env.quote row.provider.text ++ member env "address" row.address ++
    member env "network" row.network.text ++ ",\"createdAt\":" ++ toString row.createdAt ++
    (row.box.elim "" fun box => ",\"box\":" ++ box) ++ member env "proofHash" row.proofHash ++ "\x7d"

def LinkSummary.json (link : LinkSummary) : String :=
  "\x7b\"provider\":" ++ env.quote link.provider.text ++ member env "id" link.id ++
    ",\"createdAt\":" ++ toString link.createdAt ++ "\x7d"

def linksJson (links : List LinkSummary) : String :=
  "[" ++ ",".intercalate (links.map (·.json env)) ++ "]"

def OAuthState.json (s : OAuthState) : String :=
  "\x7b\"provider\":" ++ env.quote s.provider.text ++ member env "verifier" s.verifier ++
    member env "address" s.address ++ member env "network" s.network.text ++ "\x7d"

def OAuthTicket.json (t : OAuthTicket) : String :=
  "\x7b\"provider\":" ++ env.quote t.provider.text ++ member env "subject" t.subject ++
    member env "label" t.label ++ member env "address" t.address ++
    member env "network" t.network.text ++ "\x7d"

/-! ## Rows and indices -/

def identityId (provider : Provider) (subject : String) : Except String String :=
  if provider = .passkey then
    let id := env.toLowerCase subject
    if isId id then .ok id else .error "passkey identity id must be 64-char hex"
  else
    let normalized := if provider = .email then env.toLowerCase (trim subject) else trim subject
    if normalized = "" then .error "empty identity subject"
    else .ok (env.sha256Hex ("lumenia-id:v1:" ++ provider.text ++ ":" ++ normalized))

def readRow (id : String) : Call (Option IdentityRow) := kvGet (.identity id)

def readLinks (network : NetworkId) (address : String) : Call (List LinkSummary) := do
  let found ← kvGet (.of_ network address)
  return found.getD []

def writeLinks (network : NetworkId) (address : String) (links : List LinkSummary) : Call Unit :=
  if links = [] then kvDel (.of_ network address)
  else kvSet (.of_ network address) links (linksJson env links) none

/-! ## Proofs of control -/

inductive IdentityProof
  | passkey (id proof : String)
  | email (email code : String)
  | ticket (ticket : String)

structure ResolvedIdentity where
  provider : Provider
  id : String
  label : Option String
  deriving DecidableEq

def consumeTicket (ticket : String) : Call (Option OAuthTicket) :=
  if isTicket ticket = false then return none
  else do
    let found ← kvGet (.ticket ticket)
    match found with
    | none => return none
    | some t => do
      kvDel (.ticket ticket)
      return some t

/-- The identity a proof proves, if it proves one. -/
def resolveProof : IdentityProof → Call (Option ResolvedIdentity)
  | .passkey id proof =>
    if isId id = false ∨ isId proof = false then return none
    else do
      let row ← readRow id
      if ((row.bind (·.proofHash)).all (· = env.sha256Hex proof)) = false then return none
      else return some ⟨.passkey, id, none⟩
  | .email rawEmail code =>
    let email := env.toLowerCase (trim rawEmail)
    if isEmail email = false then return none
    else do
      let verified ← ask (.verifyOtp email code)
      let verified ← orThrow verified
      if verified = false then return none
      else do
        let id ← orThrow (identityId env .email email)
        return some ⟨.email, id, some email⟩
  | .ticket ticket => do
    let t ← consumeTicket ticket
    match t with
    | none => return none
    | some t => do
      let id ← orThrow (identityId env (.oauth t.provider) t.subject)
      return some ⟨.oauth t.provider, id, t.label⟩

/-! ## Operations -/

/-- The fields of a signature, as `Number(…)` and `String(…)` read them. -/
structure AccountProof where
  ts : Proofs.Number
  nonce : String
  proof : String
  deriving DecidableEq

def AccountProof.input (accountProof : AccountProof) (name address : String) (network : NetworkId) :
    ProofInput :=
  ⟨.links, name, address, accountProof.ts, accountProof.nonce, network, accountProof.proof⟩

def attachProofName : String := "attach"

def detachProofPrefix : String := "detach:"

def maxLinksPerAccount : ℕ := 12

structure Conflict where
  address : String
  handle : Option String
  deriving DecidableEq

inductive AttachResult
  | ok (provider : Provider) (id : String) (links : List LinkSummary)
  | refused (reason : String) (conflict : Option Conflict)
  deriving DecidableEq

/-- The box of the row, which a request that brings none leaves as it was. -/
def boxOf (box : Option Json) (existing : Option IdentityRow) : Except String (Option Box) :=
  match box with
  | none | some .null => .ok (existing.bind (·.box))
  | some box => (env.validateBox (some box)).map some

def proofHashOf (resolved : ResolvedIdentity) (passkeyProof : Option String)
    (existing : Option IdentityRow) : Option String :=
  match existing.bind (·.proofHash) with
  | some hash => some hash
  | none =>
    if resolved.provider = .passkey then (passkeyProof.filter (isId ·)).map env.sha256Hex else none

/-- `existing?.createdAt ?? Date.now()` -/
def createdAtOf : Option IdentityRow → Call ℕ
  | some existing => return existing.createdAt
  | none => ask .now

def listed (links : List LinkSummary) (id : String) : Bool := links.any (·.id = id)

/-- `attachIdentity` of an identity that is nobody else's. -/
def fileRow (resolved : ResolvedIdentity) (address : String) (network : NetworkId)
    (box : Option Json) (passkeyProof : Option String) (existing : Option IdentityRow) :
    Call AttachResult := do
  let links ← readLinks network address
  if listed links resolved.id = false ∧ maxLinksPerAccount ≤ links.length then
    return .refused "This account already has as many connections as we allow." none
  else do
    let createdAt ← createdAtOf existing
    let box ← orThrow (boxOf env box existing)
    let row : IdentityRow := ⟨resolved.provider, address, network, createdAt, box,
      proofHashOf env resolved passkeyProof existing⟩
    kvSet (.identity resolved.id) row (row.json env) none
    let next := if listed links resolved.id then links
      else links ++ [⟨resolved.provider, resolved.id, createdAt⟩]
    writeLinks env network address next
    return .ok resolved.provider resolved.id next

def attachIdentity (resolved : ResolvedIdentity) (address : String) (network : NetworkId)
    (box : Option Json) (passkeyProof : Option String) (accountProof : Option AccountProof) :
    Call AttachResult :=
  if isValidEd25519PublicKey address = false then
    return .refused "invalid account address" none
  else
    match accountProof with
    | none => return .refused "That account has to authorize this connection." none
    | some accountProof => do
      let signed ← verifyHandleProof deps env.toProofEnv
        (accountProof.input attachProofName address network)
      match signed with
      | .error reason => return .refused reason none
      | .ok () => do
        let existing ← readRow resolved.id
        match existing.filter (·.address ≠ address) with
        | some other => do
          let handle ← handleOf other.address
          return .refused "That is already connected to another account."
            (some ⟨other.address, handle⟩)
        | none => fileRow env resolved address network box passkeyProof existing

inductive DetachResult
  | ok
  | refused (reason : String) (unauthorized : Bool)
  deriving DecidableEq

def unauthorized : DetachResult := .refused "That account has to authorize this." true

def detachIdentity (resolved : ResolvedIdentity) (network : NetworkId)
    (accountProof : Option AccountProof) : Call DetachResult := do
  let row ← readRow resolved.id
  match row with
  | none => return .refused "That is not connected." false
  | some row =>
    match accountProof with
    | none => return unauthorized
    | some accountProof => do
      let signed ← verifyHandleProof deps env.toProofEnv
        (accountProof.input (detachProofPrefix ++ resolved.id) row.address network)
      match signed with
      | .error _ => return unauthorized
      | .ok () => do
        kvDel (.identity resolved.id)
        let links ← readLinks row.network row.address
        writeLinks env row.network row.address (links.filter (·.id ≠ resolved.id))
        return .ok

/-- The rows of the doomed links, each deleted if it still points at the account. -/
def deleteRows (address : String) : List LinkSummary → Call Unit
  | [] => return ()
  | link :: links => do
    let row ← readRow link.id
    match row.filter (·.address = address) with
    | some _ => do
      kvDel (.identity link.id)
      deleteRows address links
    | none => deleteRows address links

/-- How many links are gone. -/
def detachProviderByAccount (address : String) (network : NetworkId) (provider : Provider) :
    Call ℕ := do
  let links ← readLinks network address
  let doomed := links.filter (·.provider = provider)
  deleteRows address doomed
  writeLinks env network address (links.filter (·.provider ≠ provider))
  return doomed.length

/-- Never the id itself. -/
def listLinks (address : String) (network : NetworkId) : Call (List (Provider × ℕ)) :=
  if isValidEd25519PublicKey address = false then return []
  else do
    let links ← readLinks network address
    return links.map fun l => (l.provider, l.createdAt)

structure CheckResult where
  taken : Bool
  address : Option String
  handle : Option String
  provider : Provider
  label : Option String
  deriving DecidableEq

def checkIdentity (resolved : ResolvedIdentity) : Call CheckResult := do
  let row ← readRow resolved.id
  match row with
  | none => return ⟨false, none, none, resolved.provider, resolved.label⟩
  | some row => do
    let handle ← handleOf row.address
    return ⟨true, some row.address, handle, resolved.provider, resolved.label⟩

structure Fetched where
  address : String
  handle : Option String
  box : Option Box
  deriving DecidableEq

def fetchByIdentity (resolved : ResolvedIdentity) : Call (Option Fetched) := do
  let row ← readRow resolved.id
  match row with
  | none => return none
  | some row => do
    let handle ← handleOf row.address
    return some ⟨row.address, handle, row.box⟩

/-! ## OAuth -/

def stateTtlSec : ℕ := 600

def ticketTtlSec : ℕ := 300

/-- GitHub apps take no proof key. -/
def pkce (provider : OAuthProvider) : Bool := provider ≠ .github

def oauthRedirectUri (provider : OAuthProvider) : String :=
  env.publicUrl ++ "/oauth/" ++ provider.text ++ "/callback"

def freshVerifier (provider : OAuthProvider) : Call String :=
  if pkce provider then ask (.randomHex 32) else return ""

/-- The state of a round trip that has begun, which the provider will bring back. -/
def startOAuth (provider : OAuthProvider) (address : Option String) (network : NetworkId) :
    Call (Except String String) :=
  if env.oauthConfig provider = false then
    return .error (provider.text ++ " is not available yet.")
  else if (oauthRedirectUri env provider).startsWith "http" = false then
    return .error "this service has no public URL configured"
  else do
    let state ← ask (.randomHex 16)
    let verifier ← freshVerifier provider
    let stored : OAuthState := ⟨provider, verifier, address, network⟩
    kvSet (.state state) stored (stored.json env) (some stateTtlSec)
    return .ok state

/-- `finishOAuth` once the state has been accepted. -/
def mintTicket (provider : OAuthProvider) (code : String) (state : OAuthState) :
    Call (Except String String) := do
  let token ← ask (.exchange provider code (if pkce provider then state.verifier else ""))
  let token ← orThrow token
  match token with
  | none => return .error "that provider refused the connection"
  | some token => do
    let user ← ask (.readUser provider token)
    let user ← orThrow user
    match user with
    | none => return .error "could not read that account"
    | some (subject, label) => do
      let ticket ← ask (.randomHex 24)
      let minted : OAuthTicket := ⟨provider, subject, label, state.address, state.network⟩
      kvSet (.ticket ticket) minted (minted.json env) (some ticketTtlSec)
      return .ok (env.webUrl ++ "/settings?connected=" ++ ticket ++ "&provider=" ++ provider.text)

/-- Where the browser is sent, or why not. -/
def finishOAuth (provider : String) (code state : Option String) : Call (Except String String) :=
  match oauthProviders.find? (·.text = provider) with
  | none => return .error "unknown provider"
  | some p =>
    if env.oauthConfig p = false then return .error (p.text ++ " is not available yet.")
    else
      match code.filter (· ≠ ""), state.filter (· ≠ "") with
      | some code, some state => do
        let found ← kvGet (.state state)
        match found with
        | none => return .error "that connection expired — start again"
        | some parsed => do
          kvDel (.state state)
          if parsed.provider ≠ p then return .error "that connection did not match"
          else mintTicket env p code parsed
      | _, _ => return .error "that connection did not complete"

/-! ## Routes -/

/-- What a route answers. -/
inductive Reply
  | refused (status : ℕ) (error : String) (conflict : Option Conflict)
  | checked (result : CheckResult)
  | fetched (found : Fetched)
  | detached
  | attached (provider : Provider) (id : String) (links : List LinkSummary)
  | removed (count : ℕ)
  | links (links : List (Provider × ℕ))
  | started (state : String)
  | redirect (url : String)
  deriving DecidableEq

/-- `enforceRateLimit`, and what a limited request is answered. -/
def rateLimited (k : Call Reply) : Call Reply := do
  let limited ← ask .enforceRateLimit
  match limited with
  | some reason => return .refused 429 reason none
  | none => k

structure AttachBody where
  address : String
  box : Option Json
  passkeyProof : Option String
  accountProof : Option AccountProof

/-- What the operations over a proved identity are. -/
inductive Operation
  | check
  | fetch
  | detach (accountProof : Option AccountProof)
  | attach (body : AttachBody)

/-- The email already backs up another account. -/
def emailTaken (resolved : ResolvedIdentity) (address : String) : Call Bool :=
  match resolved.label.filter fun label => resolved.provider = .email ∧ label ≠ "" with
  | none => return false
  | some email =>
    if isValidEd25519PublicKey address = false then return false
    else do
      let hash ← ask (.ownerHash email)
      let hash ← orThrow hash
      return hash.any (· ≠ env.sha256Hex address)

/-- A route over a proved identity, behind its proof. -/
def operate (network : NetworkId) (resolved : ResolvedIdentity) : Operation → Call Reply
  | .check => do
    let result ← checkIdentity resolved
    return .checked result
  | .fetch => do
    let found ← fetchByIdentity resolved
    match found with
    | none => return .refused 404 "not found" none
    | some found => return .fetched found
  | .detach accountProof => do
    let done ← detachIdentity env resolved network accountProof
    match done with
    | .ok => return .detached
    | .refused reason unauthorized => return .refused (if unauthorized then 401 else 404) reason none
  | .attach body => do
    let taken ← emailTaken env resolved body.address
    if taken then return .refused 409 "That email already backs up another account." none
    else do
      let result ← attachIdentity env resolved body.address network body.box body.passkeyProof
        body.accountProof
      match result with
      | .ok provider id links => return .attached provider id links
      | .refused reason conflict => return .refused 409 reason conflict

/-- `/identity-check`, `/identity-fetch`, `/identity-detach` and `/identity-attach`. -/
def identityRoute (network : NetworkId) (proof : IdentityProof) (operation : Operation) :
    Call Reply :=
  rateLimited do
    let resolved ← resolveProof env proof
    match resolved with
    | none => return .refused 401 "we could not confirm that is yours" none
    | some resolved => operate env network resolved operation

/-- `/identity-detach-mine` -/
def identityDetachMine (network : NetworkId) (pubkey provider : String)
    (accountProof : AccountProof) : Call Reply :=
  rateLimited <|
    match providers.find? (·.text = provider) with
    | none => return .refused 400 "unknown provider" none
    | some provider => do
      let okProof ← verifyHandleProof deps env.toProofEnv (accountProof.input "" pubkey network)
      match okProof with
      | .error reason => return .refused 401 reason none
      | .ok () => do
        let removed ← detachProviderByAccount env pubkey network provider
        return .removed removed

/-- `/identity-links` -/
def identityLinks (network : NetworkId) (pubkey : String) (accountProof : AccountProof) : Call Reply :=
  rateLimited do
    let okProof ← verifyHandleProof deps env.toProofEnv (accountProof.input "" pubkey network)
    match okProof with
    | .error reason => return .refused 401 reason none
    | .ok () => do
      let links ← listLinks pubkey network
      return .links links

/-- `/oauth/…/callback` -/
def oauthCallback (provider : String) (code state : Option String) : Call Reply := do
  let done ← finishOAuth env provider code state
  match done with
  | .error reason => return .refused 400 reason none
  | .ok url => return .redirect url

/-- `/identity-start` -/
def identityStart (network : NetworkId) (provider : String) (address : Option String) : Call Reply :=
  match oauthProviders.find? (·.text = provider) with
  | none => return .refused 400 "unknown provider" none
  | some p => rateLimited do
    let started ← startOAuth env p address network
    match started with
    | .error reason => return .refused 400 reason none
    | .ok state => return .started state

end

end Lumenia.Sponsor.Identity
