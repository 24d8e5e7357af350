import Lumenia.Sponsor.Proofs
import Lumenia.Theory.Cells

/-!
# Handles

The registry of names of `apps/sponsor/src/lib/handles.ts`, with a configured key-value store: who
may be paid at an `@name`, the skeleton that a name reserves against its lookalikes, and the account's
pointer back to its name, under its own key and the older one for each network. A key holds values of
one kind, so their JSON texts are left out; no name is empty.
-/

namespace Lumenia.Sponsor.Handles

open Dialogue Proofs Stellar

/-! ## Names -/

def isLower (c : Char) : Bool := 'a' ≤ c && c ≤ 'z'

def isNameChar (c : Char) : Bool := isLower c || ('0' ≤ c && c ≤ '9') || c = '_'

/-- The texts of the platform, the domain of the deployment, and what the check of a proof needs. -/
structure Env extends ProofEnv where
  toLowerCase : String → String
  federationDomain : String
  toLowerCase_name : ∀ name, (∀ c ∈ name.toList, isNameChar c = true) → toLowerCase name = name

/-- `NAME_RE`: `/^[a-z][a-z0-9_]{2,19}$/` -/
def isName (name : String) : Bool :=
  match name.toList with
  | [] => false
  | c :: cs => isLower c && cs.all isNameChar && (2 ≤ cs.length && cs.length ≤ 19)

def releaseCooldownSec : ℕ := 30 * 24 * 3600

/-- Names nobody may hold. -/
def reserved : List String :=
  ["admin", "administrator", "root", "system", "official", "team", "staff", "support",
    "help", "helpdesk", "security", "abuse", "billing", "payments", "payment", "pay",
    "lumenia", "lumenio", "lumenla", "getlumenia", "stellar", "sdf", "circle", "usdc",
    "wallet", "money", "bank", "api", "www", "mail", "email", "app", "account", "accounts",
    "settings", "login", "signin", "signup", "register", "claim", "send", "request", "split",
    "contacts", "activity", "home", "start", "about", "terms", "privacy", "legal", "status",
    "null", "undefined", "anonymous", "me", "you", "everyone"]

/-- `s.replace(/ab/g, "c")` -/
def replacePair (a b c : Char) : List Char → List Char
  | x :: y :: rest =>
    if x = a ∧ y = b then c :: replacePair a b c rest else x :: replacePair a b c (y :: rest)
  | [x] => [x]
  | [] => []

/-- One representative of each class of characters that look alike. -/
def foldConfusable (c : Char) : Char :=
  if c ∈ ['1', 'l'] then 'i'
  else if c = '0' then 'o'
  else if c = '2' then 'z'
  else if c = '3' then 'e'
  else if c = '4' then 'a'
  else if c = '5' then 's'
  else if c ∈ ['6', '8'] then 'b'
  else if c = '7' then 't'
  else if c = '9' then 'g'
  else c

/-- The pairs are folded before the letters, which would destroy them. -/
def skeleton (name : String) : String :=
  let letters := name.toList.filter (· ≠ '_')
  .ofList ((replacePair 'v' 'v' 'w' (replacePair 'r' 'n' 'm' letters)).map foldConfusable)

def normalizeHandle (env : Env) (raw : String) : String :=
  .ofList ((env.toLowerCase (trim raw)).toList.dropWhile (· = '@'))

def shapeReason : String :=
  "A name is 3–20 characters, starts with a letter, and uses only letters, numbers and _"

/-- Why this is not a name we would ever store, if it is not. -/
def validateHandleShape (name : String) : Except String Unit :=
  if isName name = false then .error shapeReason
  else if name ∈ reserved ∨ skeleton name ∈ reserved then .error "That name is reserved."
  else .ok ()

/-! ## The store -/

structure HandleRecord where
  pubkey : String
  network : NetworkId
  createdAt : ℕ
  /-- Set on a tombstone: the name is released, and unclaimable until then, in milliseconds. -/
  releasedUntil : Option ℕ
  deriving DecidableEq

inductive Key
  | name (name : String)
  | skel (skel : String)
  | of_ (pubkey : String)
  | ofLegacy (network : NetworkId) (pubkey : String)
  | proof (hash : String)
  deriving DecidableEq

abbrev Key.Entry : Key → Type
  | name _ => HandleRecord
  | skel _ | of_ _ | ofLegacy .. => String
  | proof _ => Unit

/-- The key itself, a text. -/
def Key.text : Key → String
  | name n => "lumenia:handle:" ++ n
  | skel s => "lumenia:handle-skel:" ++ s
  | of_ pubkey => "lumenia:handle-of:" ++ pubkey
  | ofLegacy network pubkey => "lumenia:handle-of:" ++ network.text ++ ":" ++ pubkey
  | proof hash => "lumenia:handle-proof:" ++ hash

abbrev Command := Cells.Command Key.Entry

/-- What a call waits for, or reads. -/
inductive Ask
  | run (command : Command)
  | now

/-- What a command that goes wrong throws comes as an error; the entry of an answer that has come may
be an error of the command itself. -/
abbrev Ask.Answer : Ask → Type
  | run command => Except String (Except String command.Answer)
  | now => ℕ

abbrev Call := Dialogue Ask.Answer String

abbrev ask (q : Ask) : Call q.Answer := question q

/-- Wait for an answer, and throw where there is none. -/
def orThrow {α : Type} : Except String α → Call α
  | .ok a => pure a
  | .error message => throw message

/-- The entry of the command, in an answer of status 200. -/
def entry (command : Command) : Call (Except String command.Answer) := do
  let answer ← ask (.run command)
  orThrow answer

def kvGet (key : Key) : Call (Option key.Entry) := do
  let found ← entry (.get key)
  return found.toOption.join

/-- Whether this call took the key. -/
def kvSetNx (key : Key) (value : key.Entry) (ttlSec : Option ℕ) : Call Bool := do
  let first ← entry (.setNx key value (ttlSec.map (· * 1000)))
  match first with
  | .ok taken => return taken
  | .error message => throw ("handle store error: " ++ message)

/-- The entry is not looked at. -/
def kvSet (key : Key) (value : key.Entry) (ttlSec : Option ℕ) : Call Unit := do
  let _ ← entry (.set key value (ttlSec.map (· * 1000)))
  return ()

def kvDel (key : Key) : Call Unit := do
  let _ ← entry (.del key)
  return ()

def deps : ProofDeps Ask.Answer String where
  now := ask .now
  kvSetNx hash ttlSec := kvSetNx (.proof hash) () (some ttlSec)

/-! ## Reading -/

def readRecord (name : String) : Call (Option HandleRecord) := kvGet (.name name)

section

variable (env : Env)

structure Found where
  name : String
  pubkey : String
  network : NetworkId
  deriving DecidableEq

/-- A tombstone is not an owner. -/
def lookupHandle (rawName : String) : Call (Option Found) := do
  let name := normalizeHandle env rawName
  match validateHandleShape name with
  | .error _ => return none
  | .ok () =>
    let found ← readRecord name
    match found with
    | none => return none
    | some rec =>
      if rec.releasedUntil.isSome then return none else return some ⟨name, rec.pubkey, rec.network⟩

/-- The name under the first of the older pointers that has one, which is written forward. -/
def healLegacy (pubkey : String) : List NetworkId → Call (Option String)
  | [] => return none
  | network :: networks => do
    let legacy ← kvGet (.ofLegacy network pubkey)
    match legacy with
    | none => healLegacy pubkey networks
    | some name => do
      kvSet (.of_ pubkey) name none
      return some name

/-- The name this account holds, on any chain. -/
@[irreducible] def handleOf (pubkey : String) : Call (Option String) := do
  if isValidEd25519PublicKey pubkey = false then return none
  else do
    let current ← kvGet (.of_ pubkey)
    match current with
    | some name => return some name
    | none => healLegacy pubkey [.testnet, .mainnet]

/-- The skeleton of the name is free, or held for the name itself. -/
def skelAvailable (name : String) : Call (Except String Unit) := do
  let holder ← kvGet (.skel (skeleton name))
  return if holder.all (· = name) then .ok ()
    else .error "That name is too close to one that already exists."

/-- Why this name cannot be claimed right now, if it cannot. -/
def handleAvailability (rawName : String) : Call (Except String Unit) := do
  let name := normalizeHandle env rawName
  match validateHandleShape name with
  | .error reason => return .error reason
  | .ok () =>
    let found ← readRecord name
    match found with
    | none => skelAvailable name
    | some rec =>
      match rec.releasedUntil with
      | none => return .error "That name is taken."
      | some until_ =>
        let now ← ask .now
        if now < until_ then
          return .error "That name was given up recently and is not available yet."
        else skelAvailable name

/-! ## Claiming -/

/-- The name's own record, claimed again: it moves to the network of the claim. -/
def rehome (input : ProofInput) (name : String) (existing : HandleRecord) : Call Unit :=
  if existing.network = input.network then return ()
  else kvSet (.name name) { existing with network := input.network } none

/-- The name a skeleton is held for, after an attempt to take it. -/
def skelHolder (name : String) (tookSkel : Bool) : Call (Option String) :=
  if tookSkel then return some name else kvGet (.skel (skeleton name))

/-- An expired tombstone is replaced, whatever has become of it. -/
def takeName (name : String) (record : HandleRecord) (replaces : Bool) : Call Bool :=
  if replaces then do
    kvSet (.name name) record none
    return true
  else kvSetNx (.name name) record none

def giveSkelBack (name : String) (tookSkel : Bool) : Call Unit :=
  if tookSkel then kvDel (.skel (skeleton name)) else return ()

/-- `claimHandle` from the reservation of the skeleton on; `replaces` where an expired tombstone was
read. -/
def register (input : ProofInput) (name : String) (replaces : Bool) :
    Call (Except String Found) := do
  let tookSkel ← kvSetNx (.skel (skeleton name)) name none
  let holder ← skelHolder name tookSkel
  if holder ≠ some name then
    return .error "That name is too close to one that already exists."
  else do
    let now ← ask .now
    let tookName ← takeName name ⟨input.pubkey, input.network, now, none⟩ replaces
    if tookName = false then do
      giveSkelBack name tookSkel
      return .error "That name is taken."
    else do
      let tookOf ← kvSetNx (.of_ input.pubkey) name none
      if tookOf = false then do
        kvDel (.name name)
        giveSkelBack name tookSkel
        return .error "This account already has a name."
      else return .ok ⟨name, input.pubkey, input.network⟩

/-- `claimHandle` of a name that nobody holds. -/
def claimFree (input : ProofInput) (name : String) (replaces : Bool) :
    Call (Except String Found) := do
  let already ← handleOf input.pubkey
  match already.filter (· ≠ name) with
  | some other => return .error ("This account is already @" ++ other ++ ". Give that name up first.")
  | none => register input name replaces

def claimHandle (input : ProofInput) : Call (Except String Found) := do
  let name := normalizeHandle env input.name
  match validateHandleShape name with
  | .error reason => return .error reason
  | .ok () =>
    let proofOk ← verifyHandleProof deps env.toProofEnv { input with name, action := .claim }
    match proofOk with
    | .error reason => return .error reason
    | .ok () =>
      let existing ← readRecord name
      match existing with
      | none => claimFree input name false
      | some existing =>
        match existing.releasedUntil with
        | some until_ =>
          let now ← ask .now
          if now < until_ then
            return .error "That name was given up recently and is not available yet."
          else claimFree input name true
        | none =>
          if existing.pubkey ≠ input.pubkey then return .error "That name is taken."
          else do
            rehome input name existing
            kvSet (.of_ input.pubkey) name none
            return .ok ⟨name, input.pubkey, input.network⟩

/-! ## Releasing -/

/-- `releaseHandle` once the account has authorized it. -/
def tombstone (name : String) (rec : HandleRecord) : Call Unit := do
  let now ← ask .now
  let until_ := now + releaseCooldownSec * 1000
  kvSet (.name name) { rec with releasedUntil := some until_ } (some releaseCooldownSec)
  kvSet (.skel (skeleton name)) name (some releaseCooldownSec)
  kvDel (.of_ rec.pubkey)
  kvDel (.ofLegacy rec.network rec.pubkey)

def releaseHandle (input : ProofInput) : Call (Except String String) := do
  let name := normalizeHandle env input.name
  match validateHandleShape name with
  | .error reason => return .error reason
  | .ok () =>
    let found ← readRecord name
    match found.filter (·.releasedUntil.isNone) with
    | none => return .error "Nobody holds that name."
    | some rec =>
      if rec.pubkey ≠ input.pubkey then return .error "That name is not yours."
      else do
        let proofOk ← verifyHandleProof deps env.toProofEnv { input with name, action := .release }
        match proofOk with
        | .error reason => return .error reason
        | .ok () =>
          tombstone name rec
          return .ok name

/-! ## Federation -/

structure FederationAnswer where
  stellarAddress : String
  accountId : String
  deriving DecidableEq

/-- The first two fields of `q.split("*")`, where neither is empty. -/
def splitAddress (q : String) : Option (String × String) :=
  match q.toList.splitOn '*' with
  | (c :: cs) :: (d :: ds) :: _ => some (.ofList (c :: cs), .ofList (d :: ds))
  | _ => none

def federationLookup (q type : String) (network : NetworkId) :
    Call (Except String FederationAnswer) := do
  if type = "name" then
    match splitAddress q with
    | none => return .error "invalid federation address"
    | some (name, domain) =>
      if env.toLowerCase domain ≠ env.toLowerCase env.federationDomain then
        return .error "unknown federation domain"
      else do
        let found ← lookupHandle env name
        match found.filter (·.network = network) with
        | none => return .error "not found"
        | some found => return .ok ⟨found.name ++ "*" ++ env.federationDomain, found.pubkey⟩
  else if type = "id" then do
    let name ← handleOf q
    match name with
    | none => return .error "not found"
    | some name =>
      let found ← lookupHandle env name
      match found.filter (·.network = network) with
      | none => return .error "not found"
      | some _ => return .ok ⟨name ++ "*" ++ env.federationDomain, q⟩
  else return .error "unsupported federation type"

end

end Lumenia.Sponsor.Handles
