import Lumenia.Theory.Dialogue
import Mathlib.Data.Nat.Notation
import Mathlib.Logic.Function.Basic

/-!
# The keystore

The accounts that a browser holds, with the pointer to the one that is active and the addresses that
have been published (`apps/web/lib/keystore.ts`), at the granularity of single IndexedDB transactions: a
record is read in one and written as a whole in another. What the platform's cryptography brings is
answered from outside. A public key is none of the reserved ids.
-/

namespace Lumenia.Web.Keystore

open Dialogue

inductive Phase
  | deviceKey
  /-- Locked with a password. -/
  | locked
  deriving DecidableEq

inductive AccountKind
  | user
  | throwaway
  deriving DecidableEq

abbrev Bytes := List UInt8

structure ArgonParams where
  memMiB : ℕ
  time : ℕ
  parallelism : ℕ
  deriving DecidableEq

/-- One account, under its public key. -/
structure KeyRecord where
  pubkey : String
  phase : Phase
  iv : Bytes
  ciphertext : Bytes
  /-- A handle of the platform, which cannot be exported. -/
  wrapKey : Option ℕ
  salt : Option Bytes
  argon : Option ArgonParams
  /-- Missing where it was written before there were kinds. -/
  kind : Option AccountKind
  deriving DecidableEq

inductive Id
  | home
  | published
  | account (pubkey : String)
  deriving DecidableEq

inductive StoredRecord
  | home (pubkey : String)
  | published (pubkeys : List String)
  | account (record : KeyRecord)
  deriving DecidableEq

def StoredRecord.id : StoredRecord → Id
  | home _ => .home
  | published _ => .published
  | account record => .account record.pubkey

def StoredRecord.toHome : StoredRecord → Option String
  | home pubkey => some pubkey
  | _ => none

def StoredRecord.toAccount : StoredRecord → Option KeyRecord
  | account record => some record
  | _ => none

/-- The object store. -/
structure Store where
  home : Option String
  published : Option (List String)
  accounts : String → Option KeyRecord

namespace Store

variable (s : Store)

def get : Id → Option StoredRecord
  | .home => s.home.map .home
  | .published => s.published.map .published
  | .account pubkey => (s.accounts pubkey).map .account

def put : StoredRecord → Store
  | .home pubkey => { s with home := some pubkey }
  | .published pubkeys => { s with published := some pubkeys }
  | .account record => { s with accounts := Function.update s.accounts record.pubkey (some record) }

def delete : Id → Store
  | .home => { s with home := none }
  | .published => { s with published := none }
  | .account pubkey => { s with accounts := Function.update s.accounts pubkey none }

@[simp] theorem toHome_get : (s.get .home).bind StoredRecord.toHome = s.home := by
  change (s.home.map StoredRecord.home).bind _ = _
  cases s.home <;> rfl

@[simp] theorem toAccount_get {pubkey : String} :
    (s.get (.account pubkey)).bind StoredRecord.toAccount = s.accounts pubkey := by
  change ((s.accounts pubkey).map StoredRecord.account).bind _ = _
  cases s.accounts pubkey <;> rfl

end Store

/-- A seed under a key of the device. -/
structure Wrapped where
  iv : Bytes
  ciphertext : Bytes
  wrapKey : ℕ

/-- A seed under a password, and how long the derivation took. -/
structure Locked where
  iv : Bytes
  ciphertext : Bytes
  salt : Bytes
  deriveMs : ℕ

inductive Ask
  | idbGet (id : Id)
  /-- All records, each under its id. -/
  | idbGetAll
  | idbPut (record : StoredRecord)
  | idbDelete (id : Id)
  | wrap (seed : Bytes)
  | lock (seed : Bytes) (password : String) (params : ArgonParams)

/-- A transaction that is rejected has its error as an answer. -/
abbrev Ask.Answer : Ask → Type
  | idbGet _ => Except String (Option StoredRecord)
  | idbGetAll => Except String Store
  | idbPut _ | idbDelete _ => Except String Unit
  | wrap _ => Except String Wrapped
  | lock .. => Except String Locked

abbrev Call := Dialogue Ask.Answer String

def orThrow {α : Type} : Except String α → Call α
  | .ok a => pure a
  | .error message => throw message

def idbGet (id : Id) : Call (Option StoredRecord) := do
  let record ← question (.idbGet id)
  orThrow record

def idbGetAll : Call Store := do
  let all ← question .idbGetAll
  orThrow all

def idbPut (record : StoredRecord) : Call Unit := do
  let result ← question (.idbPut record)
  orThrow result

def idbDelete (id : Id) : Call Unit := do
  let result ← question (.idbDelete id)
  orThrow result

def getHomePointer : Call (Option String) := do
  let r ← idbGet .home
  return Option.bind r StoredRecord.toHome

def getAccountRecord (pubkey : String) : Call (Option KeyRecord) := do
  let r ← idbGet (.account pubkey)
  return Option.bind r StoredRecord.toAccount

/-- The kind of a record that may have been written before there were kinds. -/
def kindOf (record : KeyRecord) (activePubkey : Option String) : AccountKind :=
  record.kind.getD (if some record.pubkey = activePubkey then .user else .throwaway)

/-- Make `pubkey` the active account. -/
def setActive (pubkey : String) : Call Unit := idbPut (.home pubkey)

def setAccountKind (pubkey : String) (kind : AccountKind) : Call Unit := do
  let record ← getAccountRecord pubkey
  match record with
  | none => return ()
  | some record => idbPut (.account { record with kind := some kind })

/-- Whether it wrote: a record that has a kind is left alone. -/
def pinKindIfMissing (pubkey : String) (kind : AccountKind) : Call Bool := do
  let record ← getAccountRecord pubkey
  match record with
  | none => return false
  | some record =>
    if record.kind.isSome then return false
    else do
      idbPut (.account { record with kind := some kind })
      return true

def getPublishedRecord : Call (Option (List String)) := do
  let all ← idbGetAll
  return all.published

/-- Remember that this address has been handed to somebody. -/
def markPublished (pubkey : String) : Call Unit := do
  let record ← getPublishedRecord
  let pubkeys := (Option.getD record []).eraseDups
  if pubkey ∈ pubkeys then return ()
  else idbPut (.published (pubkeys ++ [pubkey]))

def isPublished (pubkey : String) : Call Bool := do
  let record ← getPublishedRecord
  return decide (pubkey ∈ Option.getD record [])

/-- The active account is refused, and one of the user's own unless `force` is set. -/
def removeAccount (pubkey : String) (force : Bool) : Call Unit := do
  let ptr ← getHomePointer
  if ptr = some pubkey then return ()
  else if force then idbDelete (.account pubkey)
  else do
    let record ← getAccountRecord pubkey
    if Option.map (kindOf · ptr) record = some .user then return ()
    else idbDelete (.account pubkey)

/-- Whether saving an account of this kind may make it the home account. -/
def adoptsHome (kind : Option AccountKind) : Bool := kind ≠ some .throwaway

def adoptHomeIfUnset (pubkey : String) : Call Unit := do
  let ptr ← getHomePointer
  match ptr with
  | some _ => return ()
  | none => setActive pubkey

/-- The record of an account is written, and it becomes home if there is none. -/
def save (record : KeyRecord) (kind : Option AccountKind) : Call Unit := do
  let previous ← getAccountRecord record.pubkey
  let resolvedKind := kind <|> Option.bind previous KeyRecord.kind
  idbPut (.account { record with kind := resolvedKind })
  if adoptsHome resolvedKind then adoptHomeIfUnset record.pubkey
  else return ()

def savePhase1 (pubkey : String) (seed : Bytes) (kind : Option AccountKind) : Call Unit := do
  let wrapped ← question (.wrap seed)
  let wrapped ← orThrow wrapped
  save ⟨pubkey, .deviceKey, wrapped.iv, wrapped.ciphertext, some wrapped.wrapKey, none, none, none⟩ kind

/-- How long the derivation took. -/
def savePhase2 (pubkey : String) (seed : Bytes) (password : String) (params : ArgonParams)
    (kind : Option AccountKind) : Call ℕ := do
  let locked ← question (.lock seed password params)
  let locked ← orThrow locked
  save ⟨pubkey, .locked, locked.iv, locked.ciphertext, none, some locked.salt, some params, none⟩ kind
  return locked.deriveMs

/-! ## The browser -/

/-- What becomes of a question. -/
structure Chance where
  /-- Why the transaction is rejected, if it is. -/
  rejected : Option String
  wrapped : Except String Wrapped
  locked : Except String Locked

/-- A transaction that is not rejected. -/
def transact {α : Type} (d : Chance) (s : Store) (answer : α) (s' : Store) : Except String α × Store :=
  match d.rejected with
  | none => (.ok answer, s')
  | some message => (.error message, s)

def react (d : Chance) (s : Store) : (q : Ask) → q.Answer × Store
  | .idbGet id => transact d s (s.get id) s
  | .idbGetAll => transact d s s s
  | .idbPut record => transact d s () (s.put record)
  | .idbDelete id => transact d s () (s.delete id)
  | .wrap _ => (d.wrapped, s)
  | .lock .. => (d.locked, s)

end Lumenia.Web.Keystore
