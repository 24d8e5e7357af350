import Lumenia.Theory.Dialogue
import Mathlib.Data.Nat.Notation

/-!
# The unlocked session

`lib/session.ts` and the session of `background/account.ts`, at the granularity of single operations of
`storage.session`: the seed, the account it belongs to and the deadline are entries of their own. A seed is
kept as itself for its base 64, and stands for the signer or the key of the links that is made of it. What
the keystore, the other storage and the hosts bring is answered from outside.
-/

namespace Lumenia.Extension.Account

open Dialogue

/-! ## Rules of the session -/

structure SessionView where
  pubkey : Option String
  lockAt : Option ℕ
  deriving DecidableEq

def LOCKED : SessionView := ⟨none, none⟩

inductive SessionEvent
  | unlock (pubkey : String) (now autolockMin : ℕ)
  | touch (now autolockMin : ℕ)
  | lock
  | tick (now : ℕ)

def lockAtFor (now autolockMin : ℕ) : ℕ := now + autolockMin * 60000

def isUnlocked (s : SessionView) (now : ℕ) : Bool :=
  match s.pubkey, s.lockAt with
  | some pubkey, some lockAt => pubkey ≠ "" && now < lockAt
  | _, _ => false

def reduce (s : SessionView) : SessionEvent → SessionView
  | .unlock pubkey now autolockMin => ⟨some pubkey, some (lockAtFor now autolockMin)⟩
  | .touch now autolockMin =>
    if isUnlocked s now then { s with lockAt := some (lockAtFor now autolockMin) } else LOCKED
  | .lock => LOCKED
  | .tick now => if isUnlocked s now then s else LOCKED

/-- Only an unexpired session for that same account. -/
def canSign (s : SessionView) (now : ℕ) (pubkey : String) : Bool :=
  isUnlocked s now && s.pubkey = some pubkey

/-! ## Operations -/

inductive ExtError
  /-- With its message of the table. -/
  | fail (code : String)
  | error (code message : String)
  deriving DecidableEq

structure HeldAccount where
  pubkey : String
  phase : ℕ
  deriving DecidableEq

/-- What this browser knows about the backup of an account. -/
structure BackupRecord where
  email : Option String
  bound : Option Bool
  deriving DecidableEq

variable {Seed : Type}

inductive Ask (Seed : Type)
  | getSeed
  | getUnlockedPubkey
  | getLockAt
  /-- All three entries. -/
  | setSession (seed : Seed) (pubkey : String) (lockAt : ℕ)
  | setLockAt (lockAt : ℕ)
  /-- All three entries. -/
  | removeSession
  /-- `Date.now()` -/
  | clock
  | autolockMin
  /-- The alarm is created, or cleared; that it cannot be is let pass. -/
  | alarm (lockAt : Option ℕ)
  | currentAccount
  | unlockPhase2 (password pubkey : String)
  | keepCopy (seed : Seed) (password : String)
  /-- A new account is made, and its record is kept. -/
  | newAccount (password : String)
  /-- The account that is to be left for the one that is restored. -/
  | restoring
  /-- The account that is held, whose email backs up another. -/
  | conflict
  | openBox (password : String)
  | backupRecord (pubkey : String)
  | checkMine (email : String) (signer : Seed)
  | mayLeave (pubkey : String)
  | clearKeystore
  | savePhase2 (pubkey : String) (seed : Seed) (password : String)
  | forgetRecords

abbrev Ask.Answer : Ask Seed → Type
  | getSeed => Option Seed
  | getUnlockedPubkey => Option String
  | getLockAt => Option ℕ
  | setSession .. | setLockAt _ | removeSession | alarm _ => Unit
  | clock | autolockMin => ℕ
  | currentAccount => Option HeldAccount
  | unlockPhase2 .. => Option Seed
  | newAccount _ | openBox _ => Except ExtError Seed
  | restoring => Except ExtError (Option String)
  | conflict => Except ExtError String
  | backupRecord _ => Option BackupRecord
  | checkMine .. => Bool
  | keepCopy .. | mayLeave _ | clearKeystore | savePhase2 .. | forgetRecords => Except ExtError Unit

abbrev Call (Seed : Type) := Dialogue (@Ask.Answer Seed) ExtError

def orThrow {α : Type} : Except ExtError α → Call Seed α
  | .ok a => pure a
  | .error e => throw e

def sessionView : Call Seed SessionView := do
  let pubkey ← question .getUnlockedPubkey
  let lockAt ← question .getLockAt
  if pubkey = none ∨ pubkey = some "" ∨ lockAt = none then return LOCKED
  else return ⟨pubkey, lockAt⟩

def scheduleAutolock (lockAt : ℕ) : Call Seed Unit := question (Ask.alarm (some lockAt))

def startSession (pubkey : String) (seed : Seed) : Call Seed ℕ := do
  let autolockMin ← question .autolockMin
  let now ← question .clock
  let lockAt := lockAtFor now autolockMin
  question (Ask.setSession seed pubkey lockAt)
  scheduleAutolock lockAt
  return lockAt

def lock : Call Seed Unit := do
  question Ask.removeSession
  question (Ask.alarm none)

/-- An expired session locks. -/
def touch : Call Seed Unit := do
  let view ← sessionView
  if view.pubkey = none then return ()
  else do
    let autolockMin ← question .autolockMin
    let now ← question .clock
    match (reduce view (.touch now autolockMin)).lockAt with
    | none => lock
    | some lockAt => do
      question (Ask.setLockAt lockAt)
      scheduleAutolock lockAt

/-- The deadline, if the session is unlocked. -/
def isUnlockedNow : Call Seed (Option ℕ) := do
  let view ← sessionView
  let now ← question .clock
  if isUnlocked view now then return view.lockAt
  else if view.pubkey ≠ none then do
    lock
    return none
  else do
    let seed ← question .getSeed
    if (Option.isSome seed : Bool) then do
      lock
      return none
    else return none

def locked {α : Type} : Call Seed α := do
  lock
  throw (.fail "locked")

def notThisAccount : ExtError := .error "internal" "The unlocked key does not match this account."

section

variable (publicKeyOf : Seed → String)

/-- The seed that is stored, if it is that of the account. -/
def seedFor (pubkey : String) : Call Seed Seed := do
  let seed ← question .getSeed
  match (seed : Option Seed) with
  | none => locked
  | some seed => if publicKeyOf seed = pubkey then return seed else throw notThisAccount

def signerFor (pubkey : String) : Call Seed Seed := do
  let view ← sessionView
  let now ← question .clock
  if canSign view now pubkey then seedFor publicKeyOf pubkey else locked

def linksKeyForSession : Call Seed Seed := do
  let view ← sessionView
  match view.pubkey with
  | none => locked
  | some pubkey => do
    let now ← question .clock
    if canSign view now pubkey then seedFor publicKeyOf pubkey else locked

def unlock (password : String) : Call Seed ℕ := do
  let acct ← question .currentAccount
  match (acct : Option HeldAccount) with
  | none => throw (.fail "no-account")
  | some acct =>
    if acct.phase ≠ 2 then throw (.fail "needs-password")
    else do
      let seed ← question (.unlockPhase2 password acct.pubkey)
      match (seed : Option Seed) with
      | none => throw (.error "bad-password" "That password doesn't unlock this account.")
      | some seed =>
        if publicKeyOf seed ≠ acct.pubkey then throw notThisAccount
        else do
          let copied ← question (.keepCopy seed password)
          orThrow copied
          startSession acct.pubkey seed

def createAccount (password : String) : Call Seed String := do
  let made ← question (.newAccount password)
  let seed ← orThrow made
  let _ ← startSession (publicKeyOf seed) seed
  return publicKeyOf seed

/-- The held account leaves for another one only when its backup is confirmed as its own. -/
def requireConfirmedBackup (pubkey : String) : Call Seed Unit := do
  let record ← question (.backupRecord pubkey)
  let unbacked : ExtError := .error "needs-backup" "Back this account up first. It lives only in this browser."
  match (record : Option BackupRecord) with
  | none => throw unbacked
  | some ⟨email, bound⟩ =>
    if bound = some true then return ()
    else
      match email with
      | none => throw (.error "needs-backup" "Add your backup email first.")
      | some email => do
        let lockAt ← isUnlockedNow
        if Option.isSome lockAt = false then throw unbacked
        else do
          let signer ← (signerFor publicKeyOf pubkey).outcome
          match (signer : Except ExtError Seed) with
          | .error _ => throw unbacked
          | .ok signer => do
            let mine ← question (.checkMine email signer)
            if mine = true then return () else throw unbacked

def leaveHeldAccount : Call Seed Unit := do
  lock
  let cleared ← question .clearKeystore
  orThrow cleared

/-- The account of the seed is kept here, and unlocked. -/
def bringHere (password : String) (seed : Seed) : Call Seed Unit := do
  let saved ← question (.savePhase2 (publicKeyOf seed) seed password)
  orThrow saved
  let _ ← startSession (publicKeyOf seed) seed
  return ()

def restoreSubmitPassword (password : String) : Call Seed Unit := do
  let restoring ← question .restoring
  let switchFrom ← orThrow restoring
  match switchFrom with
  | none => do
    let opened ← question (.openBox password)
    let seed ← orThrow opened
    bringHere publicKeyOf password seed
  | some held => do
    requireConfirmedBackup publicKeyOf held
    let opened ← question (.openBox password)
    let seed ← orThrow opened
    if publicKeyOf seed = held then return ()
    else do
      leaveHeldAccount
      bringHere publicKeyOf password seed

def backupUseExisting (password : String) : Call Seed Unit := do
  let conflict ← question .conflict
  let held ← orThrow conflict
  let opened ← question (.openBox password)
  let seed ← orThrow opened
  if publicKeyOf seed = held then return ()
  else do
    let may ← question (.mayLeave held)
    orThrow may
    leaveHeldAccount
    bringHere publicKeyOf password seed

end

def forget : Call Seed Unit := do
  lock
  let forgotten ← question .forgetRecords
  orThrow forgotten
  question Ask.removeSession

/-! ## The browser -/

/-- The session storage, and the clock. -/
structure Browser (Seed : Type) where
  seed : Option Seed
  unlockedPubkey : Option String
  lockAt : Option ℕ
  now : ℕ
  deriving DecidableEq

/-- What is answered from outside. -/
structure Chance (Seed : Type) where
  autolockMin : ℕ
  account : Option HeldAccount
  opened : Option Seed
  seed : Except ExtError Seed
  switchFrom : Except ExtError (Option String)
  held : Except ExtError String
  record : Option BackupRecord
  mine : Bool
  done : Except ExtError Unit

def react (d : Chance Seed) (b : Browser Seed) : (q : Ask Seed) → q.Answer × Browser Seed
  | .getSeed => (b.seed, b)
  | .getUnlockedPubkey => (b.unlockedPubkey, b)
  | .getLockAt => (b.lockAt, b)
  | .setSession seed pubkey lockAt => ((), ⟨some seed, some pubkey, some lockAt, b.now⟩)
  | .setLockAt lockAt => ((), { b with lockAt := some lockAt })
  | .removeSession => ((), ⟨none, none, none, b.now⟩)
  | .clock => (b.now, b)
  | .autolockMin => (d.autolockMin, b)
  | .alarm _ => ((), b)
  | .currentAccount => (d.account, b)
  | .unlockPhase2 .. => (d.opened, b)
  | .newAccount _ | .openBox _ => (d.seed, b)
  | .restoring => (d.switchFrom, b)
  | .conflict => (d.held, b)
  | .backupRecord _ => (d.record, b)
  | .checkMine .. => (d.mine, b)
  | .keepCopy .. | .mayLeave _ | .clearKeystore | .savePhase2 .. | .forgetRecords => (d.done, b)

end Lumenia.Extension.Account
