import Lumenia.Contracts.Host

/-!
# The LumenDropCommit escrow contract

`contracts/lumen-drop-commit/src/lib.rs`, function by function: a link drop whose record carries a
commitment to the amount. The claim reveals the amount and a salt; what is paid is what was
escrowed. `upgrade` is left out: it installs other code.
-/

namespace Lumenia.LumenDropCommit

open Soroban

/-- 30 days, in seconds. -/
def maxExpiryHorizon : ℕ := 30 * 24 * 60 * 60

def tagCommit : UInt8 := 0x03
def tagClaim : UInt8 := 0x04

/-- LumenDrop's errors under LumenDrop's numbers, and the two reveal failures. -/
inductive Error
  | AlreadyExists
  | NothingHere
  | AlreadyClaimed
  | NotExpired
  | NotSender
  | BadInput
  | DropEmpty
  | AlreadyClaimedThis
  | Expired
  | Overflow
  | NotInitialized
  | BadExpiry
  | BadReveal
  | RevealMismatch
  deriving DecidableEq

section Data

variable (Address : Type)

structure Drop where
  sender : Address
  /-- sha256(0x03 || link || amount_be16 || salt), computed by the sender's client. -/
  commitment : BytesN 32
  /-- What `deposit` pulled in. -/
  escrowed : ℤ
  expiry : ℕ
  claimed : Bool
  deriving DecidableEq

inductive DropEntry
  | V1 (d : Drop Address)
  deriving DecidableEq

inductive Event
  | deposit (link : BytesN 32) (sender : Address) (commitment : BytesN 32) (expiry : ℕ)
  | claim (link : BytesN 32) (payout : Address) (amount : ℤ)
  | reclaim (link : BytesN 32) (sender : Address) (amount : ℤ)
  deriving DecidableEq

end Data

inductive DataKey
  | token
  | drop (link : BytesN 32)
  deriving DecidableEq

variable {Address : Type}

/-- The type of the entry under a key. -/
@[reducible] def DataKey.Val (Address : Type) : DataKey → Type
  | .token => Address
  | .drop _ => DropEntry Address

abbrev World (G : Governance Address) := Soroban.World Address (DataKey.Val Address) G.State

/-- What an entry point returns. -/
abbrev Result (G : Governance Address) :=
  Except (Fault Error) (World G × Receipt Address (Event Address))

variable {G : Governance Address} [DecidableEq Address]

/-- `__constructor`, on a ledger with the given balances. -/
def construct (token owner : Address) (opening : Address → ℕ) : World G where
  storage := Finmap.insert DataKey.token token ∅
  gov := G.setOwner owner
  balance a := opening a

/-! ## Helpers -/

def getDrop (w : World G) (link : BytesN 32) : Option (Drop Address) :=
  (w.storage.lookup (.drop link)).map fun | .V1 d => d

def checkExpiry (c : Ctx Address) (expiry : ℕ) : Except (Fault Error) Unit :=
  failIf (expiry ≤ c.timestamp ∨ saturatingAdd c.timestamp maxExpiryHorizon < expiry)
    (.error .BadExpiry)

def token (w : World G) : Except (Fault Error) Address :=
  okOr (w.storage.lookup .token) (.error .NotInitialized)

/-- 0x03(1) ++ link(32) ++ amount_be16 ++ salt(32) -/
def preimage (link : BytesN 32) (amount : ℤ) (salt : BytesN 32) : Bytes :=
  [tagCommit] ++ link.toList ++ toBeBytes amount ++ salt.toList

variable (env : Env Address)

def commit (link : BytesN 32) (amount : ℤ) (salt : BytesN 32) : BytesN 32 :=
  env.sha256 (preimage link amount salt)

def commitmentOf (link : BytesN 32) (amount : ℤ) (salt : BytesN 32) : BytesN 32 :=
  commit env link amount salt

/-- 0x04(1) ++ network_id(32) ++ contract_address_xdr ++ link(32) ++ payout_xdr ++ amount_be16
++ salt(32) -/
def message (link : BytesN 32) (payout : Address) (amount : ℤ) (salt : BytesN 32) : Bytes :=
  [tagClaim] ++ env.networkId.toList ++ env.toXdr env.contract ++ link.toList ++
    env.toXdr payout ++ toBeBytes amount ++ salt.toList

def claimMessage (link : BytesN 32) (payout : Address) (amount : ℤ) (salt : BytesN 32) : Bytes :=
  message env link payout amount salt

/-! ## Entry points -/

def deposit (c : Ctx Address) (w : World G) (sender : Address) (link commitment : BytesN 32)
    (amount : I128) (expiry : U64) : Result G := do
  whenNotPaused w
  requireAuth env c sender
  failIf (amount.1 ≤ 0) (.error .BadInput)
  checkExpiry c expiry.1
  failIf ((w.storage.lookup (.drop link)).isSome = true) (.error .AlreadyExists)
  let _ ← token w
  let t : Transfer Address := ⟨sender, env.contract, amount.1⟩
  let w ← w.transfer c t
  let entry : DropEntry Address := .V1 ⟨sender, commitment, amount.1, expiry.1, false⟩
  return ({ w with storage := w.storage.insert (.drop link) entry },
    ⟨[t], [.deposit link sender commitment expiry.1]⟩)

def claim (c : Ctx Address) (w : World G) (link : BytesN 32) (payout : Address) (sig : BytesN 64)
    (amount : I128) (salt : BytesN 32) : Result G := do
  let d ← okOr (getDrop w link) (.error .NothingHere)
  failIf (d.claimed = true) (.error .AlreadyClaimed)
  failIf (commit env link amount.1 salt ≠ d.commitment) (.error .BadReveal)
  -- an opened commitment is a promise, the escrow is what exists
  failIf (amount.1 ≠ d.escrowed) (.error .RevealMismatch)
  failIf (env.ed25519Verify link (message env link payout amount.1 salt) sig = false)
    (.trap .badSignature)
  let entry : DropEntry Address := .V1 { d with claimed := true }
  let w := { w with storage := w.storage.insert (.drop link) entry }
  let _ ← token w
  let t : Transfer Address := ⟨env.contract, payout, d.escrowed⟩
  let w ← w.transfer c t
  return (w, ⟨[t], [.claim link payout d.escrowed]⟩)

def reclaim (c : Ctx Address) (w : World G) (link : BytesN 32) : Result G := do
  let d ← okOr (getDrop w link) (.error .NothingHere)
  failIf (d.claimed = true) (.error .AlreadyClaimed)
  failIf (c.timestamp < d.expiry) (.error .NotExpired)
  requireAuth env c d.sender
  let entry : DropEntry Address := .V1 { d with claimed := true }
  let w := { w with storage := w.storage.insert (.drop link) entry }
  let _ ← token w
  let t : Transfer Address := ⟨env.contract, d.sender, d.escrowed⟩
  let w ← w.transfer c t
  return (w, ⟨[t], [.reclaim link d.sender d.escrowed]⟩)

/-! ## Dispatch -/

inductive Op (Address : Type)
  | deposit (sender : Address) (link commitment : BytesN 32) (amount : I128) (expiry : U64)
  | claim (link : BytesN 32) (payout : Address) (sig : BytesN 64) (amount : I128)
      (salt : BytesN 32)
  | reclaim (link : BytesN 32)
  | governance (op : GovOp Address)

def invoke (c : Ctx Address) (op : Op Address) (w : World G) : Result G :=
  match op with
  | .deposit sender link commitment amount expiry =>
    deposit env c w sender link commitment amount expiry
  | .claim link payout sig amount salt => claim env c w link payout sig amount salt
  | .reclaim link => reclaim env c w link
  | .governance op => Soroban.governance c w op

abbrev Input (Address : Type) := Soroban.Input Address (Op Address)

abbrev Outcome (Address : Type) := Except (Fault Error) (Receipt Address (Event Address))

/-- The contract on its ledger, from the moment the constructor has run. -/
def ledger (token owner : Address) (opening : Address → ℕ) :
    Machine (World G) (Input Address) (Outcome Address) :=
  Soroban.ledger env (invoke env) (construct token owner opening)

end Lumenia.LumenDropCommit
