import Lumenia.Contracts.Host

/-!
# The LumenDrop escrow contract

`contracts/lumen-drop/src/lib.rs`, function by function: link drops (`deposit`, `claim`, `reclaim`),
group pools (`createDrop`, `claimShare`, `reclaimPool`), the message a link key signs, and the
dispatch of one invocation. `upgrade` is left out: it installs other code.
-/

namespace Lumenia.LumenDrop

open Soroban

/-- 30 days, in seconds. -/
def maxExpiryHorizon : ℕ := 30 * 24 * 60 * 60

def tagSingle : UInt8 := 0x01
def tagGroup : UInt8 := 0x02

inductive Error
  | AlreadyExists
  | NothingHere
  | AlreadyClaimed
  | NotExpired
  | NotSender
  | BadInput
  | DropEmpty
  | AlreadyClaimedThis
  | Expired
  | Overflow
  | NotInitialized
  | BadExpiry
  deriving DecidableEq

section Data

variable (Address : Type)

structure Drop where
  sender : Address
  amount : ℤ
  expiry : ℕ
  claimed : Bool
  deriving DecidableEq

structure Pool where
  sender : Address
  amountPer : ℤ
  remaining : ℤ
  slots : ℕ
  claimed : ℕ
  expiry : ℕ
  deriving DecidableEq

/-- Versioned storage envelopes, one variant so far. -/
inductive DropEntry
  | V1 (d : Drop Address)
  deriving DecidableEq

inductive PoolEntry
  | V1 (p : Pool Address)
  deriving DecidableEq

inductive Event
  | deposit (link : BytesN 32) (sender : Address) (amount : ℤ) (expiry : ℕ)
  | claim (link : BytesN 32) (payout : Address) (amount : ℤ)
  | reclaim (link : BytesN 32) (sender : Address) (amount : ℤ)
  | newPool (link : BytesN 32) (sender : Address) (amount : ℤ) (slots : ℕ)
  | share (link : BytesN 32) (payout : Address) (amount : ℤ) (claimed : ℕ)
  | repool (link : BytesN 32) (sender : Address) (amount : ℤ)
  deriving DecidableEq

inductive DataKey
  | token
  | drop (link : BytesN 32)
  | pool (link : BytesN 32)
  | poolClaimed (link : BytesN 32) (payout : Address)
  deriving DecidableEq

end Data

variable {Address : Type}

/-- The type of the entry under a key. -/
@[reducible] def DataKey.Val : DataKey Address → Type
  | .token => Address
  | .drop _ => DropEntry Address
  | .pool _ => PoolEntry Address
  | .poolClaimed _ _ => Bool

abbrev World (G : Governance Address) := Soroban.World Address (@DataKey.Val Address) G.State

/-- What an entry point returns. -/
abbrev Result (G : Governance Address) :=
  Except (Fault Error) (World G × Receipt Address (Event Address))

variable {G : Governance Address} [DecidableEq Address]

/-- `__constructor`, on a ledger with the given balances. -/
def construct (token owner : Address) (opening : Address → ℕ) : World G where
  storage := Finmap.insert DataKey.token token ∅
  gov := G.setOwner owner
  balance a := opening a

/-! ## Helpers -/

def getDrop (w : World G) (link : BytesN 32) : Option (Drop Address) :=
  (w.storage.lookup (.drop link)).map fun | .V1 d => d

def getPool (w : World G) (link : BytesN 32) : Option (Pool Address) :=
  (w.storage.lookup (.pool link)).map fun | .V1 p => p

/-- tag(1) ++ network_id(32) ++ contract_address_xdr ++ link_pubkey(32) ++ payout_xdr -/
def message (env : Env Address) (tag : UInt8) (link : BytesN 32) (payout : Address) : Bytes :=
  [tag] ++ env.networkId.toList ++ env.toXdr env.contract ++ link.toList ++ env.toXdr payout

def claimMessage (env : Env Address) (kind : ℕ) (link : BytesN 32) (payout : Address) : Bytes :=
  message env (if kind = 2 then tagGroup else tagSingle) link payout

def checkExpiry (c : Ctx Address) (expiry : ℕ) : Except (Fault Error) Unit :=
  failIf (expiry ≤ c.timestamp ∨ saturatingAdd c.timestamp maxExpiryHorizon < expiry)
    (.error .BadExpiry)

def token (w : World G) : Except (Fault Error) Address :=
  okOr (w.storage.lookup .token) (.error .NotInitialized)

variable (env : Env Address)

/-! ## One-to-one link drops -/

def deposit (c : Ctx Address) (w : World G) (sender : Address) (link : BytesN 32) (amount : I128)
    (expiry : U64) : Result G := do
  whenNotPaused w
  requireAuth env c sender
  failIf (amount.1 ≤ 0) (.error .BadInput)
  checkExpiry c expiry.1
  failIf ((w.storage.lookup (.drop link)).isSome = true) (.error .AlreadyExists)
  let _ ← token w
  let t : Transfer Address := ⟨sender, env.contract, amount.1⟩
  let w ← w.transfer c t
  let entry : DropEntry Address := .V1 ⟨sender, amount.1, expiry.1, false⟩
  return ({ w with storage := w.storage.insert (.drop link) entry },
    ⟨[t], [.deposit link sender amount.1 expiry.1]⟩)

def claim (c : Ctx Address) (w : World G) (link : BytesN 32) (payout : Address) (sig : BytesN 64) :
    Result G := do
  let d ← okOr (getDrop w link) (.error .NothingHere)
  failIf (d.claimed = true) (.error .AlreadyClaimed)
  failIf (env.ed25519Verify link (message env tagSingle link payout) sig = false)
    (.trap .badSignature)
  let entry : DropEntry Address := .V1 { d with claimed := true }
  let w := { w with storage := w.storage.insert (.drop link) entry }
  let _ ← token w
  let t : Transfer Address := ⟨env.contract, payout, d.amount⟩
  let w ← w.transfer c t
  return (w, ⟨[t], [.claim link payout d.amount]⟩)

def reclaim (c : Ctx Address) (w : World G) (link : BytesN 32) : Result G := do
  let d ← okOr (getDrop w link) (.error .NothingHere)
  failIf (d.claimed = true) (.error .AlreadyClaimed)
  failIf (c.timestamp < d.expiry) (.error .NotExpired)
  requireAuth env c d.sender
  let entry : DropEntry Address := .V1 { d with claimed := true }
  let w := { w with storage := w.storage.insert (.drop link) entry }
  let _ ← token w
  let t : Transfer Address := ⟨env.contract, d.sender, d.amount⟩
  let w ← w.transfer c t
  return (w, ⟨[t], [.reclaim link d.sender d.amount]⟩)

/-! ## Group drops -/

def createDrop (c : Ctx Address) (w : World G) (sender : Address) (link : BytesN 32)
    (amount : I128) (slots : U32) (expiry : U64) : Result G := do
  whenNotPaused w
  requireAuth env c sender
  failIf (amount.1 ≤ 0 ∨ slots.1 = 0 ∨ amount.1 < slots.1) (.error .BadInput)
  checkExpiry c expiry.1
  failIf ((w.storage.lookup (.pool link)).isSome = true) (.error .AlreadyExists)
  let amountPer ← okOr (checkedDiv amount.1 slots.1) (.error .Overflow)
  let _ ← token w
  let t : Transfer Address := ⟨sender, env.contract, amount.1⟩
  let w ← w.transfer c t
  let entry : PoolEntry Address := .V1 ⟨sender, amountPer, amount.1, slots.1, 0, expiry.1⟩
  return ({ w with storage := w.storage.insert (.pool link) entry },
    ⟨[t], [.newPool link sender amount.1 slots.1]⟩)

def claimShare (c : Ctx Address) (w : World G) (link : BytesN 32) (payout : Address)
    (sig : BytesN 64) : Result G := do
  let p ← okOr (getPool w link) (.error .NothingHere)
  -- after expiry only `reclaimPool` may move funds
  failIf (p.expiry ≤ c.timestamp) (.error .Expired)
  failIf (p.slots ≤ p.claimed ∨ p.remaining < p.amountPer) (.error .DropEmpty)
  failIf ((w.storage.lookup (DataKey.poolClaimed link payout)).isSome = true) (.error .AlreadyClaimedThis)
  failIf (env.ed25519Verify link (message env tagGroup link payout) sig = false)
    (.trap .badSignature)
  let claimed ← okOr (checkedAdd p.claimed 1) (.error .Overflow)
  let remaining ← okOr (checkedSub p.remaining p.amountPer) (.error .Overflow)
  let entry : PoolEntry Address := .V1 { p with claimed, remaining }
  let w := { w with storage := w.storage.insert (DataKey.poolClaimed link payout) true }
  let w := { w with storage := w.storage.insert (.pool link) entry }
  let _ ← token w
  let t : Transfer Address := ⟨env.contract, payout, p.amountPer⟩
  let w ← w.transfer c t
  return (w, ⟨[t], [.share link payout p.amountPer claimed]⟩)

def reclaimPool (c : Ctx Address) (w : World G) (link : BytesN 32) : Result G := do
  let p ← okOr (getPool w link) (.error .NothingHere)
  failIf (c.timestamp < p.expiry) (.error .NotExpired)
  requireAuth env c p.sender
  let amount := p.remaining
  failIf (amount ≤ 0) (.error .DropEmpty)
  -- closes the pool: no `claimShare` passes its guard any more
  let entry : PoolEntry Address := .V1 { p with remaining := 0, claimed := p.slots }
  let w := { w with storage := w.storage.insert (.pool link) entry }
  let _ ← token w
  let t : Transfer Address := ⟨env.contract, p.sender, amount⟩
  let w ← w.transfer c t
  return (w, ⟨[t], [.repool link p.sender amount]⟩)

/-! ## Dispatch -/

/-- The calls that take money out of a record. -/
inductive Exit (Address : Type)
  | claim (link : BytesN 32) (payout : Address) (sig : BytesN 64)
  | reclaim (link : BytesN 32)
  | claimShare (link : BytesN 32) (payout : Address) (sig : BytesN 64)
  | reclaimPool (link : BytesN 32)

inductive Op (Address : Type)
  | deposit (sender : Address) (link : BytesN 32) (amount : I128) (expiry : U64)
  | createDrop (sender : Address) (link : BytesN 32) (amount : I128) (slots : U32) (expiry : U64)
  | exit (e : Exit Address)
  | governance (op : GovOp Address)

def invokeExit (c : Ctx Address) (w : World G) : Exit Address → Result G
  | .claim link payout sig => claim env c w link payout sig
  | .reclaim link => reclaim env c w link
  | .claimShare link payout sig => claimShare env c w link payout sig
  | .reclaimPool link => reclaimPool env c w link

def invoke (c : Ctx Address) (op : Op Address) (w : World G) : Result G :=
  match op with
  | .deposit sender link amount expiry => deposit env c w sender link amount expiry
  | .createDrop sender link amount slots expiry =>
    createDrop env c w sender link amount slots expiry
  | .exit e => invokeExit env c w e
  | .governance op => Soroban.governance c w op

abbrev Input (Address : Type) := Soroban.Input Address (Op Address)

/-- The contract on its ledger, from the moment the constructor has run. -/
def ledger (token owner : Address) (opening : Address → ℕ) :
    Machine (World G) (Input Address) (Except (Fault Error) (Receipt Address (Event Address))) :=
  Soroban.ledger env (invoke env) (construct token owner opening)

end Lumenia.LumenDrop
