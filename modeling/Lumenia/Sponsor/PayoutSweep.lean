import Lumenia.Sponsor.AntiDrain
import Lumenia.Stellar.Double

/-!
# The validators of /payout and /sweep

`validatePayoutTransaction` and `validateSweepTransaction` of `apps/sponsor/src/lib/anti-drain.ts`: a
payment of the user's own dollars to an address they name, and the consolidation of an account into the
user's home account. The sponsor pays the fee and sources nothing.
-/

namespace Lumenia.Sponsor

open Stellar

namespace AntiDrain

/-- `ALLOWED_PAYOUT_OP_TYPES` -/
def allowedPayoutOpTypes : List OpType := [.payment]

/-- `SWEEP_TAIL` -/
def sweepTail : List OpType := [.payment, .changeTrust, .accountMerge]

/-- An address as a refusal may name it. -/
def short (address : String) : String :=
  if address = "" then address else .ofList (address.toList.take 4) ++ "..."

end AntiDrain

open AntiDrain

/-! ## Payout -/

structure PayoutPolicy where
  sender : String
  sponsor : String
  sponsorSigner : Option String := none
  usdc : Asset String
  expectedDestination : String
  expectedAmount : String

/-- What `signerRefusal` reads of the policy. -/
def PayoutPolicy.signerAware (policy : PayoutPolicy) : InnerTxPolicy where
  expectedSource := policy.sender
  sponsor := policy.sponsor
  sponsorSigner := policy.sponsorSigner

/-- The parameters of the payment. -/
def checkPayout (policy : PayoutPolicy) : Body String String String → Except String Unit
  | .payment destination asset amount => do
    failWhen (destination = "" ∨ destination ≠ policy.expectedDestination)
      ("payout destination " ++ short destination ++ " != declared destination")
    failWhen (policy.usdc ≠ asset) "payout asset is not the expected USDC"
    let amount := parseDouble amount
    failWhen (amount.isFinite = false ∨ amount.gt (.finite 0) = false) "payout amount must be greater than zero"
    failWhen (amount.same (parseDouble policy.expectedAmount) = false) "payout amount != the declared amount"
  | _ => .error "payout destination undefined != declared destination"

def validatePayoutTransaction (tx : ParsedTx) (policy : PayoutPolicy) : Except String Unit :=
  match tx.operations with
  | [op] => do
    failWhen (op.body.type ∉ allowedPayoutOpTypes) ("disallowed op type: " ++ op.body.type.name)
    failWhen (tx.source ≠ policy.sender) ("unexpected tx source " ++ short tx.source)
    signerRefusal tx policy.signerAware [("sender", policy.sender)]
    let src := op.effectiveSource tx.source
    failWhen (src = policy.sponsor) "payout payment sourced from sponsor (drain attempt)"
    failWhen (src ≠ policy.sender) ("payout payment must be sourced by the sender, got " ++ short src)
    checkPayout policy op.body
  | ops => .error ("payout must be exactly one payment op, got " ++ toString ops.length)

/-! ## Sweep -/

/-- An operation with the destination of a merge beside it, which no other guard reads. -/
structure SweepOperation (A M N : Type) extends Operation A M N where
  merge : Option M
  isSome_merge : merge.isSome = decide (body.type = .accountMerge)

structure SweepTransaction (A M N : Type) where
  source : M
  operations : List (SweepOperation A M N)

/-- The transaction without the destinations of merges. -/
def SweepTransaction.plain {A M N : Type} (tx : SweepTransaction A M N) : Transaction A M N :=
  ⟨tx.source, tx.operations.map SweepOperation.toOperation⟩

abbrev LedgerSweep := SweepTransaction Key MuxedAccount ℤ

abbrev ParsedSweep := SweepTransaction String String String

theorem type_parse (op : Operation Key MuxedAccount ℤ) : op.parse.body.type = op.body.type := by
  rw [Operation.parse]
  cases op.body <;> rfl

def SweepOperation.parse (op : SweepOperation Key MuxedAccount ℤ) : SweepOperation String String String where
  toOperation := op.toOperation.parse
  merge := op.merge.map MuxedAccount.address
  isSome_merge := by rw [Option.isSome_map, op.isSome_merge, type_parse]

def SweepTransaction.parse (tx : LedgerSweep) : ParsedSweep :=
  ⟨tx.source.address, tx.operations.map SweepOperation.parse⟩

structure SweepPolicy where
  throwaway : String
  sponsor : String
  sponsorSigner : Option String := none
  home : String
  usdc : Asset String
  expectedAmount : String
  expectedBalanceId : Option String := none

/-- What `signerRefusal` reads of the policy. -/
def SweepPolicy.signerAware (policy : SweepPolicy) : InnerTxPolicy where
  expectedSource := policy.throwaway
  sponsor := policy.sponsor
  sponsorSigner := policy.sponsorSigner

section

variable (policy : SweepPolicy)

/-- The type and the source of an operation. -/
def checkSwept (txSource : String) (i : ℕ) (expected : OpType) (op : SweepOperation String String String) :
    Except String Unit := do
  failWhen (op.body.type ≠ expected)
    ("sweep op " ++ toString i ++ " must be " ++ expected.name ++ ", got " ++ op.body.type.name)
  let src := op.effectiveSource txSource
  failWhen (src = policy.sponsor) ("sweep op '" ++ op.body.type.name ++ "' sourced from sponsor (not allowed)")
  failWhen (src ≠ policy.throwaway)
    ("sweep op '" ++ op.body.type.name ++ "' must be sourced by the throwaway account, got " ++ short src)

/-- The loop over the operations, from the `i`th on. -/
def checkAllSwept (txSource : String) : ℕ → List OpType → List (SweepOperation String String String) →
    Except String Unit
  | i, expected :: seq, op :: ops => do
    checkSwept policy txSource i expected op
    checkAllSwept txSource (i + 1) seq ops
  | _, _, _ => return ()

def checkSweepClaim : Body String String String → Except String Unit
  | .claimClaimableBalance balanceId =>
    match policy.expectedBalanceId with
    | none => .error "sweep has a claim op but no expectedBalanceId set (strict mode)"
    | some expected =>
      failWhen (balanceId ≠ expected) ("sweep claim balanceId " ++ short balanceId ++ " != expected")
  | _ => .error "sweep claim balanceId undefined != expected"

def checkSweepPayment : Body String String String → Except String Unit
  | .payment destination asset amount => do
    failWhen (destination ≠ policy.home) ("sweep payment destination " ++ short destination ++ " != home")
    failWhen (policy.usdc ≠ asset) "sweep payment asset is not the expected USDC"
    failWhen ((parseDouble amount).gt (.finite 0) = false) "sweep payment amount must be positive"
    failWhen ((parseDouble amount).same (parseDouble policy.expectedAmount) = false)
      "sweep payment amount != the expected amount"
  | _ => .error "sweep payment destination undefined != home"

def checkSweepTrust : Body String String String → Except String Unit
  | .changeTrust line limit => do
    failWhen (Line.asset policy.usdc ≠ line) "sweep changeTrust asset is not the expected USDC"
    failWhen ((parseDouble limit).same (.finite 0) = false) "sweep changeTrust must remove the trustline (limit 0)"
  | _ => .error "sweep changeTrust asset is not the expected USDC"

def checkSweepMerge (destination : Option String) : Except String Unit :=
  failWhen (destination ≠ some policy.home)
    ("sweep accountMerge destination " ++ short (destination.getD "") ++ " != home")

/-- The last three operations: what they move, and where. -/
def checkSweepTail : List (SweepOperation String String String) → Except String Unit
  | [pay, trust, merge] => do
    checkSweepPayment policy pay.body
    checkSweepTrust policy trust.body
    checkSweepMerge policy merge.merge
  | ops => .error ("sweep must be [payment,changeTrust,accountMerge] (optionally led by a claim), got " ++
      toString ops.length ++ " ops")

end

def validateSweepTransaction (tx : ParsedSweep) (policy : SweepPolicy) : Except String Unit := do
  let ops := tx.operations
  let hasClaim := ops.length = 4 ∧ ops.head?.any fun op => op.body.type = .claimClaimableBalance
  let seq := if hasClaim then .claimClaimableBalance :: sweepTail else sweepTail
  failWhen (ops.length ≠ seq.length)
    ("sweep must be [payment,changeTrust,accountMerge] (optionally led by a claim), got " ++ toString ops.length ++
      " ops")
  failWhen (tx.source ≠ policy.throwaway) ("unexpected tx source " ++ short tx.source)
  signerRefusal tx.plain policy.signerAware [("throwaway", policy.throwaway), ("home", policy.home)]
  failWhen (policy.home = policy.throwaway)
    "sweep home must differ from the throwaway (a merge into itself is malformed)"
  checkAllSwept policy tx.source 0 seq ops
  if hasClaim then
    (ops.take 1).forM fun claim => checkSweepClaim policy claim.body
  checkSweepTail policy (ops.drop (if hasClaim then 1 else 0))

end Lumenia.Sponsor
