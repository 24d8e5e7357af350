import Lumenia.Stellar.Transaction
import Lumenia.Theory.Checks

/-!
# The validator of client transactions

`validateInnerTransaction` of `apps/sponsor/src/lib/anti-drain.ts`, which runs before the sponsor
pays for a transaction that a client has built, and the policies of its two routes, `/feebump` and
`/send-link`. A `ValidationResult` is an `Except` here; the `equals` of an asset throws when it is
given a liquidity pool, which stops the route just the same.

Under either policy a transaction that is accepted lets the sponsor source nothing but the beginning
of a sponsorship for the named recipient, and everything else is the recipient's own and as the
policy pins it (`sponsor_not_drained`).
-/

namespace Lumenia.Sponsor

open Stellar

namespace AntiDrain

/-- `ALLOWED_INNER_OP_TYPES` -/
def allowedInnerOpTypes : List OpType :=
  [.beginSponsoringFutureReserves, .createAccount, .changeTrust, .endSponsoringFutureReserves,
    .claimClaimableBalance, .payment]

/-- `SPONSOR_SOURCEABLE_OPS` -/
def sponsorSourceableOps : List OpType := [.beginSponsoringFutureReserves, .createAccount]

/-- `ALLOWED_SEND_OP_TYPES` -/
def allowedSendOpTypes : List OpType :=
  [.beginSponsoringFutureReserves, .createClaimableBalance, .endSponsoringFutureReserves]

end AntiDrain

open AntiDrain

structure InnerTxPolicy where
  expectedSource : String
  sponsor : String
  sponsorSigner : Option String := none
  expectedAsset : Option (Asset String) := none
  expectedBalanceId : Option String := none
  allowUncheckedAsset : Bool := false
  allowUncheckedBalanceId : Bool := false
  allowedPaymentDestinations : List String := []
  maxStartingBalance : String := "0"
  maxOps : ℕ := 6
  allowedOpTypes : List OpType := allowedInnerOpTypes
  expectedClaimantCount : Option ℕ := none
  expectedOpSequence : Option (List OpType) := none

/-- Refuse a transaction that names the sponsor's separate signing address anywhere it could act. -/
def signerRefusal (tx : ParsedTx) (policy : InnerTxPolicy) (roles : List (String × String)) :
    Except String Unit :=
  match policy.sponsorSigner with
  | none => return ()
  | some key =>
    if key = "" ∨ key = policy.sponsor then return ()
    else do
      roles.forM fun role => failWhen (role.2 = key)
        (role.1 ++ " is the sponsor's signing key (drain attempt)")
      failWhen (tx.source = key) "tx source is the sponsor's signing key (drain attempt)"
      tx.operations.forM fun op => failWhen (op.effectiveSource tx.source = key)
        ("op '" ++ op.body.type.name ++ "' sourced from the sponsor's signing key (drain attempt)")

def assertPlainAccount (label value : String) : Except String Unit :=
  failWhen (isValidEd25519PublicKey value = false)
    (label ++ " must be a plain G… account, got " ++ .ofList (value.toList.take 12) ++ "…")

/-- A field that must be as the policy pins it, and must be pinned unless the policy says so. -/
def checkPinned {α : Type} [DecidableEq α] (expected : Option α) (actual : α) (unchecked : Bool)
    (mismatch strict : String) : Except String Unit :=
  match expected with
  | some expected => failWhen (actual ≠ expected) mismatch
  | none => failWhen (unchecked = false) strict

section

variable (policy : InnerTxPolicy)

/-- The exact number of claimants. -/
def checkClaimantCount (count : ℕ) : Except String Unit :=
  match policy.expectedClaimantCount with
  | none => .error "createClaimableBalance present but no expectedClaimantCount set (strict mode)"
  | some expected => failWhen (count ≠ expected)
      ("createClaimableBalance has " ++ toString count ++ " claimants, expected " ++
        toString expected)

/-- The parameters of one operation. -/
def checkParameters : Body String String String → Except String Unit
  | .createAccount destination startingBalance => do
    failWhen (destination ≠ policy.expectedSource)
      ("createAccount destination " ++ destination ++ " != recipient")
    failWhen ((parseFloat startingBalance).gt (parseFloat policy.maxStartingBalance) = true)
      ("createAccount startingBalance " ++ startingBalance ++ " > max " ++ policy.maxStartingBalance ++
        " (drain attempt)")
  | .beginSponsoringFutureReserves sponsoredId =>
    failWhen (sponsoredId ≠ policy.expectedSource)
      ("beginSponsoring sponsoredId " ++ sponsoredId ++ " != recipient")
  | .changeTrust line _ =>
    checkPinned (policy.expectedAsset.map .asset) line policy.allowUncheckedAsset
      "changeTrust asset is not the expected asset"
      "changeTrust present but no expectedAsset set (strict mode)"
  | .claimClaimableBalance balanceId =>
    checkPinned (policy.expectedBalanceId.filter (· ≠ "")) balanceId policy.allowUncheckedBalanceId
      ("claim balanceId " ++ balanceId ++ " != expected")
      "claim present but no expectedBalanceId set (strict mode)"
  | .createClaimableBalance asset _ claimants => do
    checkPinned policy.expectedAsset asset policy.allowUncheckedAsset
      "createClaimableBalance asset is not the expected asset"
      "createClaimableBalance present but no expectedAsset set (strict mode)"
    checkClaimantCount policy claimants.length
    failWhen (claimants.all fun c => c.predicate ≠ .unconditional)
      "createClaimableBalance has no unconditional claimant (reserve could lock forever)"
    failWhen (claimants.all fun c => c.destination ≠ policy.expectedSource)
      "createClaimableBalance missing the sender as a reclaim claimant"
  | .payment destination _ _ =>
    failWhen (destination = "" ∨ destination ∉ policy.allowedPaymentDestinations)
      ("payment to non-allowlisted destination " ++ destination)
  | .endSponsoringFutureReserves => return ()
  | .other _ => return ()

/-- One operation: its type, its source, its parameters. -/
def checkOperation (txSource : String) (op : Operation String String String) : Except String Unit := do
  let type := op.body.type
  failWhen (type ∉ policy.allowedOpTypes) ("disallowed op type: " ++ type.name)
  let src := op.effectiveSource txSource
  assertPlainAccount ("op '" ++ type.name ++ "' source") src
  failWhen (src = policy.sponsor ∧ type ∉ sponsorSourceableOps)
    ("op '" ++ type.name ++ "' sourced from sponsor (drain attempt)")
  if type ∈ sponsorSourceableOps then
    failWhen (src ≠ policy.sponsor)
      ("op '" ++ type.name ++ "' must be sourced by the sponsor, got " ++ src)
  else
    failWhen (src ≠ policy.expectedSource)
      ("op '" ++ type.name ++ "' must be sourced by the recipient, got " ++ src)
  checkParameters policy op.body

def validateInnerTransaction (tx : ParsedTx) : Except String Unit := do
  failWhen (tx.operations.length = 0) "no operations"
  failWhen (tx.operations.length > policy.maxOps)
    ("too many ops (" ++ toString tx.operations.length ++ " > " ++ toString policy.maxOps ++ ")")
  failWhen (tx.source ≠ policy.expectedSource) ("unexpected tx source " ++ tx.source)
  assertPlainAccount "tx source" tx.source
  assertPlainAccount "expectedSource" policy.expectedSource
  assertPlainAccount "sponsor" policy.sponsor
  signerRefusal tx policy [("expectedSource", policy.expectedSource)]
  let actual := tx.operations.map (·.body.type)
  failWhen (policy.expectedOpSequence.any fun expected => actual ≠ expected)
    ("op sequence [" ++ ", ".intercalate (actual.map OpType.name) ++ "] != expected [" ++
      ", ".intercalate ((policy.expectedOpSequence.getD []).map OpType.name) ++ "]")
  tx.operations.forM (checkOperation policy tx.source)

end

/-! ## The routes -/

structure SponsorAccount where
  sponsorAccountId : String
  /-- `signer.publicKey()` -/
  signer : String
  usdc : Asset String

variable (config : SponsorAccount)

def feebumpPolicy (recipientPublicKey balanceId : String) : InnerTxPolicy where
  expectedSource := recipientPublicKey
  sponsor := config.sponsorAccountId
  sponsorSigner := some config.signer
  expectedAsset := some config.usdc
  expectedBalanceId := some balanceId
  maxOps := 1
  expectedOpSequence := some [.claimClaimableBalance]

def sendPolicy (senderPublicKey : String) : InnerTxPolicy where
  expectedSource := senderPublicKey
  sponsor := config.sponsorAccountId
  sponsorSigner := some config.signer
  expectedAsset := some config.usdc
  allowedOpTypes := allowedSendOpTypes
  expectedClaimantCount := some 2
  maxOps := 3
  expectedOpSequence :=
    some [.beginSponsoringFutureReserves, .createClaimableBalance, .endSponsoringFutureReserves]

end Lumenia.Sponsor
