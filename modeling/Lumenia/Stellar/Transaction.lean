import Lumenia.Stellar.Amount
import Lumenia.Stellar.StrKey

/-!
# Transactions

A transaction as the ledger has it (`LedgerTx`), with keys and whole stroops, and as the SDK parses
it (`ParsedTx`), with texts. The ledger asks the account of an operation's own
source for its signature, and an operation without a source has that of the transaction. Of the
operations only those are kept with their fields that some guard reads.
-/

namespace Lumenia.Stellar

/-- The types of operations. -/
inductive OpType
  | createAccount
  | payment
  | pathPaymentStrictReceive
  | pathPaymentStrictSend
  | createPassiveSellOffer
  | manageSellOffer
  | manageBuyOffer
  | setOptions
  | changeTrust
  | allowTrust
  | accountMerge
  | inflation
  | manageData
  | bumpSequence
  | createClaimableBalance
  | claimClaimableBalance
  | beginSponsoringFutureReserves
  | endSponsoringFutureReserves
  | revokeSponsorship
  | clawback
  | clawbackClaimableBalance
  | setTrustLineFlags
  | liquidityPoolDeposit
  | liquidityPoolWithdraw
  | invokeHostFunction
  | extendFootprintTtl
  | restoreFootprint
  deriving DecidableEq

def OpType.name : OpType → String
  | createAccount => "createAccount"
  | payment => "payment"
  | pathPaymentStrictReceive => "pathPaymentStrictReceive"
  | pathPaymentStrictSend => "pathPaymentStrictSend"
  | createPassiveSellOffer => "createPassiveSellOffer"
  | manageSellOffer => "manageSellOffer"
  | manageBuyOffer => "manageBuyOffer"
  | setOptions => "setOptions"
  | changeTrust => "changeTrust"
  | allowTrust => "allowTrust"
  | accountMerge => "accountMerge"
  | inflation => "inflation"
  | manageData => "manageData"
  | bumpSequence => "bumpSequence"
  | createClaimableBalance => "createClaimableBalance"
  | claimClaimableBalance => "claimClaimableBalance"
  | beginSponsoringFutureReserves => "beginSponsoringFutureReserves"
  | endSponsoringFutureReserves => "endSponsoringFutureReserves"
  | revokeSponsorship => "revokeSponsorship"
  | clawback => "clawback"
  | clawbackClaimableBalance => "clawbackClaimableBalance"
  | setTrustLineFlags => "setTrustLineFlags"
  | liquidityPoolDeposit => "liquidityPoolDeposit"
  | liquidityPoolWithdraw => "liquidityPoolWithdraw"
  | invokeHostFunction => "invokeHostFunction"
  | extendFootprintTtl => "extendFootprintTtl"
  | restoreFootprint => "restoreFootprint"

/-- The types whose operations have fields that some guard reads. -/
def OpType.hasFields : OpType → Bool
  | createAccount | payment | changeTrust | createClaimableBalance | claimClaimableBalance
  | beginSponsoringFutureReserves | endSponsoringFutureReserves => true
  | _ => false

/-- An asset. The ledger takes a code in one of its two forms only, by its length. -/
inductive Asset (A : Type)
  | native
  | credit (code : String) (issuer : A)
  deriving DecidableEq

/-- What a trustline is for. -/
inductive Line (A : Type)
  | asset (a : Asset A)
  | liquidityPool
  deriving DecidableEq

inductive ClaimPredicate
  | unconditional
  | and
  | or
  | not
  | beforeAbsoluteTime
  | beforeRelativeTime
  deriving DecidableEq

structure Claimant (A : Type) where
  destination : A
  predicate : ClaimPredicate
  deriving DecidableEq

/-- An operation over addresses `A`, possibly muxed addresses `M` and amounts `N`. -/
inductive Body (A M N : Type)
  | createAccount (destination : A) (startingBalance : N)
  | payment (destination : M) (asset : Asset A) (amount : N)
  | changeTrust (line : Line A) (limit : N)
  | createClaimableBalance (asset : Asset A) (amount : N) (claimants : List (Claimant A))
  | claimClaimableBalance (balanceId : String)
  | beginSponsoringFutureReserves (sponsoredId : A)
  | endSponsoringFutureReserves
  /-- Any other operation, without its fields. -/
  | other (type : { t : OpType // t.hasFields = false })
  deriving DecidableEq

structure Operation (A M N : Type) where
  source : Option M
  body : Body A M N
  deriving DecidableEq

structure Transaction (A M N : Type) where
  source : M
  operations : List (Operation A M N)
  deriving DecidableEq

abbrev LedgerTx := Transaction Key MuxedAccount ℤ

abbrev ParsedTx := Transaction String String String

section

variable {A M N A' M' N' : Type}

def Body.type : Body A M N → OpType
  | .createAccount .. => .createAccount
  | .payment .. => .payment
  | .changeTrust .. => .changeTrust
  | .createClaimableBalance .. => .createClaimableBalance
  | .claimClaimableBalance _ => .claimClaimableBalance
  | .beginSponsoringFutureReserves _ => .beginSponsoringFutureReserves
  | .endSponsoringFutureReserves => .endSponsoringFutureReserves
  | .other type => type.1

/-- The source that the operation has in the transaction. -/
def Operation.effectiveSource (op : Operation A M N) (txSource : M) : M := op.source.getD txSource

def Asset.map (f : A → A') : Asset A → Asset A'
  | .native => .native
  | .credit code issuer => .credit code (f issuer)

def Line.map (f : A → A') : Line A → Line A'
  | .asset a => .asset (a.map f)
  | .liquidityPool => .liquidityPool

def Claimant.map (f : A → A') (c : Claimant A) : Claimant A' := ⟨f c.destination, c.predicate⟩

def Body.map (f : A → A') (g : M → M') (h : N → N') : Body A M N → Body A' M' N'
  | .createAccount destination startingBalance => .createAccount (f destination) (h startingBalance)
  | .payment destination asset amount => .payment (g destination) (asset.map f) (h amount)
  | .changeTrust line limit => .changeTrust (line.map f) (h limit)
  | .createClaimableBalance asset amount claimants =>
    .createClaimableBalance (asset.map f) (h amount) (claimants.map (Claimant.map f))
  | .claimClaimableBalance balanceId => .claimClaimableBalance balanceId
  | .beginSponsoringFutureReserves sponsoredId => .beginSponsoringFutureReserves (f sponsoredId)
  | .endSponsoringFutureReserves => .endSponsoringFutureReserves
  | .other type => .other type

end

/-! ## Parsing -/

def Operation.parse (op : Operation Key MuxedAccount ℤ) : Operation String String String :=
  ⟨op.source.map MuxedAccount.address, op.body.map address MuxedAccount.address fromXDRAmount⟩

/-- `TransactionBuilder.fromXDR` -/
def Transaction.parse (tx : LedgerTx) : ParsedTx :=
  ⟨tx.source.address, tx.operations.map Operation.parse⟩

variable {op : Operation Key MuxedAccount ℤ} {tx : LedgerTx} {source : MuxedAccount} {key : Key}

theorem effectiveSource_parse :
    op.parse.effectiveSource source.address = (op.effectiveSource source).address := by
  cases h : op.source <;> simp [Operation.effectiveSource, Operation.parse, h]

/-- An operation with the address of a key has that key, and no number, as its source. -/
theorem effectiveSource_parse_eq :
    op.parse.effectiveSource source.address = address key ↔ op.effectiveSource source = .ed25519 key := by
  rw [effectiveSource_parse, MuxedAccount.address_eq]

end Lumenia.Stellar
