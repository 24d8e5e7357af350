import Lumenia.Theory.Dialogue
import Lumenia.Web.TxGuard

/-!
# Converting lumens into dollars

`buildSwapTx`, `assertIsOwnConversion` and `runConversion` of `apps/web/lib/swap.ts`: one path payment
of an account to itself is built, signed by whatever signs for the account, checked, and submitted.

The check compares the shape and the bound of what the signer hands back, and neither the amount that
is spent, nor the amount that is asked for, nor the fee. What is submitted settles as it was shown
exactly when those three are what they were (`conversion_as_shown_iff`); a signer that hands back the
same conversion over ten times the lumens is obeyed (`larger_send_passes`).
-/

namespace Lumenia.Web.Swap

open Stellar Dialogue

/-! ## Path payments -/

inductive SwapBody (A M N : Type)
  | pathPaymentStrictSend (sendAsset : Asset A) (sendAmount : N) (destination : M)
    (destAsset : Asset A) (destMin : N) (path : List (Asset A))
  | pathPaymentStrictReceive (sendAsset : Asset A) (sendMax : N) (destination : M)
    (destAsset : Asset A) (destAmount : N) (path : List (Asset A))
  /-- Any other operation, without its fields. -/
  | other
  deriving DecidableEq

structure SwapOperation (A M N : Type) where
  source : Option M
  body : SwapBody A M N
  deriving DecidableEq

inductive MemoType
  | none
  | text
  | id
  | hash
  | return
  deriving DecidableEq

structure TimeBounds (T : Type) where
  minTime : T
  maxTime : T
  deriving DecidableEq

/-- A signed transaction over addresses `A`, possibly muxed addresses `M`, amounts `N` and times `T`. -/
structure SwapTransaction (A M N T : Type) where
  source : M
  fee : ℕ
  timeBounds : Option (TimeBounds T)
  memo : MemoType
  operations : List (SwapOperation A M N)
  signatures : ℕ
  deriving DecidableEq

abbrev LedgerSwap := SwapTransaction Key MuxedAccount ℤ ℕ

abbrev ParsedSwap := SwapTransaction String String String String

section

variable {A M N A' M' N' : Type}

def SwapBody.map (f : A → A') (g : M → M') (h : N → N') : SwapBody A M N → SwapBody A' M' N'
  | .pathPaymentStrictSend sendAsset sendAmount destination destAsset destMin path =>
    .pathPaymentStrictSend (sendAsset.map f) (h sendAmount) (g destination) (destAsset.map f)
      (h destMin) (path.map (Asset.map f))
  | .pathPaymentStrictReceive sendAsset sendMax destination destAsset destAmount path =>
    .pathPaymentStrictReceive (sendAsset.map f) (h sendMax) (g destination) (destAsset.map f)
      (h destAmount) (path.map (Asset.map f))
  | .other => .other

/-- The source that the operation has in the transaction. -/
def SwapOperation.effectiveSource (op : SwapOperation A M N) (txSource : M) : M :=
  op.source.getD txSource

end

def SwapOperation.parse (op : SwapOperation Key MuxedAccount ℤ) : SwapOperation String String String :=
  ⟨op.source.map MuxedAccount.address, op.body.map address MuxedAccount.address fromXDRAmount⟩

def TimeBounds.parse (bounds : TimeBounds ℕ) : TimeBounds String :=
  ⟨toString bounds.minTime, toString bounds.maxTime⟩

/-- `TransactionBuilder.fromXDR` -/
def SwapTransaction.parse (tx : LedgerSwap) : ParsedSwap where
  source := tx.source.address
  fee := tx.fee
  timeBounds := tx.timeBounds.map TimeBounds.parse
  memo := tx.memo
  operations := tx.operations.map SwapOperation.parse
  signatures := tx.signatures

/-! ## Building -/

inductive SwapKind
  | strictSend
  | strictReceive
  deriving DecidableEq

structure SwapQuote where
  sendAsset : Asset String
  sendAmount : String
  destAsset : Asset String
  destAmount : String
  path : List (Asset String)

/-- What the SDK makes of an amount's text: it takes what it writes for a positive `Int64`, and
refuses what it writes for any other. -/
structure Sdk where
  toXDRAmount : String → Option ℤ
  reads_back : ∀ n, toXDRAmount (fromXDRAmount n) = if 0 < n ∧ n < 2 ^ 63 then some n else none

structure SwapBuildInput where
  net : NetworkId
  /-- The account id of the loaded account. -/
  source : String
  destination : String
  quote : SwapQuote
  kind : SwapKind
  bound : String
  destAmount : Option String

structure SwapBuild where
  tx : LedgerSwap
  bound : String
  retrySafeAfter : ℕ

def swapFeeStroops : ℕ := 10000

def swapTimeoutSeconds : ℕ := 45

/-- `SEVEN_DP` -/
def sevenDp (s : String) : Bool :=
  match s.toList.span Char.isDigit with
  | (whole, '.' :: fraction) => whole ≠ [] && fraction.length = 7 && fraction.all Char.isDigit
  | _ => false

def SwapKind.boundName : SwapKind → String
  | strictSend => "destMin"
  | strictReceive => "sendMax"

section

variable (sdk : Sdk)

/-- An amount of an operation that is built. -/
def xdrAmount (field s : String) : Except String ℤ :=
  match sdk.toXDRAmount s with
  | some n => .ok n
  | none => .error (field ++ " argument must be of type String, represent a positive number and " ++
      "have at most 7 digits after the decimal")

def buildBody (input : SwapBuildInput) : Except String (SwapBody Key MuxedAccount ℤ) :=
  let self := MuxedAccount.ed25519 (addressKey input.source)
  let sendAsset := input.quote.sendAsset.map addressKey
  let destAsset := input.quote.destAsset.map addressKey
  let path := input.quote.path.map (Asset.map addressKey)
  match input.kind with
  | .strictSend => do
    let sendAmount ← xdrAmount sdk "sendAmount" input.quote.sendAmount
    let destMin ← xdrAmount sdk "destMin" input.bound
    return .pathPaymentStrictSend sendAsset sendAmount self destAsset destMin path
  | .strictReceive => do
    let sendMax ← xdrAmount sdk "sendMax" input.bound
    let destAmount ← xdrAmount sdk "destAmount" (input.destAmount.getD input.quote.destAmount)
    return .pathPaymentStrictReceive sendAsset sendMax self destAsset destAmount path

/-- One conversion, one operation, one bound; `now` is in milliseconds. -/
def buildSwapTx (input : SwapBuildInput) (now : ℕ) : Except String SwapBuild := do
  -- A conversion pays the account it spends from.
  failWhen (input.destination ≠ input.source) "a conversion pays the same account it spends from"
  failWhen (sevenDp input.bound = false)
    ("a conversion is never built without a " ++ input.kind.boundName ++
      " bound at 7 decimal places")
  failWhen (input.quote.sendAsset ≠ .native) "this conversion spends XLM and nothing else"
  failWhen (input.quote.destAsset ≠ .credit "USDC" (pinnedUsdcIssuer input.net))
    "that price is for a different dollar than this app moves"
  let body ← buildBody sdk input
  let self := MuxedAccount.ed25519 (addressKey input.source)
  let maxTime := now / 1000 + swapTimeoutSeconds
  return {
    tx := ⟨self, swapFeeStroops, some ⟨0, maxTime⟩, .none, [⟨some self, body⟩], 0⟩
    bound := input.bound
    retrySafeAfter := maxTime * 1000 }

/-! ## The guard -/

/-- `REFUSED` -/
def swapRefused : String :=
  "That isn't the conversion this screen built, so nothing was submitted."

structure Expected where
  self : String
  net : NetworkId
  bound : String
  kind : SwapKind

/-- The trade of an operation, with the amount that it carries as its bound. -/
def checkTrade (expect : Expected) (source : String) (sendAsset : Asset String)
    (destination : String) (destAsset : Asset String) (carried : String) : Except String Unit := do
  failWhen (source ≠ expect.self) swapRefused
  failWhen (destination ≠ expect.self) swapRefused
  failWhen (sendAsset ≠ .native) swapRefused
  failWhen (destAsset ≠ .credit "USDC" (pinnedUsdcIssuer expect.net)) swapRefused
  failWhen (carried ≠ expect.bound) swapRefused

/-- What this device is willing to submit, checked on the transaction that came back. A text of a time
is never empty, so that any time bounds will do. -/
def assertIsOwnConversion (tx : ParsedSwap) (expect : Expected) : Except String Unit := do
  failWhen (tx.source ≠ expect.self) swapRefused
  match tx.operations with
  | [op] =>
    failWhen (tx.signatures ≠ 1) swapRefused
    failWhen (tx.memo ≠ .none) swapRefused
    failWhen (tx.timeBounds = none) swapRefused
    match expect.kind, op.body with
    | .strictSend, .pathPaymentStrictSend sendAsset _ destination destAsset destMin _ =>
      checkTrade expect (op.effectiveSource tx.source) sendAsset destination destAsset destMin
    | .strictReceive, .pathPaymentStrictReceive sendAsset sendMax destination destAsset _ _ =>
      checkTrade expect (op.effectiveSource tx.source) sendAsset destination destAsset sendMax
    | _, _ => .error swapRefused
  | _ => .error swapRefused

/-! ## Running -/

structure ConversionInput where
  /-- The key that the signer signs for. -/
  key : Key
  net : NetworkId
  quote : SwapQuote
  kind : SwapKind
  bound : String
  destAmount : Option String

/-- What a signer hands back. -/
structure Signed where
  /-- A fee-bump has no source of its own. -/
  envelope : Option LedgerSwap
  hash : String

structure ConversionOutcome where
  hash : String
  retrySafeAfter : ℕ

inductive Ask
  | loadAccount
  | now
  | sign (tx : LedgerSwap)
  | handOver (outcome : ConversionOutcome)
  | submitTransaction (tx : LedgerSwap)

/-- An account is answered by its id, a submission by its hash. -/
abbrev Ask.Answer : Ask → Type
  | loadAccount | submitTransaction _ => Except String String
  | now => ℕ
  | sign _ => Except String Signed
  | handOver _ => Except String Unit

abbrev Conversion := Dialogue Ask.Answer String

abbrev ask (q : Ask) : Conversion q.Answer := question q

def ConversionInput.expected (input : ConversionInput) : Expected :=
  ⟨address input.key, input.net, input.bound, input.kind⟩

def ConversionInput.build (input : ConversionInput) (source : String) : SwapBuildInput where
  net := input.net
  source := source
  destination := address input.key
  quote := input.quote
  kind := input.kind
  bound := input.bound
  destAmount := input.destAmount

/-- What a signer has handed back, if this device will submit it. -/
def acceptSigned (input : ConversionInput) (signed : Signed) : Except String LedgerSwap :=
  match signed.envelope with
  | none => .error swapRefused
  | some tx => do
    assertIsOwnConversion tx.parse input.expected
    return tx

/-- Build, sign, check what came back, submit. -/
def runConversion (input : ConversionInput) : Conversion ConversionOutcome := do
  match ← ask .loadAccount with
  | .error e => throw e
  | .ok source =>
    let now ← ask .now
    match buildSwapTx sdk (input.build source) now with
    | .error e => throw e
    | .ok built =>
      match ← ask (.sign built.tx) with
      | .error e => throw e
      | .ok signed =>
        match acceptSigned input signed with
        | .error e => throw e
        | .ok tx => do
          match ← ask (.handOver ⟨signed.hash, built.retrySafeAfter⟩) with
          | .error e => throw e
          | .ok () =>
            match ← ask (.submitTransaction tx) with
            | .error e => throw e
            | .ok hash => return ⟨hash, built.retrySafeAfter⟩

/-! ## What the ledger makes of it -/

structure Movement where
  account : Key
  asset : Asset Key
  amount : ℤ
  deriving DecidableEq

/-- What a transaction moves, the offers that it crosses apart. -/
structure Effect where
  applied : Bool
  debits : List Movement
  credits : List Movement

/-- The fee of a transaction, paid in lumens. -/
def feeDebit (tx : LedgerSwap) (fee : ℕ) : Movement := ⟨tx.source.account, .native, fee⟩

/-- What can become of a transaction that the ledger includes. A path payment pays the account of its
destination within its bound, or the transaction fails and its fee is spent; an amount that is not
positive is malformed. Nothing is said of other transactions. -/
inductive Settles (tx : LedgerSwap) : Effect → Prop
  | failed {fee : ℕ} (hfee : fee ≤ tx.fee) : Settles tx ⟨false, [feeDebit tx fee], []⟩
  | strictSend {fee : ℕ} {source destination sendAsset sendAmount destAsset destMin path} {received : ℤ}
    (hfee : fee ≤ tx.fee)
    (hops : tx.operations =
      [⟨source, .pathPaymentStrictSend sendAsset sendAmount destination destAsset destMin path⟩])
    (hpos : 0 < sendAmount ∧ 0 < destMin) (hmin : destMin ≤ received) :
    Settles tx ⟨true, [feeDebit tx fee, ⟨(source.getD tx.source).account, sendAsset, sendAmount⟩],
      [⟨destination.account, destAsset, received⟩]⟩
  | strictReceive {fee : ℕ} {source destination sendAsset sendMax destAsset destAmount path} {sent : ℤ}
    (hfee : fee ≤ tx.fee)
    (hops : tx.operations =
      [⟨source, .pathPaymentStrictReceive sendAsset sendMax destination destAsset destAmount path⟩])
    (hpos : 0 < sendMax ∧ 0 < destAmount) (hmax : 0 < sent ∧ sent ≤ sendMax) :
    Settles tx ⟨true, [feeDebit tx fee, ⟨(source.getD tx.source).account, sendAsset, sent⟩],
      [⟨destination.account, destAsset, destAmount⟩]⟩
  | other {e : Effect} (hops : ∀ op, tx.operations = [op] → op.body = .other) : Settles tx e

/-- The pinned dollar. -/
def usdc (net : NetworkId) : Asset Key := .credit "USDC" (addressKey (pinnedUsdcIssuer net))

/-- The lumens and the dollars that the screen shows. -/
def ConversionInput.shown (input : ConversionInput) : Option (ℤ × ℤ) :=
  match input.kind with
  | .strictSend => do
    let spend ← sdk.toXDRAmount input.quote.sendAmount
    let floor ← sdk.toXDRAmount input.bound
    return (spend, floor)
  | .strictReceive => do
    let ceiling ← sdk.toXDRAmount input.bound
    let dollars ← sdk.toXDRAmount (input.destAmount.getD input.quote.destAmount)
    return (ceiling, dollars)

def SwapKind.Credits (kind : SwapKind) (shown received : ℤ) : Prop :=
  match kind with
  | strictSend => shown ≤ received
  | strictReceive => received = shown

/-- The account spends no more than was shown, and what it is credited is what was shown. -/
structure AsShown (input : ConversionInput) (spend dollars : ℤ) (e : Effect) : Prop where
  own : ∀ d ∈ e.debits, d.account = input.key ∧ d.asset = .native
  spent : (e.debits.map Movement.amount).sum ≤ spend + swapFeeStroops
  credited : ∀ c ∈ e.credits, c.account = input.key
  received : e.applied = true → ∃ received,
    e.credits = [⟨input.key, usdc input.net, received⟩] ∧ input.kind.Credits dollars received

/-- The amounts that the check does not compare, and the fee, are no worse than was shown. An amount
that is not positive moves nothing. -/
def NoWorse (spend dollars : ℤ) (tx : LedgerSwap) : Prop :=
  match tx.operations with
  | [⟨_, .pathPaymentStrictSend _ sendAmount _ _ _ _⟩] =>
    (sendAmount.toNat : ℤ) + tx.fee ≤ spend + swapFeeStroops
  | [⟨_, .pathPaymentStrictReceive _ _ _ _ destAmount _⟩] =>
    (tx.fee : ℤ) ≤ spend + swapFeeStroops ∧
      (0 < destAmount → tx.fee ≤ swapFeeStroops ∧ destAmount = dollars)
  | _ => False

end

/-! ## What the guard accepts -/

section

variable {sdk : Sdk} {input : ConversionInput} {tx : LedgerSwap} {net : NetworkId} {key : Key}
  {bound : String} {spend dollars n m : ℤ}

theorem asset_of_map {a : Asset Key}
    (h : a.map address = .credit "USDC" (pinnedUsdcIssuer net)) : a = usdc net := by
  cases a with
  | native => cases h
  | credit code issuer =>
    obtain ⟨rfl, hissuer⟩ := Asset.credit.inj h
    rw [usdc, ← hissuer, addressKey_address]

theorem native_of_map {a : Asset Key} (h : a.map address = .native) : a = .native := by
  cases a with
  | native => rfl
  | credit code issuer => cases h

/-- What the check pins of a trade. -/
structure Pinned (input : ConversionInput) (source destination : MuxedAccount)
    (sendAsset destAsset : Asset Key) (carried : ℤ) : Prop where
  source : source = .ed25519 input.key
  destination : destination = .ed25519 input.key
  sendAsset : sendAsset = .native
  destAsset : destAsset = usdc input.net
  carried : fromXDRAmount carried = input.bound

theorem pinned_of_checkTrade {source destination : MuxedAccount} {sendAsset destAsset : Asset Key}
    (h : checkTrade input.expected source.address (sendAsset.map address) destination.address
      (destAsset.map address) (fromXDRAmount n) = .ok ()) :
    Pinned input source destination sendAsset destAsset n := by
  simp only [checkTrade, check_bind_eq_ok, failWhen_eq_ok, not_not] at h
  obtain ⟨hsource, hdestination, hsend, hdest, hcarried⟩ := h
  exact ⟨MuxedAccount.address_eq.mp hsource, MuxedAccount.address_eq.mp hdestination,
    native_of_map hsend, asset_of_map hdest, hcarried⟩

/-- A transaction that passes is one path payment of the kind that was built. -/
inductive Accepted (input : ConversionInput) (tx : LedgerSwap) : Prop
  | strictSend {source sendAsset sendAmount destination destAsset destMin path}
    (hkind : input.kind = .strictSend) (hsource : tx.source = .ed25519 input.key)
    (hops : tx.operations =
      [⟨source, .pathPaymentStrictSend sendAsset sendAmount destination destAsset destMin path⟩])
    (hpinned : Pinned input (source.getD tx.source) destination sendAsset destAsset destMin)
  | strictReceive {source sendAsset sendMax destination destAsset destAmount path}
    (hkind : input.kind = .strictReceive) (hsource : tx.source = .ed25519 input.key)
    (hops : tx.operations =
      [⟨source, .pathPaymentStrictReceive sendAsset sendMax destination destAsset destAmount path⟩])
    (hpinned : Pinned input (source.getD tx.source) destination sendAsset destAsset sendMax)

theorem effectiveSource_parse {op : SwapOperation Key MuxedAccount ℤ} {source : MuxedAccount} :
    op.parse.effectiveSource source.address = (op.source.getD source).address := by
  cases h : op.source <;> simp [SwapOperation.effectiveSource, SwapOperation.parse, h]

theorem accepted_of_assert (h : assertIsOwnConversion tx.parse input.expected = .ok ()) :
    Accepted input tx := by
  obtain ⟨source, fee, timeBounds, memo, ops, signatures⟩ := tx
  rw [assertIsOwnConversion, check_bind_eq_ok, failWhen_eq_ok, not_not] at h
  obtain ⟨hsource, h⟩ := h
  have htxSource : source = .ed25519 input.key := MuxedAccount.address_eq.mp hsource
  rcases ops with _ | ⟨⟨opSource, body⟩, _ | ⟨more, rest⟩⟩
  · cases h
  · simp only [SwapTransaction.parse, List.map_cons, List.map_nil, check_bind_eq_ok] at h
    obtain ⟨-, -, -, h⟩ := h
    rw [effectiveSource_parse] at h
    cases hkind : input.kind with
    | strictSend =>
      cases body with
      | pathPaymentStrictSend sendAsset sendAmount destination destAsset destMin path =>
        simp only [ConversionInput.expected, hkind, SwapOperation.parse, SwapBody.map] at h
        exact .strictSend hkind htxSource rfl
          (pinned_of_checkTrade (by simpa only [ConversionInput.expected, hkind] using h))
      | pathPaymentStrictReceive sendAsset sendMax destination destAsset destAmount path =>
        simp only [ConversionInput.expected, hkind, SwapOperation.parse, SwapBody.map] at h
        cases h
      | other =>
        simp only [ConversionInput.expected, hkind, SwapOperation.parse, SwapBody.map] at h
        cases h
    | strictReceive =>
      cases body with
      | pathPaymentStrictReceive sendAsset sendMax destination destAsset destAmount path =>
        simp only [ConversionInput.expected, hkind, SwapOperation.parse, SwapBody.map] at h
        exact .strictReceive hkind htxSource rfl
          (pinned_of_checkTrade (by simpa only [ConversionInput.expected, hkind] using h))
      | pathPaymentStrictSend sendAsset sendAmount destination destAsset destMin path =>
        simp only [ConversionInput.expected, hkind, SwapOperation.parse, SwapBody.map] at h
        cases h
      | other =>
        simp only [ConversionInput.expected, hkind, SwapOperation.parse, SwapBody.map] at h
        cases h
  · cases h

/-! ## What is submitted -/

theorem Sdk.eq_of_reads (h : sdk.toXDRAmount (fromXDRAmount n) = some m) : m = n ∧ 0 < n := by
  rw [sdk.reads_back] at h
  split at h
  · next hpos => exact ⟨(Option.some.inj h).symm, hpos.1⟩
  · cases h

theorem Pinned.eq_of_reads {source destination : MuxedAccount} {sendAsset destAsset : Asset Key}
    (h : Pinned input source destination sendAsset destAsset n)
    (hread : sdk.toXDRAmount input.bound = some m) : m = n ∧ 0 < n := by
  rw [← h.carried] at hread
  exact Sdk.eq_of_reads hread

/-- The two movements of a path payment that the check pins. -/
theorem Pinned.own {source destination : MuxedAccount} {sendAsset destAsset : Asset Key} {fee : ℕ}
    (h : Pinned input source destination sendAsset destAsset n)
    (hsource : tx.source = .ed25519 input.key) :
    ∀ d ∈ [feeDebit tx fee, ⟨source.account, sendAsset, m⟩],
      d.account = input.key ∧ d.asset = .native := by
  intro d hd
  rcases List.mem_pair.mp hd with rfl | rfl
  · exact ⟨by rw [feeDebit, hsource, MuxedAccount.account], rfl⟩
  · exact ⟨by rw [h.source, MuxedAccount.account], h.sendAsset⟩

theorem Pinned.credit {source destination : MuxedAccount} {sendAsset destAsset : Asset Key}
    (h : Pinned input source destination sendAsset destAsset n) :
    [(⟨destination.account, destAsset, m⟩ : Movement)] = [⟨input.key, usdc input.net, m⟩] := by
  rw [h.destination, h.destAsset, MuxedAccount.account]

theorem asShown_failed {fee : ℕ} (hsource : tx.source = .ed25519 input.key)
    (hfee : (fee : ℤ) ≤ spend + swapFeeStroops) :
    AsShown input spend dollars ⟨false, [feeDebit tx fee], []⟩ := by
  refine ⟨fun d hd => ?_, ?_, List.forall_mem_nil _, nofun⟩
  · rw [List.mem_singleton.mp hd]
    exact ⟨by rw [feeDebit, hsource, MuxedAccount.account], rfl⟩
  · simpa [feeDebit] using hfee

theorem asShown_applied {source destination : MuxedAccount} {sendAsset destAsset : Asset Key}
    {fee : ℕ} {sent received : ℤ} (h : Pinned input source destination sendAsset destAsset n)
    (hsource : tx.source = .ed25519 input.key) :
    AsShown input spend dollars
        ⟨true, [feeDebit tx fee, ⟨source.account, sendAsset, sent⟩],
          [⟨destination.account, destAsset, received⟩]⟩ ↔
      fee + sent ≤ spend + swapFeeStroops ∧ input.kind.Credits dollars received := by
  rw [h.credit]
  constructor
  · intro hshown
    obtain ⟨received', heq, hcredits⟩ := hshown.received rfl
    obtain rfl : received = received' := by simpa using heq
    exact ⟨by simpa [feeDebit] using hshown.spent, hcredits⟩
  · rintro ⟨hspent, hcredits⟩
    refine ⟨h.own hsource, by simpa [feeDebit] using hspent, fun c hc => ?_,
      fun _ => ⟨received, rfl, hcredits⟩⟩
    rw [List.mem_singleton.mp hc]

theorem shown_strictSend (hkind : input.kind = .strictSend)
    (h : input.shown sdk = some (spend, dollars)) : sdk.toXDRAmount input.bound = some dollars := by
  simp only [ConversionInput.shown, hkind, Option.bind_eq_bind, Option.bind_eq_some_iff] at h
  obtain ⟨_, -, floor, hfloor, heq⟩ := h
  obtain ⟨-, rfl⟩ := Prod.mk.inj (Option.some.inj heq)
  exact hfloor

theorem shown_strictReceive (hkind : input.kind = .strictReceive)
    (h : input.shown sdk = some (spend, dollars)) : sdk.toXDRAmount input.bound = some spend := by
  simp only [ConversionInput.shown, hkind, Option.bind_eq_bind, Option.bind_eq_some_iff] at h
  obtain ⟨ceiling, hceiling, _, -, heq⟩ := h
  obtain ⟨rfl, -⟩ := Prod.mk.inj (Option.some.inj heq)
  exact hceiling

/-- **What passes the check** settles as it was shown exactly when what it leaves out is no worse. -/
theorem asShown_iff (haccepted : Accepted input tx)
    (hshown : input.shown sdk = some (spend, dollars)) :
    (∀ e, Settles tx e → AsShown input spend dollars e) ↔ NoWorse spend dollars tx := by
  cases haccepted with
  | @strictSend source sendAsset sendAmount destination destAsset destMin path hkind hsource hops hpinned =>
    obtain ⟨rfl, hpos⟩ := hpinned.eq_of_reads (shown_strictSend hkind hshown)
    have hcredits : ∀ received, input.kind.Credits dollars received ↔ dollars ≤ received := by
      intro received
      rw [hkind]
      rfl
    simp only [NoWorse, hops]
    constructor
    · intro hall
      rcases le_or_gt sendAmount 0 with hzero | hsend
      · have hfailed := (hall _ (.failed le_rfl)).spent
        rw [Int.toNat_of_nonpos hzero, Nat.cast_zero, zero_add]
        simpa [feeDebit] using hfailed
      · have happlied := hall _ (.strictSend le_rfl hops ⟨hsend, hpos⟩ le_rfl)
        have hspent := ((asShown_applied hpinned hsource).mp happlied).1
        rw [Int.toNat_of_nonneg hsend.le, add_comm]
        exact hspent
    · intro hno e he
      cases he with
      | failed hfee => exact asShown_failed hsource (by omega)
      | strictSend hfee hops' hpos' hmin =>
        obtain ⟨rfl, rfl, rfl, rfl, rfl, rfl, rfl⟩ : _ ∧ _ ∧ _ ∧ _ ∧ _ ∧ _ ∧ _ := by
          simpa using hops.symm.trans hops'
        exact (asShown_applied hpinned hsource).mpr ⟨by omega, (hcredits _).mpr hmin⟩
      | strictReceive hfee hops' => simp [hops] at hops'
      | other hothers =>
        have hbody := hothers _ hops
        cases hbody
  | @strictReceive source sendAsset sendMax destination destAsset destAmount path hkind hsource hops hpinned =>
    obtain ⟨rfl, hpos⟩ := hpinned.eq_of_reads (shown_strictReceive hkind hshown)
    have hcredits : ∀ received, input.kind.Credits dollars received ↔ received = dollars := by
      intro received
      rw [hkind]
      rfl
    simp only [NoWorse, hops]
    constructor
    · intro hall
      have hfailed := (hall _ (.failed le_rfl)).spent
      refine ⟨by simpa [feeDebit] using hfailed, fun hdest => ?_⟩
      have happlied := hall _ (.strictReceive le_rfl hops ⟨hpos, hdest⟩ ⟨hpos, le_rfl⟩)
      obtain ⟨hspent, hcredit⟩ := (asShown_applied hpinned hsource).mp happlied
      exact ⟨by omega, (hcredits _).mp hcredit⟩
    · rintro ⟨hfailed, happlied⟩ e he
      cases he with
      | failed hfee => exact asShown_failed hsource (by omega)
      | strictReceive hfee hops' hpos' hmax =>
        obtain ⟨rfl, rfl, rfl, rfl, rfl, rfl, rfl⟩ : _ ∧ _ ∧ _ ∧ _ ∧ _ ∧ _ ∧ _ := by
          simpa using hops.symm.trans hops'
        obtain ⟨hbounded, hexact⟩ := happlied hpos'.2
        exact (asShown_applied hpinned hsource).mpr ⟨by omega, (hcredits _).mpr hexact⟩
      | strictSend hfee hops' => simp [hops] at hops'
      | other hothers =>
        have hbody := hothers _ hops
        cases hbody

theorem xdrAmount_eq_ok {field text : String} (h : xdrAmount sdk field text = .ok n) :
    sdk.toXDRAmount text = some n := by
  unfold xdrAmount at h
  split at h
  · next hread => rw [hread, Except.ok.inj h]
  · cases h

/-- What is built has amounts to show. -/
theorem shown_of_build {source : String} {now : ℕ} {built : SwapBuild}
    (h : buildSwapTx sdk (input.build source) now = .ok built) :
    ∃ spend dollars, input.shown sdk = some (spend, dollars) := by
  obtain ⟨-, h⟩ := check_bind_eq_ok.mp h
  obtain ⟨-, h⟩ := check_bind_eq_ok.mp h
  obtain ⟨-, h⟩ := check_bind_eq_ok.mp h
  obtain ⟨-, h⟩ := check_bind_eq_ok.mp h
  obtain ⟨body, hbody, -⟩ := value_bind_eq_ok.mp h
  cases hkind : input.kind with
  | strictSend =>
    simp only [buildBody, ConversionInput.build, hkind] at hbody
    obtain ⟨sendAmount, hsend, hbody⟩ := value_bind_eq_ok.mp hbody
    obtain ⟨destMin, hmin, -⟩ := value_bind_eq_ok.mp hbody
    refine ⟨sendAmount, destMin, ?_⟩
    simp [ConversionInput.shown, hkind, xdrAmount_eq_ok hsend, xdrAmount_eq_ok hmin]
  | strictReceive =>
    simp only [buildBody, ConversionInput.build, hkind] at hbody
    obtain ⟨sendMax, hmax, hbody⟩ := value_bind_eq_ok.mp hbody
    obtain ⟨destAmount, hdest, -⟩ := value_bind_eq_ok.mp hbody
    refine ⟨sendMax, destAmount, ?_⟩
    simp [ConversionInput.shown, hkind, xdrAmount_eq_ok hmax, xdrAmount_eq_ok hdest]

theorem accepted_of_acceptSigned {signed : Signed} (h : acceptSigned input signed = .ok tx) :
    Accepted input tx := by
  unfold acceptSigned at h
  split at h
  · cases h
  · obtain ⟨hassert, h⟩ := check_bind_eq_ok.mp h
    obtain rfl := Except.ok.inj h
    exact accepted_of_assert hassert

variable (sdk input) in
/-- Whatever is submitted has passed the check, for a conversion that could be built. -/
def SubmitsAccepted (h : List (Event Ask.Answer)) : Prop :=
  ∀ tx answer, ⟨.submitTransaction tx, answer⟩ ∈ h →
    Accepted input tx ∧ ∃ spend dollars, input.shown sdk = some (spend, dollars)

theorem wp_runConversion : (runConversion sdk input).wp (recorded fun _ _ => True)
    (fun _ => SubmitsAccepted sdk input) [] := by
  have hnone : ∀ h : List (Event Ask.Answer), (∀ e ∈ h, ∀ tx, e.1 ≠ .submitTransaction tx) →
      SubmitsAccepted sdk input h :=
    fun h hno tx answer hmem => absurd rfl (hno _ hmem tx)
  rw [runConversion, wp_recorded_bind]
  intro loaded _
  cases loaded with
  | error e => exact wp_throw.mpr (hnone _ (by simp))
  | ok source =>
    dsimp only
    rw [wp_recorded_bind]
    intro now _
    split
    · exact wp_throw.mpr (hnone _ (by simp))
    rename_i built hbuilt
    rw [wp_recorded_bind]
    intro signed _
    cases signed with
    | error e => exact wp_throw.mpr (hnone _ (by simp))
    | ok signed =>
      dsimp only
      split
      · exact wp_throw.mpr (hnone _ (by simp))
      rename_i tx haccepted
      rw [wp_recorded_bind]
      intro handed _
      cases handed with
      | error e => exact wp_throw.mpr (hnone _ (by simp))
      | ok u =>
        dsimp only
        rw [wp_recorded_bind]
        intro submitted _
        have hsubmits : ∀ h : List (Event Ask.Answer),
            (∀ e ∈ h, ∀ tx', e.1 = .submitTransaction tx' → tx' = tx) → SubmitsAccepted sdk input h := by
          intro h hsame tx' answer hmem
          rw [hsame _ hmem tx' rfl]
          exact ⟨accepted_of_acceptSigned haccepted, shown_of_build hbuilt⟩
        cases submitted with
        | error e => exact wp_throw.mpr (hsubmits _ (by simp))
        | ok hash => exact wp_pure.mpr (hsubmits _ (by simp))

/-- **A conversion is as shown**, whatever the signer hands back, exactly when the amounts and the fee
that the check leaves out are no worse: of what is submitted, for the lumens and the dollars that the
conversion was built for. -/
theorem conversion_as_shown_iff {r : Except String ConversionOutcome} {h : List (Event Ask.Answer)}
    {answer : Except String String}
    (hrun : Runs (recorded fun _ _ => True) (runConversion sdk input) [] r h)
    (hsubmit : ⟨.submitTransaction tx, answer⟩ ∈ h) :
    ∃ spend dollars, input.shown sdk = some (spend, dollars) ∧
      ((∀ e, Settles tx e → AsShown input spend dollars e) ↔ NoWorse spend dollars tx) := by
  obtain ⟨haccepted, spend, dollars, hshown⟩ := hrun.sound wp_runConversion tx answer hsubmit
  exact ⟨spend, dollars, hshown, asShown_iff haccepted hshown⟩

end

/-- Whether this transaction was submitted. -/
def submits (tx : LedgerSwap) : Event Ask.Answer → Bool
  | ⟨.submitTransaction tx', _⟩ => tx' = tx
  | _ => false

theorem mem_of_submits {tx : LedgerSwap} {h : List (Event Ask.Answer)} (hany : h.any (submits tx) = true) :
    ∃ answer, ⟨.submitTransaction tx, answer⟩ ∈ h := by
  obtain ⟨⟨q, answer⟩, hmem, hsubmits⟩ := List.any_eq_true.mp hany
  cases q with
  | submitTransaction tx' =>
    obtain rfl : tx' = tx := of_decide_eq_true hsubmits
    exact ⟨answer, hmem⟩
  | _ => cases hsubmits

namespace Demo

/-- An amount by its value. -/
def toXDRAmount (s : String) : Option ℤ :=
  match parseFloat s with
  | .finite q => if 0 < q ∧ q < 2 ^ 63 / 10 ^ 7 then some (q * 10 ^ 7).floor else none
  | _ => none

theorem reads_back (n : ℤ) :
    toXDRAmount (fromXDRAmount n) = if 0 < n ∧ n < 2 ^ 63 then some n else none := by
  have hscale : (0 : ℚ) < 10 ^ 7 := by positivity
  have hrange : (0 < (n : ℚ) / 10 ^ 7 ∧ (n : ℚ) / 10 ^ 7 < 2 ^ 63 / 10 ^ 7) ↔ 0 < n ∧ n < 2 ^ 63 := by
    rw [div_pos_iff_of_pos_right hscale, div_lt_div_iff_of_pos_right hscale]
    exact_mod_cast Iff.rfl
  unfold toXDRAmount
  cases hparse : parseFloat (fromXDRAmount n) with
  | finite q =>
    obtain rfl := eq_of_parseFloat hparse
    simp only [div_mul_cancel₀ _ hscale.ne', Rat.floor_intCast]
    exact if_congr hrange rfl rfl
  | nan | infinite negative =>
    refine (if_neg fun hn => ?_).symm
    rw [parseFloat_fromXDRAmount, Number.ofRat, if_neg (not_le.mpr (underflow_lt_abs hn.1.ne')),
      if_neg] at hparse
    · cases hparse
    · obtain ⟨hpos, hlt⟩ := hrange.mpr hn
      rw [abs_of_pos hpos, not_le]
      exact hlt.trans (by decide +kernel)

def sdk : Sdk := ⟨toXDRAmount, reads_back⟩

/-- Ten lumens for no fewer than a dollar. -/
def conversion : ConversionInput where
  key := 4
  net := .testnet
  quote := ⟨.native, "10.0000000", .credit "USDC" (pinnedUsdcIssuer .testnet), "1.0300000", []⟩
  kind := .strictSend
  bound := "1.0000000"
  destAmount := none

/-- The conversion of this many stroops, signed. -/
def swap (sendAmount : ℤ) : LedgerSwap where
  source := .ed25519 4
  fee := 10000
  timeBounds := some ⟨0, 1790856045⟩
  memo := .none
  operations := [⟨some (.ed25519 4),
    .pathPaymentStrictSend .native sendAmount (.ed25519 4) (usdc .testnet) 10000000 []⟩]
  signatures := 1

/-- A signer that hands this back. -/
def answer (signed : LedgerSwap) (_ : List (Event Ask.Answer)) : (q : Ask) → q.Answer
  | .loadAccount => .ok (address 4)
  | .now => 1790856000000
  | .sign _ => .ok ⟨some signed, "ab"⟩
  | .handOver _ => .ok ()
  | .submitTransaction _ => .ok "ab"

def swapRun (signed : LedgerSwap) : Except String ConversionOutcome × List (Event Ask.Answer) :=
  (runConversion sdk conversion).play (answer signed) []

theorem runs_swapRun (signed : LedgerSwap) : Runs (recorded fun _ _ => True)
    (runConversion sdk conversion) [] (swapRun signed).1 (swapRun signed).2 :=
  runs_play (fun _ _ => trivial) _ _

/-- What is built is submitted once it is signed, and so is another amount. -/
theorem submitted : conversion.shown sdk = some (100000000, 10000000) ∧
    (swapRun (swap 100000000)).2.any (submits (swap 100000000)) = true ∧
    (swapRun (swap 1000000000)).2.any (submits (swap 1000000000)) = true := by
  decide +kernel

end Demo

/-- What was built is handed back. -/
theorem conversion_as_shown_iff_honest : ∃ spend dollars,
    Demo.conversion.shown Demo.sdk = some (spend, dollars) ∧
      ((∀ e, Settles (Demo.swap 100000000) e → AsShown Demo.conversion spend dollars e) ↔
        NoWorse spend dollars (Demo.swap 100000000)) := by
  obtain ⟨answer, hsubmit⟩ := mem_of_submits Demo.submitted.2.1
  exact conversion_as_shown_iff (Demo.runs_swapRun _) hsubmit

/-- A signer hands back the conversion of ten times the lumens, and it is submitted. -/
theorem larger_send_passes : ¬∀ (sdk : Sdk) (input : ConversionInput) (r : Except String ConversionOutcome)
    (h : List (Event Ask.Answer)) (tx : LedgerSwap) (answer : Except String String),
    Runs (recorded fun _ _ => True) (runConversion sdk input) [] r h →
      ⟨.submitTransaction tx, answer⟩ ∈ h →
        ∃ spend dollars, input.shown sdk = some (spend, dollars) ∧
          ∀ e, Settles tx e → AsShown input spend dollars e := by
  intro hall
  obtain ⟨answer, hsubmit⟩ := mem_of_submits Demo.submitted.2.2
  obtain ⟨spend, dollars, hshown, hsettles⟩ := hall _ _ _ _ _ _ (Demo.runs_swapRun _) hsubmit
  obtain ⟨rfl, rfl⟩ := Prod.mk.inj (Option.some.inj (Demo.submitted.1.symm.trans hshown))
  have hlanded : Settles (Demo.swap 1000000000) ⟨true, [feeDebit (Demo.swap 1000000000) 100,
      ⟨4, .native, 1000000000⟩], [⟨4, usdc .testnet, 10000000⟩]⟩ := by
    have hops : (Demo.swap 1000000000).operations = [⟨some (.ed25519 4),
      .pathPaymentStrictSend .native 1000000000 (.ed25519 4) (usdc .testnet) 10000000 []⟩] := rfl
    have hfee : 100 ≤ (Demo.swap 1000000000).fee := by decide
    exact .strictSend hfee hops ⟨by decide, by decide⟩ le_rfl
  have hspent := (hsettles _ hlanded).spent
  revert hspent
  decide

end Lumenia.Web.Swap
