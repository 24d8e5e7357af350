import Lumenia.Sponsor.Caps
import Lumenia.Sponsor.Submit
import Lumenia.Stellar.Amount
import Lumenia.Theory.Checks

/-!
# The deposit relay

`relayDepositHandler` of `apps/sponsor/src/lib/soroban-relay.ts` and `withPilotSlot` of
`apps/sponsor/src/worker.ts`: a deposit that its sender has signed is checked, simulated, reserved
against the caps, and sent in a fee-bump. The caps and the pilot slot are given back for a deposit
that did not take effect.
-/

namespace Lumenia.Sponsor

open Stellar

/-! ## Texts -/

/-- `Number.parseInt(s, 10)`, where it is finite -/
def parseInt (s : String) : Option ℤ :=
  let (negative, cs) := readSign (s.toList.dropWhile isSpace)
  let digits := cs.takeWhile Char.isDigit
  let n : ℤ := readDigits digits
  if digits = [] ∨ overflow ≤ (n : ℚ) then none else some (if negative then -n else n)

/-- Four characters are enough to tell two refusals apart. -/
def shortKey (k : String) : String := String.ofList (k.toList.take 4) ++ "..."

def isWord (c : Char) : Bool := c.isAlphanum || c = '_'

def isBase32 (c : Char) : Bool := ('A' ≤ c && c ≤ 'Z') || ('2' ≤ c && c ≤ '7')

/-- The length of a full strkey at the head of a text, after the character `before`. -/
def strkeyLength (before : Option Char) (cs : List Char) : Option ℕ :=
  let length := match cs with
    | 'G' :: _ | 'C' :: _ => 56
    | 'M' :: _ => 69
    | _ => 0
  let key := cs.take length
  let bounded := !before.any isWord && !(cs.drop length).head?.any isWord
  if length ≠ 0 ∧ key.length = length ∧ key.all isBase32 ∧ bounded then some length else none

/-- Every full address cut to its first four characters; `fuel` is the length of the text. -/
def shortenKeys : ℕ → Option Char → List Char → List Char
  | 0, _, cs => cs
  | _, _, [] => []
  | fuel + 1, before, c :: cs =>
    match strkeyLength before (c :: cs) with
    | some length => ((c :: cs).take 4 ++ ['.', '.', '.']) ++
        shortenKeys fuel ((c :: cs).take length).getLast? ((c :: cs).drop length)
    | none => c :: shortenKeys fuel (some c) cs

/-- One line of text as a log may keep it. -/
def oneLogLine (text : String) (max : ℕ) : String :=
  let line := text.toList.takeWhile (· ≠ '\n')
  let line := if line.getLast? = some '\r' then line.dropLast else line
  let first := (trim (String.ofList line)).toList
  let short := shortenKeys first.length none first
  if short.length > max then String.ofList (short.take max) ++ "..." else String.ofList short

/-- The part of a simulation's error that a refusal may carry. -/
def simErrorHead (error : String) : String := oneLogLine error 200

/-! ## The deposit -/

/-- What `scValToNative` makes of a value. -/
inductive Native
  | bigint (n : ℤ)
  | number (n : ℤ)
  /-- Anything else, with what `BigInt` makes of it. -/
  | other (bigint : Except String ℤ)

/-- `BigInt` -/
def Native.toBigInt : Native → Except String ℤ
  | bigint n | number n => .ok n
  | other r => r

structure ScArg where
  /-- Where it is an address. -/
  address : Option String
  native : Native

inductive InnerOp
  | invokeContract (contract fn : String) (args : List ScArg)
  /-- Another host function. -/
  | hostFunction
  | classic

/-- A signed transaction, as the SDK parses it. -/
structure InnerTransaction where
  source : String
  fee : ℕ
  /-- The resource fee that it declares, 0 for a classic one. -/
  resourceFee : ℤ
  operations : List InnerOp

structure RelayDepositInput where
  /-- What is parsed, or the message of the parser. -/
  inner : Except String InnerTransaction
  senderPublicKey : String

structure DepositConfig where
  /-- Missing where it is empty, too. -/
  lumendropContract : Option String
  mainnet : Bool
  maxPoolSlotsVar : Option String
  caps : CapsConfig
  /-- What the SDK builds around an inner transaction, for a base fee. -/
  buildFeeBump : ℤ → InnerTransaction → Except String Payable

def v2DepositFeeCap : ℕ := 20000000

def depositInclusionHeadroom : ℤ := 2500000

def minPoolSlots : ℤ := 2

def maxPoolSlots (cfg : DepositConfig) : ℤ :=
  let configured := (cfg.maxPoolSlotsVar.bind parseInt).filter (· ≥ minPoolSlots)
  if cfg.mainnet then min (configured.getD 6) 8 else configured.getD 30

/-- The two methods that create an escrow, and how many arguments they take. -/
def depositArity : String → Option ℕ
  | "deposit" => some 4
  | "create_drop" => some 5
  | _ => none

/-- A pool has a second number, and its minimum is per share. -/
def checkSlots (cfg : DepositConfig) (amountStroops : ℤ) : Native → Except OwnError Unit
  | .number slots => do
    let maxSlots := maxPoolSlots cfg
    failWhen (slots < minPoolSlots ∨ slots > maxSlots)
      (.refusal ("a group link holds between " ++ toString minPoolSlots ++ " and " ++
        toString maxSlots ++ " shares"))
    failWhen (amountStroops.tdiv slots < cfg.caps.minDropStroops)
      (.refusal ("each share is below the minimum we will sponsor (" ++
        stroopsToUsdc cfg.caps.minDropStroops ++ " USDC)"))
  | _ => .error (.refusal "a group link's share count must be a whole number")

/-- The call in the one operation of a deposit. -/
def depositCall (contract : String) : List InnerOp → Except OwnError (String × List ScArg)
  | [.invokeContract called fn args] => do
    failWhen (called ≠ contract) (.thrown "wrong contract")
    failWhen (depositArity fn = none)
      (.thrown ("only deposit/create_drop is relayed here, got '" ++ fn ++ "'"))
    return (fn, args)
  | [.hostFunction] => .error (.thrown "not a contract call")
  | [.classic] => .error (.thrown "not a contract invoke")
  | _ => .error (.thrown "deposit tx must have exactly 1 op")

/-- A pool is checked for its number of shares, the first of the arguments after the amount. -/
def checkPool (cfg : DepositConfig) (fn : String) (amountStroops : ℤ) :
    List ScArg → Except OwnError Unit
  | slots :: _ => if fn = "create_drop" then checkSlots cfg amountStroops slots.native else return ()
  | [] => return ()

/-- The USDC that moves is that of the sender; its amount. Both methods have at least three
arguments. -/
def depositAmount (cfg : DepositConfig) (senderPublicKey fn : String) (args : List ScArg) :
    Except OwnError ℤ := do
  failWhen (depositArity fn ≠ some args.length)
    (.thrown (fn ++ " expects " ++ toString ((depositArity fn).getD 0) ++ " args, got " ++
      toString args.length))
  match args with
  | source :: _ :: amount :: rest =>
    match source.address, amount.native.toBigInt with
    | none, _ => throw (.thrown (fn ++ ": 'from' is not an address"))
    | some sender, bigint =>
      failWhen (sender ≠ senderPublicKey)
        (.thrown (fn ++ " must move the sender's own USDC ('from' " ++ shortKey sender ++
          " is not the sender)"))
      match bigint with
      | .error message => throw (.thrown message)
      | .ok amountStroops =>
        checkPool cfg fn amountStroops rest
        return amountStroops
  | _ => return 0

/-- Everything that is checked before the simulation: the transaction, and the amount it moves. -/
def checkDeposit (cfg : DepositConfig) (input : RelayDepositInput) :
    Except OwnError (InnerTransaction × ℤ) := do
  match cfg.lumendropContract, input.inner with
  | none, _ => throw (.thrown "v2 relayer not configured (LUMENDROP_CONTRACT unset)")
  | _, .error message => throw (.thrown message)
  | some contract, .ok inner =>
    failWhen (inner.source ≠ input.senderPublicKey)
      (.thrown ("unexpected inner source " ++ shortKey inner.source))
    let (fn, args) ← depositCall contract inner.operations
    failWhen (inner.fee > v2DepositFeeCap)
      (.thrown ("inner fee " ++ toString inner.fee ++ " exceeds cap " ++ toString v2DepositFeeCap))
    let amountStroops ← depositAmount cfg input.senderPublicKey fn args
    return (inner, amountStroops)

/-- The declared resource fee fits inside the inner fee, with room for the minimum inclusion fee. -/
def refuseOversizedResourceFee (inner : InnerTransaction) (route : String) : Except OwnError Unit := do
  failWhen (inner.resourceFee < 0)
    (.thrown (route ++ ": the inner declares a negative resource fee"))
  failWhen (inner.resourceFee > (inner.fee : ℤ) - 100)
    (.thrown (route ++ ": the inner declares a resource fee its own fee cannot cover"))

/-- The fee is what the deposit needs, not what its sender wrote. -/
def checkSimulation (inner : InnerTransaction) (sim : Simulated) : Except OwnError Unit :=
  match sim.error with
  | some error => .error (.thrown ("v2-deposit would fail: " ++ simErrorHead error))
  | none =>
    match parseInt sim.minResourceFee with
    | none => .error (.thrown "v2-deposit simulation named no resource fee")
    | some minResourceFee => do
      let needed := minResourceFee + depositInclusionHeadroom
      failWhen ((inner.fee : ℤ) > needed)
        (.thrown ("inner fee " ++ toString inner.fee ++ " exceeds what the deposit needs (" ++
          toString needed ++ ")"))
      refuseOversizedResourceFee inner "v2-deposit"

/-- The fee-bump base of a Soroban inner transaction: its own inclusion fee for each operation. -/
def feeBumpBase (inner : InnerTransaction) : Except OwnError ℤ := do
  let ops : ℤ := max 1 inner.operations.length
  let perOp := ((inner.fee : ℤ) + ops - 1).tdiv ops - inner.resourceFee
  failWhen (inner.resourceFee < 0)
    (.thrown ("the inner declares a negative resource fee (" ++ toString inner.resourceFee ++ ")"))
  failWhen (inner.resourceFee > 0 ∧ perOp < 100)
    (.thrown ("the inner declares a resource fee (" ++ toString inner.resourceFee ++
      ") that its fee (" ++ toString inner.fee ++ ") cannot cover"))
  return max perOp 100

/-- The fee-bump to sign, with a bid of at most twice the inner fee. -/
def depositFeeBump (cfg : DepositConfig) (inner : InnerTransaction) : Except OwnError Payable := do
  let base ← feeBumpBase inner
  match cfg.buildFeeBump base inner with
  | .error message => throw (.thrown message)
  | .ok feeBump =>
    failWhen (feeBump.fee > 2 * inner.fee)
      (.thrown ("v2-deposit: fee-bump bid " ++ toString feeBump.fee ++
        " exceeds twice the inner fee " ++ toString inner.fee))
    return feeBump

/-- `RelayClaimResult` -/
structure Relayed where
  hash : Option String
  /-- Whether the transaction was observed to land. -/
  confirmed : Bool
  deriving DecidableEq

/-- The day's budget goes back at most once; whether it has. -/
def releaseOnce (release released : Bool) : Route Bool := do
  if release && !released then wait .releaseCap
  return true

/-- What the last answer means; and whether the budget has gone back. -/
def depositWatched (release : Bool) (w : Watched) : Route (Except Failure Relayed × Bool) :=
  match w.got.status with
  | .SUCCESS => return (.ok ⟨w.hash, true⟩, false)
  -- Rejected on the ledger: the deposit did not take effect, so the day's budget goes back.
  | .FAILED => do
    let released ← releaseOnce release false
    return (.error (.error "v2-deposit tx FAILED"), released)
  | .NOT_FOUND | .other => return (.ok ⟨w.hash, false⟩, false)

/-- The body of the `try`, with what it throws as a value. -/
def depositAttempt (cfg : DepositConfig) (inner : InnerTransaction) (release : Bool) :
    Route (Except Failure Relayed × Bool) :=
  match depositFeeBump cfg inner with
  | .error e => return (.error e.failure, false)
  | .ok feeBump => do
    match ← (payAndSubmit feeBump "v2-deposit" ⟨40, 2⟩).outcome with
    | .error e => return (.error e, false)
    | .ok w => depositWatched release w

/-- With the caps reserved: only an undecided submission keeps the reservation. -/
def depositReserved (cfg : DepositConfig) (inner : InnerTransaction) (release : Bool) :
    Route Relayed := do
  match ← depositAttempt cfg inner release with
  | (.ok relayed, _) => return relayed
  | (.error e, released) =>
    if !e.isSubmitUnconfirmed then
      let _ ← releaseOnce release released
    throw e

/-- The gasless deposit relayer. -/
def relayDeposit (cfg : DepositConfig) (input : RelayDepositInput) : Route Relayed :=
  match checkDeposit cfg input with
  | .error e => throw e.failure
  | .ok (inner, amountStroops) => do
    match ← wait .simulateTransaction with
    | .error t => throw (.passed t)
    | .ok sim =>
      match checkSimulation inner sim with
      | .error e => throw e.failure
      | .ok () =>
        match ← wait (.checkCaps amountStroops input.senderPublicKey) with
        | .refused reason => throw (.refusal ("canary cap: " ++ reason))
        | .admitted release => depositReserved cfg inner release

/-- The value of a handler, or the refusal of the pilot. -/
inductive Slotted (α : Type)
  | ran (a : α)
  | refused (reason : String)

/-- A handler under the pilot gate: a transaction that did not happen gives the slot back. -/
def withPilotSlot {α : Type} (pilotEnabled : Bool) (pubkey : String) (run : Route α) :
    Route (Slotted α) :=
  if !pilotEnabled then do return .ran (← run)
  else do
    match ← wait (.enforcePilot pubkey) with
    | .refused reason => return .refused reason
    | .admitted release =>
      match ← run.outcome with
      | .ok a => return .ran a
      | .error e =>
        if release && !e.isSubmitUnconfirmed then wait .releasePilot
        throw e

/-- The route of a deposit. -/
def depositRoute (cfg : DepositConfig) (pilotEnabled : Bool) (input : RelayDepositInput) :
    Route (Slotted Relayed) :=
  withPilotSlot pilotEnabled input.senderPublicKey (relayDeposit cfg input)

end Lumenia.Sponsor
