import Lumenia.Sponsor.DayKeys
import Lumenia.Sponsor.Kv

/-!
# The escrow caps

`checkCaps` of `apps/sponsor/src/lib/caps.ts`: what one escrow may move, and what one sender and all
senders together may move in a UTC day. The daily totals are counters in the shared store, raised
first, checked then, and lowered again for a request that is refused or fails later.
-/

namespace Lumenia.Sponsor

def usdcStroops : ℤ := 10000000

/-- Format stroops as a plain USDC string for error messages ("12.5", not "125000000"). -/
def stroopsToUsdc (stroops : ℤ) : String :=
  let whole := toString (stroops.tdiv usdcStroops)
  let digits := padStart (toString (stroops.tmod usdcStroops)) 7
  let frac := String.ofList (digits.toList.reverse.dropWhile (· = '0')).reverse
  if frac ≠ "" then whole ++ "." ++ frac else whole

example : stroopsToUsdc 125000000 = "12.5" ∧ stroopsToUsdc 50000000 = "5" := by decide

/-- The limits, in stroops. `usdcEnv` reads none of them below zero. -/
structure CapsConfig where
  minDropStroops : ℕ
  maxDropStroops : ℕ
  maxDayStroops : ℕ
  maxDaySenderStroops : Option ℕ
  /-- Reject when the day counter is unavailable, instead of allowing through. -/
  failClosed : Bool

/-- At most 8 USDC a day, and 6 from one sender. -/
def Demo.limits : CapsConfig := ⟨100000, 50000000, 80000000, some 60000000, true⟩

def CapsConfig.maxSender (caps : CapsConfig) : ℕ := caps.maxDaySenderStroops.getD caps.maxDayStroops

structure CapVerdict (M ε : Type) where
  ok : Bool
  reason : Option String := none
  /-- Gives the day's budget back. -/
  release : Option (Task M ε Unit) := none
  /-- Onboarding only: the key already holds today's slot. -/
  isRepeat : Bool := false

section

variable {M ε : Type} (env : Env) (caps : CapsConfig)

/-- The day's counter, and the sender's beside it when the request has a sender. -/
def capKeys (now : Instant) (sender : String) : List String :=
  if sender ≠ "" then [dayKey env now, senderDayKey env now sender] else [dayKey env now]

variable {env} in
theorem nodup_capKeys {now : Instant} {sender : String} : (capKeys env now sender).Nodup := by
  unfold capKeys
  split
  · simpa using dayKey_ne_senderDayKey
  · simp

/-- Both counters go back together; a store that does not answer is ignored. -/
def capsGiveBack (keys : List String) (amountStroops : ℤ) : Task M ε Unit := do
  let _ ← addToDays keys (-amountStroops)

def overSender (sender : String) (totals : List ℤ) : Bool :=
  sender ≠ "" && (totals[1]?).any fun total : ℤ => total > caps.maxSender

def overDay (totals : List ℤ) : Bool := (totals[0]?).any fun total : ℤ => total > caps.maxDayStroops

/-- What the totals that were asked for, or the failure to read them, mean for the request. -/
def judgeTotals (amountStroops : ℤ) (sender : String) (keys : List String) :
    Except String (List ℤ) → Task M ε (CapVerdict M ε)
  | .error msg =>
    if caps.failClosed then
      return { ok := false, reason := some ("daily cap counter unavailable (fail-closed): " ++ msg) }
    else return { ok := true }
  | .ok totals =>
    let giveBack := capsGiveBack keys amountStroops
    -- The sender's own share first: it is the tighter bound.
    if overSender caps sender totals then do
      giveBack
      return { ok := false
               reason := some ("your sends today add up to the per-sender limit of " ++
                 stroopsToUsdc caps.maxSender ++ " USDC; try again tomorrow") }
    else if overDay caps totals then do
      giveBack
      return { ok := false
               reason := some ("daily escrow cap of " ++ stroopsToUsdc caps.maxDayStroops ++
                 " USDC reached; try again tomorrow") }
    else return { ok := true, release := some giveBack }

/-- Check the caps for an escrow of `amountStroops` and reserve the day budget. -/
def checkCaps (amountStroops : ℤ) (now : Instant) (senderPublicKey : Option String) :
    Task M ε (CapVerdict M ε) :=
  if amountStroops ≤ 0 then
    return { ok := false, reason := some "escrow amount must be positive" }
  else if amountStroops < caps.minDropStroops then
    return { ok := false, reason := some ("amount " ++ stroopsToUsdc amountStroops ++
      " USDC is below the minimum of " ++ stroopsToUsdc caps.minDropStroops ++ " USDC") }
  else if amountStroops > caps.maxDropStroops then
    return { ok := false, reason := some ("amount " ++ stroopsToUsdc amountStroops ++
      " USDC exceeds the per-drop cap of " ++ stroopsToUsdc caps.maxDropStroops ++ " USDC") }
  else if !env.kv then
    if caps.failClosed then
      return { ok := false, reason := some "daily cap counter is not configured (fail-closed)" }
    else return { ok := true }
  else do
    let sender := trim (senderPublicKey.getD "")
    let keys := capKeys env now sender
    let totals ← addToDays keys amountStroops
    judgeTotals caps amountStroops sender keys totals

end

/-! ## Requests of the send routes -/

structure EscrowRequest where
  now : Instant
  amountStroops : ℤ
  senderPublicKey : Option String

def EscrowRequest.sender (r : EscrowRequest) : String := trim (r.senderPublicKey.getD "")

def EscrowRequest.keys (env : Env) (r : EscrowRequest) : List String := capKeys env r.now r.sender

inductive Standing
  | waiting
  | admitted
  | refused
  | released
  deriving DecidableEq

/-- A request: it is checked, and if admitted its reservation may be released, once. -/
def escrowRequest (env : Env) (caps : CapsConfig) (r : EscrowRequest) :
    Task Unit Standing Standing :=
  .hold .waiting do
    let verdict ← checkCaps env caps r.amountStroops r.now r.senderPublicKey
    if verdict.ok then
      .hold .admitted do
        verdict.release.getD (pure ())
        return .released
    else return .refused

/-- Any number of requests over one store, empty at first. -/
def escrows {ι : Type} [DecidableEq ι] (env : Env) (caps : CapsConfig) (req : ι → EscrowRequest) :
    Machine (Sys ι Unit Cmd KvReply Unit Standing Standing (Store ι)) (ι × Fault) Unit :=
  system (backend ι) (fun _ => ()) ⟨Store.empty, fun _ => (), fun i => escrowRequest env caps (req i)⟩

end Lumenia.Sponsor
