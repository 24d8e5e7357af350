import Lumenia.Sponsor.Channels
import Lumenia.Sponsor.Pilot
import Lumenia.Sponsor.RelayBids
import Lumenia.Theory.Outlay

/-!
# The subrequest budget

`apps/sponsor/src/lib/subrequests.ts`: a wrapper on the global fetch counts each call of a request in
its meter, and a relay asks the meter before each poll. The relays are `relayClaimHandler`,
`relayDepositHandler` inside `withPilotSlot`, `relayReclaimHandler` and `relayCctpHandler`.
-/

namespace Lumenia.Sponsor.Subrequests

open Dialogue Channels

/-! ## The meter -/

/-- Cloudflare's subrequest limit per invocation. -/
def workerSubrequestLimit : ℕ := 50

/-- What this service lets one request spend. -/
def subrequestBudget : ℕ := 45

example : subrequestBudget + 5 = workerSubrequestLimit := rfl

structure Meter where
  used : ℕ
  limit : ℕ

/-- A global `fetch`: one that does not count, or the counting wrapper around another. -/
inductive FetchFn
  | bare
  | counted (current : FetchFn)

/-- Whether a `fetch` is marked as `METERED`. -/
def FetchFn.isMetered : FetchFn → Bool
  | bare => false
  | counted _ => true

def ensureMeteredFetch (current : FetchFn) : FetchFn :=
  if current.isMetered then current else .counted current

/-- One call, and what it leaves of the meter of its request, if there is one. -/
def FetchFn.call : FetchFn → Option Meter → Option Meter
  | bare, m => m
  | counted current, m => current.call (m.map fun m => { m with used := m.used + 1 })

/-- How many more subrequests a request may make, where it is metered. -/
def subrequestsLeft (m : Option Meter) : Option ℤ := m.map fun m => (m.limit : ℤ) - m.used

/-- The meter after so many calls more. -/
def Meter.after (m : Meter) (calls : ℕ) : Meter := { m with used := m.used + calls }

/-- The `fetch` that requests find: any replaces it by one that does not count, and each ensures that
it counts. -/
inductive Installed : FetchFn → Prop
  | bare : Installed .bare
  | ensured {f : FetchFn} (h : Installed f) : Installed (ensureMeteredFetch f)

variable {f : FetchFn} {m : Meter}

theorem call_ensureMeteredFetch (h : Installed f) : (ensureMeteredFetch f).call (some m) = some (m.after 1) := by
  induction h with
  | bare => rfl
  | @ensured f _ ih =>
    have hmetered : (ensureMeteredFetch f).isMetered = true := by
      unfold ensureMeteredFetch
      split
      · assumption
      · rfl
    rw [ensureMeteredFetch, if_pos hmetered, ih]

/-- The meter after so many calls. -/
def metersAfter (f : FetchFn) (m : Meter) : ℕ → Option Meter
  | 0 => some m
  | calls + 1 => (ensureMeteredFetch f).call (metersAfter f m calls)

/-- **Each call is counted once**, however many requests have wrapped the fetch. -/
theorem metersAfter_eq (h : Installed f) {calls : ℕ} : metersAfter f m calls = some (m.after calls) := by
  induction calls with
  | zero => rfl
  | succ calls ih =>
    rw [metersAfter, ih, call_ensureMeteredFetch h]
    rfl

/-! ## What the steps cost -/

/-- The subrequests that a step can make: one for a read of a transaction, and for a give-back those of
its layer. What comes before the send may make any number of them. -/
def Costs : Ask → ℕ → Prop
  | .await (.getTransaction _), n => n = 1
  | .await .sleep, n | .await .subrequestsLeft, n => n = 0
  | .await (.settle call), n =>
    ∃ charge : FeeCharge, (charge.call () call : Task (FeeMemory Unit) Unit Unit).Sends n
  | .await .releaseCap, n =>
    ∃ keys amountStroops, (capsGiveBack keys amountStroops : Task Unit Unit Unit).Sends n
  | .await .releasePilot, n => ∃ pubkey, (Pilot.release pubkey).Takes n
  | .pipeline _, n => n = 1
  | .memory _, n => n = 0
  | _, _ => True

/-- A request whose `withSubrequestMeter` has found this `fetch`, with a meter that stood at `m`, is
answered what is left after all it has spent since. -/
def Reads (f : FetchFn) (m : Meter) (spent : ℕ) : (q : Ask) → q.Answer → Prop
  | .await .subrequestsLeft, left => subrequestsLeft (metersAfter f m spent) = some left
  | _, _ => True

/-- What has been asked, answered and spent. -/
abbrev Record := List (Outlay Ask.Answer)

/-! ## The relays -/

inductive Handler
  | relayClaim (cfg : SponsorConfig) (sdk : Sdk) (input : RelayClaimInput)
    (channels : Option ChannelManager)
  /-- Inside `withPilotSlot`. -/
  | relayDeposit (cfg : DepositConfig) (pilotEnabled : Bool) (input : RelayDepositInput)
  | relayReclaim (cfg : RelayConfig) (input : RelayDepositInput)
  | relayCctp (cfg : SponsorConfig) (sdk : Sdk) (attested : Except Failure (Option String))
    (channels : Option ChannelManager)

/-- What becomes of the answer is not followed. -/
def Handler.serve : Handler → Call Unit
  | relayClaim cfg sdk input channels => do
    let _ ← relayClaimHandler cfg sdk input channels
    return ()
  | relayDeposit cfg pilotEnabled input => do
    let _ ← relay (depositRoute cfg pilotEnabled input)
    return ()
  | relayReclaim cfg input => do
    let _ ← relay (Sponsor.relayReclaim cfg input)
    return ()
  | relayCctp cfg sdk attested channels => do
    let _ ← relayCctpHandler cfg sdk attested channels
    return ()

/-- The pool that a relay leases from. -/
def Handler.channels : Handler → Option ChannelManager
  | relayClaim _ _ _ channels | relayCctp _ _ _ channels => channels
  | relayDeposit .. | relayReclaim .. => none

/-- A run of a relay in a request with this meter. -/
abbrev Handler.Run (relay : Handler) (f : FetchFn) (m : Meter) (r : Except Failure Unit) (h : Record) :
    Prop :=
  Runs (metered Costs (Reads f m)) relay.serve [] r h

end Lumenia.Sponsor.Subrequests
