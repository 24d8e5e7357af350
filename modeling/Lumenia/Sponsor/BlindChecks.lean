import Lumenia.Sponsor.DayKeys
import Lumenia.Sponsor.Governance
import Lumenia.Theory.Text
import Mathlib.Data.Finmap

/-!
# Blind checks

How `runWatchdog` of `apps/sponsor/src/lib/watchdog.ts` reports a check that fails, and whom it mails. A
check that fails on a busy source may wait for a while, and the store keeps since when (the blind ledger).
A page that has been mailed is held for a while, and the store keeps since when, too (the cooldown).

A run is told what its checks and its halt step come to. Of these there is their alerts, with the titles
they have in the source, and how a check has failed. The store's text of the blind ledger is the ledger,
and its text of a list of slugs is the list.
-/

namespace Lumenia.Sponsor.Watchdog.Paging

open Dialogue

/-! ## Alerts -/

def tripwireForbiddenOp : String := "Sponsor SOURCED a forbidden operation"

def tripwireWasmChanged : String := "Escrow WASM CHANGED - the contract was upgraded"

def autoHaltTitle : String := "Sponsor AUTO-HALTED by the watchdog"

def isAutoHaltTripwire (title : String) : Bool := title = tripwireForbiddenOp ∨ title = tripwireWasmChanged

def cannotDeliverTitle : String := "Watchdog cannot deliver alerts"

/-- The titles of all alerts but those of a check that has failed. -/
def ownTitles : List String :=
  [tripwireForbiddenOp, tripwireWasmChanged, autoHaltTitle, cannotDeliverTitle,
    "Sponsor auto-halt FAILED - halt by hand", "Auto-halt not attempted (read-only run)",
    "Sponsor sourced a forbidden operation over a day ago", "Watchdog forbidden-operation scan is behind",
    "Escrow WASM mismatch not confirmed - no auto-halt", "Sponsor account unreadable",
    "Sponsor float below the floor", "Sponsor onboarding capacity below the floor",
    "Escrow contract state expiry approaching", "Escrow contract state expiry",
    "Escrow contract instance not found", "Sponsor fee budget unreadable", "Sponsor fee budget nearly spent",
    "Sponsor fee budget"] ++ governanceEvents.map ("Escrow governance event: " ++ ·)

abbrev OwnAlert := { alert : Alert // alert.title ∈ ownTitles }

inductive Check
  | sponsorAccount
  | escrowGovernance
  | escrowWasm
  | escrowTtl
  | feeBudget
  deriving DecidableEq

namespace Check

/-- In the order of a run. -/
def all : List Check := [sponsorAccount, escrowGovernance, escrowWasm, escrowTtl, feeBudget]

def failedTitle : Check → String
  | sponsorAccount => "Watchdog check failed: sponsor account"
  | escrowGovernance => "Watchdog check failed: escrow governance"
  | escrowWasm => "Watchdog check failed: escrow wasm hash"
  | escrowTtl => "Watchdog check failed: escrow state expiry"
  | feeBudget => "Watchdog check failed: fee budget"

def lead : Check → String
  | sponsorAccount => "The sponsor float check or forbidden-op scan did not complete"
  | escrowGovernance => "Governance events are unobserved until this clears"
  | escrowWasm => "An upgrade would go unnoticed until this clears"
  | escrowTtl => "Archival would arrive unannounced until this clears"
  | feeBudget => "The day's fee spend is unobserved until this clears"

end Check

/-- What a check has thrown, and whether it is a `SourceBusyError`. -/
structure Failure where
  busy : Bool
  message : String

structure Outcome where
  alerts : List OwnAlert
  failure : Option Failure

structure HaltReport where
  alerts : List OwnAlert
  freshHalt : Bool

/-- A run of characters outside `[a-z0-9]` becomes one dash. -/
def dashed : Bool → List Char → List Char
  | _, [] => []
  | behindDash, c :: cs =>
    if c.isLower ∨ c.isDigit then c :: dashed false cs
    else if behindDash then dashed true cs
    else '-' :: dashed true cs

def slugChars (title : List Char) : List Char :=
  let cs := dashed false title
  let cs := if cs.head? = some '-' then cs.tail else cs
  let cs := if cs.getLast? = some '-' then cs.dropLast else cs
  cs.take 60

/-- The title, as far as it is one identity for alerts with other numbers. -/
def alertSlug (title : String) : String := .ofList (slugChars (lower title))

def Check.slug (c : Check) : String := alertSlug c.failedTitle

/-- `toISOString` -/
def isoTime (ms : ℕ) : String :=
  if h : ms ≤ 8640000000000000 then
    isoDate ⟨ms, by omega, by omega⟩ ++ "T" ++ padStart (toString (ms / 3600000 % 24)) 2 ++ ":" ++
      padStart (toString (ms / 60000 % 60)) 2 ++ ":" ++ padStart (toString (ms / 1000 % 60)) 2 ++ "." ++
      padStart (toString (ms % 1000)) 3 ++ "Z"
  else "Invalid Date"

/-! ## A failed check -/

def blindGraceMs : ℕ := 45 * 60000

def blindStartSlackMs : ℕ := 5 * 60000

/-- Since when each check has failed. -/
abbrev Ledger := Finmap fun _ : String => ℕ

/-- What a run knows of earlier ones. -/
structure Blind where
  known : Bool
  before : Ledger

/-- A failure that the run has let wait. -/
structure Waiting where
  slug : String
  since : ℕ
  lead : String
  why : String

structure Entry where
  alert : Alert
  waiting : Option Waiting

structure Report where
  entries : List Entry
  blindNow : Ledger

namespace Report

def push (r : Report) (alert : Alert) : Report := { r with entries := r.entries ++ [⟨alert, none⟩] }

def pushAll (r : Report) (alerts : List OwnAlert) : Report :=
  { r with entries := r.entries ++ alerts.map fun a => ⟨a.val, none⟩ }

def alerts (r : Report) : List Alert := r.entries.map (·.alert)

end Report

/-- A start is one that the ledger has and that is not in the future, or this run. -/
def sinceOf (now : ℕ) (before : Ledger) (slug : String) : ℕ :=
  match before.lookup slug with
  | some seen => if 0 < seen ∧ seen ≤ now then seen else now
  | none => now

def checkFailed (now : ℕ) (persist : Bool) (blind : Blind) (c : Check) (e : Failure) (r : Report) : Report :=
  if !e.busy || !persist || !blind.known then
    r.push { severity := .page, title := c.failedTitle, detail := c.lead ++ ": " ++ e.message }
  else
    let since := sinceOf now blind.before c.slug
    let r := { r with blindNow := r.blindNow.insert c.slug since }
    let minutes := toString ((now - since + 30000) / 60000)
    if blindGraceMs - blindStartSlackMs ≤ now - since then
      r.push {
        severity := .page
        title := c.failedTitle
        detail := c.lead ++ ": " ++ e.message ++ ". Every run for " ++ minutes ++ " minutes (since " ++
          isoTime since ++ ") found the source busy or out of reach." }
    else
      let alert : Alert := {
        severity := .info
        title := c.failedTitle
        detail := c.lead ++ ": " ++ e.message ++ ". A busy or unreachable source " ++
          (if 0 < (now - since + 30000) / 60000 then "for " ++ minutes ++ " minutes so far" else "on this run") ++
          "; it pages if this lasts " ++ toString (blindGraceMs / 60000) ++
          " minutes, and the heartbeat opens an issue after 3 hours without a full run." }
      { r with entries := r.entries ++ [⟨alert, some ⟨c.slug, since, c.lead, e.message⟩⟩] }

/-- What a run has of a check. -/
def note (now : ℕ) (persist : Bool) (blind : Blind) (r : Report) (c : Check) (o : Outcome) : Report :=
  match o.failure with
  | none => r.pushAll o.alerts
  | some e => checkFailed now persist blind c e (r.pushAll o.alerts)

/-- The store has refused the ledger: what waits on a start that is not in it pages. -/
def Entry.unsaved (before : Ledger) (entry : Entry) : Entry :=
  match entry.waiting with
  | none => entry
  | some w =>
    if before.lookup w.slug = some w.since then entry
    else { entry with alert := { entry.alert with
      severity := .page
      detail := w.lead ++ ": " ++ w.why ++
        ". The store could not save when this began, so the grace cannot be counted and it pages now." } }

/-! ## A run -/

inductive Ask
  | check (c : Check)
  /-- The writes of the halt, and what they have come to. -/
  | halt
  | kvReadBlind
  | kvSetBlind (ledger : Ledger)
  | kvGetAlerting
  | kvSetAlerting (slugs : List String)
  | kvGetAlerted (slug : String)
  | kvSetAlerted (slug : String) (value : ℕ)
  /-- A request to `api.resend.com`; any of its failures is one answer. -/
  | email (alerts : List Alert)

abbrev Ask.Answer : Ask → Type
  | check _ => Outcome
  | halt => HaltReport
  | kvReadBlind => Option Ledger
  | kvSetBlind _ => Bool
  | kvGetAlerting => Option (List String)
  | kvSetAlerting _ => Bool
  | kvGetAlerted _ => Option ℕ
  | kvSetAlerted .. => Bool
  | email _ => Bool

abbrev Run := Dialogue Ask.Answer Empty

abbrev ask (q : Ask) : Run q.Answer := Dialogue.question q

structure Config where
  /-- `opts.heartbeat`: the Worker's scheduled run. -/
  persist : Bool
  /-- There is a `kvConfigFromEnv()`. -/
  store : Bool
  /-- What `parseInt` reads of `ALERT_COOLDOWN_MINUTES`, if a number. -/
  alertCooldownMinutes : Option ℤ
  resendApiKey : Option String
  alertNotifyTo : Option String
  feedbackNotifyTo : Option String

namespace Config

variable (cfg : Config)

def alertCooldownMs : ℕ :=
  match cfg.alertCooldownMinutes with
  | some n => if 0 < n then n.toNat * 60000 else 360 * 60000
  | none => 360 * 60000

/-- `alertingStatus().missing` -/
def missing : List String :=
  (if cfg.resendApiKey.getD "" = "" then ["RESEND_API_KEY"] else []) ++
    if (cfg.alertNotifyTo.or cfg.feedbackNotifyTo).getD "" = "" then
      ["ALERT_NOTIFY_TO (or FEEDBACK_NOTIFY_TO)"]
    else []

def configured : Bool := cfg.missing.isEmpty

def cannotDeliver : Alert where
  severity := .page
  title := cannotDeliverTitle
  detail := " and ".intercalate cfg.missing ++ " unset, so every alert on this run — including any above — " ++
    "exists only in `wrangler tail`. Set them (wrangler secret put) or the sponsor is running unmonitored."

end Config

def slugs (alerts : List Alert) : List String := (alerts.map fun a => alertSlug a.title).eraseDups

/-- Reset what has cleared. -/
def resetCleared (active : List String) : List String → Run Unit
  | [] => return ()
  | slug :: previous => do
    if slug ∈ active then resetCleared active previous
    else
      let _ ← ask (.kvSetAlerted slug 0)
      resetCleared active previous

def dueOf (cfg : Config) (now : ℕ) (force : Alert → Bool) : List Alert → Run (List Alert)
  | [] => return []
  | a :: alerts => do
    if force a then return a :: (← dueOf cfg now force alerts)
    else
      let last := (← ask (.kvGetAlerted (alertSlug a.title))).getD 0
      if 0 < last ∧ now - last < cfg.alertCooldownMs then dueOf cfg now force alerts
      else return a :: (← dueOf cfg now force alerts)

def withoutRepeats (cfg : Config) (now : ℕ) (force : Alert → Bool) (alerts : List Alert) :
    Run (List Alert) := do
  let active := slugs alerts
  let previous := (← ask .kvGetAlerting).getD []
  resetCleared active (previous.filter (· ≠ ""))
  let _ ← ask (.kvSetAlerting active)
  dueOf cfg now force alerts

def setAlerted (now : ℕ) : List String → Run Unit
  | [] => return ()
  | slug :: rest => do
    let _ ← ask (.kvSetAlerted slug now)
    setAlerted now rest

def markAlerted (now : ℕ) (alerts : List Alert) : Run Unit := setAlerted now (slugs alerts)

/-- The checks, one after the other. -/
def runChecks (now : ℕ) (persist : Bool) (blind : Blind) : List Check → Report → Run Report
  | [], r => return r
  | c :: cs, r => do
    let o ← ask (.check c)
    runChecks now persist blind cs (note now persist blind r c o)

def readBlind (cfg : Config) : Run Blind := do
  if cfg.persist && cfg.store then
    match ← ask .kvReadBlind with
    | some before => return ⟨true, before⟩
    | none => return ⟨false, ∅⟩
  else return ⟨false, ∅⟩

/-- The blind ledger is written before anything is mailed. -/
def saveBlind (cfg : Config) (blind : Blind) (r : Report) : Run Report := do
  if cfg.persist && blind.known && r.blindNow ≠ blind.before then
    if ← ask (.kvSetBlind r.blindNow) then return r
    else return { r with entries := r.entries.map (·.unsaved blind.before) }
  else return r

def deliver (cfg : Config) (now : ℕ) (freshHalt : Bool) (alerts : List Alert) : Run Unit := do
  if cfg.persist && cfg.configured then
    let force := fun a : Alert => freshHalt && (a.title = autoHaltTitle || isAutoHaltTripwire a.title)
    let due ← withoutRepeats cfg now force (alerts.filter (·.severity = .page))
    if due ≠ [] then
      if ← ask (.email due) then markAlerted now due

def runWatchdog (cfg : Config) (now : ℕ) : Run (List Alert) := do
  let blind ← readBlind cfg
  let r ← runChecks now cfg.persist blind Check.all ⟨[], ∅⟩
  let halt ← ask .halt
  let r ← saveBlind cfg blind (r.pushAll halt.alerts)
  let alerts := r.alerts ++ if cfg.configured then [] else [cfg.cannotDeliver]
  deliver cfg now halt.freshHalt alerts
  return alerts

end Lumenia.Sponsor.Watchdog.Paging
