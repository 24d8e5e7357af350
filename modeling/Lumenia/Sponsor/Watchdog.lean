import Lumenia.Sponsor.BlindChecks
import Lumenia.Sponsor.KillSwitch

/-!
# A run of the watchdog

`runWatchdog` of `apps/sponsor/src/lib/watchdog.ts` from its first read to its last write: the scan of the
sponsor's operations, the watch over the escrow's code, the halt that is written as soon as one of them
raises a tripwire, and the cursor of the scan, which is moved after that. The governance watch, the blind
ledger and the mails are the programs of `Governance` and `BlindChecks`.

What the sponsor's balances come to, and what the checks of the expiry and of the fee budget come to, the run
is told. The store's text of a ledger number is the number.
-/

namespace Lumenia.Sponsor.Watchdog.Tripwires

open Dialogue
open Paging (Blind OwnAlert Report autoHaltTitle isAutoHaltTripwire tripwireForbiddenOp
  tripwireWasmChanged)
open Proofs (NetworkId)

/-! ## What is read -/

/-- An operation as Horizon lists it. -/
structure Op where
  type : String
  sourceAccount : String
  /-- A question mark where Horizon names none. -/
  transactionHash : String
  createdAt : Option String
  pagingToken : Option String
  deriving DecidableEq

/-- `FORBIDDEN_SOURCE_OPS` -/
def forbiddenSourceOps : List String :=
  ["payment", "path_payment_strict_send", "path_payment_strict_receive", "account_merge", "manage_sell_offer",
    "manage_buy_offer", "create_passive_sell_offer", "create_claimable_balance", "set_options"]

def Op.isForbidden (sponsor : String) (op : Op) : Bool :=
  op.sourceAccount = sponsor && forbiddenSourceOps.contains op.type

/-- The escrow's instance entry. -/
inductive Instance
  | missing
  /-- An executable that is no wasm. -/
  | builtIn
  | wasm (hash : String)
  deriving DecidableEq

/-- The titles of what the run is told. -/
def toldTitles : List String :=
  ["Sponsor float below the floor", "Sponsor onboarding capacity below the floor",
    "Escrow contract state expiry approaching", "Escrow contract state expiry", "Sponsor fee budget unreadable",
    "Sponsor fee budget nearly spent", "Sponsor fee budget"]

theorem toldTitles_subset : toldTitles ⊆ Paging.ownTitles := by
  simp [toldTitles, Paging.ownTitles]

abbrev ToldAlert := { alert : Alert // alert.title ∈ toldTitles }

def ToldAlert.own (alert : ToldAlert) : OwnAlert := ⟨alert.val, toldTitles_subset alert.property⟩

/-- What a check comes to that the run is told of. -/
structure Told where
  alerts : List ToldAlert
  failure : Option Paging.Failure

def opsPageSize : ℕ := 100

def opsMaxPages : ℕ := 10

def forbiddenOpHaltWindowMs : ℤ := 24 * 60 * 60 * 1000

structure Config where
  /-- The heartbeat, the store, and what is needed to mail. -/
  paging : Paging.Config
  autoHalt : Bool
  network : NetworkId
  sponsor : String
  /-- Where Horizon lists the sponsor's operations. -/
  opsUrl : String
  governance : GovernanceConfig
  /-- `LUMENDROP_WASM_HASH` -/
  wasmPin : Option String
  /-- The pause before the read that confirms, in seconds. -/
  confirmSeconds : String
  /-- `Date.parse`, where it is a number. -/
  parseDate : String → Option ℤ

inductive Ask
  | kvRead (key : String)
  | kvSet (key value : String)
  /-- The account on Horizon, and the alerts that its balances raise, unless it has no native one. -/
  | balances
  /-- A page of operations: the newest, or those after a cursor. -/
  | operations (cursor : Option String)
  | kvReadLedger (key : String)
  | kvSetLedger (key : String) (value : ℕ)
  | getLatestLedger
  | getEvents (startLedger limit : ℕ)
  /-- The entry is read once for all checks, and once more by the check of the code. -/
  | readInstance (again : Bool)
  | pause
  /-- The check of the expiry, or of the fee budget. -/
  | rest (c : Paging.Check)
  | storeHaltIsSet
  | setHalt (reason : String)
  | paging (q : Paging.Ask)

/-- Whatever reads from outside may fail, busy or not; a failed read of the store has a text. -/
abbrev Ask.Answer : Ask → Type
  | kvRead _ => Except String (Option String)
  | kvSet .. => Bool
  | balances => Except Paging.Failure (Option (List ToldAlert))
  | operations _ => Except Paging.Failure (List Op)
  | kvReadLedger _ => Except String (Option ℕ)
  | kvSetLedger .. => Bool
  | getLatestLedger => Except Paging.Failure (Option ℕ)
  | getEvents .. => Except Paging.Failure (Option (List Event))
  | readInstance _ => Except Paging.Failure Instance
  | pause => Unit
  | rest _ => Told
  | storeHaltIsSet => Option Bool
  | setHalt _ => Except String Bool
  | paging q => q.Answer

/-- What writes: to the store, or a mail. -/
def writes : Paging.Ask → Bool
  | .kvSetBlind _ | .kvSetAlerting _ | .kvSetAlerted .. | .email _ => true
  | _ => false

abbrev Run := Dialogue Ask.Answer Empty

abbrev ask (q : Ask) : Run q.Answer := Dialogue.question q

/-- The steps that are told apart in `BlindChecks`. -/
def paging {α : Type} (p : Paging.Run α) : Run α := p.relabel Ask.paging fun _ a => a

/-! ## The state of a run -/

/-- Where the scan would move its cursor, and whether it raised the tripwire. -/
structure OpsCursor where
  to' : String
  tripped : Bool

inductive PinSource
  | env
  | store

/-- What is to be pinned after an upgrade. -/
structure WasmRepin where
  observed : String
  source : PinSource

structure Halt where
  autoHalted : Bool
  attemptedWhy : String
  haltFailure : String
  /-- The halt key before the first write, once it was read. -/
  before : Option (Option Bool)

structure State where
  report : Report
  checked : List Paging.Check
  halt : Halt
  opsCursor : Option OpsCursor
  wasmRepin : Option WasmRepin

namespace State

def start : State := ⟨⟨[], ∅⟩, [], ⟨false, "", "", none⟩, none, none⟩

def pushAll (s : State) (alerts : List OwnAlert) : State := { s with report := s.report.pushAll alerts }

end State

/-- What a check comes to: whether it has done its job, or what it has thrown, and what it leaves. -/
abbrev Checked := Run (Except Paging.Failure Bool × State)

section

variable (cfg : Config)

def kvRead (key : String) : Run (Except String (Option String)) :=
  if cfg.paging.store then ask (.kvRead key) else return .ok none

def kvSet (key value : String) : Run Bool :=
  if cfg.paging.store then ask (.kvSet key value) else return false

def opsKey : String := "watchdog:ops:" ++ cfg.sponsor

def wasmKey (contract : String) : String := "watchdog:wasm:" ++ contract

def lastRunKey : String := "watchdog:" ++ cfg.network.text ++ ":lastrun"

def lastFullRunKey : String := "watchdog:" ++ cfg.network.text ++ ":lastfull"

/-! ## The halt -/

/-- The tripwires that were raised so far. -/
def tripwireWhy (r : Report) : String :=
  "; ".intercalate (((r.alerts.map (·.title)).filter isAutoHaltTripwire).eraseDups)

/-- The halt key before the first write. -/
def haltBefore (halt : Halt) : Run (Option Bool) :=
  match halt.before with
  | some before => return before
  | none => ask .storeHaltIsSet

/-- What an answer to the write makes of the halt step. -/
def Halt.answered (halt : Halt) : Except String Bool → Halt
  | .ok true => { halt with autoHalted := true, haltFailure := "" }
  | .ok false => halt
  | .error message => { halt with haltFailure := message }

/-- The halt is written once for each list of tripwires. -/
def haltNow (s : State) : Run State :=
  let why := tripwireWhy s.report
  if !cfg.autoHalt || why = "" || why = s.halt.attemptedWhy then return s
  else do
    let before ← haltBefore s.halt
    let answer ← ask (.setHalt ("watchdog auto-halt: " ++ why))
    return { s with halt := { s.halt with attemptedWhy := why, before := some before }.answered answer }

/-! ## The sponsor's operations -/

def unreadable : OwnAlert where
  val := {
    severity := .page
    title := "Sponsor account unreadable"
    detail := "Horizon returned no native balance for " ++ cfg.sponsor ++
      ". The sponsor may be merged or the endpoint is down." }
  property := by simp [Paging.ownTitles]

def oldAlert (op : Op) : OwnAlert where
  val := {
    severity := .page
    title := "Sponsor sourced a forbidden operation over a day ago"
    detail := "The sponsor sourced a " ++ op.type ++ " at " ++ op.createdAt.getD "" ++ " (transaction " ++
      op.transactionHash ++ "), more than a day ago, and the watchdog is only now reading it (a first run, or " ++
      "a scan cursor the store lost). Not halted. If it was not a planned SetOptions or other operation you " ++
      "made, treat the key as compromised: halt and rotate (ops/RUNBOOK_SPONSOR_KEY.md section 4)." }
  property := by simp [Paging.ownTitles]

def tripAlert (op : Op) : OwnAlert where
  val := {
    severity := .page
    title := tripwireForbiddenOp
    detail := "The sponsor only creates accounts and pays fees; it must never source a " ++ op.type ++
      ". Transaction " ++ op.transactionHash ++
      (if op.createdAt.getD "" = "" then "" else " at " ++ op.createdAt.getD "") ++
      ". Treat the key as compromised: halt (ops/RUNBOOK_SPONSOR_KEY.md section 4) and rotate." }
  property := by simp [Paging.ownTitles]

/-- The minutes of some ms, rounded. -/
def minutesOf (ms : ℤ) : ℤ := (ms + 30000) / 60000

def behindAlert (now : ℤ) (pages : ℕ) (reached : String) : OwnAlert where
  val := {
    severity := .page
    title := "Watchdog forbidden-operation scan is behind"
    detail := "This run read " ++ toString (pages * opsPageSize) ++ " operations of " ++ cfg.sponsor ++ " (" ++
      toString opsMaxPages ++ " pages, the per-run bound) and more remain: it reached operations from " ++
      (if reached = "" then "an unknown time" else reached) ++
      (((cfg.parseDate reached).map fun t =>
        ", " ++ toString (minutesOf (now - t)) ++ " minutes behind the clock").getD "") ++
      ". Payments TO the sponsor are listed too, so a burst of incoming operations can bury a forbidden one, " ++
      "and until the scan catches up a theft would neither page nor halt. Nothing was halted for this; the " ++
      "next run continues from here. If it repeats, read " ++ cfg.opsUrl ++ "?order=desc by hand or halt." }
  property := by simp [Paging.ownTitles]

/-- An operation of more than a day ago. -/
def Op.isOld (now : ℤ) (op : Op) : Bool :=
  match cfg.parseDate (op.createdAt.getD "") with
  | some t => forbiddenOpHaltWindowMs < now - t
  | none => false

/-- Whether an operation raises the tripwire. On a cold start an old one does not. -/
def Op.trips (now : ℤ) (coldStart : Bool) (op : Op) : Bool :=
  op.isForbidden cfg.sponsor && !(coldStart && op.isOld cfg now)

/-- The alerts that an operation raises. -/
def inspect (now : ℤ) (coldStart : Bool) (op : Op) : List OwnAlert :=
  if !op.isForbidden cfg.sponsor then []
  else if coldStart && op.isOld cfg now then [oldAlert op]
  else [tripAlert op]

def inspectAll (now : ℤ) (coldStart : Bool) (records : List Op) : List OwnAlert :=
  records.flatMap (inspect cfg now coldStart)

/-- How far the scan has come. -/
structure Scan where
  next : String
  tripped : Bool
  reached : String

/-- A page behind the cursor. -/
def Scan.read (now : ℤ) (scan : Scan) (records : List Op) : Scan where
  next := records.foldl (fun next op => op.pagingToken.getD next) scan.next
  tripped := scan.tripped || records.any (Op.trips cfg now false)
  reached := records.foldl (fun reached op => op.createdAt.getD reached) scan.reached

/-- Page after page, as long as they are full and the cursor moves. What is left of the pages a run may read
tells how many it has read; a page that raised the tripwire halts before the next is read. -/
def walk (now : ℤ) : ℕ → Scan → State → Run (Except Paging.Failure (Scan × Bool × ℕ) × State)
  | 0, scan, s => return (.ok (scan, true, 0), s)
  | left + 1, scan, s => do
    match ← ask (.operations (some scan.next)) with
    | .error e => return (.error e, s)
    | .ok records => do
      let scan' := scan.read cfg now records
      let s := s.pushAll (inspectAll cfg now false records)
      let full := opsPageSize ≤ records.length
      if scan'.next = scan.next then return (.ok (scan', full, left), s)
      else if full ∧ left ≠ 0 then do
        let s ← if scan'.tripped then haltNow cfg s else pure s
        walk now left scan' s
      else return (.ok (scan', full, left), s)

/-- The scan from a cursor on. -/
def scanForward (now : ℤ) (cursor : String) (s : State) : Checked := do
  let (r, s) ← walk cfg now opsMaxPages ⟨cursor, false, ""⟩ s
  match r with
  | .error e => return (.error e, s)
  | .ok (scan, full, left) =>
    let s := if full then s.pushAll [behindAlert cfg now (opsMaxPages - left) scan.reached] else s
    if scan.next ≠ "" ∧ scan.next ≠ cursor then
      return (.ok true, { s with opsCursor := some ⟨scan.next, scan.tripped⟩ })
    else return (.ok true, s)

/-- The newest page, where there is no cursor. -/
def scanNewest (now : ℤ) (s : State) : Checked := do
  match ← ask (.operations none) with
  | .error e => return (.error e, s)
  | .ok records =>
    let s := s.pushAll (inspectAll cfg now true records)
    let next := (records.head?.bind (·.pagingToken)).getD ""
    if next ≠ "" then
      return (.ok true, { s with opsCursor := some ⟨next, records.any (Op.trips cfg now true)⟩ })
    else return (.ok true, s)

def checkSponsorAccount (now : ℤ) (s : State) : Checked := do
  match ← ask .balances with
  | .error e => return (.error e, s)
  | .ok none => return (.ok false, s.pushAll [unreadable cfg])
  | .ok (some alerts) => do
    let s := s.pushAll (alerts.map ToldAlert.own)
    match ← kvRead cfg (opsKey cfg) with
    | .error message =>
      return (.error ⟨false, "the operations scan cursor could not be read (" ++ message ++
        "), so the forbidden-operation scan was skipped rather than restarted from the newest page, which " ++
        "would jump over every operation since the cursor"⟩, s)
    | .ok cursor => if cursor.getD "" = "" then scanNewest cfg now s else scanForward cfg now (cursor.getD "") s

/-! ## The escrow -/

/-- The governance watch as a part of the run: it has a store only if there is one, and writes only on the
scheduled run. A call of the RPC that fails is what it throws. -/
def governed : Watchdog.Check Bool → State → Checked
  | .ret r, s => return (r.mapError (⟨false, ·⟩), s)
  | .ask (.push alert) k, s => governed (k ()) { s with report := s.report.push alert }
  | .ask (.kvRead key) k, s =>
    if cfg.paging.store then .ask (.kvReadLedger key) fun a => governed (k a) s
    else governed (k (.ok none)) s
  | .ask (.kvSet key value) k, s =>
    if cfg.paging.persist && cfg.paging.store then .ask (.kvSetLedger key value) fun a => governed (k a) s
    else governed (k false) s
  | .ask .getLatestLedger k, s =>
    .ask .getLatestLedger fun
      | .ok latest => governed (k (.ok latest)) s
      | .error e => return (.error e, s)
  | .ask (.getEvents start limit) k, s =>
    .ask (.getEvents start limit) fun
      | .ok events => governed (k (.ok events)) s
      | .error e => return (.error e, s)

def instanceMissing (contract : String) : OwnAlert where
  val := {
    severity := .page
    title := "Escrow contract instance not found"
    detail := "No instance entry for " ++ contract ++ " — it may have been archived, or the id is wrong." }
  property := by simp [Paging.ownTitles]

def wasmChanged (contract pinned observed confirmed : String) : OwnAlert where
  val := {
    severity := .page
    title := tripwireWasmChanged
    detail := contract ++ " now runs wasm " ++ confirmed ++ ", expected " ++ pinned ++ "; two reads " ++
      cfg.confirmSeconds ++ " s apart agree" ++
      (if confirmed = observed then "" else " (the first one saw " ++ observed ++ ")") ++
      ". An upgrade emits no event, so this is the only signal. If you did not just upgrade, the owner key " ++
      "is compromised." }
  property := by simp [Paging.ownTitles]

def wasmUnconfirmed (contract pinned observed because : String) : OwnAlert where
  val := {
    severity := .page
    title := "Escrow WASM mismatch not confirmed - no auto-halt"
    detail := "One read of " ++ contract ++ " returned wasm " ++ observed ++ ", expected " ++ pinned ++
      ", but " ++ because ++ ". A lagging RPC node is the likely cause, so nothing was halted; the next run " ++
      "reads again. If this repeats, read the instance by hand before trusting it." }
  property := by simp [Paging.ownTitles]

/-- The read that confirms: another hash than the pinned one, or why there is none. -/
def confirmedOf (pinned : String) : Except Paging.Failure Instance → Except String String
  | .ok (.wasm hash) =>
    if hash = pinned then .error ("a second read " ++ cfg.confirmSeconds ++ " s later returned the pinned hash")
    else .ok hash
  | .ok _ => .error "the second read returned no wasm instance"
  | .error e => .error ("the second read failed (" ++ e.message ++ ")")

def confirmWasm (contract pinned observed : String) (source : PinSource) (s : State) : Checked := do
  ask .pause
  match confirmedOf cfg pinned (← ask (.readInstance true)) with
  | .ok confirmed =>
    let s := { s with wasmRepin := some ⟨confirmed, source⟩ }
    return (.ok true, s.pushAll [wasmChanged cfg contract pinned observed confirmed])
  | .error because => return (.ok true, s.pushAll [wasmUnconfirmed contract pinned observed because])

def compareTo (contract pinned observed : String) (source : PinSource) (s : State) : Checked :=
  if observed = pinned then return (.ok true, s) else confirmWasm cfg contract pinned observed source s

/-- The first sighting becomes the baseline. -/
def keepBaseline (contract observed : String) (s : State) : Checked :=
  if cfg.paging.persist then do
    let _ ← kvSet cfg (wasmKey contract) observed
    return (.ok true, s)
  else return (.ok true, s)

def comparePin (contract observed : String) (s : State) : Checked :=
  if cfg.wasmPin.getD "" ≠ "" then compareTo cfg contract (cfg.wasmPin.getD "") observed .env s
  else do
    match ← kvRead cfg (wasmKey contract) with
    | .error message => return (.error ⟨false, "the pinned wasm hash could not be read (" ++ message ++ ")"⟩, s)
    | .ok pinned =>
      if pinned.getD "" = "" then keepBaseline cfg contract observed s
      else compareTo cfg contract (pinned.getD "") observed .store s

/-- The code that the escrow runs. -/
def checkInstance (contract : String) (s : State) : Checked := do
  match ← ask (.readInstance false) with
  | .error e => return (.error e, s)
  | .ok .missing => return (.ok true, s.pushAll [instanceMissing contract])
  | .ok .builtIn => return (.ok true, s)
  | .ok (.wasm observed) => comparePin cfg contract observed s

def checkWasmHash (s : State) : Checked :=
  let contract := cfg.governance.lumendropContract.getD ""
  if contract = "" then return (.ok true, s) else checkInstance cfg contract s

/-! ## The run -/

/-- What the run has of a check. -/
def noted (now : ℕ) (blind : Blind) (c : Paging.Check) (r : Except Paging.Failure Bool) (s : State) : State :=
  match r with
  | .ok true => { s with checked := s.checked ++ [c] }
  | .ok false => s
  | .error e => { s with report := Paging.checkFailed now cfg.paging.persist blind c e s.report }

/-- A check that raises no tripwire. -/
def checkRest (now : ℕ) (blind : Blind) (c : Paging.Check) (s : State) : Run State := do
  let o ← ask (.rest c)
  let r := match o.failure with
    | none => .ok true
    | some e => .error e
  return noted cfg now blind c r (s.pushAll (o.alerts.map ToldAlert.own))

/-- The checks, and after the two that raise a tripwire the halt. -/
def runChecks (now : ℕ) (blind : Blind) : Run State := do
  let (r, s) ← checkSponsorAccount cfg now .start
  let s ← haltNow cfg (noted cfg now blind .sponsorAccount r s)
  let (r, s) ← governed cfg (checkGovernance cfg.governance) s
  let s := noted cfg now blind .escrowGovernance r s
  let (r, s) ← checkWasmHash cfg s
  let s ← haltNow cfg (noted cfg now blind .escrowWasm r s)
  let s ← checkRest cfg now blind .escrowTtl s
  let s ← checkRest cfg now blind .feeBudget s
  haltNow cfg s

/-- The cursor moves past a tripwire only after the halt has landed. -/
def moveOpsCursor (s : State) : Run Bool :=
  match s.opsCursor with
  | none => return false
  | some ops =>
    if !cfg.paging.persist || ops.tripped && cfg.autoHalt && !s.halt.autoHalted then return false
    else kvSet cfg (opsKey cfg) ops.to'

def kvDel (key : String) : String :=
  "curl -H \"authorization: Bearer $KV_REST_API_TOKEN\" \"$KV_REST_API_URL/del/" ++ key ++ "\""

def repinFirst (contract : String) (repin : WasmRepin) : String :=
  match repin.source with
  | .env => "If the upgrade was yours: FIRST set LUMENDROP_WASM_HASH = \"" ++ repin.observed ++ "\" in the " ++
      (match cfg.network with
        | .mainnet => "[env.mainnet.vars]"
        | .testnet => "[vars]") ++
      " block of apps/sponsor/wrangler.toml and deploy this Worker, THEN resume. Resuming first only lasts " ++
      "until the next run, which sees the old pin and halts again."
  | .store => "If the upgrade was yours: FIRST record the new baseline (curl -H \"authorization: Bearer " ++
      "$KV_REST_API_TOKEN\" \"$KV_REST_API_URL/set/" ++ wasmKey contract ++ "/" ++ repin.observed ++
      "\", or pin LUMENDROP_WASM_HASH and deploy), THEN resume. Resuming first only lasts until the next run."

def haltedDetail (why : String) (wasmRepin : Option WasmRepin) (forbiddenOp scanMoved : Bool) : String :=
  let contract := cfg.governance.lumendropContract.getD ""
  " ".intercalate (
    ["Every value route on " ++ cfg.network.text ++ " answers 503 from now (key " ++
      (KillSwitch.Key.halt cfg.network).text ++ "). Tripwire: " ++ why ++ "."] ++
    (wasmRepin.map (repinFirst cfg contract)).toList ++
    (if forbiddenOp then
      ["For the sponsor-sourced operation: confirm it was not you (the KMS cutover's and every rotation's " ++
        "SetOptions trip this by design)." ++
        if scanMoved then " This run has already moved its scan past that operation, so resuming does not " ++
          "trip on it again; the next SetOptions will."
        else " The scan cursor did not move past that operation, so the next run finds it again and re-halts."]
    else []) ++
    ["To resume: " ++ kvDel (KillSwitch.Key.halt cfg.network).text ++ " and " ++
      kvDel (KillSwitch.Key.reason cfg.network).text ++ ". Runbook: ops/RUNBOOK_SPONSOR_KEY.md section 4."])

def haltLanded (why : String) (wasmRepin : Option WasmRepin) (forbiddenOp scanMoved : Bool) : OwnAlert where
  val := {
    severity := .page
    title := autoHaltTitle
    detail := haltedDetail cfg why wasmRepin forbiddenOp scanMoved }
  property := by simp [Paging.ownTitles]

def haltFailed (why haltFailure : String) : OwnAlert where
  val := {
    severity := .page
    title := "Sponsor auto-halt FAILED - halt by hand"
    detail := "The tripwire fired (" ++ why ++ ") but the halt could NOT be written (" ++
      (if haltFailure = "" then "no store configured" else haltFailure) ++
      "), so the sponsor is still running. Halt by hand NOW: SPONSOR_HALT=1 and deploy, or SET " ++
      (KillSwitch.Key.halt cfg.network).text ++ " to 1 in the store. Every run until a halt lands finds the " ++
      "tripwire again and retries the write (the scan does not move past the operation before then). " ++
      "Runbook: ops/RUNBOOK_SPONSOR_KEY.md section 4." }
  property := by simp [Paging.ownTitles]

def haltSkipped (titles : List String) : OwnAlert where
  val := {
    severity := .info
    title := "Auto-halt not attempted (read-only run)"
    detail := "; ".intercalate titles ++ ": this run was started without autoHalt, so it wrote no halt (" ++
      (KillSwitch.Key.halt cfg.network).text ++ "). Only the Worker's scheduled run halts on its own." }
  property := by simp [Paging.ownTitles]

/-- The report of the halt step. The cursor moves before it where the halt has landed, which it tells, and
after it otherwise. -/
def reportHalt (s : State) : Run State := do
  let tripped := (s.report.alerts.map (·.title)).filter isAutoHaltTripwire
  if tripped ≠ [] ∧ cfg.autoHalt = true ∧ s.halt.autoHalted = true then
    let scanMoved ← moveOpsCursor cfg s
    return s.pushAll [haltLanded cfg (tripwireWhy s.report) s.wasmRepin (tripped.contains tripwireForbiddenOp)
      scanMoved]
  else
    let alerts :=
      if tripped = [] then []
      else if cfg.autoHalt then [haltFailed cfg (tripwireWhy s.report) s.halt.haltFailure]
      else [haltSkipped cfg tripped]
    let _ ← moveOpsCursor cfg s
    return s.pushAll alerts

structure WatchdogReport where
  checked : List Paging.Check
  alerts : List Alert
  /-- What is missing if a page cannot leave. -/
  missing : List String
  autoHalted : Bool
  lastRun : Option String
  lastFullRun : Option String

/-- The stamps of a scheduled run: the second one only if every check has done its job. -/
def heartbeat (now : ℕ) (checked : List Paging.Check) : Run (Option String × Option String) :=
  if cfg.paging.persist then do
    let stamp := Paging.isoTime now
    let lastRun := if ← kvSet cfg (lastRunKey cfg) stamp then some stamp else none
    if Paging.Check.all.all checked.contains then
      let lastFullRun := if ← kvSet cfg (lastFullRunKey cfg) stamp then some stamp else none
      return (lastRun, lastFullRun)
    else return (lastRun, none)
  else return (none, none)

def runWatchdog (now : ℕ) : Run WatchdogReport := do
  let blind ← paging (Paging.readBlind cfg.paging)
  let s ← runChecks cfg now blind
  -- A halt whose key could not be read before is a new one.
  let freshHalt := s.halt.autoHalted && s.halt.before ≠ some (some true)
  let s ← reportHalt cfg s
  let report ← paging (Paging.saveBlind cfg.paging blind s.report)
  let alerts := report.alerts ++ if cfg.paging.configured then [] else [cfg.paging.cannotDeliver]
  paging (Paging.deliver cfg.paging now freshHalt alerts)
  let (lastRun, lastFullRun) ← heartbeat cfg now s.checked
  return ⟨s.checked, alerts, cfg.paging.missing, s.halt.autoHalted, lastRun, lastFullRun⟩

end

end Lumenia.Sponsor.Watchdog.Tripwires
