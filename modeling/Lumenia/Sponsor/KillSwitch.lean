import Lumenia.Sponsor.Proofs
import Lumenia.Theory.Cells

/-!
# The kill switch

The halt of a network's sponsor as one isolate knows it (`apps/sponsor/src/lib/kill-switch.ts`): the
verdict it keeps for some seconds, the read of the store that is in flight and shared, and the writes
of a halt and of its end. What a call does between two of its waits is one step. The commands of a
pipeline are executed one by one, and those of others may come between them.
-/

namespace Lumenia.Sponsor.KillSwitch

open Dialogue
open Proofs (NetworkId)

def cacheMs : ℕ := 5000

def readTimeoutMs : ℕ := 2000

inductive HaltSource
  | env
  | store
  | storeLegacy
  deriving DecidableEq

structure HaltVerdict where
  halted : Bool
  source : Option HaltSource
  reason : Option String
  deriving DecidableEq

/-- What is said where nothing is known: a read that fails, fails open. -/
def HaltVerdict.none : HaltVerdict := ⟨false, Option.none, Option.none⟩

inductive Key
  | halt (network : NetworkId)
  /-- The older key, of both networks. -/
  | legacy
  | reason (network : NetworkId)
  deriving DecidableEq

def Key.text : Key → String
  | halt network => "sponsor:halt:" ++ network.text
  | legacy => "sponsor:halt"
  | reason network => "sponsor:halt:" ++ network.text ++ ":reason"

abbrev Command := Cells.Command fun _ : Key => String

/-- What a call finds in its isolate. -/
inductive Found
  | hit (verdict : HaltVerdict)
  /-- A read is in flight. -/
  | pending (read : ℕ)
  /-- None is, and this call starts one. -/
  | started (read startedAt now : ℕ)

/-- What a call waits for, or does to its isolate. -/
inductive Ask
  | run (command : Command)
  | now
  | look (network : NetworkId)
  /-- Wait for a read that another call has started. -/
  | join (read : ℕ)
  /-- The verdict of a read, which is cached unless one was written meanwhile. -/
  | settle (network : NetworkId) (startedAt : ℕ) (verdict : HaltVerdict) (now : ℕ)
  /-- The read is in flight no longer, and those who wait for it have its verdict. -/
  | unlist (network : NetworkId) (read : ℕ) (verdict : HaltVerdict)
  | setCached (network : NetworkId) (stamped : String)
  | deleteCached (network : NetworkId)

/-- A command that throws has its error as an answer. -/
abbrev Ask.Answer : Ask → Type
  | run command => Except String command.Answer
  | now => ℕ
  | look _ => Found
  | join _ => HaltVerdict
  | settle .. | unlist .. | setCached .. | deleteCached _ => Unit

abbrev Call := Dialogue Ask.Answer String

abbrev ask (q : Ask) : Call q.Answer := question q

abbrev send (command : Command) : Call (Except String command.Answer) := ask (.run command)

def orThrow {α : Type} : Except String α → Call α
  | .ok a => pure a
  | .error message => throw message

structure Env where
  /-- `SPONSOR_HALT=1` -/
  sponsorHalt : Bool
  /-- `kvConfigFromEnv` finds a store. -/
  kv : Bool
  toISOString : ℕ → String

/-- Both keys and the reason, in one round trip. -/
def readHalt (network : NetworkId) : Call HaltVerdict := do
  let ofNetwork ← send (.get (.halt network))
  let legacy ← send (.get .legacy)
  let reason ← send (.get (.reason network))
  let ofNetwork ← orThrow ofNetwork
  let legacy ← orThrow legacy
  let reason ← orThrow reason
  if ofNetwork = some "1" then return ⟨true, some .store, reason⟩
  else if legacy = some "1" then return ⟨true, some .storeLegacy, none⟩
  else return .none

/-- Two commands in one round trip, whose results are not used. -/
def pipe (first second : Command) : Call Unit := do
  let a ← send first
  let b ← send second
  let _ ← orThrow a
  let _ ← orThrow b
  return ()

section

variable (env : Env)

def haltStatus (network : NetworkId) : Call HaltVerdict :=
  if env.sponsorHalt then
    return ⟨true, some .env, some "SPONSOR_HALT=1 in the Worker environment"⟩
  else if env.kv = false then return .none
  else do
    let found ← ask (.look network)
    match found with
    | .hit verdict => return verdict
    | .pending read => ask (.join read)
    | .started read startedAt now => do
      let verdict ← tryCatch (readHalt network) fun _ => return .none
      ask (.settle network startedAt verdict now)
      ask (.unlist network read verdict)
      return verdict

def setHalt (network : NetworkId) (reason : String) : Call Bool :=
  if env.kv = false then return false
  else do
    let now ← ask .now
    let stamped := env.toISOString now ++ " " ++ reason
    pipe (.set (.halt network) "1" none) (.set (.reason network) stamped none)
    ask (.setCached network stamped)
    return true

def clearHalt (network : NetworkId) : Call Bool :=
  if env.kv = false then return false
  else do
    pipe (.del (.halt network)) (.del (.reason network))
    ask (.deleteCached network)
    return true

end

/-! ## The isolate -/

/-- A read of the store, a promise. -/
structure Read where
  network : NetworkId
  /-- The generation and the time at which it was started. -/
  startedAt : ℕ
  clock : ℕ
  /-- How much had happened then. -/
  begun : ℕ
  verdict : Option HaltVerdict

/-- A halt of the network was written, or taken away. -/
structure Effect where
  network : NetworkId
  halts : Bool
  deriving DecidableEq

/-- The isolate, with the clock and the store, and a record of the writes: when a command of one was
executed, and when it was over. -/
structure World where
  now : ℕ
  cells : Cells fun _ : Key => String
  cache : NetworkId → Option (HaltVerdict × ℕ)
  inflight : NetworkId → Option ℕ
  generation : ℕ
  reads : ℕ → Option Read
  made : ℕ
  log : List Effect

namespace World

variable (w : World)

/-- A read leaves. -/
def leave (network : NetworkId) : World :=
  { w with
    inflight := Function.update w.inflight network (some w.made)
    reads := Function.update w.reads w.made (some ⟨network, w.generation, w.now, w.log.length, none⟩)
    made := w.made + 1 }

/-- A verdict that is fresh enough, else the read in flight, else a new one. -/
def look (network : NetworkId) : Found × World :=
  match (w.cache network).filter fun hit => w.now < hit.2 + cacheMs with
  | some (verdict, _) => (.hit verdict, w)
  | none =>
    match w.inflight network with
    | some read => (.pending read, w)
    | none => (.started w.made w.generation w.now, w.leave network)

/-- A verdict that was written while the read was out wins. -/
def settle (network : NetworkId) (startedAt : ℕ) (verdict : HaltVerdict) (now : ℕ) : World :=
  if w.generation = startedAt then
    { w with cache := Function.update w.cache network (some (verdict, now)) }
  else w

def unlist (network : NetworkId) (read : ℕ) (verdict : HaltVerdict) : World :=
  { w with
    inflight := Function.update w.inflight network none
    reads := Function.update w.reads read
      ((w.reads read).map fun r => { r with verdict := some verdict }) }

/-- A write of this isolate is over: no read that was started before is cached any more. -/
def written (network : NetworkId) (halts : Bool) (entry : Option (HaltVerdict × ℕ)) : World :=
  { w with
    generation := w.generation + 1
    cache := Function.update w.cache network entry
    log := w.log ++ [⟨network, halts⟩] }

def setCached (network : NetworkId) (stamped : String) : World :=
  w.written network true (some (⟨true, some .store, some stamped⟩, w.now))

def deleteCached (network : NetworkId) : World := w.written network false none

/-- What a command that is executed leaves, and the record of it. -/
def run (c : Command) : World :=
  { w with
    cells := (w.cells.exec w.now c).2
    log := w.log ++ match c with
      | .set (.halt network) v _ => [⟨network, v = "1"⟩]
      | .del (.halt network) => [⟨network, false⟩]
      | _ => [] }

/-- The verdict of a read. -/
def verdictOf (read : ℕ) : Option HaltVerdict := (w.reads read).bind Read.verdict

end World

/-- The fate of a command is the surroundings' choice. -/
def react (fate : Cells.Fate) (w : World) : (q : Ask) → q.Answer × World
  | .run c => ((fate.exec w.now w.cells c).1, if fate.executes then w.run c else w)
  | .now => (w.now, w)
  | .look network => w.look network
  | .join read => ((w.verdictOf read).getD .none, w)
  | .settle network startedAt verdict now => ((), w.settle network startedAt verdict now)
  | .unlist network read verdict => ((), w.unlist network read verdict)
  | .setCached network stamped => ((), w.setCached network stamped)
  | .deleteCached network => ((), w.deleteCached network)

end Lumenia.Sponsor.KillSwitch
