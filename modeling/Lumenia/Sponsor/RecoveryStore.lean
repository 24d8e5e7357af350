import Lumenia.Theory.Chronicle
import Lumenia.Theory.Json
import Lumenia.Theory.Parallel
import Lumenia.Sponsor.Kv

/-!
# The store behind the recovery routes

What `apps/sponsor/src/lib/recovery-otp.ts` and `recovery-store.ts` keep in a configured key-value
store, and the questions a call puts to it and to the rest of its surroundings. Each command is
atomic on its own, and calls meet in any order. A key holds values of one kind, so their JSON texts
are left out; what was stored with an expiry may vanish at any moment.

Beside the keys the model keeps who mailed the code under a key and who minted a ticket, and a
journal of what the calls have done, so that statements can speak of it.
-/

namespace Lumenia.Sponsor.Recovery

open Dialogue

structure OtpRecord where
  codeHash : String
  exp : ℕ
  tries : ℕ
  deriving DecidableEq

/-- A `RecoveryBox`, as text. -/
abbrev Box := String

structure StoredRow where
  box : Box
  proofHash : Option String
  ownerHash : Option String
  deriving DecidableEq

inductive Key
  | otp (id : String)
  | email (id : String)
  | pk (id : String)
  | ticket (ticket : String)
  deriving DecidableEq

abbrev Key.Entry : Key → Type
  | otp _ => OtpRecord
  | email _ | pk _ => StoredRow
  | ticket _ => String

inductive Counter
  | otpreq (id : String)
  | otptry (id : String)
  deriving DecidableEq

/-- The key itself, a text. -/
def Key.text : Key → String
  | otp id => "lumenia:recovery-otp:" ++ id
  | email id => "lumenia:recovery:" ++ id
  | pk id => "lumenia:recovery-pk:" ++ id
  | ticket t => "lumenia:recovery-ticket:" ++ t

def Counter.text : Counter → String
  | otpreq id => "lumenia:recovery-otpreq:" ++ id
  | otptry id => "lumenia:recovery-otptry:" ++ id

inductive OtpPurpose
  | recovery
  | pilot

/-- What a call waits for, or reads. -/
inductive Ask
  | get (key : Key)
  | set (key : Key) (value : key.Entry) (ex : Option ℕ)
  | del (key : Key)
  /-- The pipeline of one `GETDEL`. -/
  | getdel (ticket : String)
  /-- The pipeline of `INCR` and `EXPIRE … NX`. -/
  | incr (counter : Counter) (windowSec : ℕ)
  /-- The pipeline of one `SET … NX EX`, under `lumenia:handle-proof:`. -/
  | setNx (proofHash : String) (ex : ℕ)
  /-- Compare a code with a record, and keep a note that it was done. -/
  | compare (id code codeHash : String)
  | now
  | sixDigit
  | randomHex
  | sendCodeEmail (email code : String) (purpose : OtpPurpose)
  | enforceRateLimit

/-- What a step that throws has to say comes as an error. -/
abbrev Ask.Answer : Ask → Type
  | get key => Except String (Option key.Entry)
  | set .. | del _ | sendCodeEmail .. => Except String Unit
  | getdel _ | incr .. | setNx .. => Except String (List KvReply)
  | compare .. => Bool
  | now => ℕ
  | sixDigit | randomHex => String
  | enforceRateLimit => Option String

inductive Thrown
  | error (message : String)
  | publicRefusal (message : String) (code : Option String)
  | otpBudgetExceeded
  | otpCheckUnavailable
  | backupConflict (unbound : Bool) (box : Box)
  deriving DecidableEq

abbrev Call := Dialogue Ask.Answer Thrown

abbrev ask (q : Ask) : Call q.Answer := Dialogue.question q

/-- Wait for an answer, and throw where there is none. -/
def orThrow {α : Type} : Except String α → Call α
  | .ok a => pure a
  | .error message => throw (.error message)

/-! ## The journal -/

/-- What a call has done. A verification is charged to a window of the budget of its id, as the
`n`-th of it. -/
inductive Event (ι : Type)
  | issued (i : ι) (id : String)
  /-- A wrong guess at a code that `issuer` had mailed was written back. -/
  | missed (i : ι) (id : String) (issuer : Option ι)
  /-- The record of a code was read. -/
  | saw (i : ι) (id : String) (record : OtpRecord) (issuer : Option ι)
  | compared (i : ι) (id : String) (equal : Bool) (window : ℕ)
  /-- The code that the call had read and found equal was consumed. -/
  | accepted (i : ι) (id : String) (issuer : Option ι)
  | charged (i : ι) (id : String) (window n : ℕ)
  /-- No count came back for the verify budget; `told` where the call is told so. -/
  | unread (i : ι) (id : String) (told : Bool)
  | readRow (i : ι) (id : String) (row : Option StoredRow)
  | wroteRow (i : ι) (id : String) (row : StoredRow)
  | deletedRow (i : ι) (id : String)
  | minted (i : ι) (ticket id : String)
  /-- A ticket that `minter` had minted for `id` was read and deleted. -/
  | took (i : ι) (ticket id : String) (minter : Option ι)
  deriving DecidableEq

def Event.actor {ι : Type} : Event ι → ι
  | issued i _ | missed i _ _ | saw i _ _ _ | compared i _ _ _ | accepted i _ _ | charged i _ _ _
  | unread i _ _ | readRow i _ _ | wroteRow i _ _ | deletedRow i _ | minted i _ _ | took i _ _ _ => i

/-- What `i` has done so far. -/
def deeds {ι : Type} [DecidableEq ι] (i : ι) (journal : List (Event ι)) : List (Event ι) :=
  journal.filter fun e => e.actor = i

/-- The record of a code that was read last. -/
def lastSeen {ι : Type} (events : List (Event ι)) : Option (OtpRecord × Option ι) :=
  events.reverse.findSome? fun
    | .saw _ _ record issuer => some (record, issuer)
    | _ => none

/-- The last comparison found the code equal. -/
def matched {ι : Type} (events : List (Event ι)) : Bool :=
  (events.reverse.findSome? fun
    | .compared _ _ equal _ => some equal
    | _ => none) = some true

/-- The email row that was read last. -/
def lastRow {ι : Type} (events : List (Event ι)) : Option (Option StoredRow) :=
  events.reverse.findSome? fun
    | .readRow _ _ row => some row
    | _ => none

/-! ## The store -/

structure World (ι : Type) where
  held : (key : Key) → Option key.Entry
  count : Counter → ℕ
  usedProof : String → Bool
  /-- How often the verify budget of an id has expired. -/
  window : String → ℕ
  issuer : String → Option ι
  minter : String → Option ι
  journal : List (Event ι)

namespace World

variable {ι : Type} [DecidableEq ι]

def empty : World ι := ⟨fun _ => none, fun _ => 0, fun _ => false, fun _ => 0, fun _ => none, fun _ => none, []⟩

def log (w : World ι) (e : Event ι) : World ι := { w with journal := w.journal ++ [e] }

def put (w : World ι) (key : Key) (value : Option key.Entry) : World ι :=
  { w with held := Function.update w.held key value }

/-- `SET` -/
def store (w : World ι) (i : ι) : (key : Key) → key.Entry → World ι
  | .otp id, record =>
    match lastSeen (deeds i w.journal) with
    | none =>
      { (w.put (.otp id) (some record)).log (.issued i id) with
        issuer := Function.update w.issuer id (some i) }
    | some (_, issuer) =>
      { (w.put (.otp id) (some record)).log (.missed i id issuer) with
        issuer := Function.update w.issuer id issuer }
  | .email id, row => (w.put (.email id) (some row)).log (.wroteRow i id row)
  | .pk id, row => w.put (.pk id) (some row)
  | .ticket t, id =>
    { (w.put (.ticket t) (some id)).log (.minted i t id) with
      minter := Function.update w.minter t (some i) }

/-- `DEL` -/
def remove (w : World ι) (i : ι) : Key → World ι
  | .email id => (w.put (.email id) none).log (.deletedRow i id)
  | key => w.put key none

/-- The note of a `GET`. -/
def look (w : World ι) (i : ι) : Key → World ι
  | .otp id =>
    match w.held (.otp id) with
    | none => w
    | some record => w.log (.saw i id record (w.issuer id))
  | .email id => w.log (.readRow i id (w.held (.email id)))
  | _ => w

/-- The code of a call that found it equal is accepted, whether or not its deletion succeeds. -/
def judge (w : World ι) (i : ι) : Key → World ι
  | .otp id =>
    if matched (deeds i w.journal) then
      w.log (.accepted i id ((lastSeen (deeds i w.journal)).bind Prod.snd))
    else w
  | _ => w

/-- `GETDEL` -/
def take (w : World ι) (i : ι) (t : String) : World ι :=
  match w.held (.ticket t) with
  | none => w
  | some id => (w.put (.ticket t) none).log (.took i t id (w.minter t))

/-- `INCR` -/
def increment (w : World ι) (i : ι) : Counter → World ι
  | .otpreq id =>
    { w with count := Function.update w.count (.otpreq id) (w.count (.otpreq id) + 1) }
  | .otptry id =>
    { w with count := Function.update w.count (.otptry id) (w.count (.otptry id) + 1) }.log
      (.charged i id (w.window id) (w.count (.otptry id) + 1))

/-- The note that the verify budget could not be read. -/
def miscount (w : World ι) (i : ι) (told : Bool) : Counter → World ι
  | .otpreq _ => w
  | .otptry id => w.log (.unread i id told)

/-- A key expires. -/
inductive Expires : World ι → World ι → Prop
  | otp {w : World ι} {id : String} : Expires w (w.put (.otp id) none)
  | ticket {w : World ι} {t : String} : Expires w (w.put (.ticket t) none)
  | otpreq {w : World ι} {id : String} :
    Expires w { w with count := Function.update w.count (.otpreq id) 0 }
  | otptry {w : World ι} {id : String} :
    Expires w { w with
      count := Function.update w.count (.otptry id) 0
      window := Function.update w.window id (w.window id + 1) }
  | proof {w : World ι} {h : String} :
    Expires w { w with usedProof := Function.update w.usedProof h false }

end World

/-! ## Answers -/

/-- What becomes of a step: whether its command is executed, what is thrown, and the entries that
stand in a pipeline's answer in place of the store's. The rest is what is drawn or read. -/
structure Chance where
  executed : Bool
  failure : Option String
  garbled : Option (List KvReply)
  now : ℕ
  text : String
  limited : Option String
  deriving DecidableEq

namespace Chance

/-- All goes well. -/
def fine : Chance := ⟨true, none, none, 0, "", none⟩

def reply {α : Type} (d : Chance) (a : α) : Except String α :=
  match d.failure with
  | some message => .error message
  | none => .ok a

def replies (d : Chance) (rs : List KvReply) : Except String (List KvReply) :=
  d.reply (d.garbled.getD rs)

/-- The first entry is missing or an error. -/
def bad (rs : List KvReply) : Bool :=
  match rs with
  | [] => true
  | r :: _ => r.failed

/-- A command that is not executed has no good answer; garbled entries lack the first result. -/
def fair (d : Chance) : Ask → Bool
  | .getdel _ | .incr .. | .setNx .. =>
    (d.executed || d.failure.isSome || d.garbled.isSome) && d.garbled.all bad
  | _ => d.executed || d.failure.isSome

/-- The answer that arrives holds what the store said. -/
def clear (d : Chance) : Bool := d.failure.isNone && d.garbled.isNone

end Chance

/-- `timingSafeEqualHex` -/
def timingSafeEqualHex (a b : String) : Bool :=
  a.length = b.length &&
    (a.toList.zip b.toList).foldl (fun diff (x, y) => diff ||| (x.toNat ^^^ y.toNat)) 0 = 0

section

variable {ι : Type} [DecidableEq ι] (sha256Hex : String → String)

def ofOption : Option String → Result
  | none => .null
  | some s => .str s

/-- The answer to the call `i`, and the world it leaves. -/
def react (i : ι) (d : Chance) (w : World ι) : (q : Ask) → q.Answer × World ι
  | .get key => (d.reply (w.held key), w.look i key)
  | .set key value _ => (d.reply (), if d.executed then w.store i key value else w)
  | .del key =>
    (d.reply (), if d.executed then (w.judge i key).remove i key else w.judge i key)
  | .getdel t => (d.replies [.of (ofOption (w.held (.ticket t)))], if d.executed then w.take i t else w)
  | .incr c _ =>
    let w' := if d.executed then w.increment i c else w
    (d.replies [.of (.int (w.count c + 1)), .of (.int 1)], if d.clear then w' else w'.miscount i d.failure.isSome c)
  | .setNx h _ =>
    (d.replies [.of (if w.usedProof h then .null else .str "OK")],
      if d.executed then { w with usedProof := Function.update w.usedProof h true } else w)
  | .compare id code codeHash =>
    let equal := timingSafeEqualHex (sha256Hex (id ++ ":" ++ code)) codeHash
    (equal, w.log (.compared i id equal (w.window id)))
  | .now => (d.now, w)
  | .sixDigit | .randomHex => (d.text, w)
  | .sendCodeEmail .. => (d.reply (), w)
  | .enforceRateLimit => (d.limited, w)

/-- What is asked of the steps of a run beside fairness: of the call, its chance, the world before
and the question. -/
abbrev Condition (ι : Type) := ι → Chance → World ι → Ask → Prop

def Condition.none : Condition ι := fun _ _ _ _ => True

/-- Any step of the call `i` that meets the condition. -/
def Steps (met : Condition ι) (i : ι) (w : World ι) (q : Ask) (a : q.Answer) (w' : World ι) : Prop :=
  ∃ d : Chance, d.fair q = true ∧ met i d w q ∧ react sha256Hex i d w q = (a, w')

end

end Lumenia.Sponsor.Recovery
