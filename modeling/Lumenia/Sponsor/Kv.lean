import Lumenia.Theory.Threads
import Lumenia.Theory.Meter
import Mathlib.Data.Option.Basic

/-!
# The shared key-value store of the sponsor service

The commands `apps/sponsor/src/lib/caps.ts` sends to its Redis-style store, each atomic on its own,
and the pipelines they travel in. Beside the keys, the model keeps what each request has added to
each counter (`Store.booked`), so that statements can speak of it.

Counters are not bounded to 64 bits, and nothing expires: the keys of a day outlive it.
-/

namespace Lumenia.Sponsor

inductive Val
  | int (n : ℤ)
  | str (s : String)
  deriving DecidableEq

abbrev Kv := String → Option Val

/-- The condition of a `SET`. -/
inductive SetIf
  | XX
  | NX
  deriving DecidableEq

inductive Cmd
  | incrby (key : String) (delta : ℤ)
  | expire (key : String) (ttl : String)
  | get (key : String)
  | set (key value : String) (cond : SetIf) (ttl : String)
  /-- `EVAL` of `FENCED_SLOT_RELEASE`. -/
  | fencedSlotRelease (marker source day token : String)
  deriving DecidableEq

/-- A JSON result. A stored integer reads the same as number and as text. -/
inductive Result
  | null
  | int (n : ℤ)
  | str (s : String)
  deriving DecidableEq

structure KvReply where
  result : Option Result
  error : Option String
  deriving DecidableEq

namespace KvReply

def of (r : Result) : KvReply := ⟨some r, none⟩

def err (msg : String) : KvReply := ⟨none, some msg⟩

/-- `reply.error` is truthy. -/
def failed (r : KvReply) : Bool := r.error.any (· ≠ "")

@[simp] theorem failed_of {r : Result} : (of r).failed = false := rfl

@[simp] theorem result_of {r : Result} : (of r).result = some r := rfl

end KvReply

/-! ## Commands -/

namespace Kv

/-- The number a key counts, zero where it holds none. -/
def count (kv : Kv) (key : String) : ℤ :=
  match kv key with
  | some (.int n) => n
  | _ => 0

/-- The key after `INCRBY`, with the new total; refused where it holds text. -/
def incr (kv : Kv) (key : String) (delta : ℤ) : Option (Kv × ℤ) :=
  match kv key with
  | some (.str _) => none
  | _ => some (Function.update kv key (some (.int (kv.count key + delta))), kv.count key + delta)

def ofVal : Option Val → Result
  | none => .null
  | some (.int n) => .int n
  | some (.str s) => .str s

end Kv

/-- The keys, and what each client has added to each counter. -/
structure Store (ι : Type) where
  kv : Kv
  booked : ι → String → ℤ

namespace Store

variable {ι : Type} [DecidableEq ι]

def empty : Store ι := ⟨fun _ => none, fun _ _ => 0⟩

/-- One `INCRBY` for the client `i`. -/
def add (s : Store ι) (i : ι) (key : String) (delta : ℤ) : Option (Store ι × ℤ) :=
  (s.kv.incr key delta).map fun (kv, n) =>
    (⟨kv, Function.update s.booked i (Function.update (s.booked i) key (s.booked i key + delta))⟩, n)

def notInteger : KvReply := .err "ERR value is not an integer or out of range"

/-- The counters of a slot, each one lower, as the script of `FENCED_SLOT_RELEASE` leaves them. -/
def releaseSlot (s : Store ι) (i : ι) (source day : String) : Store ι × KvReply :=
  match s.add i source (-1) with
  | none => (s, notInteger)
  | some (s, _) =>
    match s.add i day (-1) with
    | none => (s, notInteger)
    | some (s, _) => (s, .of (.int 1))

/-- One command of the client `i`. -/
def exec (i : ι) : Cmd → Store ι → Store ι × KvReply
  | .incrby key delta, s =>
    match s.add i key delta with
    | none => (s, notInteger)
    | some (s, n) => (s, .of (.int n))
  | .expire key _, s => (s, .of (.int (if (s.kv key).isSome then 1 else 0)))
  | .get key, s => (s, .of (Kv.ofVal (s.kv key)))
  | .set key value cond _, s =>
    if (s.kv key).isSome = decide (cond = .XX) then
      ({ s with kv := Function.update s.kv key (some (.str value)) }, .of (.str "OK"))
    else (s, .of .null)
  | .fencedSlotRelease marker source day token, s =>
    if s.kv marker = some (.str token) then
      releaseSlot { s with kv := Function.update s.kv marker none } i source day
    else (s, .of (.int 0))

end Store

/-! ## Pipelines -/

/-- What can become of the replies to a pipeline that the store has executed. -/
inductive Fault
  | intact
  | lost (msg : String)
  | short (n : ℕ)
  | damaged (bad : ℕ → Bool) (msg : String)

def Fault.deliver : Fault → List KvReply → Except String (List KvReply)
  | .intact, rs => .ok rs
  | .lost msg, _ => .error msg
  | .short n, rs => .ok (rs.take n)
  | .damaged bad msg, rs => .ok (rs.mapIdx fun n r => if bad n then .err ("ERR " ++ msg) else r)

/-- Steps of these clients, with every reply intact. -/
def reliably {ι : Type} (schedule : List ι) : List (ι × Fault) := schedule.map (·, .intact)

theorem intact_of_mem_reliably {ι : Type} (schedule : List ι) :
    ∀ e ∈ reliably schedule, e.2 = .intact := by
  intro e he
  obtain ⟨i, -, rfl⟩ := List.mem_map.mp he
  rfl

/-- A reply that arrives without an error is the store's own. -/
theorem Fault.reply_of_deliver {f : Fault} {rs out : List KvReply} (h : f.deliver rs = .ok out)
    {n : ℕ} {r : KvReply} (hr : out[n]? = some r) (hok : r.failed = false) : rs[n]? = some r := by
  cases f with
  | intact =>
    cases h
    exact hr
  | lost => cases h
  | short m =>
    cases h
    rw [List.getElem?_take] at hr
    split at hr
    · exact hr
    · cases hr
  | damaged bad msg =>
    cases h
    rw [List.getElem?_mapIdx, Option.map_eq_some_iff] at hr
    obtain ⟨r', hr', heq⟩ := hr
    split at heq
    · subst heq
      simp [KvReply.failed, KvReply.err] at hok
    · rw [hr', heq]

def backend (ι : Type) [DecidableEq ι] : Backend ι Cmd KvReply (Store ι) Fault where
  exec := Store.exec
  deliver := Fault.deliver

/-- A program of the service: `M` is the memory of its isolate, `ε` what it shows. -/
abbrev Task (M ε α : Type) := Prog Cmd KvReply M ε α

/-- A synchronous stretch of code over the memory of the process. -/
def atomically {M ε α : Type} (f : M → M × α) : Task M ε α :=
  .mem (fun m => (f m).1) fun m => .ret (f m).2

section

variable {M ε : Type}

/-- One `/pipeline` round trip: the commands in order, the replies in the same order, or the text of
the failure that `fetch` throws. -/
def pipeline (cmds : List Cmd) : Task M ε (Except String (List KvReply)) := .pipe cmds [] .ret

def dayKeyTtlSeconds : String := "172800"

/-- The INCRBY + EXPIRE pair every counter here is moved with. -/
def incrCmds (key : String) (delta : ℤ) : List Cmd :=
  [.incrby key delta, .expire key dayKeyTtlSeconds]

/-- `BigInt(String(result))` -/
def bigInt : Option Result → Except String ℤ
  | some (.int n) => .ok n
  | some .null => .error "Cannot convert null to a BigInt"
  | some (.str s) => .error ("Cannot convert " ++ s ++ " to a BigInt")
  | none => .error "Cannot convert undefined to a BigInt"

/-- The result of the `n`-th reply, unless the reply is missing or an error. -/
def answered (results : Except String (List KvReply)) (n : ℕ) : Option (Option Result) :=
  match results with
  | .error _ => none
  | .ok rs => (rs[n]?).bind fun r => if r.failed then none else some r.result

/-- One INCRBY reply of a pipeline result. -/
def incrTotal (reply : Option KvReply) : Except String ℤ :=
  match reply with
  | none => .error "caps store error: undefined"
  | some incr =>
    if incr.failed then .error ("caps store error: " ++ incr.error.getD "undefined")
    else bigInt incr.result

/-- The INCRBY replies of a pipeline result, one per key, starting at `offset`. -/
def incrTotals (results : List KvReply) : List String → ℕ → Except String (List ℤ)
  | [], _ => .ok []
  | _ :: keys, offset => do
    let n ← incrTotal results[offset]?
    let ns ← incrTotals results keys (offset + 2)
    return n :: ns

/-- Add to every given counter in one pipeline and return each key's new total. -/
def addToDays (keys : List String) (deltaStroops : ℤ) : Task M ε (Except String (List ℤ)) := do
  let results ← pipeline (keys.flatMap fun key => incrCmds key deltaStroops)
  return results.bind fun results => incrTotals results keys 0

end

end Lumenia.Sponsor
