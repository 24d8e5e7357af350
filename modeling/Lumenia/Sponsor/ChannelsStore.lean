import Lumenia.Sponsor.Channels

/-!
# Leases in time

What the requests of `Sponsor.Channels` meet: one store of leases whose keys expire, one clock, and a
ledger that takes a transaction up to its `maxTime`. Each command is atomic on its own and requests
meet in any order; a pause may end at any moment.

Beside the keys the world keeps every lease that was granted, every release that reached the store,
and the transaction of each request.
-/

namespace Lumenia.Sponsor.Channels

open Dialogue

/-- A lease that the store has granted, from when until when, in milliseconds. -/
structure Grant where
  key : String
  token : String
  granted : ℕ
  expiry : ℕ
  deriving DecidableEq

/-- A transaction built on a channel. -/
structure Tx where
  lease : ChannelLease
  /-- In seconds, as the ledger counts them. -/
  maxTime : ℕ
  /-- It has left the service. -/
  sent : Bool
  /-- What the network knows it by, where the service sent it itself. -/
  hash : Option String
  /-- The ledger has included it. -/
  included : Bool
  deriving DecidableEq

structure World (ι : Type) where
  now : ℕ
  /-- The request that drew a token. -/
  owner : String → Option ι
  held : String → Option (String × ℕ)
  grants : List Grant
  released : List (ι × String)
  tx : ι → Option Tx
  /-- How often the ledger was asked for the transaction of a request. -/
  reads : ι → ℕ

/-- The network may still include it. -/
structure Tx.Open {ι : Type} (w : World ι) (tx : Tx) : Prop where
  sent : tx.sent = true
  undecided : tx.included = false
  valid : w.now / 1000 ≤ tx.maxTime

/-- A lease that has not expired and that its holder has not released. -/
structure Live {ι : Type} (w : World ι) (g : Grant) : Prop where
  granted : g ∈ w.grants
  unexpired : w.now < g.expiry
  kept : ∀ i, (i, g.token) ∉ w.released

namespace World

variable {ι : Type} [DecidableEq ι]

def empty : World ι :=
  ⟨0, fun _ => none, fun _ => none, [], [], fun _ => none, fun _ => 0⟩

/-- What a key holds; an expired key holds nothing. -/
def holder (w : World ι) (key : String) : Option (String × ℕ) :=
  (w.held key).filter fun held => w.now < held.2

def grant (w : World ι) (key token : String) (ttlSeconds : ℕ) : World ι :=
  let expiry := w.now + ttlSeconds * 1000
  { w with
    held := Function.update w.held key (some (token, expiry))
    grants := w.grants ++ [⟨key, token, w.now, expiry⟩] }

/-- One command of the request `i`. -/
def exec (w : World ι) (i : ι) : LeaseCmd → Result × World ι
  | .setNx key token ttlSeconds =>
    match w.holder key with
    | some _ => (.null, w)
    | none => (.str "OK", w.grant key token ttlSeconds)
  | .acquireAny keys token ttlSeconds =>
    match keys.findIdx? fun key => (w.holder key).isNone with
    | none => (.int 0, w)
    | some n => (.int (n + 1), w.grant (keys.getD n "") token ttlSeconds)
  | .fencedDel key token =>
    let w' := { w with released := w.released ++ [(i, token)] }
    if (w.holder key).map Prod.fst = some token then
      (.int 1, { w' with held := Function.update w.held key none })
    else (.int 0, w')

def build (w : World ι) (i : ι) (l : ChannelLease) (timeoutSeconds : ℕ) : World ι :=
  { w with tx := Function.update w.tx i (some ⟨l, w.now / 1000 + timeoutSeconds, false, none, false⟩) }

/-- The transaction leaves the service. -/
def send (w : World ι) (i : ι) (hash : Option String) : World ι :=
  { w with
    tx := Function.update w.tx i ((w.tx i).map fun tx => { tx with sent := true, hash := hash }) }

def read (w : World ι) (i : ι) : World ι :=
  { w with reads := Function.update w.reads i (w.reads i + 1) }

/-- What happens by itself: time goes by, and the ledger includes a transaction. -/
inductive Stirs : World ι → World ι → Prop
  | time {w : World ι} {now : ℕ} (h : w.now ≤ now) : Stirs w { w with now := now }
  | included {w : World ι} {i : ι} {tx : Tx} (h : w.tx i = some tx) (hsent : tx.sent = true) :
    Stirs w { w with tx := Function.update w.tx i (some { tx with included := true }) }

end World

/-! ## Answers -/

/-- What becomes of a step: whether its command is executed, what is thrown or stands in a
pipeline's answer in place of the store's, and what is drawn or read. -/
structure Chance where
  executed : Bool
  failure : Option String
  garbled : Option (List KvReply)
  text : String
  order : List ℕ
  thrown : Option Thrown
  await : (q : Await) → q.Answer

namespace Chance

/-- The first entry is missing or an error. -/
def bad (replies : List KvReply) : Bool :=
  match replies with
  | [] => true
  | first :: _ => first.failed

def replies (d : Chance) (result : Result) : Except String (List KvReply) :=
  match d.failure with
  | some message => .error message
  | none => .ok (d.garbled.getD [.of result])

end Chance

/-- The RPC says that it has not queued what was sent. -/
def refusesSend : Except Thrown Sent → Bool
  | .error t => sendRefusedOutright t
  | .ok sent => sent.status = .ERROR || sent.status = .TRY_AGAIN_LATER

section

variable {ι : Type} [DecidableEq ι]

/-- A token is fresh, a command that is not executed has no good answer, and the RPC may throw what it
likes, but what it answers is of its documented kinds and true: a transaction is accepted under its
own hash, and reported as included only when the ledger has included it. -/
def fair (i : ι) (d : Chance) (w : World ι) : Ask → Bool
  | .randomUUID => (w.owner d.text).isNone
  | .pipeline _ => (d.executed || d.failure.isSome || d.garbled.isSome) && d.garbled.all Chance.bad
  | .await (.sendTransaction tx) =>
    match d.await (.sendTransaction tx) with
    | .error _ => true
    | .ok sent => refusesSend (.ok sent) || sent.hash = tx.hash
  | .await (.getTransaction hash) =>
    match d.await (.getTransaction hash) with
    | .error _ => true
    | .ok got =>
      got.status ≠ .other &&
        (!got.isIncluded || (w.tx i).all fun tx => tx.hash ≠ hash || tx.included)
  | _ => true

/-- The answer to the request `i`, and the world it leaves. -/
def react (i : ι) (d : Chance) (w : World ι) : (q : Ask) → q.Answer × World ι
  | .randomUUID => (d.text, { w with owner := Function.update w.owner d.text (some i) })
  | .pipeline cmd => (d.replies (w.exec i cmd).1, if d.executed then (w.exec i cmd).2 else w)
  | .memory cmd => w.exec i cmd
  | .shuffled n => (d.order.filterMap fun j => if h : j < n then some ⟨j, h⟩ else none, w)
  | .sleep _ => ((), w)
  | .loadAccount _ =>
    (match d.thrown with
    | some t => .error t
    | none => .ok (), w)
  | .build none _ | .handOut none => ((), w)
  | .build (some l) timeoutSeconds => ((), w.build i l timeoutSeconds)
  | .handOut (some _) => ((), w.send i none)
  | .await (.sendTransaction tx) =>
    (d.await (.sendTransaction tx),
      if refusesSend (d.await (.sendTransaction tx)) then w else w.send i tx.hash)
  | .await (.getTransaction hash) => (d.await (.getTransaction hash), w.read i)
  | .await q => (d.await q, w)

/-- What is asked of the steps of a run beside fairness: of the request, the world before, the
question and its answer. -/
abbrev Condition (ι : Type) := ι → World ι → (q : Ask) → q.Answer → Prop

def Condition.none : Condition ι := fun _ _ _ _ => True

/-- Any step of the request `i` that meets the condition. -/
def Steps (met : Condition ι) (i : ι) (w : World ι) (q : Ask) (a : q.Answer) (w' : World ι) : Prop :=
  ∃ d : Chance, fair i d w q = true ∧ met i w q a ∧ react i d w q = (a, w')

variable (met : Condition ι) (cfg : SponsorConfig) (channels : Option ChannelManager)
  (requests : ι → Request)

def opening : Crowd ι Ask.Answer Failure Served (World ι) :=
  ⟨World.empty, fun i => (requests i).serve cfg channels⟩

/-- Any run of the requests. -/
abbrev Run (x : Crowd ι Ask.Answer Failure Served (World ι)) : Prop :=
  Leads (Steps met) World.Stirs (opening cfg channels requests) x

end

end Lumenia.Sponsor.Channels
