import Lumenia.Sponsor.PilotStore

/-!
# The requests to join the pilot

Asks of the wallets and the owner's decisions, one after another or at once, over two keys of a wallet
that are written apart: the allowlist flag, and the record of where it stands. As long as what an ask
has read of its wallet is still so when it writes its "pending", and the flag that a revocation has
removed is still removed when it writes its "rejected", the state that is reported agrees with the flag
whenever no call is midway, and no ask changes a decision (`pilot_states_agree`). The ask that is not
signed does not look at the flag: for a wallet that was approved before there were records it makes the
two disagree (`legacy_wallet_set_back`).
-/

namespace Lumenia.Sponsor.Pilot.Requests

open Dialogue

/-! ## The calls -/

inductive Request
  /-- The ask of a page that does not sign. -/
  | start (pubkey email : String)
  | file (pubkey email : String) (src : Option PilotSource)
  | approve (pubkey : String)
  | reject (pubkey : String)
  | revoke (pubkey : String)
  deriving DecidableEq

namespace Request

def call (env : Env) : Request → Call Unit
  | start pubkey email => do
    let _ ← startPilotRequest env pubkey email
    return ()
  | file pubkey email src => do
    let _ ← filePilotRequest env pubkey email src
    return ()
  | approve pubkey => approvePilot pubkey
  | reject pubkey => rejectPilot pubkey
  | revoke pubkey => revokePilot env pubkey

/-- Made by a wallet, and not by the owner. -/
def isAsk : Request → Bool
  | start .. | file .. => true
  | approve _ | reject _ | revoke _ => false

end Request

/-- How far a call has come: what an ask has read of its wallet, and what of a decision is written. -/
inductive Progress
  | idle
  /-- The flag is set, and the record is not yet. -/
  | flagged (pubkey : String)
  /-- The record says "rejected", and the flag is not yet removed. -/
  | decided (pubkey : String)
  /-- The flag is removed by a revocation, the record of which comes after it. -/
  | cleared (pubkey : String)
  /-- The record is read. -/
  | asked (pubkey : String) (status : Option String)
  /-- The flag is read too. -/
  | compared (pubkey : String) (status appr : Option String)
  /-- A record that is no decision has come over one. -/
  | overruled
  deriving DecidableEq

namespace Progress

/-- What a command that is executed does to it. -/
def after : Progress → Command → Progress
  | idle, .set (.appr pubkey) _ _ => flagged pubkey
  | idle, .set (.status pubkey) v _ => if v = "rejected" then decided pubkey else idle
  | idle, .del (.appr pubkey) => cleared pubkey
  | flagged _, .set (.status _) _ _ => idle
  | decided _, .del (.appr _) => idle
  | p, _ => p

/-- What a read makes of it, which finds this value. -/
def reads : Progress → (k : Key) → Option k.Entry → Progress
  | idle, .status pubkey, status => asked pubkey status
  | asked pubkey status, .appr k, appr => if k = pubkey then compared pubkey status appr else asked pubkey status
  | p, _, _ => p

/-- Another command of this decision is to come. -/
def Midway (pubkey : String) (p : Progress) : Prop := p = flagged pubkey ∨ p = decided pubkey

end Progress

/-! ## What is stored -/

/-- The keys that a state is read from. -/
def decides : Key → Bool
  | .appr _ | .status _ | .revoked _ => true
  | _ => false

/-- A flag, or a record. -/
def states : Key → Bool
  | .appr _ | .status _ => true
  | _ => false

/-- What is read of a wallet. -/
def reading (s : Store) (pubkey : String) : Reading :=
  readState (s.cells.get s.now (.status pubkey)) (s.cells.get s.now (.appr pubkey))
    (s.cells.get s.now (.revoked pubkey))

/-- A store that nobody else touches answers, or does not. -/
def alone (s : Store) (q : Ask) (a : q.Answer) (s' : Store) : Prop := ∃ d, react d s q = (a, s')

theorem wp_get {s : Store} {α : Type} {k : Key} {f : Except String (Option k.Entry) → Call α}
    {post : Except String α → Store → Prop}
    (hf : ∀ a, (∀ v, a = .ok v → v = s.cells.get s.now k) → (f a).wp alone post s) :
    (send (.get k) >>= f).wp alone post s := by
  intro a s' h
  obtain ⟨d, heq⟩ := h
  obtain rfl : s = s' := react_get.symm.trans (congrArg Prod.snd heq)
  obtain rfl : (d.fate.exec s.now s.cells (.get k)).1 = a := congrArg Prod.fst heq
  apply hf _
  intro v hv
  cases hfate : d.fate with
  | done =>
    rw [hfate] at hv
    exact (Except.ok.inj hv).symm
  | lost message | failed message =>
    rw [hfate] at hv
    cases hv

/-- What is reported of a wallet, if anything, is what is read of it. -/
theorem pilotStatus_reports {env : Env} {s : Store} {pubkey : String} : (pilotStatus env pubkey).wp alone
    (fun r s' => s' = s ∧ ∀ status, r = .ok status → status = ⟨reading s pubkey, s.used pubkey, maxTx env⟩)
    s := by
  apply wp_get
  intro appr happr
  apply wp_get
  intro tx htx
  apply wp_get
  intro st hst
  apply wp_get
  intro revoked hrevoked
  cases appr with
  | error message => exact ⟨rfl, nofun⟩
  | ok appr =>
    cases tx with
    | error message => exact ⟨rfl, nofun⟩
    | ok tx =>
      cases st with
      | error message => exact ⟨rfl, nofun⟩
      | ok st =>
        cases revoked with
        | error message => exact ⟨rfl, nofun⟩
        | ok revoked =>
          refine ⟨rfl, fun status heq => (Except.ok.inj heq).symm.trans ?_⟩
          rw [reading, Store.used, ← happr _ rfl, ← htx _ rfl, ← hst _ rfl, ← hrevoked _ rfl]

/-- The allowlist flag, which the gate reads. -/
def flag (s : Store) (pubkey : String) : Bool := s.cells.get s.now (.appr pubkey) = some "1"

/-- The record, where it is one. -/
def recorded (s : Store) (pubkey : String) : Option PilotState :=
  (s.cells.get s.now (.status pubkey)).bind PilotState.ofText

/-- The flag is set, and the record says otherwise. -/
def Torn (s : Store) (pubkey : String) : Prop :=
  flag s pubkey = true ∧ ∃ r, recorded s pubkey = some r ∧ r ≠ .approved

/-- The wallet is approved, rejected or revoked. -/
def ruled (s : Store) (pubkey : String) : Bool :=
  (reading s pubkey).state = .approved || (reading s pubkey).state = .rejected

/-- The command stores a record. -/
def storesStatus (d : Chance) (s : Store) (pubkey : String) : Command → Bool
  | .set (.status k) _ _ => k = pubkey && d.fate.executes
  | .setNx (.status k) _ _ => k = pubkey && d.fate.executes && (s.cells.get s.now (.status k)).isNone
  | _ => false

/-- The command stores a record that is no decision over a decision. -/
def overrules (d : Chance) (s : Store) : Command → Bool
  | .set (.status k) v ttl => v ≠ "approved" && v ≠ "rejected" &&
    storesStatus d s k (.set (.status k) v ttl) && ruled s k
  | .setNx (.status k) v ttl => storesStatus d s k (.setNx (.status k) v ttl) && ruled s k
  | _ => false

def Progress.next (p : Progress) (d : Chance) (s : Store) : Ask → Progress
  | .run (.get k) => p.reads k (s.cells.get s.now k)
  | .run c => if overrules d s c then overruled else if d.fate.executes then p.after c else p
  | _ => p

def surroundings : Surroundings Ask.Answer Chance Store Progress := ⟨react, Progress.next⟩

/-- The wallet is as the ask has read it, or another ask has recorded it meanwhile. -/
def asRead (s : Store) : Progress → Bool
  | .asked pubkey status =>
    s.cells.get s.now (.status pubkey) = status || recorded s pubkey = some .pending
  | .compared pubkey status appr =>
    s.cells.get s.now (.status pubkey) = status && s.cells.get s.now (.appr pubkey) = appr
  | _ => true

/-- An ask that has not read the flag does not come to a wallet whose flag is set without a record. -/
def unflagged (s : Store) : Progress → Bool
  | .asked pubkey _ => (recorded s pubkey).isSome || flag s pubkey = false
  | _ => true

variable {ι : Type} {s s' : Store} {pubkey : String}

/-- What is asked of the steps of a run. -/
structure Careful (req : ι → Request) (i : ι) (d : Chance) (w : Tracked ι Store Progress) (q : Ask) :
    Prop where
  /-- The owner's commands are executed. -/
  owner : (req i).isAsk = false → d.fate.executes = true
  /-- An ask stores its record while its wallet is as it was read. -/
  undisturbed : ∀ c pubkey, q = .run c → storesStatus d w.shared pubkey c = true →
    asRead w.shared (w.calls i) = true
  unsigned : ∀ c pubkey, q = .run c → storesStatus d w.shared pubkey c = true →
    unflagged w.shared (w.calls i) = true
  /-- A revocation stores its record while the flag is as it has left it, or another decision is to come. -/
  revoked : ∀ c pubkey, w.calls i = .cleared pubkey → q = .run c →
    storesStatus d w.shared pubkey c = true →
      flag w.shared pubkey = false ∨ ∃ j, (w.calls j).Midway pubkey

theorem state_eq_approved_iff :
    (reading s pubkey).state = .approved ↔ flag s pubkey = true ∧ ¬Torn s pubkey := by
  unfold Torn reading readState flag recorded
  generalize s.cells.get s.now (.appr pubkey) = appr
  generalize (s.cells.get s.now (.status pubkey)).bind PilotState.ofText = recorded
  by_cases happr : appr = some "1"
  · cases recorded with
    | none => simp [happr]
    | some r => cases r <;> simp [happr]
  · cases recorded with
    | none => simp [happr]
    | some r => cases r <;> simp [happr]

theorem ruled_eq_false_iff :
    ruled s pubkey = false ↔ recorded s pubkey = none ∧ flag s pubkey = false ∨
      ∃ r, recorded s pubkey = some r ∧ (r = .none ∨ r = .pending) := by
  unfold ruled reading readState flag recorded
  generalize s.cells.get s.now (.appr pubkey) = appr
  generalize (s.cells.get s.now (.status pubkey)).bind PilotState.ofText = recorded
  by_cases happr : appr = some "1"
  · cases recorded with
    | none => simp [happr]
    | some r => cases r <;> simp [happr]
  · cases recorded with
    | none => simp [happr]
    | some r => cases r <;> simp [happr]

/-! ## One command -/

/-- What decides about a wallet stays until it is written again. -/
def Lasting (cells : Cells Key.Entry) : Prop :=
  ∀ k cell, decides k = true → cells k = some cell → cell.2 = none

def Durable : Command → Prop
  | .set k _ ttl | .setNx k _ ttl => decides k = true → ttl = none
  | _ => True

section

variable {cells : Cells Key.Entry} {now now' : ℕ} {c : Command} {k : Key} {d : Chance}

theorem lasting_set {v : k.Entry} {expiry : Option ℕ} (h : Lasting cells)
    (hexpiry : decides k = true → expiry = none) : Lasting (cells.set k v expiry) := by
  intro k' cell hk' hcell
  rcases eq_or_ne k' k with rfl | hne
  · rw [Cells.set_self] at hcell
    rw [← Option.some.inj hcell]
    exact hexpiry hk'
  · rw [Cells.set_of_ne hne] at hcell
    exact h k' cell hk' hcell

theorem lasting_exec (h : Lasting cells) (hc : Durable c) : Lasting (cells.exec now c).2 := by
  cases c with
  | get k => exact h
  | set k v ttl => exact lasting_set h fun hk => by rw [hc hk, Option.map_none]
  | setNx k v ttl =>
    change Lasting (cells.setNx now k v _).2
    unfold Cells.setNx
    split
    · exact h
    · exact lasting_set h fun hk => by rw [hc hk, Option.map_none]
  | del k =>
    intro k' cell hk' hcell
    change cells.del k k' = some cell at hcell
    rcases eq_or_ne k' k with rfl | hne
    · rw [Cells.del_self] at hcell
      cases hcell
    · rw [Cells.del_of_ne hne] at hcell
      exact h k' cell hk' hcell

theorem lasting_react (h : Lasting s.cells) (hc : Durable c) : Lasting (react d s (.run c)).2.cells := by
  rw [react_run_cells, Cells.Fate.exec_cells]
  split
  · exact lasting_exec h hc
  · exact h

theorem get_of_lasting (h : Lasting cells) (hk : decides k = true) : cells.get now k = cells.get now' k := by
  cases hcell : cells k with
  | none => simp [Cells.get, hcell]
  | some cell =>
    obtain ⟨v, expiry⟩ := cell
    obtain rfl : expiry = none := h k _ hk hcell
    rw [Cells.get_of_cell hcell, Cells.get_of_cell hcell]

/-- A reading is of three keys. -/
theorem reading_congr (hstatus : s'.cells.get s'.now (.status pubkey) = s.cells.get s.now (.status pubkey))
    (happr : s'.cells.get s'.now (.appr pubkey) = s.cells.get s.now (.appr pubkey))
    (hrevoked : s'.cells.get s'.now (.revoked pubkey) = s.cells.get s.now (.revoked pubkey)) :
    reading s' pubkey = reading s pubkey := by
  rw [reading, hstatus, happr, hrevoked, reading]

theorem torn_congr (hstatus : s'.cells.get s'.now (.status pubkey) = s.cells.get s.now (.status pubkey))
    (happr : s'.cells.get s'.now (.appr pubkey) = s.cells.get s.now (.appr pubkey)) :
    Torn s' pubkey ↔ Torn s pubkey := by
  rw [Torn, flag, recorded, hstatus, happr, ← recorded, ← flag, ← Torn]

/-- A command leaves every wallet but its own as it was. -/
theorem get_react_of_ne (hne : k ≠ c.key) :
    (react d s (.run c)).2.cells.get (react d s (.run c)).2.now k = s.cells.get s.now k :=
  Cells.get_congr (Cells.Fate.exec_of_ne hne)

theorem get_react_of_executes (hfate : d.fate.executes = true) :
    (react d s (.run c)).2.cells.get (react d s (.run c)).2.now k = (s.cells.exec s.now c).2.get s.now k := by
  rw [react_run_cells, react_run_now, Cells.Fate.exec_cells, if_pos hfate]

end

/-! ## The invariant -/

/-- Where flag and record disagree, a decision is on its way that will settle it. -/
structure Settled (w : Tracked ι Store Progress) : Prop where
  lasting : Lasting w.shared.cells
  torn : ∀ pubkey, Torn w.shared pubkey → ∃ j, (w.calls j).Midway pubkey
  heeded : ∀ j, w.calls j ≠ .overruled

section

variable {k : Key} {v : Option k.Entry} {p : Progress}

theorem reads_of_midway (h : p.Midway pubkey) : p.reads k v = p := by
  rcases h with rfl | rfl <;> rfl

theorem reads_ne_overruled (h : p ≠ .overruled) : p.reads k v ≠ .overruled := by
  unfold Progress.reads
  split
  · nofun
  · split <;> nofun
  · exact h

end

section

variable [DecidableEq ι] {req : ι → Request} {i : ι} {w : Tracked ι Store Progress} {d : Chance}
  {c : Command} {p p' : Progress}

theorem calls_meet (hp : w.calls i = p) (hnext : p.next d w.shared (.run c) = p') :
    (surroundings.meet i d w (.run c)).2.calls = Function.update w.calls i p' := by
  rw [← hp] at hnext
  exact congrArg (Function.update w.calls i) hnext

theorem calls_meet_same (hp : w.calls i = p) (hnext : p.next d w.shared (.run c) = p) :
    (surroundings.meet i d w (.run c)).2.calls = w.calls := by
  rw [calls_meet hp hnext, ← hp, Function.update_eq_self]

theorem Settled.get {k : Key} (h : Settled w) : Settled (surroundings.meet i d w (.run (.get k))).2 := by
  have hshared : (surroundings.meet i d w (.run (.get k))).2.shared = w.shared := react_get
  have hcalls : (surroundings.meet i d w (.run (.get k))).2.calls =
      Function.update w.calls i ((w.calls i).reads k (w.shared.cells.get w.shared.now k)) := rfl
  refine ⟨hshared ▸ h.lasting, fun pubkey htorn => ?_, fun j => ?_⟩
  · obtain ⟨j, hj⟩ := h.torn pubkey (hshared ▸ htorn)
    refine ⟨j, ?_⟩
    rcases eq_or_ne j i with rfl | hne
    · rw [hcalls, Function.update_self]
      exact (reads_of_midway hj).symm ▸ hj
    · rwa [hcalls, Function.update_of_ne hne]
  · rcases eq_or_ne j i with rfl | hne
    · rw [hcalls, Function.update_self]
      exact reads_ne_overruled (h.heeded j)
    · rw [hcalls, Function.update_of_ne hne]
      exact h.heeded j

/-- A command that touches neither a flag nor a record. -/
theorem Settled.plain (h : Settled w) (hp : w.calls i = p) (hnext : p.next d w.shared (.run c) = p)
    (hc : Durable c) (hkey : states c.key = false) : Settled (surroundings.meet i d w (.run c)).2 := by
  have hcalls := calls_meet_same hp hnext
  refine ⟨lasting_react h.lasting hc, fun pubkey htorn => ?_, fun j => ?_⟩
  · rw [hcalls]
    have hother : ∀ k, states k = true → k ≠ c.key := by
      rintro k hk rfl
      rw [hkey] at hk
      cases hk
    exact h.torn pubkey ((torn_congr (get_react_of_ne (hother _ rfl)) (get_react_of_ne (hother _ rfl))).mp htorn)
  · rw [hcalls]
    exact h.heeded j

/-- A flag or a record is written: what is left to show is about that wallet. -/
theorem Settled.write (h : Settled w) (hp : w.calls i = p) (hnext : p.next d w.shared (.run c) = p')
    (hheeded : p' ≠ .overruled) (hc : Durable c) (hkey : c.key = .appr pubkey ∨ c.key = .status pubkey)
    (hothers : ∀ k, k ≠ pubkey → ¬p.Midway k)
    (hself : Torn (react d w.shared (.run c)).2 pubkey →
      p'.Midway pubkey ∨ ∃ j, j ≠ i ∧ (w.calls j).Midway pubkey) :
    Settled (surroundings.meet i d w (.run c)).2 := by
  have hcalls := calls_meet hp hnext
  refine ⟨lasting_react h.lasting hc, fun k htorn => ?_, fun j => ?_⟩
  · rw [hcalls]
    rcases eq_or_ne k pubkey with rfl | hne
    · rcases hself htorn with hmidway | ⟨j, hj, hmidway⟩
      · exact ⟨i, by rwa [Function.update_self]⟩
      · exact ⟨j, by rwa [Function.update_of_ne hj]⟩
    · have hother : Key.status k ≠ c.key ∧ Key.appr k ≠ c.key := by
        rcases hkey with hkey | hkey
        · exact ⟨by rw [hkey]; nofun, fun heq => hne (Key.appr.inj (heq.trans hkey))⟩
        · exact ⟨fun heq => hne (Key.status.inj (heq.trans hkey)), by rw [hkey]; nofun⟩
      obtain ⟨j, hj⟩ := h.torn k ((torn_congr (get_react_of_ne hother.1) (get_react_of_ne hother.2)).mp htorn)
      have hji : j ≠ i := by
        rintro rfl
        exact hothers k hne (hp ▸ hj)
      exact ⟨j, by rwa [Function.update_of_ne hji]⟩
  · rw [hcalls]
    rcases eq_or_ne j i with rfl | hne
    · rwa [Function.update_self]
    · rw [Function.update_of_ne hne]
      exact h.heeded j

/-! ## The calls keep it -/

/-- From the progress `p`, the command keeps the invariant, and brings the call to `p'`. -/
def KeepsCommand (req : ι → Request) (i : ι) (p : Progress) (c : Command) (p' : Progress) : Prop :=
  ∀ d w, Settled w → w.calls i = p → Careful req i d w (.run c) →
    Settled (surroundings.meet i d w (.run c)).2 ∧ p.next d w.shared (.run c) = p'

section

variable {α : Type} {N : Except String α → Progress → Prop} {M : Progress → Prop} {cs : List Command}

theorem keeps_send (hc : KeepsCommand req i p c p') {f : Except String c.Answer → Call α}
    (hf : ∀ a, Keeps surroundings (Careful req) Settled i p' (f a) N) :
    Keeps surroundings (Careful req) Settled i p (send c >>= f) N := by
  refine .ask (fun d w h hp hmet => (hc d w h hp hmet).1) fun d w h hp hmet => ?_
  have hnext : surroundings.next p d w.shared (.run c) = p' := (hc d w h hp hmet).2
  rw [hnext]
  exact hf _

theorem keeps_sendAll_nil (hp : M p) :
    Keeps surroundings (Careful req) Settled i p (sendAll []) fun _ => M := .ret hp

theorem keeps_sendAll_cons (hc : KeepsCommand req i p c p')
    (hcs : Keeps surroundings (Careful req) Settled i p' (sendAll cs) fun _ => M) :
    Keeps surroundings (Careful req) Settled i p (sendAll (c :: cs)) fun _ => M := by
  refine keeps_send hc fun result => hcs.bind (fun failed p' hp' => ?_) fun _ _ hp' => hp'
  cases result with
  | error message => exact .ret hp'
  | ok a => exact .ret hp'

theorem keeps_pipe (h : Keeps surroundings (Careful req) Settled i p (sendAll cs) fun _ => M) :
    Keeps surroundings (Careful req) Settled i p (pipe cs) fun _ => M := by
  refine h.bind (fun failed p' hp' => ?_) fun _ _ hp' => hp'
  cases failed with
  | some message => exact .ret hp'
  | none => exact .ret hp'

/-- A read: what is answered, if anything, is what is there. -/
theorem keeps_get {k : Key} {f : Except String (Option k.Entry) → Call α}
    (hf : ∀ v a, (∀ v', a = .ok v' → v' = v) →
      Keeps surroundings (Careful req) Settled i (p.reads k v) (f a) N) :
    Keeps surroundings (Careful req) Settled i p (send (.get k) >>= f) N := by
  refine .ask (fun d w h hp hmet => h.get) fun d w h hp hmet => ?_
  apply hf (w.shared.cells.get w.shared.now k) _
  intro v' hv'
  change (d.fate.exec w.shared.now w.shared.cells (.get k)).1 = .ok v' at hv'
  cases hfate : d.fate with
  | done =>
    rw [hfate] at hv'
    exact (Except.ok.inj hv').symm
  | lost message | failed message =>
    rw [hfate] at hv'
    cases hv'

theorem keeps_orThrow {β : Type} {r : Except String β} {f : β → Call α} (herror : ∀ e, N (.error e) p)
    (hf : ∀ b, r = .ok b → Keeps surroundings (Careful req) Settled i p (f b) N) :
    Keeps surroundings (Careful req) Settled i p (orThrow r >>= f) N := by
  cases r with
  | error message => exact .ret (herror message)
  | ok b => exact hf b rfl

/-! ### The owner -/

theorem not_torn_of_flag (h : flag s pubkey = false) : ¬Torn s pubkey := by
  rintro ⟨hflag, -⟩
  rw [h] at hflag
  cases hflag

theorem flag_of_ne (hne : Key.appr pubkey ≠ c.key) : flag (react d s (.run c)).2 pubkey = flag s pubkey := by
  rw [flag, get_react_of_ne hne, flag]

theorem flag_del (hfate : d.fate.executes = true) :
    flag (react d s (.run (.del (.appr pubkey)))).2 pubkey = false := by
  rw [flag, get_react_of_executes hfate]
  change decide ((s.cells.del (.appr pubkey)).get s.now (.appr pubkey) = some "1") = false
  rw [Cells.get_del_self]
  rfl

/-- A command of the owner, by which no decision is overruled. -/
def Ruling : Command → Prop
  | .get _ | .setNx (.status _) _ _ => False
  | .set (.status _) v _ => v = "approved" ∨ v = "rejected"
  | _ => True

theorem next_ruling (hc : Ruling c) (hfate : d.fate.executes = true) : p.next d s (.run c) = p.after c := by
  have hruling : overrules d s c = false := by
    unfold overrules
    split
    · rcases hc with rfl | rfl <;> simp
    · exact hc.elim
    · rfl
  have hplain : p.next d s (.run c) =
      if overrules d s c then .overruled else if d.fate.executes then p.after c else p := by
    cases c with
    | get k => exact hc.elim
    | set | setNx | del => rfl
  rw [hplain, hruling, if_neg Bool.false_ne_true, if_pos hfate]

theorem keepsCommand_plain (howner : (req i).isAsk = false) (hruling : Ruling c) (hsame : p.after c = p)
    (hc : Durable c) (hkey : states c.key = false) : KeepsCommand req i p c p := by
  intro d w h hp hmet
  have hnext : p.next d w.shared (.run c) = p := (next_ruling hruling (hmet.owner howner)).trans hsame
  exact ⟨h.plain hp hnext hc hkey, hnext⟩

theorem keeps_flag (howner : (req i).isAsk = false) :
    KeepsCommand req i .idle (.set (.appr pubkey) "1" none) (.flagged pubkey) := by
  intro d w h hp hmet
  have hnext := next_ruling (p := .idle) (s := w.shared) (c := .set (.appr pubkey) "1" none) trivial
    (hmet.owner howner)
  refine ⟨h.write hp hnext nofun (fun _ => rfl) (.inl rfl) (fun k _ hmidway => ?_) fun _ => ?_, hnext⟩
  · rcases hmidway with hp | hp <;> cases hp
  · exact .inl (.inl rfl)

theorem keeps_approved (howner : (req i).isAsk = false) :
    KeepsCommand req i (.flagged pubkey) (.set (.status pubkey) "approved" none) .idle := by
  intro d w h hp hmet
  have hfate := hmet.owner howner
  have hnext := next_ruling (p := .flagged pubkey) (s := w.shared)
    (c := .set (.status pubkey) "approved" none) (.inl rfl) hfate
  refine ⟨h.write hp hnext nofun (fun _ => rfl) (.inr rfl) (fun k hne hmidway => ?_) fun htorn => ?_, hnext⟩
  · rcases hmidway with hp | hp
    · exact hne (Progress.flagged.inj hp).symm
    · cases hp
  · obtain ⟨-, r, hr, hne⟩ := htorn
    rw [recorded, get_react_of_executes hfate] at hr
    change ((w.shared.cells.set (.status pubkey) "approved" none).get w.shared.now (.status pubkey)).bind
      PilotState.ofText = some r at hr
    rw [Cells.get_set_self] at hr
    exact absurd (Option.some.inj hr).symm hne

theorem keeps_rejected (howner : (req i).isAsk = false) :
    KeepsCommand req i .idle (.set (.status pubkey) "rejected" none) (.decided pubkey) := by
  intro d w h hp hmet
  have hnext := next_ruling (p := .idle) (s := w.shared) (c := .set (.status pubkey) "rejected" none)
    (.inr rfl) (hmet.owner howner)
  refine ⟨h.write hp hnext nofun (fun _ => rfl) (.inr rfl) (fun k _ hmidway => ?_) fun _ => ?_, hnext⟩
  · rcases hmidway with hp | hp <;> cases hp
  · exact .inl (.inr rfl)

theorem keeps_unflag (howner : (req i).isAsk = false) (hp : p = .idle ∨ p = .decided pubkey)
    (hp' : p.after (.del (.appr pubkey)) = p') (hheeded : p' ≠ .overruled) :
    KeepsCommand req i p (.del (.appr pubkey)) p' := by
  intro d w h hcall hmet
  have hfate := hmet.owner howner
  have hnext := (next_ruling (p := p) (s := w.shared) (c := .del (.appr pubkey)) trivial hfate).trans hp'
  refine ⟨h.write hcall hnext hheeded trivial (.inl rfl) (fun k hne hmidway => ?_) fun htorn => ?_, hnext⟩
  · rcases hp with rfl | rfl
    · rcases hmidway with hp | hp <;> cases hp
    · rcases hmidway with hp | hp
      · cases hp
      · exact hne (Progress.decided.inj hp).symm
  · exact absurd htorn (not_torn_of_flag (flag_del hfate))

theorem keeps_revoked (howner : (req i).isAsk = false) :
    KeepsCommand req i (.cleared pubkey) (.set (.status pubkey) "rejected" none) (.cleared pubkey) := by
  intro d w h hp hmet
  have hfate := hmet.owner howner
  have hnext := next_ruling (p := .cleared pubkey) (s := w.shared)
    (c := .set (.status pubkey) "rejected" none) (.inr rfl) hfate
  refine ⟨h.write hp hnext nofun (fun _ => rfl) (.inr rfl) (fun k _ hmidway => ?_) fun htorn => .inr ?_, hnext⟩
  · rcases hmidway with hp | hp <;> cases hp
  · have hstores : storesStatus d w.shared pubkey (.set (.status pubkey) "rejected" none) = true := by
      simp [storesStatus, hfate]
    rcases hmet.revoked _ pubkey hp rfl hstores with hflag | ⟨j, hj⟩
    · exact absurd htorn (not_torn_of_flag ((flag_of_ne Key.noConfusion).trans hflag))
    · refine ⟨j, ?_, hj⟩
      rintro rfl
      rw [hp] at hj
      rcases hj with hj | hj <;> cases hj

/-- Nothing is left to come. -/
def Progress.Rested (p : Progress) : Prop := ∀ pubkey, ¬p.Midway pubkey

theorem rested_idle : Progress.Rested .idle := by
  rintro k (hp | hp) <;> cases hp

theorem rested_cleared : Progress.Rested (.cleared pubkey) := by
  rintro k (hp | hp) <;> cases hp

theorem keeps_approvePilot (howner : (req i).isAsk = false) : Keeps surroundings (Careful req) Settled i
    .idle (approvePilot pubkey) fun _ => Progress.Rested := by
  refine keeps_pipe (keeps_sendAll_cons (keeps_flag howner) ?_)
  refine keeps_sendAll_cons (keepsCommand_plain howner trivial rfl nofun rfl) ?_
  apply keeps_sendAll_cons (keeps_approved howner)
  refine keeps_sendAll_cons (keepsCommand_plain howner trivial rfl trivial rfl) ?_
  refine keeps_sendAll_cons (keepsCommand_plain howner trivial rfl trivial rfl) ?_
  exact keeps_sendAll_nil rested_idle

theorem keeps_rejectPilot (howner : (req i).isAsk = false) : Keeps surroundings (Careful req) Settled i
    .idle (rejectPilot pubkey) fun _ => Progress.Rested := by
  have hunflag : KeepsCommand req i (.decided pubkey) (.del (.appr pubkey)) .idle :=
    keeps_unflag howner (.inr rfl) rfl nofun
  refine keeps_pipe (keeps_sendAll_cons (keeps_rejected howner) ?_)
  apply keeps_sendAll_cons hunflag
  refine keeps_sendAll_cons (keepsCommand_plain howner trivial rfl trivial rfl) ?_
  exact keeps_sendAll_nil rested_idle

/-- Commands that touch neither a flag nor a record. -/
theorem keeps_sendAll_plain (howner : (req i).isAsk = false) (hp : M p)
    (hcs : ∀ c ∈ cs, ∃ hash, c = .del (.seen hash)) :
    Keeps surroundings (Careful req) Settled i p (sendAll cs) fun _ => M := by
  induction cs with
  | nil => exact keeps_sendAll_nil hp
  | cons c cs ih =>
    obtain ⟨⟨hash, rfl⟩, hrest⟩ := List.forall_mem_cons.mp hcs
    have hsame : p.after (.del (.seen hash)) = p := by cases p <;> rfl
    exact keeps_sendAll_cons (keepsCommand_plain howner trivial hsame trivial rfl) (ih hrest)

theorem keeps_seenDel {env : Env} {email : Option String} {f : List Command → Call α}
    (herror : ∀ e, N (.error e) .idle)
    (hf : ∀ commands, (∀ c ∈ commands, ∃ hash, c = .del (.seen hash)) →
      Keeps surroundings (Careful req) Settled i .idle (f commands) N) :
    Keeps surroundings (Careful req) Settled i .idle (seenDel env pubkey email >>= f) N := by
  unfold seenDel
  split
  · exact hf [] (List.forall_mem_nil _)
  · apply keeps_get
    intro v seen _
    cases seen with
    | error message => exact .ret (herror _)
    | ok seen =>
      apply hf _
      intro c hc
      split at hc
      · exact ⟨_, List.mem_singleton.mp hc⟩
      · cases hc

theorem keeps_revokePilot {env : Env} (howner : (req i).isAsk = false) : Keeps surroundings (Careful req)
    Settled i .idle (revokePilot env pubkey) fun _ => Progress.Rested := by
  have hunflag : KeepsCommand req i .idle (.del (.appr pubkey)) (.cleared pubkey) :=
    keeps_unflag howner (.inl rfl) rfl nofun
  apply keeps_get
  intro v email _
  cases email with
  | error message => exact .ret rested_idle
  | ok email =>
    apply keeps_seenDel (fun _ => rested_idle)
    intro commands hcommands
    refine keeps_pipe (keeps_sendAll_cons hunflag ?_)
    refine keeps_sendAll_cons (keepsCommand_plain howner trivial rfl trivial rfl) ?_
    apply keeps_sendAll_cons (keeps_revoked howner)
    refine keeps_sendAll_cons (keepsCommand_plain howner trivial rfl (fun _ => rfl) rfl) ?_
    exact keeps_sendAll_plain howner rested_cleared hcommands

end

/-! ### The wallets -/

/-- What touches no flag and no record. -/
inductive Beside : Ask → Prop
  | get (k : Key) : Beside (.run (.get k))
  | set {k : Key} (v : k.Entry) (ttl : Option ℕ) (hk : decides k = false) : Beside (.run (.set k v ttl))

/-- What an ask comes to ask: its record is "pending", and it touches no flag. -/
inductive Asking : Ask → Prop
  | beside {q : Ask} (h : Beside q) : Asking q
  | pending (pubkey : String) : Asking (.run (.set (.status pubkey) "pending" none))
  | pendingOnce (pubkey : String) : Asking (.run (.setNx (.status pubkey) "pending" none))

section

variable {α : Type} {env : Env} {email clean : String} {src : Option PilotSource} {v : String}
  {ttl : Option ℕ}

theorem asking_get {k : Key} : (send (.get k) : Call _).Asks Asking :=
  asks_question (Asking.beside (.get k))

theorem asks_otherWallet {seen : Option String} : (otherWallet pubkey seen).Asks Beside := by
  have hget : ∀ k, (send (.get k) : Call _).Asks Beside := fun k => asks_question (Beside.get k)
  unfold otherWallet
  split
  · exact asks_pure
  · apply Asks.bind (hget _)
    intro st
    apply Asks.bind (hget _)
    intro appr
    apply Asks.bind (hget _)
    intro revoked
    exact asks_orThrow.bind fun st => asks_orThrow.bind fun appr => asks_orThrow.bind fun revoked => asks_pure

theorem beside_marks : ∀ c ∈ ([.set (.seen clean) pubkey ttl, .set (.email pubkey) v ttl] : List Command),
    Beside (.run c) := by
  intro c hc
  rcases List.mem_pair.mp hc with rfl | rfl
  · exact .set _ _ rfl
  · exact .set _ _ rfl

theorem beside_refresh : ∀ c ∈ refresh env pubkey clean src, Beside (.run c) := by
  intro c hc
  rcases List.mem_append.mp hc with hc | hc
  · rcases List.mem_pair.mp hc with rfl | rfl
    · exact .set _ _ rfl
    · exact .set _ _ rfl
  · cases src with
    | none => cases hc
    | some src =>
      rw [List.mem_singleton.mp hc]
      exact .set _ _ rfl

theorem asks_startPilotRequest : (startPilotRequest env pubkey email).Asks Asking := by
  apply Asks.bind asking_get
  intro st
  apply Asks.bind asking_get
  intro seen
  apply asks_orThrow.bind
  intro st
  apply asks_orThrow.bind
  intro seen
  apply asks_ite asks_pure
  split
  · exact asks_pure
  · refine Asks.bind (asks_pipe fun c hc => ?_) fun _ => asks_pure
    rcases List.mem_cons.mp hc with rfl | hc
    · exact .pending pubkey
    · exact .beside (beside_marks c hc)

theorem asks_filePilotRequest : (filePilotRequest env pubkey email src).Asks Asking := by
  have hrefresh : ∀ {clean}, ∀ c ∈ refresh env pubkey clean src, Asking (.run c) :=
    fun c hc => .beside (beside_refresh c hc)
  apply Asks.bind asking_get
  intro st
  apply Asks.bind asking_get
  intro appr
  apply Asks.bind asking_get
  intro tx
  apply Asks.bind asking_get
  intro revoked
  apply Asks.bind asking_get
  intro seen
  apply Asks.bind asking_get
  intro mailed
  apply asks_orThrow.bind
  intro st
  apply asks_orThrow.bind
  intro appr
  apply asks_orThrow.bind
  intro tx
  apply asks_orThrow.bind
  intro revoked
  apply asks_orThrow.bind
  intro seen
  apply asks_orThrow.bind
  intro mailed
  refine (asks_otherWallet.mono fun q hq => Asking.beside hq).bind fun other => ?_
  dsimp only
  cases (readState st appr revoked).state with
  | none =>
    apply Asks.bind (asks_question (Asking.pendingOnce pubkey))
    intro created
    refine (asks_sendAll hrefresh).bind fun failed => asks_orThrow.bind fun created => ?_
    cases failed with
    | some message => exact asks_throw
    | none => exact asks_pure
  | pending => exact (asks_pipe hrefresh).bind fun _ => asks_pure
  | approved => exact (asks_pipe hrefresh).bind fun _ => asks_pure
  | rejected => exact (asks_pipe hrefresh).bind fun _ => asks_pure

theorem asks_call {req : Request} (hask : req.isAsk = true) : (req.call env).Asks Asking := by
  cases req with
  | start pubkey email => exact asks_startPilotRequest.bind fun _ => asks_pure
  | file pubkey email src => exact asks_filePilotRequest.bind fun _ => asks_pure
  | approve _ | reject _ | revoke _ => cases hask

/-- A record that is not stored stays as it is. -/
theorem get_of_not_stores
    (hc : c = .set (.status pubkey) v ttl ∨ c = .setNx (.status pubkey) v ttl)
    (h : storesStatus d s pubkey c = false) (k : Key) :
    (react d s (.run c)).2.cells.get (react d s (.run c)).2.now k = s.cells.get s.now k := by
  rw [react_run_cells, react_run_now, Cells.Fate.exec_cells]
  split
  · next hfate =>
    rcases hc with rfl | rfl
    · simp [storesStatus, hfate] at h
    · have hsome : (s.cells.get s.now (.status pubkey)).isSome = true := by
        simpa [storesStatus, hfate] using h
      obtain ⟨v', hv'⟩ := Option.isSome_iff_exists.mp hsome
      rw [Cells.exec_setNx_of_some hv']
  · rfl

/-- The record of an ask does not touch what has been decided. -/
theorem reading_pending
    (hc : c = .set (.status pubkey) v ttl ∨ c = .setNx (.status pubkey) v ttl)
    (hopen : storesStatus d s pubkey c = true → ruled s pubkey = false) {k : String} (hk : ruled s k = true) :
    reading (react d s (.run c)).2 k = reading s k := by
  have hkey : c.key = .status pubkey := by rcases hc with rfl | rfl <;> rfl
  cases hstores : storesStatus d s pubkey c with
  | true =>
    have hne : Key.status k ≠ c.key := by
      rw [hkey]
      intro heq
      rw [Key.status.inj heq, hopen hstores] at hk
      cases hk
    have happr : Key.appr k ≠ c.key := by rw [hkey]; nofun
    have hrevoked : Key.revoked k ≠ c.key := by rw [hkey]; nofun
    exact reading_congr (get_react_of_ne hne) (get_react_of_ne happr) (get_react_of_ne hrevoked)
  | false =>
    exact reading_congr (get_of_not_stores hc hstores _) (get_of_not_stores hc hstores _)
      (get_of_not_stores hc hstores _)

theorem torn_of_pending
    (hc : c = .set (.status pubkey) v ttl ∨ c = .setNx (.status pubkey) v ttl)
    (hopen : storesStatus d s pubkey c = true → ruled s pubkey = false) {k : String}
    (htorn : Torn (react d s (.run c)).2 k) : Torn s k := by
  have hkey : c.key = .status pubkey := by rcases hc with rfl | rfl <;> rfl
  have hflag : flag s k = true := by
    rw [← htorn.1]
    exact (flag_of_ne (by rw [hkey]; nofun)).symm
  cases hk : ruled s k with
  | false =>
    rcases ruled_eq_false_iff.mp hk with ⟨-, hunset⟩ | ⟨r, hr, hrs⟩
    · rw [hflag] at hunset
      cases hunset
    · refine ⟨hflag, r, hr, ?_⟩
      rcases hrs with rfl | rfl <;> nofun
  | true =>
    apply by_contra
    intro hwhole
    have hstate := state_eq_approved_iff.mpr ⟨hflag, hwhole⟩
    rw [← reading_pending hc hopen hk] at hstate
    exact (state_eq_approved_iff.mp hstate).2 htorn

/-- An ask has no decision to come. -/
def Progress.looks : Progress → Bool
  | idle | asked .. | compared .. => true
  | _ => false

theorem rested_of_looks (h : p.looks = true) : p.Rested := by
  rintro k (rfl | rfl) <;> cases h

theorem looks_reads (h : p.looks = true) {k : Key} {v : Option k.Entry} : (p.reads k v).looks = true := by
  unfold Progress.reads
  split
  · rfl
  · split <;> rfl
  · exact h

/-- The record of an ask, where nothing has been decided about its wallet. -/
theorem keepsCommand_pending (hp : p.looks = true)
    (hc : c = .set (.status pubkey) "pending" none ∨ c = .setNx (.status pubkey) "pending" none)
    (hopen : ∀ (d : Chance) (s : Store), storesStatus d s pubkey c = true → asRead s p = true →
      unflagged s p = true → ruled s pubkey = false) : KeepsCommand req i p c p := by
  intro d w h hcall hmet
  have hopen' : storesStatus d w.shared pubkey c = true → ruled w.shared pubkey = false := by
    intro hstores
    have hread := hmet.undisturbed _ _ rfl hstores
    have hflag := hmet.unsigned _ _ rfl hstores
    rw [hcall] at hread hflag
    exact hopen d w.shared hstores hread hflag
  have hheeds : overrules d w.shared c = false := by
    cases hstores : storesStatus d w.shared pubkey c with
    | true => rcases hc with rfl | rfl <;> simp [overrules, hopen' hstores]
    | false => rcases hc with rfl | rfl <;> simp [overrules, hstores]
  have hafter : p.after c = p := by
    cases p with
    | idle | asked _ _ | compared _ _ _ => rcases hc with rfl | rfl <;> rfl
    | flagged _ | decided _ | cleared _ | overruled => cases hp
  have hnext : p.next d w.shared (.run c) = p := by
    have hplain : p.next d w.shared (.run c) =
        if overrules d w.shared c then .overruled else if d.fate.executes then p.after c else p := by
      rcases hc with rfl | rfl <;> rfl
    rw [hplain, hheeds, if_neg Bool.false_ne_true, hafter, ite_self]
  have hdurable : Durable c := by
    rcases hc with rfl | rfl
    · exact fun _ => rfl
    · exact fun _ => rfl
  have hcalls := calls_meet_same hcall hnext
  refine ⟨⟨lasting_react h.lasting hdurable, fun k htorn => ?_, fun j => ?_⟩, hnext⟩
  · rw [hcalls]
    exact h.torn k (torn_of_pending hc hopen' htorn)
  · rw [hcalls]
    exact h.heeded j

/-- What `startPilotRequest` has read is that nothing is recorded. -/
theorem ruled_of_start {status : Option String} (hnone : status.getD "none" = "none")
    (hread : asRead s (.asked pubkey status) = true) (hflag : unflagged s (.asked pubkey status) = true) :
    ruled s pubkey = false := by
  rw [ruled_eq_false_iff]
  simp only [asRead, unflagged, Bool.or_eq_true, decide_eq_true_eq] at hread hflag
  rcases hread with rfl | hpending
  · cases hstatus : s.cells.get s.now (.status pubkey) with
    | none =>
      have hrecorded : recorded s pubkey = none := by rw [recorded, hstatus]; rfl
      rw [hrecorded] at hflag
      exact .inl ⟨hrecorded, hflag.resolve_left Bool.false_ne_true⟩
    | some text =>
      rw [hstatus] at hnone
      obtain rfl : text = "none" := hnone
      exact .inr ⟨.none, by rw [recorded, hstatus]; rfl, .inl rfl⟩
  · exact .inr ⟨.pending, hpending, .inr rfl⟩

/-- What `filePilotRequest` has read is neither a record nor a flag. -/
theorem ruled_of_file {status appr revoked : Option String}
    (hnone : (readState status appr revoked).state = .none)
    (hread : asRead s (.compared pubkey status appr) = true)
    (hstores : (s.cells.get s.now (.status pubkey)).isNone = true) : ruled s pubkey = false := by
  rw [ruled_eq_false_iff]
  simp only [asRead, Bool.and_eq_true, decide_eq_true_eq] at hread
  obtain ⟨rfl, rfl⟩ := hread
  have hstatus := Option.isNone_iff_eq_none.mp hstores
  have hrecorded : recorded s pubkey = none := by rw [recorded, hstatus]; rfl
  refine .inl ⟨hrecorded, ?_⟩
  rw [hstatus] at hnone
  rw [flag]
  by_contra happr
  have hset : s.cells.get s.now (.appr pubkey) = some "1" := by simpa using happr
  rw [hset] at hnone
  cases hnone

theorem states_of_aside {k : Key} (hk : decides k = false) : states k = false := by
  cases k with
  | appr _ | status _ => cases hk
  | tx _ | email _ | seen _ | src _ | mailed _ | revoked _ => rfl

theorem next_aside {k : Key} {v : k.Entry} (hk : decides k = false) : p.next d s (.run (.set k v ttl)) = p := by
  have hplain : p.next d s (.run (.set k v ttl)) = if d.fate.executes then p.after (.set k v ttl) else p := by
    cases k with
    | appr _ | status _ | revoked _ => cases hk
    | tx _ | email _ | seen _ | src _ | mailed _ => rfl
  have hafter : p.after (.set k v ttl) = p := by
    cases k with
    | appr _ | status _ | revoked _ => cases hk
    | tx _ | email _ | seen _ | src _ | mailed _ => cases p <;> rfl
  rw [hplain, hafter, ite_self]

/-- What a call asks beside leaves it at a progress that reads leave. -/
theorem keeps_beside {call : Call α} {M : Progress → Prop} (hcall : call.Asks Beside) (hp : M p)
    (hreads : ∀ p (k : Key) v, M p → M (p.reads k v)) :
    Keeps surroundings (Careful req) Settled i p call fun _ => M := by
  refine keeps_of_asks hcall hp (fun q hq d w h _ => ?_) fun q hq p' d s hp' => ?_
  · cases hq with
    | get k => exact h.get
    | set v ttl hk =>
      refine h.plain rfl (next_aside hk) (fun hdecides => ?_) (states_of_aside hk)
      exact Bool.noConfusion (hk.symm.trans hdecides)
  · cases hq with
    | get k => exact hreads p' k _ hp'
    | set v ttl hk =>
      have hnext : surroundings.next p' d s (.run (.set _ v ttl)) = p' := next_aside hk
      rwa [hnext]

theorem keeps_refresh {cs : List Command} (hcs : ∀ c ∈ cs, Beside (.run c)) (hp : p.looks = true) :
    Keeps surroundings (Careful req) Settled i p (sendAll cs) fun _ p => p.looks = true :=
  keeps_beside (asks_sendAll hcs) hp fun _ _ _ h => looks_reads h

theorem keeps_startPilotRequest : Keeps surroundings (Careful req) Settled i .idle
    (startPilotRequest env pubkey email) fun _ p => p.looks = true := by
  apply keeps_get
  intro status st hst
  apply keeps_get
  intro _ seen _
  change Keeps _ _ _ i (Progress.asked pubkey status) _ _
  apply keeps_orThrow (fun _ => rfl)
  intro st heq
  apply keeps_orThrow (fun _ => rfl)
  intro seen _
  obtain rfl := hst st heq
  refine .ite (fun _ => .ret rfl) fun hnone => ?_
  split
  · exact .ret rfl
  · have hpending : KeepsCommand req i (.asked pubkey st) (.set (.status pubkey) "pending" none) (.asked pubkey st) :=
      keepsCommand_pending rfl (.inl rfl) fun d s _ => ruled_of_start (not_not.mp hnone)
    exact (keeps_pipe (keeps_sendAll_cons hpending (keeps_refresh beside_marks rfl))).bind
      (fun _ _ hp => .ret hp) fun _ _ hp => hp

theorem keeps_filePilotRequest : Keeps surroundings (Careful req) Settled i .idle
    (filePilotRequest env pubkey email src) fun _ p => p.looks = true := by
  apply keeps_get
  intro status st hst
  apply keeps_get
  intro flagged appr happr
  apply keeps_get
  intro _ tx _
  apply keeps_get
  intro _ revoked _
  apply keeps_get
  intro _ seen _
  apply keeps_get
  intro _ mailed _
  have hreads : ((Progress.idle.reads (.status pubkey) status).reads (.appr pubkey) flagged) =
      .compared pubkey status flagged := if_pos rfl
  rw [hreads]
  change Keeps _ _ _ i (Progress.compared pubkey status flagged) _ _
  apply keeps_orThrow (fun _ => rfl)
  intro st hst'
  apply keeps_orThrow (fun _ => rfl)
  intro appr happr'
  obtain rfl := hst st hst'
  obtain rfl := happr appr happr'
  apply keeps_orThrow (fun _ => rfl)
  intro tx _
  apply keeps_orThrow (fun _ => rfl)
  intro revoked _
  apply keeps_orThrow (fun _ => rfl)
  intro seen _
  apply keeps_orThrow (fun _ => rfl)
  intro mailed _
  have hother : Keeps surroundings (Careful req) Settled i (.compared pubkey st appr)
      (otherWallet pubkey seen) fun _ p => p = .compared pubkey st appr := by
    refine keeps_beside asks_otherWallet rfl ?_
    rintro p k v rfl
    rfl
  refine hother.bind (fun other p' hp' => ?_) fun _ _ hp' => by rw [hp']; rfl
  subst hp'
  have hpipe : ∀ {clean : String} {filing : Filing}, Keeps surroundings (Careful req) Settled i
      (.compared pubkey st appr) (pipe (refresh env pubkey clean src) >>= fun _ => pure filing)
      fun _ p => p.looks = true :=
    (keeps_pipe (keeps_refresh beside_refresh rfl)).bind (fun _ _ hp => .ret hp) fun _ _ hp => hp
  dsimp only
  cases hstate : (readState st appr revoked).state with
  | none =>
    have hpending : KeepsCommand req i (.compared pubkey st appr) (.setNx (.status pubkey) "pending" none)
        (.compared pubkey st appr) := by
      apply keepsCommand_pending rfl (.inr rfl)
      intro d s hstores hread _
      apply ruled_of_file hstate hread
      simp only [storesStatus, Bool.and_eq_true] at hstores
      exact hstores.2
    apply keeps_send hpending
    intro created
    refine (keeps_refresh beside_refresh rfl).bind (fun failed p hp => ?_) fun _ _ hp => hp
    apply keeps_orThrow (fun _ => hp)
    intro created _
    cases failed with
    | some message => exact .ret hp
    | none => exact .ret hp
  | pending => exact hpipe
  | approved => exact hpipe
  | rejected => exact hpipe

end

/-! ## Whole runs -/

/-- A call ends with no decision left to come. -/
theorem keeps_call (env : Env) (r : Request) (hr : req i = r) : Keeps surroundings (Careful req) Settled i
    .idle (r.call env) fun _ => Progress.Rested := by
  cases r with
  | start pubkey email =>
    exact keeps_startPilotRequest.bind (fun _ _ hp => .ret (rested_of_looks hp)) fun _ _ hp => rested_of_looks hp
  | file pubkey email src =>
    exact keeps_filePilotRequest.bind (fun _ _ hp => .ret (rested_of_looks hp)) fun _ _ hp => rested_of_looks hp
  | approve pubkey => exact keeps_approvePilot (by rw [hr]; rfl)
  | reject pubkey => exact keeps_rejectPilot (by rw [hr]; rfl)
  | revoke pubkey => exact keeps_revokePilot (by rw [hr]; rfl)

/-- Calls of these requests. -/
abbrev crowd (env : Env) (s : Store) (req : ι → Request) :
    Crowd ι Ask.Answer String Unit (Tracked ι Store Progress) :=
  started s .idle fun i => (req i).call env

/-- Where it is said whether a wallet is approved, that stays, and agrees with the flag. -/
structure Sound (s : Store) : Prop where
  lasting : Lasting s.cells
  whole : ∀ pubkey, (reading s pubkey).state = .approved ↔ flag s pubkey = true

/-- What is said of the wallets in a run. -/
structure StatesAgree (env : Env) (req : ι → Request)
    (met : Condition ι Ask Chance Store Progress)
    (y : Crowd ι Ask.Answer String Unit (Tracked ι Store Progress)) : Prop where
  /-- When no call is midway, a wallet is approved exactly where its flag is set. -/
  agree : (∀ i, y.prog i = (req i).call env ∨ ∃ r, y.prog i = .ret r) → ∀ pubkey,
    (reading y.world.shared pubkey).state = .approved ↔ flag y.world.shared pubkey = true
  /-- The next step of an ask changes nothing of a wallet that was approved, rejected or revoked. -/
  decided : ∀ i, (req i).isAsk = true → ∀ q k, y.prog i = .ask q k → ∀ a w',
    surroundings.Steps met i y.world q a w' → ∀ pubkey,
      ((reading y.world.shared pubkey).state = .approved ∨ (reading y.world.shared pubkey).state = .rejected) →
        reading w'.shared pubkey = reading y.world.shared pubkey

omit [DecidableEq ι] in
theorem Sound.settled (h : Sound s) : Settled (⟨s, fun _ => .idle⟩ : Tracked ι Store Progress) where
  lasting := h.lasting
  torn pubkey htorn := absurd htorn (state_eq_approved_iff.mp ((h.whole pubkey).mpr htorn.1)).2
  heeded _ := nofun

/-- Time changes nothing of what is said. -/
theorem reading_of_passes (h : Lasting s.cells) (hpasses : Store.Passes s s') :
    s'.cells = s.cells ∧ (∀ k, decides k = true → s'.cells.get s'.now k = s.cells.get s.now k) := by
  obtain ⟨-, hs'⟩ := hpasses
  rw [hs']
  exact ⟨rfl, fun k hk => get_of_lasting h hk⟩

omit [DecidableEq ι] in
theorem settled_stirs (w : Tracked ι Store Progress) (s' : Store) (h : Settled w)
    (hpasses : Store.Passes w.shared s') : Settled { w with shared := s' } := by
  obtain ⟨hcells, hget⟩ := reading_of_passes h.lasting hpasses
  refine ⟨?_, fun pubkey htorn => h.torn pubkey ((torn_congr (hget _ rfl) (hget _ rfl)).mp htorn), h.heeded⟩
  change Lasting s'.cells
  rw [hcells]
  exact h.lasting

/-- A step of an ask that overrules nothing leaves what has been decided. -/
theorem reading_asking {q : Ask} (hq : Asking q) (hheeds : p.next d s q ≠ .overruled)
    (hk : ruled s pubkey = true) : reading (react d s q).2 pubkey = reading s pubkey := by
  have hopen : ∀ {c k}, p.next d s (.run c) ≠ .overruled →
      (c = .set (.status k) "pending" none ∨ c = .setNx (.status k) "pending" none) →
        storesStatus d s k c = true → ruled s k = false := by
    intro c k hne hc hstores
    by_contra hruled
    rw [Bool.not_eq_false] at hruled
    have hover : overrules d s c = true := by
      rcases hc with rfl | rfl <;> simp [overrules, hstores, hruled]
    apply hne
    rcases hc with rfl | rfl <;> exact if_pos hover
  cases hq with
  | beside h =>
    cases h with
    | get k => rw [react_get]
    | @set k v ttl hk =>
      have hother : ∀ k', decides k' = true → k' ≠ k := by
        rintro k' hk' rfl
        rw [hk] at hk'
        cases hk'
      exact reading_congr (get_react_of_ne (hother _ rfl)) (get_react_of_ne (hother _ rfl))
        (get_react_of_ne (hother _ rfl))
  | pending k => exact reading_pending (.inl rfl) (hopen hheeds (.inl rfl)) hk
  | pendingOnce k => exact reading_pending (.inr rfl) (hopen hheeds (.inr rfl)) hk

/-- **The states agree** in every run in which an ask's "pending" lands while its wallet is as it was
read, and a revocation's "rejected" while the flag that it has removed is still removed. -/
theorem pilot_states_agree {env : Env} {req : ι → Request}
    {y : Crowd ι Ask.Answer String Unit (Tracked ι Store Progress)} (hs : Sound s)
    (hy : Leads (surroundings.Steps (Careful req)) (Stirs Store.Passes) (crowd env s req) y) :
    StatesAgree env req (Careful req) y := by
  have hkept : ∀ {z}, Leads (surroundings.Steps (Careful req)) (Stirs Store.Passes) (crowd env s req) z → _ :=
    fun hz => leads_keeps hs.settled settled_stirs (fun i => keeps_call env (req i) rfl) hz
  obtain ⟨hinv, hstill, hends⟩ := hkept hy
  refine ⟨fun hrest pubkey => ?_, ?_⟩
  · have hwhole : ¬Torn y.world.shared pubkey := by
      intro htorn
      obtain ⟨j, hj⟩ := hinv.torn pubkey htorn
      rcases hrest j with hunstarted | ⟨r, hr⟩
      · exact rested_idle pubkey (hstill j hunstarted ▸ hj)
      · exact hends j r hr pubkey hj
    rw [state_eq_approved_iff, and_iff_left hwhole]
  · intro i hask q k hprog a w' hstep pubkey hstate
    have hleft : (y.prog i).Asks Asking := asks_leads (asks_call hask) hy
    rw [hprog] at hleft
    -- The run that goes on with this step overrules nothing either.
    have hheeded := (hkept (hy.tail (.answer hprog hstep))).1.heeded i
    obtain ⟨d, hmet, heq⟩ := hstep
    obtain rfl : (surroundings.meet i d y.world q).2 = w' := congrArg Prod.snd heq
    rw [meet_calls_self] at hheeded
    apply reading_asking (asks_ask.mp hleft).1 hheeded
    simpa [ruled] using hstate

end

namespace Demo

local instance inhabited : NeZero 3 := ⟨by decide⟩

def env : Env where
  sha256Hex s := s
  finite _ := some 1000
  verifies _ message proof := message == proof
  toLowerCase s := s
  pilotMode := true
  pilotMaxTx := some 5
  requireProof := false
  network := .mainnet

def done : Chance := .plain .done (.ok ())

/-- A check of the steps of a run. -/
def careful (i : Fin 3) (d : Chance) (w : Tracked (Fin 3) Store Progress) : Ask → Bool
  | .run c => d.fate.executes && match c.key with
    | .status pubkey => asRead w.shared (w.calls i) && unflagged w.shared (w.calls i) &&
      (w.calls i ≠ .cleared pubkey || flag w.shared pubkey = false)
    | _ => true
  | _ => d.fate.executes

theorem key_of_stores {d : Chance} {s : Store} {pubkey : String} {c : Command}
    (h : storesStatus d s pubkey c = true) : c.key = .status pubkey := by
  unfold storesStatus at h
  split at h
  · rw [Bool.and_eq_true, decide_eq_true_eq] at h
    exact congrArg Key.status h.1
  · rw [Bool.and_eq_true, Bool.and_eq_true, decide_eq_true_eq] at h
    exact congrArg Key.status h.1.1
  · cases h

theorem careful_of_check {req : Fin 3 → Request} {i : Fin 3} {d : Chance} {w : Tracked (Fin 3) Store Progress}
    {q : Ask} (h : careful i d w q = true) : Careful req i d w q := by
  have hrecord : ∀ c pubkey, q = .run c → storesStatus d w.shared pubkey c = true →
      (asRead w.shared (w.calls i) = true ∧ unflagged w.shared (w.calls i) = true) ∧
        (w.calls i ≠ .cleared pubkey ∨ flag w.shared pubkey = false) := by
    rintro c pubkey rfl hstores
    rw [careful, key_of_stores hstores, Bool.and_eq_true] at h
    simpa only [Bool.and_eq_true, Bool.or_eq_true, decide_eq_true_eq] using h.2
  refine ⟨fun _ => ?_, fun c pubkey hq hstores => ?_, fun c pubkey hq hstores => ?_,
    fun c pubkey hcleared hq hstores => ?_⟩
  · unfold careful at h
    split at h
    · exact (Bool.and_eq_true_iff.mp h).1
    · exact h
  · exact (hrecord c pubkey hq hstores).1.1
  · exact (hrecord c pubkey hq hstores).1.2
  · exact .inl ((hrecord c pubkey hq hstores).2.resolve_left (absurd hcleared))

def empty : Store := ⟨0, Cells.empty, fun _ => 0⟩

/-- The wallet "G" was approved before there were records. -/
def legacy : Store := ⟨0, Cells.empty.set (.appr "G") "1" none, fun _ => 0⟩

theorem sound_empty : Sound empty where
  lasting k cell _ hcell := by cases hcell
  whole pubkey := ⟨nofun, nofun⟩

theorem sound_legacy : Sound legacy where
  lasting k cell _ hcell := by
    change (Cells.empty.set (.appr "G") "1" none : Cells Key.Entry) k = some cell at hcell
    rcases eq_or_ne k (.appr "G") with rfl | hne
    · rw [Cells.set_self] at hcell
      rw [← Option.some.inj hcell]
    · rw [Cells.set_of_ne hne] at hcell
      cases hcell
  whole pubkey := by
    have hrecorded : recorded legacy pubkey = none := rfl
    rw [state_eq_approved_iff, and_iff_left]
    intro h
    obtain ⟨-, r, hr, -⟩ := h
    rw [hrecorded] at hr
    cases hr

/-- The wallet asks, is approved, and is revoked later. -/
def requests (i : Fin 3) : Request :=
  if i = 0 then .start "G" "g@mail" else if i = 1 then .approve "G" else .revoke "G"

/-- The approval begins before the ask has ended. -/
def inTurn : List (Fin 3 × Chance) :=
  [(0, done), (0, done), (0, done), (1, done), (0, done), (1, done), (1, done), (0, done), (1, done),
    (1, done), (2, done), (2, done), (2, done), (2, done), (2, done), (2, done), (2, done)]

abbrev afterTurns : Crowd (Fin 3) Ask.Answer String Unit (Tracked (Fin 3) Store Progress) :=
  (crowd env empty requests).play surroundings.meet inTurn

/-- The wallet asks, and nobody else is there. -/
def single (_ : Fin 1) : Request := .start "G" "g@mail"

def alone : List (Fin 1 × Chance) := List.replicate 5 (0, done)

abbrev afterAlone : Crowd (Fin 1) Ask.Answer String Unit (Tracked (Fin 1) Store Progress) :=
  (crowd env legacy single).play surroundings.meet alone

theorem ends : ((crowd env empty requests).fairly surroundings.meet careful inTurn = true ∧
      (reading afterTurns.world.shared "G").state = .rejected) ∧
    ((crowd env legacy single).fairly surroundings.meet (fun _ d _ _ => d.fate.executes) alone = true ∧
      (afterAlone.prog 0).result = some (.ok ()) ∧ (reading afterAlone.world.shared "G").state = .pending ∧
      flag afterAlone.world.shared "G" = true) := by
  decide +kernel

end Demo

/-- The wallet asks, is approved while it still asks, and is revoked. -/
theorem pilot_states_agree_in_turn :
    (reading Demo.afterTurns.world.shared "G").state = .rejected ∧
      StatesAgree Demo.env Demo.requests (Careful Demo.requests) Demo.afterTurns := by
  refine ⟨Demo.ends.1.2, pilot_states_agree Demo.sound_empty ?_⟩
  exact leads_meet (fun i d w q => Demo.careful_of_check) Demo.ends.1.1

/-- **A wallet is set back.** It was approved before there were records, its ask finds none, and it
is pending from then on while its flag is set, with every command executed and nobody else around. -/
theorem legacy_wallet_set_back : ¬∀ (env : Env) (s : Store) (req : Fin 1 → Request)
    (y : Crowd (Fin 1) Ask.Answer String Unit (Tracked (Fin 1) Store Progress)), Sound s →
      Leads (surroundings.Steps fun _ d _ _ => d.fate.executes = true) (Stirs Store.Passes)
        (crowd env s req) y →
      StatesAgree env req (fun _ d _ _ => d.fate.executes = true) y := by
  intro hall
  obtain ⟨hfair, hend, hstate, hflag⟩ := Demo.ends.2
  have hagree := (hall _ _ _ _ Demo.sound_legacy (leads_meet (fun i d w q hok => hok) hfair)).agree
  have hended : ∀ i, Demo.afterAlone.prog i = (Demo.single i).call Demo.env ∨
      ∃ r, Demo.afterAlone.prog i = .ret r := by
    intro i
    rw [Subsingleton.elim i 0]
    exact .inr ⟨_, eq_ret_of_result hend⟩
  have happroved := (hagree hended "G").mpr hflag
  rw [hstate] at happroved
  cases happroved

end Lumenia.Sponsor.Pilot.Requests
