import Lumenia.Sponsor.KillSwitch
import Lumenia.Theory.Calls

/-!
# The kill switch takes effect at once

Any number of reads and writes of a network's halt in one isolate. A halt that has been written is what
every later call answers, until one is taken away: a read that is older than it is never cached, and it
is over before the cached halt is. The end of a halt takes effect as well, except for a call that joins
a read which has found the halt before it was taken away (`kill_switch_at_once`, `cleared_halt_answered`).
-/

namespace Lumenia.Sponsor.KillSwitch

open Dialogue
open Proofs (NetworkId)

/-! ## The calls -/

inductive Request
  | haltStatus (network : NetworkId)
  | setHalt (network : NetworkId) (reason : String)
  | clearHalt (network : NetworkId)
  deriving DecidableEq

inductive Reply
  | verdict (verdict : HaltVerdict)
  | written (done : Bool)
  deriving DecidableEq

def Request.call (env : Env) : Request → Call Reply
  | haltStatus network => do
    let verdict ← KillSwitch.haltStatus env network
    return .verdict verdict
  | setHalt network reason => do
    let done ← KillSwitch.setHalt env network reason
    return .written done
  | clearHalt network => do
    let done ← KillSwitch.clearHalt env network
    return .written done

/-- Where in the record of the writes a call has been, and with what. -/
inductive Progress
  | idle
  /-- The command of a write has been executed, as the write at this place. -/
  | executed (network : NetworkId) (halts : Bool) (place : ℕ)
  | wrote (network : NetworkId) (halts : Bool) (place finished clock : ℕ)
  /-- What the read has found of the flag. -/
  | reading (network : NetworkId) (read begun startedAt clock : ℕ) (got : Option Bool)
  | waiting (network : NetworkId) (read begun : ℕ)
  | answered (network : NetworkId) (begun ended : ℕ) (verdict : HaltVerdict)
  deriving DecidableEq

/-- The flag in the store. -/
def flag (s : World) (network : NetworkId) : Bool := s.cells.get s.now (.halt network) = some "1"

namespace Progress

/-- A call that has looked. -/
def looked (network : NetworkId) (place : ℕ) : Found → Progress
  | .hit verdict => answered network place place verdict
  | .pending read => waiting network read place
  | .started read startedAt now => reading network read place startedAt now none

def found (got : Bool) : Progress → Progress
  | reading network read begun startedAt clock _ => reading network read begun startedAt clock (some got)
  | p => p

def finish (place clock : ℕ) : Progress → Progress
  | executed network halts start => wrote network halts start place clock
  | p => p

def answer (place : ℕ) (verdict : HaltVerdict) : Progress → Progress
  | reading network _ begun _ _ _ | waiting network _ begun => answered network begun place verdict
  | p => p

def next (p : Progress) (fate : Cells.Fate) (s : World) : Ask → Progress
  | .run (.set (.halt network) v _) =>
    if fate.executes then executed network (v = "1") s.log.length else p
  | .run (.del (.halt network)) => if fate.executes then executed network false s.log.length else p
  | .run (.get (.halt network)) => p.found (flag s network)
  | .look network => looked network s.log.length (s.look network).1
  | .join read => p.answer s.log.length ((s.verdictOf read).getD .none)
  | .unlist _ _ verdict => p.answer s.log.length verdict
  | .setCached .. | .deleteCached _ => p.finish (s.log.length + 1) s.now
  | _ => p

end Progress

def surroundings : Surroundings Ask.Answer Cells.Fate World Progress := ⟨react, Progress.next⟩

/-- A command on the keys of a halt as an isolate sends it. -/
def Ordinary : Command → Prop
  | .set (.halt _) v ttl => v = "1" ∧ ttl = none
  | .setNx (.halt _) _ _ => False
  | _ => True

/-- Time goes by, but not beyond the timeout of a read; or another isolate writes. -/
inductive Stirred : World → World → Prop
  | time {s : World} {now : ℕ} (hle : s.now ≤ now)
    (hreads : ∀ network read r, s.inflight network = some read → s.reads read = some r →
      now ≤ r.clock + readTimeoutMs) : Stirred s { s with now := now }
  | elsewhere {s : World} {c : Command} (hc : Ordinary c) : Stirred s (s.run c)

variable {ι : Type}

/-- The store answers the reads, and a call goes on when the read it waits for is over. And where it is
about the end of a halt, no call joins a read that has found the flag which is there no longer. -/
structure Meets (halts : Bool) (_ : ι) (fate : Cells.Fate) (w : Tracked ι World Progress) (q : Ask) : Prop where
  answered : ∀ k, q = .run (.get k) → fate = .done
  joined : ∀ read, q = .join read → (w.shared.verdictOf read).isSome = true
  fresh : halts = false → ∀ network read, q = .look network →
    (w.shared.look network).1 = .pending read → ∀ j begun startedAt clock,
      w.calls j = .reading network read begun startedAt clock (some true) → flag w.shared network = true

/-! ## What has been written -/

variable {network : NetworkId} {halts : Bool} {place finished clock : ℕ} {s s' : World}

/-- From the place on, nothing to the contrary has been written. -/
def Quiet (network : NetworkId) (halts : Bool) (place : ℕ) (log : List Effect) : Prop :=
  ∀ e ∈ log.drop place, e ≠ ⟨network, !halts⟩

/-- The store says so, for good. -/
def FlagIs (s : World) (network : NetworkId) (halts : Bool) : Prop :=
  s.cells (.halt network) = if halts then some ("1", none) else none

theorem Quiet.of_prefix {log log' : List Effect} (h : Quiet network halts place log')
    (hlog : log <+: log') : Quiet network halts place log := by
  intro e he
  exact h e ((hlog.drop place).subset he)

/-- What has been written since is not to the contrary. -/
theorem Quiet.last {log : List Effect} {e : Effect} (h : Quiet network halts place (log ++ [e]))
    (hplace : place ≤ log.length) (hnetwork : e.network = network) : e.halts = halts := by
  have hmem : e ∈ (log ++ [e]).drop place := by
    rw [List.drop_append_of_le_length hplace]
    exact List.mem_append_right _ (List.mem_singleton_self e)
  have hne := h e hmem
  obtain ⟨n, b⟩ := e
  subst hnetwork
  cases b <;> cases halts <;> simp_all

theorem flag_eq (h : FlagIs s network halts) : flag s network = halts := by
  unfold FlagIs at h
  cases halts with
  | true => exact decide_eq_true (Cells.get_of_cell h)
  | false =>
    refine decide_eq_false ?_
    rw [Cells.get, h, if_neg Bool.false_ne_true]
    exact Option.some_ne_none "1" ∘ Eq.symm

section

variable {c : Command}

theorem flagIs_run_of_ne (hne : Key.halt network ≠ c.key) : FlagIs (s.run c) network halts ↔ FlagIs s network halts := by
  unfold FlagIs
  rw [show (s.run c).cells (.halt network) = s.cells (.halt network) from Cells.exec_of_ne hne]

theorem log_run : s.log <+: (s.run c).log := List.prefix_append ..

/-- A command keeps the flag, unless it is to the contrary. -/
theorem flagIs_run (hc : Ordinary c) (hplace : place ≤ s.log.length)
    (hquiet : Quiet network halts place (s.run c).log) (h : FlagIs s network halts) :
    FlagIs (s.run c) network halts := by
  by_cases hkey : Key.halt network = c.key
  · cases c with
    | get k => exact h
    | setNx k v ttl =>
      obtain rfl : Key.halt network = k := hkey
      exact hc.elim
    | set k v ttl =>
      obtain rfl : Key.halt network = k := hkey
      obtain ⟨rfl, rfl⟩ := hc
      obtain rfl : true = halts := hquiet.last hplace rfl
      exact Cells.set_self
    | del k =>
      obtain rfl : Key.halt network = k := hkey
      obtain rfl : false = halts := hquiet.last hplace rfl
      exact Cells.del_self
  · exact (flagIs_run_of_ne hkey).mpr h

end

/-! ## The invariant -/

/-- Halted, by the key of the network. -/
def HaltVerdict.fromStore (v : HaltVerdict) : Bool := v.halted && v.source = some .store

/-- How far a call has come is in the record. -/
def Progress.Sound (s : World) : Progress → Prop
  | .idle => True
  | .executed network halts place =>
    place < s.log.length ∧ (Quiet network halts place s.log → FlagIs s network halts)
  | .wrote _ _ place finished clock => place < finished ∧ finished ≤ s.log.length ∧ clock ≤ s.now
  | .reading network read begun startedAt clock _ =>
    ∃ verdict, s.reads read = some ⟨network, startedAt, clock, begun, verdict⟩
  | .waiting network read begun =>
    begun ≤ s.log.length ∧ ∃ r, s.reads read = some r ∧ r.network = network
  | .answered _ begun ended _ => begun ≤ ended ∧ ended ≤ s.log.length

/-- A read is over or in flight. -/
structure Read.Sound (s : World) (r : Read) : Prop where
  startedAt : r.startedAt ≤ s.generation
  begun : r.begun ≤ s.log.length
  clock : r.clock ≤ s.now

/-- Whatever this read of the network comes to, it agrees. -/
def Agrees (network : NetworkId) (halts : Bool) (read : ℕ) (w : Tracked ι World Progress) : Prop :=
  (∀ j begun startedAt clock got,
    w.calls j = .reading network read begun startedAt clock (some got) → got = halts) ∧
  ∀ r v, w.shared.reads read = some r → r.network = network → r.verdict = some v → v.fromStore = halts

/-- A read that was started, or joined, after the write was over. -/
def Concerns (network : NetworkId) (finished read : ℕ) (w : Tracked ι World Progress) : Prop :=
  (∃ r, w.shared.reads read = some r ∧ r.network = network ∧ finished ≤ r.begun) ∨
    ∃ j begun, w.calls j = .waiting network read begun ∧ finished ≤ begun

/-- A write that is over stands. -/
structure Stands (network : NetworkId) (halts : Bool) (finished clock : ℕ)
    (w : Tracked ι World Progress) : Prop where
  flag : FlagIs w.shared network halts
  cached : ∀ v t, w.shared.cache network = some (v, t) → v.fromStore = halts
  /-- A halt is cached at least as long as itself. -/
  kept : halts = true → ∃ v t, w.shared.cache network = some (v, t) ∧ clock ≤ t
  older : ∀ read r, w.shared.reads read = some r → r.begun < finished →
    r.startedAt < w.shared.generation ∧ r.clock ≤ clock
  newer : ∀ read r, w.shared.reads read = some r → finished ≤ r.begun → clock ≤ r.clock
  agrees : ∀ read, Concerns network finished read w → Agrees network halts read w

structure Inv (halts : Bool) (w : Tracked ι World Progress) : Prop where
  reads : ∀ read r, w.shared.reads read = some r → r.Sound w.shared
  unmade : ∀ read, w.shared.made ≤ read → w.shared.reads read = none
  listed : ∀ network read, w.shared.inflight network = some read → ∃ r, w.shared.reads read = some r ∧
    r.network = network ∧ r.verdict = none ∧ w.shared.now ≤ r.clock + readTimeoutMs
  each : ∀ j, (w.calls j).Sound w.shared
  stands : ∀ j network place finished clock, w.calls j = .wrote network halts place finished clock →
    Quiet network halts place w.shared.log → Stands network halts finished clock w
  told : ∀ i network begun ended v, w.calls i = .answered network begun ended v →
    ∀ j place finished clock, w.calls j = .wrote network halts place finished clock → finished ≤ begun →
      Quiet network halts place (w.shared.log.take ended) → v.fromStore = halts

/-- What no step takes back. -/
structure Extends (s s' : World) : Prop where
  log : s.log <+: s'.log
  now : s.now ≤ s'.now
  flag : ∀ network halts place, place ≤ s.log.length → Quiet network halts place s'.log →
    FlagIs s network halts → FlagIs s' network halts
  reads : ∀ read r, s.reads read = some r →
    ∃ verdict, s'.reads read = some ⟨r.network, r.startedAt, r.clock, r.begun, verdict⟩

/-- The cache and the reads are as they were. -/
structure Untouched (s s' : World) : Prop where
  cache : s'.cache = s.cache
  generation : s'.generation = s.generation
  reads : s'.reads = s.reads
  made : s'.made = s.made
  inflight : s'.inflight = s.inflight

theorem Untouched.refl : Untouched s s := ⟨rfl, rfl, rfl, rfl, rfl⟩

theorem Progress.Sound.mono {p : Progress} (h : p.Sound s) (hext : Extends s s') : p.Sound s' := by
  have hlength := hext.log.length_le
  cases p with
  | idle => trivial
  | executed network halts place =>
    obtain ⟨hplace, hflag⟩ := h
    refine ⟨hplace.trans_le hlength, fun hquiet => ?_⟩
    exact hext.flag network halts place hplace.le hquiet (hflag (hquiet.of_prefix hext.log))
  | wrote network halts place finished clock =>
    exact ⟨h.1, h.2.1.trans hlength, h.2.2.trans hext.now⟩
  | reading network read begun startedAt clock got =>
    obtain ⟨verdict, hread⟩ := h
    exact hext.reads _ _ hread
  | waiting network read begun =>
    obtain ⟨hbegun, r, hread, hnetwork⟩ := h
    obtain ⟨verdict, hread'⟩ := hext.reads read r hread
    exact ⟨hbegun.trans hlength, _, hread', hnetwork⟩
  | answered network begun ended verdict => exact ⟨h.1, h.2.trans hlength⟩

theorem Extends.of_same (hnow : s'.now = s.now) (hlog : s'.log = s.log) (hcells : s'.cells = s.cells)
    (hreads : s'.reads = s.reads) : Extends s s' where
  log := hlog ▸ List.prefix_refl _
  now := hnow.ge
  flag network halts place _ _ hflag := by
    rw [FlagIs, hcells]
    exact hflag
  reads read r hread := ⟨r.verdict, by rw [hreads, hread]⟩

section

variable {w w' : Tracked ι World Progress} {p' : Progress}

/-- What is left to show of a step, for the call that makes it and for each write that stands. -/
theorem Inv.move (h : Inv halts w) (hcalls : ∀ j, w'.calls j = p' ∨ w'.calls j = w.calls j)
    (hext : Extends w.shared w'.shared)
    (hreads : ∀ read r, w'.shared.reads read = some r → r.Sound w'.shared)
    (hunmade : ∀ read, w'.shared.made ≤ read → w'.shared.reads read = none)
    (hlisted : ∀ network read, w'.shared.inflight network = some read → ∃ r, w'.shared.reads read = some r ∧
      r.network = network ∧ r.verdict = none ∧ w'.shared.now ≤ r.clock + readTimeoutMs)
    (hown : p'.Sound w'.shared)
    (hstands : ∀ network place finished clock, place < finished → finished ≤ w.shared.log.length →
      clock ≤ w.shared.now → Quiet network halts place w'.shared.log → Stands network halts finished clock w →
        Stands network halts finished clock w')
    (hnew : ∀ network place finished clock, p' = .wrote network halts place finished clock →
      w.shared.log.length < finished ∧
        (Quiet network halts place w'.shared.log → Stands network halts finished clock w'))
    (htold : ∀ network begun ended v, p' = .answered network begun ended v →
      ended = w.shared.log.length ∧ ∀ finished clock, Stands network halts finished clock w →
        finished ≤ begun → v.fromStore = halts) :
    Inv halts w' := by
  have htake : ∀ ended, ended ≤ w.shared.log.length →
      w'.shared.log.take ended = w.shared.log.take ended := by
    intro ended hended
    obtain ⟨rest, hrest⟩ := hext.log
    rw [← hrest, List.take_append_of_le_length hended]
  refine ⟨hreads, hunmade, hlisted, fun j => ?_, fun j network place finished clock hj hquiet => ?_, ?_⟩
  · rcases hcalls j with hsame | hsame
    · rw [hsame]
      exact hown
    · rw [hsame]
      exact (h.each j).mono hext
  · rcases hcalls j with hsame | hsame
    · exact (hnew network place finished clock (hsame.symm.trans hj)).2 hquiet
    · have hold := hsame.symm.trans hj
      obtain ⟨hplace, hfinished, hclock⟩ := hold ▸ h.each j
      exact hstands network place finished clock hplace hfinished hclock hquiet
        (h.stands j network place finished clock hold (hquiet.of_prefix hext.log))
  · intro k network begun ended v hk j place finished clock hj hle hquiet
    rcases hcalls k with hk' | hk' <;> rcases hcalls j with hj' | hj'
    · rw [hk', ← hj', hj] at hk
      cases hk
    · obtain ⟨rfl, hagrees⟩ := htold network begun ended v (hk'.symm.trans hk)
      rw [htake _ le_rfl, List.take_length] at hquiet
      exact hagrees finished clock (h.stands j network place finished clock (hj'.symm.trans hj) hquiet) hle
    · obtain ⟨hlate, -⟩ := hnew network place finished clock (hj'.symm.trans hj)
      have hold := hk'.symm.trans hk
      obtain ⟨hbegun, hended⟩ := hold ▸ h.each k
      exact absurd (hle.trans (hbegun.trans hended)) (not_le.mpr hlate)
    · have hold := hk'.symm.trans hk
      obtain ⟨hbegun, hended⟩ := hold ▸ h.each k
      rw [htake _ hended] at hquiet
      exact h.told k network begun ended v hold j place finished clock (hj'.symm.trans hj) hle hquiet

/-- A step that touches neither the cache nor the reads. -/
theorem Stands.frame (h : Stands network halts finished clock w)
    (hcalls : ∀ j, w'.calls j = p' ∨ w'.calls j = w.calls j)
    (hflag : FlagIs w'.shared network halts) (hsame : Untouched w.shared w'.shared)
    (hgot : ∀ read begun startedAt clock got,
      p' = .reading network read begun startedAt clock (some got) → got = halts)
    (hwaiting : ∀ read begun, p' = .waiting network read begun → Agrees network halts read w) :
    Stands network halts finished clock w' := by
  refine ⟨hflag, ?_, ?_, ?_, ?_, fun read hconcerns => ?_⟩
  · rw [hsame.cache]
    exact h.cached
  · rw [hsame.cache]
    exact h.kept
  · rw [hsame.reads, hsame.generation]
    exact h.older
  · rw [hsame.reads]
    exact h.newer
  · have hagrees : Agrees network halts read w := by
      rcases hconcerns with ⟨r, hread, hnetwork, hbegun⟩ | ⟨j, begun, hj, hbegun⟩
      · exact h.agrees read (.inl ⟨r, hsame.reads ▸ hread, hnetwork, hbegun⟩)
      · rcases hcalls j with hj' | hj'
        · exact hwaiting read begun (hj'.symm.trans hj)
        · exact h.agrees read (.inr ⟨j, begun, hj'.symm.trans hj, hbegun⟩)
    refine ⟨fun j begun startedAt clock got hj => ?_, ?_⟩
    · rcases hcalls j with hj' | hj'
      · exact hgot read begun startedAt clock got (hj'.symm.trans hj)
      · exact hagrees.1 j begun startedAt clock got (hj'.symm.trans hj)
    · rw [hsame.reads]
      exact hagrees.2

end

/-! ## One step -/

section

variable [DecidableEq ι] {w : Tracked ι World Progress} {i : ι} {fate : Cells.Fate} {p : Progress}
  {c : Command}

theorem calls_meet {q : Ask} (hp : w.calls i = p) (j : ι) :
    (surroundings.meet i fate w q).2.calls j = p.next fate w.shared q ∨
      (surroundings.meet i fate w q).2.calls j = w.calls j := by
  subst hp
  rcases eq_or_ne j i with rfl | hne
  · exact .inl meet_calls_self
  · exact .inr (meet_calls_ne hne)

theorem extends_run (hc : Ordinary c) : Extends s (s.run c) where
  log := log_run
  now := le_rfl
  flag _ _ _ hplace hquiet hflag := flagIs_run hc hplace hquiet hflag
  reads _ r hread := ⟨r.verdict, hread⟩

theorem extends_react_run (hc : Ordinary c) : Extends s (react fate s (.run c)).2 := by
  change Extends s (if fate.executes then s.run c else s)
  split
  · exact extends_run hc
  · exact .of_same rfl rfl rfl rfl

theorem untouched_react_run : Untouched s (react fate s (.run c)).2 := by
  change Untouched s (if fate.executes then s.run c else s)
  split
  · exact ⟨rfl, rfl, rfl, rfl, rfl⟩
  · exact .refl

theorem now_react_run : (react fate s (.run c)).2.now = s.now := by
  change (if fate.executes then s.run c else s).now = s.now
  split <;> rfl

omit [DecidableEq ι] in
theorem Inv.within (h : Inv halts w) {network : NetworkId} {read : ℕ} {r : Read}
    (hinflight : w.shared.inflight network = some read) (hread : w.shared.reads read = some r) :
    w.shared.now ≤ r.clock + readTimeoutMs := by
  obtain ⟨r', hr', -, -, hnow⟩ := h.listed network read hinflight
  rw [hread] at hr'
  cases hr'
  exact hnow

omit [DecidableEq ι] in
/-- A step that neither looks at the cache nor changes it. -/
theorem Inv.frame {w' : Tracked ι World Progress} {p' : Progress} (h : Inv halts w)
    (hcalls : ∀ j, w'.calls j = p' ∨ w'.calls j = w.calls j)
    (hext : Extends w.shared w'.shared) (hsame : Untouched w.shared w'.shared)
    (hown : p'.Sound w'.shared)
    (hkind : p' = .idle ∨ (∃ network b place, p' = .executed network b place) ∨
      ∃ network read begun startedAt clock, p' = .reading network read begun startedAt clock
        (some (flag w.shared network)))
    (hnow : ∀ network read r, w.shared.inflight network = some read → w.shared.reads read = some r →
      w'.shared.now ≤ r.clock + readTimeoutMs) :
    Inv halts w' := by
  refine h.move hcalls hext ?_ ?_ ?_ hown ?_ ?_ ?_
  · rw [hsame.reads]
    intro read r hread
    obtain ⟨hstartedAt, hbegun, hclock⟩ := h.reads read r hread
    exact ⟨hsame.generation ▸ hstartedAt, hbegun.trans hext.log.length_le, hclock.trans hext.now⟩
  · rw [hsame.reads, hsame.made]
    exact h.unmade
  · rw [hsame.reads, hsame.inflight]
    intro network read hread
    obtain ⟨r, hr, hnetwork, hverdict, -⟩ := h.listed network read hread
    exact ⟨r, hr, hnetwork, hverdict, hnow network read r hread hr⟩
  · intro network place finished clock hplace hfinished _ hquiet hstands
    have hflag := hext.flag network halts place (hplace.le.trans hfinished) hquiet hstands.flag
    refine hstands.frame hcalls hflag hsame ?_ ?_
    · rintro read begun startedAt clock got rfl
      rcases hkind with hkind | ⟨_, _, _, hkind⟩ | ⟨n, _, _, _, _, hkind⟩
      · cases hkind
      · cases hkind
      · cases hkind
        exact flag_eq hstands.flag
    · rintro read begun rfl
      rcases hkind with hkind | ⟨_, _, _, hkind⟩ | ⟨n, _, _, _, _, hkind⟩ <;> cases hkind
  · rintro network place finished clock rfl
    rcases hkind with hkind | ⟨_, _, _, hkind⟩ | ⟨n, _, _, _, _, hkind⟩ <;> cases hkind
  · rintro network begun ended v rfl
    rcases hkind with hkind | ⟨_, _, _, hkind⟩ | ⟨n, _, _, _, _, hkind⟩ <;> cases hkind

omit [DecidableEq ι] in
/-- A step that does not move the call either. -/
theorem Inv.still {w' : Tracked ι World Progress} (h : Inv halts w) (hcalls : w'.calls = w.calls)
    (hext : Extends w.shared w'.shared) (hsame : Untouched w.shared w'.shared)
    (hnow : ∀ network read r, w.shared.inflight network = some read → w.shared.reads read = some r →
      w'.shared.now ≤ r.clock + readTimeoutMs) : Inv halts w' := by
  have hidle : ∀ j, w'.calls j = .idle ∨ w'.calls j = w.calls j := fun j => .inr (congrFun hcalls j)
  exact h.frame hidle hext hsame trivial (.inl rfl) hnow

omit [DecidableEq ι] in
theorem Inv.stirred (h : Inv halts w) (hs : Stirred w.shared s') : Inv halts { w with shared := s' } := by
  cases hs with
  | @time now hle hreads =>
    refine h.still rfl ?_ ⟨rfl, rfl, rfl, rfl, rfl⟩ hreads
    exact ⟨List.prefix_refl _, hle, fun _ _ _ _ _ hflag => hflag, fun read r hread => ⟨r.verdict, hread⟩⟩
  | elsewhere hc =>
    exact h.still rfl (extends_run hc) ⟨rfl, rfl, rfl, rfl, rfl⟩ fun _ _ _ => h.within

/-- A command that does not move the call. -/
theorem Inv.run_same (h : Inv halts w) (hc : Ordinary c) (hp : w.calls i = p)
    (hsame : p.next fate w.shared (.run c) = p) : Inv halts (surroundings.meet i fate w (.run c)).2 := by
  have hcalls : (surroundings.meet i fate w (.run c)).2.calls = w.calls := by
    refine (congrArg (Function.update w.calls i) ?_).trans (Function.update_eq_self i w.calls)
    rw [hp]
    exact hsame
  refine h.still hcalls (extends_react_run hc) untouched_react_run fun network read r hinflight hread => ?_
  rw [meet_shared]
  exact now_react_run.trans_le (h.within hinflight hread)

/-- A command that moves the call: what it has written, or found. -/
theorem Inv.run (h : Inv halts w) (hc : Ordinary c) (hp : w.calls i = p)
    (hown : (p.next fate w.shared (.run c)).Sound (react fate w.shared (.run c)).2)
    (hkind : (∃ network b place, p.next fate w.shared (.run c) = .executed network b place) ∨
      ∃ network read begun startedAt clock, p.next fate w.shared (.run c) =
        .reading network read begun startedAt clock (some (flag w.shared network))) :
    Inv halts (surroundings.meet i fate w (.run c)).2 := by
  refine h.frame (calls_meet hp) (extends_react_run hc) untouched_react_run hown (.inr hkind)
    fun network read r hinflight hread => ?_
  rw [meet_shared]
  exact now_react_run.trans_le (h.within hinflight hread)

theorem Inv.now (h : Inv halts w) : Inv halts (surroundings.meet i fate w .now).2 := by
  have hcalls : (surroundings.meet i fate w .now).2.calls = w.calls := Function.update_eq_self i w.calls
  exact h.still hcalls (.of_same rfl rfl rfl rfl) .refl fun _ _ _ => h.within

/-- The write of the call has been executed. -/
theorem Inv.execute (h : Inv halts w) {b : Bool} (hfate : fate.executes = true) (hp : w.calls i = p)
    (hc : c = .set (.halt network) "1" none ∧ b = true ∨ c = .del (.halt network) ∧ b = false) :
    p.next fate w.shared (.run c) = .executed network b w.shared.log.length ∧
      Inv halts (surroundings.meet i fate w (.run c)).2 := by
  have hreact : (react fate w.shared (.run c)).2 = w.shared.run c := if_pos hfate
  rcases hc with ⟨rfl, rfl⟩ | ⟨rfl, rfl⟩
  · have hnext : p.next fate w.shared (.run (.set (.halt network) "1" none)) =
        .executed network true w.shared.log.length := if_pos hfate
    refine ⟨hnext, h.run ⟨rfl, rfl⟩ hp ?_ (.inl ⟨_, _, _, hnext⟩)⟩
    rw [hnext, hreact]
    refine ⟨?_, fun _ => Cells.set_self⟩
    simp [World.run]
  · have hnext : p.next fate w.shared (.run (.del (.halt network))) =
        .executed network false w.shared.log.length := if_pos hfate
    refine ⟨hnext, h.run trivial hp ?_ (.inl ⟨_, _, _, hnext⟩)⟩
    rw [hnext, hreact]
    refine ⟨?_, fun _ => Cells.del_self⟩
    simp [World.run]

omit [DecidableEq ι] in
/-- The write of the call is over. -/
theorem Inv.finish {w' : Tracked ι World Progress} {b : Bool} {entry : Option (HaltVerdict × ℕ)}
    (h : Inv halts w) (hp : w.calls i = .executed network b place)
    (hcalls : ∀ j, w'.calls j = .wrote network b place (w.shared.log.length + 1) w.shared.now ∨
      w'.calls j = w.calls j)
    (hshared : w'.shared = w.shared.written network b entry)
    (hentry : ∀ v t, entry = some (v, t) → v.fromStore = b)
    (hkept : b = true → ∃ v, entry = some (v, w.shared.now)) : Inv halts w' := by
  obtain ⟨s', calls⟩ := w'
  obtain rfl : s' = w.shared.written network b entry := hshared
  have hlength : (w.shared.written network b entry).log.length = w.shared.log.length + 1 :=
    List.length_append
  have hext : Extends w.shared (w.shared.written network b entry) :=
    ⟨List.prefix_append .., le_rfl, fun _ _ _ _ _ hflag => hflag, fun read r hread => ⟨r.verdict, hread⟩⟩
  obtain ⟨hplace, hflag⟩ : place < w.shared.log.length ∧ _ := hp ▸ h.each i
  have hagrees : ∀ n f, (∀ read, Concerns n f read w → Agrees n halts read w) →
      ∀ read, Concerns n f read ⟨w.shared.written network b entry, calls⟩ →
        Agrees n halts read ⟨w.shared.written network b entry, calls⟩ := by
    intro n f hagrees read hconcerns
    have hold : Concerns n f read w := by
      rcases hconcerns with hread | ⟨j, begun, hj, hbegun⟩
      · exact .inl hread
      · rcases hcalls j with hsame | hsame
        · cases hsame.symm.trans hj
        · exact .inr ⟨j, begun, hsame.symm.trans hj, hbegun⟩
    refine ⟨fun j begun startedAt clock got hj => ?_, (hagrees read hold).2⟩
    rcases hcalls j with hsame | hsame
    · cases hsame.symm.trans hj
    · exact (hagrees read hold).1 j begun startedAt clock got (hsame.symm.trans hj)
  refine h.move hcalls hext ?_ h.unmade h.listed ⟨by omega, hlength.ge, le_rfl⟩ ?_ ?_ nofun
  · intro read r hread
    obtain ⟨hstartedAt, hbegun, hclock⟩ := h.reads read r hread
    exact ⟨hstartedAt.trans (Nat.le_succ _), hbegun.trans hext.log.length_le, hclock⟩
  · -- a write that stood before: this one is of another network, or to the same effect
    intro n k f t hk hf ht hquiet hstands
    have hsame : n = network → b = halts := fun hn => hquiet.last (by omega) hn.symm
    refine ⟨hstands.flag, fun v t' hcached => ?_, fun hhalts => ?_, fun read r hread hbegun => ?_,
      hstands.newer, hagrees n f hstands.agrees⟩
    · change Function.update w.shared.cache network entry n = some (v, t') at hcached
      rcases eq_or_ne n network with rfl | hne
      · rw [Function.update_self] at hcached
        exact (hentry v t' hcached).trans (hsame rfl)
      · rw [Function.update_of_ne hne] at hcached
        exact hstands.cached v t' hcached
    · change ∃ v t', Function.update w.shared.cache network entry n = some (v, t') ∧ t ≤ t'
      rcases eq_or_ne n network with rfl | hne
      · obtain ⟨v, hv⟩ := hkept ((hsame rfl).trans hhalts)
        exact ⟨v, w.shared.now, by rw [Function.update_self, hv], ht⟩
      · rw [Function.update_of_ne hne]
        exact hstands.kept hhalts
    · obtain ⟨hstarted, hclock⟩ := hstands.older read r hread hbegun
      exact ⟨hstarted.trans (Nat.lt_succ_self _), hclock⟩
  · rintro n k f t hwrote
    obtain ⟨rfl, rfl, rfl, rfl, rfl⟩ := Progress.wrote.inj hwrote
    refine ⟨Nat.lt_succ_self _, fun hquiet => ?_⟩
    refine ⟨hflag (hquiet.of_prefix hext.log), fun v t' hcached => ?_, fun hhalts => ?_,
      fun read r hread _ => ?_, fun read r hread hbegun => ?_, hagrees network _ fun read hconcerns => ?_⟩
    · change Function.update w.shared.cache network entry network = some (v, t') at hcached
      rw [Function.update_self] at hcached
      exact hentry v t' hcached
    · obtain ⟨v, hv⟩ := hkept hhalts
      refine ⟨v, w.shared.now, ?_, le_rfl⟩
      change Function.update w.shared.cache network entry network = _
      rw [Function.update_self, hv]
    · obtain ⟨hstartedAt, -, hclock⟩ := h.reads read r hread
      exact ⟨Nat.lt_succ_of_le hstartedAt, hclock⟩
    · exact absurd (hbegun.trans (h.reads read r hread).begun) (by omega)
    · -- no read was started or joined after a write that is only just over
      rcases hconcerns with ⟨r, hread, -, hbegun⟩ | ⟨j, begun, hj, hbegun⟩
      · exact absurd (hbegun.trans (h.reads read r hread).begun) (by omega)
      · have hwaiting : begun ≤ w.shared.log.length ∧ _ := hj ▸ h.each j
        omega

/-! ### Looking -/

theorem look_cases (s : World) (network : NetworkId) :
    (∃ v t, s.cache network = some (v, t) ∧ s.look network = (.hit v, s)) ∨
    (∃ read, (∀ v t, s.cache network = some (v, t) → t + cacheMs ≤ s.now) ∧
      s.inflight network = some read ∧ s.look network = (.pending read, s)) ∨
    s.look network = (.started s.made s.generation s.now, s.leave network) := by
  unfold World.look
  cases hfilter : (s.cache network).filter fun hit => s.now < hit.2 + cacheMs with
  | some hit =>
    obtain ⟨hcache, -⟩ := Option.filter_eq_some_iff.mp hfilter
    exact .inl ⟨hit.1, hit.2, hcache, rfl⟩
  | none =>
    cases hinflight : s.inflight network with
    | some read =>
      refine .inr (.inl ⟨read, fun v t hcache => ?_, rfl, rfl⟩)
      rw [hcache] at hfilter
      simpa [Option.filter] using hfilter
    | none => exact .inr (.inr rfl)

omit [DecidableEq ι] in
/-- A step that leaves the isolate and the store as they are. -/
theorem Inv.sees {w' : Tracked ι World Progress} {p' : Progress} (h : Inv halts w)
    (hcalls : ∀ j, w'.calls j = p' ∨ w'.calls j = w.calls j) (hshared : w'.shared = w.shared)
    (hown : p'.Sound w.shared)
    (hkind : (∃ network begun ended v, p' = .answered network begun ended v) ∨
      ∃ network read begun, p' = .waiting network read begun)
    (hwaiting : ∀ network read begun finished clock, p' = .waiting network read begun →
      Stands network halts finished clock w → Agrees network halts read w)
    (htold : ∀ network begun ended v, p' = .answered network begun ended v →
      ended = w.shared.log.length ∧ ∀ finished clock, Stands network halts finished clock w →
        finished ≤ begun → v.fromStore = halts) : Inv halts w' := by
  obtain ⟨s', calls⟩ := w'
  obtain rfl : s' = w.shared := hshared
  refine h.move hcalls (.of_same rfl rfl rfl rfl) h.reads h.unmade h.listed hown ?_ ?_ htold
  · intro network place finished clock _ _ _ _ hstands
    refine hstands.frame hcalls hstands.flag .refl ?_ fun read begun hp' => ?_
    · rintro read begun startedAt t got rfl
      rcases hkind with ⟨_, _, _, _, hkind⟩ | ⟨_, _, _, hkind⟩ <;> cases hkind
    · exact hwaiting network read begun finished clock hp' hstands
  · rintro network place finished clock rfl
    rcases hkind with ⟨_, _, _, _, hkind⟩ | ⟨_, _, _, hkind⟩ <;> cases hkind

omit [DecidableEq ι] in
/-- A read leaves. -/
theorem Inv.leave {w' : Tracked ι World Progress} (h : Inv halts w)
    (hcalls : ∀ j, w'.calls j = .reading network w.shared.made w.shared.log.length w.shared.generation
      w.shared.now none ∨ w'.calls j = w.calls j)
    (hshared : w'.shared = w.shared.leave network) : Inv halts w' := by
  obtain ⟨s', calls⟩ := w'
  obtain rfl : s' = w.shared.leave network := hshared
  have hself : (w.shared.leave network).reads w.shared.made =
      some ⟨network, w.shared.generation, w.shared.now, w.shared.log.length, none⟩ := Function.update_self ..
  have hother : ∀ read, read ≠ w.shared.made → (w.shared.leave network).reads read = w.shared.reads read :=
    fun read hne => Function.update_of_ne hne ..
  have hread : ∀ read r, (w.shared.leave network).reads read = some r →
      r = ⟨network, w.shared.generation, w.shared.now, w.shared.log.length, none⟩ ∨
        w.shared.reads read = some r := by
    intro read r hr
    rcases eq_or_ne read w.shared.made with rfl | hne
    · rw [hself] at hr
      exact .inl (Option.some.inj hr).symm
    · exact .inr (hother read hne ▸ hr)
  have hsome : ∀ read r, w.shared.reads read = some r → (w.shared.leave network).reads read = some r := by
    intro read r hr
    have hne : read ≠ w.shared.made := by
      rintro rfl
      rw [h.unmade _ le_rfl] at hr
      cases hr
    rw [hother read hne, hr]
  have hext : Extends w.shared (w.shared.leave network) :=
    ⟨List.prefix_refl _, le_rfl, fun _ _ _ _ _ hflag => hflag, fun read r hr => ⟨r.verdict, hsome read r hr⟩⟩
  refine h.move hcalls hext ?_ ?_ ?_ ⟨none, hself⟩ ?_ nofun nofun
  · intro read r hr
    rcases hread read r hr with rfl | hold
    · exact ⟨le_rfl, le_rfl, le_rfl⟩
    · obtain ⟨hstartedAt, hbegun, hclock⟩ := h.reads read r hold
      exact ⟨hstartedAt, hbegun, hclock⟩
  · intro read hmade
    have hlt : w.shared.made < read := hmade
    rw [hother read hlt.ne', h.unmade read hlt.le]
  · intro n read hinflight
    change Function.update w.shared.inflight network (some w.shared.made) n = some read at hinflight
    rcases eq_or_ne n network with rfl | hne
    · rw [Function.update_self] at hinflight
      obtain rfl := Option.some.inj hinflight
      exact ⟨_, hself, rfl, rfl, Nat.le_add_right ..⟩
    · rw [Function.update_of_ne hne] at hinflight
      obtain ⟨r, hr, hnetwork, hverdict, hnow⟩ := h.listed n read hinflight
      exact ⟨r, hsome read r hr, hnetwork, hverdict, hnow⟩
  · intro n k f t _ hf ht _ hstands
    refine ⟨hstands.flag, hstands.cached, hstands.kept, fun read r hr hbegun => ?_,
      fun read r hr hbegun => ?_, fun read hconcerns => ?_⟩
    · rcases hread read r hr with rfl | hold
      · exact absurd hf (not_le.mpr hbegun)
      · exact hstands.older read r hold hbegun
    · rcases hread read r hr with rfl | hold
      · exact ht
      · exact hstands.newer read r hold hbegun
    · have hagrees : ∀ r, w.shared.reads read = some r → Agrees n halts read w := by
        intro r hr
        refine hstands.agrees read ?_
        rcases hconcerns with ⟨r', hr', hnetwork, hbegun⟩ | ⟨j, begun, hj, hbegun⟩
        · obtain rfl := Option.some.inj ((hsome read r hr).symm.trans hr')
          exact .inl ⟨r, hr, hnetwork, hbegun⟩
        · rcases hcalls j with hsame | hsame
          · cases hsame.symm.trans hj
          · exact .inr ⟨j, begun, hsame.symm.trans hj, hbegun⟩
      refine ⟨fun j begun startedAt clock got hj => ?_, fun r v hr hnetwork hv => ?_⟩
      · rcases hcalls j with hsame | hsame
        · cases hsame.symm.trans hj
        · have hold := hsame.symm.trans hj
          obtain ⟨verdict, hr⟩ : (Progress.reading ..).Sound w.shared := hold ▸ h.each j
          exact (hagrees _ hr).1 j begun startedAt clock got hold
      · rcases hread read r hr with rfl | hold
        · cases hv
        · exact (hagrees r hold).2 r v hold hnetwork hv

theorem Inv.look (h : Inv halts w) (hmet : Meets halts i fate w (.look network)) :
    Inv halts (surroundings.meet i fate w (.look network)).2 := by
  have hcalls : ∀ j, (surroundings.meet i fate w (.look network)).2.calls j =
      .looked network w.shared.log.length (w.shared.look network).1 ∨ _ := calls_meet rfl
  have hshared : (surroundings.meet i fate w (.look network)).2.shared = (w.shared.look network).2 := rfl
  rcases look_cases w.shared network with ⟨v, t, hcache, hlook⟩ | ⟨read, hold, hinflight, hlook⟩ | hlook
  · rw [hlook] at hcalls hshared
    refine h.sees hcalls hshared ⟨le_rfl, le_rfl⟩ (.inl ⟨_, _, _, _, rfl⟩) nofun ?_
    rintro n begun ended v' hp'
    obtain ⟨rfl, rfl, rfl, rfl⟩ := Progress.answered.inj hp'
    exact ⟨rfl, fun finished clock hstands _ => hstands.cached v t hcache⟩
  · obtain ⟨r, hread, hnetwork, hverdict, hnow⟩ := h.listed network read hinflight
    rw [hlook] at hcalls hshared
    refine h.sees hcalls hshared ⟨le_rfl, r, hread, hnetwork⟩ (.inr ⟨_, _, _, rfl⟩) ?_ nofun
    rintro n read' begun finished clock hp' hstands
    obtain ⟨rfl, rfl, rfl⟩ := Progress.waiting.inj hp'
    by_cases hbegun : finished ≤ r.begun
    · exact hstands.agrees read (.inl ⟨r, hread, hnetwork, hbegun⟩)
    · cases halts with
      | true =>
        -- such a read would have timed out before the halt that is cached is stale
        obtain ⟨v, t, hcache, ht⟩ := hstands.kept rfl
        have hstale := hold v t hcache
        have hclock := (hstands.older read r hread (not_le.mp hbegun)).2
        unfold cacheMs at hstale
        unfold readTimeoutMs at hnow
        omega
      | false =>
        refine ⟨fun j begun startedAt clock got hj => ?_, fun r' v hr' _ hv => ?_⟩
        · cases got with
          | false => rfl
          | true =>
            have hflag := hmet.fresh rfl network read rfl (by rw [hlook]) j begun startedAt clock hj
            rw [flag_eq hstands.flag] at hflag
            cases hflag
        · rw [hread] at hr'
          cases hr'
          rw [hverdict] at hv
          cases hv
  · rw [hlook] at hcalls hshared
    exact h.leave hcalls hshared

/-! ### The end of a read -/

variable {read begun startedAt now : ℕ} {got : Bool} {v : HaltVerdict}

omit [DecidableEq ι] in
/-- The verdict of a read that was started after the last write was over is cached. -/
theorem Inv.cache (h : Inv halts w)
    (hp : w.calls i = .reading network read begun w.shared.generation now (some got)) (hv : v.fromStore = got) :
    Inv halts { w with
      shared := { w.shared with cache := Function.update w.shared.cache network (some (v, now)) } } := by
  obtain ⟨verdict, hread⟩ : (Progress.reading ..).Sound w.shared := hp ▸ h.each i
  have hidle : ∀ j, w.calls j = .idle ∨ w.calls j = w.calls j := fun _ => .inr rfl
  refine h.move hidle (.of_same rfl rfl rfl rfl) ?_ h.unmade h.listed trivial ?_ nofun nofun
  · intro read r hr
    obtain ⟨hstartedAt, hbegun, hclock⟩ := h.reads read r hr
    exact ⟨hstartedAt, hbegun, hclock⟩
  · intro n k f t _ _ _ _ hstands
    have hlate : f ≤ begun := by
      by_contra hbegun
      exact lt_irrefl _ (hstands.older read _ hread (not_le.mp hbegun)).1
    refine ⟨hstands.flag, fun v' t' hcached => ?_, fun hhalts => ?_, hstands.older, hstands.newer,
      hstands.agrees⟩
    · change Function.update w.shared.cache network (some (v, now)) n = some (v', t') at hcached
      rcases eq_or_ne n network with rfl | hne
      · rw [Function.update_self] at hcached
        obtain ⟨rfl, rfl⟩ := Prod.mk.inj (Option.some.inj hcached)
        rw [hv]
        exact (hstands.agrees read (.inl ⟨_, hread, rfl, hlate⟩)).1 i _ _ _ got hp
      · rw [Function.update_of_ne hne] at hcached
        exact hstands.cached v' t' hcached
    · change ∃ v' t', Function.update w.shared.cache network (some (v, now)) n = some (v', t') ∧ t ≤ t'
      rcases eq_or_ne n network with rfl | hne
      · exact ⟨v, now, Function.update_self .., hstands.newer read _ hread hlate⟩
      · rw [Function.update_of_ne hne]
        exact hstands.kept hhalts

/-- The verdict is cached, unless one was written meanwhile. -/
theorem Inv.settle (h : Inv halts w)
    (hp : w.calls i = .reading network read begun startedAt now (some got)) (hv : v.fromStore = got) :
    Inv halts (surroundings.meet i fate w (.settle network startedAt v now)).2 := by
  have hmeet : (surroundings.meet i fate w (.settle network startedAt v now)).2 =
      { w with shared := w.shared.settle network startedAt v now } :=
    congrArg (Tracked.mk _) (Function.update_eq_self i w.calls)
  rw [hmeet, World.settle]
  split
  · next hgeneration =>
    subst hgeneration
    exact h.cache hp hv
  · exact h

/-- The read is over. -/
theorem Inv.unlist (h : Inv halts w)
    (hp : w.calls i = .reading network read begun startedAt now (some got)) (hv : v.fromStore = got) :
    Inv halts (surroundings.meet i fate w (.unlist network read v)).2 := by
  obtain ⟨verdict, hread⟩ : (Progress.reading ..).Sound w.shared := hp ▸ h.each i
  have hcalls : ∀ j, (surroundings.meet i fate w (.unlist network read v)).2.calls j =
      .answered network begun w.shared.log.length v ∨ _ := calls_meet hp
  have hself : (w.shared.unlist network read v).reads read = some ⟨network, startedAt, now, begun, some v⟩ := by
    change Function.update w.shared.reads read _ read = _
    rw [Function.update_self, hread]
    rfl
  have hother : ∀ read', read' ≠ read → (w.shared.unlist network read v).reads read' = w.shared.reads read' :=
    fun read' hne => Function.update_of_ne hne ..
  have hreads : ∀ read' r', (w.shared.unlist network read v).reads read' = some r' →
      ∃ r, w.shared.reads read' = some r ∧ r.network = r'.network ∧ r.startedAt = r'.startedAt ∧
        r.clock = r'.clock ∧ r.begun = r'.begun ∧ (r' = r ∨ read' = read ∧ r'.verdict = some v) := by
    intro read' r' hr'
    rcases eq_or_ne read' read with rfl | hne
    · rw [hself] at hr'
      obtain rfl := Option.some.inj hr'
      exact ⟨_, hread, rfl, rfl, rfl, rfl, .inr ⟨rfl, rfl⟩⟩
    · exact ⟨r', hother read' hne ▸ hr', rfl, rfl, rfl, rfl, .inl rfl⟩
  have hext : Extends w.shared (w.shared.unlist network read v) := by
    refine ⟨List.prefix_refl _, le_rfl, fun _ _ _ _ _ hflag => hflag, fun read' r hr => ?_⟩
    rcases eq_or_ne read' read with rfl | hne
    · obtain rfl := Option.some.inj (hread.symm.trans hr)
      exact ⟨some v, hself⟩
    · exact ⟨r.verdict, (hother read' hne).trans hr⟩
  have hagrees : ∀ n f t, Stands n halts f t w → ∀ read', Concerns n f read' w → Agrees n halts read'
      ⟨w.shared.unlist network read v, (surroundings.meet i fate w (.unlist network read v)).2.calls⟩ := by
    intro n f t hstands read' hconcerns
    have hold := hstands.agrees read' hconcerns
    refine ⟨fun j b sa c g hj => ?_, fun r' v' hr' hnetwork hv' => ?_⟩
    · rcases hcalls j with hsame | hsame
      · cases hsame.symm.trans hj
      · exact hold.1 j b sa c g (hsame.symm.trans hj)
    · obtain ⟨r, hr, hn, -, -, -, rfl | ⟨rfl, hverdict⟩⟩ := hreads read' r' hr'
      · exact hold.2 r' v' hr hnetwork hv'
      · obtain rfl := Option.some.inj (hread.symm.trans hr)
        obtain rfl : network = n := hn.trans hnetwork
        obtain rfl := Option.some.inj (hverdict.symm.trans hv')
        exact hv.trans (hold.1 i _ _ _ got hp)
  refine h.move hcalls hext ?_ ?_ ?_ ⟨(h.reads read _ hread).begun, le_rfl⟩ ?_ nofun ?_
  · intro read' r' hr'
    obtain ⟨r, hr, -, hstartedAt, hclock, hbegun, -⟩ := hreads read' r' hr'
    obtain ⟨hs, hb, hc⟩ := h.reads read' r hr
    exact ⟨hstartedAt ▸ hs, hbegun ▸ hb, hclock ▸ hc⟩
  · intro read' hmade
    refine Option.eq_none_iff_forall_ne_some.mpr fun r' hr' => ?_
    obtain ⟨r, hr, -⟩ := hreads read' r' hr'
    rw [h.unmade read' hmade] at hr
    cases hr
  · intro n read' hinflight
    change Function.update w.shared.inflight network none n = some read' at hinflight
    rcases eq_or_ne n network with rfl | hne
    · rw [Function.update_self] at hinflight
      cases hinflight
    · rw [Function.update_of_ne hne] at hinflight
      obtain ⟨r, hr, hnetwork, hverdict, hnow⟩ := h.listed n read' hinflight
      have hdiffers : read' ≠ read := by
        rintro rfl
        obtain rfl := Option.some.inj (hread.symm.trans hr)
        exact hne hnetwork.symm
      exact ⟨r, (hother read' hdiffers).trans hr, hnetwork, hverdict, hnow⟩
  · intro n k f t _ _ _ _ hstands
    refine ⟨hstands.flag, hstands.cached, hstands.kept, fun read' r' hr' hbegun => ?_,
      fun read' r' hr' hbegun => ?_, fun read' hconcerns => hagrees n f t hstands read' ?_⟩
    · obtain ⟨r, hr, -, hstartedAt, hclock, hb, -⟩ := hreads read' r' hr'
      rw [← hstartedAt, ← hclock]
      exact hstands.older read' r hr (hb ▸ hbegun)
    · obtain ⟨r, hr, -, -, hclock, hb, -⟩ := hreads read' r' hr'
      rw [← hclock]
      exact hstands.newer read' r hr (hb ▸ hbegun)
    · rcases hconcerns with ⟨r', hr', hnetwork, hbegun⟩ | ⟨j, b, hj, hbegun⟩
      · obtain ⟨r, hr, hn, -, -, hb, -⟩ := hreads read' r' hr'
        exact .inl ⟨r, hr, hn.trans hnetwork, hb ▸ hbegun⟩
      · rcases hcalls j with hsame | hsame
        · cases hsame.symm.trans hj
        · exact .inr ⟨j, b, hsame.symm.trans hj, hbegun⟩
  · intro n b ended v' hp'
    obtain ⟨rfl, rfl, rfl, rfl⟩ := Progress.answered.inj hp'
    refine ⟨rfl, fun f t hstands hf => ?_⟩
    rw [hv]
    exact (hstands.agrees read (.inl ⟨_, hread, rfl, hf⟩)).1 i _ _ _ got hp

/-- A call that has waited for a read goes on with its verdict. -/
theorem Inv.join (h : Inv halts w) (hp : w.calls i = .waiting network read begun)
    (hmet : Meets halts i fate w (.join read)) : Inv halts (surroundings.meet i fate w (.join read)).2 := by
  obtain ⟨v, hv⟩ := Option.isSome_iff_exists.mp (hmet.joined read rfl)
  obtain ⟨r, hread, hverdict⟩ := Option.bind_eq_some_iff.mp hv
  have hcalls : ∀ j, (surroundings.meet i fate w (.join read)).2.calls j =
      .answered network begun w.shared.log.length ((w.shared.verdictOf read).getD .none) ∨ _ := calls_meet hp
  rw [hv] at hcalls
  obtain ⟨hbegun, r', hread', hnetwork⟩ : (Progress.waiting ..).Sound w.shared := hp ▸ h.each i
  refine h.sees hcalls rfl ⟨hbegun, le_rfl⟩ (.inl ⟨_, _, _, _, rfl⟩) nofun ?_
  rintro n b ended v' hp'
  obtain ⟨rfl, rfl, rfl, rfl⟩ := Progress.answered.inj hp'
  refine ⟨rfl, fun finished clock hstands hfinished => ?_⟩
  obtain rfl := Option.some.inj (hread.symm.trans hread')
  exact (hstands.agrees read (.inr ⟨i, begun, hp, hfinished⟩)).2 r v hread hnetwork hverdict

end

/-! ## The calls keep it -/

section

variable [DecidableEq ι] {env : Env} {i : ι} {p : Progress} {α : Type} {N : Except String α → Progress → Prop}
  {c : Command} {read begun startedAt now : ℕ}

/-- A command that does not move the call. -/
theorem keeps_send (hc : Ordinary c) (hsame : ∀ fate s, p.next fate s (.run c) = p)
    {f : Except String c.Answer → Call α}
    (hf : ∀ a, Keeps surroundings (Meets halts) (Inv halts) i p (f a) N) :
    Keeps surroundings (Meets halts) (Inv halts) i p (send c >>= f) N := by
  refine .ask (fun fate w h hp hmet => h.run_same hc hp (hsame fate w.shared)) fun fate w h hp hmet => ?_
  have hnext : surroundings.next p fate w.shared (.run c) = p := hsame fate w.shared
  rw [hnext]
  exact hf _

/-- A read is answered. -/
theorem keeps_get {k : Key} (hsame : ∀ fate s, p.next fate s (.run (.get k)) = p)
    {f : Except String (Option String) → Call α}
    (hf : ∀ a, Keeps surroundings (Meets halts) (Inv halts) i p (f (.ok a)) N) :
    Keeps surroundings (Meets halts) (Inv halts) i p (send (.get k) >>= f) N := by
  refine .ask (fun fate w h hp hmet => h.run_same trivial hp (hsame fate w.shared)) fun fate w h hp hmet => ?_
  obtain rfl := hmet.answered k rfl
  have hnext : surroundings.next p .done w.shared (.run (.get k)) = p := hsame .done w.shared
  rw [hnext]
  exact hf _

theorem keeps_getHalt {f : Except String (Option String) → Call α}
    (hf : ∀ a, Keeps surroundings (Meets halts) (Inv halts) i
      (.reading network read begun startedAt now (some (a = some "1"))) (f (.ok a)) N) :
    Keeps surroundings (Meets halts) (Inv halts) i (.reading network read begun startedAt now none)
      (send (.get (.halt network)) >>= f) N := by
  refine .ask (fun fate w h hp hmet => ?_) fun fate w h hp hmet => ?_
  · refine h.run trivial hp ?_ (.inr ⟨_, _, _, _, _, rfl⟩)
    have hsound : (Progress.reading network read begun startedAt now none).Sound w.shared := hp ▸ h.each i
    refine Progress.Sound.mono ?_ (extends_react_run trivial)
    exact hsound
  · obtain rfl := hmet.answered _ rfl
    exact hf _

/-- What a read has found is in its verdict. -/
theorem keeps_readHalt : Keeps surroundings (Meets halts) (Inv halts) i
    (.reading network read begun startedAt now none) (readHalt network) fun r p => ∃ v got,
      r = .ok v ∧ p = .reading network read begun startedAt now (some got) ∧ v.fromStore = got := by
  refine keeps_getHalt fun ofNetwork => keeps_get (fun _ _ => rfl) fun legacy => ?_
  refine keeps_get (fun _ _ => rfl) fun reason => ?_
  change Keeps _ _ _ i _ (if ofNetwork = some "1" then _ else _) _
  refine .ite (fun hhalt => ?_) fun hnot => .ite (fun hlegacy => ?_) fun hnone => ?_
  · exact .ret ⟨_, _, rfl, rfl, by simp [hhalt, HaltVerdict.fromStore]⟩
  · exact .ret ⟨_, _, rfl, rfl, by simp [hnot, HaltVerdict.fromStore]⟩
  · exact .ret ⟨_, _, rfl, rfl, by simp [hnot, HaltVerdict.fromStore, HaltVerdict.none]⟩

theorem keeps_look {f : Found → Call α}
    (hf : ∀ found place, Keeps surroundings (Meets halts) (Inv halts) i (.looked network place found) (f found) N) :
    Keeps surroundings (Meets halts) (Inv halts) i p (ask (.look network) >>= f) N :=
  .ask (fun _ _ h _ hmet => h.look hmet) fun _ _ _ _ _ => hf _ _

/-- A call has its verdict from the environment, or is recorded with it. -/
def Told (env : Env) (network : NetworkId) (r : Except String HaltVerdict) (p : Progress) : Prop :=
  ∀ v, r = .ok v → (v.halted = true ∧ v.source = some .env) ∨ env.kv = false ∨
    ∃ begun ended, p = .answered network begun ended v

theorem told_answered {v : HaltVerdict} {ended : ℕ} :
    Told env network (.ok v) (.answered network begun ended v) := by
  rintro v' ⟨⟩
  exact .inr (.inr ⟨_, _, rfl⟩)

theorem keeps_haltStatus : Keeps surroundings (Meets halts) (Inv halts) i .idle (haltStatus env network)
    (Told env network) := by
  refine .ite (fun _ => .ret ?_) fun _ => .ite (fun hkv => .ret fun _ _ => .inr (.inl hkv)) fun _ => ?_
  · rintro v ⟨⟩
    exact .inl ⟨rfl, rfl⟩
  · refine keeps_look fun found place => ?_
    cases found with
    | hit verdict => exact .ret told_answered
    | pending read => exact .ask (fun fate w h hp hmet => h.join hp hmet) fun _ _ _ _ _ => .ret told_answered
    | started read startedAt now =>
      refine Keeps.bind (N := fun r p => ∃ v got, r = .ok v ∧
        p = .reading network read place startedAt now (some got) ∧ v.fromStore = got) ?_ ?_ ?_
      · refine keeps_readHalt.andThen fun r p hr => ?_
        obtain ⟨v, got, rfl, rfl, hv⟩ := hr
        exact .ret ⟨v, got, rfl, rfl, hv⟩
      · rintro v p ⟨v', got, heq, rfl, hv⟩
        obtain rfl := Except.ok.inj heq
        refine .ask (fun fate w h hp hmet => h.settle hp hv) fun fate w h hp hmet => ?_
        exact .ask (fun fate w h hp hmet => h.unlist hp hv) fun _ _ _ _ _ => .ret told_answered
      · rintro e p ⟨v, got, heq, -⟩
        cases heq

/-- The pipeline of a write has been executed when it is answered. -/
theorem keeps_pipe {first second : Command} {b : Bool}
    (hfirst : first = .set (.halt network) "1" none ∧ b = true ∨ first = .del (.halt network) ∧ b = false)
    (hsecond : Ordinary second) (hsame : ∀ p fate s, Progress.next p fate s (.run second) = p) :
    Keeps surroundings (Meets halts) (Inv halts) i .idle (pipe first second) fun r p =>
      r = .ok () → ∃ place, p = .executed network b place := by
  have hc : Ordinary first := by
    rcases hfirst with ⟨rfl, -⟩ | ⟨rfl, -⟩
    · exact ⟨rfl, rfl⟩
    · trivial
  refine .ask (fun fate w h hp hmet => ?_) fun fate w h hp hmet => ?_
  · cases hfate : fate.executes with
    | true => exact (h.execute hfate hp hfirst).2
    | false =>
      refine h.run_same hc hp ?_
      rcases hfirst with ⟨rfl, -⟩ | ⟨rfl, -⟩
      · exact if_neg (by rw [hfate]; exact Bool.noConfusion)
      · exact if_neg (by rw [hfate]; exact Bool.noConfusion)
  · refine keeps_send hsecond (hsame _) fun second => ?_
    cases fate with
    | done =>
      have hnext : Progress.next .idle .done w.shared (.run first) =
          .executed network b w.shared.log.length := (h.execute rfl hp hfirst).1
      cases second with
      | ok a => exact .ret fun _ => ⟨_, hnext⟩
      | error message => exact .ret nofun
    | lost message => exact .ret nofun
    | failed message => exact .ret nofun

/-- A write that says so is over. -/
def Over (env : Env) (network : NetworkId) (halts : Bool) (r : Except String Bool) (p : Progress) : Prop :=
  r = .ok true → env.kv = true ∧ ∃ place finished clock, p = .wrote network halts place finished clock

theorem keeps_setHalt {reason : String} : Keeps surroundings (Meets halts) (Inv halts) i .idle
    (setHalt env network reason) (Over env network true) := by
  refine .ite (fun hkv => .ret nofun) fun hkv => ?_
  refine .ask (fun fate w h hp hmet => h.now) fun fate w h hp hmet => ?_
  refine (keeps_pipe (.inl ⟨rfl, rfl⟩) (by trivial) fun _ _ _ => rfl).bind (fun _ p hp => ?_) fun _ _ _ => nofun
  obtain ⟨place, rfl⟩ := hp rfl
  refine .ask (fun fate w h hp hmet => ?_) fun fate w h hp hmet => ?_
  · refine h.finish hp (calls_meet hp) rfl (fun v t heq => ?_) fun _ => ⟨_, rfl⟩
    obtain ⟨rfl, -⟩ := Prod.mk.inj (Option.some.inj heq)
    rfl
  · exact .ret fun _ => ⟨by simpa using hkv, _, _, _, rfl⟩

theorem keeps_clearHalt : Keeps surroundings (Meets halts) (Inv halts) i .idle (clearHalt env network)
    (Over env network false) := by
  refine .ite (fun hkv => .ret nofun) fun hkv => ?_
  refine (keeps_pipe (.inr ⟨rfl, rfl⟩) (by trivial) fun _ _ _ => rfl).bind (fun _ p hp => ?_) fun _ _ _ => nofun
  obtain ⟨place, rfl⟩ := hp rfl
  refine .ask (fun fate w h hp hmet => ?_) fun fate w h hp hmet => ?_
  · exact h.finish hp (calls_meet hp) rfl nofun nofun
  · exact .ret fun _ => ⟨by simpa using hkv, _, _, _, rfl⟩

/-- What the record says of a call that has ended. -/
def Request.Ends (env : Env) : Request → Except String Reply → Progress → Prop
  | .haltStatus network, r, p => ∀ v, r = .ok (.verdict v) → Told env network (.ok v) p
  | .setHalt network _, r, p => r = .ok (.written true) →
    env.kv = true ∧ ∃ place finished clock, p = .wrote network true place finished clock
  | .clearHalt network, r, p => r = .ok (.written true) →
    env.kv = true ∧ ∃ place finished clock, p = .wrote network false place finished clock

theorem keeps_call (req : Request) : Keeps surroundings (Meets halts) (Inv halts) i .idle (req.call env)
    (req.Ends env) := by
  cases req with
  | haltStatus network =>
    refine keeps_haltStatus.bind (fun v p hp => .ret fun v' hv' => ?_) fun e p _ _ => nofun
    obtain rfl := Reply.verdict.inj (Except.ok.inj hv')
    exact hp
  | setHalt network reason =>
    refine keeps_setHalt.bind (fun done p hp => .ret fun hdone => ?_) fun e p _ => nofun
    obtain rfl := Reply.written.inj (Except.ok.inj hdone)
    exact hp rfl
  | clearHalt network =>
    refine keeps_clearHalt.bind (fun done p hp => .ret fun hdone => ?_) fun e p _ => nofun
    obtain rfl := Reply.written.inj (Except.ok.inj hdone)
    exact hp rfl

/-! ## Whole runs -/

/-- Calls of these requests. -/
abbrev crowd (env : Env) (s : World) (req : ι → Request) : Crowd ι Ask.Answer String Reply (Tracked ι World Progress) :=
  started s .idle fun i => (req i).call env

/-- An isolate that has not read its halts yet. -/
structure Started (s : World) : Prop where
  reads : ∀ read, s.reads read = none
  inflight : ∀ network, s.inflight network = none

omit [DecidableEq ι] in
theorem Started.inv (h : Started s) : Inv halts (⟨s, fun _ => .idle⟩ : Tracked ι World Progress) where
  reads read r hread := by
    rw [h.reads] at hread
    cases hread
  unmade read _ := h.reads read
  listed network read hread := by
    rw [h.inflight] at hread
    cases hread
  each _ := trivial
  stands _ _ _ _ _ := nofun
  told _ _ _ _ _ := nofun

/-- A write of the halt, or of its end. -/
def Request.writes (network : NetworkId) : Bool → Request → Prop
  | true, req => ∃ reason, req = .setHalt network reason
  | false, req => req = .clearHalt network

/-- Call `j` began when the write of `i` was over, and before it had its verdict nothing was written to
the contrary after `i`: no command of such a write was executed, and none was over. -/
def Unopposed (network : NetworkId) (halts : Bool)
    (y : Crowd ι Ask.Answer String Reply (Tracked ι World Progress)) (i j : ι) : Prop :=
  ∀ place finished clock begun ended v, y.world.calls i = .wrote network halts place finished clock →
    y.world.calls j = .answered network begun ended v →
      finished ≤ begun ∧ Quiet network halts place (y.world.shared.log.take ended)

/-- A halt, or that there is none by the key of the network. -/
def HaltVerdict.Says (halts : Bool) (v : HaltVerdict) : Prop :=
  if halts then v.halted = true else ¬(v.halted = true ∧ v.source = some .store)

theorem says_of_fromStore {v : HaltVerdict} (h : v.fromStore = halts) : v.Says halts := by
  unfold HaltVerdict.fromStore at h
  cases halts with
  | true => exact (Bool.and_eq_true_iff.mp h).1
  | false => simpa [HaltVerdict.Says] using h

/-- **The switch takes effect at once**: a call that begins when a write is over has it in its verdict,
in every run whose reads are answered within their timeout. After the end of a halt this is so where no
call joins a read that has found the halt before. -/
theorem kill_switch_at_once {req : ι → Request}
    {y : Crowd ι Ask.Answer String Reply (Tracked ι World Progress)} (hs : Started s)
    (hy : Leads (surroundings.Steps (Meets halts)) (Stirs Stirred) (crowd env s req) y) {i j : ι}
    (hi : (req i).writes network halts) (hj : req j = .haltStatus network)
    (hwrite : y.prog i = .ret (.ok (.written true))) {v : HaltVerdict}
    (hread : y.prog j = .ret (.ok (.verdict v))) (hsince : Unopposed network halts y i j) :
    v.Says halts := by
  obtain ⟨hinv, -, hends⟩ := leads_keeps hs.inv (fun w s' h hstir => h.stirred hstir)
    (fun i => keeps_call (req i)) hy
  have hwrote : env.kv = true ∧ ∃ place finished clock,
      y.world.calls i = .wrote network halts place finished clock := by
    have hend := hends i _ hwrite
    cases halts with
    | true =>
      obtain ⟨reason, hi⟩ := hi
      rw [hi] at hend
      exact hend rfl
    | false =>
      rw [show req i = .clearHalt network from hi] at hend
      exact hend rfl
  obtain ⟨hkv, place, finished, clock, hcall⟩ := hwrote
  have htold := hends j _ hread
  rw [hj] at htold
  rcases htold v rfl v rfl with ⟨hhalted, hsource⟩ | hno | ⟨begun, ended, hcall'⟩
  · cases halts with
    | true => exact hhalted
    | false =>
      rintro ⟨-, hstore⟩
      rw [hsource] at hstore
      cases hstore
  · rw [hkv] at hno
    cases hno
  · obtain ⟨hbegun, hquiet⟩ := hsince place finished clock begun ended v hcall hcall'
    exact says_of_fromStore (hinv.told j network begun ended v hcall' i place finished clock hcall hbegun hquiet)

end

namespace Demo

local instance inhabited : NeZero 3 := ⟨by decide⟩

def env : Env := ⟨false, true, toString⟩

/-- A check of the steps of a run, in which nobody joins a read where it is about the end of a halt. -/
def meets (halts : Bool) (_ : Fin 3) (fate : Cells.Fate) (w : Tracked (Fin 3) World Progress) : Ask → Bool
  | .run (.get _) => fate = .done
  | .join read => (w.shared.verdictOf read).isSome
  | .look network => halts || match (w.shared.look network).1 with
    | .pending _ => false
    | _ => true
  | _ => true

theorem meets_of_check {halts : Bool} {i : Fin 3} {fate : Cells.Fate} {w : Tracked (Fin 3) World Progress}
    {q : Ask} (h : meets halts i fate w q = true) : Meets halts i fate w q where
  answered k hq := by
    subst hq
    exact of_decide_eq_true h
  joined read hq := by
    subst hq
    exact h
  fresh hhalts network read hq hpending := by
    subst hhalts hq
    rw [meets, hpending] at h
    cases h

/-- An isolate that has just started, with what its store says of mainnet. -/
def fresh (halted : Bool) : World where
  now := 0
  cells := if halted then Cells.empty.set (.halt .mainnet) "1" none else Cells.empty
  cache _ := none
  inflight _ := none
  generation := 0
  reads _ := none
  made := 0
  log := []

theorem started_fresh {halted : Bool} : Started (fresh halted) := ⟨fun _ => rfl, fun _ => rfl⟩

/-- A call asks, the halt is written or taken away, and another call asks. -/
def requests (halts : Bool) (i : Fin 3) : Request :=
  if i = 1 then if halts then .setHalt .mainnet "spend" else .clearHalt .mainnet else .haltStatus .mainnet

def done (i : Fin 3) : Fin 3 × Cells.Fate := (i, .done)

/-- The first read has found the flag when it is written, and ends after it. -/
def slow : List (Fin 3 × Cells.Fate) :=
  [0, 0, 1, 1, 1, 1, 0, 0, 0, 0, 2].map done

/-- The first call asks and has its answer, the halt is taken away, and another call asks. -/
def inTurn : List (Fin 3 × Cells.Fate) :=
  [0, 0, 0, 0, 0, 0, 1, 1, 1, 2, 2, 2, 2, 2, 2].map done

/-- The last call joins the read that has found the halt before it was taken away. -/
def joined : List (Fin 3 × Cells.Fate) :=
  [0, 0, 1, 1, 1, 2, 0, 0, 0, 0, 2].map done

abbrev after (halts : Bool) (ds : List (Fin 3 × Cells.Fate)) :
    Crowd (Fin 3) Ask.Answer String Reply (Tracked (Fin 3) World Progress) :=
  (crowd env (fresh !halts) (requests halts)).play surroundings.meet ds

theorem unopposed {halts : Bool} {y : Crowd (Fin 3) Ask.Answer String Reply (Tracked (Fin 3) World Progress)}
    {v : HaltVerdict} (hi : y.world.calls 1 = .wrote .mainnet halts 0 2 0)
    (hj : y.world.calls 2 = .answered .mainnet 2 2 v)
    (hlog : y.world.shared.log = [⟨.mainnet, halts⟩, ⟨.mainnet, halts⟩]) :
    Unopposed .mainnet halts y 1 2 := by
  intro place finished clock begun ended v' hi' hj'
  obtain ⟨-, -, rfl, rfl, -⟩ := Progress.wrote.inj (hi.symm.trans hi')
  obtain ⟨-, rfl, rfl, -⟩ := Progress.answered.inj (hj.symm.trans hj')
  refine ⟨le_rfl, ?_⟩
  rw [hlog]
  cases halts <;> unfold Quiet <;> decide

/-- The second call has written, and the third has this verdict. -/
structure Ends (halts : Bool) (ds : List (Fin 3 × Cells.Fate)) (v : HaltVerdict) : Prop where
  wrote : ((after halts ds).prog 1).result = some (.ok (.written true))
  told : ((after halts ds).prog 2).result = some (.ok (.verdict v))
  first : (after halts ds).world.calls 1 = .wrote .mainnet halts 0 2 0
  last : (after halts ds).world.calls 2 = .answered .mainnet 2 2 v
  log : (after halts ds).world.shared.log = [⟨.mainnet, halts⟩, ⟨.mainnet, halts⟩]

instance {halts : Bool} {ds : List (Fin 3 × Cells.Fate)} {v : HaltVerdict} : Decidable (Ends halts ds v) :=
  decidable_of_iff (_ ∧ _ ∧ _ ∧ _ ∧ _)
    ⟨fun ⟨h₁, h₂, h₃, h₄, h₅⟩ => ⟨h₁, h₂, h₃, h₄, h₅⟩, fun ⟨h₁, h₂, h₃, h₄, h₅⟩ => ⟨h₁, h₂, h₃, h₄, h₅⟩⟩

def halted (reason : Option String) : HaltVerdict := ⟨true, some .store, reason⟩

theorem runs : ((crowd env (fresh false) (requests true)).fairly surroundings.meet (meets true) slow = true ∧
      Ends true slow (halted (some "0 spend"))) ∧
    ((crowd env (fresh true) (requests false)).fairly surroundings.meet (meets false) inTurn = true ∧
      Ends false inTurn .none) ∧
    ((crowd env (fresh true) (requests false)).fairly surroundings.meet (meets true) joined = true ∧
      Ends false joined (halted none)) := by
  decide +kernel

end Demo

/-- A halt is answered although a read that has not found it ends later, and its end when all is still. -/
theorem kill_switch_at_once_in_turn :
    (Demo.halted (some "0 spend")).Says true ∧ HaltVerdict.none.Says false := by
  obtain ⟨⟨hset, hends⟩, ⟨hclear, hends'⟩, -⟩ := Demo.runs
  constructor
  · refine kill_switch_at_once Demo.started_fresh (leads_meet (fun _ _ _ _ => Demo.meets_of_check) hset)
      ?_ ?_ (eq_ret_of_result hends.wrote) (eq_ret_of_result hends.told)
      (Demo.unopposed hends.first hends.last hends.log)
    · exact ⟨"spend", rfl⟩
    · rfl
  · refine kill_switch_at_once Demo.started_fresh (leads_meet (fun _ _ _ _ => Demo.meets_of_check) hclear)
      ?_ ?_ (eq_ret_of_result hends'.wrote) (eq_ret_of_result hends'.told)
      (Demo.unopposed hends'.first hends'.last hends'.log)
    · rfl
    · rfl

/-- **A halt is answered that is no more.** A call joins the read which has found it before it was
taken away. -/
theorem cleared_halt_answered : ¬∀ (env : Env) (s : World) (req : Fin 3 → Request) (network : NetworkId)
    (halts : Bool) (y : Crowd (Fin 3) Ask.Answer String Reply (Tracked (Fin 3) World Progress)), Started s →
      Leads (surroundings.Steps (Meets true)) (Stirs Stirred) (crowd env s req) y → ∀ i j,
        (req i).writes network halts → req j = .haltStatus network →
          y.prog i = .ret (.ok (.written true)) → ∀ v, y.prog j = .ret (.ok (.verdict v)) →
            Unopposed network halts y i j → v.Says halts := by
  intro hall
  obtain ⟨-, -, hjoined, hends⟩ := Demo.runs
  have hleads : Leads (surroundings.Steps (Meets true)) (Stirs Stirred)
      (crowd Demo.env (Demo.fresh true) (Demo.requests false)) (Demo.after false Demo.joined) :=
    leads_meet (fun _ _ _ _ => Demo.meets_of_check) hjoined
  have hsays := hall _ _ _ .mainnet false _ Demo.started_fresh hleads 1 2 rfl rfl
    (eq_ret_of_result hends.wrote) _ (eq_ret_of_result hends.told)
    (Demo.unopposed hends.first hends.last hends.log)
  exact hsays ⟨rfl, rfl⟩

end Lumenia.Sponsor.KillSwitch
