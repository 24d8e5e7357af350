import Lumenia.Sponsor.WatchdogScan

/-!
# What a run of the watchdog writes

A run that is not the Worker's scheduled one writes nothing, and one that may not halt does not halt. The stamp
of a full run is asked for exactly in the runs in which every check got what it needs to do its job.
-/

namespace Lumenia.Sponsor.Watchdog.Tripwires

open Dialogue
open Paging (Blind)
open Proofs (NetworkId)

/-- What has been asked and answered. -/
abbrev Record := List (Dialogue.Event Ask.Answer)

/-! ## Read-only runs -/

/-- A write to the store, or a mail. The halt is apart. -/
def Ask.writes : Ask → Bool
  | .kvSet .. | .kvSetLedger .. => true
  | .paging q => Tripwires.writes q
  | _ => false

/-- What is asked before the stamps. -/
def Allowed (cfg : Config) : Ask → Prop
  | .setHalt _ => cfg.autoHalt = true
  | .kvSet key _ => key ≠ lastFullRunKey cfg ∧ cfg.paging.persist = true
  | q => q.writes = true → cfg.paging.persist = true

section

variable {cfg : Config} {now : ℕ} {s : State} {α : Type} {scan : Scan} {left : ℕ}

theorem wasmKey_ne_lastFullRunKey {contract : String} : wasmKey contract ≠ lastFullRunKey cfg := by
  intro heq
  have htake := congrArg (fun key => key.toList.take 10) heq
  unfold wasmKey lastFullRunKey at htake
  generalize cfg.network = network at htake
  cases network <;> simp [NetworkId.text, String.toList_append] at htake

theorem opsKey_ne_lastFullRunKey : opsKey cfg ≠ lastFullRunKey cfg := fun heq => network_text_ne heq.symm

theorem allowed_of_inert {q : Ask} (hq : Inert cfg q) : Allowed cfg q := by
  cases q with
  | kvSet key value =>
    obtain ⟨⟨contract, rfl⟩, hpersist⟩ := hq
    exact ⟨wasmKey_ne_lastFullRunKey, hpersist⟩
  | kvSetLedger key value => exact fun _ => hq
  | paging q => exact hq
  | setHalt reason => exact hq.elim
  | _ => exact nofun

theorem allowed_inert {p : Run α} {N : Except Empty α → Prop} (h : p.Within (Inert cfg) N) :
    p.Within (Allowed cfg) fun _ => True :=
  h.mono (fun _ => allowed_of_inert) fun _ _ => trivial

/-- The questions of the halt step. -/
def Halting (cfg : Config) : Ask → Prop
  | .setHalt _ => cfg.autoHalt = true
  | .storeHaltIsSet => True
  | _ => False

theorem halting_haltBefore {halt : Halt} : (haltBefore halt).Within (Halting cfg) fun _ => True := by
  unfold haltBefore
  split
  · trivial
  · exact ⟨trivial, fun _ => trivial⟩

/-- The halt step changes the halt alone. -/
theorem halting_haltNow : (haltNow cfg s).Within (Halting cfg) fun r => ∀ s', r = .ok s' →
    ∃ halt, s' = { s with halt := halt } := by
  rw [haltNow]
  refine within_ite (fun _ s' hs' => ⟨s.halt, (Except.ok.inj hs').symm⟩) fun hhalts => ?_
  have hauto : cfg.autoHalt = true := by
    simp only [Bool.or_eq_true, Bool.not_eq_true', not_or, Bool.not_eq_false] at hhalts
    exact hhalts.1.1
  apply halting_haltBefore.seq
  intro _ _
  exact within_question_bind hauto fun _ s' hs' => ⟨_, (Except.ok.inj hs').symm⟩

theorem allowed_haltNow :
    (haltNow cfg s).Within (Allowed cfg) fun r => ∀ s', r = .ok s' → s'.checked = s.checked := by
  refine halting_haltNow.mono (fun q hq => ?_) fun r hr s' hs' => ?_
  · cases q with
    | setHalt reason => exact hq
    | storeHaltIsSet => exact nofun
    | _ => exact hq.elim
  · obtain ⟨halt, rfl⟩ := hr s' hs'
    rfl

/-- What was checked before is all that is checked. -/
abbrev KeepsChecked {α : Type} (s : State) (r : Except Empty (α × State)) : Prop :=
  ∀ out, r = .ok out → out.2.checked = s.checked

theorem keepsChecked_ok {out : α × State} (hsame : out.2.checked = s.checked) : KeepsChecked s (.ok out) := by
  intro out' hout
  obtain rfl := Except.ok.inj hout
  exact hsame

theorem allowed_walk : (walk cfg now left scan s).Within (Allowed cfg) (KeepsChecked s) := by
  induction left generalizing scan s with
  | zero => exact keepsChecked_ok rfl
  | succ left ih =>
    rw [walk]
    apply within_question_bind (fun h => absurd h Bool.false_ne_true)
    intro a
    cases a with
    | error e => exact keepsChecked_ok rfl
    | ok records =>
      refine within_ite (fun _ => keepsChecked_ok rfl) fun _ => within_ite (fun _ => ?_) fun _ => keepsChecked_ok rfl
      refine within_ite (fun _ => allowed_haltNow.seq fun s' hs' => ?_) fun _ => ih (s := s.pushAll _)
      exact ih.result fun r hr out hout => (hr out hout).trans (hs' _ rfl)

theorem allowed_checkSponsorAccount :
    (checkSponsorAccount cfg now s).Within (Allowed cfg) (KeepsChecked s) := by
  unfold checkSponsorAccount
  apply within_question_bind nofun
  intro balances
  rcases balances with e | (_ | alerts)
  · exact keepsChecked_ok rfl
  · exact keepsChecked_ok rfl
  refine (allowed_inert within_kvRead).seq fun read _ => ?_
  cases read with
  | error message => exact keepsChecked_ok rfl
  | ok cursor =>
    refine within_ite (fun _ => ?_) fun _ => ?_
    · apply within_question_bind nofun
      intro a
      cases a with
      | error e => exact keepsChecked_ok rfl
      | ok records => exact within_ite (fun _ => keepsChecked_ok rfl) fun _ => keepsChecked_ok rfl
    · apply allowed_walk.seq
      intro out hout
      obtain ⟨e | ⟨scan, full, pages⟩, s'⟩ := out
      · exact keepsChecked_ok (hout _ rfl)
      · refine within_ite (fun _ => keepsChecked_ok ?_) fun _ => keepsChecked_ok ?_
        · cases full
          · exact hout _ rfl
          · exact hout _ rfl
        · cases full
          · exact hout _ rfl
          · exact hout _ rfl

theorem allowed_checkRest {blind : Blind} {c : Paging.Check} :
    (checkRest cfg now blind c s).Within (Allowed cfg) fun _ => True :=
  allowed_inert within_checkRest

theorem allowed_runChecks {blind : Blind} : (runChecks cfg now blind).Within (Allowed cfg) fun _ => True := by
  unfold runChecks
  apply allowed_checkSponsorAccount.seq
  intro _ _
  apply allowed_haltNow.seq
  intro _ _
  refine (allowed_inert within_governed).seq fun _ _ => (allowed_inert within_checkWasmHash).seq fun _ _ => ?_
  apply allowed_haltNow.seq
  intro _ _
  apply allowed_checkRest.seq
  intro _ _
  apply allowed_checkRest.seq
  intro _ _
  exact allowed_haltNow.result fun _ _ => trivial

/-- The write of the cursor. -/
def Moving (cfg : Config) : Ask → Prop
  | .kvSet key _ => key = opsKey cfg ∧ cfg.paging.persist = true
  | _ => False

theorem allowed_of_moving {q : Ask} (hq : Moving cfg q) : Allowed cfg q := by
  cases q with
  | kvSet key value => exact ⟨hq.1 ▸ opsKey_ne_lastFullRunKey, hq.2⟩
  | _ => exact hq.elim

theorem moving_moveOpsCursor : (moveOpsCursor cfg s).Within (Moving cfg) fun _ => True := by
  unfold moveOpsCursor
  split
  · trivial
  refine within_ite (fun _ => trivial) fun hmoves => within_kvSet ⟨rfl, ?_⟩
  simp only [Bool.or_eq_true, Bool.not_eq_true', not_or, Bool.not_eq_false] at hmoves
  exact hmoves.1

theorem moving_reportHalt :
    (reportHalt cfg s).Within (Moving cfg) fun r => ∀ s', r = .ok s' → s'.checked = s.checked := by
  refine within_ite (fun _ => ?_) fun _ => ?_
  · apply moving_moveOpsCursor.seq
    intro scanMoved _ s' hs'
    obtain rfl := Except.ok.inj hs'
    rfl
  · apply moving_moveOpsCursor.seq
    intro scanMoved _ s' hs'
    obtain rfl := Except.ok.inj hs'
    rfl

/-- A run that is not the scheduled one, or may not halt. -/
def ReadOnly (cfg : Config) (q : Ask) : Prop :=
  (q.writes = true → cfg.paging.persist = true) ∧ ∀ reason, q = .setHalt reason → cfg.autoHalt = true

theorem readOnly_of_allowed {q : Ask} (hq : Allowed cfg q) : ReadOnly cfg q := by
  cases q with
  | setHalt reason => exact ⟨nofun, fun _ _ => hq⟩
  | kvSet key value => exact ⟨fun _ => hq.2, nofun⟩
  | _ => exact ⟨hq, nofun⟩

theorem readOnly_of_quiet {q : Ask} (hq : Quiet cfg q) : ReadOnly cfg q := by
  cases q with
  | setHalt reason => exact hq.elim
  | kvSet key value => exact ⟨fun _ => hq.2, nofun⟩
  | kvSetLedger key value => exact ⟨fun _ => hq, nofun⟩
  | paging q => exact ⟨hq, nofun⟩
  | _ => exact ⟨nofun, nofun⟩

theorem readOnly_runWatchdog : (runWatchdog cfg now).Within (ReadOnly cfg) fun _ => True := by
  have hallowed {β : Type} {p : Run β} {N : Except Empty β → Prop} (hp : p.Within (Allowed cfg) N) :
      p.Within (ReadOnly cfg) N := hp.mono (fun _ => readOnly_of_allowed) fun _ => id
  unfold runWatchdog
  refine (hallowed (allowed_inert (within_paging within_readBlind))).seq fun _ _ => ?_
  refine (hallowed allowed_runChecks).seq fun _ _ => ?_
  refine (hallowed (moving_reportHalt.mono (fun _ => allowed_of_moving) fun _ => id)).seq fun _ _ => ?_
  refine (hallowed (allowed_inert (within_paging within_saveBlind))).seq fun _ _ => ?_
  refine (hallowed (allowed_inert (within_paging within_deliver))).seq fun _ _ => ?_
  exact (within_heartbeat.mono (fun _ => readOnly_of_quiet) fun _ => id).seq fun _ _ => trivial

/-- A run by hand writes nothing and mails nothing, and it halts only if it is told to. -/
theorem writes_only_when_scheduled {p : Run WatchdogReport} {h : Record}
    (hreach : Reaches (recorded fun _ _ => True) (runWatchdog cfg now) [] p h) :
    ∀ e ∈ h, (e.1.writes = true → cfg.paging.persist = true) ∧
      ∀ reason, e.1 = .setHalt reason → cfg.autoHalt = true := by
  have hstep : ∀ q, ReadOnly cfg q → ∀ (h : Record) a h', (∀ e ∈ h, ReadOnly cfg e.1) →
      recorded (fun _ _ => True) h q a h' → ∀ e ∈ h', ReadOnly cfg e.1 := by
    rintro q hq h a _ hall ⟨-, rfl⟩
    exact List.forall_mem_append.mpr ⟨hall, List.forall_mem_singleton.mpr hq⟩
  have hwithin : (runWatchdog cfg now).Within (ReadOnly cfg) fun _ => True := readOnly_runWatchdog
  have halong := hwithin.along hstep (fun _ => id) (fun _ hmem => absurd hmem List.not_mem_nil)
  exact (hreach.along halong).now

end

namespace Demo

/-- A run by hand: nothing is written. -/
def byHand : Config := { config with paging := { config.paging with persist := false }, autoHalt := false }

def answer (_ : Record) (q : Ask) : q.Answer := (meet (World.fresh 9) q).1

/-- What a run asks and is answered. -/
def asked (cfg : Config) : Record := ((runWatchdog cfg 1000).play answer []).2

theorem runs_asked {cfg : Config} :
    Runs (recorded fun _ _ => True) (runWatchdog cfg 1000) [] ((runWatchdog cfg 1000).play answer []).1 (asked cfg) :=
  runs_play (fun _ _ => trivial) _ _

end Demo

theorem writes_only_when_scheduled_demo : Demo.byHand.paging.persist = false ∧ Demo.byHand.autoHalt = false ∧
    ∀ e ∈ Demo.asked Demo.byHand, e.1.writes = false ∧ ∀ reason, e.1 ≠ .setHalt reason := by
  refine ⟨rfl, rfl, fun e he => ?_⟩
  obtain ⟨hwrites, hhalts⟩ := writes_only_when_scheduled Demo.runs_asked.reaches e he
  refine ⟨Bool.eq_false_iff.mpr fun h => ?_, fun reason h => ?_⟩
  · exact Bool.false_ne_true (hwrites h)
  · exact Bool.false_ne_true (hhalts reason h)

/-! ## Full runs -/

section

variable {cfg : Config} {now : ℕ} {s : State} {α : Type} {scan : Scan} {left : ℕ}

/-- An answer that keeps a check from doing its job: a read that has failed, an account without a native
balance, a latest ledger without a number, and what a check that is told of has thrown. The second read of
the code only confirms what the check has found. -/
def Hampers : (q : Ask) → q.Answer → Prop
  | .balances, a => ∀ alerts, a ≠ .ok (some alerts)
  | .kvRead _, a => ∃ message, a = .error message
  | .operations _, a => ∃ e, a = .error e
  | .kvReadLedger _, a => ∃ message, a = .error message
  | .getLatestLedger, a => (∃ e, a = .error e) ∨ a = .ok none ∨ a = .ok (some 0)
  | .getEvents .., a => ∃ e, a = .error e
  | .readInstance again, a => again = false ∧ ∃ e, a = .error e
  | .rest _, a => a.failure.isSome = true
  | _, _ => False

/-- A check that has done its job. -/
abbrev Complete (r : Except Empty (Except Paging.Failure Bool × State)) : Prop := ∀ out, r = .ok out → out.1 = .ok true

theorem complete_ok : Complete (.ok (.ok true, s)) := by
  intro out hout
  obtain rfl := Except.ok.inj hout
  rfl

theorem not_complete {r : Except Paging.Failure Bool} (hr : r ≠ .ok true) : ¬Complete (.ok (r, s)) :=
  fun h => hr (h _ rfl)

theorem not_complete_error {e : Paging.Failure} : ¬Complete (.ok (.error e, s)) := by
  apply not_complete
  intro h
  cases h

theorem not_complete_false : ¬Complete (.ok (.ok false, s)) := by
  apply not_complete
  intro h
  cases h

variable {contract : String}

theorem exact_kvRead {key : String} : (kvRead cfg key).Exact Hampers fun r => ∀ a, r = .ok a → ∃ v, a = .ok v := by
  refine exact_ite (fun _ a => ⟨?_, fun ha b hb => ?_⟩) fun _ a ha => ?_
  · rintro ⟨message, rfl⟩ hgood
    obtain ⟨v, hv⟩ := hgood _ rfl
    cases hv
  · obtain rfl := Except.ok.inj hb
    cases a with
    | error message => exact absurd ⟨message, rfl⟩ ha
    | ok v => exact ⟨v, rfl⟩
  · obtain rfl := Except.ok.inj ha
    exact ⟨none, rfl⟩

theorem helps_of_halting {q : Ask} {a : q.Answer} (hq : Halting cfg q) : ¬Hampers q a := by
  cases q with
  | setHalt reason => exact id
  | storeHaltIsSet => exact id
  | _ => exact hq.elim

/-- The scan has read its last page. -/
abbrev Ended (r : Except Empty (Except Paging.Failure (Scan × Bool × ℕ) × State)) : Prop :=
  ∀ out, r = .ok out → ∃ x, out.1 = .ok x

theorem ended_ok {x : Scan × Bool × ℕ} : Ended (.ok (.ok x, s)) := by
  intro out hout
  obtain rfl := Except.ok.inj hout
  exact ⟨x, rfl⟩

/-- The pages are read to the end unless the read of one fails. -/
theorem exact_walk : (walk cfg now left scan s).Exact Hampers Ended := by
  induction left generalizing scan s with
  | zero => exact ended_ok
  | succ left ih =>
    rw [walk]
    refine fun a => ⟨?_, fun ha => ?_⟩
    · rintro ⟨e, rfl⟩ hgood
      obtain ⟨x, hx⟩ := hgood _ rfl
      cases hx
    · cases a with
      | error e => exact absurd ⟨e, rfl⟩ ha
      | ok records =>
        refine exact_ite (fun _ => ended_ok) fun _ => exact_ite (fun _ => exact_ite (fun _ => ?_) fun _ => ih) fun _ =>
          ended_ok
        exact halting_haltNow.exact_seq (fun _ hq _ => helps_of_halting hq) fun _ _ => ih

theorem exact_checkSponsorAccount : (checkSponsorAccount cfg now s).Exact Hampers Complete := by
  unfold checkSponsorAccount
  refine fun balances => ⟨fun hnone => ?_, fun hsome => ?_⟩
  · rcases balances with e | (_ | alerts)
    · exact not_complete nofun
    · exact not_complete nofun
    · exact absurd rfl (hnone alerts)
  rcases balances with e | (_ | alerts)
  · exact absurd (fun _ => nofun) hsome
  · exact absurd (fun _ => nofun) hsome
  refine exact_kvRead.seq (fun read hread => ?_) fun read hread => ?_
  · obtain ⟨cursor, rfl⟩ := hread
    refine exact_ite (fun _ => ?_) fun _ => ?_
    · refine fun a => ⟨?_, fun ha => ?_⟩
      · intro h
        obtain ⟨e, rfl⟩ := h
        exact not_complete nofun
      · cases a with
        | error e => exact absurd ⟨e, rfl⟩ ha
        | ok records => exact exact_ite (fun _ => complete_ok) fun _ => complete_ok
    · refine exact_walk.seq (fun out hout => ?_) fun out hout => ?_
      · obtain ⟨r, s'⟩ := out
        obtain ⟨⟨scan, full, pages⟩, rfl⟩ := hout
        exact exact_ite (fun _ => complete_ok) fun _ => complete_ok
      · obtain ⟨e | x, s'⟩ := out
        · exact not_complete nofun
        · exact absurd ⟨x, rfl⟩ hout
  · cases read with
    | error message => exact not_complete nofun
    | ok cursor => exact absurd ⟨cursor, rfl⟩ hread

/-- The same for the questions of the governance watch. -/
def Unread : (q : Watchdog.Ask) → q.Answer → Prop
  | .kvRead _, a => ∃ message, a = .error message
  | .getLatestLedger, a => (∃ message, a = .error message) ∨ a = .ok none ∨ a = .ok (some 0)
  | .getEvents .., a => ∃ message, a = .error message
  | _, _ => False

theorem within_pushHits {governance : GovernanceConfig} {list : List Event} :
    (pushHits governance contract list).Within (fun q => ∃ alert, q = .push alert) fun r => r = .ok () := by
  induction list with
  | nil => exact rfl
  | cons ev list ih =>
    rw [pushHits]
    split
    · exact within_question_bind ⟨_, rfl⟩ fun _ => ih
    · exact ih

theorem exact_checkGovernance {governance : GovernanceConfig} :
    (checkGovernance governance).Exact Unread (· = .ok true) := by
  unfold checkGovernance
  split
  · exact rfl
  rename_i contract hcontract
  refine fun read => ⟨?_, fun hread => ?_⟩
  · intro h
    obtain ⟨message, rfl⟩ := h
    exact nofun
  cases read with
  | error message => exact absurd ⟨message, rfl⟩ hread
  | ok saved =>
    refine fun latest => ⟨?_, fun hlatest => ?_⟩
    · rintro (⟨message, rfl⟩ | rfl | rfl)
      · exact nofun
      · exact nofun
      · exact nofun
    rcases latest with message | (_ | (_ | latest))
    · exact absurd (.inl ⟨message, rfl⟩) hlatest
    · exact absurd (.inr (.inl rfl)) hlatest
    · exact absurd (.inr (.inr rfl)) hlatest
    refine fun events => ⟨?_, fun hevents => ?_⟩
    · intro h
      obtain ⟨message, rfl⟩ := h
      exact nofun
    cases events with
    | error message => exact absurd ⟨message, rfl⟩ hevents
    | ok list =>
      refine Within.exact (K := fun q => ∀ a, ¬Unread q a) ?_ fun _ => id
      refine (within_pushHits.mono ?_ fun _ => id).bind (fun _ _ => ?_) nofun
      · rintro _ ⟨alert, rfl⟩ _
        exact id
      · exact within_question_bind (fun _ => id) fun _ => rfl

/-- What never comes to a good end does not in the run. -/
theorem not_complete_governed {p : Watchdog.Check Bool} (hp : p.Within (fun _ => True) (· ≠ .ok true)) :
    (governed cfg p s).Within (fun _ => True) fun r => ¬Complete r := by
  induction p generalizing s with
  | ret r =>
    rcases r with message | (_ | _)
    · exact not_complete_error
    · exact not_complete_false
    · exact absurd rfl hp
  | ask q k ih =>
    cases q with
    | push alert =>
      rw [governed]
      exact ih () (hp.2 ())
    | kvRead key =>
      rw [governed]
      exact within_ite (fun _ => ⟨trivial, fun a => ih a (hp.2 a)⟩) fun _ => ih _ (hp.2 _)
    | kvSet key value =>
      rw [governed]
      exact within_ite (fun _ => ⟨trivial, fun a => ih a (hp.2 a)⟩) fun _ => ih _ (hp.2 _)
    | getLatestLedger =>
      rw [governed]
      refine ⟨trivial, fun a => ?_⟩
      cases a with
      | error e => exact not_complete_error
      | ok latest => exact ih _ (hp.2 _)
    | getEvents start limit =>
      rw [governed]
      refine ⟨trivial, fun a => ?_⟩
      cases a with
      | error e => exact not_complete_error
      | ok events => exact ih _ (hp.2 _)

theorem exact_governed {p : Watchdog.Check Bool} (hp : p.Exact Unread (· = .ok true)) :
    (governed cfg p s).Exact Hampers Complete := by
  induction p generalizing s with
  | ret r =>
    obtain rfl : r = .ok true := hp
    exact complete_ok
  | ask q k ih =>
    cases q with
    | push alert =>
      rw [governed]
      exact ih () ((hp ()).2 id)
    | kvRead key =>
      rw [governed]
      refine exact_ite (fun _ a => ?_) fun _ => ih _ ((hp _).2 ?_)
      · exact ⟨fun ha => not_complete_governed ((hp a).1 ha), fun ha => ih a ((hp a).2 ha)⟩
      · intro h
        obtain ⟨message, hmessage⟩ := h
        cases hmessage
    | kvSet key value =>
      rw [governed]
      exact exact_ite (fun _ a => ⟨False.elim, fun _ => ih a ((hp a).2 id)⟩) fun _ => ih _ ((hp _).2 id)
    | getLatestLedger =>
      rw [governed]
      intro a
      cases a with
      | error e => exact ⟨fun _ => not_complete_error, fun ha => absurd (.inl ⟨e, rfl⟩) ha⟩
      | ok latest =>
        have hsame : Hampers .getLatestLedger (.ok latest) ↔ Unread .getLatestLedger (.ok latest) := by
          simp [Hampers, Unread]
        exact ⟨fun ha => not_complete_governed ((hp _).1 (hsame.mp ha)), fun ha => ih _ ((hp _).2 (mt hsame.mpr ha))⟩
    | getEvents start limit =>
      rw [governed]
      intro a
      cases a with
      | error e => exact ⟨fun _ => not_complete_error, fun ha => absurd ⟨e, rfl⟩ ha⟩
      | ok events =>
        refine ⟨?_, fun _ => ih _ ((hp _).2 ?_)⟩
        · intro h
          obtain ⟨e, he⟩ := h
          cases he
        · intro h
          obtain ⟨e, he⟩ := h
          cases he

theorem exact_compareTo {pinned observed : String} {source : PinSource} :
    (compareTo cfg contract pinned observed source s).Exact Hampers Complete := by
  refine exact_ite (fun _ => complete_ok) fun _ => ?_
  refine exact_question_bind fun _ => ⟨False.elim, fun _ => ?_⟩
  refine exact_question_bind fun again => ⟨fun h => absurd h.1 nofun, fun _ => ?_⟩
  split
  · exact complete_ok
  · exact complete_ok

theorem exact_comparePin {observed : String} :
    (comparePin cfg contract observed s).Exact Hampers Complete := by
  apply exact_ite (fun _ => exact_compareTo)
  intro _
  refine exact_kvRead.seq (fun read hread => ?_) fun read hread => ?_
  · obtain ⟨pinned, rfl⟩ := hread
    refine exact_ite (fun _ => exact_ite (fun _ => ?_) fun _ => complete_ok) fun _ => exact_compareTo
    have hset : (kvSet cfg (wasmKey contract) observed).Within (· = .kvSet (wasmKey contract) observed) fun _ => True :=
      within_kvSet rfl
    refine hset.exact_seq ?_ fun _ _ => complete_ok
    rintro _ rfl _
    exact id
  · cases read with
    | error message => exact not_complete nofun
    | ok pinned => exact absurd ⟨pinned, rfl⟩ hread

theorem exact_checkWasmHash : (checkWasmHash cfg s).Exact Hampers Complete := by
  refine exact_ite (fun _ => complete_ok) fun _ entry => ⟨?_, fun hentry => ?_⟩
  · intro h
    obtain ⟨-, e, rfl⟩ := h
    exact not_complete nofun
  · rcases entry with e | (_ | _ | observed)
    · exact absurd ⟨rfl, e, rfl⟩ hentry
    · exact complete_ok
    · exact complete_ok
    · exact exact_comparePin

/-! ### The stamp -/

variable {h es : Record} {blind : Blind} {c : Paging.Check} {done : List Paging.Check}

/-- An event that has kept no check from doing its job. -/
abbrev Helps (e : Dialogue.Event Ask.Answer) : Prop := ¬Hampers e.1 e.2

/-- Of the checks that are done, all have done their job exactly if no answer kept them from it. -/
structure Counted (cfg : Config) (s : State) (done : List Paging.Check) (h : Record) : Prop where
  allowed : ∀ e ∈ h, Allowed cfg e.1
  subset : s.checked ⊆ done
  complete : (∀ e ∈ h, Helps e) ↔ done ⊆ s.checked

/-- A step that is no check. -/
theorem Counted.between {s' : State} (hc : Counted cfg s done h) (hes : ∀ e ∈ es, Allowed cfg e.1 ∧ Helps e)
    (hsame : s'.checked = s.checked) : Counted cfg s' done (h ++ es) := by
  refine ⟨List.forall_mem_append.mpr ⟨hc.allowed, fun e he => (hes e he).1⟩, hsame ▸ hc.subset, ?_⟩
  rw [List.forall_mem_append, hc.complete, hsame]
  exact and_iff_left fun e he => (hes e he).2

/-- The check that is done leaves what was checked. -/
theorem Counted.noted {r : Except Paging.Failure Bool} {s' : State} (hc : Counted cfg s done h) (hnew : c ∉ done)
    (hes : ∀ e ∈ es, Allowed cfg e.1) (hsame : s'.checked = s.checked)
    (hiff : r = .ok true ↔ ∀ e ∈ es, Helps e) :
    Counted cfg (noted cfg now blind c r s') (done ++ [c]) (h ++ es) := by
  have hallowed := List.forall_mem_append.mpr ⟨hc.allowed, hes⟩
  have hall : (∀ e ∈ h ++ es, Helps e) ↔ done ⊆ s.checked ∧ r = .ok true := by
    rw [List.forall_mem_append, hc.complete, hiff]
  by_cases hr : r = .ok true
  · subst hr
    have hadded : (Tripwires.noted cfg now blind c (.ok true) s').checked = s.checked ++ [c] := by
      rw [Tripwires.noted, hsame]
    refine ⟨hallowed, ?_, ?_⟩
    · rw [hadded]
      exact List.append_subset.mpr ⟨fun _ hmem => List.mem_append_left _ (hc.subset hmem), List.subset_append_right ..⟩
    · rw [hall, and_iff_left rfl, hadded]
      refine ⟨fun hsub => ?_, fun hsub c' hmem => ?_⟩
      · exact List.append_subset.mpr ⟨fun _ hmem => List.mem_append_left _ (hsub hmem), List.subset_append_right ..⟩
      · rcases List.mem_append.mp (hsub (List.mem_append_left _ hmem)) with hin | hlast
        · exact hin
        · exact absurd (List.mem_singleton.mp hlast ▸ hmem) hnew
  · have hkept : (Tripwires.noted cfg now blind c r s').checked = s.checked := by
      rcases r with e | (_ | _)
      · exact hsame
      · exact hsame
      · exact absurd rfl hr
    refine ⟨hallowed, ?_, ?_⟩
    · rw [hkept]
      exact fun _ hmem => List.mem_append_left _ (hc.subset hmem)
    · rw [hall, hkept]
      refine iff_of_false (fun hdone => hr hdone.2) fun hsub => hnew (hc.subset ?_)
      exact hsub (List.mem_append_right _ (List.mem_singleton_self _))

theorem complete_iff {r : Except Paging.Failure Bool} {s' : State} : Complete (.ok (r, s')) ↔ r = .ok true := by
  refine ⟨fun hcomplete => hcomplete _ rfl, fun hr out hout => ?_⟩
  obtain rfl := Except.ok.inj hout
  exact hr

variable {β : Type} {post : Except Empty β → Record → Prop}

theorem recorded_check (c : Paging.Check) {p : Checked} {f : Except Paging.Failure Bool × State → Run β}
    (hexact : p.Exact Hampers Complete) (hkeeps : p.Within (Allowed cfg) (KeepsChecked s))
    (hc : Counted cfg s done h) (hnew : c ∉ done)
    (hf : ∀ r s' h', (∀ now blind, Counted cfg (noted cfg now blind c r s') (done ++ [c]) h') →
      (f (r, s')).wp (recorded fun _ _ => True) post h') :
    (p >>= f).wp (recorded fun _ _ => True) post h := by
  apply hexact.recorded_seq hkeeps
  rintro ⟨r, s'⟩ es hsame hes hiff
  exact hf r s' _ fun _ _ => hc.noted hnew hes (hsame _ rfl) (complete_iff.symm.trans hiff)

theorem recorded_haltNow {f : State → Run β} (hc : Counted cfg s done h)
    (hf : ∀ s' h', Counted cfg s' done h' → (f s').wp (recorded fun _ _ => True) post h') :
    (haltNow cfg s >>= f).wp (recorded fun _ _ => True) post h := by
  refine (halting_haltNow.and allowed_haltNow).recorded_seq fun s' es hs' hes => ?_
  exact hf s' _ (hc.between (fun e he => ⟨(hes e he).2, helps_of_halting (hes e he).1⟩) (hs'.2 _ rfl))

theorem recorded_checkRest {f : State → Run β} (hc : Counted cfg s done h) (hnew : c ∉ done)
    (hf : ∀ s' h', Counted cfg s' (done ++ [c]) h' → (f s').wp (recorded fun _ _ => True) post h') :
    (checkRest cfg now blind c s >>= f).wp (recorded fun _ _ => True) post h := by
  unfold checkRest
  rw [wp_bind, wp_recorded_bind]
  refine fun o _ => hf _ _ (hc.noted hnew (List.forall_mem_singleton.mpr nofun) rfl ?_)
  rw [List.forall_mem_singleton]
  cases hfailure : o.failure with
  | none => simp [Helps, Hampers, hfailure]
  | some e => simp [Helps, Hampers, hfailure]

theorem recorded_runChecks (hc : Counted cfg .start [] h) :
    (runChecks cfg now blind).wp (recorded fun _ _ => True)
      (fun r h' => ∀ s', r = .ok s' → Counted cfg s' Paging.Check.all h') h := by
  have hkeeps {p : Checked} {s : State} (hp : p.Within (Inert cfg) (EndsApart s)) :
      p.Within (Allowed cfg) (KeepsChecked s) :=
    hp.mono (fun _ => allowed_of_inert) fun _ hends out hout => (hends out hout).checked
  unfold runChecks
  apply recorded_check .sponsorAccount exact_checkSponsorAccount allowed_checkSponsorAccount hc (by decide)
  refine fun r₁ s₁ h₁ hc => recorded_haltNow (hc now blind) fun s₂ h₂ hc => ?_
  refine recorded_check .escrowGovernance (exact_governed exact_checkGovernance) (hkeeps within_governed) hc
    (by decide) fun r₃ s₃ h₃ hc => ?_
  apply recorded_check .escrowWasm exact_checkWasmHash (hkeeps within_checkWasmHash) (hc now blind) (by decide)
  refine fun r₄ s₄ h₄ hc => recorded_haltNow (hc now blind) fun s₅ h₅ hc => ?_
  apply recorded_checkRest hc (by decide)
  intro s₆ h₆ hc
  apply recorded_checkRest hc (by decide)
  intro s₇ h₇ hc
  refine wp_mono ?_ (halting_haltNow.and allowed_haltNow).wp_recorded
  rintro _ h' ⟨hs', es, rfl, hes⟩ s' rfl
  exact hc.between (fun e he => ⟨(hes e he).2, helps_of_halting (hes e he).1⟩) (hs'.2 _ rfl)

/-- The steps of `BlindChecks`. -/
def Mailing (cfg : Config) : Ask → Prop
  | .paging q => Scheduled cfg q
  | _ => False

theorem mailing_paging {p : Paging.Run α} (hp : p.Within (Scheduled cfg) fun _ => True) :
    (paging p).Within (Mailing cfg) fun _ => True :=
  within_relabel hp

theorem allowed_helps_of_mailing {e : Dialogue.Event Ask.Answer} (he : Mailing cfg e.1) :
    Allowed cfg e.1 ∧ Helps e := by
  obtain ⟨q, a⟩ := e
  cases q with
  | paging q => exact ⟨he, id⟩
  | _ => exact he.elim

theorem allowed_helps_of_moving {e : Dialogue.Event Ask.Answer} (he : Moving cfg e.1) :
    Allowed cfg e.1 ∧ Helps e := by
  refine ⟨allowed_of_moving he, ?_⟩
  obtain ⟨q, a⟩ := e
  cases q with
  | kvSet key value => exact id
  | _ => exact he.elim

/-- The stamp of a full run has been asked for. -/
def Stamped (cfg : Config) (h : Record) : Prop := ∃ e ∈ h, ∃ stamp, e.1 = .kvSet (lastFullRunKey cfg) stamp

theorem Counted.not_stamped (hc : Counted cfg s done h) : ¬Stamped cfg h := by
  rintro ⟨e, he, stamp, heq⟩
  have hallowed := hc.allowed e he
  rw [heq] at hallowed
  exact hallowed.1 rfl

theorem lastRunKey_ne_lastFullRunKey : lastRunKey cfg ≠ lastFullRunKey cfg := by
  intro heq
  unfold lastRunKey lastFullRunKey at heq
  rw [String.append_assoc, String.append_assoc, String.append_right_inj, String.append_right_inj] at heq
  exact absurd heq (by decide)

theorem all_contains_iff : Paging.Check.all.all s.checked.contains = true ↔ Paging.Check.all ⊆ s.checked := by
  rw [List.all_eq_true]
  exact forall₂_congr fun _ _ => List.contains_iff_mem

theorem recorded_heartbeat (hstore : cfg.paging.store = true) (hpersist : cfg.paging.persist = true)
    (hc : Counted cfg s Paging.Check.all h) :
    (heartbeat cfg now s.checked).wp (recorded fun _ _ => True)
      (fun _ h' => Stamped cfg h' ↔ ∀ e ∈ h', Helps e) h := by
  have hlast (key stamp : String) (a : Bool) (h : Record) :
      (∀ e ∈ h ++ [⟨.kvSet key stamp, a⟩], Helps e) ↔ ∀ e ∈ h, Helps e := by
    rw [List.forall_mem_append, List.forall_mem_singleton]
    exact and_iff_left id
  have hset (key value : String) : kvSet cfg key value = ask (.kvSet key value) := if_pos hstore
  rw [heartbeat, if_pos hpersist]
  dsimp only
  rw [hset, wp_recorded_bind]
  intro a _
  split
  · rename_i hall
    rw [hset, wp_recorded_bind]
    intro a' _
    apply iff_of_true ⟨_, List.mem_append_right _ (List.mem_singleton_self _), _, rfl⟩
    rw [hlast, hlast, hc.complete]
    exact all_contains_iff.mp hall
  · rename_i hall
    refine iff_of_false ?_ ?_
    · rintro ⟨e, he, stamp, heq⟩
      rcases List.mem_append.mp he with hold | hnew
      · exact hc.not_stamped ⟨e, hold, stamp, heq⟩
      · obtain rfl := List.mem_singleton.mp hnew
        exact lastRunKey_ne_lastFullRunKey (Ask.kvSet.inj heq).1
    · rw [hlast, hc.complete]
      exact fun hsub => hall (all_contains_iff.mpr hsub)

/-- Of a scheduled run that has come to its end: the stamp of a full run is asked for exactly if no answer has
kept a check from doing its job. -/
theorem full_run_stamped_iff (hstore : cfg.paging.store = true) (hpersist : cfg.paging.persist = true)
    {r : Except Empty WatchdogReport} (hrun : Runs (recorded fun _ _ => True) (runWatchdog cfg now) [] r h) :
    Stamped cfg h ↔ ∀ e ∈ h, ¬Hampers e.1 e.2 := by
  suffices hwp : (runWatchdog cfg now).wp (recorded fun _ _ => True)
      (fun _ h' => Stamped cfg h' ↔ ∀ e ∈ h', Helps e) [] from hrun.sound hwp
  unfold runWatchdog
  refine (mailing_paging within_readBlind).recorded_seq fun blind es _ hes => wp_seq ?_
  have hstart : Counted cfg .start [] ([] ++ es) := by
    refine ⟨fun e he => (allowed_helps_of_mailing (hes e he)).1, List.Subset.refl _, ?_⟩
    exact iff_of_true (fun e he => (allowed_helps_of_mailing (hes e he)).2) (List.nil_subset _)
  refine wp_mono ?_ (recorded_runChecks hstart)
  rintro _ h₁ hc s₁ rfl
  dsimp only
  apply moving_reportHalt.recorded_seq
  intro s₂ es₂ hs₂ hes₂
  have hc₂ := (hc _ rfl).between (fun e he => allowed_helps_of_moving (hes₂ e he)) (hs₂ _ rfl)
  refine (mailing_paging within_saveBlind).recorded_seq fun report es₃ _ hes₃ => ?_
  have hc₃ := hc₂.between (fun e he => allowed_helps_of_mailing (hes₃ e he)) rfl
  refine (mailing_paging within_deliver).recorded_seq fun _ es₄ _ hes₄ => wp_seq ?_
  have hc₄ := hc₃.between (fun e he => allowed_helps_of_mailing (hes₄ e he)) rfl
  refine wp_mono ?_ (recorded_heartbeat hstore hpersist hc₄)
  rintro _ h' hiff stamps rfl
  exact hiff

end

theorem full_run_stamped_iff_demo : Stamped Demo.config.scheduled (Demo.asked Demo.config.scheduled) ↔
    ∀ e ∈ Demo.asked Demo.config.scheduled, ¬Hampers e.1 e.2 :=
  full_run_stamped_iff rfl rfl Demo.runs_asked

end Lumenia.Sponsor.Watchdog.Tripwires
