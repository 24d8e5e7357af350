import Lumenia.Sponsor.WatchdogWrites

/-!
# The halt of the watchdog

What a run has read tells whether a tripwire was raised: a page with an operation that the sponsor must not
source, or two reads of the escrow's code apart from the pinned one. From then on a run that may halt asks for
nothing before the halt, and the halt gives as its reasons the tripwires that were raised.
-/

namespace Lumenia.Sponsor.Watchdog.Tripwires

open Dialogue
open Paging (Blind OwnAlert Report isAutoHaltTripwire tripwireForbiddenOp tripwireWasmChanged)

abbrev AskEvent := Dialogue.Event Ask.Answer

/-! ## What was read -/

/-- A page of operations, and whether it is the newest one of a cold start. -/
def page : AskEvent → Option (Bool × List Op)
  | ⟨.operations cursor, .ok records⟩ => some (cursor.isNone, records)
  | _ => none

/-- The code that the escrow was read to run. -/
def hash (again : Bool) : AskEvent → Option String
  | ⟨.readInstance again', .ok (.wasm hash)⟩ => if again' = again then some hash else none
  | _ => none

section

variable (cfg : Config)

def contract : String := cfg.governance.lumendropContract.getD ""

/-- The pin that the store has. -/
def baseline : AskEvent → Option String
  | ⟨.kvRead key, .ok (some pinned)⟩ => if key = wasmKey (contract cfg) then some pinned else none
  | _ => none

/-- The reason of a halt. -/
def reason : AskEvent → Option String
  | ⟨.setHalt reason, _⟩ => some reason
  | _ => none

def pins (h : Record) : List String :=
  if cfg.wasmPin.getD "" ≠ "" then [cfg.wasmPin.getD ""] else h.filterMap (baseline cfg)

/-- A page had an operation that raises the tripwire. -/
def opTripped (now : ℤ) (h : Record) : Bool :=
  (h.filterMap page).any fun p => p.2.any (Op.trips cfg now p.1)

/-- Both reads of the code were apart from the pin. -/
def wasmTripped (h : Record) : Bool :=
  (pins cfg h).any fun pinned =>
    (h.filterMap (hash false)).any (· ≠ pinned) && (h.filterMap (hash true)).any (· ≠ pinned)

/-- The tripwires that were raised, in the order of the checks. -/
def raised (now : ℤ) (h : Record) : List String :=
  (if opTripped cfg now h then [tripwireForbiddenOp] else []) ++
    if wasmTripped cfg h then [tripwireWasmChanged] else []

def haltReason (now : ℤ) (h : Record) : String := "watchdog auto-halt: " ++ "; ".intercalate (raised cfg now h)

/-- A tripwire was raised that no halt was asked for. -/
def Pending (now : ℤ) (h : Record) : Prop :=
  raised cfg now h ≠ [] ∧ (h.filterMap reason).getLast? ≠ some (haltReason cfg now h)

/-- Before a halt that is due comes nothing but the read of the halt key, and a halt has its reasons. -/
def HaltsFirst (now : ℤ) (h : Record) : Ask → Prop
  | .setHalt reason => raised cfg now h ≠ [] ∧ reason = haltReason cfg now h
  | .storeHaltIsSet => True
  | _ => cfg.autoHalt = true → ¬Pending cfg now h

end

/-! ## What tells nothing -/

variable {cfg : Config} {now : ℤ} {h h' : Record} {e : AskEvent} {s s' : State} {α β : Type}

/-- The second record tells of the tripwires what the first one tells. -/
structure Sees (cfg : Config) (h h' : Record) : Prop where
  pages : h'.filterMap page = h.filterMap page
  hashes : ∀ again, h'.filterMap (hash again) = h.filterMap (hash again)
  baselines : h'.filterMap (baseline cfg) = h.filterMap (baseline cfg)

theorem Sees.opTripped (hs : Sees cfg h h') : opTripped cfg now h' = opTripped cfg now h := by
  rw [Tripwires.opTripped, Tripwires.opTripped, hs.pages]

theorem Sees.wasmTripped (hs : Sees cfg h h') : wasmTripped cfg h' = wasmTripped cfg h := by
  rw [Tripwires.wasmTripped, Tripwires.wasmTripped, pins, pins, hs.baselines, hs.hashes, hs.hashes]

theorem Sees.raised (hs : Sees cfg h h') : raised cfg now h' = raised cfg now h := by
  rw [Tripwires.raised, Tripwires.raised, hs.opTripped, hs.wasmTripped]

theorem Sees.trans {h'' : Record} (h₁ : Sees cfg h h') (h₂ : Sees cfg h' h'') : Sees cfg h h'' where
  pages := h₂.pages.trans h₁.pages
  hashes again := (h₂.hashes again).trans (h₁.hashes again)
  baselines := h₂.baselines.trans h₁.baselines

theorem Sees.haltReason (hs : Sees cfg h h') : haltReason cfg now h' = haltReason cfg now h :=
  congrArg (fun raised => "watchdog auto-halt: " ++ "; ".intercalate raised) hs.raised

/-- And of the halts. -/
structure Same (cfg : Config) (h h' : Record) : Prop extends Sees cfg h h' where
  reasons : h'.filterMap reason = h.filterMap reason

theorem Same.refl : Same cfg h h := ⟨⟨rfl, fun _ => rfl, rfl⟩, rfl⟩

theorem Same.trans {h'' : Record} (h₁ : Same cfg h h') (h₂ : Same cfg h' h'') : Same cfg h h'' :=
  ⟨h₁.toSees.trans h₂.toSees, h₂.reasons.trans h₁.reasons⟩

theorem pending_congr (hraised : raised cfg now h' = raised cfg now h)
    (hreasons : h'.filterMap reason = h.filterMap reason) : Pending cfg now h' ↔ Pending cfg now h := by
  unfold Pending haltReason
  rw [hraised, hreasons]

theorem Same.pending (hs : Same cfg h h') : Pending cfg now h' ↔ Pending cfg now h :=
  pending_congr hs.raised hs.reasons

theorem filterMap_concat_none {f : AskEvent → Option β} (he : f e = none) :
    (h ++ [e]).filterMap f = h.filterMap f := by
  rw [List.filterMap_append, List.filterMap_cons_none he, List.filterMap_nil, List.append_nil]

theorem filterMap_concat_some {f : AskEvent → Option β} {b : β} (he : f e = some b) :
    (h ++ [e]).filterMap f = h.filterMap f ++ [b] := by
  rw [List.filterMap_append, List.filterMap_cons_some he, List.filterMap_nil]

/-- An event that is no read of those. -/
structure Unseen (cfg : Config) (e : AskEvent) : Prop where
  page : page e = none
  hash : ∀ again, hash again e = none
  baseline : baseline cfg e = none

theorem Unseen.sees (he : Unseen cfg e) : Sees cfg h (h ++ [e]) :=
  ⟨filterMap_concat_none he.page, fun again => filterMap_concat_none (he.hash again),
    filterMap_concat_none he.baseline⟩

/-- Questions that no answer to tells of a tripwire. -/
def Silent (cfg : Config) : Ask → Prop
  | .operations _ | .readInstance _ | .setHalt _ => False
  | .kvRead key => key ≠ wasmKey (contract cfg)
  | _ => True

theorem same_of_silent {q : Ask} {a : q.Answer} (hq : Silent cfg q) : Same cfg h (h ++ [⟨q, a⟩]) := by
  have hsame (hunseen : Unseen cfg ⟨q, a⟩) (hreason : reason ⟨q, a⟩ = none) : Same cfg h (h ++ [⟨q, a⟩]) :=
    ⟨hunseen.sees, filterMap_concat_none hreason⟩
  cases q with
  | operations cursor => exact hq.elim
  | readInstance again => exact hq.elim
  | setHalt why => exact hq.elim
  | kvRead key =>
    refine hsame ⟨rfl, fun _ => rfl, ?_⟩ rfl
    rcases a with message | (_ | pinned)
    · rfl
    · rfl
    · exact if_neg hq
  | _ => exact hsame ⟨rfl, fun _ => rfl, rfl⟩ rfl

theorem haltsFirst_of_silent {q : Ask} (hq : Silent cfg q) (hnot : cfg.autoHalt = true → ¬Pending cfg now h) :
    HaltsFirst cfg now h q := by
  cases q with
  | setHalt why => exact hq.elim
  | storeHaltIsSet => trivial
  | _ => exact hnot

/-- The record is that of a run that halts first. -/
abbrev Halts (cfg : Config) (now : ℤ) (h : Record) : Prop := Lawful (fun h e => HaltsFirst cfg now h e.1) h

theorem along_silent {p : Run α} {N : Except Empty α → Prop} (hp : p.Within (Silent cfg) N) (hh : Halts cfg now h)
    (hnot : cfg.autoHalt = true → ¬Pending cfg now h) :
    p.along (recorded fun _ _ => True) (Halts cfg now) (fun r h' => N r ∧ Same cfg h h') h := by
  refine along_mono ?_ (hp.along (I := fun h' => Halts cfg now h' ∧ Same cfg h h') ?_ (fun _ hw => hw.1) ⟨hh, .refl⟩)
  · exact fun r h' _ hr => ⟨hr.1, hr.2.2⟩
  · rintro q hq h₁ a _ ⟨hh₁, hsame⟩ ⟨-, rfl⟩
    refine ⟨hh₁.concat (haltsFirst_of_silent hq fun hauto => ?_), hsame.trans (same_of_silent hq)⟩
    exact mt hsame.pending.mp (hnot hauto)

/-! ## The report -/

/-- The tripwires among the titles of the report. -/
def tripTitles (r : Report) : List String := (r.alerts.map (·.title)).filter isAutoHaltTripwire

theorem tripTitles_push {r : Report} {alert : Alert} :
    tripTitles (r.push alert) = tripTitles r ++ [alert.title].filter isAutoHaltTripwire := by
  simp [tripTitles, Report.push, Report.alerts]

theorem tripTitles_pushAll {r : Report} {alerts : List OwnAlert} :
    tripTitles (r.pushAll alerts) = tripTitles r ++ (alerts.map (·.val.title)).filter isAutoHaltTripwire := by
  simp [tripTitles, Report.pushAll, Report.alerts, Function.comp_def]

/-- What a step leaves of the report and of the halt. -/
structure Leaves (s s' : State) : Prop where
  titles : tripTitles s'.report = tripTitles s.report
  halt : s'.halt = s.halt

theorem Leaves.refl : Leaves s s := ⟨rfl, rfl⟩

theorem Leaves.trans {s'' : State} (h₁ : Leaves s s') (h₂ : Leaves s' s'') : Leaves s s'' :=
  ⟨h₂.titles.trans h₁.titles, h₂.halt.trans h₁.halt⟩

theorem leaves_push {alert : Alert} (halert : isAutoHaltTripwire alert.title = false) :
    Leaves s { s with report := s.report.push alert } := by
  refine ⟨?_, rfl⟩
  rw [tripTitles_push, List.filter_cons_of_neg, List.filter_nil, List.append_nil]
  rw [halert]
  exact Bool.false_ne_true

theorem leaves_pushAll {alerts : List OwnAlert}
    (halerts : ∀ alert ∈ alerts, isAutoHaltTripwire alert.val.title = false) : Leaves s (s.pushAll alerts) := by
  refine ⟨?_, rfl⟩
  rw [State.pushAll, tripTitles_pushAll, List.filter_eq_nil_iff.mpr, List.append_nil]
  intro title htitle
  obtain ⟨alert, halert, rfl⟩ := List.mem_map.mp htitle
  rw [halerts alert halert]
  exact Bool.false_ne_true

theorem not_tripwire_of_told {alert : ToldAlert} : isAutoHaltTripwire alert.val.title = false := by
  have hall : ∀ title ∈ toldTitles, isAutoHaltTripwire title = false := by decide
  exact hall _ alert.property

theorem leaves_told {alerts : List ToldAlert} : Leaves s (s.pushAll (alerts.map ToldAlert.own)) := by
  refine leaves_pushAll fun alert halert => ?_
  obtain ⟨told, -, rfl⟩ := List.mem_map.mp halert
  exact not_tripwire_of_told

theorem not_tripwire_failedTitle {c : Paging.Check} : [c.failedTitle].filter isAutoHaltTripwire = [] := by
  cases c <;> decide

/-- A failed check adds one alert, with its own title. -/
theorem alerts_checkFailed {now : ℕ} {persist : Bool} {blind : Blind} {c : Paging.Check} {e : Paging.Failure}
    {r : Report} :
    (Paging.checkFailed now persist blind c e r).alerts.map (·.title) = r.alerts.map (·.title) ++ [c.failedTitle] := by
  unfold Paging.checkFailed
  dsimp only
  split
  · simp [Report.push, Report.alerts]
  · split
    · simp [Report.push, Report.alerts]
    · simp [Report.alerts]

theorem leaves_noted {now : ℕ} {blind : Blind} {c : Paging.Check} {r : Except Paging.Failure Bool} :
    Leaves s (noted cfg now blind c r s) := by
  rcases r with e | (_ | _)
  · refine ⟨?_, rfl⟩
    change tripTitles (Paging.checkFailed now cfg.paging.persist blind c e s.report) = tripTitles s.report
    rw [tripTitles, alerts_checkFailed, List.filter_append, not_tripwire_failedTitle, List.append_nil]
    rfl
  · exact .refl
  · exact ⟨rfl, rfl⟩

/-! ## The halt step -/

/-- What a run knows of what it has read, and of the halt it has asked for. -/
structure Tells (cfg : Config) (now : ℤ) (h : Record) (s : State) : Prop where
  trips : ∃ a b, tripTitles s.report = List.replicate a tripwireForbiddenOp ++ List.replicate b tripwireWasmChanged ∧
    (opTripped cfg now h = true ↔ a ≠ 0) ∧ (wasmTripped cfg h = true ↔ b ≠ 0)
  asked : (h.filterMap reason).getLast? =
    if s.halt.attemptedWhy = "" then none else some ("watchdog auto-halt: " ++ s.halt.attemptedWhy)

theorem tells_start : Tells cfg now [] .start := by
  refine ⟨⟨0, 0, rfl, ?_, ?_⟩, rfl⟩
  · simp [opTripped]
  · simp [wasmTripped]

theorem Tells.same (ht : Tells cfg now h s) (hs : Same cfg h h') (hl : Leaves s s') : Tells cfg now h' s' := by
  obtain ⟨a, b, htitles, hop, hwasm⟩ := ht.trips
  refine ⟨⟨a, b, hl.titles.trans htitles, ?_, ?_⟩, ?_⟩
  · rw [hs.opTripped, hop]
  · rw [hs.wasmTripped, hwasm]
  · rw [hs.reasons, hl.halt, ht.asked]

theorem eraseDups_replicate {x : String} {n : ℕ} : (List.replicate n x).eraseDups = if n ≠ 0 then [x] else [] := by
  cases n with
  | zero => rfl
  | succ n => simp [List.replicate_succ, List.eraseDups_cons]

theorem eraseDups_replicate_append {x y : String} {a b : ℕ} (hne : x ≠ y) :
    (List.replicate a x ++ List.replicate b y).eraseDups =
      (if a ≠ 0 then [x] else []) ++ if b ≠ 0 then [y] else [] := by
  cases a with
  | zero => rw [List.replicate_zero, List.nil_append, eraseDups_replicate, if_neg (not_not.mpr rfl), List.nil_append]
  | succ a =>
    rw [List.replicate_succ, List.cons_append, List.eraseDups_cons, List.filter_append, List.filter_replicate,
      List.filter_replicate, if_neg (by simp), if_pos (by simp [hne.symm]), List.nil_append, eraseDups_replicate]
    rfl

theorem Tells.why (ht : Tells cfg now h s) : tripwireWhy s.report = "; ".intercalate (raised cfg now h) := by
  obtain ⟨a, b, htitles, hop, hwasm⟩ := ht.trips
  change "; ".intercalate (tripTitles s.report).eraseDups = _
  rw [htitles, eraseDups_replicate_append (by decide), raised, ite_cond_congr (propext hop),
    ite_cond_congr (propext hwasm)]

theorem Tells.haltReason (ht : Tells cfg now h s) :
    haltReason cfg now h = "watchdog auto-halt: " ++ tripwireWhy s.report :=
  congrArg ("watchdog auto-halt: " ++ ·) ht.why.symm

theorem intercalate_raised : "; ".intercalate (raised cfg now h) = "" ↔ raised cfg now h = [] := by
  unfold raised
  cases opTripped cfg now h <;> cases wasmTripped cfg h <;> decide

/-- No halt is due where the halt step asks for none. -/
theorem Tells.not_pending (ht : Tells cfg now h s)
    (hwhy : tripwireWhy s.report = "" ∨ tripwireWhy s.report = s.halt.attemptedWhy) : ¬Pending cfg now h := by
  rintro ⟨hraised, hlast⟩
  have hne : tripwireWhy s.report ≠ "" := by
    rw [ht.why]
    exact mt intercalate_raised.mp hraised
  have hattempted := hwhy.resolve_left hne
  rw [ht.asked, if_neg (hattempted ▸ hne), ← hattempted, ht.why] at hlast
  exact hlast rfl

theorem sees_setHalt {why : String} {a : (Ask.setHalt why).Answer} : Sees cfg h (h ++ [⟨.setHalt why, a⟩]) :=
  Unseen.sees ⟨rfl, fun _ => rfl, rfl⟩

theorem reasons_setHalt {why : String} {a : (Ask.setHalt why).Answer} :
    (h ++ [(⟨.setHalt why, a⟩ : AskEvent)]).filterMap reason = h.filterMap reason ++ [why] :=
  filterMap_concat_some rfl

theorem answered_attemptedWhy {halt : Halt} {a : Except String Bool} :
    (halt.answered a).attemptedWhy = halt.attemptedWhy := by
  rcases a with message | (_ | _) <;> rfl

/-- And that no halt is due. -/
structure Ready (cfg : Config) (now : ℤ) (h : Record) (s : State) : Prop extends Tells cfg now h s where
  settled : cfg.autoHalt = true → ¬Pending cfg now h

theorem Ready.same (hr : Ready cfg now h s) (hs : Same cfg h h') (hl : Leaves s s') : Ready cfg now h' s' :=
  ⟨hr.toTells.same hs hl, fun hauto => mt hs.pending.mp (hr.settled hauto)⟩

/-- What a run goes on from after a question, or ends with. -/
abbrev Ends (cfg : Config) (now : ℤ) (p : Run α) (h : Record) (post : α → Record → Prop) : Prop :=
  p.along (recorded fun _ _ => True) (Halts cfg now) (fun r h' => ∀ a, r = .ok a → post a h') h

section

variable {post : β → Record → Prop}

theorem ends_pure {b : β} (hh : Halts cfg now h) (hb : post b h) : Ends cfg now (pure b) h post := by
  refine ⟨hh, fun b' hb' => ?_⟩
  obtain rfl := Except.ok.inj hb'
  exact hb

theorem Ends.seq {p : Run α} {f : α → Run β} {mid : α → Record → Prop} (hp : Ends cfg now p h mid)
    (hf : ∀ a h', Halts cfg now h' → mid a h' → Ends cfg now (f a) h' post) : Ends cfg now (p >>= f) h post := by
  refine along_seq (along_mono ?_ hp)
  exact fun r h' hh' hmid a ha => hf a h' hh' (hmid a ha)

theorem ends_silent {q : Ask} {f : q.Answer → Run β} (hq : Silent cfg q) (hh : Halts cfg now h)
    (hr : Ready cfg now h s)
    (hf : ∀ a h', Halts cfg now h' → Ready cfg now h' s → Same cfg h h' → Ends cfg now (f a) h' post) :
    Ends cfg now (ask q >>= f) h post := by
  refine along_lawful_question hh (fun _ => haltsFirst_of_silent hq hr.settled) fun a hh' => ?_
  exact hf a _ hh' (hr.same (same_of_silent hq) .refl) (same_of_silent hq)

theorem Within.ends {p : Run α} {N : Except Empty α → Prop} (hp : p.Within (Silent cfg) N) (hh : Halts cfg now h)
    (hr : Ready cfg now h s) : Ends cfg now p h fun a h' => N (.ok a) ∧ Same cfg h h' := by
  refine along_mono ?_ (along_silent hp hh hr.settled)
  rintro _ h' _ hpost a rfl
  exact hpost

end

/-- After the halt step no halt is due. -/
theorem ends_haltNow (hh : Halts cfg now h) (ht : Tells cfg now h s) :
    Ends cfg now (haltNow cfg s) h fun s' h' => Ready cfg now h' s' ∧ Sees cfg h h' := by
  unfold haltNow
  dsimp only
  split
  · rename_i hnone
    refine ends_pure hh ⟨⟨ht, fun hauto => ht.not_pending ?_⟩, Same.refl.toSees⟩
    simpa [hauto] using hnone
  · rename_i hsome
    have hraised : raised cfg now h ≠ [] := by
      rw [ne_eq, ← intercalate_raised, ← ht.why]
      simp only [Bool.or_eq_true, decide_eq_true_eq, not_or] at hsome
      exact hsome.1.2
    have hbefore : Ends cfg now (haltBefore s.halt) h fun _ h₁ => Same cfg h h₁ := by
      unfold haltBefore
      split
      · exact ends_pure hh .refl
      · refine ⟨hh, ?_⟩
        rintro a _ ⟨-, rfl⟩
        exact ⟨hh.concat trivial, fun _ _ => same_of_silent trivial⟩
    refine hbefore.seq fun before h₁ hh₁ hsame => ?_
    have hdue : HaltsFirst cfg now h₁ (.setHalt ("watchdog auto-halt: " ++ tripwireWhy s.report)) :=
      ⟨hsame.raised.trans_ne hraised, (hsame.haltReason.trans ht.haltReason).symm⟩
    refine along_lawful_question hh₁ (fun _ => hdue) ?_
    refine fun answer hh₂ => ends_pure hh₂ ?_
    have hsees := hsame.toSees.trans (sees_setHalt (a := answer))
    refine ⟨⟨⟨?_, ?_⟩, fun _ hpending => hpending.2 ?_⟩, hsees⟩
    · obtain ⟨a, b, htitles, hop, hwasm⟩ := ht.trips
      exact ⟨a, b, htitles, by rw [hsees.opTripped, hop], by rw [hsees.wasmTripped, hwasm]⟩
    · rw [reasons_setHalt, List.getLast?_concat, answered_attemptedWhy, if_neg]
      rw [ht.why]
      exact mt intercalate_raised.mp hraised
    · rw [reasons_setHalt, List.getLast?_concat, hsees.haltReason, ht.haltReason]

/-! ## The pages -/

/-- Nothing was read of the escrow's code. -/
structure Early (cfg : Config) (h : Record) : Prop where
  hashes : ∀ again, h.filterMap (hash again) = []
  baselines : h.filterMap (baseline cfg) = []

theorem Early.sees (he : Early cfg h) (hs : Sees cfg h h') : Early cfg h' :=
  ⟨fun again => (hs.hashes again).trans (he.hashes again), hs.baselines.trans he.baselines⟩

/-- Without the read that confirms there is no tripwire. -/
theorem wasmTripped_of_nil (hnil : h.filterMap (hash true) = []) : wasmTripped cfg h = false := by
  rw [wasmTripped, List.any_eq_false]
  intro pinned _
  rw [hnil, List.any_nil, Bool.and_false]
  exact Bool.false_ne_true

theorem Early.wasmTripped (he : Early cfg h) : wasmTripped cfg h = false := wasmTripped_of_nil (he.hashes true)

variable {cursor : Option String} {records : List Op} {cold : Bool}

theorem titles_inspect {op : Op} : ((inspect cfg now cold op).map (·.val.title)).filter isAutoHaltTripwire =
    if op.trips cfg now cold then [tripwireForbiddenOp] else [] := by
  unfold inspect Op.trips
  cases op.isForbidden cfg.sponsor with
  | false => rfl
  | true =>
    cases cold && op.isOld cfg now with
    | true => rfl
    | false => rfl

theorem titles_inspectAll : ((inspectAll cfg now cold records).map (·.val.title)).filter isAutoHaltTripwire =
    List.replicate (records.countP (Op.trips cfg now cold)) tripwireForbiddenOp := by
  induction records with
  | nil => rfl
  | cons op records ih =>
    rw [inspectAll, List.flatMap_cons, List.map_append, List.filter_append, titles_inspect, List.countP_cons]
    rw [inspectAll] at ih
    rw [ih]
    split
    · rw [List.replicate_succ]
      rfl
    · rfl

theorem early_page {a : Except Paging.Failure (List Op)} (he : Early cfg h) :
    Early cfg (h ++ [⟨.operations cursor, a⟩]) :=
  ⟨fun again => (filterMap_concat_none rfl).trans (he.hashes again), (filterMap_concat_none rfl).trans he.baselines⟩

theorem opTripped_page : opTripped cfg now (h ++ [⟨.operations cursor, .ok records⟩]) =
    (opTripped cfg now h || records.any (Op.trips cfg now cursor.isNone)) := by
  rw [opTripped, opTripped, filterMap_concat_some (b := (cursor.isNone, records)) rfl, List.any_append]
  simp

theorem Tells.page (ht : Tells cfg now h s) (he : Early cfg h) :
    Tells cfg now (h ++ [⟨.operations cursor, .ok records⟩])
      (s.pushAll (inspectAll cfg now cursor.isNone records)) := by
  obtain ⟨a, b, htitles, hop, hwasm⟩ := ht.trips
  obtain rfl : b = 0 := by
    rw [he.wasmTripped] at hwasm
    simpa using hwasm
  refine ⟨⟨a + records.countP (Op.trips cfg now cursor.isNone), 0, ?_, ?_, ?_⟩, ?_⟩
  · rw [State.pushAll, tripTitles_pushAll, titles_inspectAll, htitles]
    simp
  · rw [opTripped_page, Bool.or_eq_true, hop, List.any_eq_true, ← List.countP_pos_iff]
    omega
  · rw [(early_page he).wasmTripped]
    simp
  · rw [filterMap_concat_none rfl]
    exact ht.asked

theorem pending_page (hany : records.any (Op.trips cfg now cursor.isNone) = false) (he : Early cfg h) :
    Pending cfg now (h ++ [⟨.operations cursor, .ok records⟩]) ↔ Pending cfg now h := by
  refine pending_congr ?_ (filterMap_concat_none rfl)
  rw [raised, raised, opTripped_page, hany, Bool.or_false, (early_page he).wasmTripped, he.wasmTripped]

theorem same_page {e : Paging.Failure} : Same cfg h (h ++ [⟨.operations cursor, .error e⟩]) :=
  ⟨Unseen.sees ⟨rfl, fun _ => rfl, rfl⟩, filterMap_concat_none rfl⟩

/-- A page that raises the tripwire may leave the halt due. -/
theorem ends_page {f : Except Paging.Failure (List Op) → Run β} {post : β → Record → Prop} (hh : Halts cfg now h)
    (hr : Ready cfg now h s) (he : Early cfg h)
    (herror : ∀ e h', Halts cfg now h' → Ready cfg now h' s → Early cfg h' → Ends cfg now (f (.error e)) h' post)
    (hok : ∀ records h', Halts cfg now h' → Tells cfg now h' (s.pushAll (inspectAll cfg now cursor.isNone records)) →
      Early cfg h' →
      (records.any (Op.trips cfg now cursor.isNone) = false → cfg.autoHalt = true → ¬Pending cfg now h') →
      Ends cfg now (f (.ok records)) h' post) :
    Ends cfg now (ask (.operations cursor) >>= f) h post := by
  refine along_lawful_question hh (fun _ => hr.settled) fun a hh' => ?_
  cases a with
  | error e => exact herror e _ hh' (hr.same same_page .refl) (early_page he)
  | ok records =>
    refine hok records _ hh' (hr.toTells.page he) (early_page he) fun hany hauto => ?_
    exact mt (pending_page hany he).mp (hr.settled hauto)

theorem ends_walk {left : ℕ} {scan : Scan} (hh : Halts cfg now h) (hr : Ready cfg now h s) (he : Early cfg h) :
    Ends cfg now (walk cfg now left scan s) h fun out h' => Tells cfg now h' out.2 ∧ Early cfg h' := by
  induction left generalizing h scan s with
  | zero => exact ends_pure hh ⟨hr.toTells, he⟩
  | succ left ih =>
    rw [walk]
    refine ends_page hh hr he (fun e h' hh' hr' he' => ends_pure hh' ⟨hr'.toTells, he'⟩) ?_
    intro records h' hh' ht' he' hquiet
    dsimp only
    split
    · exact ends_pure hh' ⟨ht', he'⟩
    split
    · split
      · refine (ends_haltNow hh' ht').seq fun s'' h'' hh'' hpost => ?_
        exact ih hh'' hpost.1 (he'.sees hpost.2)
      · rename_i htripped
        have hnone : records.any (Op.trips cfg now false) = false := by
          simp only [Scan.read, Bool.or_eq_true, not_or, Bool.not_eq_true] at htripped
          exact htripped.2
        exact ih hh' ⟨ht', hquiet hnone⟩ he'
    · exact ends_pure hh' ⟨ht', he'⟩

theorem opsKey_ne_wasmKey {contract : String} : opsKey cfg ≠ wasmKey contract := fun heq => wasmKey_ne_opsKey heq.symm

theorem silent_kvRead {key : String} (hkey : key ≠ wasmKey (contract cfg)) :
    (kvRead cfg key).Within (Silent cfg) fun _ => True :=
  within_ite (fun _ => ⟨hkey, fun _ => trivial⟩) fun _ => trivial

theorem ends_checkSponsorAccount (hh : Halts cfg now h) (hr : Ready cfg now h s) (he : Early cfg h) :
    Ends cfg now (checkSponsorAccount cfg now s) h fun out h' => Tells cfg now h' out.2 ∧ Early cfg h' := by
  unfold checkSponsorAccount
  refine ends_silent trivial hh hr fun balances h₁ hh₁ hr₁ hsame₁ => ?_
  have he₁ := he.sees hsame₁.toSees
  rcases balances with e | (_ | alerts)
  · exact ends_pure hh₁ ⟨hr₁.toTells, he₁⟩
  · refine ends_pure hh₁ ⟨hr₁.toTells.same .refl (leaves_pushAll ?_), he₁⟩
    have htitle : isAutoHaltTripwire "Sponsor account unreadable" = false := by decide
    exact List.forall_mem_singleton.mpr htitle
  have hr₁' : Ready cfg now h₁ (s.pushAll (alerts.map ToldAlert.own)) := hr₁.same .refl leaves_told
  refine (Within.ends (silent_kvRead opsKey_ne_wasmKey) hh₁ hr₁').seq fun read h₂ hh₂ hpost => ?_
  have hr₂ := hr₁'.same hpost.2 .refl
  have he₂ := he₁.sees hpost.2.toSees
  cases read with
  | error message => exact ends_pure hh₂ ⟨hr₂.toTells, he₂⟩
  | ok cursor =>
    dsimp only
    split
    · refine ends_page hh₂ hr₂ he₂ (fun e h' hh' hr' he' => ends_pure hh' ⟨hr'.toTells, he'⟩) ?_
      intro records h' hh' ht' he' _
      dsimp only
      split
      · exact ends_pure hh' ⟨ht'.same .refl ⟨rfl, rfl⟩, he'⟩
      · exact ends_pure hh' ⟨ht', he'⟩
    · refine (ends_walk hh₂ hr₂ he₂).seq fun out h' hh' hpost' => ?_
      obtain ⟨e | ⟨scan, full, pages⟩, s'⟩ := out
      · exact ends_pure hh' hpost'
      have htitle : isAutoHaltTripwire "Watchdog forbidden-operation scan is behind" = false := by decide
      have ht' : Tells cfg now h'
          (if full then s'.pushAll [behindAlert cfg now (opsMaxPages - pages) scan.reached] else s') := by
        split
        · exact hpost'.1.same .refl (leaves_pushAll (List.forall_mem_singleton.mpr htitle))
        · exact hpost'.1
      dsimp only
      generalize (if full then s'.pushAll [behindAlert cfg now (opsMaxPages - pages) scan.reached] else s') = s''
        at ht'
      split
      · exact ends_pure hh' ⟨ht'.same .refl ⟨rfl, rfl⟩, hpost'.2⟩
      · exact ends_pure hh' ⟨ht', hpost'.2⟩

/-! ## The escrow's code -/

theorem not_tripwire_governance {hit : String} : isAutoHaltTripwire ("Escrow governance event: " ++ hit) = false := by
  have hne {title : String} (htitle : title.toList.take 10 ≠ "Escrow gov".toList) :
      "Escrow governance event: " ++ hit ≠ title := by
    rintro rfl
    simp [String.toList_append] at htitle
  simp only [isAutoHaltTripwire, decide_eq_false_iff_not, not_or]
  exact ⟨hne (by decide), hne (by decide)⟩

theorem untripping_pushHits {governance : GovernanceConfig} {contract : String} {list : List Event} :
    (pushHits governance contract list).Within
      (fun q => ∀ alert, q = .push alert → isAutoHaltTripwire alert.title = false) fun _ => True := by
  induction list with
  | nil => trivial
  | cons ev list ih =>
    rw [pushHits]
    split
    · refine within_question_bind (fun alert halert => ?_) fun _ => ih
      obtain rfl := (Watchdog.Ask.push.inj halert).symm
      exact not_tripwire_governance
    · exact ih

theorem untripping_checkGovernance {governance : GovernanceConfig} :
    (checkGovernance governance).Within
      (fun q => ∀ alert, q = .push alert → isAutoHaltTripwire alert.title = false) fun _ => True := by
  unfold checkGovernance
  split
  · trivial
  refine ⟨nofun, fun read => ?_⟩
  cases read with
  | error message => trivial
  | ok saved =>
    refine ⟨nofun, fun latest => ?_⟩
    rcases latest with message | (_ | (_ | latest))
    · trivial
    · trivial
    · trivial
    refine ⟨nofun, fun events => ?_⟩
    cases events with
    | error message => trivial
    | ok list =>
      refine untripping_pushHits.bind (fun _ _ => ?_) fun _ _ => trivial
      exact within_question_bind nofun fun _ => trivial

theorem silent_governed {p : Watchdog.Check Bool} (hp : p.Within
      (fun q => ∀ alert, q = .push alert → isAutoHaltTripwire alert.title = false) fun _ => True) :
    (governed cfg p s).Within (Silent cfg) fun r => ∀ out, r = .ok out → Leaves s out.2 := by
  have hok {r : Except Paging.Failure Bool} {s : State} :
      ∀ out, (Except.ok (r, s) : Except Empty _) = .ok out → Leaves s out.2 := by
    intro out hout
    obtain rfl := Except.ok.inj hout
    exact .refl
  induction p generalizing s with
  | ret r => exact hok
  | ask q k ih =>
    cases q with
    | push alert =>
      rw [governed]
      exact (ih () (hp.2 ())).result fun r hr out hout => (leaves_push (hp.1 alert rfl)).trans (hr out hout)
    | kvRead key =>
      rw [governed]
      exact within_ite (fun _ => ⟨trivial, fun a => ih a (hp.2 a)⟩) fun _ => ih _ (hp.2 _)
    | kvSet key value =>
      rw [governed]
      exact within_ite (fun _ => ⟨trivial, fun a => ih a (hp.2 a)⟩) fun _ => ih _ (hp.2 _)
    | getLatestLedger =>
      rw [governed]
      refine ⟨trivial, fun a => ?_⟩
      cases a with
      | error e => exact hok
      | ok latest => exact ih _ (hp.2 _)
    | getEvents start limit =>
      rw [governed]
      refine ⟨trivial, fun a => ?_⟩
      cases a with
      | error e => exact hok
      | ok events => exact ih _ (hp.2 _)

variable {pinned observed : String}

/-- What was read of the code, and what it is compared to. -/
structure Compares (cfg : Config) (pinned observed : String) (h : Record) : Prop where
  pins : pins cfg h = [pinned]
  observed : h.filterMap (hash false) = [observed]
  unconfirmed : h.filterMap (hash true) = []

theorem Compares.same (hc : Compares cfg pinned observed h) (hs : Same cfg h h') : Compares cfg pinned observed h' := by
  refine ⟨?_, (hs.hashes false).trans hc.observed, (hs.hashes true).trans hc.unconfirmed⟩
  rw [Tripwires.pins, hs.baselines]
  exact hc.pins

theorem not_tripwire_unconfirmed {contract because : String} :
    ∀ alert ∈ [wasmUnconfirmed contract pinned observed because], isAutoHaltTripwire alert.val.title = false := by
  have htitle : isAutoHaltTripwire "Escrow WASM mismatch not confirmed - no auto-halt" = false := by decide
  exact List.forall_mem_singleton.mpr htitle

/-- The read that confirms, where it has a hash. -/
theorem Compares.confirm {confirmed : String} (hc : Compares cfg pinned observed h) (hne : observed ≠ pinned) :
    wasmTripped cfg (h ++ [⟨.readInstance true, .ok (.wasm confirmed)⟩]) = decide (confirmed ≠ pinned) := by
  have hpins : Tripwires.pins cfg (h ++ [⟨.readInstance true, .ok (.wasm confirmed)⟩]) = [pinned] := by
    rw [Tripwires.pins, filterMap_concat_none rfl]
    exact hc.pins
  rw [wasmTripped, hpins, filterMap_concat_none rfl, filterMap_concat_some (b := confirmed) rfl, hc.observed,
    hc.unconfirmed]
  simp [hne]

/-- The alert is raised exactly if both reads are apart from the pin. -/
theorem Tells.confirm {confirmed : String} {alerts : List OwnAlert} (ht : Tells cfg now h s)
    (hc : Compares cfg pinned observed h) (hne : observed ≠ pinned) (hreport : s'.report = s.report.pushAll alerts)
    (hhalt : s'.halt = s.halt) (halerts : (alerts.map (·.val.title)).filter isAutoHaltTripwire =
      if confirmed ≠ pinned then [tripwireWasmChanged] else []) :
    Tells cfg now (h ++ [⟨.readInstance true, .ok (.wasm confirmed)⟩]) s' := by
  obtain ⟨a, b, htitles, hop, hwasm⟩ := ht.trips
  obtain rfl : b = 0 := by
    rw [wasmTripped_of_nil hc.unconfirmed] at hwasm
    simpa using hwasm
  refine ⟨⟨a, if confirmed ≠ pinned then 1 else 0, ?_, ?_, ?_⟩, ?_⟩
  · rw [hreport, tripTitles_pushAll, htitles, halerts, List.replicate_zero, List.append_nil]
    split <;> rfl
  · rw [← hop, opTripped, opTripped, filterMap_concat_none rfl]
  · rw [hc.confirm hne]
    simp
  · rw [filterMap_concat_none rfl, hhalt]
    exact ht.asked

theorem ends_compareTo {contract : String} {source : PinSource} (hh : Halts cfg now h) (hr : Ready cfg now h s)
    (hc : Compares cfg pinned observed h) :
    Ends cfg now (compareTo cfg contract pinned observed source s) h fun out h' => Tells cfg now h' out.2 := by
  unfold compareTo
  split
  · exact ends_pure hh hr.toTells
  rename_i hne
  unfold confirmWasm
  refine ends_silent trivial hh hr fun _ h₁ hh₁ hr₁ hsame₁ => ?_
  have hc₁ := hc.same hsame₁
  refine along_lawful_question hh₁ (fun _ => hr₁.settled) fun again hh₂ => ?_
  have hunseen (a : Except Paging.Failure Instance) (ha : ∀ again', hash again' ⟨.readInstance true, a⟩ = none) :
      Same cfg h₁ (h₁ ++ [⟨.readInstance true, a⟩]) :=
    ⟨Unseen.sees ⟨rfl, ha, rfl⟩, filterMap_concat_none rfl⟩
  have hnone (because : String) :
      (([wasmUnconfirmed contract pinned observed because] : List OwnAlert).map (·.val.title)).filter
        isAutoHaltTripwire = [] := rfl
  rcases again with e | (_ | _ | confirmed)
  · exact ends_pure hh₂ (hr₁.toTells.same (hunseen _ fun _ => rfl) (leaves_pushAll not_tripwire_unconfirmed))
  · exact ends_pure hh₂ (hr₁.toTells.same (hunseen _ fun _ => rfl) (leaves_pushAll not_tripwire_unconfirmed))
  · exact ends_pure hh₂ (hr₁.toTells.same (hunseen _ fun _ => rfl) (leaves_pushAll not_tripwire_unconfirmed))
  by_cases hsame : confirmed = pinned
  · have hconfirmed : confirmedOf cfg pinned (.ok (.wasm confirmed)) = .error _ := if_pos hsame
    rw [hconfirmed]
    exact ends_pure hh₂ (hr₁.toTells.confirm hc₁ hne rfl rfl ((hnone _).trans (if_neg (not_not.mpr hsame)).symm))
  · have hconfirmed : confirmedOf cfg pinned (.ok (.wasm confirmed)) = .ok confirmed := if_neg hsame
    rw [hconfirmed]
    exact ends_pure hh₂ (hr₁.toTells.confirm hc₁ hne rfl rfl (if_pos hsame).symm)

/-- Without the read that confirms, a read of the code or of the baseline raises nothing. -/
theorem Ready.unconfirmed (hr : Ready cfg now h s) (hnil : h.filterMap (hash true) = [])
    (hnil' : h'.filterMap (hash true) = []) (hpages : h'.filterMap page = h.filterMap page)
    (hreasons : h'.filterMap reason = h.filterMap reason) : Ready cfg now h' s := by
  have hop : opTripped cfg now h' = opTripped cfg now h := by rw [opTripped, opTripped, hpages]
  have hwasm : wasmTripped cfg h' = wasmTripped cfg h := by rw [wasmTripped_of_nil hnil, wasmTripped_of_nil hnil']
  have hraised : raised cfg now h' = raised cfg now h := by rw [raised, raised, hop, hwasm]
  obtain ⟨a, b, htitles, hop', hwasm'⟩ := hr.trips
  refine ⟨⟨⟨a, b, htitles, ?_, ?_⟩, ?_⟩, fun hauto => ?_⟩
  · rw [hop, hop']
  · rw [hwasm, hwasm']
  · rw [hreasons, hr.asked]
  · exact mt (pending_congr hraised hreasons).mp (hr.settled hauto)

theorem silent_keepBaseline {contract : String} : (keepBaseline cfg contract observed s).Within (Silent cfg)
    fun r => r = .ok (.ok true, s) := by
  refine within_ite (fun _ => ?_) fun _ => rfl
  exact (within_kvSet trivial).seq fun _ _ => rfl

theorem ends_comparePin (hh : Halts cfg now h) (hr : Ready cfg now h s) (hearly : h.filterMap (baseline cfg) = [])
    (hobserved : h.filterMap (hash false) = [observed]) (hnil : h.filterMap (hash true) = []) :
    Ends cfg now (comparePin cfg (contract cfg) observed s) h fun out h' => Tells cfg now h' out.2 := by
  unfold comparePin
  split
  · rename_i henv
    exact ends_compareTo hh hr ⟨if_pos henv, hobserved, hnil⟩
  rename_i henv
  have hkeep {h' : Record} (hh' : Halts cfg now h') (hr' : Ready cfg now h' s) :
      Ends cfg now (keepBaseline cfg (contract cfg) observed s) h' fun out h'' => Tells cfg now h'' out.2 := by
    refine along_mono ?_ (Within.ends silent_keepBaseline hh' hr')
    rintro _ h'' _ hpost out rfl
    obtain rfl := Except.ok.inj (hpost _ rfl).1
    exact hr'.toTells.same (hpost _ rfl).2 .refl
  unfold kvRead
  split
  · refine along_lawful_question hh (fun _ => hr.settled) fun a hh' => ?_
    have hr' : Ready cfg now (h ++ [⟨.kvRead (wasmKey (contract cfg)), a⟩]) s :=
      hr.unconfirmed hnil ((filterMap_concat_none rfl).trans hnil) (filterMap_concat_none rfl)
        (filterMap_concat_none rfl)
    rcases a with message | (_ | pinned)
    · exact ends_pure hh' hr'.toTells
    · exact hkeep hh' hr'
    dsimp only
    split
    · exact hkeep hh' hr'
    · refine ends_compareTo hh' hr' ⟨?_, (filterMap_concat_none rfl).trans hobserved, ?_⟩
      · rw [pins, if_neg henv, filterMap_concat_some (b := pinned) (if_pos rfl), hearly]
        rfl
      · exact (filterMap_concat_none rfl).trans hnil
  · exact hkeep hh hr

theorem ends_checkWasmHash (hh : Halts cfg now h) (hr : Ready cfg now h s) (he : Early cfg h) :
    Ends cfg now (checkWasmHash cfg s) h fun out h' => Tells cfg now h' out.2 := by
  unfold checkWasmHash
  dsimp only
  split
  · exact ends_pure hh hr.toTells
  refine along_lawful_question hh (fun _ => hr.settled) fun entry hh' => ?_
  have hunseen (a : Except Paging.Failure Instance) (ha : ∀ again, hash again ⟨.readInstance false, a⟩ = none) :
      Same cfg h (h ++ [⟨.readInstance false, a⟩]) :=
    ⟨Unseen.sees ⟨rfl, ha, rfl⟩, filterMap_concat_none rfl⟩
  rcases entry with e | (_ | _ | observed)
  · exact ends_pure hh' (hr.toTells.same (hunseen _ fun _ => rfl) .refl)
  · refine ends_pure hh' (hr.toTells.same (hunseen _ fun _ => rfl) (leaves_pushAll ?_))
    have htitle : isAutoHaltTripwire "Escrow contract instance not found" = false := by decide
    exact List.forall_mem_singleton.mpr htitle
  · exact ends_pure hh' (hr.toTells.same (hunseen _ fun _ => rfl) .refl)
  · have hnil : (h ++ [(⟨.readInstance false, .ok (.wasm observed)⟩ : AskEvent)]).filterMap (hash true) = [] :=
      (filterMap_concat_none rfl).trans (he.hashes true)
    refine ends_comparePin hh' (hr.unconfirmed (he.hashes true) hnil (filterMap_concat_none rfl)
      (filterMap_concat_none rfl)) ((filterMap_concat_none rfl).trans he.baselines) ?_ hnil
    rw [filterMap_concat_some (b := observed) rfl, he.hashes]
    rfl

/-! ## The run -/

theorem ends_checkRest {now' : ℕ} {blind : Blind} {c : Paging.Check} (hh : Halts cfg now h) (hr : Ready cfg now h s) :
    Ends cfg now (checkRest cfg now' blind c s) h fun s' h' => Ready cfg now h' s' := by
  unfold checkRest
  refine ends_silent trivial hh hr fun o h' hh' hr' _ => ?_
  exact ends_pure hh' (hr'.same .refl (leaves_told.trans leaves_noted))

theorem ends_runChecks {now : ℕ} {blind : Blind} (hh : Halts cfg now h) (hr : Ready cfg now h .start)
    (he : Early cfg h) :
    Ends cfg now (runChecks cfg now blind) h fun s' h' => Ready cfg now h' s' := by
  unfold runChecks
  refine (ends_checkSponsorAccount hh hr he).seq fun out h₁ hh₁ hpost₁ => ?_
  obtain ⟨r₁, s₁⟩ := out
  refine (ends_haltNow hh₁ (hpost₁.1.same .refl leaves_noted)).seq fun s₂ h₂ hh₂ hpost₂ => ?_
  have he₂ := hpost₁.2.sees hpost₂.2
  refine (Within.ends (silent_governed untripping_checkGovernance) hh₂ hpost₂.1).seq fun out h₃ hh₃ hpost₃ => ?_
  obtain ⟨r₃, s₃⟩ := out
  have hr₃ : Ready cfg now h₃ (noted cfg now blind .escrowGovernance r₃ s₃) :=
    hpost₂.1.same hpost₃.2 ((hpost₃.1 _ rfl).trans leaves_noted)
  refine (ends_checkWasmHash hh₃ hr₃ (he₂.sees hpost₃.2.toSees)).seq fun out h₄ hh₄ hpost₄ => ?_
  obtain ⟨r₄, s₄⟩ := out
  refine (ends_haltNow hh₄ (hpost₄.same .refl leaves_noted)).seq fun s₅ h₅ hh₅ hpost₅ => ?_
  refine (ends_checkRest hh₅ hpost₅.1).seq fun s₆ h₆ hh₆ hr₆ => (ends_checkRest hh₆ hr₆).seq fun s₇ h₇ hh₇ hr₇ => ?_
  refine along_mono ?_ (ends_haltNow hh₇ hr₇.toTells)
  exact fun r h' _ hpost s' hs' => (hpost s' hs').1

theorem silent_paging {p : Paging.Run α} : (paging p).Within (Silent cfg) fun _ => True :=
  within_relabel (within_of_forall fun _ => trivial)

theorem silent_of_moving {q : Ask} (hq : Moving cfg q) : Silent cfg q := by
  cases q with
  | kvSet key value => trivial
  | _ => exact hq.elim

theorem silent_heartbeat {now : ℕ} {checked : List Paging.Check} :
    (heartbeat cfg now checked).Within (Silent cfg) fun _ => True := by
  refine within_ite (fun _ => ?_) fun _ => trivial
  refine (within_kvSet trivial).seq fun lastRun _ => ?_
  refine within_ite (fun _ => ?_) fun _ => trivial
  exact (within_kvSet trivial).seq fun lastFullRun _ => trivial

theorem ends_runWatchdog {now : ℕ} :
    Ends cfg now (runWatchdog cfg now) [] fun _ h' => cfg.autoHalt = true → ¬Pending cfg now h' := by
  have hstart : Ready cfg now [] .start := by
    refine ⟨tells_start, fun _ hpending => hpending.1 ?_⟩
    simp [raised, opTripped, wasmTripped]
  unfold runWatchdog
  refine (Within.ends silent_paging lawful_nil hstart).seq fun blind h₁ hh₁ hpost₁ => ?_
  refine (ends_runChecks hh₁ (hstart.same hpost₁.2 .refl) (Early.sees ⟨fun _ => rfl, rfl⟩ hpost₁.2.toSees)).seq ?_
  refine fun s₂ h₂ hh₂ hr₂ => ?_
  dsimp only
  have hmoving := (@moving_reportHalt cfg s₂).mono (fun _ => silent_of_moving) fun _ => id
  refine (Within.ends hmoving hh₂ hr₂).seq fun s₃ h₃ hh₃ hpost₃ => ?_
  -- From here on the state of the run does not matter.
  have hr₃ := hr₂.same hpost₃.2 .refl
  refine (Within.ends silent_paging hh₃ hr₃).seq fun report h₄ hh₄ hpost₄ => ?_
  have hr₄ := hr₃.same hpost₄.2 .refl
  refine (Within.ends silent_paging hh₄ hr₄).seq fun _ h₅ hh₅ hpost₅ => ?_
  have hr₅ := hr₄.same hpost₅.2 .refl
  refine (Within.ends silent_heartbeat hh₅ hr₅).seq fun stamps h₆ hh₆ hpost₆ => ?_
  exact ends_pure hh₆ (hr₅.same hpost₆.2 .refl).settled

/-- Wherever a run is cut off: a halt was asked for only with the tripwires that the run had read of, and once
it had read of one it asked for nothing before the halt. At its end no halt is due. -/
theorem halts_first {now : ℕ} {p : Run WatchdogReport}
    (hreach : Reaches (recorded fun _ _ => True) (runWatchdog cfg now) [] p h) :
    (∀ h₁ e h₂, h = h₁ ++ e :: h₂ → HaltsFirst cfg now h₁ e.1) ∧
      ∀ r, p = .ret (.ok r) → cfg.autoHalt = true → ¬Pending cfg now h := by
  have halong := hreach.along (@ends_runWatchdog cfg now)
  refine ⟨halong.now, ?_⟩
  rintro r rfl
  exact halong.2 r rfl

theorem halts_first_demo : (∀ h₁ e h₂, Demo.asked Demo.config.scheduled = h₁ ++ e :: h₂ →
      HaltsFirst Demo.config.scheduled 1000 h₁ e.1) ∧
    ¬Pending Demo.config.scheduled 1000 (Demo.asked Demo.config.scheduled) := by
  have hdone := halts_first (@Demo.runs_asked Demo.config.scheduled).reaches
  refine ⟨hdone.1, ?_⟩
  cases hr : ((runWatchdog Demo.config.scheduled 1000).play Demo.answer []).1 with
  | error e => exact e.elim
  | ok r => exact hdone.2 r (congrArg _ hr) rfl

end Lumenia.Sponsor.Watchdog.Tripwires
