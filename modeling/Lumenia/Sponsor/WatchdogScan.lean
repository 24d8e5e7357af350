import Lumenia.Sponsor.Watchdog
import Mathlib.Order.Monotone.Defs

/-!
# The scan of the sponsor's operations skips nothing

Over any number of scheduled runs, each of which may fail or be cut off at any step, the stored cursor passes
an operation that the sponsor must not source only in a run in which the halt was written. Horizon's pages, the
reads of the store, and its writes may fail each time; a write may also land without an answer. What the store
answers of the cursor, if it answers, is the cursor that it holds, and a page behind a cursor leaves nothing out.
-/

namespace Lumenia.Sponsor.Watchdog.Tripwires

open Dialogue
open Proofs (NetworkId)

/-! ## The surroundings -/

/-- All operations of the account, by their paging tokens. -/
structure History where
  id : ℕ → ℕ
  op : ℕ → Op
  rising : StrictMono id
  named : ∀ i, (op i).pagingToken = some (toString (id i))

/-- A page behind a token: of what comes next, as much as there is by then, up to a hundred. -/
def History.Page (h : History) (n : ℕ) (records : List Op) : Prop :=
  ∃ i k, k ≤ opsPageSize ∧ (∀ j < i, h.id j ≤ n) ∧ n < h.id i ∧ records = (List.range' i k).map h.op

/-- A write of the cursor that has landed. -/
structure Advance where
  run : ℕ
  start : String
  stop : String
  deriving DecidableEq

def Advance.Passes (adv : Advance) (id : ℕ) : Prop :=
  ∃ m n, adv.start = toString m ∧ adv.stop = toString n ∧ m < id ∧ id ≤ n

/-- What outlives a run, with the number of the run and a record of its writes. -/
structure World where
  cursor : String
  run : ℕ
  /-- The runs in which the halt was written. -/
  halted : List ℕ
  advances : List Advance
  deriving DecidableEq

namespace World

def fresh (c : ℕ) : World := ⟨toString c, 0, [], []⟩

def next (w : World) : World := { w with run := w.run + 1 }

def halt (w : World) : World := { w with halted := w.run :: w.halted }

def move (w : World) (value : String) : World :=
  { w with cursor := value, advances := w.advances ++ [⟨w.run, w.cursor, value⟩] }

end World

/-- Any step of a run. Only the halt and the cursor are ever written to what is told of here. -/
def Steps (h : History) (cfg : Config) (w : World) : (q : Ask) → q.Answer → World → Prop
  | .kvRead key, a, w' => w' = w ∧ (key = opsKey cfg → a = .ok (some w.cursor) ∨ ∃ e, a = .error e)
  | .operations (some cursor), a, w' =>
    w' = w ∧ ∀ n, cursor = toString n → (∃ records, a = .ok records ∧ h.Page n records) ∨ ∃ e, a = .error e
  | .kvSet key value, a, w' => key = opsKey cfg ∧ w' = w.move value ∨ (key = opsKey cfg → a = false) ∧ w' = w
  | .setHalt _, a, w' => w' = w.halt ∨ a ≠ .ok true ∧ w' = w
  | _, _, w' => w' = w

/-- As the Worker's scheduled run is configured. -/
def Config.scheduled (cfg : Config) : Config :=
  { cfg with autoHalt := true, paging := { cfg.paging with persist := true } }

/-- What comes after some scheduled runs, each of which may have been cut off. -/
inductive Life (h : History) (cfg : Config) (c : ℕ) : World → Prop
  | start : Life h cfg c (.fresh c)
  | run {w w' : World} {p : Run WatchdogReport} (life : Life h cfg c w) (now : ℕ)
    (hrun : Reaches (Steps h cfg) (runWatchdog cfg.scheduled now) w.next p w') : Life h cfg c w'

/-! ## Pages -/

section

variable {h : History} {n i j k : ℕ} {records : List Op} {cfg : Config} {now : ℤ} {scan : Scan} {next : String}

theorem eq_of_toString {m n : ℕ} (h : toString m = toString n) : m = n := by
  rw [Nat.toString_eq_repr, Nat.toString_eq_repr, ← String.toList_inj, Nat.toList_repr, Nat.toList_repr] at h
  rw [← Nat.ofDigitChars_ten_toDigits (n := m), h, Nat.ofDigitChars_ten_toDigits]

theorem toString_ne_empty {n : ℕ} : toString n ≠ "" := by
  rw [Nat.toString_eq_repr]
  exact Nat.repr_ne_empty

/-- The last of some operations gives the next cursor. -/
theorem History.next_range' : ((List.range' i k).map h.op).foldl (fun next op => op.pagingToken.getD next) next =
    if k = 0 then next else toString (h.id (i + k - 1)) := by
  induction k with
  | zero => rfl
  | succ k ih =>
    rw [List.range'_1_concat, List.map_append, List.foldl_append, ih, if_neg (Nat.succ_ne_zero k)]
    simp [h.named]

/-- A page moves the cursor to its last operation, and has all that it moves past. -/
theorem History.Page.read (hpage : h.Page n records) (hnext : scan.next = toString n) :
    ∃ n', n ≤ n' ∧ (scan.read cfg now records).next = toString n' ∧
      ∀ j, n < h.id j → h.id j ≤ n' → h.op j ∈ records := by
  obtain ⟨i, k, -, hbefore, hafter, rfl⟩ := hpage
  rw [Scan.read, h.next_range']
  split
  · rename_i hk
    exact ⟨n, le_rfl, hnext, fun j hj hj' => absurd hj' (Nat.not_le_of_lt hj)⟩
  · rename_i hk
    refine ⟨_, ?_, rfl, fun j hj hj' => ?_⟩
    · exact hafter.le.trans (h.rising.monotone (by omega))
    · have hfirst : i ≤ j := by
        by_contra hlt
        exact absurd (hbefore j (not_le.mp hlt)) (Nat.not_le_of_lt hj)
      have hlast : j ≤ i + k - 1 := h.rising.le_iff_le.mp hj'
      exact List.mem_map_of_mem (List.mem_range'_1.mpr ⟨hfirst, by omega⟩)

/-- Any operation that is forbidden trips, unless it was read on a cold start. -/
theorem any_trips (hmem : h.op j ∈ records) (hforbidden : (h.op j).isForbidden cfg.sponsor = true) :
    records.any (Op.trips cfg now false) = true := by
  refine List.any_eq_true.mpr ⟨_, hmem, ?_⟩
  simp [Op.trips, hforbidden]

end

/-! ## A run -/

section

variable {h : History} {cfg : Config} {c₀ : ℕ} {w₀ w w' w'' : World} {s s' : State} {α : Type}

/-- All that was passed was passed in a run that has written the halt. -/
def Kept (h : History) (cfg : Config) (c₀ : ℕ) (w : World) : Prop :=
  ∃ c, w.cursor = toString c ∧ ∀ i, (h.op i).isForbidden cfg.sponsor = true → c₀ < h.id i → h.id i ≤ c →
    ∃ adv ∈ w.advances, adv.Passes (h.id i) ∧ adv.run ∈ w.halted

/-- The cursor and the run stay, and halts may have been written. -/
structure Stays (w w' : World) : Prop where
  cursor : w'.cursor = w.cursor
  run : w'.run = w.run
  advances : w'.advances = w.advances
  halted : w.halted ⊆ w'.halted

theorem Stays.refl : Stays w w := ⟨rfl, rfl, rfl, List.Subset.refl _⟩

theorem Stays.trans (h₁ : Stays w w') (h₂ : Stays w' w'') : Stays w w'' :=
  ⟨h₂.cursor.trans h₁.cursor, h₂.run.trans h₁.run, h₂.advances.trans h₁.advances,
    List.Subset.trans h₁.halted h₂.halted⟩

theorem stays_halt : Stays w w.halt := ⟨rfl, rfl, rfl, List.subset_cons_self ..⟩

theorem Kept.stays (hk : Kept h cfg c₀ w) (hs : Stays w w') : Kept h cfg c₀ w' := by
  obtain ⟨c, hc, hpassed⟩ := hk
  refine ⟨c, hs.cursor.trans hc, fun i hi hlow hhigh => ?_⟩
  obtain ⟨adv, hadv, hpasses, hrun⟩ := hpassed i hi hlow hhigh
  exact ⟨adv, hs.advances ▸ hadv, hpasses, hs.halted hrun⟩

/-- The tripwire is raised if one of the operations from `c` on up to `n` is forbidden. -/
def Covers (h : History) (cfg : Config) (c n : ℕ) (tripped : Bool) : Prop :=
  ∀ i, (h.op i).isForbidden cfg.sponsor = true → c < h.id i → h.id i ≤ n → tripped = true

/-- What a state of the run knows of the world is so: of the halt, and of where the cursor may go. -/
structure Knows (h : History) (cfg : Config) (w : World) (s : State) : Prop where
  halted : s.halt.autoHalted = true → w.run ∈ w.halted
  target : cfg.paging.store = true → ∀ ops, s.opsCursor = some ops → ∃ c n, w.cursor = toString c ∧
    ops.to' = toString n ∧ Covers h cfg c n ops.tripped

theorem Knows.stays (hk : Knows h cfg w s) (hs : Stays w w') (hhalt : s'.halt = s.halt)
    (hops : s'.opsCursor = s.opsCursor) : Knows h cfg w' s' where
  halted hauto := hs.run ▸ hs.halted (hk.halted (hhalt ▸ hauto))
  target hstore ops heq := by
    obtain ⟨c, n, hc, hn, hcovers⟩ := hk.target hstore ops (hops ▸ heq)
    exact ⟨c, n, hs.cursor.trans hc, hn, hcovers⟩

theorem wasmKey_ne_opsKey {contract : String} : wasmKey contract ≠ opsKey cfg := by
  intro heq
  have htake := congrArg (fun key => key.toList.take 10) heq
  simp [wasmKey, opsKey, String.toList_append] at htake

/-- Questions that move nothing of the world, and write nothing but the baseline and on the scheduled run. -/
def Inert (cfg : Config) : Ask → Prop
  | .setHalt _ => False
  | .kvSet key _ => (∃ contract, key = wasmKey contract) ∧ cfg.paging.persist = true
  | .kvSetLedger .. => cfg.paging.persist = true
  | .paging q => writes q = true → cfg.paging.persist = true
  | _ => True

/-- The stamps as well. -/
def Quiet (cfg : Config) : Ask → Prop
  | .kvSet key _ => key ≠ opsKey cfg ∧ cfg.paging.persist = true
  | q => Inert cfg q

theorem quiet_of_inert {q : Ask} (hq : Inert cfg q) : Quiet cfg q := by
  cases q with
  | kvSet key value =>
    obtain ⟨⟨contract, rfl⟩, hpersist⟩ := hq
    exact ⟨wasmKey_ne_opsKey, hpersist⟩
  | _ => exact hq

theorem step_quiet {q : Ask} {a : q.Answer} (hq : Quiet cfg q) (hstep : Steps h cfg w q a w') : w' = w := by
  cases q with
  | setHalt reason => exact hq.elim
  | kvSet key value =>
    rcases hstep with ⟨hkey, -⟩ | ⟨-, hw⟩
    · exact absurd hkey hq.1
    · exact hw
  | kvRead key => exact hstep.1
  | operations cursor =>
    cases cursor with
    | none => exact hstep
    | some cursor => exact hstep.1
  | _ => exact hstep

/-- What asks nothing else leaves the world as it is. -/
theorem along_quiet {p : Run α} {N : Except Empty α → Prop} (hp : p.Within (Quiet cfg) N) (hk : Kept h cfg c₀ w) :
    p.along (Steps h cfg) (Kept h cfg c₀) (fun r w' => N r ∧ w' = w) w :=
  hp.along (fun _ hq _ _ _ hw hstep => (step_quiet hq hstep).trans hw) (fun _ hw => hw ▸ hk) rfl

theorem along_inert {p : Run α} {N : Except Empty α → Prop} (hp : p.Within (Inert cfg) N) (hk : Kept h cfg c₀ w) :
    p.along (Steps h cfg) (Kept h cfg c₀) (fun r w' => N r ∧ w' = w) w :=
  along_quiet (hp.mono (fun _ => quiet_of_inert) fun _ => id) hk

theorem within_haltBefore {halt : Halt} : (haltBefore halt).Within (Inert cfg) fun _ => True := by
  unfold haltBefore
  split
  · exact trivial
  · exact ⟨trivial, fun _ => trivial⟩

/-- A halt that is written is written. -/
theorem along_haltNow (hk : Kept h cfg c₀ w) (hs : Knows h cfg w s) :
    (haltNow cfg s).along (Steps h cfg) (Kept h cfg c₀) (fun r w' => ∀ s', r = .ok s' →
      Stays w w' ∧ Knows h cfg w' s' ∧ s'.opsCursor = s.opsCursor) w := by
  rw [haltNow]
  dsimp only
  split
  · refine ⟨hk, fun s' hs' => ?_⟩
    obtain rfl := Except.ok.inj hs'
    exact ⟨.refl, hs, rfl⟩
  refine along_seq (along_mono ?_ (along_inert within_haltBefore hk))
  rintro _ w' _ ⟨-, rfl⟩ before -
  apply along_question_bind hk
  intro a w'' hstep
  have hstays : Stays w' w'' := by
    rcases hstep with rfl | ⟨-, rfl⟩
    · exact stays_halt
    · exact .refl
  refine ⟨hk.stays hstays, fun s' hs' => ?_⟩
  obtain rfl := Except.ok.inj hs'
  refine ⟨hstays, ⟨fun hauto => ?_, (hs.stays hstays rfl rfl).target⟩, rfl⟩
  -- The halt was written now, or before.
  rcases hstep with rfl | ⟨hnot, rfl⟩
  · exact List.mem_cons_self
  · apply hs.halted
    rcases a with message | (_ | _)
    · exact hauto
    · exact hauto
    · exact absurd rfl hnot

/-- What a part of the run leaves: halts may have been written, and its state knows of them. -/
def Left (h : History) (cfg : Config) (w : World) (s : State) (w' : World) : Prop :=
  Stays w w' ∧ Knows h cfg w' s

/-- A check that has come so far has not yet a target for the cursor. -/
theorem Knows.of_halt (hs : Knows h cfg w s) (hstays : Stays w w') (hhalt : s'.halt = s.halt)
    (hnone : s'.opsCursor = none) : Knows h cfg w' s' where
  halted hauto := hstays.run ▸ hstays.halted (hs.halted (hhalt ▸ hauto))
  target _ _ heq := nomatch hnone ▸ heq

variable {now : ℤ} {left c n : ℕ} {scan : Scan} {r : Except Paging.Failure Bool}

/-- What the scan has come to: what is forbidden up to where it is has raised the tripwire. -/
structure Walked (h : History) (cfg : Config) (c : ℕ) (w : World)
    (out : Except Paging.Failure (Scan × Bool × ℕ) × State) (w' : World) : Prop where
  left : Left h cfg w out.2 w'
  unset : out.2.opsCursor = none
  covers : ∀ scan full pages, out.1 = .ok (scan, full, pages) →
    ∃ n, scan.next = toString n ∧ Covers h cfg c n scan.tripped

theorem Walked.of_scan {full : Bool} (hs : Knows h cfg w s) (hnone : s.opsCursor = none)
    (hnext : scan.next = toString n) (hcovers : Covers h cfg c n scan.tripped) :
    Walked h cfg c w (.ok (scan, full, left), s) w where
  left := ⟨.refl, hs⟩
  unset := hnone
  covers _ _ _ heq := by
    obtain ⟨rfl, -⟩ := Prod.mk.inj (Except.ok.inj heq)
    exact ⟨n, hnext, hcovers⟩

/-- The scan goes over one page after the other, and trips on what is forbidden in them. -/
theorem along_walk (hk : Kept h cfg c₀ w) (hs : Knows h cfg w s) (hnone : s.opsCursor = none)
    (hnext : scan.next = toString n) (hcovers : Covers h cfg c n scan.tripped) :
    (walk cfg now left scan s).along (Steps h cfg) (Kept h cfg c₀)
      (fun r w' => ∀ out, r = .ok out → Walked h cfg c w out w') w := by
  induction left generalizing scan s w n with
  | zero =>
    refine ⟨hk, fun out hout => ?_⟩
    obtain rfl := Except.ok.inj hout
    exact .of_scan hs hnone hnext hcovers
  | succ left ih =>
    rw [walk]
    apply along_question_bind hk
    rintro a w' ⟨rfl, hanswer⟩
    obtain ⟨records, rfl, hpage⟩ | ⟨e, rfl⟩ := hanswer n hnext
    case inr =>
      refine ⟨hk, fun out hout => ?_⟩
      obtain rfl := Except.ok.inj hout
      exact ⟨⟨.refl, hs⟩, hnone, fun _ _ _ => nofun⟩
    obtain ⟨n', hle, hnext', hread⟩ := hpage.read hnext
    -- What the page moves past was covered before, or is on the page.
    have hcovers' : Covers h cfg c n' (scan.read cfg now records).tripped := by
      intro i hi hlow hhigh
      rw [Scan.read, Bool.or_eq_true]
      rcases Nat.lt_or_ge n (h.id i) with hlt | hge
      · exact .inr (any_trips (hread i hlt hhigh) hi)
      · exact .inl (hcovers i hi hlow hge)
    have hs' : Knows h cfg w' (s.pushAll (inspectAll cfg now false records)) := hs.of_halt .refl rfl hnone
    dsimp only
    split
    · refine ⟨hk, fun out hout => ?_⟩
      obtain rfl := Except.ok.inj hout
      exact .of_scan hs' hnone hnext' hcovers'
    split
    · split
      · refine along_seq (along_mono ?_ (along_haltNow hk hs'))
        rintro _ w'' hk' hhalted s' rfl
        obtain ⟨hstays, hs'', hops⟩ := hhalted s' rfl
        refine along_mono ?_ (ih hk' hs'' (hops.trans hnone) hnext' hcovers')
        rintro r w₃ - hr out rfl
        obtain ⟨⟨hstays', hs₃⟩, hnone', hcovers''⟩ := hr out rfl
        exact ⟨⟨hstays.trans hstays', hs₃⟩, hnone', hcovers''⟩
      · exact ih hk hs' hnone hnext' hcovers'
    · refine ⟨hk, fun out hout => ?_⟩
      obtain rfl := Except.ok.inj hout
      exact .of_scan hs' hnone hnext' hcovers'

theorem along_scanForward (hk : Kept h cfg c₀ w) (hs : Knows h cfg w s) (hnone : s.opsCursor = none)
    (hc : w.cursor = toString c) :
    (scanForward cfg now w.cursor s).along (Steps h cfg) (Kept h cfg c₀)
      (fun r w' => ∀ out, r = .ok out → Left h cfg w out.2 w') w := by
  have hstart : Covers h cfg c c false := fun i _ hlow hhigh => absurd hhigh (Nat.not_le_of_lt hlow)
  refine along_seq (along_mono ?_ (along_walk hk hs hnone hc hstart))
  rintro _ w' hk' hwalked ⟨r, s'⟩ rfl
  obtain ⟨⟨hstays, hs'⟩, hnone', hcovers⟩ := hwalked _ rfl
  rcases r with e | ⟨scan, full, pages⟩
  · refine ⟨hk', fun out hout => ?_⟩
    obtain rfl := Except.ok.inj hout
    exact ⟨hstays, hs'⟩
  obtain ⟨n, hn, hcovers⟩ := hcovers scan full pages rfl
  have hended : ∀ s'' : State, s''.halt = s'.halt → s''.opsCursor = none → Left h cfg w s'' w' :=
    fun s'' hhalt hops => ⟨hstays, hs'.of_halt .refl hhalt hops⟩
  have hshown : (if full then s'.pushAll [behindAlert cfg now (opsMaxPages - pages) scan.reached] else s').halt =
      s'.halt := by
    split <;> rfl
  have hunset : (if full then s'.pushAll [behindAlert cfg now (opsMaxPages - pages) scan.reached]
      else s').opsCursor = none := by
    split <;> exact hnone'
  dsimp only
  split
  · refine ⟨hk', fun out hout => ?_⟩
    obtain rfl := Except.ok.inj hout
    refine ⟨hstays, ⟨fun hauto => hs'.halted (hshown ▸ hauto), fun _ ops hops => ?_⟩⟩
    obtain rfl := Option.some.inj hops
    exact ⟨c, n, hstays.cursor.trans hc, hn, hcovers⟩
  · refine ⟨hk', fun out hout => ?_⟩
    obtain rfl := Except.ok.inj hout
    exact hended _ hshown hunset

/-- Without a store the newest page is read. -/
theorem along_scanNewest (hk : Kept h cfg c₀ w) (hs : Knows h cfg w s) (hstore : cfg.paging.store = false) :
    (scanNewest cfg now s).along (Steps h cfg) (Kept h cfg c₀)
      (fun r w' => ∀ out, r = .ok out → Left h cfg w out.2 w') w := by
  have hleft : ∀ s' : State, s'.halt = s.halt → Left h cfg w s' w := fun s' hhalt =>
    ⟨.refl, ⟨fun hauto => hs.halted (hhalt ▸ hauto), fun htrue => absurd (hstore ▸ htrue) Bool.false_ne_true⟩⟩
  apply along_question_bind hk
  rintro a w' rfl
  rcases a with e | records
  · refine ⟨hk, fun out hout => ?_⟩
    obtain rfl := Except.ok.inj hout
    exact hleft _ rfl
  · dsimp only
    split
    · refine ⟨hk, fun out hout => ?_⟩
      obtain rfl := Except.ok.inj hout
      exact hleft _ rfl
    · refine ⟨hk, fun out hout => ?_⟩
      obtain rfl := Except.ok.inj hout
      exact hleft _ rfl

theorem along_checkSponsorAccount (hk : Kept h cfg c₀ w) (hs : Knows h cfg w s) (hnone : s.opsCursor = none) :
    (checkSponsorAccount cfg now s).along (Steps h cfg) (Kept h cfg c₀)
      (fun r w' => ∀ out, r = .ok out → Left h cfg w out.2 w') w := by
  have hleft : ∀ s' : State, s'.halt = s.halt → s'.opsCursor = none → Left h cfg w s' w :=
    fun s' hhalt hops => ⟨.refl, hs.of_halt .refl hhalt hops⟩
  have hend : ∀ (r : Except Paging.Failure Bool) (s' : State), s'.halt = s.halt → s'.opsCursor = none →
      (pure (r, s') : Checked).along (Steps h cfg) (Kept h cfg c₀)
        (fun r w' => ∀ out, r = .ok out → Left h cfg w out.2 w') w := by
    refine fun r s' hhalt hops => ⟨hk, fun out hout => ?_⟩
    obtain rfl := Except.ok.inj hout
    exact hleft s' hhalt hops
  apply along_question_bind hk
  rintro a w' rfl
  rcases a with e | (_ | alerts)
  · exact hend _ _ rfl hnone
  · exact hend _ _ rfl hnone
  have hs' : Knows h cfg w' (s.pushAll (alerts.map ToldAlert.own)) := hs.of_halt .refl rfl hnone
  dsimp only
  by_cases hstore : cfg.paging.store = true
  · rw [kvRead, if_pos hstore]
    apply along_question_bind hk
    rintro a w'' ⟨rfl, hanswer⟩
    obtain rfl | ⟨e, rfl⟩ := hanswer rfl
    · have hcursor := hk
      obtain ⟨c, hc, -⟩ := hcursor
      have hread : (some w''.cursor).getD "" ≠ "" := by
        rw [Option.getD_some, hc]
        exact toString_ne_empty
      dsimp only
      rw [if_neg hread]
      exact along_scanForward hk hs' hnone hc
    · exact hend _ _ rfl hnone
  · rw [kvRead, if_neg hstore]
    exact along_scanNewest hk hs' (Bool.not_eq_true _ ▸ hstore)

/-- What a check leaves that has nothing to do with the halt and the cursor. -/
structure Apart (s s' : State) : Prop where
  halt : s'.halt = s.halt
  opsCursor : s'.opsCursor = s.opsCursor

theorem Apart.refl : Apart s s := ⟨rfl, rfl⟩

theorem Apart.noted {now : ℕ} {blind : Paging.Blind} {c : Paging.Check} (ha : Apart s s') :
    Apart s (noted cfg now blind c r s') := by
  rcases r with e | (_ | _)
  · exact ⟨ha.halt, ha.opsCursor⟩
  · exact ha
  · exact ⟨ha.halt, ha.opsCursor⟩

/-- What a check leaves that is no scan, before its result is noted. -/
structure Untouched (s s' : State) : Prop extends Apart s s' where
  checked : s'.checked = s.checked

theorem Untouched.refl : Untouched s s := ⟨.refl, rfl⟩

/-- A check ends apart from the halt and the cursor. -/
abbrev EndsApart (s : State) (r : Except Empty (Except Paging.Failure Bool × State)) : Prop :=
  ∀ out, r = .ok out → Untouched s out.2

theorem endsApart_ok {out : Except Paging.Failure Bool × State} (ha : Untouched s out.2) : EndsApart s (.ok out) := by
  intro out' hout
  obtain rfl := Except.ok.inj hout
  exact ha

theorem within_governed {p : Watchdog.Check Bool} : (governed cfg p s).Within (Inert cfg) (EndsApart s) := by
  induction p generalizing s with
  | ret r => exact endsApart_ok .refl
  | ask q k ih =>
    cases q with
    | push alert =>
      rw [governed]
      refine (ih ()).mono (fun _ => id) fun r hr out hout => ?_
      exact ⟨⟨(hr out hout).halt, (hr out hout).opsCursor⟩, (hr out hout).checked⟩
    | kvRead key =>
      rw [governed]
      exact within_ite (fun _ => ⟨trivial, fun a => ih a⟩) fun _ => ih _
    | kvSet key value =>
      rw [governed]
      exact within_ite (fun h => ⟨(Bool.and_eq_true_iff.mp h).1, fun a => ih a⟩) fun _ => ih _
    | getLatestLedger =>
      rw [governed]
      refine ⟨trivial, fun a => ?_⟩
      cases a with
      | error e => exact endsApart_ok .refl
      | ok latest => exact ih _
    | getEvents start limit =>
      rw [governed]
      refine ⟨trivial, fun a => ?_⟩
      cases a with
      | error e => exact endsApart_ok .refl
      | ok events => exact ih _

theorem within_kvRead {key : String} : (kvRead cfg key).Within (Inert cfg) fun _ => True :=
  within_ite (fun _ => ⟨trivial, fun _ => trivial⟩) fun _ => trivial

theorem within_kvSet {K : Ask → Prop} {key value : String} (hK : K (.kvSet key value)) :
    (kvSet cfg key value).Within K fun _ => True :=
  within_ite (fun _ => ⟨hK, fun _ => trivial⟩) fun _ => trivial

theorem within_compareTo {contract pinned observed : String} {source : PinSource} :
    (compareTo cfg contract pinned observed source s).Within (Inert cfg) (EndsApart s) := by
  refine within_ite (fun _ => endsApart_ok .refl) fun _ => ?_
  apply within_question_bind trivial
  intro _
  apply within_question_bind trivial
  intro again
  split
  · exact endsApart_ok ⟨⟨rfl, rfl⟩, rfl⟩
  · exact endsApart_ok ⟨⟨rfl, rfl⟩, rfl⟩

theorem within_keepBaseline {contract observed : String} :
    (keepBaseline cfg contract observed s).Within (Inert cfg) (EndsApart s) := by
  refine within_ite (fun hpersist => ?_) fun _ => endsApart_ok .refl
  refine (within_kvSet ⟨⟨contract, rfl⟩, hpersist⟩).seq fun _ _ => ?_
  exact endsApart_ok .refl

theorem within_comparePin {contract observed : String} :
    (comparePin cfg contract observed s).Within (Inert cfg) (EndsApart s) := by
  apply within_ite (fun _ => within_compareTo)
  intro _
  apply within_kvRead.seq
  intro read _
  cases read with
  | error message => exact endsApart_ok .refl
  | ok pinned =>
    exact within_ite (fun _ => within_keepBaseline) fun _ => within_compareTo

theorem within_checkWasmHash : (checkWasmHash cfg s).Within (Inert cfg) (EndsApart s) := by
  refine within_ite (fun _ => endsApart_ok .refl) fun _ => within_question_bind trivial fun entry => ?_
  rcases entry with e | (_ | _ | observed)
  · exact endsApart_ok .refl
  · exact endsApart_ok ⟨⟨rfl, rfl⟩, rfl⟩
  · exact endsApart_ok .refl
  · exact within_comparePin

theorem within_checkRest {now : ℕ} {blind : Paging.Blind} {c : Paging.Check} :
    (checkRest cfg now blind c s).Within (Inert cfg) fun r => ∀ s', r = .ok s' → Apart s s' := by
  apply within_question_bind trivial
  intro o s' hs'
  obtain rfl := Except.ok.inj hs'
  exact Apart.noted ⟨rfl, rfl⟩

/-- Of the steps of `BlindChecks`, those of the scheduled run alone write. -/
abbrev Scheduled (cfg : Config) (q : Paging.Ask) : Prop := writes q = true → cfg.paging.persist = true

theorem within_paging {p : Paging.Run α} (hp : p.Within (Scheduled cfg) fun _ => True) :
    (paging p).Within (Inert cfg) fun _ => True :=
  within_relabel hp

theorem within_readBlind : (Paging.readBlind cfg.paging).Within (Scheduled cfg) fun _ => True := by
  refine within_ite (fun _ => ⟨nofun, fun a => ?_⟩) fun _ => trivial
  cases a <;> exact trivial

theorem within_saveBlind {blind : Paging.Blind} {report : Paging.Report} :
    (Paging.saveBlind cfg.paging blind report).Within (Scheduled cfg) fun _ => True := by
  refine within_ite (fun h => ⟨fun _ => ?_, fun a => ?_⟩) fun _ => trivial
  · simp only [Bool.and_eq_true] at h
    exact h.1.1
  · cases a <;> exact trivial

theorem within_deliver {now : ℕ} {freshHalt : Bool} {alerts : List Alert} :
    (Paging.deliver cfg.paging now freshHalt alerts).Within (Scheduled cfg) fun _ => True := by
  refine within_ite (fun h => within_of_forall fun _ _ => ?_) fun _ => trivial
  exact (Bool.and_eq_true_iff.mp h).1

/-! ### The whole run -/

theorem Left.apart (hl : Left h cfg w s w') (ha : Apart s s') : Left h cfg w s' w' :=
  ⟨hl.1, hl.2.stays .refl ha.halt ha.opsCursor⟩

theorem along_runChecks {now : ℕ} {blind : Paging.Blind} (hk : Kept h cfg c₀ w) :
    (runChecks cfg now blind).along (Steps h cfg) (Kept h cfg c₀)
      (fun r w' => ∀ s', r = .ok s' → Left h cfg w s' w') w := by
  have hstart : Knows h cfg w .start := ⟨nofun, fun _ _ => nofun⟩
  -- A halt goes on from what was left.
  have hhalt : ∀ s w', Kept h cfg c₀ w' → Left h cfg w s w' → (haltNow cfg s).along (Steps h cfg) (Kept h cfg c₀)
      (fun r w'' => ∀ s', r = .ok s' → Left h cfg w s' w'') w' := by
    refine fun s w' hk' hl => along_mono ?_ (along_haltNow hk' hl.2)
    intro r w'' _ hr s' hs'
    obtain ⟨hstays, hs'', -⟩ := hr s' hs'
    exact ⟨hl.1.trans hstays, hs''⟩
  unfold runChecks
  refine along_seq (along_mono ?_ (along_checkSponsorAccount hk hstart rfl))
  rintro _ w₁ hk₁ hl ⟨r₁, s₁⟩ rfl
  refine along_seq (along_mono ?_ (hhalt _ w₁ hk₁ ((hl _ rfl).apart (Apart.refl.noted))))
  rintro _ w₂ hk₂ hl s₂ rfl
  refine along_seq (along_mono ?_ (along_inert within_governed hk₂))
  rintro _ _ - ⟨ha, rfl⟩ ⟨r₃, s₃⟩ rfl
  have hl₃ := (hl _ rfl).apart (ha _ rfl).toApart
  refine along_seq (along_mono ?_ (along_inert within_checkWasmHash hk₂))
  rintro _ _ - ⟨ha, rfl⟩ ⟨r₄, s₄⟩ rfl
  have hl₄ := (hl₃.apart Apart.refl.noted).apart (ha _ rfl).toApart
  refine along_seq (along_mono ?_ (hhalt _ _ hk₂ (hl₄.apart Apart.refl.noted)))
  rintro _ w₅ hk₅ hl s₅ rfl
  refine along_seq (along_mono ?_ (along_inert within_checkRest hk₅))
  rintro _ _ - ⟨ha, rfl⟩ s₆ rfl
  have hl₆ := (hl _ rfl).apart (ha _ rfl)
  refine along_seq (along_mono ?_ (along_inert within_checkRest hk₅))
  rintro _ _ - ⟨ha, rfl⟩ s₇ rfl
  exact hhalt _ _ hk₅ (hl₆.apart (ha _ rfl))

/-- The cursor moves past a tripwire only if the halt was written. -/
theorem Kept.move (hk : Kept h cfg c₀ w) (hs : Knows h cfg w s) (hstore : cfg.paging.store = true)
    {ops : OpsCursor} (hops : s.opsCursor = some ops) (hhalt : ops.tripped = true → s.halt.autoHalted = true) :
    Kept h cfg c₀ (w.move ops.to') := by
  obtain ⟨c, hc, hpassed⟩ := hk
  obtain ⟨c', n, hc', hn, hcovers⟩ := hs.target hstore ops hops
  obtain rfl : c = c' := eq_of_toString (hc.symm.trans hc')
  refine ⟨n, hn, fun i hi hlow hhigh => ?_⟩
  rcases Nat.lt_or_ge c (h.id i) with hlt | hge
  · refine ⟨⟨w.run, w.cursor, ops.to'⟩, ?_, ⟨c, n, hc, hn, hlt, hhigh⟩, ?_⟩
    · exact List.mem_append_right _ (List.mem_singleton_self _)
    · exact hs.halted (hhalt (hcovers i hi hlt hhigh))
  · obtain ⟨adv, hadv, hpasses, hrun⟩ := hpassed i hi hlow hge
    exact ⟨adv, List.mem_append_left _ hadv, hpasses, hrun⟩

theorem along_moveOpsCursor (hk : Kept h cfg c₀ w) (hs : Knows h cfg w s) (hauto : cfg.autoHalt = true) :
    (moveOpsCursor cfg s).along (Steps h cfg) (Kept h cfg c₀) (fun _ => Kept h cfg c₀) w := by
  unfold moveOpsCursor
  split
  · exact ⟨hk, hk⟩
  rename_i ops hops
  split
  · exact ⟨hk, hk⟩
  rename_i hmoves
  unfold kvSet
  split
  · rename_i hstore
    refine ⟨hk, fun a w' hstep => ?_⟩
    rcases hstep with ⟨-, rfl⟩ | ⟨-, rfl⟩
    · have hmoved : Kept h cfg c₀ (w.move ops.to') := hk.move hs hstore hops fun htripped => by
        by_contra hnot
        apply hmoves
        simp [htripped, hauto, Bool.eq_false_of_not_eq_true hnot]
      exact ⟨hmoved, hmoved⟩
    · exact ⟨hk, hk⟩
  · exact ⟨hk, hk⟩

theorem along_reportHalt (hk : Kept h cfg c₀ w) (hs : Knows h cfg w s) (hauto : cfg.autoHalt = true) :
    (reportHalt cfg s).along (Steps h cfg) (Kept h cfg c₀) (fun _ => Kept h cfg c₀) w := by
  unfold reportHalt
  dsimp only
  split
  · refine along_seq (along_mono ?_ (along_moveOpsCursor hk hs hauto))
    rintro _ w' _ hk' scanMoved rfl
    exact ⟨hk', hk'⟩
  · refine along_seq (along_mono ?_ (along_moveOpsCursor hk hs hauto))
    rintro _ w' _ hk' scanMoved rfl
    exact ⟨hk', hk'⟩

theorem network_text_ne {network : NetworkId} {rest rest' : String} :
    "watchdog:" ++ network.text ++ rest ≠ "watchdog:ops:" ++ rest' := by
  intro heq
  have htake := congrArg (fun key => key.toList.take 10) heq
  cases network <;> simp [NetworkId.text, String.toList_append] at htake

theorem within_heartbeat {now : ℕ} {checked : List Paging.Check} :
    (heartbeat cfg now checked).Within (Quiet cfg) fun _ => True := by
  refine within_ite (fun hpersist => ?_) fun _ => trivial
  refine (within_kvSet ⟨network_text_ne, hpersist⟩).seq fun lastRun _ => ?_
  refine within_ite (fun _ => ?_) fun _ => trivial
  refine (within_kvSet ⟨network_text_ne, hpersist⟩).seq fun lastFullRun _ => ?_
  exact trivial

theorem along_runWatchdog {now : ℕ} (hk : Kept h cfg c₀ w) (hauto : cfg.autoHalt = true) :
    (runWatchdog cfg now).along (Steps h cfg) (Kept h cfg c₀) (fun _ _ => True) w := by
  unfold runWatchdog
  refine along_seq (along_mono ?_ (along_inert (within_paging within_readBlind) hk))
  rintro _ _ - ⟨-, rfl⟩ blind -
  refine along_seq (along_mono ?_ (along_runChecks hk))
  rintro _ w₁ hk₁ hl s₁ rfl
  dsimp only
  refine along_seq (along_mono ?_ (along_reportHalt hk₁ (hl _ rfl).2 hauto))
  rintro _ w₂ hk₂ - s₂ -
  refine along_seq (along_mono ?_ (along_inert (within_paging within_saveBlind) hk₂))
  rintro _ _ - ⟨-, rfl⟩ report -
  refine along_seq (along_mono ?_ (along_inert (within_paging within_deliver) hk₂))
  rintro _ _ - ⟨-, rfl⟩ _ -
  refine along_seq (along_mono ?_ (along_quiet within_heartbeat hk₂))
  rintro _ _ - ⟨-, rfl⟩ stamps -
  exact ⟨hk₂, trivial⟩

end

/-- Whatever fails, and wherever a scheduled run is cut off: as long as the store does not lose the cursor and
Horizon's pages leave nothing out, what the sponsor must not source is passed by the cursor only in a run that has
written the halt. -/
theorem scan_skips_nothing {h : History} {cfg : Config} {c₀ : ℕ} {w : World} (life : Life h cfg c₀ w) :
    ∃ c, w.cursor = toString c ∧ ∀ i, (h.op i).isForbidden cfg.sponsor = true → c₀ < h.id i → h.id i ≤ c →
      ∃ adv ∈ w.advances, adv.Passes (h.id i) ∧ adv.run ∈ w.halted := by
  have hkept : Kept h cfg c₀ w := by
    induction life with
    | start => exact ⟨c₀, rfl, fun i _ hlow hhigh => absurd hhigh (Nat.not_le_of_lt hlow)⟩
    | @run w w' p _ now hrun ih =>
      have hnext : Kept h cfg.scheduled c₀ w.next := ih
      exact (hrun.along (along_runWatchdog hnext rfl)).now
  exact hkept

namespace Demo

def config : Config where
  paging := ⟨true, true, none, none, none, none⟩
  autoHalt := true
  network := .testnet
  sponsor := "S"
  opsUrl := "operations"
  governance := ⟨none, 720, id⟩
  wasmPin := none
  confirmSeconds := "2"
  parseDate := fun _ => none

/-- The second operation of the account is one that it must not source. -/
def history : History where
  id i := i + 10
  op i := ⟨if i = 1 then "set_options" else "create_account", "S", "?", none, some (toString (i + 10))⟩
  rising _ _ hlt := Nat.add_lt_add_right hlt 10
  named _ := rfl

/-- All that is asked is answered, and the account has two operations. -/
def meet (w : World) : (q : Ask) → q.Answer × World
  | .kvRead key => (if key = opsKey config then .ok (some w.cursor) else .ok none, w)
  | .kvSet key value => if key = opsKey config then (true, w.move value) else (true, w)
  | .balances => (.ok (some []), w)
  | .operations cursor =>
    (if cursor = some "9" then .ok [history.op 0, history.op 1] else .error ⟨true, "busy"⟩, w)
  | .kvReadLedger _ => (.ok none, w)
  | .kvSetLedger .. => (true, w)
  | .getLatestLedger => (.ok none, w)
  | .getEvents .. => (.ok none, w)
  | .readInstance _ => (.ok .missing, w)
  | .pause => ((), w)
  | .rest _ => (⟨[], none⟩, w)
  | .storeHaltIsSet => (some false, w)
  | .setHalt _ => (.ok true, w.halt)
  | .paging (.check _) => (⟨[], none⟩, w)
  | .paging .halt => (⟨[], false⟩, w)
  | .paging .kvReadBlind => (some ∅, w)
  | .paging (.kvSetBlind _) => (true, w)
  | .paging .kvGetAlerting => (none, w)
  | .paging (.kvSetAlerting _) => (true, w)
  | .paging (.kvGetAlerted _) => (none, w)
  | .paging (.kvSetAlerted ..) => (true, w)
  | .paging (.email _) => (true, w)

theorem steps_meet {w : World} {q : Ask} : Steps history config w q (meet w q).1 (meet w q).2 := by
  cases q with
  | kvRead key =>
    refine ⟨rfl, fun hkey => .inl ?_⟩
    rw [meet, if_pos hkey]
  | kvSet key value =>
    rw [meet]
    split
    · exact .inl ⟨‹_›, rfl⟩
    · exact .inr ⟨fun hkey => absurd hkey ‹_›, rfl⟩
  | operations cursor =>
    cases cursor with
    | none => rfl
    | some cursor =>
      refine ⟨rfl, fun n hn => ?_⟩
      rw [meet]
      split
      · rename_i hcursor
        obtain rfl : n = 9 := eq_of_toString (hn.symm.trans (Option.some.inj hcursor))
        exact .inl ⟨_, rfl, 0, 2, by decide, fun j hj => absurd hj (Nat.not_lt_zero j), by decide, rfl⟩
      · exact .inr ⟨_, rfl⟩
  | setHalt reason => exact .inl rfl
  | paging q => cases q <;> rfl
  | _ => rfl

/-- One run has found the operation, has written the halt, and has moved on. -/
def halted : World := ⟨"11", 1, [1], [⟨1, "9", "11"⟩]⟩

theorem life : Life history config 9 halted := by
  have hrun : ((runWatchdog config.scheduled 1000).runIn meet (World.fresh 9).next).2 = halted := by
    decide +kernel
  rw [← hrun]
  exact .run .start 1000 (reaches_runIn fun _ _ => steps_meet)

end Demo

theorem scan_skips_nothing_demo : ∃ c, Demo.halted.cursor = toString c ∧
    ∀ i, (Demo.history.op i).isForbidden "S" = true → 9 < Demo.history.id i → Demo.history.id i ≤ c →
      ∃ adv ∈ Demo.halted.advances, adv.Passes (Demo.history.id i) ∧ adv.run ∈ Demo.halted.halted :=
  scan_skips_nothing Demo.life

end Lumenia.Sponsor.Watchdog.Tripwires
