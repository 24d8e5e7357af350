import Lumenia.Theory.Along
import Mathlib.Data.Int.Notation
import Mathlib.Data.List.Basic
import Mathlib.Order.Lattice.Nat

/-!
# The governance watch

`checkGovernance` of `apps/sponsor/src/lib/watchdog.ts`: each scheduled run reads the escrow's events from
a ledger cursor on, raises an alert for every governance event, and moves the cursor. The alerts and the
one key of the store are all that outlives a run, which may fail or end at any step.

The store's text of a ledger number is the number. What an RPC answers is a page of the escrow's events in
the order of their ledgers, from the ledger it is asked for up to its latest one.
-/

namespace Lumenia.Sponsor.Watchdog

open Dialogue

/-! ## Events -/

def eventsPageSize : ℕ := 200

/-- An entry of what `getEvents` answers. -/
structure Event where
  topic : Option (List String)
  ledger : Option ℕ
  txHash : Option String
  deriving DecidableEq

inductive Severity
  | page
  | info
  deriving DecidableEq

structure Alert where
  severity : Severity
  title : String
  detail : String
  deriving DecidableEq

/-- `GOVERNANCE_EVENTS` -/
def governanceEvents : List String :=
  ["paused", "unpaused", "ownership_transfer_started", "ownership_transfer_completed",
    "ownership_renounced", "owner_set", "role_granted", "role_revoked"]

structure GovernanceConfig where
  lumendropContract : Option String
  /-- `WATCHDOG_LOOKBACK_LEDGERS`, 720 where it is no number. -/
  lookback : ℤ
  /-- The native value of a topic, as text. -/
  decodeTopic : String → String

namespace GovernanceConfig

variable (cfg : GovernanceConfig)

/-- The escrow to watch; an empty id is none. -/
def escrow : Option String := cfg.lumendropContract.filter (· ≠ "")

/-- The first governance name among the topics of an event. -/
def hit (ev : Event) : Option String :=
  ((ev.topic.getD []).map cfg.decodeTopic).find? (· ∈ governanceEvents)

def eventAlert (contract hit : String) (ev : Event) : Alert where
  severity := .page
  title := "Escrow governance event: " ++ hit
  detail := "Contract " ++ contract ++ " emitted \"" ++ hit ++ "\" at ledger " ++
    (ev.ledger.map toString).getD "?" ++ (ev.txHash.map fun hash => " (tx " ++ hash ++ ")").getD "" ++
    ". If this was not you, the owner key is compromised — halt and rotate (ops/RUNBOOK_SPONSOR_KEY.md §4)."

end GovernanceConfig

/-! ## The check -/

inductive Ask
  | kvRead (key : String)
  | getLatestLedger
  | getEvents (startLedger limit : ℕ)
  /-- `alerts.push` -/
  | push (alert : Alert)
  | kvSet (key : String) (value : ℕ)

/-- A read of the store or of the RPC fails with a text; a latest ledger and a list of events may be
missing; a write says whether the store has accepted it. -/
abbrev Ask.Answer : Ask → Type
  | kvRead _ => Except String (Option ℕ)
  | getLatestLedger => Except String (Option ℕ)
  | getEvents .. => Except String (Option (List Event))
  | push _ => Unit
  | kvSet .. => Bool

abbrev Check := Dialogue Ask.Answer String

abbrev ask (q : Ask) : Check q.Answer := Dialogue.question q

def orThrow {α : Type} : Except String α → Check α
  | .ok a => pure a
  | .error message => throw message

def cursorKey (contract : String) : String := "watchdog:ledger:" ++ contract

/-- Where the scan begins: at the cursor, but no more than a day back; with no cursor, a little back. -/
def startLedger (lookback : ℤ) (latest : ℕ) : Option ℕ → ℕ
  | some saved => max saved (latest - 17280)
  | none => (max (latest - lookback) 1).toNat

/-- The largest ledger that an event names. -/
def reached (list : List Event) : ℕ := list.foldl (fun m ev => max m (ev.ledger.getD 0)) 0

/-- A full page moves the cursor to the ledger of its last event, and at least one ledger forward. -/
def nextLedger (start latest : ℕ) (list : List Event) : ℕ :=
  if eventsPageSize ≤ list.length then max (reached list) (start + 1) else latest

def pushHits (cfg : GovernanceConfig) (contract : String) : List Event → Check Unit
  | [] => return ()
  | ev :: list => do
    match cfg.hit ev with
    | some hit => ask (.push (GovernanceConfig.eventAlert contract hit ev))
    | none => pure ()
    pushHits cfg contract list

/-- The scheduled run of the check. -/
def checkGovernance (cfg : GovernanceConfig) : Check Bool :=
  match cfg.escrow with
  | none => return true
  | some contract => do
    match ← ask (.kvRead (cursorKey contract)) with
    | .error error =>
      throw ("the ledger cursor could not be read (" ++ error ++ "), so the scan was skipped rather than " ++
        "restarted from the cold-start window, which would jump over every event since the cursor")
    | .ok saved => do
      let latest ← ask .getLatestLedger
      match ← orThrow latest with
      | none | some 0 => throw "getLatestLedger answered without a ledger sequence"
      | some latest => do
        let start := startLedger cfg.lookback latest saved
        let events ← ask (.getEvents start eventsPageSize)
        let list := (← orThrow events).getD []
        pushHits cfg contract list
        let _ ← ask (.kvSet (cursorKey contract) (nextLedger start latest list))
        return true

/-! ## The chain -/

/-- The escrow's events, ledger by ledger, fewer in each than a page holds. -/
structure History where
  events : ℕ → List Event
  named : ∀ n, ∀ ev ∈ events n, ev.ledger = some n
  small : ∀ n, (events n).length < eventsPageSize

/-- The events from one ledger up to another. -/
def History.window (h : History) (first last : ℕ) : List Event :=
  (List.range' first (last + 1 - first)).flatMap h.events

structure World where
  /-- The latest ledger of the RPC. -/
  current : ℕ
  cursor : Option ℕ
  alerts : List Alert
  /-- Where the last scan began. -/
  scanned : ℕ
  /-- Where the scan began that has stored the first cursor. -/
  since : Option ℕ

namespace World

/-- Before the first run. -/
def fresh (current : ℕ) : World := ⟨current, none, [], 0, none⟩

def store (w : World) (value : ℕ) : World :=
  { w with cursor := some value, since := w.since.or (some w.scanned) }

end World

/-- Any step of a run, while ledgers close. The watch is never more than a day behind; `stored` says which
answers of the store there are to a write. -/
def Steps (h : History) (stored : Bool → Prop) (w : World) : (q : Ask) → q.Answer → World → Prop
  | .kvRead _, a, w' => w' = w ∧ (a = .ok w.cursor ∨ ∃ e, a = .error e)
  | .getLatestLedger, a, w' => ∃ n, w.current ≤ n ∧ w' = { w with current := n } ∧
    (a = .ok (some n) ∧ (∀ c, w.cursor = some c → n ≤ c + 17280) ∨ a = .ok none ∨ ∃ e, a = .error e)
  | .getEvents start limit, a, w' => ∃ n, w.current ≤ n ∧ w' = { w with current := n, scanned := start } ∧
    (a = .ok (some ((h.window start n).take limit)) ∨ ∃ e, a = .error e)
  | .push alert, _, w' => w' = { w with alerts := w.alerts ++ [alert] }
  | .kvSet _ value, a, w' => stored a ∧ (w' = w.store value ∨ a = false ∧ w' = w)

/-- What comes after some runs, of which so many have succeeded. The others fail or are cut off. -/
inductive Life (h : History) (cfg : GovernanceConfig) (w₀ : World) : ℕ → World → Prop
  | start : Life h cfg w₀ 0 w₀
  | time {k n : ℕ} {w : World} (life : Life h cfg w₀ k w) (hn : w.current ≤ n) :
    Life h cfg w₀ k { w with current := n }
  | fails {k : ℕ} {w w' : World} {p : Check Bool} (life : Life h cfg w₀ k w)
    (hrun : Reaches (Steps h fun _ => True) (checkGovernance cfg) w p w') : Life h cfg w₀ k w'
  | succeeds {k : ℕ} {w w' : World} (life : Life h cfg w₀ k w)
    (hrun : Runs (Steps h (· = true)) (checkGovernance cfg) w (.ok true) w') : Life h cfg w₀ (k + 1) w'

/-! ## Pages -/

section

variable {h : History} {first last n : ℕ} {ev : Event} {list : List Event}

theorem History.mem_window : ev ∈ h.window first last ↔ ∃ n, first ≤ n ∧ n ≤ last ∧ ev ∈ h.events n := by
  rw [window, List.mem_flatMap]
  constructor
  · rintro ⟨n, hn, hev⟩
    obtain ⟨i, hi, rfl⟩ := List.mem_range'.mp hn
    exact ⟨_, by omega, by omega, hev⟩
  · rintro ⟨n, hfirst, hlast, hev⟩
    exact ⟨n, List.mem_range'.mpr ⟨n - first, by omega, by omega⟩, hev⟩

/-- A window is cut before any of its ledgers. -/
theorem History.window_split (hfirst : first < n) (hlast : n ≤ last) :
    h.window first last = h.window first (n - 1) ++ h.window n last := by
  have hrange : List.range' first (last + 1 - first) =
      List.range' first (n - 1 + 1 - first) ++ List.range' n (last + 1 - n) := by
    rw [show last + 1 - first = (n - 1 + 1 - first) + (last + 1 - n) by omega, ← List.range'_append_1,
      show first + (n - 1 + 1 - first) = n by omega]
  rw [window, hrange, List.flatMap_append]
  rfl

theorem le_reached_from {m : ℕ} : m ≤ list.foldl (fun m ev => max m (ev.ledger.getD 0)) m ∧
    (∀ ev ∈ list, ev.ledger.getD 0 ≤ list.foldl (fun m ev => max m (ev.ledger.getD 0)) m) ∧
    (list.foldl (fun m ev => max m (ev.ledger.getD 0)) m = m ∨
      ∃ ev ∈ list, ev.ledger.getD 0 = list.foldl (fun m ev => max m (ev.ledger.getD 0)) m) := by
  induction list generalizing m with
  | nil => exact ⟨le_rfl, nofun, .inl rfl⟩
  | cons ev list ih =>
    obtain ⟨hstart, hall, hend⟩ := ih (m := max m (ev.ledger.getD 0))
    rw [List.foldl_cons]
    refine ⟨(le_max_left ..).trans hstart, fun e he => ?_, ?_⟩
    · rcases List.mem_cons.mp he with rfl | he
      · exact (le_max_right ..).trans hstart
      · exact hall e he
    · rcases hend with hend | ⟨e, he, heq⟩
      · rcases le_total m (ev.ledger.getD 0) with hle | hle
        · exact .inr ⟨ev, List.mem_cons_self, by rw [hend, max_eq_right hle]⟩
        · exact .inl (by rw [hend, max_eq_left hle])
      · exact .inr ⟨e, List.mem_cons_of_mem _ he, heq⟩

theorem le_reached (hev : ev ∈ list) (hn : ev.ledger = some n) : n ≤ reached list := by
  have hle := (le_reached_from (m := 0)).2.1 ev hev
  rwa [hn] at hle

/-- Some event is of the last ledger that is reached. -/
theorem exists_reached (hlist : list ≠ []) : ∃ ev ∈ list, ev.ledger.getD 0 = reached list := by
  obtain ⟨-, hall, hzero | hev⟩ := @le_reached_from list 0
  · obtain ⟨ev, hev⟩ := List.exists_mem_of_ne_nil _ hlist
    have hle := hall ev hev
    rw [hzero] at hle
    exact ⟨ev, hev, (Nat.le_zero.mp hle).trans hzero.symm⟩
  · exact hev

/-- A page from the ledger `first` on, when the RPC has come to `last`. -/
def History.page (h : History) (first last : ℕ) : List Event := (h.window first last).take eventsPageSize

theorem History.mem_page (hev : ev ∈ h.page first last) :
    ∃ n, ev.ledger = some n ∧ first ≤ n ∧ n ≤ last ∧ ev ∈ h.events n := by
  obtain ⟨n, hfirst, hlast, hmem⟩ := mem_window.mp (List.mem_of_mem_take hev)
  exact ⟨n, h.named n ev hmem, hfirst, hlast, hmem⟩

/-- A full page reaches a ledger behind its first, and has all events of the ledgers before that. -/
theorem History.full_page (hfull : eventsPageSize ≤ (h.page first last).length) :
    first < reached (h.page first last) ∧ reached (h.page first last) ≤ last ∧
      ∀ n, first ≤ n → n < reached (h.page first last) → ∀ ev ∈ h.events n, ev ∈ h.page first last := by
  have hne : h.page first last ≠ [] := by
    intro hnil
    rw [hnil] at hfull
    cases hfull
  obtain ⟨ev, hev, hledger⟩ := exists_reached hne
  obtain ⟨m, hm, hfirst, hlast, -⟩ := mem_page hev
  rw [hm, Option.getD_some] at hledger
  have hlt : first < m := by
    -- A page holds more events than its first ledger.
    by_contra hge
    obtain rfl : m = first := by omega
    have hall : ∀ e ∈ h.page m last, e ∈ h.events m := by
      intro e he
      obtain ⟨k, hk, hfirst', -, hmem⟩ := mem_page he
      have hle := le_reached he hk
      obtain rfl : k = m := by omega
      exact hmem
    have hsmall := h.small m
    have hsplit : h.window m last = h.events m ++ h.window (m + 1) last := by
      rcases Nat.lt_or_ge m last with hlt | hge
      · rw [window_split (Nat.lt_succ_self m) hlt, Nat.succ_sub_one]
        congr 1
        rw [window, show m + 1 - m = 1 by omega]
        exact List.append_nil _
      · obtain rfl : m = last := by omega
        rw [window, window, show m + 1 - m = 1 by omega, show m + 1 - (m + 1) = 0 by omega]
        rfl
    have hpage : h.page m last = h.events m ++
        (h.window (m + 1) last).take (eventsPageSize - (h.events m).length) := by
      rw [page, hsplit, List.take_append, List.take_of_length_le hsmall.le]
    have hrest : (h.window (m + 1) last).take (eventsPageSize - (h.events m).length) ≠ [] := by
      intro hnil
      rw [hpage, hnil, List.append_nil] at hfull
      omega
    obtain ⟨e, he⟩ := List.exists_mem_of_ne_nil _ hrest
    obtain ⟨k, hk, -, hmem⟩ := mem_window.mp (List.mem_of_mem_take he)
    have hle := le_reached (hpage ▸ List.mem_append_right _ he) (h.named k e hmem)
    omega
  rw [← hledger]
  refine ⟨hlt, hlast, fun n hn hnm e he => ?_⟩
  have hsplit := window_split (h := h) hlt hlast
  have hbefore : (h.window first (m - 1)).length < eventsPageSize := by
    by_contra hlong
    have hmem : ev ∈ h.window first (m - 1) := by
      rw [page, hsplit, List.take_append_of_le_length (not_lt.mp hlong)] at hev
      exact List.mem_of_mem_take hev
    obtain ⟨k, -, hk, hmem⟩ := mem_window.mp hmem
    have hname := h.named k ev hmem
    rw [hm, Option.some.injEq] at hname
    omega
  have hmem : e ∈ h.window first (m - 1) := mem_window.mpr ⟨n, hn, by omega, he⟩
  rw [page, hsplit, List.take_append, List.take_of_length_le hbefore.le]
  exact List.mem_append_left _ hmem

/-- A page that is not full has everything. -/
theorem History.short_page (hshort : (h.page first last).length < eventsPageSize)
    (hfirst : first ≤ n) (hlast : n ≤ last) (hev : ev ∈ h.events n) : ev ∈ h.page first last := by
  have hlen : (h.window first last).length ≤ eventsPageSize := by
    rw [page, List.length_take] at hshort
    omega
  rw [page, List.take_of_length_le hlen]
  exact mem_window.mpr ⟨n, hfirst, hlast, hev⟩

end

/-! ## A run -/

section

variable {h : History} {cfg : GovernanceConfig} {contract : String} {stored : Bool → Prop} {w w' w'' : World}
  {n k : ℕ}

/-- All governance events of a ledger have an alert. -/
def Raised (h : History) (cfg : GovernanceConfig) (contract : String) (n : ℕ) (alerts : List Alert) : Prop :=
  ∀ ev ∈ h.events n, ∀ hit, cfg.hit ev = some hit → GovernanceConfig.eventAlert contract hit ev ∈ alerts

/-- The cursor has passed no event that is not raised, from where the first scan began. -/
structure Kept (h : History) (cfg : GovernanceConfig) (contract : String) (w : World) : Prop where
  passed : ∀ c, w.cursor = some c → c ≤ w.current ∧ ∃ first, w.since = some first ∧
    ∀ n, first ≤ n → n < c → Raised h cfg contract n w.alerts
  unset : w.cursor = none → w.since = none

/-- What only grows. -/
structure After (w w' : World) : Prop where
  current : w.current ≤ w'.current
  alerts : w.alerts ⊆ w'.alerts
  cursor : ∀ c, w.cursor = some c → ∃ c', w'.cursor = some c' ∧ c ≤ c'
  since : ∀ first, w.since = some first → w'.since = some first

theorem Raised.mono {alerts alerts' : List Alert} (hr : Raised h cfg contract n alerts)
    (hsub : alerts ⊆ alerts') : Raised h cfg contract n alerts' :=
  fun ev hev hit hhit => hsub (hr ev hev hit hhit)

theorem After.refl : After w w := ⟨le_rfl, List.Subset.refl _, fun c hc => ⟨c, hc, le_rfl⟩, fun _ => id⟩

theorem After.trans (h₁ : After w w') (h₂ : After w' w'') : After w w'' where
  current := h₁.current.trans h₂.current
  alerts := List.Subset.trans h₁.alerts h₂.alerts
  cursor c hc := by
    obtain ⟨c', hc', hle⟩ := h₁.cursor c hc
    obtain ⟨c'', hc'', hle'⟩ := h₂.cursor c' hc'
    exact ⟨c'', hc'', hle.trans hle'⟩
  since first hfirst := h₂.since first (h₁.since first hfirst)

/-- Ledgers close, alerts are raised, and a scan begins: the cursor stays. -/
structure Grows (w w' : World) : Prop where
  current : w.current ≤ w'.current
  alerts : w.alerts ⊆ w'.alerts
  cursor : w'.cursor = w.cursor
  since : w'.since = w.since

theorem Grows.refl : Grows w w := ⟨le_rfl, List.Subset.refl _, rfl, rfl⟩

theorem Grows.trans (h₁ : Grows w w') (h₂ : Grows w' w'') : Grows w w'' :=
  ⟨h₁.current.trans h₂.current, List.Subset.trans h₁.alerts h₂.alerts, h₂.cursor.trans h₁.cursor,
    h₂.since.trans h₁.since⟩

theorem Grows.after (hg : Grows w w') : After w w' where
  current := hg.current
  alerts := hg.alerts
  cursor c hc := ⟨c, hg.cursor.trans hc, le_rfl⟩
  since _ hfirst := hg.since.trans hfirst

theorem Kept.grows (hk : Kept h cfg contract w) (hg : Grows w w') : Kept h cfg contract w' where
  passed c hc := by
    obtain ⟨hle, first, hfirst, hraised⟩ := hk.passed c (hg.cursor ▸ hc)
    exact ⟨hle.trans hg.current, first, hg.since.trans hfirst,
      fun n hn hc => (hraised n hn hc).mono hg.alerts⟩
  unset hnone := hg.since.trans (hk.unset (hg.cursor ▸ hnone))

/-- What a run keeps on its way from `w`. -/
abbrev OnTheWay (h : History) (cfg : GovernanceConfig) (contract : String) (w w' : World) : Prop :=
  Kept h cfg contract w' ∧ After w w'

theorem Kept.onTheWay (hk : Kept h cfg contract w) (hg : Grows w w') : OnTheWay h cfg contract w w' :=
  ⟨hk.grows hg, hg.after⟩

theorem along_pushHits {list : List Event} (hk : Kept h cfg contract w) (hg : Grows w w') :
    (pushHits cfg contract list).along (Steps h stored) (OnTheWay h cfg contract w) (fun r w'' => r = .ok () ∧
      Grows w' w'' ∧ w''.scanned = w'.scanned ∧ ∀ ev ∈ list, ∀ hit, cfg.hit ev = some hit →
        GovernanceConfig.eventAlert contract hit ev ∈ w''.alerts) w' := by
  induction list generalizing w' with
  | nil => exact ⟨hk.onTheWay hg, rfl, .refl, rfl, nofun⟩
  | cons ev list ih =>
    rw [pushHits]
    cases hhit : cfg.hit ev with
    | none =>
      refine along_mono (fun r w'' _ hr => ?_) (ih hg)
      obtain ⟨hr, hgrows, hscanned, hlist⟩ := hr
      refine ⟨hr, hgrows, hscanned, fun e he hit hit' => ?_⟩
      rcases List.mem_cons.mp he with rfl | he
      · rw [hhit] at hit'
        cases hit'
      · exact hlist e he hit hit'
    | some hit =>
      apply along_question_bind (hk.onTheWay hg)
      rintro u w₁ rfl
      have hpush : Grows w' { w' with alerts := w'.alerts ++ [GovernanceConfig.eventAlert contract hit ev] } :=
        ⟨le_rfl, List.subset_append_left .., rfl, rfl⟩
      refine along_mono (fun r w'' _ hr => ?_) (ih (hg.trans hpush))
      obtain ⟨hr, hgrows, hscanned, hlist⟩ := hr
      refine ⟨hr, hpush.trans hgrows, hscanned, fun e he hit' hhit' => ?_⟩
      rcases List.mem_cons.mp he with rfl | he
      · rw [hhit, Option.some.injEq] at hhit'
        subst hhit'
        exact hgrows.alerts (List.mem_append_right _ (List.mem_singleton_self _))
      · exact hlist e he hit' hhit'

/-- What a run has come to that has succeeded: the cursor has moved if it was behind, and has come to the
latest ledger or passed where it was. -/
def Advanced (h : History) (cfg : GovernanceConfig) (contract : String) (w w' : World) : Prop :=
  ∀ c, w.cursor = some c → ∃ c', w'.cursor = some c' ∧ c ≤ c' ∧ (c < w.current → c < c') ∧
    (c' = c → Raised h cfg contract c w'.alerts)

/-- The last step: what is behind the new cursor has been scanned. -/
theorem Kept.store {latest : ℕ} (hk : Kept h cfg contract w)
    (hg : Grows w w') (hcurrent : w.current ≤ latest) (hlatest : latest ≤ n) (hn : n ≤ w'.current)
    (hday : ∀ c, w.cursor = some c → latest ≤ c + 17280)
    (hscanned : w'.scanned = startLedger cfg.lookback latest w.cursor)
    (hraised : ∀ ev ∈ h.page w'.scanned n, ∀ hit, cfg.hit ev = some hit →
      GovernanceConfig.eventAlert contract hit ev ∈ w'.alerts) :
    OnTheWay h cfg contract w (w'.store (nextLedger w'.scanned latest (h.page w'.scanned n))) ∧
      Advanced h cfg contract w (w'.store (nextLedger w'.scanned latest (h.page w'.scanned n))) := by
  obtain ⟨next, hnext⟩ : ∃ next, nextLedger w'.scanned latest (h.page w'.scanned n) = next := ⟨_, rfl⟩
  have hpage : next ≤ n ∧ (∀ m, w'.scanned ≤ m → m < next → Raised h cfg contract m w'.alerts) ∧
      (w'.scanned < next ∨ next = latest ∧ ∀ m, w'.scanned ≤ m → m ≤ n → Raised h cfg contract m w'.alerts) := by
    rw [← hnext]
    unfold nextLedger
    split
    · rename_i hfull
      obtain ⟨hlt, hle, hall⟩ := h.full_page hfull
      rw [max_eq_left hlt]
      exact ⟨hle, fun m hm hmn ev hev => hraised ev (hall m hm hmn ev hev), .inl hlt⟩
    · rename_i hshort
      have hall : ∀ m, w'.scanned ≤ m → m ≤ n → Raised h cfg contract m w'.alerts :=
        fun m hm hmn ev hev => hraised ev (h.short_page (not_le.mp hshort) hm hmn hev)
      exact ⟨hlatest, fun m hm hmn => hall m hm (by omega), .inr ⟨rfl, hall⟩⟩
  obtain ⟨hle, hscan, hmoves⟩ := hpage
  rw [hnext]
  have hstart : ∀ c, w.cursor = some c → w'.scanned = c := by
    intro c hc
    have hbound := (hk.passed c hc).1
    have hback := hday c hc
    rw [hscanned, hc, startLedger]
    omega
  have hforward : ∀ c, w.cursor = some c → c ≤ next := by
    intro c hc
    have hbound := (hk.passed c hc).1
    have hfrom := hstart c hc
    omega
  refine ⟨⟨⟨fun c hc => ?_, nofun⟩, hg.current, hg.alerts, fun c hc => ⟨next, rfl, hforward c hc⟩, ?_⟩,
    fun c hc => ⟨next, rfl, hforward c hc, fun hbehind => ?_, fun hsame => ?_⟩⟩
  · obtain rfl : next = c := Option.some.inj hc
    refine ⟨hle.trans hn, ?_⟩
    cases hcursor : w.cursor with
    | none =>
      refine ⟨w'.scanned, ?_, hscan⟩
      rw [World.store, hg.since, hk.unset hcursor]
      rfl
    | some c =>
      obtain ⟨-, first, hfirst, hbefore⟩ := hk.passed c hcursor
      refine ⟨first, ?_, fun m hm hmn => ?_⟩
      · rw [World.store, hg.since, hfirst]
        rfl
      · rcases Nat.lt_or_ge m c with hlt | hge
        · exact (hbefore m hm hlt).mono hg.alerts
        · exact hscan m ((hstart c hcursor).trans_le hge) hmn
  · intro first hfirst
    rw [World.store, hg.since, hfirst]
    rfl
  · have hfrom := hstart c hc
    omega
  · have hfrom := hstart c hc
    rcases hmoves with hlt | ⟨hlast, hall⟩
    · omega
    · exact hall c hfrom.le (by omega)

theorem along_checkGovernance (hcontract : cfg.escrow = some contract)
    (hk : Kept h cfg contract w) :
    (checkGovernance cfg).along (Steps h stored) (OnTheWay h cfg contract w)
      (fun r w' => r = .ok true → (∀ b, stored b → b = true) → Advanced h cfg contract w w') w := by
  have hhere := hk.onTheWay .refl
  unfold checkGovernance
  rw [hcontract]
  apply along_question_bind hhere
  rintro saved w₁ ⟨rfl, rfl | ⟨e, rfl⟩⟩
  swap
  · exact ⟨hhere, nofun⟩
  dsimp only
  apply along_question_bind hhere
  rintro answer w₂ ⟨latest, hlatest, rfl, hanswer⟩
  have hg : Grows w₁ { w₁ with current := latest } := ⟨hlatest, List.Subset.refl _, rfl, rfl⟩
  rcases hanswer with ⟨rfl, hday⟩ | rfl | ⟨e, rfl⟩
  · cases latest with
    | zero => exact ⟨hk.onTheWay hg, nofun⟩
    | succ m =>
      apply along_question_bind (hk.onTheWay hg)
      rintro events w₃ ⟨n, hn, rfl, rfl | ⟨e, rfl⟩⟩
      swap
      · exact ⟨hk.onTheWay ⟨hlatest.trans hn, List.Subset.refl _, rfl, rfl⟩, nofun⟩
      have hg₃ : Grows w₁ { w₁ with current := n, scanned := startLedger cfg.lookback (m + 1) w₁.cursor } :=
        ⟨hlatest.trans hn, List.Subset.refl _, rfl, rfl⟩
      change (pushHits cfg contract (h.page (startLedger cfg.lookback (m + 1) w₁.cursor) n) >>= _).along _ _ _
        { w₁ with current := n, scanned := startLedger cfg.lookback (m + 1) w₁.cursor }
      refine along_bind (along_mono ?_ (along_pushHits hk hg₃))
      rintro r w₄ - ⟨rfl, hg₄, hscanned, hraised⟩
      have hstore := hk.store (n := n) (hg₃.trans hg₄) hlatest hn hg₄.current hday hscanned (hscanned ▸ hraised)
      apply along_question_bind (hk.onTheWay (hg₃.trans hg₄))
      rintro a w₅ ⟨ha, rfl | ⟨rfl, rfl⟩⟩
      · rw [hscanned] at hstore
        exact ⟨hstore.1, fun _ _ => hstore.2⟩
      · exact ⟨hk.onTheWay (hg₃.trans hg₄), fun _ hstored => absurd (hstored false ha) Bool.false_ne_true⟩
  · exact ⟨hk.onTheWay hg, nofun⟩
  · exact ⟨hk.onTheWay hg, nofun⟩

/-! ## Any number of runs -/

theorem Life.kept {w₀ : World} (hcontract : cfg.escrow = some contract) (hlife : Life h cfg w₀ k w)
    (hk : Kept h cfg contract w₀) : OnTheWay h cfg contract w₀ w := by
  induction hlife with
  | start => exact ⟨hk, .refl⟩
  | @time k n w _ hn ih =>
    have hg : Grows w { w with current := n } := ⟨hn, List.Subset.refl _, rfl, rfl⟩
    exact ⟨ih.1.grows hg, ih.2.trans hg.after⟩
  | fails _ hrun ih =>
    obtain ⟨hkept, hafter⟩ := (hrun.along (along_checkGovernance hcontract ih.1)).now
    exact ⟨hkept, ih.2.trans hafter⟩
  | succeeds _ hrun ih =>
    obtain ⟨hkept, hafter⟩ := (hrun.reaches.along (along_checkGovernance hcontract ih.1)).now
    exact ⟨hkept, ih.2.trans hafter⟩

theorem advanced (hcontract : cfg.escrow = some contract) (hk : Kept h cfg contract w)
    (hrun : Runs (Steps h (· = true)) (checkGovernance cfg) w (.ok true) w') :
    Advanced h cfg contract w w' :=
  (hrun.reaches.along (along_checkGovernance hcontract hk)).2 rfl fun _ => id

/-- Each run that succeeds brings the cursor further, until the ledger is scanned. -/
theorem Life.raised {w₀ : World} {first c : ℕ} (hcontract : cfg.escrow = some contract)
    (hlife : Life h cfg w₀ k w) (hk : Kept h cfg contract w₀) (hfirst : w₀.since = some first)
    (hc : w₀.cursor = some c) (hn : first ≤ n) (hcurrent : n ≤ w₀.current) :
    Raised h cfg contract n w.alerts ∨ ∃ c', w.cursor = some c' ∧ c + k ≤ c' := by
  induction hlife with
  | start => exact .inr ⟨c, hc, le_rfl⟩
  | time _ _ ih => exact ih
  | fails life hrun ih =>
    obtain ⟨hkept, -⟩ := life.kept hcontract hk
    obtain ⟨-, hafter⟩ := (hrun.along (along_checkGovernance hcontract hkept)).now
    rcases ih with hraised | ⟨c', hc', hle⟩
    · exact .inl (hraised.mono hafter.alerts)
    · obtain ⟨c'', hc'', hle'⟩ := hafter.cursor c' hc'
      exact .inr ⟨c'', hc'', hle.trans hle'⟩
  | succeeds life hrun ih =>
    obtain ⟨hkept, hsofar⟩ := life.kept hcontract hk
    obtain ⟨-, hafter⟩ := (hrun.reaches.along (along_checkGovernance hcontract hkept)).now
    rcases ih with hraised | ⟨c', hc', hle⟩
    · exact .inl (hraised.mono hafter.alerts)
    · obtain ⟨c'', hc'', hle', hbehind, hsame⟩ := advanced hcontract hkept hrun c' hc'
      rcases Nat.lt_or_ge n c' with hpassed | hge
      · obtain ⟨-, first', hfirst', hbefore⟩ := hkept.passed c' hc'
        obtain rfl := Option.some.inj ((hsofar.since first hfirst).symm.trans hfirst')
        exact .inl ((hbefore n hn hpassed).mono hafter.alerts)
      · rcases Nat.lt_or_ge c' c'' with hlt | hstays
        · exact .inr ⟨c'', hc'', by omega⟩
        · have hlatest := hsofar.current
          obtain rfl : c'' = c' := by omega
          obtain rfl : n = c'' := by
            by_contra hne
            exact absurd (hbehind (by omega)) (lt_irrefl _)
          exact .inl (hsame rfl)

/-- The watch, from the ledger where the scan began that has stored the first cursor. -/
structure Watched (h : History) (cfg : GovernanceConfig) (contract : String) (w : World) : Prop where
  /-- The cursor has passed no event that is not reported. -/
  passed : ∀ c, w.cursor = some c → ∃ first, w.since = some first ∧
    ∀ n, first ≤ n → n < c → Raised h cfg contract n w.alerts
  /-- Where the watch is behind and the next run succeeds, the cursor advances. -/
  advances : ∀ c w', w.cursor = some c → c < w.current →
    Runs (Steps h (· = true)) (checkGovernance cfg) w (.ok true) w' → ∃ c', w'.cursor = some c' ∧ c < c'
  /-- An event that is there is reported after so many runs that succeed, whatever others fail. -/
  reported : ∀ first c n k w', w.since = some first → w.cursor = some c → first ≤ n → n ≤ w.current →
    Life h cfg w k w' → n < c + k → Raised h cfg contract n w'.alerts

end

/-! ## The first run -/

namespace Demo

def pause (n : ℕ) : Event := ⟨some ["paused"], some n, none⟩

def events (n : ℕ) : List Event := if n = 1 ∨ n = 990 then [pause n] else []

/-- The escrow is paused in the ledgers 1 and 990. -/
def history : History where
  events := events
  named n ev hev := by
    unfold events at hev
    split at hev
    · rw [List.mem_singleton.mp hev]
      rfl
    · cases hev
  small n := by
    unfold events
    split
    · exact (by decide : 1 < 200)
    · exact (by decide : 0 < 200)

def governance : GovernanceConfig := ⟨some "C", 720, id⟩

/-- The first run, at ledger 1000, has raised what there is from ledger 280 on. -/
def watched : World :=
  ⟨1000, some 1000, [GovernanceConfig.eventAlert "C" "paused" (pause 990)], 280, some 280⟩

theorem window_eq : history.window 280 1000 = [pause 990] := by decide +kernel

theorem runs_first : Runs (Steps history (· = true)) (checkGovernance governance) (.fresh 1000) (.ok true)
    watched := by
  refine .ask (.ok none) ⟨rfl, .inl rfl⟩ (.ask (.ok (some 1000)) ⟨1000, le_rfl, rfl, .inl ⟨rfl, nofun⟩⟩
    (.ask (.ok (some [pause 990])) ⟨1000, le_rfl, rfl, .inl ?_⟩ (.ask () rfl (.ask true ⟨rfl, .inl rfl⟩ .ret))))
  have hstart : startLedger governance.lookback 1000 none = 280 := by decide
  rw [hstart, window_eq]
  rfl

end Demo

end Lumenia.Sponsor.Watchdog
