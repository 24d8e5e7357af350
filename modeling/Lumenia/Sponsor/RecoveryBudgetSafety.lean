import Lumenia.Sponsor.RecoveryOtpSafety
import Mathlib.Tactic.Common

/-!
# Recovery codes: the verify budget

A comparison is charged before it is made, so the budget bounds the comparisons charged to one of its
windows, as long as an answer of the store says what it has counted (`Counted`).
-/

namespace Lumenia.Sponsor.Recovery

open Dialogue

variable {ι : Type}

/-- An answer for the verify budget that arrives holds the count. -/
def Counted : Condition ι := fun _ d _ q =>
  match q with
  | .incr (.otptry _) _ => d.failure = none → d.garbled = none
  | _ => True

/-- Who has compared. -/
def comparer : Event ι → Option ι
  | .compared i _ _ _ => some i
  | _ => none

/-- A comparison for the id in one window of its budget. -/
def isComparison (id : String) (window : ℕ) : Event ι → Bool
  | .compared _ id' _ window' => id' = id && window' = window
  | _ => false

section

variable [DecidableEq ι] (journal : List (Event ι)) (id : String) (window : ℕ)

/-- The call was charged to this window. -/
def chargedTo (i : ι) : Bool :=
  journal.any fun
    | .charged j id' window' _ => j = i && id' = id && window' = window
    | _ => false

/-- The calls charged to this window that have compared. -/
def comparisons : List ι := (journal.filterMap comparer).filter (chargedTo journal id window)

end

/-- The event is about the verify budget, or a comparison. -/
def Event.ofBudget : Event ι → Bool
  | charged .. | unread .. | compared .. => true
  | _ => false

structure BudgetSound (w : World ι) : Prop where
  bounded : ∀ i id window n, .charged i id window n ∈ w.journal →
    1 ≤ n ∧ (window < w.window id ∨ window = w.window id ∧ n ≤ w.count (.otptry id))
  distinct : ∀ i j id window n, .charged i id window n ∈ w.journal →
    .charged j id window n ∈ w.journal → i = j
  sole : ∀ i id id' window window' n n', .charged i id window n ∈ w.journal →
    .charged i id' window' n' ∈ w.journal → n = n'
  compared : ∀ i id equal window, .compared i id equal window ∈ w.journal →
    ∃ n window' : ℕ, (n : ℤ) ≤ maxVerifyPerWindow ∧ .charged i id window' n ∈ w.journal
  once : (w.journal.filterMap comparer).Nodup
  read : ∀ i id, .unread i id false ∉ w.journal
  refused : ∀ i id told, .unread i id told ∈ w.journal → i ∉ w.journal.filterMap comparer

theorem budgetSound_empty : BudgetSound (World.empty : World ι) := by
  constructor <;> simp [World.empty]

section

variable {w w' : World ι} {i : ι} {id : String}

/-- A step that has nothing to do with the budget. -/
theorem BudgetSound.aside {es : List (Event ι)} (h : BudgetSound w)
    (hjournal : w'.journal = w.journal ++ es) (hes : ∀ e ∈ es, e.ofBudget = false)
    (hwindow : ∀ id, w.window id < w'.window id ∨
      w.window id = w'.window id ∧ w.count (.otptry id) ≤ w'.count (.otptry id)) :
    BudgetSound w' := by
  have hold {e : Event ι} (he : e.ofBudget = true) : e ∈ w'.journal ↔ e ∈ w.journal := by
    rw [hjournal, List.mem_append]
    refine ⟨fun hmem => hmem.elim id fun hmem => ?_, .inl⟩
    rw [hes e hmem] at he
    cases he
  have hcomparers : w'.journal.filterMap comparer = w.journal.filterMap comparer := by
    have hnone : es.filterMap comparer = [] := by
      refine List.filterMap_eq_nil_iff.mpr fun e he => ?_
      have hno := hes e he
      cases e with
      | compared => cases hno
      | _ => rfl
    rw [hjournal, List.filterMap_append, hnone, List.append_nil]
  constructor
  · intro j id' window n hmem
    obtain ⟨hn, hle⟩ := h.bounded j id' window n ((hold rfl).mp hmem)
    have hmove := hwindow id'
    refine ⟨hn, ?_⟩
    omega
  · intro j k id' window n hj hk
    exact h.distinct j k id' window n ((hold rfl).mp hj) ((hold rfl).mp hk)
  · intro j id' id'' window window' n n' hn hn'
    exact h.sole j id' id'' window window' n n' ((hold rfl).mp hn) ((hold rfl).mp hn')
  · intro j id' equal window hmem
    obtain ⟨n, window', hn, hcharged⟩ := h.compared j id' equal window ((hold rfl).mp hmem)
    exact ⟨n, window', hn, (hold rfl).mpr hcharged⟩
  · rw [hcomparers]
    exact h.once
  · exact fun j id' hmem => h.read j id' ((hold rfl).mp hmem)
  · intro j id' told hmem
    rw [hcomparers]
    exact h.refused j id' told ((hold rfl).mp hmem)

theorem BudgetSound.expires (h : BudgetSound w) (hw : World.Expires w w') : BudgetSound w' := by
  have hjournal : w'.journal = w.journal ++ [] := by rw [hw.journal, List.append_nil]
  refine h.aside hjournal nofun fun id => ?_
  cases hw with
  | otp => exact .inr ⟨rfl, le_rfl⟩
  | ticket => exact .inr ⟨rfl, le_rfl⟩
  | @otpreq id' =>
    have hne : Counter.otptry id ≠ .otpreq id' := nofun
    exact .inr ⟨rfl, le_of_eq (Function.update_of_ne hne 0 w.count).symm⟩
  | @otptry id' =>
    by_cases hid : id = id'
    · subst hid
      exact .inl (by simp)
    · refine .inr ⟨(Function.update_of_ne hid ..).symm, le_of_eq (Function.update_of_ne ?_ ..).symm⟩
      exact fun heq => hid (Counter.otptry.inj heq)
  | proof => exact .inr ⟨rfl, le_rfl⟩

theorem BudgetSound.charge (h : BudgetSound w)
    (hnew : ∀ id window n, .charged i id window n ∉ w.journal) :
    BudgetSound (w.increment i (.otptry id)) := by
  have hnext : ∀ j n, .charged j id (w.window id) n ∈ w.journal → n ≤ w.count (.otptry id) := by
    intro j n hmem
    obtain ⟨-, hlt | ⟨-, hle⟩⟩ := h.bounded j id (w.window id) n hmem
    · exact absurd hlt (lt_irrefl _)
    · exact hle
  have hmem {e : Event ι} : e ∈ (w.increment i (.otptry id)).journal ↔
      e ∈ w.journal ∨ e = .charged i id (w.window id) (w.count (.otptry id) + 1) := by
    simp [World.increment]
  have hcomparers : (w.increment i (.otptry id)).journal.filterMap comparer =
      w.journal.filterMap comparer := by
    simp [World.increment, comparer]
  constructor
  · intro j id' window n hj
    change 1 ≤ n ∧ (window < w.window id' ∨ window = w.window id' ∧
      n ≤ Function.update w.count (.otptry id) (w.count (.otptry id) + 1) (.otptry id'))
    rcases hmem.mp hj with hj | hj
    · obtain ⟨hn, hle⟩ := h.bounded j id' window n hj
      refine ⟨hn, hle.imp_right fun ⟨hwindow, hle⟩ => ⟨hwindow, ?_⟩⟩
      by_cases hid : id' = id
      · subst hid
        rw [Function.update_self]
        omega
      · rwa [Function.update_of_ne fun heq => hid (Counter.otptry.inj heq)]
    · cases hj
      rw [Function.update_self]
      omega
  · intro j k id' window n hj hk
    rcases hmem.mp hj with hj | hj <;> rcases hmem.mp hk with hk | hk
    · exact h.distinct j k id' window n hj hk
    · cases hk
      have hle := hnext j _ hj
      omega
    · cases hj
      have hle := hnext k _ hk
      omega
    · cases hj
      cases hk
      rfl
  · intro j id' id'' window window' n n' hj hj'
    rcases hmem.mp hj with hj | hj <;> rcases hmem.mp hj' with hj' | hj'
    · exact h.sole j id' id'' window window' n n' hj hj'
    · cases hj'
      exact absurd hj (hnew id' window n)
    · cases hj
      exact absurd hj' (hnew id'' window' n')
    · cases hj
      cases hj'
      rfl
  · intro j id' equal window hj
    rcases hmem.mp hj with hj | hj
    · obtain ⟨n, window', hn, hcharged⟩ := h.compared j id' equal window hj
      exact ⟨n, window', hn, hmem.mpr (.inl hcharged)⟩
    · cases hj
  · rw [hcomparers]
    exact h.once
  · intro j id' hj
    rcases hmem.mp hj with hj | hj
    · exact h.read j id' hj
    · cases hj
  · intro j id' told hj
    rw [hcomparers]
    rcases hmem.mp hj with hj | hj
    · exact h.refused j id' told hj
    · cases hj

/-- The call is told that the budget could not be read. -/
theorem BudgetSound.refuse (h : BudgetSound w) (hnew : i ∉ w.journal.filterMap comparer) :
    BudgetSound (w.log (.unread i id true)) := by
  have hmem {e : Event ι} : e ∈ (w.log (.unread i id true)).journal ↔
      e ∈ w.journal ∨ e = .unread i id true := by
    simp
  have hcomparers : (w.log (.unread i id true)).journal.filterMap comparer =
      w.journal.filterMap comparer := by
    simp [comparer]
  constructor
  · intro j id' window n hj
    exact h.bounded j id' window n ((hmem.mp hj).resolve_right nofun)
  · intro j k id' window n hj hk
    exact h.distinct j k id' window n ((hmem.mp hj).resolve_right nofun)
      ((hmem.mp hk).resolve_right nofun)
  · intro j id' id'' window window' n n' hj hj'
    exact h.sole j id' id'' window window' n n' ((hmem.mp hj).resolve_right nofun)
      ((hmem.mp hj').resolve_right nofun)
  · intro j id' equal window hj
    obtain ⟨n, window', hn, hcharged⟩ :=
      h.compared j id' equal window ((hmem.mp hj).resolve_right nofun)
    exact ⟨n, window', hn, hmem.mpr (.inl hcharged)⟩
  · rw [hcomparers]
    exact h.once
  · intro j id' hj
    rcases hmem.mp hj with hj | hj
    · exact h.read j id' hj
    · cases hj
  · intro j id' told hj
    rw [hcomparers]
    rcases hmem.mp hj with hj | hj
    · exact h.refused j id' told hj
    · cases hj
      exact hnew

/-- A call that was counted within the budget makes its comparison. -/
theorem BudgetSound.compare {n window : ℕ} {equal : Bool} (h : BudgetSound w)
    (hn : (n : ℤ) ≤ maxVerifyPerWindow) (hcharged : .charged i id window n ∈ w.journal)
    (hnew : i ∉ w.journal.filterMap comparer) (hread : ∀ id told, .unread i id told ∉ w.journal) :
    BudgetSound (w.log (.compared i id equal (w.window id))) := by
  have hmem {e : Event ι} : e ∈ (w.log (.compared i id equal (w.window id))).journal ↔
      e ∈ w.journal ∨ e = .compared i id equal (w.window id) := by
    simp
  have hcomparers : (w.log (.compared i id equal (w.window id))).journal.filterMap comparer =
      w.journal.filterMap comparer ++ [i] := by
    simp [comparer]
  constructor
  · intro j id' window n hj
    exact h.bounded j id' window n ((hmem.mp hj).resolve_right nofun)
  · intro j k id' window n hj hk
    exact h.distinct j k id' window n ((hmem.mp hj).resolve_right nofun)
      ((hmem.mp hk).resolve_right nofun)
  · intro j id' id'' window window' n n' hj hj'
    exact h.sole j id' id'' window window' n n' ((hmem.mp hj).resolve_right nofun)
      ((hmem.mp hj').resolve_right nofun)
  · intro j id' equal' window' hj
    rcases hmem.mp hj with hj | hj
    · obtain ⟨n', window'', hn', hcharged'⟩ := h.compared j id' equal' window' hj
      exact ⟨n', window'', hn', hmem.mpr (.inl hcharged')⟩
    · cases hj
      exact ⟨n, window, hn, hmem.mpr (.inl hcharged)⟩
  · rw [hcomparers, List.nodup_append]
    refine ⟨h.once, List.nodup_singleton i, fun a ha b hb hab => ?_⟩
    rw [hab, List.mem_singleton.mp hb] at ha
    exact hnew ha
  · intro j id' hj
    exact h.read j id' ((hmem.mp hj).resolve_right nofun)
  · intro j id' told hj hcompared
    have hold := (hmem.mp hj).resolve_right nofun
    rw [hcomparers, List.mem_append, List.mem_singleton] at hcompared
    rcases hcompared with hcompared | rfl
    · exact h.refused j id' told hold hcompared
    · exact hread id' told hold

/-- Distinct calls that have compared and were charged to one window have distinct numbers up to the
budget. -/
theorem BudgetSound.calls_le {window : ℕ} {calls : List ι} (h : BudgetSound w)
    (hnodup : calls.Nodup) (hcompared : ∀ i ∈ calls, i ∈ w.journal.filterMap comparer)
    (hcharged : ∀ i ∈ calls, ∃ n, .charged i id window n ∈ w.journal) : calls.length ≤ 12 := by
  choose! number hnumber using hcharged
  have hdistinct : (calls.map number).Nodup := by
    refine hnodup.map_on fun i hi j hj hij => ?_
    have hi' := hnumber i hi
    rw [hij] at hi'
    exact h.distinct i j id window _ hi' (hnumber j hj)
  have hle := length_le_of_nodup (n := 12) hdistinct fun m hm => by
    obtain ⟨i, hi, rfl⟩ := List.mem_map.mp hm
    obtain ⟨e, he, hei⟩ := List.mem_filterMap.mp (hcompared i hi)
    cases e with
    | compared j id' equal window' =>
      obtain rfl : j = i := Option.some.inj hei
      obtain ⟨n, window'', hn, hmem⟩ := h.compared j id' equal window' he
      rw [h.sole j id' id window'' window n _ hmem (hnumber j hi)] at hn
      unfold maxVerifyPerWindow at hn
      exact ⟨(h.bounded j id window _ (hnumber j hi)).1, by omega⟩
    | _ => cases hei
  rwa [List.length_map] at hle

end

section

variable [DecidableEq ι] {env : Env} {requests : ι → Request} {w w' : World ι} {i : ι} {d : Chance}
  {q : Ask}

/-- Of a call that has not compared yet. -/
theorem new_of_deeds (h : ∀ id equal window, .compared i id equal window ∉ deeds i w.journal) :
    i ∉ w.journal.filterMap comparer := by
  intro hi
  obtain ⟨e, he, hei⟩ := List.mem_filterMap.mp hi
  cases e with
  | compared j id equal window =>
    obtain rfl : j = i := Option.some.inj hei
    exact h id equal window (mem_deeds.mpr ⟨he, rfl⟩)
  | _ => cases hei

/-- A verification is charged, or told that the budget cannot be read. -/
theorem BudgetSound.incr {id : String} {sec : ℕ} (h : BudgetSound w)
    (hdeeds : deeds i w.journal = []) (hmet : Counted i d w (.incr (.otptry id) sec)) :
    BudgetSound (react env.sha256Hex i d w (.incr (.otptry id) sec)).2 := by
  generalize hw' : (if d.executed = true then w.increment i (.otptry id) else w) = w'
  have hsound : BudgetSound w' := by
    rw [← hw']
    split
    · refine h.charge fun id' window n hmem => ?_
      have hdeed : .charged i id' window n ∈ deeds i w.journal := mem_deeds.mpr ⟨hmem, rfl⟩
      rw [hdeeds] at hdeed
      cases hdeed
    · exact h
  have hnew : i ∉ w'.journal.filterMap comparer := by
    refine new_of_deeds fun id' equal window => ?_
    rw [← hw']
    split
    · simp [World.increment, hdeeds, deeds_single]
    · simp [hdeeds]
  have hreact : (react env.sha256Hex i d w (.incr (.otptry id) sec)).2 =
      if d.clear = true then w' else w'.miscount i d.failure.isSome (.otptry id) := by
    rw [← hw']
    rfl
  rw [hreact]
  split
  · exact hsound
  · next hclear =>
    cases hfailure : d.failure with
    | none =>
      have hgarbled : d.garbled = none := hmet hfailure
      exact absurd (by simp [Chance.clear, hfailure, hgarbled]) hclear
    | some m => exact hsound.refuse hnew

/-- A comparison comes after the charge. -/
theorem BudgetSound.compares {id code codeHash : String} (h : BudgetSound w)
    (hdue : Due env (requests i) i (deeds i w.journal) (.compare id code codeHash)) :
    BudgetSound (react env.sha256Hex i d w (.compare id code codeHash)).2 := by
  obtain ⟨record, issuer, ⟨L₀, hbudget, hL⟩, -⟩ := hdue
  have hunread : .unread i id false ∉ L₀ := fun hmem => by
    have hdeed : .unread i id false ∈ deeds i w.journal := hL ▸ List.mem_append_left _ hmem
    exact h.read i id (mem_deeds.mp hdeed).1
  cases hbudget with
  | @counted window n hn =>
    have hcharged : .charged i id window n ∈ w.journal :=
      (mem_deeds.mp (hL ▸ List.mem_append_left _ (by simp) : _ ∈ deeds i w.journal)).1
    refine h.compare hn hcharged (new_of_deeds fun id' equal window => by simp [hL]) ?_
    intro id' told hmem
    have hdeed : .unread i id' told ∈ deeds i w.journal := mem_deeds.mpr ⟨hmem, rfl⟩
    rw [hL] at hdeed
    simp at hdeed
  | uncharged => simp at hunread
  | garbled => simp at hunread

theorem BudgetSound.step (h : BudgetSound w) (hdue : Due env (requests i) i (deeds i w.journal) q)
    (hmet : Counted i d w q) : BudgetSound (react env.sha256Hex i d w q).2 := by
  by_cases hincr : ∃ id sec, q = .incr (.otptry id) sec
  · obtain ⟨id, sec, rfl⟩ := hincr
    exact h.incr hdue hmet
  by_cases hcompare : ∃ id code codeHash, q = .compare id code codeHash
  · obtain ⟨id, code, codeHash, rfl⟩ := hcompare
    exact h.compares hdue
  have hframe : Frame q w (react env.sha256Hex i d w q).2 := frame_react
  obtain ⟨es, hes, harises⟩ : Adds i q w (react env.sha256Hex i d w q).2 := adds_react
  refine h.aside hes (fun e he => ?_) fun id => .inr ⟨?_, ?_⟩
  · have hfrom := (harises e he).2
    cases e with
    | compared j id equal window =>
      obtain ⟨code, codeHash, rfl⟩ := hfrom
      exact absurd ⟨id, code, codeHash, rfl⟩ hcompare
    | charged j id window n =>
      obtain ⟨sec, rfl⟩ := hfrom
      exact absurd ⟨id, sec, rfl⟩ hincr
    | unread j id told =>
      obtain ⟨sec, rfl⟩ := hfrom
      exact absurd ⟨id, sec, rfl⟩ hincr
    | _ => rfl
  · rw [hframe.window]
  · refine le_of_eq (hframe.count (.otptry id) fun sec hq => ?_).symm
    exact hincr ⟨id, sec, hq⟩

end

/-! ## Over runs -/

section

variable [DecidableEq ι] {journal : List (Event ι)} {id : String} {window : ℕ} {i : ι}

theorem chargedTo_iff : chargedTo journal id window i = true ↔ ∃ n, .charged i id window n ∈ journal := by
  unfold chargedTo
  rw [List.any_eq_true]
  constructor
  · rintro ⟨e, he, hcharged⟩
    cases e with
    | charged j id' window' n =>
      obtain ⟨⟨rfl, rfl⟩, rfl⟩ : (j = i ∧ id' = id) ∧ window' = window := by simpa using hcharged
      exact ⟨n, he⟩
    | _ => cases hcharged
  · rintro ⟨n, hmem⟩
    exact ⟨_, hmem, by simp⟩

omit [DecidableEq ι] in
/-- The comparisons of a journal, and who has made them. -/
theorem filterMap_comparisons : ((journal.filter (isComparison id window)).filterMap comparer).length =
    (journal.filter (isComparison id window)).length := by
  refine List.filterMap_length_eq_length.mpr fun e he => ?_
  have hcomparison := (List.mem_filter.mp he).2
  cases e with
  | compared => rfl
  | _ => cases hcomparison

omit [DecidableEq ι] in
theorem mem_comparisons
    (hi : i ∈ (journal.filter (isComparison id window)).filterMap comparer) :
    ∃ equal, .compared i id equal window ∈ journal := by
  obtain ⟨e, he, hei⟩ := List.mem_filterMap.mp hi
  obtain ⟨hmem, hcomparison⟩ := List.mem_filter.mp he
  cases e with
  | compared j id' equal window' =>
    obtain rfl : j = i := Option.some.inj hei
    obtain ⟨rfl, rfl⟩ : id' = id ∧ window' = window := by simpa [isComparison] using hcomparison
    exact ⟨equal, hmem⟩
  | _ => cases hei

variable {env : Env} {requests : ι → Request} {x : Crowd ι Ask.Answer Thrown Served (World ι)}

/-- **The verify budget bounds the guesses**, in every run where the store's answers say what it has
counted: at most twelve of the calls charged to a window compare, so that there are at most twelve
comparisons in a window unless calls from before compare in it, and no call that could not read the
budget compares. -/
theorem comparisons_within_budget (hrun : Run env Counted requests x) :
    (∀ id window, (comparisons x.world.journal id window).length ≤ 12) ∧
      (∀ id window, (∀ i equal, .compared i id equal window ∈ x.world.journal →
          chargedTo x.world.journal id window i = true) →
        (x.world.journal.filter (isComparison id window)).length ≤ 12) ∧
      ∀ i id told, .unread i id told ∈ x.world.journal →
        ∀ id equal window, .compared i id equal window ∉ x.world.journal := by
  obtain ⟨hsound, -⟩ := served budgetSound_empty (fun w w' h => h.expires)
    (fun i w d q h hdue _ hmet => h.step hdue hmet) (fun i => behaves_serve) hrun
  refine ⟨fun id window => ?_, fun id window hin => ?_, fun i id told hmem id' equal window hcompared => ?_⟩
  · have hsub : (comparisons x.world.journal id window).Sublist
        (x.world.journal.filterMap comparer) := List.filter_sublist
    have hcharged : ∀ i ∈ comparisons x.world.journal id window,
        ∃ n, .charged i id window n ∈ x.world.journal :=
      fun i hi => chargedTo_iff.mp (List.mem_filter.mp hi).2
    exact hsound.calls_le (hsound.once.sublist hsub) (fun i hi => hsub.subset hi) hcharged
  · have hsub : ((x.world.journal.filter (isComparison id window)).filterMap comparer).Sublist
        (x.world.journal.filterMap comparer) := List.filter_sublist.filterMap comparer
    have hcharged : ∀ i ∈ (x.world.journal.filter (isComparison id window)).filterMap comparer,
        ∃ n, .charged i id window n ∈ x.world.journal := fun i hi => by
      obtain ⟨equal, hmem⟩ := mem_comparisons hi
      exact chargedTo_iff.mp (hin i equal hmem)
    rw [← filterMap_comparisons]
    exact hsound.calls_le (hsound.once.sublist hsub) (fun i hi => hsub.subset hi) hcharged
  · exact hsound.refused i id told hmem (List.mem_filterMap.mpr ⟨_, hcompared, rfl⟩)

end

namespace Demo

/-- The pipeline is answered with an error for its `INCR`. -/
def refusedIncr : Chance :=
  { chance with executed := false, garbled := some [.err "ERR max requests limit exceeded"] }

def uncounted : List (ℕ × Chance) := steps 0 6 ++ [(1, refusedIncr)] ++ steps 1 3

/-- A fair step with a count. -/
def counting (d : Chance) (q : Ask) : Bool :=
  d.fair q &&
    match q with
    | .incr (.otptry _) _ => d.failure.isSome || d.garbled.isNone
    | _ => true

theorem counted_of_counting {i : ℕ} {d : Chance} {w : World ℕ} {q : Ask}
    (h : counting d q = true) : d.fair q = true ∧ Counted i d w q := by
  obtain ⟨hfair, hcount⟩ := Bool.and_eq_true_iff.mp h
  refine ⟨hfair, ?_⟩
  unfold Counted
  split
  · intro hfailure
    simpa [hfailure] using hcount
  · trivial

theorem run_of_counting {schedule : List (ℕ × Chance)}
    (h : (opening env requests).fairly (react env.sha256Hex) (fun _ d _ q => counting d q) schedule =
      true) : Run env Counted requests (after schedule) := by
  refine leads_play (fun i d w q hd => ?_) h
  obtain ⟨hfair, hcounted⟩ := counted_of_counting (i := i) (w := w) hd
  exact ⟨d, hfair, hcounted, rfl⟩

end Demo

theorem comparisons_within_budget_in_turn :
    Run Demo.env Counted Demo.requests (Demo.after Demo.inTurn) ∧
      comparisons (Demo.after Demo.inTurn).world.journal Demo.boxId 0 = [1] ∧
      (comparisons (Demo.after Demo.inTurn).world.journal Demo.boxId 0).length ≤ 12 := by
  have hrun : Run Demo.env Counted Demo.requests (Demo.after Demo.inTurn) :=
    Demo.run_of_counting (by decide +kernel)
  exact ⟨hrun, by decide +kernel, (comparisons_within_budget hrun).1 Demo.boxId 0⟩

/-- A code is compared although the budget could not be read. -/
theorem compared_uncounted : ¬∀ (env : Env) (requests : ℕ → Request) x, Run env .none requests x →
    (∀ id window, (x.world.journal.filter (isComparison id window)).length ≤ 12) ∧
      ∀ i id told, .unread i id told ∈ x.world.journal →
        ∀ id equal window, .compared i id equal window ∉ x.world.journal := by
  intro h
  obtain ⟨hfair, hunread, hcompared⟩ :
      (opening Demo.env Demo.requests).fairly (react Demo.env.sha256Hex) (fun _ d _ q => d.fair q)
        Demo.uncounted = true ∧
      .unread 1 Demo.boxId false ∈ (Demo.after Demo.uncounted).world.journal ∧
      .compared 1 Demo.boxId true 0 ∈ (Demo.after Demo.uncounted).world.journal := by
    decide +kernel
  obtain ⟨-, hclosed⟩ := h Demo.env Demo.requests _ (Demo.run_of_fairly hfair)
  exact hclosed 1 Demo.boxId false hunread Demo.boxId true 0 hcompared

end Lumenia.Sponsor.Recovery
