import Lumenia.Sponsor.Outage
import Lumenia.Sponsor.OnboardingTally

/-!
# The account counters of one process, seen from one day

For a process and a UTC day, `Kept` relates the counters in memory to a store that nobody else uses
and that forgets nothing: until the process begins the day there is nothing to keep, while it is in
it the two agree on the keys of the day, and after it has left the day the store stays as it is. What
the store's tickets say is the `Tally` of the shared counter. The relation is lost when the process
begins the day for a second time, since the counters are cleared then.
-/

namespace Lumenia.Sponsor

open Ticket OnboardingRequest

/-! ## Memory -/

namespace Isolate

variable {m : Isolate} {keys : List String} {delta : ℤ} {day key : String}

theorem localDay_rollLocalDay : (m.rollLocalDay day).localDay = day := by
  unfold rollLocalDay
  split
  · rename_i h
    exact h.symm
  · rfl

theorem rollLocalDay_of_eq (h : m.localDay = day) : m.rollLocalDay day = m := if_pos h.symm

theorem localDay_addLocal : (addLocal delta keys m).1.localDay = m.localDay := by
  induction keys generalizing m with
  | nil => rfl
  | cons key keys ih => exact ih

theorem addToLocalDays_of_eq (h : m.localDay = day) :
    m.addToLocalDays keys delta day = addLocal delta keys m := by
  unfold addToLocalDays
  rw [if_neg fun hne => hne.1 h.symm, rollLocalDay_of_eq h]

/-- A give-back for a day that has rolled does nothing. -/
theorem addToLocalDays_of_ne (h : m.localDay ≠ day) :
    (m.addToLocalDays keys (-1) day).1 = m := by
  unfold addToLocalDays
  rw [if_pos ⟨h.symm, by decide⟩]

theorem localDay_addToLocalDays :
    (m.addToLocalDays keys (-1) day).1.localDay = m.localDay := by
  rcases eq_or_ne m.localDay day with h | h
  · rw [addToLocalDays_of_eq h, localDay_addLocal]
  · rw [addToLocalDays_of_ne h]

/-- One counter after an addition. -/
def counted (m : Isolate) (key : String) (delta : ℤ) : Isolate :=
  let next := (m.localAccounts key).getD 0 + delta
  { m with
    localAccounts := Function.update m.localAccounts key (if next > 0 then some next else none) }

def pinned (m : Isolate) (marker : String) (token : Option String) : Isolate :=
  { m with localPubkeys := Function.update m.localPubkeys marker token }

theorem addLocal_cons : addLocal delta (key :: keys) m =
    ((addLocal delta keys (m.counted key delta)).1,
      ((m.localAccounts key).getD 0 + delta) :: (addLocal delta keys (m.counted key delta)).2) :=
  rfl

variable {k : String} {token : Option String}

theorem counted_self : (m.counted key delta).localAccounts key =
    if (m.localAccounts key).getD 0 + delta > 0 then some ((m.localAccounts key).getD 0 + delta)
    else none := Function.update_self ..

theorem counted_of_ne (h : k ≠ key) : (m.counted key delta).localAccounts k = m.localAccounts k :=
  Function.update_of_ne h ..

theorem pinned_self : (m.pinned key token).localPubkeys key = token := Function.update_self ..

theorem pinned_of_ne (h : k ≠ key) : (m.pinned key token).localPubkeys k = m.localPubkeys k :=
  Function.update_of_ne h ..

end Isolate

variable {ι κ : Type} [DecidableEq ι] (env : Env) (valid : String → Bool) (day : Instant)

/-- The counters in memory agree with a store on the keys of the day. -/
structure Agrees (m : Isolate) (a : Store ι) : Prop where
  count : ∀ r : OnboardingRequest, r.On day → ∀ k ∈ r.keys env,
    (m.localAccounts k).getD 0 = a.kv.count k
  marker : ∀ r : OnboardingRequest, r.On day → ∀ k, r.marker env valid = some k →
    (m.localPubkeys k).map Val.str = a.kv k

namespace Agrees

variable {env valid day} {m : Isolate} {a : Store ι} {r : OnboardingRequest} {key : String}
  {delta : ℤ} {i : ι}

theorem not_isMarker_of_mem_keys (h : key ∈ r.keys env) : ¬IsMarker env key := by
  rcases List.mem_pair.mp h with rfl | rfl
  · exact not_isMarker_accountSourceDayKey
  · exact not_isMarker_accountDayKey

omit [DecidableEq ι] in
/-- A day that has just begun. -/
theorem fresh : Agrees env valid day (.fresh (accountDayKey env day)) (Store.empty (ι := ι)) where
  count _ _ _ _ := rfl
  marker _ _ _ _ := rfl

theorem added (h : Agrees env valid day m a) (hday : r.On day) (hkey : key ∈ r.keys env)
    (hcount : 0 ≤ a.kv.count key + delta) :
    Agrees env valid day (m.counted key delta) (a.added i key delta) where
  count r' hday' k hk := by
    rw [Store.count_added]
    split
    · rename_i heq
      subst heq
      rw [Isolate.counted_self, h.count r hday _ hkey]
      split
      · rfl
      · rw [Option.getD_none]
        omega
    · rename_i hne
      rw [Isolate.counted_of_ne hne]
      exact h.count r' hday' k hk
  marker r' hday' k hk := by
    have hne : k ≠ key := by
      rintro rfl
      exact not_isMarker_of_mem_keys hkey (isMarker hk)
    rw [Store.kv_added_of_ne hne]
    exact h.marker r' hday' k hk

omit [DecidableEq ι] in
theorem written (h : Agrees env valid day m a) (hkey : r.marker env valid = some key)
    {token : Option String} :
    Agrees env valid day (m.pinned key token) (a.written key token) where
  count r' hday' k hk := by
    have hne : k ≠ key := by
      rintro rfl
      exact not_isMarker_of_mem_keys hk (isMarker hkey)
    rw [Kv.count, Store.kv_written_of_ne hne]
    exact h.count r' hday' k hk
  marker r' hday' k hk := by
    rcases eq_or_ne k key with rfl | hne
    · rw [Store.kv_written, Isolate.pinned_self]
    · rw [Store.kv_written_of_ne hne, Isolate.pinned_of_ne hne]
      exact h.marker r' hday' k hk

omit [DecidableEq ι] in
/-- What happens to the markers of other days does not matter. -/
theorem pinned_of_not_on (h : Agrees env valid day m a) (hday : ¬r.On day)
    (hkey : r.marker env valid = some key) {token : Option String} :
    Agrees env valid day (m.pinned key token) a where
  count := h.count
  marker r' hday' k hk := by
    have hne : k ≠ key := by
      rintro rfl
      exact hday ((marker_inj hkey hk).1.trans hday')
    rw [Isolate.pinned_of_ne hne]
    exact h.marker r' hday' k hk

omit [DecidableEq ι] in
/-- Repeats are not on the counters. -/
theorem repeats (h : Agrees env valid day m a) {f : String → Option ℤ} :
    Agrees env valid day { m with localRepeats := f } a := ⟨h.count, h.marker⟩

end Agrees

/-! ## Slots in memory -/

/-- Both counters of a request after an addition. -/
def Isolate.moved (m : Isolate) (r : OnboardingRequest) (delta : ℤ) : Isolate :=
  (m.counted (r.sourceKey env) delta).counted (r.dayGlobalKey env) delta

/-- A request with a slot of these totals. -/
def OnboardingRequest.slotted (r : OnboardingRequest) (source day : ℤ) : Claimant :=
  (Claimant.fresh.put (r.sourceKey env) (some ⟨1, source⟩)).put (r.dayGlobalKey env) (some ⟨1, day⟩)

section

variable {env valid day} {m : Isolate} {a : Store ι} {r : OnboardingRequest} {i : ι}

theorem addLocal_keys {delta : ℤ} : Isolate.addLocal delta (r.keys env) m = (m.moved env r delta,
    [(m.localAccounts (r.sourceKey env)).getD 0 + delta,
      (m.localAccounts (r.dayGlobalKey env)).getD 0 + delta]) := by
  have hsame : (m.counted (r.sourceKey env) delta).localAccounts (r.dayGlobalKey env) =
      m.localAccounts (r.dayGlobalKey env) :=
    Isolate.counted_of_ne sourceKey_ne_dayGlobalKey.symm
  rw [OnboardingRequest.keys, Isolate.addLocal_cons, Isolate.addLocal_cons, hsame]
  rfl

theorem not_isMarker_sourceKey : ¬IsMarker env (r.sourceKey env) := not_isMarker_accountSourceDayKey

theorem not_isMarker_dayGlobalKey : ¬IsMarker env (r.dayGlobalKey env) := not_isMarker_accountDayKey

theorem slot_slotted {s d : ℤ} : r.Slot env (r.slotted env s d) s d := by
  refine ⟨s, d, ?_, Claimant.put_self, le_rfl, le_rfl⟩
  rw [slotted, Claimant.put_of_ne sourceKey_ne_dayGlobalKey, Claimant.put_self]

theorem sourceKey_mem_keys : r.sourceKey env ∈ r.keys env := List.mem_cons_self

theorem dayGlobalKey_mem_keys : r.dayGlobalKey env ∈ r.keys env :=
  List.mem_cons_of_mem _ List.mem_cons_self

/-- A slot that is handed back, in memory and in the store. -/
theorem Agrees.moved_down (h : Agrees env valid day m a) (hday : r.On day)
    (hs : 1 ≤ a.kv.count (r.sourceKey env)) (hd : 1 ≤ a.kv.count (r.dayGlobalKey env)) :
    Agrees env valid day (m.moved env r (-1))
      ((a.added i (r.sourceKey env) (-1)).added i (r.dayGlobalKey env) (-1)) := by
  refine (h.added hday sourceKey_mem_keys (by omega)).added hday dayGlobalKey_mem_keys ?_
  rw [Store.count_added, if_neg sourceKey_ne_dayGlobalKey.symm]
  omega

variable [Fintype ι]

omit [DecidableEq ι] in
theorem Books.one_le_count {t : ι → Wallet} (h : Books a t) {key : String} {n : ℤ}
    (hi : t i key = some ⟨1, n⟩) : 1 ≤ a.kv.count key := by
  have hsum := (h.metered key).sum_le_total {i}
  rwa [Finset.sum_singleton, hi, worth_some] at hsum

variable {budget : OnboardingBudget} {req : ι → OnboardingRequest} {g : ι → Claimant}

namespace Tally

/-- A fresh request takes a slot. -/
theorem takeSlot (h : Tally env valid budget req a g) (hagree : Agrees env valid day m a)
    (hfresh : g i = .fresh) (hday : (req i).On day) :
    ∃ a', Tally env valid budget req a' (Function.update g i ((req i).slotted env
        ((m.localAccounts ((req i).sourceKey env)).getD 0 + 1)
        ((m.localAccounts ((req i).dayGlobalKey env)).getD 0 + 1))) ∧
      Agrees env valid day (m.moved env (req i) 1) a' := by
  have hs : (g i).wallet ((req i).sourceKey env) = none := by rw [hfresh]; rfl
  have hd : ((g i).put ((req i).sourceKey env)
      (some ⟨1, a.kv.count ((req i).sourceKey env) + 1⟩)).wallet ((req i).dayGlobalKey env) = none := by
    rw [Claimant.put_of_ne sourceKey_ne_dayGlobalKey.symm, hfresh]
    rfl
  have hnonneg := fun key => (h.books.metered key).sum_le_total ∅
  simp only [Finset.sum_empty] at hnonneg
  have hone := h.take (by rw [hfresh]; rfl) not_isMarker_sourceKey hs
  have htwo := hone.take (i := i) (by rw [Function.update_self, Claimant.put_fenced, hfresh]; rfl)
    not_isMarker_dayGlobalKey (by rw [Function.update_self]; exact hd)
  have hcount : (a.added i ((req i).sourceKey env) 1).kv.count ((req i).dayGlobalKey env) =
      a.kv.count ((req i).dayGlobalKey env) := by
    rw [Store.count_added, if_neg sourceKey_ne_dayGlobalKey.symm]
  rw [Function.update_idem, Function.update_self, hfresh, hcount] at htwo
  rw [hagree.count _ hday _ sourceKey_mem_keys, hagree.count _ hday _ dayGlobalKey_mem_keys]
  refine ⟨_, htwo, (hagree.added hday sourceKey_mem_keys ?_).added hday dayGlobalKey_mem_keys ?_⟩
  · exact add_nonneg (hnonneg _) one_pos.le
  · rw [hcount]
    exact add_nonneg (hnonneg _) one_pos.le

/-- A request that is not fenced gives its slot back. -/
theorem dropSlot (h : Tally env valid budget req a g) (hagree : Agrees env valid day m a)
    (hfenced : (g i).fenced = false) (hstands : (req i).Stands env (g i)) (hday : (req i).On day) :
    ∃ γ' a', Tally env valid budget req a' (Function.update g i γ') ∧
      Agrees env valid day (m.moved env (req i) (-1)) a' := by
  obtain ⟨_, _, s, d, hs, hd, -⟩ := hstands
  have hd' : ((g i).put ((req i).sourceKey env) none).wallet ((req i).dayGlobalKey env) =
      some ⟨1, d⟩ := by rw [Claimant.put_of_ne sourceKey_ne_dayGlobalKey.symm, hd]
  have hone := h.drop hfenced not_isMarker_sourceKey hs
  have htwo := hone.drop (i := i) (by rw [Function.update_self, Claimant.put_fenced, hfenced])
    not_isMarker_dayGlobalKey (by rw [Function.update_self]; exact hd')
  rw [Function.update_idem] at htwo
  exact ⟨_, _, htwo, hagree.moved_down hday (h.books.one_le_count hs) (h.books.one_le_count hd)⟩

/-- A fenced request whose token is on its marker gives its slot back. -/
theorem releaseSlot (h : Tally env valid budget req a g) (hagree : Agrees env valid day m a)
    {key : String} (hkey : (req i).marker env valid = some key)
    (hown : m.localPubkeys key = some (req i).token) (hstands : (req i).Stands env (g i))
    (hday : (req i).On day) :
    ∃ γ' a', Tally env valid budget req a' (Function.update g i γ') ∧
      Agrees env valid day ((m.pinned key none).moved env (req i) (-1)) a' := by
  obtain ⟨_, _, s, d, hs, hd, -⟩ := hstands
  have htoken : a.kv key = some (.str (req i).token) := by
    rw [← hagree.marker _ hday _ hkey, hown, Option.map_some]
  have hbooks := h.books.written (v := none) (h.count_marker (isMarker hkey))
  exact ⟨_, _, h.release hkey htoken hs hd,
    (hagree.written hkey).moved_down hday (hbooks.one_le_count hs) (hbooks.one_le_count hd)⟩

end Tally

end

/-! ## The phases of a day -/

section

variable (budget : OnboardingBudget) (req : ι → OnboardingRequest)

/-- The counters of the process are kept for the day, unless the day was begun twice. -/
def Kept [Fintype ι] (p : Process κ) (g : ι → Claimant) : Prop :=
  2 ≤ p.accountDays.count (accountDayKey env day) ∨
    ∃ a, Tally env valid budget req a g ∧
      DayPhase p.accountDays p.accounts.localDay (accountDayKey env day)
        (a = .empty ∧ ∀ i, g i = .fresh) (Agrees env valid day p.accounts a)

/-- A step of memory that does not matter to the day. -/
def Aside (ι : Type) (m m' : Isolate) : Prop :=
  m'.localDay ≠ accountDayKey env day ∨
    m'.localDay = m.localDay ∧ ∀ a : Store ι, Agrees env valid day m a → Agrees env valid day m' a

variable {env valid day budget req} {p : Process κ} {m : Isolate}

namespace Kept

variable [Fintype ι] {g : ι → Claimant} {i : ι}

omit [DecidableEq ι] in
theorem fresh : Kept (κ := κ) env valid day budget req .fresh fun _ => .fresh := by
  refine .inr ⟨.empty, Tally.empty, .before List.not_mem_nil (fun h => ?_) ⟨rfl, fun _ => rfl⟩⟩
  have hlen := congrArg String.length h
  simp only [accountDayKey, String.length_append, length_utcDay] at hlen
  have hempty : (Process.fresh (κ := κ)).accounts.localDay.length = 0 := rfl
  omega

omit [DecidableEq ι] in
theorem aside (h : Kept env valid day budget req p g)
    (hm : Aside env valid day ι p.accounts m) :
    Kept env valid day budget req (p.setAccounts m) g := by
  rcases h with htwice | ⟨a, htally, hphase⟩
  · exact .inl (htwice.trans count_le_begun)
  refine .inr ⟨a, htally, ?_⟩
  rcases hm with hne | ⟨hsame, hagrees⟩
  · exact hphase.away hne id
  · exact hphase.same hsame id (hagrees a)

omit [DecidableEq ι] in
theorem setFees (h : Kept env valid day budget req p g) {f : FeeMemory κ} :
    Kept env valid day budget req (p.setFees f) g := h

/-- A step that begins the day, or goes on in it. -/
theorem enter (h : Kept env valid day budget req p g) (hm : m.localDay = accountDayKey env day)
    {γ' : Claimant} (hstep : ∀ a, Tally env valid budget req a g →
      Agrees env valid day (p.accounts.rollLocalDay (accountDayKey env day)) a →
      ∃ a', Tally env valid budget req a' (Function.update g i γ') ∧ Agrees env valid day m a') :
    Kept env valid day budget req (p.setAccounts m) (Function.update g i γ') := by
  rcases h with htwice | ⟨a, htally, hphase⟩
  · exact .inl (htwice.trans count_le_begun)
  have hroll : p.accounts.localDay ≠ accountDayKey env day → a = .empty →
      Agrees env valid day (p.accounts.rollLocalDay (accountDayKey env day)) a := by
    rintro hday rfl
    rw [Isolate.rollLocalDay, if_neg hday.symm]
    exact .fresh
  have hright : Agrees env valid day (p.accounts.rollLocalDay (accountDayKey env day)) a →
      Kept env valid day budget req (p.setAccounts m) (Function.update g i γ') := by
    intro hagree
    obtain ⟨a', htally', hagree'⟩ := hstep a htally hagree
    exact (hphase.into hm (fun _ => hagree') fun _ => hagree').imp_right fun h => ⟨a', htally', h⟩
  cases hphase with
  | before hlog hday hu => exact hright (hroll hday hu.1)
  | here hlog hday hagree =>
    apply hright
    rwa [Isolate.rollLocalDay_of_eq hday]
  | left hlog hday => exact .inl (again hlog hday hm)

/-- A step of a request that has been in the day, while the process is in it or after it has left. -/
theorem stay (h : Kept env valid day budget req p g) (hi : g i ≠ .fresh)
    (hm : m.localDay = p.accounts.localDay) {R : Claimant → Prop} (hbad : ∃ γ', R γ')
    (hhere : ∀ a, Tally env valid budget req a g → p.accounts.localDay = accountDayKey env day →
      Agrees env valid day p.accounts a → ∃ γ' a', R γ' ∧
        Tally env valid budget req a' (Function.update g i γ') ∧ Agrees env valid day m a')
    (hleft : ∀ a, Tally env valid budget req a g → p.accounts.localDay ≠ accountDayKey env day →
      ∃ γ' a', R γ' ∧ Tally env valid budget req a' (Function.update g i γ')) :
    ∃ γ', R γ' ∧ Kept env valid day budget req (p.setAccounts m) (Function.update g i γ') := by
  rcases h with htwice | ⟨a, htally, hphase⟩
  · obtain ⟨γ', hR⟩ := hbad
    exact ⟨γ', hR, .inl (htwice.trans count_le_begun)⟩
  cases hphase with
  | before hlog hday hu => exact absurd (hu.2 i) hi
  | here hlog hday hagree =>
    obtain ⟨γ', a', hR, htally', hagree'⟩ := hhere a htally hday hagree
    exact ⟨γ', hR, .inr ⟨a', htally', .here (mem_begun hlog) (hm.trans hday) hagree'⟩⟩
  | left hlog hday =>
    obtain ⟨γ', a', hR, htally'⟩ := hleft a htally hday
    exact ⟨γ', hR, .inr ⟨a', htally', .left (mem_begun hlog) (hm.trans_ne hday)⟩⟩

end Kept

end

end Lumenia.Sponsor
