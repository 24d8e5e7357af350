import Lumenia.Sponsor.FeesSafety
import Lumenia.Sponsor.OutageLogic

/-!
# The fee counter of one process, seen from one day

What `OutageAccounts` and `OutageLogic` do for accounts, for fees: the counter in memory is related
to a store that nobody else uses and that forgets nothing, as long as the process does not begin the
day for a second time. A charge of the day that the counter took has a ticket there, which is never
below what the charge has to cover.
-/

namespace Lumenia.Sponsor

open Ticket

/-! ## Memory -/

namespace LocalFees

variable {m : LocalFees} {delta gross : ℤ} {day : String}

theorem addToLocalFees_of_eq (h : m.localFeeDay = day) (hpos : 0 ≤ m.localFeeStroops + delta) :
    (m.addToLocalFees delta day gross).2 = m.localFeeStroops + delta ∧
      (m.addToLocalFees delta day gross).1.localFeeStroops = m.localFeeStroops + delta := by
  unfold addToLocalFees
  rw [if_neg fun hne => hne.1 h.symm, if_pos h.symm]
  dsimp only
  rw [if_neg (not_lt.mpr hpos)]
  exact ⟨rfl, rfl⟩

/-- A give-back for a day that has rolled does nothing. -/
theorem addToLocalFees_of_ne (h : m.localFeeDay ≠ day) (hneg : delta < 0) :
    (m.addToLocalFees delta day gross).1 = m := by
  unfold addToLocalFees
  rw [if_pos ⟨h.symm, hneg⟩]

/-- Anything else begins the day. -/
theorem addToLocalFees_fresh (h : m.localFeeDay ≠ day) (hpos : 0 ≤ delta) :
    (m.addToLocalFees delta day gross).2 = delta ∧
      (m.addToLocalFees delta day gross).1.localFeeStroops = delta := by
  unfold addToLocalFees
  rw [if_neg fun hneg => absurd hneg.2 (not_lt.mpr hpos), if_neg h.symm, fresh]
  dsimp only
  rw [zero_add, if_neg (not_lt.mpr hpos)]
  exact ⟨rfl, rfl⟩

theorem localFeeDay_addToLocalFees (h : m.localFeeDay = day ∨ 0 ≤ delta) :
    (m.addToLocalFees delta day gross).1.localFeeDay = day := by
  unfold addToLocalFees
  split
  · rename_i hne
    rcases h with heq | hpos
    · exact absurd heq.symm hne.1
    · exact absurd hne.2 (not_lt.mpr hpos)
  · dsimp only
    split
    · rename_i heq
      exact heq.symm
    · rfl

end LocalFees

section

variable {ι κ ν : Type} [DecidableEq κ] [Fintype κ] (env : Env) (max : ℕ)
  (day : Instant) (fee : κ → FeeRequest) (home : ι ⊕ κ → ν) (v : ν)

/-- A charge of the day; if the counter in memory took it, its ticket covers it. -/
structure LocalCovered (γ : Payer) (h : Handle) : Prop where
  key : h.charge.key = feeDayKey env day
  bid : 0 ≤ h.charge.bidStroops
  ticket : h.charge.shared = false → ∃ a seen, γ.wallet (feeDayKey env day) = some ⟨a, seen⟩ ∧
    h.counted ≤ a ∧ seen ≤ max ∧ (h.closedBy = none → a = h.charge.bidStroops)

/-- The request is one of the day, in the process. -/
def Ours (j : κ) : Prop := home (.inr j) = v ∧ (fee j).On day

structure FeeStand (p : Process κ) (a : Store κ) (g : κ → Payer) : Prop where
  books : Books a fun j => (g j).wallet
  handle : ∀ j, Ours day fee home v j → p.fees.handles j = (g j).handle
  covered : ∀ j h, Ours day fee home v j → (g j).handle = some h →
    LocalCovered env max day (g j) h
  phase : DayPhase p.feeDays p.fees.counters.localFeeDay (feeDayKey env day)
    (a = .empty ∧ ∀ j, (g j).wallet = fun _ => none)
    (p.fees.counters.localFeeStroops = a.kv.count (feeDayKey env day))

/-- The counter of the process is kept for the day, unless the day was begun twice. -/
def FeeKept (p : Process κ) (g : κ → Payer) : Prop :=
  2 ≤ p.feeDays.count (feeDayKey env day) ∨ ∃ a, FeeStand env max day fee home v p a g

variable {env max day fee home v} {p : Process κ} {m : FeeMemory κ} {g : κ → Payer}
  {j : κ} {γ γ' : Payer} {a a' : Store κ} {h : Handle}

/-- A step of one request of the process. -/
theorem FeeStand.update (hs : FeeStand env max day fee home v p a g)
    (hothers : ∀ k, k ≠ j → m.handles k = p.fees.handles k) (hhandle : m.handles j = γ'.handle)
    (hcovered : ∀ h, γ'.handle = some h → LocalCovered env max day γ' h)
    (hbooks : Books a' (Function.update (fun k => (g k).wallet) j γ'.wallet))
    (hphase : DayPhase (p.setFees m).feeDays m.counters.localFeeDay (feeDayKey env day)
      (a' = .empty ∧ ∀ k, (Function.update g j γ' k).wallet = fun _ => none)
      (m.counters.localFeeStroops = a'.kv.count (feeDayKey env day))) :
    FeeStand env max day fee home v (p.setFees m) a' (Function.update g j γ') where
  books := by rwa [wallet_update_payer]
  handle k hk := by
    rcases eq_or_ne k j with rfl | hkj
    · rw [Function.update_self]
      exact hhandle
    · rw [Function.update_of_ne hkj]
      exact (hothers k hkj).trans (hs.handle k hk)
  covered k h hk hh := by
    rcases eq_or_ne k j with rfl | hkj
    · rw [Function.update_self] at hh ⊢
      exact hcovered h hh
    · rw [Function.update_of_ne hkj] at hh ⊢
      exact hs.covered k h hk hh
  phase := hphase

namespace FeeKept

omit [DecidableEq κ] in
theorem fresh : FeeKept env max day fee home v .fresh fun _ => .fresh := by
  refine .inr ⟨.empty, Books.empty, fun _ _ => rfl, fun _ _ _ hh => ?_, ?_⟩
  · cases hh
  refine .before List.not_mem_nil (fun h => ?_) ⟨rfl, fun _ => rfl⟩
  have hlen := congrArg String.length h
  simp only [feeDayKey, String.length_append, length_utcDay] at hlen
  have hempty : (Process.fresh (κ := κ)).fees.counters.localFeeDay.length = 0 := rfl
  omega

omit [DecidableEq κ] in
theorem setAccounts (h : FeeKept env max day fee home v p g) {f : Isolate} :
    FeeKept env max day fee home v (p.setAccounts f) g :=
  h.imp_right fun ⟨a, hs⟩ => ⟨a, hs.books, hs.handle, hs.covered, hs.phase⟩

omit [DecidableEq κ] in
/-- A step that does not matter to the day. -/
theorem aside (h : FeeKept env max day fee home v p g)
    (hm : m.counters.localFeeDay ≠ feeDayKey env day ∨ m.counters = p.fees.counters)
    (hhandles : ∀ k, Ours day fee home v k → m.handles k = p.fees.handles k) :
    FeeKept env max day fee home v (p.setFees m) g := by
  rcases h with htwice | ⟨a, hs⟩
  · exact .inl (htwice.trans count_le_begun)
  refine .inr ⟨a, hs.books, fun k hk => (hhandles k hk).trans (hs.handle k hk), hs.covered, ?_⟩
  rcases hm with hne | heq
  · exact hs.phase.away hne id
  · have hday : m.counters.localFeeDay = p.fees.counters.localFeeDay := by rw [heq]
    refine hs.phase.same hday id fun hcount => ?_
    change m.counters.localFeeStroops = _
    rw [heq, hcount]

/-- A charge that is opened or closed. -/
theorem remember (h : FeeKept env max day fee home v p g) (hcounters : m.counters = p.fees.counters)
    (hothers : ∀ k, k ≠ j → m.handles k = p.fees.handles k) (hhandle : m.handles j = γ'.handle)
    (hwallet : γ'.wallet = (g j).wallet)
    (hcovered : ∀ h, γ'.handle = some h → LocalCovered env max day γ' h) :
    FeeKept env max day fee home v (p.setFees m) (Function.update g j γ') := by
  rcases h with htwice | ⟨a, hs⟩
  · exact .inl (htwice.trans count_le_begun)
  refine .inr ⟨a, hs.update hothers hhandle hcovered ?_ ?_⟩
  · rw [hwallet, Function.update_eq_self]
    exact hs.books
  · have hday : m.counters.localFeeDay = p.fees.counters.localFeeDay := by rw [hcounters]
    refine hs.phase.same hday (fun hu => ⟨hu.1, ?_⟩) fun hcount => by rw [hcounters, hcount]
    exact (Function.forall_update_iff g fun _ γ => γ.wallet = fun _ => none).mpr
      ⟨hwallet.trans (hu.2 j), fun k _ => hu.2 k⟩

/-- A bid that is counted. -/
theorem take (h : FeeKept env max day fee home v p g) (hj : Ours day fee home v j)
    (hfresh : g j = .fresh) {bid gross : ℤ} (hbid : 0 ≤ bid) :
    let next := p.fees.addFees bid (feeDayKey env day) gross
    FeeKept env max day fee home v (p.setFees next.1)
      (Function.update g j (Payer.fresh.put (feeDayKey env day) (some ⟨bid, next.2⟩))) := by
  intro next
  have hnew : next.1.counters.localFeeDay = feeDayKey env day :=
    LocalFees.localFeeDay_addToLocalFees (.inr hbid)
  rcases h with htwice | ⟨a, hs⟩
  · exact .inl (htwice.trans count_le_begun)
  have hnone : (g j).wallet (feeDayKey env day) = none := by rw [hfresh]; rfl
  -- The new total is the old content and the bid.
  have htaken : feeDayKey env day ∈ (p.setFees next.1).feeDays →
      next.2 = a.kv.count (feeDayKey env day) + bid ∧
        next.1.counters.localFeeStroops = a.kv.count (feeDayKey env day) + bid →
      FeeKept env max day fee home v (p.setFees next.1)
        (Function.update g j (Payer.fresh.put (feeDayKey env day) (some ⟨bid, next.2⟩))) := by
    rintro hlog ⟨htotal, hstroops⟩
    have hbooks := hs.books.take hnone hbid
    rw [hfresh, ← htotal] at hbooks
    refine .inr ⟨_, hs.update (fun _ _ => rfl) ?_ (fun h hh => ?_) hbooks (.here hlog hnew ?_)⟩
    · exact (hs.handle j hj).trans (by rw [hfresh]; rfl)
    · cases hh
    · rw [hstroops, Store.count_added, if_pos rfl]
  cases hs.phase with
  | before hlog hday hu =>
    refine htaken ?_ ?_
    · change _ ∈ begun _ _ _
      rw [hnew, begun_of_ne hday.symm]
      exact List.mem_cons_self
    · have hzero : a.kv.count (feeDayKey env day) = 0 := by rw [hu.1]; rfl
      rw [hzero, zero_add]
      exact LocalFees.addToLocalFees_fresh hday hbid
  | here hlog hday hcount =>
    have hnonneg := (hs.books.metered (feeDayKey env day)).sum_le_total ∅
    rw [Finset.sum_empty, ← hcount] at hnonneg
    refine htaken (mem_begun hlog) ?_
    rw [← hcount]
    exact LocalFees.addToLocalFees_of_eq hday (add_nonneg hnonneg hbid)
  | left hlog hday => exact .inl (again hlog hday hnew)

/-- A part of a ticket that is given back. -/
theorem lower (h : FeeKept env max day fee home v p g) (hj : Ours day fee home v j)
    {x seen b : ℤ} (gross : ℤ)
    (hticket : (g j).wallet (feeDayKey env day) = some ⟨x, seen⟩) (hb : 0 ≤ b) (hle : b ≤ x)
    (hm : m.counters = (p.fees.counters.addToLocalFees (-b) (feeDayKey env day) gross).1)
    (hothers : ∀ k, k ≠ j → m.handles k = p.fees.handles k)
    (hhandle : p.fees.handles j = (g j).handle → m.handles j = γ'.handle)
    (hwallet : γ'.wallet =
      Function.update (g j).wallet (feeDayKey env day) (some ⟨x - b, seen⟩))
    (hcovered : ∀ h, γ'.handle = some h → LocalCovered env max day γ' h) :
    FeeKept env max day fee home v (p.setFees m) (Function.update g j γ') := by
  rcases h with htwice | ⟨a, hs⟩
  · exact .inl (htwice.trans count_le_begun)
  have hbooks := hs.books.lower hticket hb hle
  rw [← hwallet] at hbooks
  cases hs.phase with
  | before hlog hday hu =>
    rw [hu.2 j] at hticket
    cases hticket
  | here hlog hday hcount =>
    have hsum := (hs.books.metered (feeDayKey env day)).sum_le_total {j}
    rw [Finset.sum_singleton, hticket, worth_some, ← hcount] at hsum
    dsimp only at hsum
    have hstroops : (p.fees.counters.addToLocalFees (-b) (feeDayKey env day) gross).1.localFeeStroops
        = p.fees.counters.localFeeStroops + -b :=
      (LocalFees.addToLocalFees_of_eq hday (by omega)).2
    have hnew : m.counters.localFeeDay = feeDayKey env day := by
      rw [hm]
      exact LocalFees.localFeeDay_addToLocalFees (.inl hday)
    refine .inr ⟨_, hs.update hothers (hhandle (hs.handle j hj)) hcovered hbooks (.here (mem_begun hlog) hnew ?_)⟩
    rw [hm, hstroops, Store.count_added, if_pos rfl, hcount]
  | left hlog hday =>
    rcases hb.eq_or_lt with rfl | hpos
    · -- Giving nothing back begins the day again.
      refine .inl (again hlog hday ?_)
      rw [hm]
      exact LocalFees.localFeeDay_addToLocalFees (.inr (by omega))
    · have hsame : (p.fees.counters.addToLocalFees (-b) (feeDayKey env day) gross).1 =
          p.fees.counters := LocalFees.addToLocalFees_of_ne hday (neg_neg_of_pos hpos)
      refine .inr ⟨_, hs.update hothers (hhandle (hs.handle j hj)) hcovered hbooks (.left (mem_begun hlog) ?_)⟩
      rwa [hm, hsame]

end FeeKept

/-! ## What the functions do to the counter -/

variable [DecidableEq ι] [DecidableEq ν] {Q : Unit → Payer → Prop} {α : Type}

variable (env max day fee home v) in
def feesPact : Pact (ι ⊕ κ) ν (Process κ) (Store (ι ⊕ κ)) Payer Fault Shown :=
  Pact.inMemories _ _ (fun μ g => FeeKept env max day fee home v (μ v) (g ∘ Sum.inr))
    fun _ _ _ => True

/-- The program of a fee request inside its process. -/
abbrev inFees (p : Task (FeeMemory κ) FeeStage α) : Task (Process κ) Shown α :=
  p.within Process.fees Process.setFees .fee

variable (env day fee home v) in
/-- A step of memory that does not matter to the day. -/
def FeeAside (n : ι ⊕ κ) (m m' : FeeMemory κ) : Prop := home n = v →
  (m'.counters.localFeeDay ≠ feeDayKey env day ∨ m'.counters = m.counters) ∧
    ∀ k, Ours day fee home v k → m'.handles k = m.handles k

theorem wp_feeAside {n : ι ⊕ κ} {p : Task (FeeMemory κ) FeeStage α} {L : FeeStage → Prop}
    {A : α → Prop} (hp : p.Does (FeeAside env day fee home v n) L A) {Q : α → Payer → Prop}
    (hQ : ∀ a, A a → Q a γ) :
    (feesPact env max day fee home v).wp (backend _) home n (inFees p) Q γ := by
  refine Pact.wp_within hp (fun μ g m hm hkept => ?_) (fun _ _ => trivial) hQ
  rcases eq_or_ne v (home n) with heq | hne
  · rw [heq, Function.update_self]
    obtain ⟨hcounters, hhandles⟩ := hm heq.symm
    exact heq ▸ (heq ▸ hkept : FeeKept env max day fee home v (μ (home n)) _).aside hcounters hhandles
  · rwa [Function.update_of_ne hne]

/-- A stretch of code over the counter of the process. -/
theorem wp_atomicallyFees {f : FeeMemory κ → FeeMemory κ × α} {Q : α → Payer → Prop}
    (hhome : home (.inr j) = v)
    (h : ∀ (p : Process κ) g, FeeKept env max day fee home v p g → g j = γ → ∃ γ',
      Q (f p.fees).2 γ' ∧
        FeeKept env max day fee home v (p.setFees (f p.fees).1) (Function.update g j γ')) :
    (feesPact env max day fee home v).wp (backend _) home (.inr j) (inFees (atomically f)) Q γ := by
  refine Pact.wpMem_inMemories fun μ g hkept hg => ?_
  subst hhome
  obtain ⟨γ', hQ, hkept'⟩ := h (μ (home (.inr j))) (g ∘ Sum.inr) hkept hg
  refine ⟨γ', ?_, hQ⟩
  rw [Function.update_self, Sum.update_inr_comp_inr]
  exact hkept'

theorem does_addToDays {M ε : Type} {S : M → M → Prop} {L : ε → Prop} {keys : List String}
    {delta : ℤ} : (addToDays keys delta : Task M ε _).Does S L fun _ => True :=
  does_pipeline.bind fun _ _ => trivial

variable (env max day) in
/-- The charge of a ghost is covered. -/
def Ready (γ : Payer) (h : Handle) : Prop := γ.handle = some h ∧ LocalCovered env max day γ h

omit [DecidableEq κ] [Fintype κ] in
theorem Ready.close (hr : Ready env max day γ h) (call : SettleCall) :
    Ready env max day { γ with handle := some { h with closedBy := h.closedBy.or (some call) } }
      { h with closedBy := h.closedBy.or (some call) } := by
  obtain ⟨hhandle, hkey, hbid, hticket⟩ := hr
  refine ⟨rfl, hkey, hbid, fun hshared => ?_⟩
  obtain ⟨a, seen, hwallet, hcounted, hseen, hopen⟩ := hticket hshared
  refine ⟨a, seen, hwallet, ?_, hseen, fun hnone => ?_⟩
  · cases hclosed : h.closedBy with
    | none =>
      rw [hopen hclosed]
      exact Handle.counted_le hbid
    | some c =>
      have heq : ({ h with closedBy := some c } : Handle) = h := by rw [← hclosed]
      rw [Option.some_or, heq]
      exact hcounted
  · cases hclosed : h.closedBy with
    | none => simp [hclosed] at hnone
    | some c => simp [hclosed] at hnone

omit [DecidableEq ι] [DecidableEq ν] in
theorem FeeKept.closeStep (hkept : FeeKept env max day fee home v p g)
    (hours : Ours day fee home v j) (hr : Ready env max day (g j) h) (call : SettleCall)
    (hm : m = p.fees.close j call) :
    (∃ h', h'.charge = h.charge ∧ ∃ γ', Ready env max day γ' h' ∧
      FeeKept env max day fee home v (p.setFees m) (Function.update g j γ')) := by
  subst hm
  rcases hkept with htwice | ⟨a, hs⟩
  · exact ⟨h, rfl, g j, hr, .inl (htwice.trans count_le_begun)⟩
  refine ⟨{ h with closedBy := h.closedBy.or (some call) }, rfl, _, hr.close call, ?_⟩
  have hhandle : p.fees.handles j = some h := (hs.handle j hours).trans hr.1
  refine FeeKept.remember (.inr ⟨a, hs⟩) rfl (fun k hk => Function.update_of_ne hk ..) ?_ rfl
    fun h' hh' => ?_
  · rw [FeeMemory.close, hhandle]
    exact Function.update_self ..
  · cases hh'
    exact (hr.close call).2

theorem wp_closeLocal (hours : Ours day fee home v j) (hr : Ready env max day γ h)
    (call : SettleCall) (hQ : ∀ γ' h', h'.charge = h.charge → Ready env max day γ' h' → Q () γ') :
    (feesPact env max day fee home v).wp (backend _) home (.inr j)
      (inFees (atomically fun m => (m.close j call, ()))) Q γ := by
  refine wp_atomicallyFees hours.1 fun p g hkept hg => ?_
  subst hg
  obtain ⟨h', hcharge, γ', hr', hkept'⟩ := hkept.closeStep hours hr call rfl
  exact ⟨γ', hQ γ' h' hcharge hr', hkept'⟩

theorem wp_giveBackLocal (hours : Ours day fee home v j) (hr : Ready env max day γ h)
    {call : SettleCall} {stroops : ℤ}
    (hcounted : { h with closedBy := some call }.counted = h.charge.bidStroops - stroops)
    (hQ : ∀ γ' h', h'.charge = h.charge → Ready env max day γ' h' → Q () γ') :
    (feesPact env max day fee home v).wp (backend _) home (.inr j)
      (inFees (h.charge.giveBack j call stroops)) Q γ := by
  have hrest : ∀ b γ' h', h'.charge = h.charge → Ready env max day γ' h' →
      (feesPact env max day fee home v).wp (backend _) home (.inr j)
        (inFees (if b = true then do let _ ← addToDays [h.charge.key] (-stroops) else pure ())) Q
        γ' := by
    intro b γ' h' hcharge hr'
    refine wp_feeAside (L := fun _ => False) (A := fun _ => True) ?_ fun _ _ => hQ γ' h' hcharge hr'
    split
    · exact does_addToDays.bind fun _ _ => trivial
    · trivial
  unfold FeeCharge.giveBack inFees
  rw [Prog.within_bind, Pact.wp_bind]
  refine wp_atomicallyFees hours.1 fun p g hkept hg => ?_
  subst hg
  dsimp only
  split
  · refine ⟨g j, hrest false _ h rfl hr, ?_⟩
    rw [Function.update_eq_self]
    exact hkept.aside (.inr rfl) fun _ _ => rfl
  split
  · obtain ⟨h', hcharge, γ', hr', hkept'⟩ := hkept.closeStep hours hr call rfl
    exact ⟨γ', hrest false γ' h' hcharge hr', hkept'⟩
  split
  swap
  · obtain ⟨h', hcharge, γ', hr', hkept'⟩ := hkept.closeStep hours hr call rfl
    exact ⟨γ', hrest true γ' h' hcharge hr', hkept'⟩
  -- The counter in memory is lowered with the charge.
  rename_i hisOpen hpos hshared
  have hkey := hr.2.key
  rcases hkept with htwice | ⟨a, hs⟩
  · exact ⟨g j, hrest false _ h rfl hr, .inl (htwice.trans count_le_begun)⟩
  have hhandle : p.fees.handles j = some h := (hs.handle j hours).trans hr.1
  have hopen : h.closedBy = none := by
    rw [isOpen_eq hhandle] at hisOpen
    simpa using hisOpen
  obtain ⟨x, seen, hticket, -, hseen, hwhole⟩ := hr.2.ticket (by simpa using hshared)
  obtain rfl := hwhole hopen
  have hnonneg := Handle.counted_nonneg (h := { h with closedBy := some call }) hr.2.bid
  have hready : Ready env max day
      { wallet := Function.update (g j).wallet (feeDayKey env day)
          (some ⟨h.charge.bidStroops - stroops, seen⟩)
        handle := some { h with closedBy := some call } } { h with closedBy := some call } := by
    refine ⟨rfl, hkey, hr.2.bid, fun _ => ⟨_, seen, Function.update_self .., hcounted.le, hseen, ?_⟩⟩
    exact fun hnone => absurd hnone (by simp)
  refine ⟨_, hrest false _ { h with closedBy := some call } rfl hready, ?_⟩
  refine FeeKept.lower (b := stroops) (.inr ⟨a, hs⟩) hours 0 hticket (by omega) (by omega) ?_
    (fun k hk => Function.update_of_ne hk ..) (fun _ => ?_) rfl fun h' hh' => ?_
  · rw [← hkey]
    rfl
  · change (p.fees.close j call).handles j = _
    rw [FeeMemory.close, hhandle]
    refine (Function.update_self ..).trans ?_
    rw [Option.map_some, hopen, Option.none_or]
  · cases hh'
    exact hready.2

theorem wp_callLocal (hours : Ours day fee home v j) (hr : Ready env max day γ h)
    (call : SettleCall) (hQ : ∀ γ' h', h'.charge = h.charge → Ready env max day γ' h' → Q () γ') :
    (feesPact env max day fee home v).wp (backend _) home (.inr j)
      (inFees (h.charge.call j call)) Q γ := by
  cases call with
  | notIncluded => exact wp_giveBackLocal hours hr (sub_self _).symm hQ
  | settled feeCharged =>
    unfold FeeCharge.call FeeCharge.settled
    dsimp only
    split
    · exact wp_closeLocal hours hr _ hQ
    rename_i charged hcharged
    split
    · exact wp_closeLocal hours hr _ hQ
    rename_i hle
    refine wp_giveBackLocal hours hr ?_ hQ
    rw [Handle.counted]
    simp only [hcharged, if_neg hle, sub_sub_cancel]

theorem wp_callsLocal (hours : Ours day fee home v j) (hr : Ready env max day γ h)
    (cs : List SettleCall) (hQ : ∀ γ, Q () γ) :
    (feesPact env max day fee home v).wp (backend _) home (.inr j)
      (inFees (h.charge.calls j cs)) Q γ := by
  induction cs generalizing γ h with
  | nil => exact hQ γ
  | cons c cs ih =>
    unfold FeeCharge.calls inFees
    rw [Prog.within_bind, Pact.wp_bind]
    refine wp_callLocal hours hr c fun γ' h' hcharge hr' => ?_
    rw [← hcharge]
    exact ih hr'

theorem wp_countFeeLocal (hours : Ours day fee home v j) {bid : ℤ} (hbid : 0 ≤ bid) :
    (feesPact env max day fee home v).wp (backend _) home (.inr j)
      (inFees (countFee env bid (fee j).now))
      (fun o γ => γ.handle = none ∧ (o.2 = false →
        γ.wallet (feeDayKey env day) = some ⟨bid, o.1⟩)) .fresh := by
  have hkey : feeDayKey env (fee j).now = feeDayKey env day := feeDayKey_inj.mpr hours.2
  have hlocal : (feesPact env max day fee home v).wp (backend _) home (.inr j)
      (inFees do
        let total ← atomically fun m => m.addFees bid (feeDayKey env (fee j).now) bid
        return (total, false))
      (fun o γ => γ.handle = none ∧ (o.2 = false →
        γ.wallet (feeDayKey env day) = some ⟨bid, o.1⟩)) .fresh := by
    unfold inFees
    rw [Prog.within_bind, Pact.wp_bind, hkey]
    refine wp_atomicallyFees hours.1 fun p g hkept hg => ?_
    exact ⟨_, ⟨rfl, fun _ => Payer.put_self⟩, hkept.take hours hg hbid⟩
  unfold countFee
  dsimp only
  split
  · exact hlocal
  · unfold inFees
    rw [Prog.within_bind, Pact.wp_bind]
    refine wp_feeAside (L := fun _ => False) does_addToDays fun o _ => ?_
    split
    · exact ⟨rfl, Bool.noConfusion⟩
    · exact hlocal

theorem wp_chargeLocal (hours : Ours day fee home v j) :
    (feesPact env max day fee home v).wp (backend _) home (.inr j)
      (inFees (chargeSponsorFee env max j (fee j).feeBid (fee j).now))
      (fun o γ => ∀ charge, o = .ok charge → Ready env max day γ ⟨charge, none⟩) .fresh := by
  have hkey : feeDayKey env (fee j).now = feeDayKey env day := feeDayKey_inj.mpr hours.2
  unfold chargeSponsorFee inFees
  split
  · intro charge h
    cases h
  rename_i bid hbid
  have hnonneg := toStroops_nonneg hbid
  rw [Prog.within_bind, Pact.wp_bind]
  refine Pact.wp_mono ?_ (wp_countFeeLocal hours hnonneg)
  rintro ⟨total, shared⟩ γ ⟨hnone, hticket⟩
  dsimp only at hticket ⊢
  split
  · have hrefused : ∀ γ, (feesPact env max day fee home v).wp (backend _) home (.inr j)
        (inFees (pure (.error (.refusal feeBudgetRefusal)) :
          Task (FeeMemory κ) FeeStage (Except FeeError FeeCharge)))
        (fun o γ => ∀ charge, o = .ok charge → Ready env max day γ ⟨charge, none⟩) γ := by
      intro γ charge h
      cases h
    split
    · rw [Prog.within_bind, Pact.wp_bind]
      exact wp_feeAside (L := fun _ => False) does_addToDays fun _ _ => hrefused γ
    -- Nothing was signed: the bid goes back to the counter in memory.
    rename_i hshared
    rw [hkey, Prog.within_bind, Pact.wp_bind]
    refine wp_atomicallyFees hours.1 fun p g hkept hg => ?_
    subst hg
    refine ⟨{ g j with
      wallet := Function.update (g j).wallet (feeDayKey env day) (some ⟨bid - bid, total⟩) },
      hrefused _, ?_⟩
    refine hkept.lower hours (-bid) (hticket (by simpa using hshared)) hnonneg le_rfl rfl
      (fun _ _ => rfl) id rfl fun h hh => ?_
    rw [hnone] at hh
    cases hh
  · rename_i hle
    rw [Prog.within_bind, Pact.wp_bind]
    refine wp_atomicallyFees hours.1 fun p g hkept hg => ?_
    subst hg
    have hready : Ready env max day
        { g j with handle := some ⟨⟨total, shared, bid, feeDayKey env (fee j).now⟩, none⟩ }
        ⟨⟨total, shared, bid, feeDayKey env (fee j).now⟩, none⟩ := by
      refine ⟨rfl, hkey, hnonneg, fun hshared => ?_⟩
      exact ⟨bid, total, hticket hshared, le_rfl, not_lt.mp hle, fun _ => rfl⟩
    refine ⟨{ g j with handle := some ⟨_, none⟩ }, fun charge h => ?_,
      hkept.remember rfl (fun k hk => Function.update_of_ne hk ..) (Function.update_self ..) rfl
        fun h hh => ?_⟩
    · cases h
      exact hready
    · cases hh
      exact hready.2

/-! ## Requests that leave the day alone -/

section

variable {L : FeeStage → Prop} {m : FeeMemory κ}

omit [DecidableEq ι] [DecidableEq ν] [DecidableEq κ] [Fintype κ] in
theorem feeAside_refl {n : ι ⊕ κ} : FeeAside env day fee home v n m m :=
  fun _ => ⟨.inr rfl, fun _ _ => rfl⟩

omit [DecidableEq ι] [DecidableEq ν] [Fintype κ] in
/-- Only the handle of a request that is not of the day changes. -/
theorem feeAside_handle (hours : ¬Ours day fee home v j) {o : Option Handle} :
    FeeAside env day fee home v (.inr j) m { m with handles := Function.update m.handles j o } := by
  refine fun _ => ⟨.inr rfl, fun k hk => Function.update_of_ne ?_ ..⟩
  rintro rfl
  exact hours hk

omit [DecidableEq ι] [DecidableEq ν] [DecidableEq κ] [Fintype κ] in
/-- The counter is for another day, or stays. -/
theorem feeAside_counters (hours : ¬Ours day fee home v j) {m' : FeeMemory κ} {n gross : ℤ}
    {key : String} (hkey : key = feeDayKey env (fee j).now)
    (hm : FeeAside env day fee home v (.inr j) m m') :
    FeeAside env day fee home v (.inr j) m (m'.addFees n key gross).1 := by
  intro hhome
  obtain ⟨hcounters, hhandles⟩ := hm hhome
  refine ⟨?_, hhandles⟩
  have hne : feeDayKey env (fee j).now ≠ feeDayKey env day := by
    intro h
    exact hours ⟨hhome, feeDayKey_inj.mp h⟩
  change (m'.counters.addToLocalFees n key gross).1.localFeeDay ≠ _ ∨
    (m'.counters.addToLocalFees n key gross).1 = _
  by_cases h : m'.counters.localFeeDay = key ∨ 0 ≤ n
  · rw [LocalFees.localFeeDay_addToLocalFees h, hkey]
    exact .inl hne
  · obtain ⟨hday, hneg⟩ := not_or.mp h
    rwa [LocalFees.addToLocalFees_of_ne hday (not_le.mp hneg)]

omit [DecidableEq ι] [DecidableEq ν] [DecidableEq κ] [Fintype κ] in
theorem does_countFee (hours : ¬Ours day fee home v j) {n : ℤ} :
    (countFee env n (fee j).now).Does (FeeAside env day fee home v (.inr j)) L fun _ => True := by
  have hlocal : (do
      let total ← atomically fun m : FeeMemory κ => m.addFees n (feeDayKey env (fee j).now) n
      return (total, false) : Task (FeeMemory κ) FeeStage (ℤ × Bool)).Does
        (FeeAside env day fee home v (.inr j)) L fun _ => True :=
    fun m => ⟨feeAside_counters hours rfl feeAside_refl, trivial⟩
  unfold countFee
  dsimp only
  split
  · exact hlocal
  · refine does_addToDays.bind fun o _ => ?_
    split
    · trivial
    · exact hlocal

omit [DecidableEq ι] [DecidableEq ν] [Fintype κ] in
theorem does_chargeSponsorFee (hours : ¬Ours day fee home v j) {bid : Fee} :
    (chargeSponsorFee env max j bid (fee j).now).Does (FeeAside env day fee home v (.inr j)) L
      fun o => ∀ charge, o = .ok charge → charge.key = feeDayKey env (fee j).now := by
  have hrefused : ∀ e : FeeError, (pure (.error e) :
      Task (FeeMemory κ) FeeStage (Except FeeError FeeCharge)).Does
        (FeeAside env day fee home v (.inr j)) L
        fun o => ∀ charge, o = .ok charge → charge.key = feeDayKey env (fee j).now := by
    intro e charge h
    cases h
  unfold chargeSponsorFee
  split
  · exact hrefused _
  refine (does_countFee hours).bind fun counted _ => ?_
  dsimp only
  split
  · split
    · exact does_addToDays.bind fun _ _ => hrefused _
    · exact fun m => ⟨feeAside_counters hours rfl feeAside_refl, hrefused _⟩
  · refine fun m => ⟨feeAside_handle hours, fun charge h => ?_⟩
    cases h
    rfl

omit [DecidableEq ι] [DecidableEq ν] [Fintype κ] in
theorem does_giveBack (hours : ¬Ours day fee home v j) {charge : FeeCharge}
    (hkey : charge.key = feeDayKey env (fee j).now) {call : SettleCall} {stroops : ℤ} :
    (charge.giveBack j call stroops).Does (FeeAside env day fee home v (.inr j)) L fun _ => True := by
  have hstep : ∀ m : FeeMemory κ, FeeAside env day fee home v (.inr j) m
      (if (!m.isOpen j) = true then (m, false)
      else if stroops ≤ 0 then (m.close j call, false)
      else if (!charge.shared) = true then
        (((m.close j call).addFees (-stroops) charge.key 0).1, false)
      else (m.close j call, true)).1 := by
    intro m
    split
    · exact feeAside_refl
    split
    · exact feeAside_handle hours
    split
    · exact feeAside_counters hours hkey (feeAside_handle hours)
    · exact feeAside_handle hours
  have hrest : ∀ proceed : Bool, (if proceed = true then do
      let _ ← addToDays [charge.key] (-stroops)
    else pure () : Task (FeeMemory κ) FeeStage Unit).Does
      (FeeAside env day fee home v (.inr j)) L fun _ => True := by
    intro proceed
    split
    · exact does_addToDays.bind fun _ _ => trivial
    · trivial
  exact fun m => ⟨hstep m, hrest _⟩

omit [DecidableEq ι] [DecidableEq ν] [Fintype κ] in
theorem does_call (hours : ¬Ours day fee home v j) {charge : FeeCharge}
    (hkey : charge.key = feeDayKey env (fee j).now) (call : SettleCall) :
    (charge.call j call).Does (FeeAside env day fee home v (.inr j)) L fun _ => True := by
  cases call with
  | notIncluded => exact does_giveBack hours hkey
  | settled feeCharged =>
    unfold FeeCharge.call FeeCharge.settled
    dsimp only
    split
    · exact fun m => ⟨feeAside_handle hours, trivial⟩
    split
    · exact fun m => ⟨feeAside_handle hours, trivial⟩
    · exact does_giveBack hours hkey

omit [DecidableEq ι] [DecidableEq ν] [Fintype κ] in
theorem does_calls (hours : ¬Ours day fee home v j) {charge : FeeCharge}
    (hkey : charge.key = feeDayKey env (fee j).now) (cs : List SettleCall) :
    (charge.calls j cs).Does (FeeAside env day fee home v (.inr j)) L fun _ => True := by
  induction cs with
  | nil => trivial
  | cons c cs ih => exact (does_call hours hkey c).bind fun _ _ => ih

omit [DecidableEq ι] [DecidableEq ν] [Fintype κ] in
theorem does_feeRequest (hours : ¬Ours day fee home v j) :
    (feeRequest env max j (fee j)).Does (FeeAside env day fee home v (.inr j)) (fun _ => True)
      fun _ => True := by
  refine ⟨trivial, (does_chargeSponsorFee hours).bind fun o ho => ?_⟩
  split
  · trivial
  · rename_i charge
    exact (does_calls hours (ho charge rfl) _).bind fun _ _ => trivial

end

/-! ## Requests -/

theorem wp_feeTask : (feesPact env max day fee home v).wp (backend _) home (.inr j)
    (feeTask env max j (fee j)) (fun _ _ => True) .fresh := by
  unfold feeTask
  rw [Pact.wp_bind]
  by_cases hours : Ours day fee home v j
  · refine ⟨trivial, trivial, _, Pact.Turns.refl, ?_⟩
    rw [Prog.within_bind, Pact.wp_bind]
    refine Pact.wp_mono ?_ (wp_chargeLocal hours)
    intro o γ ho
    split
    · exact trivial
    · rename_i charge
      rw [Prog.within_bind, Pact.wp_bind]
      exact wp_callsLocal hours (ho charge rfl) _ fun _ => trivial
  · exact wp_feeAside (does_feeRequest hours) fun _ _ => trivial

/-- Account requests do not touch the counter of fees. -/
theorem wp_accountTask_fees {env' : Env} {valid : String → Bool} {budget : OnboardingBudget} {i : ι}
    {r : OnboardingRequest} : (feesPact env max day fee home v).wp (backend _) home (.inl i)
      (accountTask env' valid budget r) (fun _ _ => True) γ := by
  unfold accountTask
  rw [Pact.wp_bind]
  refine Pact.wp_within Prog.Does.anything (fun μ g m _ hkept => ?_) (fun _ _ => trivial)
    fun _ _ => trivial
  rcases eq_or_ne v (home (.inl i)) with heq | hne
  · subst heq
    rw [Function.update_self]
    exact hkept.setAccounts
  · rwa [Function.update_of_ne hne]

end

end Lumenia.Sponsor
