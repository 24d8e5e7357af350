import Lumenia.Sponsor.OutageAccounts

/-!
# What account requests do to the counters of one process

One lemma for each function of the onboarding budget, in the logic of `Theory.Pacts`, for a process
and a UTC day. A request of another process or another day leaves what is kept for the day as it is
(`Prog.Does`); a request of the day moves its own slot.
-/

namespace Lumenia.Sponsor

open Ticket OnboardingRequest

/-! ## Requests that leave the day alone -/

section

variable {M ε : Type} {S : M → M → Prop} {L : ε → Prop} {env : Env} {valid : String → Bool}
  {budget : OnboardingBudget} {r : OnboardingRequest}

theorem does_pipeline {cmds : List Cmd} :
    (pipeline cmds : Task M ε _).Does S L fun _ => True := fun _ => trivial

/-- What is held does nothing but `S` when it is claimed or given back. -/
def Held.Does (S : M → M → Prop) (L : ε → Prop) : Held M ε → Prop
  | .repeated _ => True
  | .slot h => (∀ p, h.stamp = some p → p.Does S L fun _ => True) ∧
      ∀ stamped, (h.giveBack stamped).Does S L fun _ => True

/-- A verdict whose release does nothing but `S`. -/
def CapVerdict.Does (S : M → M → Prop) (L : ε → Prop) (v : CapVerdict M ε) : Prop :=
  ∀ p, v.release = some p → p.Does S L fun _ => True

theorem does_asRepeat {marker : String} :
    (asRepeat env r marker : Task M ε _).Does S L fun _ => True := by
  refine does_pipeline.bind fun set _ => ?_
  split
  · trivial
  · trivial
  · refine does_pipeline.bind fun back _ => ?_
    split <;> trivial

theorem does_sharedSlot {totals : List ℤ} :
    (Held.slot (sharedSlot env valid r totals) : Held M ε).Does S L := by
  refine ⟨fun p hp => ?_, fun stamped => does_pipeline.bind fun _ _ => trivial⟩
  obtain ⟨marker, -, rfl⟩ := Option.map_eq_some_iff.mp hp
  refine does_pipeline.bind fun set _ => ?_
  split
  · trivial
  · trivial
  · refine does_asRepeat.bind fun o _ => ?_
    split <;> trivial

theorem does_reserve : (reserve env valid r : Task M ε _).Does S L
    fun o => ∀ held, o = .ok held → held.Does S L := by
  refine does_pipeline.bind fun results _ => ?_
  split
  · intro held h
    cases h
  · refine does_asRepeat.bind fun o _ => ?_
    split
    · intro held h
      cases h
      trivial
    · refine does_pipeline.bind fun replies _ held h => ?_
      unfold Except.map at h
      split at h
      · cases h
      · cases h
        exact does_sharedSlot
  · intro held h
    cases h
    exact does_sharedSlot

theorem does_repeatVerdict {repeats : ℤ} :
    (repeatVerdict repeats : CapVerdict M ε).Does S L := by
  intro p hp
  unfold repeatVerdict at hp
  split at hp
  · cases hp
  · cases hp
    trivial

theorem does_settle {held : Held M ε} (h : held.Does S L) :
    (settle budget held).Does S L (CapVerdict.Does S L) := by
  cases held with
  | repeated repeats => exact does_repeatVerdict
  | slot held =>
    obtain ⟨hstamp, hgiveBack⟩ := h
    unfold settle
    dsimp only
    split
    · exact (hgiveBack false).bind fun _ _ p hp => by cases hp
    split
    · exact (hgiveBack false).bind fun _ _ p hp => by cases hp
    cases hs : held.stamp with
    | none =>
      intro p hp
      cases hp
      exact hgiveBack false
    | some p =>
      refine (hstamp p hs).bind fun st _ => ?_
      cases st with
      | stamped fenced =>
        intro p hp
        cases hp
        exact hgiveBack fenced
      | repeated repeats => exact does_repeatVerdict

end

section

variable {ι : Type} {env : Env} {valid : String → Bool} {budget : OnboardingBudget}
  {day : Instant} {r : OnboardingRequest} {L : Onboarding → Prop} {m m' : Isolate} {marker : String}

/-- The day of the process is another one. -/
theorem aside_of_other (hday : ¬r.On day) (hm : m'.localDay = r.dayGlobalKey env) :
    Aside env valid day ι m m' := by
  refine .inl fun h => ?_
  rw [hm] at h
  exact hday (accountDayKey_inj.mp h)

theorem aside_pinned (hday : ¬r.On day) (hmarker : r.marker env valid = some marker)
    {token : Option String} : Aside env valid day ι m (m.pinned marker token) :=
  .inr ⟨rfl, fun _ h => h.pinned_of_not_on hday hmarker⟩

theorem aside_giveBack (hday : ¬r.On day) (h : Aside env valid day ι m m') :
    Aside env valid day ι m (m'.addToLocalDays (r.keys env) (-1) (r.dayGlobalKey env)).1 := by
  rcases eq_or_ne m'.localDay (r.dayGlobalKey env) with heq | hne
  · exact aside_of_other hday (Isolate.localDay_addToLocalDays.trans heq)
  · rwa [Isolate.addToLocalDays_of_ne hne]

theorem aside_refl : Aside env valid day ι m m := .inr ⟨rfl, fun _ h => h⟩

theorem does_degrade (hday : ¬r.On day) :
    (degrade env valid r).Does (Aside env valid day ι) L (Held.Does (Aside env valid day ι) L) := by
  intro m
  have hroll : (m.rollLocalDay (r.dayGlobalKey env)).localDay = r.dayGlobalKey env :=
    Isolate.localDay_rollLocalDay
  have hadd : ((m.rollLocalDay (r.dayGlobalKey env)).addToLocalDays (r.keys env) 1
      (r.dayGlobalKey env)).1.localDay = r.dayGlobalKey env := by
    rw [Isolate.addToLocalDays_of_eq hroll, Isolate.localDay_addLocal, hroll]
  have hback : ∀ m, Aside env valid day ι m
      (m.addToLocalDays (r.keys env) (-1) (r.dayGlobalKey env)).1 :=
    fun m => aside_giveBack hday aside_refl
  dsimp only
  split
  · rename_i marker hmarker
    split
    · exact ⟨aside_of_other hday hroll, trivial⟩
    · refine ⟨aside_of_other hday hadd, fun p hp => ?_, fun stamped m => ⟨?_, trivial⟩⟩
      · cases hp
        exact fun m => ⟨aside_pinned hday hmarker, trivial⟩
      · cases stamped with
        | false => exact hback m
        | true =>
          dsimp only
          rw [if_pos rfl]
          split
          · exact aside_refl
          · exact aside_giveBack hday (aside_pinned hday hmarker)
  · refine ⟨aside_of_other hday hadd, fun p hp => ?_, fun _ m => ⟨hback m, trivial⟩⟩
    cases hp

theorem does_withoutStore (hday : ¬r.On day) :
    (withoutStore env valid budget r).Does (Aside env valid day ι) L
      fun o => o.1.Does (Aside env valid day ι) L := by
  unfold withoutStore
  split
  · intro p hp
    cases hp
  · exact (does_degrade hday).bind fun held h => (does_settle h).bind fun v hv => hv

theorem does_checkOnboardingBudget (hday : ¬r.On day) :
    (checkOnboardingBudget env valid budget r).Does (Aside env valid day ι) L
      fun o => o.1.Does (Aside env valid day ι) L := by
  unfold checkOnboardingBudget
  split
  · exact does_withoutStore hday
  · refine does_reserve.bind fun o ho => ?_
    split
    · exact does_withoutStore hday
    · rename_i held
      exact (does_settle (ho held rfl)).bind fun v hv => hv

theorem does_onboardingRequest (hday : ¬r.On day) :
    (onboardingRequest env valid budget r).Does (Aside env valid day ι) (fun _ => True)
      fun _ => True := by
  refine ⟨trivial, (does_checkOnboardingBudget hday).bind fun o ho => ?_⟩
  dsimp only
  split
  · refine ⟨trivial, ?_⟩
    cases hrelease : o.1.release with
    | none => trivial
    | some p => exact (ho p hrelease).bind fun _ _ => trivial
  · trivial

end

/-! ## Requests of the day -/

section

variable {ι κ ν : Type} [DecidableEq ι] [DecidableEq κ] [DecidableEq ν] [Fintype ι] (env : Env)
  (valid : String → Bool) (day : Instant) (budget : OnboardingBudget) (req : ι → OnboardingRequest)
  (home : ι ⊕ κ → ν) (v : ν)

/-- What a label says of a request that the counter in memory has judged. -/
def OnboardingRequest.Admitted (r : OnboardingRequest) (γ : Claimant) : Onboarding → Prop
  | .served false .isolate => r.Within env budget γ
  | .served true .isolate => γ.backed = true
  | _ => True

/-- What a label says in the process, about the day. -/
def AccountShown (n : ι ⊕ κ) (γ : Claimant) : Shown → Prop
  | .account e => ∀ i, n = .inl i → home n = v → (req i).On day → (req i).Admitted env budget γ e
  | .fee _ => True

def accountsPact : Pact (ι ⊕ κ) ν (Process κ) (Store (ι ⊕ κ)) Claimant Fault Shown :=
  Pact.inMemories _ _ (fun μ g => Kept env valid day budget req (μ v) (g ∘ Sum.inl))
    fun n e γ => AccountShown env day budget req home v n γ e

variable {env valid day budget req home v} {i : ι} {n : ι ⊕ κ} {γ : Claimant} {α : Type}

/-- The program of an account request inside its process. -/
abbrev inProcess (p : Task Isolate Onboarding α) : Task (Process κ) Shown α :=
  p.within Process.accounts Process.setAccounts .account

/-- Requests of another process or another day. -/
theorem wp_aside {p : Task Isolate Onboarding α} {L : Onboarding → Prop} {A : α → Prop}
    (hp : p.Does (fun m m' => home n = v → Aside env valid day ι m m') L A)
    (hL : ∀ e, L e → AccountShown env day budget req home v n γ (.account e))
    {Q : α → Claimant → Prop} (hQ : ∀ a, A a → Q a γ) :
    (accountsPact env valid day budget req home v).wp (backend _) home n (inProcess p) Q γ := by
  refine Pact.wp_within hp (fun μ g m hm hkept => ?_) hL hQ
  rcases eq_or_ne v (home n) with heq | hne
  · rw [heq, Function.update_self]
    exact (heq ▸ hkept).aside (hm heq.symm)
  · rwa [Function.update_of_ne hne]

/-- A stretch of code over the counters of the process. -/
theorem wp_atomically {f : Isolate → Isolate × α} {Q : α → Claimant → Prop}
    (hhome : home (.inl i) = v)
    (h : ∀ (p : Process κ) g, Kept env valid day budget req p g → g i = γ → ∃ γ',
      Q (f p.accounts).2 γ' ∧
        Kept env valid day budget req (p.setAccounts (f p.accounts).1) (Function.update g i γ')) :
    (accountsPact env valid day budget req home v).wp (backend _) home (.inl i)
      (inProcess (atomically f)) Q γ := by
  refine Pact.wpMem_inMemories fun μ g hkept hg => ?_
  subst hhome
  obtain ⟨γ', hQ, hkept'⟩ := h (μ (home (.inl i))) (g ∘ Sum.inl) hkept hg
  refine ⟨γ', ?_, hQ⟩
  rw [Function.update_self, Sum.update_inl_comp_inl]
  exact hkept'

variable (env valid day budget req home v) in
/-- The program gives a slot back, or leaves it. -/
def Returns (i : ι) (p : Task Isolate Onboarding Unit) (γ : Claimant) : Prop :=
  ∀ Q : Unit → Claimant → Prop, (∀ γ, Q () γ) →
    (accountsPact env valid day budget req home v).wp (backend _) home (.inl i) (inProcess p) Q γ

omit [DecidableEq ι] [Fintype ι] in
theorem ne_fresh_of_stands {r : OnboardingRequest} (h : r.Stands env γ) : γ ≠ .fresh := by
  rintro rfl
  obtain ⟨_, _, _, _, hs, -⟩ := h
  cases hs

theorem returns_slot (hhome : home (.inl i) = v) (hday : (req i).On day) (hfenced : γ.fenced = false)
    (hstands : (req i).Stands env γ) {f : Isolate → Isolate × Unit}
    (hf : ∀ m, (f m).1 = (m.addToLocalDays ((req i).keys env) (-1) ((req i).dayGlobalKey env)).1) :
    Returns env valid day budget req home v i (atomically f) γ := by
  intro Q hQ
  refine wp_atomically hhome fun p g hkept hg => ?_
  subst hg
  have hsame : (f p.accounts).1.localDay = p.accounts.localDay := by
    rw [hf]
    exact Isolate.localDay_addToLocalDays
  refine hkept.stay (R := fun γ' => Q (f p.accounts).2 γ') (ne_fresh_of_stands hstands) hsame
    ⟨g i, hQ _⟩ (fun a htally hday' hagree => ?_) fun a htally hne => ?_
  · obtain ⟨γ', a', htally', hagree'⟩ := htally.dropSlot hagree hfenced hstands hday
    refine ⟨γ', a', hQ _, htally', ?_⟩
    rw [hf, Isolate.addToLocalDays_of_eq (hday'.trans hday.dayGlobalKey.symm), addLocal_keys]
    exact hagree'
  · refine ⟨g i, a, hQ _, ?_⟩
    rwa [Function.update_eq_self]

/-- The release of a slot whose marker the request has stamped. -/
theorem returns_fenced (hhome : home (.inl i) = v) (hday : (req i).On day)
    (hstands : (req i).Stands env γ) {marker : String}
    (hmarker : (req i).marker env valid = some marker) {f : Isolate → Isolate × Unit}
    (hkeep : ∀ m, m.localPubkeys marker ≠ some (req i).token → (f m).1 = m)
    (hback : ∀ m, m.localPubkeys marker = some (req i).token → (f m).1 =
      ((m.pinned marker none).addToLocalDays ((req i).keys env) (-1) ((req i).dayGlobalKey env)).1) :
    Returns env valid day budget req home v i (atomically f) γ := by
  intro Q hQ
  refine wp_atomically hhome fun p g hkept hg => ?_
  subst hg
  have hstill : ∀ a, Tally env valid budget req a g →
      Tally env valid budget req a (Function.update g i (g i)) := by
    intro a htally
    rwa [Function.update_eq_self]
  have hsame : (f p.accounts).1.localDay = p.accounts.localDay := by
    by_cases hown : p.accounts.localPubkeys marker = some (req i).token
    · rw [hback _ hown, Isolate.localDay_addToLocalDays]
      rfl
    · rw [hkeep _ hown]
  refine hkept.stay (R := fun γ' => Q (f p.accounts).2 γ') (ne_fresh_of_stands hstands) hsame
    ⟨g i, hQ _⟩ (fun a htally hday' hagree => ?_)
    fun a htally _ => ⟨g i, a, hQ _, hstill a htally⟩
  by_cases hown : p.accounts.localPubkeys marker = some (req i).token
  · obtain ⟨γ', a', htally', hagree'⟩ := htally.releaseSlot hagree hmarker hown hstands hday
    refine ⟨γ', a', hQ _, htally', ?_⟩
    have hsameDay : (p.accounts.pinned marker none).localDay = (req i).dayGlobalKey env :=
      hday'.trans hday.dayGlobalKey.symm
    rw [hback _ hown, Isolate.addToLocalDays_of_eq hsameDay, addLocal_keys]
    exact hagree'
  · refine ⟨g i, a, hQ _, hstill a htally, ?_⟩
    rwa [hkeep _ hown]

/-- A request within the limits stamps its marker. -/
theorem wp_localStamp (hhome : home (.inl i) = v)
    (htoken : Function.Injective fun i => (req i).token) (hfenced : γ.fenced = false)
    (hwithin : (req i).Within env budget γ) {marker : String}
    (hmarker : (req i).marker env valid = some marker) {Q : Stamp → Claimant → Prop}
    (hQ : Q (.stamped true) { γ with fenced := true }) :
    (accountsPact env valid day budget req home v).wp (backend _) home (.inl i)
      (inProcess (atomically fun m => (m.pinned marker (some (req i).token), .stamped true))) Q γ := by
  refine wp_atomically hhome fun p g hkept hg => ?_
  subst hg
  refine hkept.stay (m := p.accounts.pinned marker (some (req i).token))
    (R := fun γ' => Q (.stamped true) γ') (ne_fresh_of_stands ⟨_, _, hwithin⟩) rfl
    ⟨_, hQ⟩ (fun a htally _ hagree => ?_) fun a htally _ => ?_
  · exact ⟨_, _, hQ, htally.claim hfenced htoken hmarker hwithin, hagree.written hmarker⟩
  · exact ⟨_, _, hQ, htally.claim hfenced htoken hmarker hwithin⟩

variable (env valid day budget req home v) in
/-- What a request of the day holds in memory: its slot, with the totals it found. -/
structure LocalSlot (i : ι) (h : HeldSlot Isolate Onboarding) (γ : Claimant) : Prop where
  totals : ∃ s d, h.totals = [s, d] ∧ (req i).Slot env γ s d
  back : Returns env valid day budget req home v i (h.giveBack false) γ
  stamp : ∀ p, h.stamp = some p → (req i).Within env budget γ →
    (accountsPact env valid day budget req home v).wp (backend _) home (.inl i) (inProcess p)
      (fun st γ' => ∃ fenced, st = .stamped fenced ∧ (req i).Within env budget γ' ∧
        Returns env valid day budget req home v i (h.giveBack fenced) γ') γ

variable (env valid day budget req home v) in
def LocalHeld (i : ι) : Held Isolate Onboarding → Claimant → Prop
  | .repeated _, γ => γ.backed = true
  | .slot h, γ => LocalSlot env valid day budget req home v i h γ

theorem wp_degradeLocal (hhome : home (.inl i) = v) (hday : (req i).On day)
    (htoken : Function.Injective fun i => (req i).token) :
    (accountsPact env valid day budget req home v).wp (backend _) home (.inl i)
      (inProcess (degrade env valid (req i))) (LocalHeld env valid day budget req home v i)
      .fresh := by
  unfold degrade
  refine wp_atomically hhome fun p g hkept hg => ?_
  have hD : (req i).dayGlobalKey env = accountDayKey env day := hday.dayGlobalKey
  have hroll : (p.accounts.rollLocalDay ((req i).dayGlobalKey env)).localDay =
      (req i).dayGlobalKey env := Isolate.localDay_rollLocalDay
  generalize hm : p.accounts.rollLocalDay ((req i).dayGlobalKey env) = m at hroll
  have hadd : m.addToLocalDays ((req i).keys env) 1 ((req i).dayGlobalKey env) =
      (m.moved env (req i) 1, [(m.localAccounts ((req i).sourceKey env)).getD 0 + 1,
        (m.localAccounts ((req i).dayGlobalKey env)).getD 0 + 1]) := by
    rw [Isolate.addToLocalDays_of_eq hroll, addLocal_keys]
  -- A slot is taken, with the totals that were read.
  have htaken : Kept env valid day budget req (p.setAccounts (m.moved env (req i) 1))
      (Function.update g i ((req i).slotted env
        ((m.localAccounts ((req i).sourceKey env)).getD 0 + 1)
        ((m.localAccounts ((req i).dayGlobalKey env)).getD 0 + 1))) := by
    refine hkept.enter (m := m.moved env (req i) 1) (hroll.trans hD) fun a htally hagree => ?_
    rw [← hD, hm] at hagree
    exact htally.takeSlot hagree hg hday
  have hstands : ∀ s d : ℤ, (req i).Stands env ((req i).slotted env s d) :=
    fun s d => ⟨s, d, slot_slotted⟩
  dsimp only
  split
  · rename_i marker hmarker
    split
    · rename_i hsome
      refine ⟨{ Claimant.fresh with backed := true }, rfl, Kept.enter hkept ?_ fun a htally hagree => ?_⟩
      · exact hroll.trans hD
      rw [← hD, hm] at hagree
      have hmarked : (a.kv marker).isSome = true := by
        rw [← hagree.marker _ hday _ hmarker, Option.isSome_map]
        exact hsome
      have hstamp := htally.restamp (i := i) (by rw [hg]; rfl) htoken hmarker hmarked
      rw [hg] at hstamp
      exact ⟨_, hstamp, Agrees.repeats (hagree.written hmarker)⟩
    · rw [hadd]
      refine ⟨_, ⟨⟨_, _, rfl, slot_slotted⟩, ?_, ?_⟩, htaken⟩
      · exact returns_slot hhome hday rfl (hstands _ _) fun m => rfl
      · rintro p ⟨⟩ hwithin
        refine wp_localStamp hhome htoken rfl hwithin hmarker ⟨true, rfl, hwithin, ?_⟩
        refine returns_fenced hhome hday ?_ hmarker (fun m hown => ?_) fun m hown => ?_
        · exact hstands _ _
        · rw [if_pos rfl, if_pos hown]
        · rw [if_pos rfl, if_neg (not_not.mpr hown)]
          rfl
  · rw [hadd]
    refine ⟨_, ⟨⟨_, _, rfl, slot_slotted⟩, ?_, ?_⟩, htaken⟩
    · exact returns_slot hhome hday rfl (hstands _ _) fun m => rfl
    · intro p hp
      cases hp

variable (env valid day budget req home v) in
/-- A verdict of the counter in memory: a repeat is backed and has nothing to release; a slot is
within the limits, and the release gives it back. -/
structure LocalVerdict (i : ι) (o : CapVerdict Isolate Onboarding) (γ : Claimant) : Prop where
  backed : o.isRepeat = true → γ.backed = true ∧ o.release = some (pure ())
  within : o.ok = true → o.isRepeat = false → (req i).Within env budget γ
  release : o.isRepeat = false → ∀ p, o.release = some p →
    Returns env valid day budget req home v i p γ

theorem localVerdict_repeat {repeats : ℤ} (h : γ.backed = true) :
    LocalVerdict env valid day budget req home v i (repeatVerdict repeats) γ := by
  unfold repeatVerdict
  split
  · exact ⟨Bool.noConfusion, Bool.noConfusion, fun _ p hp => by cases hp⟩
  · exact ⟨fun _ => ⟨h, rfl⟩, fun _ => Bool.noConfusion, Bool.noConfusion⟩

theorem wp_settleLocal {held : Held Isolate Onboarding}
    (h : LocalHeld env valid day budget req home v i held γ) :
    (accountsPact env valid day budget req home v).wp (backend _) home (.inl i)
      (inProcess (settle budget held)) (LocalVerdict env valid day budget req home v i) γ := by
  cases held with
  | repeated repeats => exact localVerdict_repeat h
  | slot held =>
    obtain ⟨⟨s, d, htotals, hslot⟩, hback, hstamp⟩ := h
    have hrefused : ∀ reason γ, LocalVerdict env valid day budget req home v i
        { ok := false, reason := reason } γ :=
      fun reason γ => ⟨Bool.noConfusion, Bool.noConfusion, fun _ p hp => by cases hp⟩
    unfold settle inProcess
    dsimp only
    split
    · rw [Prog.within_bind, Pact.wp_bind]
      exact hback _ fun γ => hrefused _ γ
    rename_i hsource
    split
    · rw [Prog.within_bind, Pact.wp_bind]
      exact hback _ fun γ => hrefused _ γ
    rename_i hday
    have hwithin : (req i).Within env budget γ := by
      obtain ⟨a, b, hs, hd, ha, hb⟩ := hslot
      have hp : s ≤ budget.maxDaySourceAccounts := by simpa [htotals] using hsource
      have hq : d ≤ budget.maxDayAccounts := by simpa [htotals] using hday
      exact ⟨a, b, hs, hd, ha.trans hp, hb.trans hq⟩
    cases hs : held.stamp with
    | none =>
      refine ⟨Bool.noConfusion, fun _ _ => hwithin, fun _ p hp => ?_⟩
      cases hp
      exact hback
    | some p =>
      dsimp only
      rw [Prog.within_bind, Pact.wp_bind]
      refine Pact.wp_mono ?_ (hstamp p hs hwithin)
      rintro st γ' ⟨fenced, rfl, hwithin', hreturns⟩
      refine ⟨Bool.noConfusion, fun _ _ => hwithin', fun _ p hp => ?_⟩
      cases hp
      exact hreturns

variable (env valid day budget req home v) in
/-- The verdict of the counter in memory, or one whose release leaves that counter alone. -/
def Checked (i : ι) (o : CapVerdict Isolate Onboarding × Counter) (γ : Claimant) : Prop :=
  o.2 = .isolate ∧ LocalVerdict env valid day budget req home v i o.1 γ ∨
    o.2 ≠ .isolate ∧ o.1.Does (fun m m' => home (.inl i) = v → Aside env valid day ι m m')
      fun _ => False

theorem wp_withoutStoreLocal (hhome : home (.inl i) = v) (hday : (req i).On day)
    (htoken : Function.Injective fun i => (req i).token) :
    (accountsPact env valid day budget req home v).wp (backend _) home (.inl i)
      (inProcess (withoutStore env valid budget (req i)))
      (Checked env valid day budget req home v i) .fresh := by
  unfold withoutStore
  split
  · refine .inr ⟨Counter.noConfusion, fun p hp => ?_⟩
    cases hp
  · unfold inProcess
    rw [Prog.within_bind, Pact.wp_bind]
    refine Pact.wp_mono ?_ (wp_degradeLocal hhome hday htoken)
    intro held γ hheld
    rw [Prog.within_bind, Pact.wp_bind]
    exact Pact.wp_mono (fun verdict γ hv => .inl ⟨rfl, hv⟩) (wp_settleLocal hheld)

theorem wp_checkLocal (hhome : home (.inl i) = v) (hday : (req i).On day)
    (htoken : Function.Injective fun i => (req i).token) :
    (accountsPact env valid day budget req home v).wp (backend _) home (.inl i)
      (inProcess (checkOnboardingBudget env valid budget (req i)))
      (Checked env valid day budget req home v i) .fresh := by
  unfold checkOnboardingBudget
  split
  · exact wp_withoutStoreLocal hhome hday htoken
  · unfold inProcess
    rw [Prog.within_bind, Pact.wp_bind]
    refine wp_aside does_reserve (fun _ => False.elim) fun o ho => ?_
    split
    · exact wp_withoutStoreLocal hhome hday htoken
    · rename_i held
      rw [Prog.within_bind, Pact.wp_bind]
      refine wp_aside (does_settle (ho held rfl)) (fun _ => False.elim) fun verdict hv => ?_
      exact .inr ⟨Counter.noConfusion, hv⟩

omit [DecidableEq ι] [DecidableEq κ] [DecidableEq ν] [Fintype ι] in
theorem accountShown_inl {e : Onboarding} (h : (req i).Admitted env budget γ e) :
    AccountShown env day budget req home v (.inl i : ι ⊕ κ) γ (.account e) := by
  rintro j hj - -
  cases hj
  exact h

theorem wp_accountTask (htoken : Function.Injective fun i => (req i).token) :
    (accountsPact env valid day budget req home v).wp (backend _) home (.inl i)
      (accountTask env valid budget (req i))
      (fun e γ => AccountShown env day budget req home v (.inl i) γ e) .fresh := by
  unfold accountTask
  rw [Pact.wp_bind]
  by_cases hours : home (.inl i) = v ∧ (req i).On day
  swap
  · -- Another process, or another day.
    have hdoes : (onboardingRequest env valid budget (req i)).Does
        (fun m m' => home (.inl i) = v → Aside env valid day ι m m') (fun _ => True)
        fun _ => True := by
      by_cases hday : (req i).On day
      · exact Prog.Does.anything.mono fun m m' _ hhome => absurd ⟨hhome, hday⟩ hours
      · exact (does_onboardingRequest hday).mono fun m m' h _ => h
    have hshown : ∀ e γ, AccountShown env day budget req home v (.inl i : ι ⊕ κ) γ (.account e) := by
      rintro e γ j hj hhome hday
      cases hj
      exact absurd ⟨hhome, hday⟩ hours
    exact wp_aside hdoes (fun e _ => hshown e _) fun e _ => hshown e _
  obtain ⟨hhome, hday⟩ := hours
  refine ⟨trivial, accountShown_inl trivial, _, Pact.Turns.refl, ?_⟩
  rw [Prog.within_bind, Pact.wp_bind]
  refine Pact.wp_mono ?_ (wp_checkLocal hhome hday htoken)
  intro o γ ho
  dsimp only
  split
  swap
  · exact accountShown_inl trivial
  rename_i hok
  have hadmitted : (req i).Admitted env budget γ (.served o.1.isRepeat o.2) := by
    rcases ho with ⟨hisolate, hv⟩ | ⟨hother, -⟩
    · rw [hisolate]
      cases hrepeat : o.1.isRepeat with
      | true => exact (hv.backed hrepeat).1
      | false => exact hv.within hok hrepeat
    · cases hcounter : o.2 with
      | shared => cases o.1.isRepeat <;> trivial
      | isolate => exact absurd hcounter hother
      | nobody => cases o.1.isRepeat <;> trivial
  refine ⟨trivial, accountShown_inl hadmitted, γ, Pact.Turns.refl, ?_⟩
  rw [Prog.within_bind, Pact.wp_bind]
  cases hrepeat : o.1.isRepeat with
  | true =>
    rw [hrepeat] at hadmitted
    rcases ho with ⟨-, hv⟩ | ⟨-, hdoes⟩
    · rw [(hv.backed hrepeat).2]
      exact accountShown_inl hadmitted
    · cases hrelease : o.1.release with
      | none => exact accountShown_inl hadmitted
      | some p => exact wp_aside (hdoes p hrelease) (fun _ => False.elim) fun _ _ =>
          accountShown_inl hadmitted
  | false =>
    cases hrelease : o.1.release with
    | none => exact accountShown_inl trivial
    | some p =>
      rcases ho with ⟨-, hv⟩ | ⟨-, hdoes⟩
      · exact hv.release hrepeat p hrelease _ fun γ => accountShown_inl trivial
      · exact wp_aside (hdoes p hrelease) (fun _ => False.elim) fun _ _ => accountShown_inl trivial

/-- Fee requests do not touch the counters of accounts. -/
theorem wp_feeTask_accounts {env' : Env} {max : ℕ} {j : κ} {r : FeeRequest} :
    (accountsPact env valid day budget req home v).wp (backend _) home (.inr j)
      (feeTask env' max j r) (fun e γ => AccountShown env day budget req home v (.inr j) γ e)
      γ := by
  unfold feeTask
  rw [Pact.wp_bind]
  refine Pact.wp_within Prog.Does.anything (fun μ g m _ hkept => ?_) (fun _ _ => trivial)
    fun _ _ => trivial
  rcases eq_or_ne v (home (.inr j)) with heq | hne
  · rw [heq, Function.update_self]
    exact (heq ▸ hkept).setFees
  · rwa [Function.update_of_ne hne]

end

end Lumenia.Sponsor
