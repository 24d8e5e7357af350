import Lumenia.Sponsor.OnboardingLogic

/-!
# The onboarding budget is never exceeded

Over a store that may lose any reply, the day's counter covers the distinct recipient keys to which
an account was handed out, and those that the shared counter was judged on stay within the budget
(`budget_never_reads_low`). Over a store that answers, repeats are bounded, and every one of them is
served on a counted slot that has not been given back (`repeats_backed`).
-/

namespace Lumenia.Sponsor

open Ticket OnboardingRequest

namespace Onboarding

/-- An account was handed out. -/
def isServed : Onboarding → Bool
  | .served _ _ => true
  | _ => false

/-- An account was handed out by the verdict of the shared counter. -/
def isShared : Onboarding → Bool
  | .served _ .shared => true
  | _ => false

/-- An account was handed out as a repeat. -/
def isRepeat : Onboarding → Bool
  | .served true _ => true
  | _ => false

/-- An account was handed out, and not as a repeat on the shared counter. -/
def isCharged : Onboarding → Bool
  | .served true .shared => false
  | e => e.isServed

/-- An account was handed out first, by the verdict of the shared counter. -/
def isFirst : Onboarding → Bool
  | .served false .shared => true
  | _ => false

end Onboarding

variable {ι ν : Type} [DecidableEq ι] [Fintype ι] [DecidableEq ν] (env : Env)
  (valid : String → Bool) (budget : OnboardingBudget)

abbrev Onboardings (ι ν : Type) := Sys ι ν Cmd KvReply Isolate Onboarding Onboarding (Store ι)

/-- The requests that show a label with `p` and have `P`. -/
def showing (req : ι → OnboardingRequest) (x : Onboardings ι ν) (p : Onboarding → Bool)
    (P : OnboardingRequest → Prop) [DecidablePred P] : Finset ι :=
  {i | (x.prog i).shows.any p = true ∧ P (req i)}

/-- The recipient keys of the requests that show a label with `p` and have `P`. -/
def recipients (req : ι → OnboardingRequest) (x : Onboardings ι ν) (p : Onboarding → Bool)
    (P : OnboardingRequest → Prop) [DecidablePred P] : Finset String :=
  (showing req x p P).image fun i => (req i).pubkey

theorem onboardings_sound {req : ι → OnboardingRequest} (hkv : env.kv = true)
    (htoken : Function.Injective fun i => (req i).token) (home : ι → ν) (lossy : Bool) {es : List (ι × Fault)}
    (hes : ∀ e ∈ es, lossy = true ∨ e.2 = .intact) :
    ∃ g, Tally env valid budget req ((onboardings env valid budget home req).final es).store g ∧
      ∀ i e, (((onboardings env valid budget home req).final es).prog i).shows = some e →
        (req i).Shows env budget lossy (g i) e := by
  obtain ⟨g, htally, hwp⟩ := Outline.sound (O := onboardingOutline env valid budget lossy req)
    (Q := (onboardingOutline env valid budget lossy req).shown) home
    ⟨Store.empty, fun _ => .fresh "", fun i => onboardingRequest env valid budget (req i)⟩
    Tally.empty (fun i => wp_onboardingRequest hkv htoken) hes
  exact ⟨g, htally, fun i e he => Outline.shown_of_wp (hwp i) he⟩

section

variable {env valid budget} {req : ι → OnboardingRequest} {s : Store ι} {g : ι → Claimant} {i : ι}

omit [DecidableEq ι] in
/-- Another request of the day and the key has a slot. -/
theorem holder_of_backed (h : Tally env valid budget req s g) (hi : (g i).backed = true) :
    ∃ j, (req j).On (req i).now ∧ (req j).pubkey = (req i).pubkey ∧ (g j).fenced = true ∧
      (req j).Within env budget (g j) := by
  obtain ⟨key, hkey, j, hj, -⟩ := h.backed hi
  obtain ⟨hday, hpubkey⟩ := marker_inj hj.marker hkey
  exact ⟨j, hday, hpubkey, hj.fenced, hj.within⟩

omit [DecidableEq ι] in
/-- Whoever is served on the shared counter, there is a slot within the limits for the key. -/
theorem holder_of_shared {lossy : Bool} (h : Tally env valid budget req s g) {e : Onboarding}
    (he : e.isShared = true) (hi : (req i).Shows env budget lossy (g i) e) :
    ∃ j, (req j).On (req i).now ∧ (req j).pubkey = (req i).pubkey ∧
      (req j).Within env budget (g j) := by
  match e with
  | .served false .shared => exact ⟨i, rfl, rfl, hi⟩
  | .served true .shared =>
    obtain ⟨n, -, hrepeated⟩ := hi
    obtain ⟨j, hday, hpubkey, -, hwithin⟩ := holder_of_backed h hrepeated.backed
    exact ⟨j, hday, hpubkey, hwithin⟩

omit [DecidableEq ι] in
/-- Whoever is served, there is a slot for the key. -/
theorem holder_of_served {lossy : Bool} (h : Tally env valid budget req s g) {e : Onboarding}
    (he : e.isServed = true) (hi : (req i).Shows env budget lossy (g i) e) :
    ∃ j, (req j).On (req i).now ∧ (req j).pubkey = (req i).pubkey ∧ (req j).Stands env (g j) := by
  match e with
  | .served _ .shared =>
    obtain ⟨j, hday, hpubkey, hwithin⟩ := holder_of_shared h rfl hi
    exact ⟨j, hday, hpubkey, _, _, hwithin⟩
  | .served true .isolate | .served false .isolate | .served true .nobody | .served false .nobody =>
    exact ⟨i, rfl, rfl, hi.2⟩

/-- Whoever is served other than as a repeat on the shared counter has a slot. -/
theorem stands_of_charged {lossy : Bool} {r : OnboardingRequest} {γ : Claimant} {e : Onboarding}
    (he : e.isCharged = true) (h : r.Shows env budget lossy γ e) : r.Stands env γ := by
  match e with
  | .served false .shared => exact ⟨_, _, h⟩
  | .served true .isolate | .served false .isolate | .served true .nobody | .served false .nobody =>
    exact h.2

/-- Over a store that answers, a repeat is one of the shared counter. -/
theorem repeated_of_isRepeat {r : OnboardingRequest} {γ : Claimant} {e : Onboarding}
    (he : e.isRepeat = true) (h : r.Shows env budget false γ e) :
    ∃ n, n ≤ maxRepeatsPerKey ∧ r.Repeated env false n γ := by
  match e with
  | .served true .shared => exact h
  | .served true .isolate | .served true .nobody => cases h.1

omit [DecidableEq ι] [DecidableEq ν] in
theorem mem_showing {x : Onboardings ι ν} {p : Onboarding → Bool} {P : OnboardingRequest → Prop}
    [DecidablePred P] {i : ι} :
    i ∈ showing req x p P ↔ (∃ e, (x.prog i).shows = some e ∧ p e = true) ∧ P (req i) := by
  simp [showing, Option.any_eq_true]

variable (req) in
omit [DecidableEq ι] [DecidableEq ν] in
/-- Keys are not more than requests that stand for them. -/
theorem card_recipients_le {x : Onboardings ι ν} {p : Onboarding → Bool}
    {P : OnboardingRequest → Prop} [DecidablePred P] (T : Finset ι)
    (hT : ∀ i e, (x.prog i).shows = some e → p e = true → P (req i) →
      ∃ j ∈ T, (req j).pubkey = (req i).pubkey) : (recipients req x p P).card ≤ T.card := by
  have hsub : recipients req x p P ⊆ T.image fun j => (req j).pubkey := by
    intro k hk
    obtain ⟨i, hi, rfl⟩ := Finset.mem_image.mp hk
    obtain ⟨⟨e, he, hp⟩, hP⟩ := mem_showing.mp hi
    obtain ⟨j, hj, hkey⟩ := hT i e he hp hP
    exact Finset.mem_image.mpr ⟨j, hj, hkey⟩
  exact (Finset.card_le_card hsub).trans Finset.card_image_le

/-! ## Keys and counters -/

variable {lossy : Bool} {x : Onboardings ι ν} {day : Instant} {source : String}

omit [DecidableEq ι] [DecidableEq ν] in
theorem card_served_le (htally : Tally env valid budget req x.store g)
    (hshows : ∀ i e, (x.prog i).shows = some e → (req i).Shows env budget lossy (g i) e) :
    (recipients req x Onboarding.isServed (·.On day)).card ≤
      x.store.kv.count (accountDayKey env day) := by
  classical
  have hkeys := card_recipients_le req (x := x) (p := Onboarding.isServed) (P := (·.On day))
    {j | (req j).On day ∧ (req j).Stands env (g j)} fun i e he hp hday => by
      obtain ⟨j, hj, hpubkey, hstands⟩ := holder_of_served htally hp (hshows i e he)
      exact ⟨j, Finset.mem_filter.mpr ⟨Finset.mem_univ j, hj.trans hday, hstands⟩, hpubkey⟩
  refine (Int.ofNat_le.mpr hkeys).trans ((htally.books.metered _).card_le_total fun j hj => ?_)
  obtain ⟨hday, _, _, _, b, -, hticket, -⟩ := (Finset.mem_filter.mp hj).2
  rw [hday.dayGlobalKey] at hticket
  exact ⟨_, hticket, rfl⟩

omit [DecidableEq ι] [DecidableEq ν] in
theorem card_shared_le (htally : Tally env valid budget req x.store g)
    (hshows : ∀ i e, (x.prog i).shows = some e → (req i).Shows env budget lossy (g i) e) :
    (recipients req x Onboarding.isShared (·.On day)).card ≤ budget.maxDayAccounts := by
  classical
  have hkeys := card_recipients_le req (x := x) (p := Onboarding.isShared) (P := (·.On day))
    {j | (req j).On day ∧ (req j).Within env budget (g j)} fun i e he hp hday => by
      obtain ⟨j, hj, hpubkey, hwithin⟩ := holder_of_shared htally hp (hshows i e he)
      exact ⟨j, Finset.mem_filter.mpr ⟨Finset.mem_univ j, hj.trans hday, hwithin⟩, hpubkey⟩
  exact hkeys.trans (htally.card_within_le day fun j hj => (Finset.mem_filter.mp hj).2)

omit [DecidableEq ι] [DecidableEq ν] in
theorem card_charged_le (htally : Tally env valid budget req x.store g)
    (hshows : ∀ i e, (x.prog i).shows = some e → (req i).Shows env budget lossy (g i) e) :
    (recipients req x Onboarding.isCharged (·.From day source)).card ≤
      x.store.kv.count (accountSourceDayKey env day source) := by
  have hkeys := card_recipients_le req (showing req x Onboarding.isCharged (·.From day source))
    fun i e he hp hfrom => ⟨i, mem_showing.mpr ⟨⟨e, he, hp⟩, hfrom⟩, rfl⟩
  refine (Int.ofNat_le.mpr hkeys).trans ((htally.books.metered _).card_le_total fun i hi => ?_)
  obtain ⟨⟨e, he, hp⟩, hfrom⟩ := mem_showing.mp hi
  obtain ⟨_, _, a, _, hticket, -⟩ : (req i).Stands env (g i) := stands_of_charged hp (hshows i e he)
  rw [hfrom.sourceKey] at hticket
  exact ⟨_, hticket, rfl⟩

omit [DecidableEq ι] [DecidableEq ν] in
/-- Over a store that answers, every repeat was counted, and within its limit. -/
theorem card_repeats_le (htally : Tally env valid budget req x.store g)
    (hshows : ∀ i e, (x.prog i).shows = some e → (req i).Shows env budget false (g i) e)
    (pubkey : String) :
    (showing req x Onboarding.isRepeat fun r => r.From day source ∧ r.pubkey = pubkey).card ≤
      maxRepeatsPerKey := by
  refine (htally.books.metered (accountRepeatDayKey env day pubkey source)).card_le
    (Int.natCast_nonneg 10) fun i hi => ?_
  obtain ⟨⟨e, he, hp⟩, hfrom, hpubkey⟩ := mem_showing.mp hi
  obtain ⟨n, hn, hrepeated⟩ := repeated_of_isRepeat hp (hshows i e he)
  have hticket := hrepeated.counted rfl
  rw [hfrom.repeatKey, hpubkey] at hticket
  exact ⟨_, hticket, rfl, hn⟩

omit [DecidableEq ι] in
theorem Stands.booked (htally : Tally env valid budget req s g) {j : ι}
    (h : (req j).Stands env (g j)) :
    s.booked j ((req j).dayGlobalKey env) = 1 ∧ s.booked j ((req j).sourceKey env) = 1 := by
  obtain ⟨_, _, a, b, hsource, hday, -⟩ := h
  constructor
  · rw [htally.books.booked, hday, worth_some]
  · rw [htally.books.booked, hsource, worth_some]

omit [DecidableEq ι] [DecidableEq ν] in
theorem card_first_le (htally : Tally env valid budget req x.store g)
    (hshows : ∀ i e, (x.prog i).shows = some e → (req i).Shows env budget lossy (g i) e) :
    (recipients req x Onboarding.isFirst (·.From day source)).card ≤
      budget.maxDaySourceAccounts := by
  have hkeys := card_recipients_le req (showing req x Onboarding.isFirst (·.From day source))
    fun i e he hp hfrom => ⟨i, mem_showing.mpr ⟨⟨e, he, hp⟩, hfrom⟩, rfl⟩
  refine hkeys.trans (htally.card_within_from_le day source fun i hi => ?_)
  obtain ⟨⟨e, he, hp⟩, hfrom⟩ := mem_showing.mp hi
  match e with
  | .served false .shared => exact ⟨hfrom, hshows i _ he⟩

end

namespace Demo

def alice : String := "GAAAAAAAAAAAAAAAAAAAAAAAAAAAAAAAAAAAAAAAAAAAAAAAAAAAAWHF"

def bob : String := "GAAQCAIBAEAQCAIBAEAQCAIBAEAQCAIBAEAQCAIBAEAQCAIBAEAQDZ7H"

/-- One key twice, from two callers, and another key. -/
def accounts : Fin 3 → OnboardingRequest
  | 0 => ⟨"192.0.2.1", noon, some alice, "t0"⟩
  | 1 => ⟨"192.0.2.2", noon, some alice, "t1"⟩
  | 2 => ⟨"192.0.2.3", noon, some bob, "t2"⟩

/-- One account a day, and no counter in memory; two keys are valid, and all run in one process. -/
def oneAccount : Machine (Onboardings (Fin 3) Unit) (Fin 3 × Fault) Unit :=
  onboardings testnet (fun key => key = alice || key = bob) ⟨1, 1, false⟩ (fun _ => ()) accounts

/-- The first request is served, and the second as its repeat. -/
def repeated : List (Fin 3) := List.replicate 9 0 ++ List.replicate 16 1

/-- Then the third raises the counters, and the answer is lost. -/
def lostOpening : List (Fin 3 × Fault) :=
  reliably (repeated ++ List.replicate 6 2) ++ [(2, .lost "caps store returned 504")]

end Demo

/-- **The onboarding budget never reads low.** Whatever replies the store loses, the day's counter
covers the distinct keys to which an account was handed out, and a source's counter those that were
not repeats; and the keys that were judged on the shared counter stay within the budgets. -/
theorem budget_never_reads_low {req : ι → OnboardingRequest} (hkv : env.kv = true)
    (htoken : Function.Injective fun i => (req i).token) (home : ι → ν) (es : List (ι × Fault))
    (day : Instant) :
    let x := (onboardings env valid budget home req).final es
    ((recipients req x Onboarding.isServed (·.On day)).card ≤
        x.store.kv.count (accountDayKey env day) ∧
      (recipients req x Onboarding.isShared (·.On day)).card ≤ budget.maxDayAccounts) ∧
    ∀ source,
      (recipients req x Onboarding.isCharged (·.From day source)).card ≤
          x.store.kv.count (accountSourceDayKey env day source) ∧
        (recipients req x Onboarding.isFirst (·.From day source)).card ≤
          budget.maxDaySourceAccounts := by
  intro x
  obtain ⟨g, htally, hshows⟩ :=
    onboardings_sound env valid budget hkv htoken home true fun _ _ => .inl rfl
  exact ⟨⟨card_served_le htally hshows, card_shared_le htally hshows⟩,
    fun source => ⟨card_charged_le htally hshows, card_first_le htally hshows⟩⟩

theorem budget_never_reads_low_lost :
    (Demo.oneAccount.final Demo.lostOpening).store.kv.count (accountDayKey Demo.testnet Demo.noon) =
        2 ∧
      (recipients Demo.accounts (Demo.oneAccount.final Demo.lostOpening) Onboarding.isShared
        (·.On Demo.noon)).card ≤ 1 :=
  ⟨by decide +kernel, (budget_never_reads_low Demo.testnet _ ⟨1, 1, false⟩ rfl (by decide)
    (fun _ => ()) Demo.lostOpening Demo.noon).1.2⟩

/-- A request whose opening answer is lost is served beyond the budget; and a repeat is not counted
on its own source. -/
theorem lost_opening_exceeds_budget :
    (recipients Demo.accounts (Demo.oneAccount.final Demo.lostOpening) Onboarding.isServed
        (·.On Demo.noon)).card = 2 ∧
      (recipients Demo.accounts (Demo.oneAccount.final Demo.lostOpening) Onboarding.isServed
        (·.From Demo.noon "192.0.2.2")).card = 1 ∧
      (Demo.oneAccount.final Demo.lostOpening).store.kv.count
        (accountSourceDayKey Demo.testnet Demo.noon "192.0.2.2") = 0 := by
  decide +kernel

/-- **Repeats are bounded and backed.** Over a store that answers, a key is repeated at most
`maxRepeatsPerKey` times a day from a caller; a repeat is served on the slot of another request for
the key, which is counted and not given back; and whoever is served, there is such a slot. -/
theorem repeats_backed {req : ι → OnboardingRequest} (hkv : env.kv = true)
    (htoken : Function.Injective fun i => (req i).token) (home : ι → ν) (schedule : List ι) :
    let x := (onboardings env valid budget home req).final (reliably schedule)
    (∀ day source pubkey, (showing req x Onboarding.isRepeat fun r =>
      r.From day source ∧ r.pubkey = pubkey).card ≤ maxRepeatsPerKey) ∧
    (∀ i e, (x.prog i).shows = some e → e.isRepeat = true →
      ∃ j, j ≠ i ∧ (req j).On (req i).now ∧ (req j).pubkey = (req i).pubkey ∧
        x.store.booked j ((req j).dayGlobalKey env) = 1 ∧
        x.store.booked j ((req j).sourceKey env) = 1) ∧
    ∀ i e, (x.prog i).shows = some e → e.isServed = true →
      ∃ j, (req j).On (req i).now ∧ (req j).pubkey = (req i).pubkey ∧
        x.store.booked j ((req j).dayGlobalKey env) = 1 ∧
        x.store.booked j ((req j).sourceKey env) = 1 := by
  intro x
  obtain ⟨g, htally, hshows⟩ := onboardings_sound env valid budget hkv htoken home false
    fun e he => .inr (intact_of_mem_reliably schedule e he)
  refine ⟨fun day source pubkey => card_repeats_le htally hshows pubkey, fun i e he hp => ?_,
    fun i e he hp => ?_⟩
  · obtain ⟨n, -, hrepeated⟩ := repeated_of_isRepeat hp (hshows i e he)
    obtain ⟨j, hday, hpubkey, hfenced, hwithin⟩ := holder_of_backed htally hrepeated.backed
    refine ⟨j, ?_, hday, hpubkey, Stands.booked htally ⟨_, _, hwithin⟩⟩
    rintro rfl
    rw [hrepeated.fenced] at hfenced
    cases hfenced
  · obtain ⟨j, hday, hpubkey, hstands⟩ := holder_of_served htally hp (hshows i e he)
    exact ⟨j, hday, hpubkey, Stands.booked htally hstands⟩

/-- The first request is released once its slot is used by a repeat: the slot stays counted. -/
theorem repeats_backed_released :
    let x := Demo.oneAccount.final (reliably (Demo.repeated ++ List.replicate 3 0))
    (x.prog 0).shows = some .released ∧ (x.prog 1).shows = some (.served true .shared) ∧
      ∃ j, j ≠ 1 ∧ (Demo.accounts j).On Demo.noon ∧ (Demo.accounts j).pubkey = Demo.alice ∧
        x.store.booked j ((Demo.accounts j).dayGlobalKey Demo.testnet) = 1 ∧
        x.store.booked j ((Demo.accounts j).sourceKey Demo.testnet) = 1 := by
  have hpubkey : (Demo.accounts 1).pubkey = Demo.alice := by decide +kernel
  have hshows : ((Demo.oneAccount.final
      (reliably (Demo.repeated ++ List.replicate 3 0))).prog 1).shows =
        some (.served true .shared) := by decide +kernel
  refine ⟨by decide +kernel, hshows, ?_⟩
  rw [← hpubkey]
  exact (repeats_backed Demo.testnet _ ⟨1, 1, false⟩ rfl (by decide) (fun _ => ())
    (Demo.repeated ++ List.replicate 3 0)).2.1 1 _ hshows rfl

end Lumenia.Sponsor
