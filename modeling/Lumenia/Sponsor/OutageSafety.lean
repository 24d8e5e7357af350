import Lumenia.Sponsor.OnboardingSafety
import Lumenia.Sponsor.OutageFees

/-!
# What the counters in memory admit

In every run, whatever the store answers, a process that has begun a UTC day at most once admits no
more for it than the budget allows (`outage_budgets_hold`). A request that was checked on an earlier
day and reaches the counters late takes them back to its own day, and the next request of the current
day begins that one again with nothing counted (`late_request_forgets_day`).
-/

namespace Lumenia.Sponsor

open Ticket OnboardingRequest

namespace Shown

/-- The counter in memory has handed out an account. -/
def isLocal : Shown → Bool
  | .account (.served _ .isolate) => true
  | _ => false

/-- The counter in memory has handed out an account, and not as a repeat. -/
def isLocalFirst : Shown → Bool
  | .account (.served false .isolate) => true
  | _ => false

end Shown

section

variable {ι κ ν : Type} [DecidableEq ι] [DecidableEq κ] [DecidableEq ν] [Fintype ι] [Fintype κ]

abbrev SponsorRun (ι κ ν : Type) :=
  Sys (ι ⊕ κ) ν Cmd KvReply (Process κ) Shown Shown (Store (ι ⊕ κ))

variable (home : ι ⊕ κ → ν) (req : ι → OnboardingRequest) (fee : κ → FeeRequest)
  (x : SponsorRun ι κ ν) (v : ν)

/-- The account requests of the process that show a label with `p` and have `P`. -/
def localHandouts (p : Shown → Bool) (P : OnboardingRequest → Prop) [DecidablePred P] : Finset ι :=
  {i | home (.inl i) = v ∧ (x.prog (.inl i)).shows.any p = true ∧ P (req i)}

/-- Their recipient keys. -/
def localRecipients (p : Shown → Bool) (P : OnboardingRequest → Prop) [DecidablePred P] :
    Finset String :=
  (localHandouts home req x v p P).image fun i => (req i).pubkey

/-- The charge of a request of the process, if the counter in memory took it. -/
def localCharge (j : κ) : Option Handle :=
  ((x.mem v).fees.handles j).filter fun h => !h.charge.shared

/-- The fee requests of the day in the process that the counter in memory has admitted. -/
def localCharges (day : Instant) : Finset κ :=
  {j | home (.inr j) = v ∧ (localCharge x v j).isSome = true ∧ (fee j).On day}

variable {home req fee x v} {env : Env} {valid : String → Bool} {budget : OnboardingBudget}
  {day : Instant} {max : ℕ}

omit [DecidableEq ι] [DecidableEq κ] [Fintype κ] in
theorem mem_localHandouts {p : Shown → Bool} {P : OnboardingRequest → Prop} [DecidablePred P]
    {i : ι} : i ∈ localHandouts home req x v p P ↔
      home (.inl i) = v ∧ (∃ e, (x.prog (.inl i)).shows = some e ∧ p e = true) ∧ P (req i) := by
  simp [localHandouts, Option.any_eq_true]

variable (env valid budget max home fee v day) in
omit [Fintype κ] in
theorem accounts_sound (htoken : Function.Injective fun i => (req i).token)
    (es : List ((ι ⊕ κ) × Fault)) :
    let x := (sponsorRequests env valid budget max home req fee).final es
    ∃ g : ι → Claimant, Kept env valid day budget req (x.mem v) g ∧
      ∀ i e, home (.inl i) = v → (req i).On day → (x.prog (.inl i)).shows = some (.account e) →
        (req i).Admitted env budget (g i) e := by
  let m := sponsorRequests env valid budget max home req fee
  have hinit : (accountsPact env valid day budget req home v).inv m.init.store m.init.mem
      fun _ => .fresh := Kept.fresh
  have hes : ∀ e ∈ es, (accountsPact env valid day budget req home v).allowed e.2 :=
    fun _ _ => trivial
  have hprog : ∀ n, (accountsPact env valid day budget req home v).wp (backend _) home n
      (m.init.prog n)
      (fun e γ => AccountShown env day budget req home v n γ e) .fresh := by
    intro n
    cases n with
    | inl i => exact wp_accountTask htoken
    | inr j => exact wp_feeTask_accounts
  obtain ⟨-, g, hkept, hwp⟩ := Pact.sound (P := accountsPact env valid day budget req home v)
    m.init hinit hprog hes
  exact ⟨g ∘ Sum.inl, hkept, fun i e hhome hday he =>
    Pact.shown_of_wp (hwp (.inl i)) he i rfl hhome hday⟩

variable (env valid budget max home req fee v day) in
omit [Fintype ι] in
theorem charges_sound (es : List ((ι ⊕ κ) × Fault)) :
    let x := (sponsorRequests env valid budget max home req fee).final es
    ∃ g : κ → Payer, FeeKept env max day fee home v (x.mem v) g := by
  let m := sponsorRequests env valid budget max home req fee
  have hinit : (feesPact env max day fee home v).inv m.init.store m.init.mem fun _ => .fresh :=
    FeeKept.fresh
  have hes : ∀ e ∈ es, (feesPact env max day fee home v).allowed e.2 := fun _ _ => trivial
  have hprog : ∀ n, (feesPact env max day fee home v).wp (backend _) home n
      (m.init.prog n) (fun _ _ => True) .fresh := by
    intro n
    cases n with
    | inl i => exact wp_accountTask_fees
    | inr j => exact wp_feeTask
  obtain ⟨-, g, hkept, -⟩ := Pact.sound (P := feesPact env max day fee home v)
    m.init hinit hprog hes
  exact ⟨g ∘ Sum.inr, hkept⟩

/-! ## Bounds for one day -/

section

variable {g : ι → Claimant} {a : Store ι}

omit [DecidableEq ι] [DecidableEq κ] [Fintype κ] in
theorem within_of_localFirst {P : OnboardingRequest → Prop} [DecidablePred P] {i : ι}
    (hadmitted : ∀ i e, home (.inl i) = v → (req i).On day →
      (x.prog (.inl i)).shows = some (.account e) → (req i).Admitted env budget (g i) e)
    (hi : i ∈ localHandouts home req x v Shown.isLocalFirst P) (hday : (req i).On day) :
    P (req i) ∧ (req i).Within env budget (g i) := by
  obtain ⟨hhome, ⟨e, he, hp⟩, hP⟩ := mem_localHandouts.mp hi
  match e with
  | .account (.served false .isolate) => exact ⟨hP, hadmitted i _ hhome hday he⟩

omit [DecidableEq ι] [DecidableEq κ] [Fintype κ] in
/-- Whoever is served from memory, there is a slot within the limits for the key. -/
theorem holder_of_local (htally : Tally env valid budget req a g)
    (hadmitted : ∀ i e, home (.inl i) = v → (req i).On day →
      (x.prog (.inl i)).shows = some (.account e) → (req i).Admitted env budget (g i) e)
    {i : ι} (hi : i ∈ localHandouts home req x v Shown.isLocal (·.On day)) :
    ∃ j, (req j).On day ∧ (req j).pubkey = (req i).pubkey ∧ (req j).Within env budget (g j) := by
  obtain ⟨hhome, ⟨e, he, hp⟩, hday⟩ := mem_localHandouts.mp hi
  match e with
  | .account (.served false .isolate) => exact ⟨i, hday, rfl, hadmitted i _ hhome hday he⟩
  | .account (.served true .isolate) =>
    obtain ⟨j, hj, hpubkey, -, hwithin⟩ := holder_of_backed htally (hadmitted i _ hhome hday he)
    exact ⟨j, hj.trans hday, hpubkey, hwithin⟩

omit [DecidableEq ι] [DecidableEq κ] [Fintype κ] in
theorem card_localRecipients_le (htally : Tally env valid budget req a g)
    (hadmitted : ∀ i e, home (.inl i) = v → (req i).On day →
      (x.prog (.inl i)).shows = some (.account e) → (req i).Admitted env budget (g i) e) :
    (localRecipients home req x v Shown.isLocal (·.On day)).card ≤ budget.maxDayAccounts := by
  classical
  let holders : Finset ι := {j | (req j).On day ∧ (req j).Within env budget (g j)}
  have hsub : localRecipients home req x v Shown.isLocal (·.On day) ⊆
      holders.image fun j => (req j).pubkey := by
    intro key hkey
    obtain ⟨i, hi, rfl⟩ := Finset.mem_image.mp hkey
    obtain ⟨j, hday, hpubkey, hwithin⟩ := holder_of_local htally hadmitted hi
    exact Finset.mem_image.mpr ⟨j, Finset.mem_filter.mpr ⟨Finset.mem_univ j, hday, hwithin⟩, hpubkey⟩
  have hholders : holders.card ≤ budget.maxDayAccounts :=
    htally.card_within_le day fun j hj => (Finset.mem_filter.mp hj).2
  exact ((Finset.card_le_card hsub).trans Finset.card_image_le).trans hholders

end

omit [DecidableEq ι] [DecidableEq κ] [Fintype ι] in
theorem sum_localCharges_le {g : κ → Payer} {a : Store κ}
    (hs : FeeStand env max day fee home v (x.mem v) a g) :
    ∑ j ∈ localCharges home fee x v day, (localCharge x v j).elim 0 Handle.counted ≤ max := by
  have hticket : ∀ j ∈ localCharges home fee x v day, ∃ t, (g j).wallet (feeDayKey env day) = some t ∧
      t.seen ≤ max ∧ (localCharge x v j).elim 0 Handle.counted ≤ t.amount := by
    intro j hj
    obtain ⟨hhome, hsome, hday⟩ := (Finset.mem_filter.mp hj).2
    obtain ⟨h, hcharge⟩ := Option.isSome_iff_exists.mp hsome
    obtain ⟨hh, hshared⟩ := Option.filter_eq_some_iff.mp hcharge
    obtain ⟨n, seen, hwallet, hcounted, hseen, -⟩ := (hs.covered j h ⟨hhome, hday⟩
      ((hs.handle j ⟨hhome, hday⟩).symm.trans hh)).ticket (by simpa using hshared)
    rw [hcharge]
    exact ⟨⟨n, seen⟩, hwallet, hseen, hcounted⟩
  have hworth : ∑ j ∈ localCharges home fee x v day, (localCharge x v j).elim 0 Handle.counted ≤
      ∑ j ∈ localCharges home fee x v day, worth ((g j).wallet (feeDayKey env day)) := by
    refine Finset.sum_le_sum fun j hj => ?_
    obtain ⟨t, hwallet, -, hle⟩ := hticket j hj
    rwa [hwallet, worth_some]
  refine hworth.trans ((hs.books.metered _).sum_le (by omega) fun j hj => ?_)
  obtain ⟨t, hwallet, hseen, -⟩ := hticket j hj
  exact ⟨t, hwallet, hseen⟩

variable (env valid budget max) in
/-- **Budgets hold while the store is down.** For every UTC day that a process has begun at most
once: the accounts its counter handed out, and their recipient keys, repeats included, are within the
day's budget; those of one caller within the caller's; and what its charges have to cover is within
the fee budget. -/
theorem outage_budgets_hold (htoken : Function.Injective fun i => (req i).token) (home : ι ⊕ κ → ν)
    (fee : κ → FeeRequest) (es : List ((ι ⊕ κ) × Fault)) (v : ν) (day : Instant) :
    let x := (sponsorRequests env valid budget max home req fee).final es
    ((x.mem v).accountDays.count (accountDayKey env day) ≤ 1 →
      (localHandouts home req x v Shown.isLocalFirst (·.On day)).card ≤ budget.maxDayAccounts ∧
      (localRecipients home req x v Shown.isLocal (·.On day)).card ≤ budget.maxDayAccounts ∧
      ∀ source, (localHandouts home req x v Shown.isLocalFirst (·.From day source)).card ≤
        budget.maxDaySourceAccounts) ∧
    ((x.mem v).feeDays.count (feeDayKey env day) ≤ 1 →
      ∑ j ∈ localCharges home fee x v day, (localCharge x v j).elim 0 Handle.counted ≤ max) := by
  intro x
  constructor
  · intro honce
    obtain ⟨g, hkept, hadmitted⟩ := accounts_sound home fee v env valid budget day max htoken es
    rcases hkept with htwice | ⟨a, htally, -⟩
    · exact absurd (htwice.trans honce) (by decide)
    refine ⟨?_, card_localRecipients_le htally hadmitted, fun source => ?_⟩
    · refine htally.card_within_le day fun i hi => ?_
      exact within_of_localFirst hadmitted hi (mem_localHandouts.mp hi).2.2
    · refine htally.card_within_from_le day source fun i hi => ?_
      exact within_of_localFirst hadmitted hi (mem_localHandouts.mp hi).2.2.1
  · intro honce
    obtain ⟨g, hkept⟩ := charges_sound home req fee v env valid budget day max es
    rcases hkept with htwice | ⟨a, hs⟩
    · exact absurd (htwice.trans honce) (by decide)
    · exact sum_localCharges_le hs

end

namespace Demo

def beforeMidnight : Instant := ⟨1790812799000, by decide⟩

def afterMidnight : Instant := ⟨1790812801000, by decide⟩

/-- Two requests of the new day, and one that was checked on the day before. -/
inductive Arrival
  | first
  | late
  | second
  deriving DecidableEq

instance : Fintype Arrival := ⟨{.first, .late, .second}, fun a => by cases a <;> decide⟩

def aroundMidnight : Arrival → OnboardingRequest
  | .first => ⟨"192.0.2.1", afterMidnight, some alice, "t0"⟩
  | .late => ⟨"192.0.2.2", beforeMidnight, some alice, "t1"⟩
  | .second => ⟨"192.0.2.3", afterMidnight, some bob, "t2"⟩

def bidsAroundMidnight : Arrival → FeeRequest
  | .first | .second => ⟨.bigint 100, afterMidnight, []⟩
  | .late => ⟨.bigint 10, beforeMidnight, []⟩

/-- One account and 120 stroops a day, and all requests run in one process. -/
def oneProcess : Machine (SponsorRun Arrival Arrival Unit) ((Arrival ⊕ Arrival) × Fault) Unit :=
  sponsorRequests testnet (fun key => key = alice || key = bob) ⟨1, 1, true⟩ 120 (fun _ => ())
    aroundMidnight bidsAroundMidnight

/-- Steps of one request while the store does not answer. -/
def unanswered (steps : ℕ) (n : Arrival ⊕ Arrival) : List ((Arrival ⊕ Arrival) × Fault) :=
  List.replicate steps (n, .lost "caps store returned 504")

/-- The requests of the new day, one after the other. -/
def newDay : List ((Arrival ⊕ Arrival) × Fault) :=
  unanswered 9 (.inl .first) ++ unanswered 9 (.inl .second) ++ unanswered 8 (.inr .first) ++
    unanswered 8 (.inr .second)

/-- Between them, the ones of the day before learn that the store has not answered. -/
def lateRequests : List ((Arrival ⊕ Arrival) × Fault) :=
  unanswered 6 (.inl .late) ++ unanswered 9 (.inl .first) ++ unanswered 3 (.inl .late) ++
    unanswered 9 (.inl .second) ++ (unanswered 5 (.inr .late) ++ unanswered 8 (.inr .first) ++
      unanswered 3 (.inr .late) ++ unanswered 8 (.inr .second))

end Demo

/-- Without a late request the second key and the second bid are refused. -/
theorem outage_budgets_hold_newDay :
    let x := Demo.oneProcess.final Demo.newDay
    (x.prog (.inl .first)).shows = some (.account (.served false .isolate)) ∧
      (x.mem ()).accountDays = [accountDayKey Demo.testnet Demo.afterMidnight] ∧
      (localHandouts (fun _ => ()) Demo.aroundMidnight x () Shown.isLocalFirst
        (·.On Demo.afterMidnight)).card ≤ 1 ∧
      ∑ j ∈ localCharges (fun _ => ()) Demo.bidsAroundMidnight x () Demo.afterMidnight,
        (localCharge x () j).elim 0 Handle.counted ≤ 120 := by
  intro x
  have hdays : (x.mem ()).accountDays = [accountDayKey Demo.testnet Demo.afterMidnight] := by
    decide +kernel
  have hfees : (x.mem ()).feeDays.count (feeDayKey Demo.testnet Demo.afterMidnight) ≤ 1 := by
    decide +kernel
  have htoken : Function.Injective fun i => (Demo.aroundMidnight i).token := by decide
  have hbudgets := outage_budgets_hold Demo.testnet (fun key => key = Demo.alice || key = Demo.bob)
    ⟨1, 1, true⟩ 120 htoken (fun _ => ()) Demo.bidsAroundMidnight Demo.newDay () Demo.afterMidnight
  refine ⟨by decide +kernel, hdays, (hbudgets.1 ?_).1, hbudgets.2 hfees⟩
  change (x.mem ()).accountDays.count _ ≤ 1
  rw [hdays, List.count_singleton_self]

/-- A late request takes the counters back to the day before, and the new day begins again: two keys
are handed an account and 200 stroops are admitted. -/
theorem late_request_forgets_day :
    let x := Demo.oneProcess.final Demo.lateRequests
    (localHandouts (fun _ => ()) Demo.aroundMidnight x () Shown.isLocalFirst
        (·.On Demo.afterMidnight)).card = 2 ∧
      (localRecipients (fun _ => ()) Demo.aroundMidnight x () Shown.isLocal
        (·.On Demo.afterMidnight)).card = 2 ∧
      ∑ j ∈ localCharges (fun _ => ()) Demo.bidsAroundMidnight x () Demo.afterMidnight,
        (localCharge x () j).elim 0 Handle.counted = 200 := by
  decide +kernel

end Lumenia.Sponsor
