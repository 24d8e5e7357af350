import Lumenia.Sponsor.Onboarding
import Lumenia.Sponsor.Tickets

/-!
# Markers and counted slots

`Tally` ties the store to the ghosts of the onboarding requests. Whoever claimed a marker is fenced:
it will not write the marker again, so that its token, once overwritten, never comes back. A marker
stands only with the counted slot of a fenced request for its key; and a request that stamped the
marker of another relies on such a slot whose holder can no longer give it back, because the marker
does not have the holder's token. The lemmas say what each command does to this.
-/

namespace Lumenia.Sponsor

open Ticket

structure Claimant where
  wallet : Wallet
  fenced : Bool
  backed : Bool

namespace Claimant

def fresh : Claimant := ⟨fun _ => none, false, false⟩

def put (γ : Claimant) (key : String) (o : Option Ticket) : Claimant :=
  { γ with wallet := Function.update γ.wallet key o }

variable {γ : Claimant} {key k : String} {o : Option Ticket}

@[simp] theorem put_fenced : (γ.put key o).fenced = γ.fenced := rfl

@[simp] theorem put_backed : (γ.put key o).backed = γ.backed := rfl

@[simp] theorem put_self : (γ.put key o).wallet key = o := Function.update_self ..

theorem put_of_ne (h : k ≠ key) : (γ.put key o).wallet k = γ.wallet k := Function.update_of_ne h ..

theorem put_eq_self (h : γ.wallet key = o) : γ.put key o = γ := by
  subst h
  rw [put, Function.update_eq_self]

end Claimant

namespace OnboardingRequest

variable (env : Env) (valid : String → Bool) (budget : OnboardingBudget) (r : OnboardingRequest)

/-- The request has one slot on either counter, with totals up to these. -/
def Slot (γ : Claimant) (source day : ℤ) : Prop :=
  ∃ a b, γ.wallet (r.sourceKey env) = some ⟨1, a⟩ ∧ γ.wallet (r.dayGlobalKey env) = some ⟨1, b⟩ ∧
    a ≤ source ∧ b ≤ day

/-- The request has a slot. -/
def Stands (γ : Claimant) : Prop := ∃ source day, r.Slot env γ source day

/-- The request has a slot, and found it within the limits. -/
def Within (γ : Claimant) : Prop :=
  r.Slot env γ budget.maxDaySourceAccounts budget.maxDayAccounts

/-- The request claimed this marker, for a slot it still has. -/
structure Holds (γ : Claimant) (key : String) : Prop where
  marker : r.marker env valid = some key
  fenced : γ.fenced = true
  within : r.Within env budget γ

variable {env valid r}

theorem isMarker {key : String} (h : r.marker env valid = some key) : IsMarker env key := by
  unfold marker at h
  split at h
  · cases h
    exact ⟨_, _, rfl⟩
  · cases h

theorem marker_inj {r' : OnboardingRequest} {key : String} (h : r.marker env valid = some key)
    (h' : r'.marker env valid = some key) : utcDay r.now = utcDay r'.now ∧ r.pubkey = r'.pubkey := by
  unfold marker at h h'
  split at h
  · split at h'
    · cases h
      exact accountPubkeyDayKey_inj (Option.some.inj h').symm
    · cases h'
  · cases h

theorem sourceKey_ne_dayGlobalKey {r' : OnboardingRequest} :
    r.sourceKey env ≠ r'.dayGlobalKey env := accountDayKey_ne_accountSourceDayKey.symm

theorem repeatKey_ne_sourceKey : r.repeatKey env ≠ r.sourceKey env :=
  accountSourceDayKey_ne_accountRepeatDayKey.symm

theorem repeatKey_ne_dayGlobalKey : r.repeatKey env ≠ r.dayGlobalKey env :=
  accountDayKey_ne_accountRepeatDayKey.symm

end OnboardingRequest

open OnboardingRequest

variable {ι : Type} [DecidableEq ι] [Fintype ι] (env : Env) (valid : String → Bool)
  (budget : OnboardingBudget) (req : ι → OnboardingRequest)

structure Tally (s : Store ι) (g : ι → Claimant) : Prop where
  books : Books s fun i => (g i).wallet
  numbers : ∀ {key n}, s.kv key = some (.int n) → ¬IsMarker env key
  marked : ∀ {key token}, s.kv key = some (.str token) → ∃ j, (req j).Holds env valid budget (g j) key
  backed : ∀ {i}, (g i).backed = true → ∃ key, (req i).marker env valid = some key ∧
    ∃ j, (req j).Holds env valid budget (g j) key ∧ s.kv key ≠ some (.str (req j).token)

namespace Tally

variable {env valid budget req} {s s' : Store ι} {g : ι → Claimant} {i j : ι} {γ γ' : Claimant}
  {key : String}

omit [DecidableEq ι] in
theorem empty : Tally env valid budget req Store.empty fun _ => .fresh where
  books := Books.empty
  numbers := nofun
  marked := nofun
  backed := nofun

omit [Fintype ι] in
theorem holds_update (h : (req j).Holds env valid budget (g j) key) (hj : j ≠ i) :
    (req j).Holds env valid budget (Function.update g i γ' j) key := by
  rwa [Function.update_of_ne hj]

omit [DecidableEq ι] [Fintype ι] in
theorem ne_of_holds (h : (req j).Holds env valid budget (g j) key) (hi : (g i).fenced = false) :
    j ≠ i := by
  rintro rfl
  rw [h.fenced] at hi
  cases hi

omit [Fintype ι] in
theorem wallet_update : (fun j => (Function.update g i γ' j).wallet) =
    Function.update (fun j => (g j).wallet) i γ'.wallet := by
  funext j
  by_cases hj : j = i
  · subst hj
    simp
  · simp [hj]

omit [DecidableEq ι] in
theorem countable (h : Tally env valid budget req s g) (hkey : ¬IsMarker env key) :
    s.Countable key := by
  intro token htoken
  obtain ⟨j, hj⟩ := h.marked htoken
  exact hkey (isMarker hj.marker)

omit [DecidableEq ι] in
/-- A marker has no number, so nothing is counted on it. -/
theorem count_marker (h : Tally env valid budget req s g) (hkey : IsMarker env key) :
    s.kv.count key = 0 := by
  unfold Kv.count
  split
  · rename_i n hn
    exact absurd hkey (h.numbers hn)
  · rfl

/-- A request that is not fenced moves its tickets, and no marker. -/
theorem move (h : Tally env valid budget req s g) (hi : (g i).fenced = false)
    (hbacked : γ'.backed = (g i).backed)
    (hbooks : Books s' (Function.update (fun j => (g j).wallet) i γ'.wallet))
    (hkv : ∀ key, IsMarker env key → s'.kv key = s.kv key)
    (htext : ∀ key token, s'.kv key = some (.str token) → IsMarker env key) :
    Tally env valid budget req s' (Function.update g i γ') where
  books := by rwa [wallet_update]
  numbers {key n} hn hkey := h.numbers ((hkv key hkey).symm.trans hn) hkey
  marked {key token} htoken := by
    obtain ⟨j, hj⟩ := h.marked ((hkv key (htext key token htoken)).symm.trans htoken)
    exact ⟨j, holds_update hj (ne_of_holds hj hi)⟩
  backed {k} hk := by
    have hold : (g k).backed = true := by
      by_cases hki : k = i
      · subst hki
        rwa [Function.update_self, hbacked] at hk
      · rwa [Function.update_of_ne hki] at hk
    obtain ⟨key, hkey, j, hj, hne⟩ := h.backed hold
    exact ⟨key, hkey, j, holds_update hj (ne_of_holds hj hi), by rwa [hkv key (isMarker hkey)]⟩

/-- A counter that is no marker moves no marker. -/
theorem moveCounter (h : Tally env valid budget req s g) (hi : (g i).fenced = false)
    (hkey : ¬IsMarker env key) {a : ℤ} {o : Option Ticket}
    (hbooks : Books (s.added i key a)
      (Function.update (fun j => (g j).wallet) i (Function.update (g i).wallet key o))) :
    Tally env valid budget req (s.added i key a) (Function.update g i ((g i).put key o)) := by
  refine h.move hi rfl hbooks (fun k hk => ?_) fun k token htoken => ?_
  · exact Store.kv_added_of_ne (ne_of_mem_of_not_mem (s := {k | IsMarker env k}) hk hkey)
  · by_cases hk : k = key
    · subst hk
      exact absurd htoken (Store.countable_added (h.countable hkey) token)
    · rw [Store.kv_added_of_ne hk] at htoken
      obtain ⟨j, hj⟩ := h.marked htoken
      exact isMarker hj.marker

theorem take (h : Tally env valid budget req s g) (hi : (g i).fenced = false)
    (hkey : ¬IsMarker env key) (hnone : (g i).wallet key = none) :
    Tally env valid budget req (s.added i key 1)
      (Function.update g i ((g i).put key (some ⟨1, s.kv.count key + 1⟩))) :=
  h.moveCounter hi hkey (h.books.take hnone one_pos.le)

theorem drop (h : Tally env valid budget req s g) (hi : (g i).fenced = false)
    (hkey : ¬IsMarker env key) {n : ℤ} (hsome : (g i).wallet key = some ⟨1, n⟩) :
    Tally env valid budget req (s.added i key (-1)) (Function.update g i ((g i).put key none)) :=
  h.moveCounter hi hkey (h.books.drop hsome)

theorem reread (h : Tally env valid budget req s g) (hi : (g i).fenced = false) {n : ℤ}
    (hsome : (g i).wallet key = some ⟨1, n⟩) :
    Tally env valid budget req s
      (Function.update g i ((g i).put key (some ⟨1, min n (s.kv.count key)⟩))) := by
  refine h.move hi rfl (h.books.reread hsome) (fun _ _ => rfl) fun key token htoken => ?_
  obtain ⟨j, hj⟩ := h.marked htoken
  exact isMarker hj.marker

/-- A request that is not fenced writes its token on its marker. -/
theorem write (h : Tally env valid budget req s g) (hi : (g i).fenced = false)
    (htoken : Function.Injective fun i => (req i).token)
    (hkey : (req i).marker env valid = some key) (hwallet : γ'.wallet = (g i).wallet)
    (hholder : ∃ j, (req j).Holds env valid budget (Function.update g i γ' j) key)
    (hbacked : γ'.backed = true →
      (g i).backed = true ∨ ∃ j, j ≠ i ∧ (req j).Holds env valid budget (g j) key) :
    Tally env valid budget req (s.written key (some (req i).token)) (Function.update g i γ') where
  books := by
    rw [wallet_update, hwallet, Function.update_eq_self]
    exact h.books.written (h.count_marker (isMarker hkey))
  numbers {k n} hn := by
    by_cases hk : k = key
    · subst hk
      simp at hn
    · rw [Store.kv_written_of_ne hk] at hn
      exact h.numbers hn
  marked {k token} hk' := by
    by_cases hk : k = key
    · subst hk
      exact hholder
    · rw [Store.kv_written_of_ne hk] at hk'
      obtain ⟨j, hj⟩ := h.marked hk'
      exact ⟨j, holds_update hj (ne_of_holds hj hi)⟩
  backed {k} hk' := by
    -- The new token is none of a holder's: a holder is another request.
    have hnew : ∀ j, j ≠ i →
        (s.written key (some (req i).token)).kv key ≠ some (.str (req j).token) := by
      intro j hj heq
      rw [Store.kv_written] at heq
      exact hj (htoken (by simpa using heq.symm))
    have hold : (g k).backed = true ∨
        k = i ∧ ∃ j, j ≠ i ∧ (req j).Holds env valid budget (g j) key := by
      by_cases hki : k = i
      · subst hki
        rw [Function.update_self] at hk'
        rcases hbacked hk' with hb | hb
        · exact .inl hb
        · exact .inr ⟨rfl, hb⟩
      · rw [Function.update_of_ne hki] at hk'
        exact .inl hk'
    rcases hold with hold | ⟨rfl, j, hji, hj⟩
    · obtain ⟨key', hkey', j, hj, hne⟩ := h.backed hold
      have hji := ne_of_holds hj hi
      refine ⟨key', hkey', j, holds_update hj hji, ?_⟩
      by_cases hkk : key' = key
      · subst hkk
        exact hnew j hji
      · rwa [Store.kv_written_of_ne hkk]
    · exact ⟨key, hkey, j, holds_update hj hji, hnew j hji⟩

/-- `SET XX` that took. -/
theorem restamp (h : Tally env valid budget req s g) (hi : (g i).fenced = false)
    (htoken : Function.Injective fun i => (req i).token)
    (hkey : (req i).marker env valid = some key) (hsome : (s.kv key).isSome = true) :
    Tally env valid budget req (s.written key (some (req i).token))
      (Function.update g i { g i with backed := true }) := by
  obtain ⟨v, hv⟩ := Option.isSome_iff_exists.mp hsome
  obtain ⟨j, hj⟩ : ∃ j, (req j).Holds env valid budget (g j) key := by
    cases v with
    | int n => exact absurd (isMarker hkey) (h.numbers hv)
    | str token => exact h.marked hv
  have hji := ne_of_holds hj hi
  exact h.write hi htoken hkey rfl ⟨j, holds_update hj hji⟩ fun _ => .inr ⟨j, hji, hj⟩

/-- `SET NX` that took. -/
theorem claim (h : Tally env valid budget req s g) (hi : (g i).fenced = false)
    (htoken : Function.Injective fun i => (req i).token)
    (hkey : (req i).marker env valid = some key) (hwithin : (req i).Within env budget (g i)) :
    Tally env valid budget req (s.written key (some (req i).token))
      (Function.update g i { g i with fenced := true }) := by
  refine h.write hi htoken hkey rfl ⟨i, ?_⟩ .inl
  rw [Function.update_self]
  exact ⟨hkey, rfl, hwithin⟩

/-- The store after a fenced release. -/
def released (env : Env) (s : Store ι) (i : ι) (r : OnboardingRequest) (key : String) : Store ι :=
  ((s.written key none).added i (r.sourceKey env) (-1)).added i (r.dayGlobalKey env) (-1)

omit [Fintype ι] in
theorem kv_released {r : OnboardingRequest} {k : String} (hk : IsMarker env k) :
    (released env s i r key).kv k = if k = key then none else s.kv k := by
  have hsource : k ≠ r.sourceKey env := by
    rintro rfl
    exact not_isMarker_accountSourceDayKey hk
  have hday : k ≠ r.dayGlobalKey env := by
    rintro rfl
    exact not_isMarker_accountDayKey hk
  rw [released, Store.kv_added_of_ne hday, Store.kv_added_of_ne hsource]
  split
  · rename_i heq
    rw [heq, Store.kv_written, Option.map_none]
  · rename_i hne
    rw [Store.kv_written_of_ne hne]

/-- The fenced release, where the marker still has the token. -/
theorem release (h : Tally env valid budget req s g) (hkey : (req i).marker env valid = some key)
    (hown : s.kv key = some (.str (req i).token)) {a b : ℤ}
    (hsource : (g i).wallet ((req i).sourceKey env) = some ⟨1, a⟩)
    (hday : (g i).wallet ((req i).dayGlobalKey env) = some ⟨1, b⟩) :
    Tally env valid budget req (released env s i (req i) key)
      (Function.update g i
        (((g i).put ((req i).sourceKey env) none).put ((req i).dayGlobalKey env) none)) where
  books := by
    have hbooks := (h.books.written (v := none) (h.count_marker (isMarker hkey))).drop hsource
    have hstill : Function.update (fun j => (g j).wallet) i
        (Function.update (g i).wallet ((req i).sourceKey env) none) i
          ((req i).dayGlobalKey env) = some ⟨1, b⟩ := by
      rw [Function.update_self, Function.update_of_ne sourceKey_ne_dayGlobalKey.symm, hday]
    have hboth := hbooks.drop hstill
    rw [Function.update_idem, Function.update_self] at hboth
    rw [wallet_update]
    exact hboth
  numbers {k n} hn hk := by
    rw [kv_released hk] at hn
    split at hn
    · cases hn
    · exact h.numbers hn hk
  marked {k token} htoken := by
    have hk : IsMarker env k := by
      by_contra hk
      have hcount : (s.written key none).Countable k :=
        Store.countable_written (fun heq => hk (heq ▸ isMarker hkey)) (h.countable hk)
      exact Store.countable_added (Store.countable_added hcount) token htoken
    rw [kv_released hk] at htoken
    split at htoken
    · cases htoken
    · rename_i hne
      obtain ⟨j, hj⟩ := h.marked htoken
      refine ⟨j, holds_update hj ?_⟩
      rintro rfl
      exact hne (Option.some.inj (hj.marker.symm.trans hkey))
  backed {k} hk := by
    have hold : (g k).backed = true := by
      by_cases hki : k = i
      · subst hki
        rwa [Function.update_self] at hk
      · rwa [Function.update_of_ne hki] at hk
    obtain ⟨key', hkey', j, hj, hne⟩ := h.backed hold
    have hji : j ≠ i := by
      rintro rfl
      obtain rfl : key' = key := Option.some.inj (hj.marker.symm.trans hkey)
      exact hne hown
    refine ⟨key', hkey', j, holds_update hj hji, ?_⟩
    rw [kv_released (isMarker hkey')]
    split
    · exact nofun
    · exact hne

variable {A : Finset ι} (day : Instant)

omit [DecidableEq ι] in
/-- Requests of a day within the limits are within the day's limit together. -/
theorem card_within_le (h : Tally env valid budget req s g)
    (hA : ∀ i ∈ A, (req i).On day ∧ (req i).Within env budget (g i)) :
    A.card ≤ budget.maxDayAccounts := by
  refine Int.ofNat_le.mp ?_
  refine (h.books.metered (accountDayKey env day)).card_le (Int.natCast_nonneg _) fun i hi => ?_
  obtain ⟨hday, _, n, -, hticket, -, hle⟩ := hA i hi
  rw [hday.dayGlobalKey] at hticket
  exact ⟨_, hticket, rfl, hle⟩

omit [DecidableEq ι] in
/-- And those of one caller within the caller's. -/
theorem card_within_from_le (h : Tally env valid budget req s g) (source : String)
    (hA : ∀ i ∈ A, (req i).From day source ∧ (req i).Within env budget (g i)) :
    A.card ≤ budget.maxDaySourceAccounts := by
  refine Int.ofNat_le.mp ?_
  refine (h.books.metered (accountSourceDayKey env day source)).card_le (Int.natCast_nonneg _)
    fun i hi => ?_
  obtain ⟨hfrom, n, _, hticket, -, hle, -⟩ := hA i hi
  rw [hfrom.sourceKey] at hticket
  exact ⟨_, hticket, rfl, hle⟩

end Tally

end Lumenia.Sponsor
