import Lumenia.Sponsor.OnboardingTally

/-!
# What the onboarding functions do to tally and ghosts

One lemma for each function of the onboarding budget, in the logic of `Theory.Threads`, over a store
that answers (`lossy = false`) or one that applies every command and may lose any reply.
-/

namespace Lumenia.Sponsor

open Ticket OnboardingRequest

variable {ι : Type} [DecidableEq ι] [Fintype ι] (env : Env) (valid : String → Bool)
  (budget : OnboardingBudget) (lossy : Bool) (req : ι → OnboardingRequest)

namespace OnboardingRequest

/-- The request was served as the `repeats`-th repeat of its key and source, as far as it knows. -/
structure Repeated (r : OnboardingRequest) (repeats : ℤ) (γ : Claimant) : Prop where
  backed : γ.backed = true
  fenced : γ.fenced = false
  counted : lossy = false → γ.wallet (r.repeatKey env) = some ⟨1, repeats⟩

/-- The request has counted itself, with these totals or lower ones. -/
structure Counts (r : OnboardingRequest) (totals : List ℤ) (γ : Claimant) : Prop where
  slot : ∃ source day, totals = [source, day] ∧ r.Slot env γ source day
  fenced : γ.fenced = false
  uncounted : γ.wallet (r.repeatKey env) = none

/-- What a verdict on the shared counter says of the request. -/
def Settled {M : Type} (r : OnboardingRequest) (v : CapVerdict M Onboarding) (γ : Claimant) : Prop :=
  v.ok = true →
    (v.isRepeat = true ∧ v.release = some (pure ()) ∧
      ∃ n, n ≤ maxRepeatsPerKey ∧ r.Repeated env lossy n γ) ∨
    (v.isRepeat = false ∧ r.Within env budget γ ∧
      ∃ fenced, v.release = some (giveBack env valid r fenced) ∧
        (fenced = false → γ.fenced = false) ∧
        (fenced = true → (r.marker env valid).isSome = true))

/-- What a label says of the request that shows it. -/
def Shows (r : OnboardingRequest) (γ : Claimant) : Onboarding → Prop
  | .served false .shared => r.Within env budget γ
  | .served true .shared => ∃ n, n ≤ maxRepeatsPerKey ∧ r.Repeated env lossy n γ
  | .served _ _ => lossy = true ∧ r.Stands env γ
  | _ => True

end OnboardingRequest

def onboardingOutline : Outline ι (Store ι) Claimant Fault Onboarding where
  inv := Tally env valid budget req
  allowed d := lossy = true ∨ d = .intact
  shown i e γ := (req i).Shows env budget lossy γ e

section

variable {env valid budget lossy req} {i : ι} {γ : Claimant} {key : String} {rest : List Cmd}
  {got : List KvReply} {K : List KvReply → Claimant → Prop} {M : Type}

/-! ## Commands -/

theorem wpCmds_takeSlot (hfenced : γ.fenced = false) (hkey : ¬IsMarker env key)
    (hnone : γ.wallet key = none)
    (hrest : ∀ n m, (onboardingOutline env valid budget lossy req).wpCmds (backend ι) i rest
      (got ++ [.of (.int n), .of (.int m)]) K (γ.put key (some ⟨1, n⟩))) :
    (onboardingOutline env valid budget lossy req).wpCmds (backend ι) i
      (incrCmds key 1 ++ rest) got K γ := by
  refine wpCmds_incr (fun n => γ.put key (some ⟨1, n⟩)) ?_ hrest
  rintro s g hinv rfl
  exact ⟨hinv.countable hkey, hinv.take hfenced hkey hnone⟩

theorem wpCmds_dropSlot (hfenced : γ.fenced = false) (hkey : ¬IsMarker env key) {a : ℤ}
    (hsome : γ.wallet key = some ⟨1, a⟩)
    (hrest : ∀ n m, (onboardingOutline env valid budget lossy req).wpCmds (backend ι) i rest
      (got ++ [.of (.int n), .of (.int m)]) K (γ.put key none)) :
    (onboardingOutline env valid budget lossy req).wpCmds (backend ι) i
      (incrCmds key (-1) ++ rest) got K γ := by
  refine wpCmds_incr (fun _ => γ.put key none) ?_ hrest
  rintro s g hinv rfl
  exact ⟨hinv.countable hkey, hinv.drop hfenced hkey hsome⟩

theorem wpCmds_get (hrest : ∀ x, (onboardingOutline env valid budget lossy req).wpCmds (backend ι) i
      rest (got ++ [.of x]) K γ) :
    (onboardingOutline env valid budget lossy req).wpCmds (backend ι) i (.get key :: rest) got K γ :=
  fun s g hinv hg => ⟨γ, Outline.Turns.refl s g hinv hg, hrest _⟩

/-- The result of a `GET` of a counter. -/
def ofTotal : Option ℤ → Result
  | none => .null
  | some c => .int c

theorem wpCmds_reread (hfenced : γ.fenced = false) (hkey : ¬IsMarker env key) {a : ℤ}
    (hsome : γ.wallet key = some ⟨1, a⟩)
    (hrest : ∀ x a', a' ≤ a → (∀ c, x = some c → a' ≤ c) →
      (onboardingOutline env valid budget lossy req).wpCmds (backend ι) i rest
        (got ++ [.of (ofTotal x)]) K (γ.put key (some ⟨1, a'⟩))) :
    (onboardingOutline env valid budget lossy req).wpCmds (backend ι) i
      (.get key :: rest) got K γ := by
  rintro s g hinv rfl
  change ∃ γ', Tally env valid budget req s _ ∧
    (onboardingOutline env valid budget lossy req).wpCmds (backend ι) i rest
      (got ++ [.of (Kv.ofVal (s.kv key))]) K γ'
  cases hv : s.kv key with
  | none =>
    refine ⟨g i, Outline.Turns.refl (O := onboardingOutline env valid budget lossy req) s g hinv rfl,
      ?_⟩
    have hkeep := hrest none a le_rfl (by simp)
    rwa [Claimant.put_eq_self hsome] at hkeep
  | some v =>
    cases v with
    | str token => exact absurd hv (hinv.countable hkey token)
    | int c =>
      have hcount : s.kv.count key = c := by rw [Kv.count, hv]
      have hreread := hinv.reread hfenced hsome
      rw [hcount] at hreread
      exact ⟨_, hreread, hrest (some c) (min a c) (min_le_left a c)
        fun _ h => Option.some.inj h ▸ min_le_right a c⟩

theorem wp_restamp (htoken : Function.Injective fun i => (req i).token)
    (hfenced : γ.fenced = false) (hkey : (req i).marker env valid = some key) {ttl : String}
    {Q : Except String (List KvReply) → Claimant → Prop}
    (hset : ∀ out, answered out 0 = some (some (.str "OK")) ∨ answered out 0 = none →
      Q out { γ with backed := true })
    (hnull : ∀ out, answered out 0 = some (some .null) ∨ answered out 0 = none → Q out γ) :
    (onboardingOutline env valid budget lossy req).wp (M := M) (backend ι) i
      (pipeline [.set key (req i).token .XX ttl]) Q γ := by
  refine wp_pipeline ?_
  rintro s g hinv rfl
  by_cases hsome : (s.kv key).isSome = true
  · have hexec : (backend ι).exec i (.set key (req i).token .XX ttl) s =
        (s.written key (some (req i).token), .of (.str "OK")) := by
      simp only [backend, Store.exec, hsome, decide_true, if_true]
      rfl
    rw [hexec]
    exact ⟨_, hinv.restamp hfenced htoken hkey hsome, fun d _ => hset _
      ((answered_deliver [.of (.str "OK")] 0 rfl d).imp_right And.left)⟩
  · have hexec : (backend ι).exec i (.set key (req i).token .XX ttl) s = (s, .of .null) := by
      simp [backend, Store.exec, hsome]
    rw [hexec]
    exact ⟨g i, Outline.Turns.refl s g hinv rfl, fun d _ => hnull _
      ((answered_deliver [.of .null] 0 rfl d).imp_right And.left)⟩

theorem wp_claim (htoken : Function.Injective fun i => (req i).token)
    (hfenced : γ.fenced = false) (hkey : (req i).marker env valid = some key) {ttl : String}
    (hwithin : (req i).Within env budget γ) {Q : Except String (List KvReply) → Claimant → Prop}
    (hset : ∀ out, answered out 0 = some (some (.str "OK")) ∨ answered out 0 = none →
      Q out { γ with fenced := true })
    (hnull : ∀ out, answered out 0 = some (some .null) ∨ answered out 0 = none → Q out γ) :
    (onboardingOutline env valid budget lossy req).wp (M := M) (backend ι) i
      (pipeline [.set key (req i).token .NX ttl]) Q γ := by
  refine wp_pipeline ?_
  rintro s g hinv rfl
  by_cases hnone : (s.kv key).isSome = false
  · have hexec : (backend ι).exec i (.set key (req i).token .NX ttl) s =
        (s.written key (some (req i).token), .of (.str "OK")) := by
      simp only [backend, Store.exec, hnone, reduceCtorEq, decide_false, if_true]
      rfl
    rw [hexec]
    exact ⟨_, hinv.claim hfenced htoken hkey hwithin, fun d _ => hset _
      ((answered_deliver [.of (.str "OK")] 0 rfl d).imp_right And.left)⟩
  · have hexec : (backend ι).exec i (.set key (req i).token .NX ttl) s = (s, .of .null) := by
      simp [backend, Store.exec, hnone]
    rw [hexec]
    exact ⟨g i, Outline.Turns.refl s g hinv rfl, fun d _ => hnull _
      ((answered_deliver [.of .null] 0 rfl d).imp_right And.left)⟩

theorem wpCmds_release (hkey : (req i).marker env valid = some key)
    (hstands : (req i).Stands env γ) (hK : ∀ r γ', K [r] γ') :
    (onboardingOutline env valid budget lossy req).wpCmds (backend ι) i
      [.fencedSlotRelease key ((req i).sourceKey env) ((req i).dayGlobalKey env) (req i).token] []
      K γ := by
  rintro s g hinv rfl
  obtain ⟨_, _, a, b, hsource, hday, -⟩ := hstands
  by_cases hown : s.kv key = some (.str (req i).token)
  · have hreleased := hinv.release hkey hown hsource hday
    have hcount : (s.written key none).Countable ((req i).sourceKey env) :=
      Store.countable_written (fun h => not_isMarker_accountSourceDayKey (h ▸ isMarker hkey))
        (hinv.countable not_isMarker_accountSourceDayKey)
    have hcount' : ((s.written key none).added i ((req i).sourceKey env) (-1)).Countable
        ((req i).dayGlobalKey env) :=
      Store.countable_added (Store.countable_written
        (fun h => not_isMarker_accountDayKey (h ▸ isMarker hkey))
        (hinv.countable not_isMarker_accountDayKey))
    have hexec : (backend ι).exec i (.fencedSlotRelease key ((req i).sourceKey env)
        ((req i).dayGlobalKey env) (req i).token) s =
          (Tally.released env s i (req i) key, .of (.int 1)) := by
      simp only [backend, Store.exec, hown, if_true]
      change Store.releaseSlot (s.written key none) _ _ _ = _
      simp only [Store.releaseSlot, Store.add_of_countable hcount, Store.add_of_countable hcount',
        Tally.released]
    rw [hexec]
    exact ⟨_, hreleased, hK _ _⟩
  · have hexec : (backend ι).exec i (.fencedSlotRelease key ((req i).sourceKey env)
        ((req i).dayGlobalKey env) (req i).token) s = (s, .of (.int 0)) := by
      simp [backend, Store.exec, hown]
    rw [hexec]
    exact ⟨g i, Outline.Turns.refl s g hinv rfl, hK _ _⟩

/-! ## Functions of the shared counter -/

theorem flatMap_keys {r : OnboardingRequest} {a : ℤ} :
    (r.keys env).flatMap (fun key => incrCmds key a) =
      incrCmds (r.sourceKey env) a ++ (incrCmds (r.dayGlobalKey env) a ++ []) := rfl

theorem wp_giveBack {stamped : Bool} (hstands : (req i).Stands env γ)
    (hfenced : stamped = false → γ.fenced = false)
    (hmarker : stamped = true → ((req i).marker env valid).isSome = true)
    {Q : Unit → Claimant → Prop} (hQ : ∀ γ', Q () γ') :
    (onboardingOutline env valid budget lossy req).wp (M := M) (backend ι) i
      (giveBack env valid (req i) stamped) Q γ := by
  unfold giveBack
  rw [Outline.wp_bind]
  refine wp_pipeline ?_
  cases stamped with
  | true =>
    obtain ⟨key, hkey⟩ := Option.isSome_iff_exists.mp (hmarker rfl)
    rw [hkey]
    exact wpCmds_release hkey hstands fun _ γ' _ _ => hQ γ'
  | false =>
    obtain ⟨_, _, a, b, hsource, hday, -⟩ := hstands
    dsimp only
    rw [flatMap_keys]
    refine wpCmds_dropSlot (hfenced rfl) not_isMarker_accountSourceDayKey hsource fun _ _ => ?_
    have hday' : (γ.put ((req i).sourceKey env) none).wallet ((req i).dayGlobalKey env) =
        some ⟨1, b⟩ := by
      rw [Claimant.put_of_ne sourceKey_ne_dayGlobalKey.symm, hday]
    exact wpCmds_dropSlot (hfenced rfl) not_isMarker_accountDayKey hday' fun _ _ _ _ => hQ _

theorem wp_giveBack_unfenced (hstands : (req i).Stands env γ) (hfenced : γ.fenced = false)
    {Q : Unit → Claimant → Prop} (hQ : ∀ γ', Q () γ') :
    (onboardingOutline env valid budget lossy req).wp (M := M) (backend ι) i
      (giveBack env valid (req i) false) Q γ :=
  wp_giveBack hstands (fun _ => hfenced) Bool.noConfusion hQ

/-- Both increments handed back and the repeat counted. -/
theorem wpCmds_handBack (hfenced : γ.fenced = false) (hstands : (req i).Stands env γ)
    (hnone : γ.wallet ((req i).repeatKey env) = none)
    (hK : ∀ got n m, got.length = 4 → ∀ γ' : Claimant, γ'.fenced = false → γ'.backed = γ.backed →
      γ'.wallet ((req i).repeatKey env) = some ⟨1, n⟩ →
      K (got ++ [.of (.int n), .of (.int m)]) γ') :
    (onboardingOutline env valid budget lossy req).wpCmds (backend ι) i
      (((req i).keys env).flatMap (fun key => incrCmds key (-1)) ++
        incrCmds ((req i).repeatKey env) 1) [] K γ := by
  obtain ⟨_, _, a, b, hsource, hday, -⟩ := hstands
  change (onboardingOutline env valid budget lossy req).wpCmds (backend ι) i
    (incrCmds ((req i).sourceKey env) (-1) ++ (incrCmds ((req i).dayGlobalKey env) (-1) ++
      (incrCmds ((req i).repeatKey env) 1 ++ []))) [] K γ
  refine wpCmds_dropSlot hfenced not_isMarker_accountSourceDayKey hsource fun n₁ m₁ => ?_
  have hday' : (γ.put ((req i).sourceKey env) none).wallet ((req i).dayGlobalKey env) =
      some ⟨1, b⟩ := by
    rw [Claimant.put_of_ne sourceKey_ne_dayGlobalKey.symm, hday]
  refine wpCmds_dropSlot hfenced not_isMarker_accountDayKey hday' fun n₂ m₂ => ?_
  have hnone' : ((γ.put ((req i).sourceKey env) none).put ((req i).dayGlobalKey env) none).wallet
      ((req i).repeatKey env) = none := by
    rw [Claimant.put_of_ne repeatKey_ne_dayGlobalKey, Claimant.put_of_ne repeatKey_ne_sourceKey,
      hnone]
  refine wpCmds_takeSlot hfenced not_isMarker_accountRepeatDayKey hnone' fun n m => ?_
  exact hK _ n m rfl _ hfenced rfl Claimant.put_self

/-- A request that tried to be a repeat is one, or it has what it had. -/
structure AfterRepeat (env : Env) (lossy : Bool) (r : OnboardingRequest) (γ : Claimant)
    (o : Option ℤ) (γ' : Claimant) : Prop where
  fresh : o = none → γ'.wallet = γ.wallet ∧ γ'.fenced = false
  repeated : ∀ {repeats}, o = some repeats → r.Repeated env lossy repeats γ'

theorem wp_asRepeat (htoken : Function.Injective fun i => (req i).token)
    (hfenced : γ.fenced = false) (hkey : (req i).marker env valid = some key)
    (hstands : (req i).Stands env γ) (hnone : γ.wallet ((req i).repeatKey env) = none) :
    (onboardingOutline env valid budget lossy req).wp (M := M) (backend ι) i
      (asRepeat env (req i) key) (AfterRepeat env lossy (req i) γ) γ := by
  have hfresh : ∀ γ' : Claimant, γ'.wallet = γ.wallet → γ'.fenced = false →
      AfterRepeat env lossy (req i) γ none γ' :=
    fun γ' hwallet hfenced => ⟨fun _ => ⟨hwallet, hfenced⟩, by simp⟩
  have hrepeated : ∀ repeats γ', (req i).Repeated env lossy repeats γ' →
      AfterRepeat env lossy (req i) γ (some repeats) γ' := by
    intro repeats γ' h
    refine ⟨by simp, fun heq => ?_⟩
    cases heq
    exact h
  unfold asRepeat
  rw [Outline.wp_bind]
  refine wp_restamp htoken hfenced hkey (fun out hout => ?_) fun out hout => ?_
  · rcases hout with hout | hout
    · rw [hout]
      dsimp only
      rw [Outline.wp_bind]
      refine wp_pipeline (wpCmds_handBack hfenced hstands hnone fun got n m hlen γ' hf hb hw d hd => ?_)
      have hreply : (got ++ [KvReply.of (.int n), .of (.int m)])[4]? = some (.of (.int n)) := by
        rw [List.getElem?_append_right hlen.le, hlen]
        rfl
      have hindex : ((req i).keys env).length * 2 = 4 := rfl
      rw [hindex]
      rcases answered_deliver _ 4 hreply d with h | ⟨h, hne⟩ <;> rw [h]
      · exact hrepeated n γ' ⟨hb, hf, fun _ => hw⟩
      · refine hrepeated 0 γ' ⟨hb, hf, fun hlossy => ?_⟩
        rcases hd with hd | hd
        · rw [hlossy] at hd
          cases hd
        · exact absurd hd hne
    · rw [hout]
      exact hfresh _ rfl hfenced
  · rcases hout with hout | hout <;>
    · rw [hout]
      exact hfresh _ rfl hfenced

theorem wp_stamp (htoken : Function.Injective fun i => (req i).token)
    (hfenced : γ.fenced = false) (hkey : (req i).marker env valid = some key)
    (hwithin : (req i).Within env budget γ) (hnone : γ.wallet ((req i).repeatKey env) = none) :
    (onboardingOutline env valid budget lossy req).wp (M := M) (backend ι) i
      (stamp env (req i) key)
      (fun o γ' => match o with
        | .repeated repeats => (req i).Repeated env lossy repeats γ'
        | .stamped fenced => γ'.wallet = γ.wallet ∧ (fenced = false → γ'.fenced = false)) γ := by
  unfold stamp
  rw [Outline.wp_bind]
  refine wp_claim htoken hfenced hkey hwithin (fun out hout => ?_) fun out hout => ?_
  · rcases hout with hout | hout <;>
    · rw [hout]
      exact ⟨rfl, Bool.noConfusion⟩
  · rcases hout with hout | hout
    · rw [hout]
      dsimp only
      rw [Outline.wp_bind]
      refine Outline.wp_mono ?_ (wp_asRepeat htoken hfenced hkey ⟨_, _, hwithin⟩ hnone)
      rintro (_ | repeats) γ' h
      · exact ⟨(h.fresh rfl).1, fun _ => (h.fresh rfl).2⟩
      · exact h.repeated rfl
    · rw [hout]
      exact ⟨rfl, Bool.noConfusion⟩

/-! ## Reading totals -/

theorem readOpening_deliver {r : OnboardingRequest} {rs : List KvReply} {p q : ℤ}
    (hget : (r.marker env valid).isSome = true → ∃ x, rs[0]? = some (.of x))
    (hreports : Reports rs (if (r.marker env valid).isSome then 1 else 0) [p, q]) (d : Fault) :
    (∃ existing, readOpening env valid r (d.deliver rs) = .ok (existing, [p, q])) ∨
      (∃ msg, readOpening env valid r (d.deliver rs) = .error msg) ∧ d ≠ .intact := by
  cases hout : d.deliver rs with
  | error msg =>
    refine .inr ⟨⟨msg, rfl⟩, ?_⟩
    rintro rfl
    cases hout
  | ok out =>
    cases hmarker : (r.marker env valid).isSome with
    | false =>
      rw [hmarker, if_neg Bool.false_ne_true] at hreports
      have hread : readOpening env valid r (.ok out) =
          (incrTotals out (r.keys env) 0).bind fun ns => .ok (false, ns) := by
        simp [readOpening, hmarker, bind, Except.bind, pure, Except.pure]
      rw [hread]
      rcases incrTotals_deliver (r.keys env) hout hreports rfl with h | ⟨⟨msg, h⟩, hne⟩ <;> rw [h]
      · exact .inl ⟨false, rfl⟩
      · exact .inr ⟨⟨msg, rfl⟩, hne⟩
    | true =>
      rw [hmarker, if_pos rfl] at hreports
      obtain ⟨x, hx⟩ := hget hmarker
      cases hr : out[0]? with
      | none =>
        have hread : readOpening env valid r (.ok out) = .error "caps store error: undefined" := by
          simp [readOpening, hmarker, hr, bind, Except.bind]
        refine .inr ⟨⟨_, hread⟩, ?_⟩
        rintro rfl
        cases hout
        rw [hx] at hr
        cases hr
      | some got =>
        by_cases hfail : got.failed = true
        · have hread : readOpening env valid r (.ok out) =
              .error ("caps store error: " ++ got.error.getD "undefined") := by
            simp [readOpening, hmarker, hr, hfail, bind, Except.bind]
          refine .inr ⟨⟨_, hread⟩, ?_⟩
          rintro rfl
          cases hout
          obtain rfl := Option.some.inj (hx.symm.trans hr)
          cases hfail
        · have hread : readOpening env valid r (.ok out) =
              (incrTotals out (r.keys env) 1).bind fun ns =>
                .ok (decide (got.result ≠ some .null), ns) := by
            simp [readOpening, hmarker, hr, hfail, bind, Except.bind, pure, Except.pure]
          rw [hread]
          rcases incrTotals_deliver (r.keys env) hout hreports rfl with h | ⟨⟨msg, h⟩, hne⟩ <;> rw [h]
          · exact .inl ⟨_, rfl⟩
          · exact .inr ⟨⟨msg, rfl⟩, hne⟩

/-- A total that is read again is the store's, or missing. -/
theorem parseTotal_damaged (bad : Bool) (msg : String) (x : Option ℤ) :
    ∃ o, parseTotal (if bad then .err ("ERR " ++ msg) else .of (ofTotal x)) = .ok o ∧
      (o = none ∨ o = x) := by
  cases bad with
  | true => exact ⟨none, by simp [parseTotal, KvReply.failed, KvReply.err], .inl rfl⟩
  | false => exact ⟨x, by cases x <;> rfl, .inr rfl⟩

theorem freshTotals_deliver (totals : List ℤ) (x y : Option ℤ) (d : Fault) :
    freshTotals totals (d.deliver [.of (ofTotal x), .of (ofTotal y)]) = .ok totals ∨
      ∃ c c', x = some c ∧ y = some c' ∧
        freshTotals totals (d.deliver [.of (ofTotal x), .of (ofTotal y)]) = .ok [c, c'] := by
  have hpair : ∀ (b b' : Bool) msg,
      let out : List KvReply := [if b then .err ("ERR " ++ msg) else .of (ofTotal x),
        if b' then .err ("ERR " ++ msg) else .of (ofTotal y)]
      freshTotals totals (.ok out) = .ok totals ∨
        ∃ c c', x = some c ∧ y = some c' ∧ freshTotals totals (.ok out) = .ok [c, c'] := by
    intro b b' msg out
    obtain ⟨o, ho, hx⟩ := parseTotal_damaged b msg x
    obtain ⟨o', ho', hy⟩ := parseTotal_damaged b' msg y
    have hkeep : o = none ∨ o' = none → freshTotals totals (.ok out) = .ok totals := by
      rintro (rfl | rfl)
      · simp [out, freshTotals, parseTotals, ho, ho', bind, Except.bind, pure, Except.pure]
      · cases o <;>
          simp [out, freshTotals, parseTotals, ho, ho', bind, Except.bind, pure, Except.pure]
    rcases o with _ | c
    · exact .inl (hkeep (.inl rfl))
    rcases o' with _ | c'
    · exact .inl (hkeep (.inr rfl))
    refine .inr ⟨c, c', (hx.resolve_left (by simp)).symm, (hy.resolve_left (by simp)).symm, ?_⟩
    simp [out, freshTotals, parseTotals, ho, ho', bind, Except.bind, pure, Except.pure]
  cases d with
  | intact => exact hpair false false ""
  | lost msg => exact .inl rfl
  | short n =>
    by_cases hn : 2 ≤ n
    · have htake : (Fault.short n).deliver [.of (ofTotal x), .of (ofTotal y)] =
          .ok [.of (ofTotal x), .of (ofTotal y)] := by
        rw [Fault.deliver, List.take_of_length_le hn]
      rw [htake]
      exact hpair false false ""
    · obtain rfl | rfl : n = 0 ∨ n = 1 := by omega
      · exact .inl rfl
      · cases x <;> exact .inl rfl
  | damaged bad msg => exact hpair (bad 0) (bad 1) msg

/-! ## Reserving and settling -/

omit [DecidableEq ι] [Fintype ι] in
theorem slot_congr {r : OnboardingRequest} {γ' : Claimant} (h : γ'.wallet = γ.wallet) {p q : ℤ} :
    r.Slot env γ' p q ↔ r.Slot env γ p q := by
  unfold Slot
  rw [h]

/-- Both counters raised, after the marker was read if there is one. -/
theorem wpCmds_opening
    (hK : ∀ rs p q γ', (((req i).marker env valid).isSome = true → ∃ x, rs[0]? = some (.of x)) →
      Reports rs (if ((req i).marker env valid).isSome then 1 else 0) [p, q] →
      (req i).Counts env [p, q] γ' → K rs γ') :
    (onboardingOutline env valid budget lossy req).wpCmds (backend ι) i
      ((((req i).marker env valid).toList.map .get) ++
        ((req i).keys env).flatMap fun key => incrCmds key 1) [] K .fresh := by
  have htake : ∀ got, (∀ p m q m' γ', (req i).Counts env [p, q] γ' →
      K (got ++ [.of (.int p), .of (.int m)] ++ [.of (.int q), .of (.int m')]) γ') →
      (onboardingOutline env valid budget lossy req).wpCmds (backend ι) i
        (((req i).keys env).flatMap fun key => incrCmds key 1) got K .fresh := by
    intro got hgot
    rw [flatMap_keys]
    refine wpCmds_takeSlot rfl not_isMarker_accountSourceDayKey rfl fun p m => ?_
    refine wpCmds_takeSlot rfl not_isMarker_accountDayKey
      (Claimant.put_of_ne sourceKey_ne_dayGlobalKey.symm) fun q m' => ?_
    refine hgot p m q m' _ ⟨⟨p, q, rfl, p, q, ?_, Claimant.put_self, le_rfl, le_rfl⟩, rfl, ?_⟩
    · rw [Claimant.put_of_ne sourceKey_ne_dayGlobalKey, Claimant.put_self]
    · rw [Claimant.put_of_ne repeatKey_ne_dayGlobalKey, Claimant.put_of_ne repeatKey_ne_sourceKey]
      rfl
  cases hmarker : (req i).marker env valid with
  | none =>
    rw [hmarker] at hK
    exact htake [] fun p m q m' γ' hcounts => hK _ p q γ' (by simp) ⟨rfl, rfl, trivial⟩ hcounts
  | some key =>
    rw [hmarker] at hK
    exact wpCmds_get fun x => htake [.of x] fun p m q m' γ' hcounts =>
      hK _ p q γ' (fun _ => ⟨x, rfl⟩) ⟨rfl, rfl, trivial⟩ hcounts

/-- Both totals read again. -/
theorem wpCmds_fresh {p q : ℤ} (hcounts : (req i).Counts env [p, q] γ)
    (hK : ∀ x y γ', (∀ totals, totals = [p, q] ∨ (∃ c c', x = some c ∧ y = some c' ∧ totals = [c, c']) →
      (req i).Counts env totals γ') → K [.of (ofTotal x), .of (ofTotal y)] γ') :
    (onboardingOutline env valid budget lossy req).wpCmds (backend ι) i
      (((req i).keys env).map .get) [] K γ := by
  obtain ⟨⟨_, _, heq, a, b, hsource, hday, ha, hb⟩, hfenced, hnone⟩ := hcounts
  cases heq
  refine wpCmds_reread hfenced not_isMarker_accountSourceDayKey hsource fun x a' ha' hx => ?_
  have hday' : (γ.put ((req i).sourceKey env) (some ⟨1, a'⟩)).wallet ((req i).dayGlobalKey env) =
      some ⟨1, b⟩ := by
    rw [Claimant.put_of_ne sourceKey_ne_dayGlobalKey.symm, hday]
  refine wpCmds_reread hfenced not_isMarker_accountDayKey hday' fun y b' hb' hy => ?_
  refine hK x y _ fun totals htotals => ⟨?_, hfenced, ?_⟩
  · have hslot : ∀ source day, a' ≤ source → b' ≤ day → (req i).Slot env
        ((γ.put ((req i).sourceKey env) (some ⟨1, a'⟩)).put ((req i).dayGlobalKey env)
          (some ⟨1, b'⟩)) source day := by
      intro source day hsource hday
      refine ⟨a', b', ?_, Claimant.put_self, hsource, hday⟩
      rw [Claimant.put_of_ne sourceKey_ne_dayGlobalKey, Claimant.put_self]
    rcases htotals with rfl | ⟨c, c', rfl, rfl, rfl⟩
    · exact ⟨_, _, rfl, hslot _ _ (ha'.trans ha) (hb'.trans hb)⟩
    · exact ⟨_, _, rfl, hslot _ _ (hx c rfl) (hy c' rfl)⟩
  · rw [Claimant.put_of_ne repeatKey_ne_dayGlobalKey, Claimant.put_of_ne repeatKey_ne_sourceKey]
    exact hnone

theorem wp_reserve (htoken : Function.Injective fun i => (req i).token) :
    (onboardingOutline env valid budget lossy req).wp (M := M) (backend ι) i
      (reserve env valid (req i))
      (fun o γ => match o with
        | .error _ => lossy = true ∧ (req i).Stands env γ
        | .ok (.repeated repeats) => (req i).Repeated env lossy repeats γ
        | .ok (.slot h) => ∃ totals, h = sharedSlot env valid (req i) totals ∧
            (req i).Counts env totals γ) .fresh := by
  unfold reserve
  rw [Outline.wp_bind]
  refine wp_pipeline (wpCmds_opening fun rs p q γ hget hreports hcounts d hd => ?_)
  rcases readOpening_deliver hget hreports d with ⟨existing, h⟩ | ⟨⟨msg, h⟩, hne⟩ <;> rw [h]
  swap
  · obtain ⟨_, _, -, hslot⟩ := hcounts.slot
    exact ⟨hd.resolve_right hne, _, _, hslot⟩
  cases existing with
  | false => exact ⟨_, rfl, hcounts⟩
  | true =>
    cases hmarker : (req i).marker env valid with
    | none => exact ⟨_, rfl, hcounts⟩
    | some key =>
      obtain ⟨_, _, heq, hslot⟩ := hcounts.slot
      cases heq
      dsimp only
      rw [Outline.wp_bind]
      refine Outline.wp_mono ?_
        (wp_asRepeat htoken hcounts.fenced hmarker ⟨_, _, hslot⟩ hcounts.uncounted)
      rintro (_ | repeats) γ' h
      · obtain ⟨hwallet, hfenced⟩ := h.fresh rfl
        have hcounts' : (req i).Counts env [p, q] γ' :=
          ⟨⟨p, q, rfl, (slot_congr hwallet).mpr hslot⟩, hfenced, hwallet ▸ hcounts.uncounted⟩
        dsimp only
        rw [Outline.wp_bind]
        refine wp_pipeline (wpCmds_fresh hcounts' fun x y γ'' hcounts'' d _ => ?_)
        rcases freshTotals_deliver [p, q] x y d with h | ⟨c, c', rfl, rfl, h⟩ <;> rw [h]
        · exact ⟨_, rfl, hcounts'' _ (.inl rfl)⟩
        · exact ⟨_, rfl, hcounts'' _ (.inr ⟨c, c', rfl, rfl, rfl⟩)⟩
      · exact h.repeated rfl

theorem settled_repeatVerdict {r : OnboardingRequest} {repeats : ℤ}
    (h : r.Repeated env lossy repeats γ) :
    r.Settled env valid budget lossy (repeatVerdict (M := M) repeats) γ := by
  unfold repeatVerdict
  split
  · exact Bool.noConfusion
  · rename_i hle
    exact fun _ => .inl ⟨rfl, rfl, repeats, not_lt.mp hle, h⟩

theorem wp_settle_shared (htoken : Function.Injective fun i => (req i).token) {totals : List ℤ}
    (hcounts : (req i).Counts env totals γ) :
    (onboardingOutline env valid budget lossy req).wp (M := M) (backend ι) i
      (settle budget (.slot (sharedSlot env valid (req i) totals)))
      ((req i).Settled env valid budget lossy) γ := by
  obtain ⟨⟨p, q, rfl, hslot⟩, hfenced, hnone⟩ := hcounts
  unfold settle
  dsimp only
  split
  · rw [Outline.wp_bind]
    exact wp_giveBack_unfenced ⟨_, _, hslot⟩ hfenced fun _ => Outline.wp_pure.mpr Bool.noConfusion
  rename_i hsource
  split
  · rw [Outline.wp_bind]
    exact wp_giveBack_unfenced ⟨_, _, hslot⟩ hfenced fun _ => Outline.wp_pure.mpr Bool.noConfusion
  rename_i hday
  have hwithin : (req i).Within env budget γ := by
    obtain ⟨a, b, hs, hd, ha, hb⟩ := hslot
    have hp : p ≤ budget.maxDaySourceAccounts := by simpa [sharedSlot] using hsource
    have hq : q ≤ budget.maxDayAccounts := by simpa [sharedSlot] using hday
    exact ⟨a, b, hs, hd, ha.trans hp, hb.trans hq⟩
  cases hmarker : (req i).marker env valid with
  | none =>
    have hstamp : (sharedSlot (M := M) (ε := Onboarding) env valid (req i) [p, q]).stamp = none := by
      rw [sharedSlot, hmarker]
      rfl
    rw [hstamp]
    exact fun _ => .inr ⟨rfl, hwithin, false, rfl, fun _ => hfenced, Bool.noConfusion⟩
  | some key =>
    have hstamp : (sharedSlot (M := M) (ε := Onboarding) env valid (req i) [p, q]).stamp =
        some (stamp env (req i) key) := by
      rw [sharedSlot, hmarker]
      rfl
    rw [hstamp]
    dsimp only
    rw [Outline.wp_bind]
    refine Outline.wp_mono ?_ (wp_stamp htoken hfenced hmarker hwithin hnone)
    rintro (fenced | repeats) γ' h
    · obtain ⟨hwallet, hfenced'⟩ := h
      refine fun _ => .inr ⟨rfl, (slot_congr hwallet).mpr hwithin, fenced, rfl, hfenced', ?_⟩
      rw [hmarker]
      exact fun _ => rfl
    · exact settled_repeatVerdict h

/-! ## Without the shared counter -/

theorem quiet_atomically {α : Type} {f : M → M × α} :
    (onboardingOutline env valid budget lossy req).Quiet (backend ι) i (atomically f) :=
  fun h m => h (f m).2

/-- What is held in memory is claimed and given back in memory. -/
def InMemory (O : Outline ι (Store ι) Claimant Fault Onboarding) (i : ι) :
    Held Isolate Onboarding → Prop
  | .repeated _ => True
  | .slot h => (∀ p, h.stamp = some p → O.Quiet (backend ι) i p) ∧
      ∀ stamped, O.Quiet (backend ι) i (h.giveBack stamped)

theorem wp_degrade {Q : Held Isolate Onboarding → Claimant → Prop}
    (hQ : ∀ held, InMemory (onboardingOutline env valid budget lossy req) i held → Q held γ) :
    (onboardingOutline env valid budget lossy req).wp (backend ι) i (degrade env valid (req i))
      Q γ := by
  unfold degrade
  intro m
  refine hQ _ ?_
  dsimp only
  split
  · split
    · trivial
    · refine ⟨?_, fun _ => quiet_atomically⟩
      rintro p ⟨⟩
      exact quiet_atomically
  · exact ⟨by simp, fun _ => quiet_atomically⟩

theorem wp_settle_inMemory {held : Held Isolate Onboarding}
    (hheld : InMemory (onboardingOutline env valid budget lossy req) i held)
    {Q : CapVerdict Isolate Onboarding → Claimant → Prop}
    (hQ : ∀ v, (∀ p, v.release = some p →
      (onboardingOutline env valid budget lossy req).Quiet (backend ι) i p) → Q v γ) :
    (onboardingOutline env valid budget lossy req).wp (backend ι) i (settle budget held) Q γ := by
  have hrepeat : ∀ repeats, Q (repeatVerdict repeats) γ := by
    intro repeats
    refine hQ _ fun p hp => ?_
    unfold repeatVerdict at hp
    split at hp
    · cases hp
    · cases hp
      exact fun h => h ()
  cases held with
  | repeated repeats => exact hrepeat repeats
  | slot held =>
    obtain ⟨hstamp, hgiveBack⟩ := hheld
    unfold settle
    dsimp only
    split
    · rw [Outline.wp_bind]
      exact hgiveBack false fun _ => hQ _ (by simp)
    split
    · rw [Outline.wp_bind]
      exact hgiveBack false fun _ => hQ _ (by simp)
    cases hs : held.stamp with
    | none =>
      refine hQ _ ?_
      rintro p ⟨⟩
      exact hgiveBack false
    | some p =>
      dsimp only
      rw [Outline.wp_bind]
      refine hstamp p hs ?_
      rintro (fenced | repeats)
      · refine hQ _ ?_
        rintro p ⟨⟩
        exact hgiveBack fenced
      · exact hrepeat repeats

theorem wp_withoutStore {Q : CapVerdict Isolate Onboarding × Counter → Claimant → Prop}
    (hQ : ∀ v counter, counter ≠ .shared → (∀ p, v.release = some p →
      (onboardingOutline env valid budget lossy req).Quiet (backend ι) i p) → Q (v, counter) γ) :
    (onboardingOutline env valid budget lossy req).wp (backend ι) i
      (withoutStore env valid budget (req i)) Q γ := by
  unfold withoutStore
  split
  · exact hQ _ _ (by simp) (by simp)
  · rw [Outline.wp_bind]
    refine wp_degrade fun held hheld => ?_
    rw [Outline.wp_bind]
    exact wp_settle_inMemory hheld fun v hv => hQ v .isolate (by simp) hv

/-! ## The whole request -/

/-- A verdict on the shared counter is settled; one without it was given because the store failed,
and leaves the increments where they are. -/
theorem wp_checkOnboardingBudget (hkv : env.kv = true)
    (htoken : Function.Injective fun i => (req i).token) :
    (onboardingOutline env valid budget lossy req).wp (backend ι) i
      (checkOnboardingBudget env valid budget (req i))
      (fun o γ => match o with
        | (v, .shared) => (req i).Settled env valid budget lossy v γ
        | (v, _) => lossy = true ∧ (req i).Stands env γ ∧ ∀ p, v.release = some p →
            (onboardingOutline env valid budget lossy req).Quiet (backend ι) i p) .fresh := by
  unfold checkOnboardingBudget
  rw [if_neg (by simp [hkv]), Outline.wp_bind]
  refine Outline.wp_mono ?_ (wp_reserve htoken)
  rintro (msg | (repeats | held)) γ h
  · obtain ⟨hlossy, hstands⟩ := h
    refine wp_withoutStore fun v counter hcounter hv => ?_
    cases counter with
    | shared => exact absurd rfl hcounter
    | isolate => exact ⟨hlossy, hstands, hv⟩
    | nobody => exact ⟨hlossy, hstands, hv⟩
  · exact settled_repeatVerdict h
  · obtain ⟨totals, rfl, hcounts⟩ := h
    dsimp only
    rw [Outline.wp_bind]
    exact wp_settle_shared htoken hcounts

theorem shows_of_ne_shared {r : OnboardingRequest} {isRepeat : Bool} {counter : Counter}
    (hcounter : counter ≠ .shared) (hlossy : lossy = true) (hstands : r.Stands env γ) :
    r.Shows env budget lossy γ (.served isRepeat counter) := by
  cases counter with
  | shared => exact absurd rfl hcounter
  | isolate => cases isRepeat <;> exact ⟨hlossy, hstands⟩
  | nobody => cases isRepeat <;> exact ⟨hlossy, hstands⟩

theorem wp_onboardingRequest (hkv : env.kv = true)
    (htoken : Function.Injective fun i => (req i).token) :
    (onboardingOutline env valid budget lossy req).wp (backend ι) i
      (onboardingRequest env valid budget (req i))
      ((onboardingOutline env valid budget lossy req).shown i) .fresh := by
  refine ⟨trivial, _, Outline.Turns.refl, ?_⟩
  rw [Outline.wp_bind]
  refine Outline.wp_mono ?_ (wp_checkOnboardingBudget hkv htoken)
  rintro ⟨v, counter⟩ γ h
  dsimp only
  split
  swap
  · exact trivial
  rename_i hok
  by_cases hcounter : counter = .shared
  · subst hcounter
    rcases h hok with ⟨hrepeat, hrelease, hrepeated⟩ | ⟨hrepeat, hwithin, fenced, hrelease, hf, hm⟩ <;>
      rw [hrepeat, hrelease]
    · exact ⟨hrepeated, γ, Outline.Turns.refl, hrepeated⟩
    · refine ⟨hwithin, γ, Outline.Turns.refl, ?_⟩
      rw [Option.getD_some, Outline.wp_bind]
      exact wp_giveBack ⟨_, _, hwithin⟩ hf hm fun _ => trivial
  · obtain ⟨hlossy, hstands, hquiet⟩ : lossy = true ∧ (req i).Stands env γ ∧ ∀ p,
        v.release = some p → (onboardingOutline env valid budget lossy req).Quiet (backend ι) i p := by
      cases counter with
      | shared => exact absurd rfl hcounter
      | isolate => exact h
      | nobody => exact h
    refine ⟨shows_of_ne_shared hcounter hlossy hstands, γ, Outline.Turns.refl, ?_⟩
    rw [Outline.wp_bind]
    have hend : ∀ _ : Unit, (onboardingOutline env valid budget lossy req).wp (M := Isolate) (backend ι) i
        (pure (if v.isRepeat = true then Onboarding.served true counter else .released))
        ((onboardingOutline env valid budget lossy req).shown i) γ := by
      intro
      rw [Outline.wp_pure]
      split
      · exact shows_of_ne_shared hcounter hlossy hstands
      · exact trivial
    cases hrelease : v.release with
    | none => exact hend ()
    | some p => exact hquiet p hrelease hend

end

end Lumenia.Sponsor
