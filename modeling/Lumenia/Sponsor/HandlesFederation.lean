import Lumenia.Sponsor.HandlesSafety

/-!
# Federation agrees with itself

Claims, releases and lookups one after the other, over a store that may hold pointers in the older
layout, one for each network; every command is executed and answered. `federation_agrees`: while
releases find no older pointer of another network, a name that is found for an account leads back to it, and an account that has released its
name has none and can claim another. `pointer_left_behind`: a name that was practised with and then
moved to the other network keeps its older pointer when it is released.
-/

namespace Lumenia.Sponsor.Handles

open Dialogue Proofs Stellar

/-! ## Names as they are stored -/

theorem not_isSpace_of_isNameChar {c : Char} (h : isNameChar c = true) : isSpace c = false := by
  have hrange : c.toNat ∈ Set.Icc 48 57 ∨ c.toNat = 95 ∨ c.toNat ∈ Set.Icc 97 122 := by
    simp only [isNameChar, isLower, Bool.or_eq_true, Bool.and_eq_true, decide_eq_true_eq] at h
    rcases h with (⟨hle, hge⟩ | ⟨hle, hge⟩) | rfl
    · exact .inr (.inr ⟨hle, hge⟩)
    · exact .inl ⟨hle, hge⟩
    · exact .inr (.inl rfl)
  simp only [isSpace, List.mem_cons, List.not_mem_nil, or_false, Bool.or_eq_false_iff,
    Bool.and_eq_false_iff, decide_eq_false_iff_not]
  rcases hrange with ⟨hle, hge⟩ | heq | ⟨hle, hge⟩ <;> omega

theorem isNameChar_of_isName {name : String} (h : isName name = true) :
    ∀ c ∈ name.toList, isNameChar c = true := by
  unfold isName at h
  split at h
  · cases h
  · next c cs heq =>
    simp only [Bool.and_eq_true, List.all_eq_true] at h
    obtain ⟨⟨hfirst, hrest⟩, -⟩ := h
    intro d hd
    rw [heq] at hd
    rcases List.mem_cons.mp hd with rfl | hd
    · simp [isNameChar, hfirst]
    · exact hrest d hd

theorem dropWhile_eq_self {p : Char → Bool} {l : List Char} (h : ∀ c ∈ l, p c = false) :
    l.dropWhile p = l := by
  cases l with
  | nil => rfl
  | cons c cs => simp [h c (List.mem_cons_self ..)]

/-- What is stored under a name is found under it. -/
theorem normalizeHandle_of_isName {env : Env} {name : String} (h : isName name = true) :
    normalizeHandle env name = name := by
  have hchars := isNameChar_of_isName h
  have hspace (c : Char) (hc : c ∈ name.toList) : isSpace c = false :=
    not_isSpace_of_isNameChar (hchars c hc)
  have hat (c : Char) (hc : c ∈ name.toList) : decide (c = '@') = false := by
    apply decide_eq_false
    intro heq
    have hname := hchars c hc
    rw [heq] at hname
    exact absurd hname (by decide)
  have htrim : trim name = name := by
    unfold trim
    rw [dropWhile_eq_self hspace, dropWhile_eq_self (by simpa using hspace), List.reverse_reverse,
      String.ofList_toList]
  rw [normalizeHandle, htrim, env.toLowerCase_name name hchars, dropWhile_eq_self hat,
    String.ofList_toList]

theorem isName_of_valid {name : String} (h : validateHandleShape name = .ok ()) :
    isName name = true := by
  unfold validateHandleShape at h
  split at h
  · cases h
  · next hname => simpa using hname

/-! ## One call after the other -/

/-- Time goes by, and then the store executes a command or the clock is read. -/
inductive Serves : Store → (q : Ask) → q.Answer → Store → Prop
  | run {s : Store} {c : Command} {t : ℕ} (h : s.now ≤ t) :
    Serves s (.run c) (.ok (.ok (s.cells.exec t c).1)) ⟨t, (s.cells.exec t c).2⟩
  | now {s : Store} {t : ℕ} (h : s.now ≤ t) : Serves s .now t ⟨t, s.cells⟩

inductive Turn
  | claim (input : ProofInput)
  | release (input : ProofInput)
  | federation (q type : String) (network : NetworkId)

/-- What is asked of a release that goes through, in the store before. -/
abbrev ReleaseCondition := Env → Store → ProofInput → Prop

/-- No older pointer of the account is kept for a network other than that of the record. -/
def Cleared : ReleaseCondition := fun env s input =>
  ∀ rec, s.cells.get s.now (.name (normalizeHandle env input.name)) = some rec →
    ∀ network, network ≠ rec.network → s.cells.get s.now (.ofLegacy network rec.pubkey) = none

section

variable (env : Env) (met : ReleaseCondition)

inductive Moves : Turn → Store → Store → Prop
  | claim {input : ProofInput} {s s' : Store} {r : Except String (Except String Found)}
    (h : Runs Serves (claimHandle env input) s r s') : Moves (.claim input) s s'
  | release {input : ProofInput} {s s' : Store} {r : Except String (Except String String)}
    (h : Runs Serves (releaseHandle env input) s r s')
    (hmet : ∀ name, r = .ok (.ok name) → met env s input) : Moves (.release input) s s'
  | federation {q type : String} {network : NetworkId} {s s' : Store}
    {r : Except String (Except String FederationAnswer)}
    (h : Runs Serves (federationLookup env q type network) s r s') :
    Moves (.federation q type network) s s'

/-- A run of turns of the given kind. -/
def Reaches (kind : Turn → Prop) : Store → Store → Prop :=
  Relation.ReflTransGen fun s s' => ∃ turn, kind turn ∧ Moves env met turn s s'

end

def Turn.NotClaimOf (q : String) : Turn → Prop
  | claim input => input.pubkey ≠ q
  | _ => True

namespace Store

variable (s : Store)

/-- The account has a pointer to the name, under its own key or an older one. -/
def Pointed (q name : String) : Prop :=
  s.cells.get s.now (.of_ q) = some name ∨
    ∃ network, s.cells.get s.now (.ofLegacy network q) = some name

/-- Every pointer leads to a live name of its account, which has no expiry. -/
structure Agreed : Prop where
  lasting : ∀ n rec expiry, s.cells (.name n) = some (rec, expiry) → rec.releasedUntil = none →
    expiry = none
  shaped : ∀ q n, s.Pointed q n → validateHandleShape n = .ok ()
  owned : ∀ q n, s.Pointed q n → s.owner n = some q

def Unpointed (q : String) : Prop := ∀ n, ¬s.Pointed q n

variable {s} {s' : Store} {q n : String}

theorem Pointed.of_le (hle : s.now ≤ s'.now)
    (hof : s'.cells (.of_ q) = s.cells (.of_ q))
    (hlegacy : ∀ network, s'.cells (.ofLegacy network q) = s.cells (.ofLegacy network q))
    (h : s'.Pointed q n) : s.Pointed q n := by
  rcases h with h | ⟨network, h⟩
  · rw [Cells.get_congr hof] at h
    exact .inl (Cells.get_of_le hle h)
  · rw [Cells.get_congr (hlegacy network)] at h
    exact .inr ⟨network, Cells.get_of_le hle h⟩

theorem Agreed.owner_later (h : s.Agreed) {t : ℕ} (hn : s.owner n = some q) :
    Store.owner ⟨t, s.cells⟩ n = some q := by
  obtain ⟨rec, hget, hlive, howner⟩ := owner_eq_some.mp hn
  obtain ⟨expiry, hcell, -⟩ := Cells.get_eq_some.mp hget
  obtain rfl := h.lasting n rec expiry hcell hlive
  exact owner_eq_some.mpr ⟨rec, Cells.get_of_cell hcell, hlive, howner⟩

/-- What a step has to leave for the pointers to lead where they did. -/
theorem Agreed.step (h : s.Agreed)
    (hlasting : ∀ n rec expiry, s'.cells (.name n) = some (rec, expiry) → rec.releasedUntil = none →
      s.cells (.name n) = some (rec, expiry) ∨ expiry = none)
    (howner : ∀ n q, s.Pointed q n → s.owner n = some q → s'.Pointed q n → s'.owner n = some q)
    (hpointed : ∀ q n, s'.Pointed q n → s.Pointed q n ∨
      validateHandleShape n = .ok () ∧ s'.owner n = some q) : s'.Agreed where
  lasting n rec expiry hcell hlive := by
    rcases hlasting n rec expiry hcell hlive with hcell' | hnone
    · exact h.lasting n rec expiry hcell' hlive
    · exact hnone
  shaped q n hn := by
    rcases hpointed q n hn with hn' | ⟨hshape, -⟩
    · exact h.shaped q n hn'
    · exact hshape
  owned q n hn := by
    rcases hpointed q n hn with hn' | ⟨-, howns⟩
    · exact howner n q hn' (h.owned q n hn') hn
    · exact howns

/-- A step that touches no name and no pointer. -/
theorem Agreed.same (h : s.Agreed) (hle : s.now ≤ s'.now)
    (hname : ∀ n, s'.cells (.name n) = s.cells (.name n))
    (hof : ∀ q, s'.cells (.of_ q) = s.cells (.of_ q))
    (hlegacy : ∀ network q, s'.cells (.ofLegacy network q) = s.cells (.ofLegacy network q)) :
    s'.Agreed := by
  refine h.step (fun n rec expiry hcell _ => .inl (hname n ▸ hcell)) (fun n q _ hn _ => ?_)
    fun q n hn => .inl (hn.of_le hle (hof q) fun network => hlegacy network q)
  have hsame : s'.owner n = Store.owner ⟨s'.now, s.cells⟩ n := owner_congr rfl (hname n)
  exact hsame.trans (h.owner_later hn)

end Store

/-! ### Commands -/

section

variable {s : Store} {key : Key} {v : key.Entry} {ttl : Option ℕ}

@[simp] theorem wp_now {post : Except String ℕ → Store → Prop} :
    (ask .now).wp Serves post s ↔ ∀ t, s.now ≤ t → post (.ok t) ⟨t, s.cells⟩ := by
  constructor
  · exact fun h t ht => h t _ (.now ht)
  · rintro h a s' ⟨ht⟩
    exact h _ ‹_›

theorem wp_entry {c : Command} {post : Except String (Except String c.Answer) → Store → Prop} :
    (entry c).wp Serves post s ↔
      ∀ t, s.now ≤ t → post (.ok (.ok (s.cells.exec t c).1)) ⟨t, (s.cells.exec t c).2⟩ := by
  constructor
  · exact fun h t ht => h _ _ (.run ht)
  · rintro h a s' (⟨ht⟩ | -)
    exact h _ ht

@[simp] theorem wp_kvGet {post : Except String (Option key.Entry) → Store → Prop} :
    (kvGet key).wp Serves post s ↔
      ∀ t, s.now ≤ t → post (.ok (s.cells.get t key)) ⟨t, s.cells⟩ :=
  wp_bind.trans wp_entry

@[simp] theorem wp_kvSet {post : Except String Unit → Store → Prop} :
    (kvSet key v ttl).wp Serves post s ↔ ∀ t, s.now ≤ t →
      post (.ok ()) ⟨t, s.cells.set key v ((ttl.map (· * 1000)).map (t + ·))⟩ :=
  wp_bind.trans wp_entry

@[simp] theorem wp_kvSetNx {post : Except String Bool → Store → Prop} :
    (kvSetNx key v ttl).wp Serves post s ↔ ∀ t, s.now ≤ t →
      post (.ok (s.cells.setNx t key v ((ttl.map (· * 1000)).map (t + ·))).1)
        ⟨t, (s.cells.setNx t key v ((ttl.map (· * 1000)).map (t + ·))).2⟩ :=
  wp_bind.trans wp_entry

@[simp] theorem wp_kvDel {post : Except String Unit → Store → Prop} :
    (kvDel key).wp Serves post s ↔ ∀ t, s.now ≤ t → post (.ok ()) ⟨t, s.cells.del key⟩ :=
  wp_bind.trans wp_entry

end

/-! ### What the parts of a call leave -/

/-- The records and the pointers are as they were. -/
structure Kept (s s' : Store) : Prop where
  now : s.now ≤ s'.now
  name : ∀ n, s'.cells (.name n) = s.cells (.name n)
  of_ : ∀ q, s'.cells (.of_ q) = s.cells (.of_ q)
  legacy : ∀ network q, s'.cells (.ofLegacy network q) = s.cells (.ofLegacy network q)

/-- And the skeletons, too. -/
structure Frame (s s' : Store) : Prop extends Kept s s' where
  skel : ∀ f, s'.cells (.skel f) = s.cells (.skel f)

/-- The registry is in order, the records are as they were, and no account has got a pointer. -/
structure Follows (s s' : Store) : Prop where
  agreed : s'.Agreed
  now : s.now ≤ s'.now
  name : ∀ n, s'.cells (.name n) = s.cells (.name n)
  skel : ∀ f, s'.cells (.skel f) = s.cells (.skel f)
  unpointed : ∀ q, s.Unpointed q → s'.Unpointed q

/-- The registry is in order, and only the account can have got a pointer. -/
structure Serving (q : String) (s s' : Store) : Prop where
  agreed : s'.Agreed
  now : s.now ≤ s'.now
  others : ∀ p, p ≠ q → s.Unpointed p → s'.Unpointed p

section

variable {env : Env} {s s' s'' : Store} {q n : String}

theorem Kept.agreed (h : Kept s s') (hs : s.Agreed) : s'.Agreed :=
  hs.same h.now h.name h.of_ h.legacy

theorem Kept.unpointed (h : Kept s s') (hq : s.Unpointed q) : s'.Unpointed q :=
  fun n hn => hq n (hn.of_le h.now (h.of_ q) fun network => h.legacy network q)

theorem Frame.follows (h : Frame s s') (hs : s.Agreed) : Follows s s' :=
  ⟨h.agreed hs, h.now, h.name, h.skel, fun _ => h.unpointed⟩

theorem Frame.later {t : ℕ} (h : s.now ≤ t) : Frame s ⟨t, s.cells⟩ :=
  ⟨⟨h, fun _ => rfl, fun _ => rfl, fun _ _ => rfl⟩, fun _ => rfl⟩

theorem Follows.trans (h : Follows s s') (h' : Follows s' s'') : Follows s s'' :=
  ⟨h'.agreed, h.now.trans h'.now, fun n => (h'.name n).trans (h.name n),
    fun f => (h'.skel f).trans (h.skel f), fun q hq => h'.unpointed q (h.unpointed q hq)⟩

/-- The account gets a pointer to a name of its own. -/
theorem serving_set_of {t : ℕ} (hs : s.Agreed) (ht : s.now ≤ t)
    (hshape : validateHandleShape n = .ok ()) (howner : s.owner n = some q) :
    Serving q s ⟨t, s.cells.set (.of_ q) n none⟩ := by
  have hname (m : String) : s.cells.set (.of_ q) n none (.name m) = s.cells (.name m) :=
    Cells.set_of_ne nofun
  have hlater {m p : String} (hm : s.owner m = some p) :
      Store.owner ⟨t, s.cells.set (.of_ q) n none⟩ m = some p := by
    have hsame : Store.owner ⟨t, s.cells.set (.of_ q) n none⟩ m = Store.owner ⟨t, s.cells⟩ m :=
      Store.owner_congr rfl (hname m)
    exact hsame.trans (hs.owner_later hm)
  have hother {p m : String} (hp : p ≠ q)
      (hm : Store.Pointed ⟨t, s.cells.set (.of_ q) n none⟩ p m) : s.Pointed p m :=
    hm.of_le ht (Cells.set_of_ne fun heq => hp (Key.of_.inj heq)) fun _ => by simp
  have hpoints {p m : String} (hm : Store.Pointed ⟨t, s.cells.set (.of_ q) n none⟩ p m) :
      s.Pointed p m ∨ p = q ∧ m = n := by
    by_cases hp : p = q
    · subst hp
      rcases hm with hm | ⟨network, hm⟩
      · rw [Cells.get_set_self] at hm
        exact .inr ⟨rfl, (Option.some.inj hm).symm⟩
      · have hm' : s.cells.get t (.ofLegacy network p) = some m := by simpa using hm
        exact .inl (.inr ⟨network, Cells.get_of_le ht hm'⟩)
    · exact .inl (hother hp hm)
  refine ⟨hs.step (fun m rec expiry hm _ => .inl (hname m ▸ hm)) (fun m p _ hm _ => hlater hm)
    fun p m hm => ?_, ht, fun p hp hn m hm => hn m (hother hp hm)⟩
  rcases hpoints hm with hm' | ⟨rfl, rfl⟩
  · exact .inl hm'
  · exact .inr ⟨hshape, hlater howner⟩

theorem follows_set_of {t : ℕ} (hs : s.Agreed) (ht : s.now ≤ t)
    (hshape : validateHandleShape n = .ok ()) (howner : s.owner n = some q)
    (hpointed : ¬s.Unpointed q) : Follows s ⟨t, s.cells.set (.of_ q) n none⟩ := by
  have hserving := serving_set_of hs ht hshape howner
  refine ⟨hserving.agreed, ht, fun m => by simp, fun f => by simp, fun p hp => ?_⟩
  by_cases hpq : p = q
  · exact absurd (hpq ▸ hp) hpointed
  · exact hserving.others p hpq hp

/-- A proof the check cannot refuse, as long as the run from the first store to the second lasts. -/
structure Acceptable (env : ProofEnv) (input : ProofInput) (s s' : Store) : Prop
    extends input.WellFormed where
  timely : ∀ t, s.now ≤ t → t ≤ s'.now → env.timely (t / 1000) input.ts = true
  verifies : env.verifies input.pubkey input.message input.proof = true
  fresh : s.cells.get s.now (.proof (env.sha256Hex input.message)) = none

theorem wp_verifyHandleProof {env : ProofEnv} {input : ProofInput} :
    (verifyHandleProof deps env input).wp Serves (fun r s' => Frame s s' ∧ ∃ v, r = .ok v ∧
      (v = .ok () → isValidEd25519PublicKey input.pubkey = true) ∧
      (Acceptable env input s s' → v = .ok ())) s := by
  unfold verifyHandleProof
  rw [wp_ite]
  refine ⟨fun hpubkey => ?_, fun hpubkey => ?_⟩
  · refine ⟨Frame.later le_rfl, _, rfl, nofun, fun h => ?_⟩
    rw [h.pubkey] at hpubkey
    cases hpubkey
  rw [Bool.not_eq_false] at hpubkey
  rw [wp_bind]
  apply wp_now.mpr
  intro t ht
  rw [onValue_ok, wp_ite, wp_ite, wp_ite, wp_bind]
  refine ⟨fun hlate => ?_, fun _ => ⟨fun hnonce => ?_, fun _ => ⟨fun hsigned => ?_, fun _ =>
    wp_kvSetNx.mpr fun t' ht' => ?_⟩⟩⟩
  · refine ⟨Frame.later ht, _, rfl, nofun, fun h => ?_⟩
    rw [h.timely t ht le_rfl] at hlate
    cases hlate
  · refine ⟨Frame.later ht, _, rfl, nofun, fun h => ?_⟩
    rw [h.nonce] at hnonce
    cases hnonce
  · refine ⟨Frame.later ht, _, rfl, nofun, fun h => ?_⟩
    rw [h.verifies] at hsigned
    cases hsigned
  · cases hget : s.cells.get t' (.proof (env.sha256Hex input.message)) with
    | some v =>
      rw [Cells.setNx_of_some hget]
      refine ⟨Frame.later (ht.trans ht'), _, rfl, nofun, fun h => ?_⟩
      have hremembered := Cells.get_of_le (ht.trans ht') hget
      rw [h.fresh] at hremembered
      cases hremembered
    | none =>
      rw [Cells.setNx_of_none hget]
      refine ⟨⟨⟨ht.trans ht', fun _ => ?_, fun _ => ?_, fun _ _ => ?_⟩, fun _ => ?_⟩, _, rfl,
        fun _ => hpubkey, fun _ => rfl⟩
      all_goals simp

theorem wp_healLegacy (hs : s.Agreed) {networks : List NetworkId} :
    (healLegacy q networks).wp Serves (fun r s' => Follows s s' ∧ ∃ found, r = .ok found ∧
      (∀ n, found = some n → validateHandleShape n = .ok () ∧ s'.owner n = some q ∧ ¬s.Unpointed q) ∧
      (found = none → s'.cells = s.cells ∧
        ∀ network ∈ networks, s.cells.get s'.now (.ofLegacy network q) = none)) s := by
  induction networks generalizing s with
  | nil => exact ⟨(Frame.later le_rfl).follows hs, none, rfl, nofun, fun _ => ⟨rfl, nofun⟩⟩
  | cons network networks ih =>
    rw [healLegacy, wp_bind]
    apply wp_kvGet.mpr
    intro t ht
    have hfollows : Follows s ⟨t, s.cells⟩ := (Frame.later ht).follows hs
    cases hget : s.cells.get t (.ofLegacy network q) with
    | none =>
      refine wp_mono (fun r s' => ?_) (ih hfollows.agreed)
      intro h
      obtain ⟨hrest, found, rfl, hfound, hnone⟩ := h
      refine ⟨hfollows.trans hrest, found, rfl, fun n hn => ?_, fun hf =>
        ⟨(hnone hf).1, fun k hk => ?_⟩⟩
      · obtain ⟨hshape, howner, hpointed⟩ := hfound n hn
        exact ⟨hshape, howner, fun hq => hpointed (hfollows.unpointed q hq)⟩
      · rcases List.mem_cons.mp hk with rfl | hk
        · exact Cells.get_none_of_le hrest.now hget
        · exact (hnone hf).2 k hk
    | some name =>
      have hpoints : Store.Pointed ⟨t, s.cells⟩ q name := .inr ⟨network, hget⟩
      have hshape := hfollows.agreed.shaped q name hpoints
      have howner := hfollows.agreed.owned q name hpoints
      rw [onValue_ok, wp_bind]
      apply wp_kvSet.mpr
      intro t' ht'
      have hset := follows_set_of hfollows.agreed ht' hshape howner fun hq => hq name hpoints
      refine ⟨hfollows.trans hset, some name, rfl, fun n hn => ?_, nofun⟩
      obtain rfl := Option.some.inj hn
      exact ⟨hshape, hset.agreed.owned q name (.inl Cells.get_set_self), fun hq =>
        hfollows.unpointed q hq name hpoints⟩

/-- The name that is found for an account is its own, and one without a name has no pointer. -/
theorem wp_handleOf (hs : s.Agreed) :
    (handleOf q).wp Serves (fun r s' => Follows s s' ∧ ∃ found, r = .ok found ∧
      (∀ n, found = some n → validateHandleShape n = .ok () ∧ s'.owner n = some q) ∧
      (found = none → isValidEd25519PublicKey q = true → s'.Unpointed q) ∧
      (s.Unpointed q → found = none)) s := by
  rw [handleOf, wp_ite]
  refine ⟨fun hinvalid => ?_, fun _ => ?_⟩
  · refine ⟨(Frame.later le_rfl).follows hs, none, rfl, nofun, fun _ hvalid => ?_, fun _ => rfl⟩
    rw [hvalid] at hinvalid
    cases hinvalid
  rw [wp_bind]
  apply wp_kvGet.mpr
  intro t ht
  have hfollows : Follows s ⟨t, s.cells⟩ := (Frame.later ht).follows hs
  cases hget : s.cells.get t (.of_ q) with
  | some name =>
    refine ⟨hfollows, some name, rfl, fun n hn => ?_, nofun, fun hq => ?_⟩
    · obtain rfl := Option.some.inj hn
      exact ⟨hfollows.agreed.shaped q name (.inl hget), hfollows.agreed.owned q name (.inl hget)⟩
    · exact absurd (.inl hget) (hfollows.unpointed q hq name)
  | none =>
    refine wp_mono (fun r s' => ?_) (wp_healLegacy hfollows.agreed)
    intro h
    obtain ⟨hrest, found, rfl, hfound, hnone⟩ := h
    refine ⟨hfollows.trans hrest, found, rfl, fun n hn => ?_, fun hf _ n hn => ?_, fun hq => ?_⟩
    · exact ⟨(hfound n hn).1, (hfound n hn).2.1⟩
    · obtain ⟨hcells, hlegacy⟩ := hnone hf
      rcases hn with hn | ⟨network, hn⟩
      · rw [hcells, Cells.get_none_of_le hrest.now hget] at hn
        cases hn
      · rw [hcells, hlegacy network (by cases network <;> simp)] at hn
        cases hn
    · exact Option.eq_none_iff_forall_ne_some.mpr fun n hn =>
        (hfound n hn).2.2 (hfollows.unpointed q hq)

theorem wp_lookupHandle {raw : String} :
    (lookupHandle env raw).wp Serves (fun r s' => Frame s s' ∧ ∃ found, r = .ok found) s := by
  unfold lookupHandle
  dsimp only
  cases validateHandleShape (normalizeHandle env raw) with
  | error reason => exact ⟨Frame.later le_rfl, none, rfl⟩
  | ok u =>
    dsimp only
    rw [wp_bind]
    apply wp_kvGet.mpr
    intro t ht
    cases s.cells.get t (.name (normalizeHandle env raw)) with
    | none => exact ⟨Frame.later ht, none, rfl⟩
    | some rec =>
      rw [onValue_ok, wp_ite]
      exact ⟨fun _ => ⟨Frame.later ht, none, rfl⟩, fun _ => ⟨Frame.later ht, _, rfl⟩⟩

/-- A live name leads to its account. -/
theorem wp_lookupHandle_of_owner (hs : s.Agreed) (hshape : validateHandleShape n = .ok ())
    (howner : s.owner n = some q) : (lookupHandle env n).wp Serves (fun r s' => Frame s s' ∧
      ∃ rec, s.cells (.name n) = some (rec, none) ∧ r = .ok (some ⟨n, q, rec.network⟩)) s := by
  obtain ⟨rec, hget, hlive, hrec⟩ := Store.owner_eq_some.mp howner
  obtain ⟨expiry, hcell, -⟩ := Cells.get_eq_some.mp hget
  obtain rfl := hs.lasting n rec expiry hcell hlive
  rw [lookupHandle, normalizeHandle_of_isName (isName_of_valid hshape), hshape]
  dsimp only
  rw [wp_bind]
  apply wp_kvGet.mpr
  intro t ht
  rw [Cells.get_of_cell hcell, onValue_ok, wp_ite]
  refine ⟨fun hreleased => ?_, fun _ => ⟨Frame.later ht, rec, hcell, by rw [hrec]⟩⟩
  rw [hlive] at hreleased
  cases hreleased

/-! ### Lookups -/

theorem federation_follows (hs : s.Agreed) {type : String} {network : NetworkId} :
    (federationLookup env q type network).wp Serves (fun _ s' => Follows s s') s := by
  rw [federationLookup, wp_ite, wp_ite]
  refine ⟨fun _ => ?_, fun _ => ⟨fun _ => ?_, fun _ => (Frame.later le_rfl).follows hs⟩⟩
  · cases splitAddress q with
    | none => exact (Frame.later le_rfl).follows hs
    | some parts =>
      dsimp only
      rw [wp_ite, wp_bind]
      refine ⟨fun _ => (Frame.later le_rfl).follows hs, fun _ => ?_⟩
      refine wp_mono (fun r s' => ?_) wp_lookupHandle
      intro h
      obtain ⟨hframe, found, rfl⟩ := h
      rw [onValue_ok]
      cases found.filter (·.network = network) <;> exact hframe.follows hs
  · refine wp_bind.mpr (wp_mono (fun r s' => ?_) (wp_handleOf hs))
    intro h
    obtain ⟨hfollows, found, rfl, -⟩ := h
    rw [onValue_ok]
    cases found with
    | none => exact hfollows
    | some name =>
      dsimp only
      rw [wp_bind]
      refine wp_mono (fun r s'' => ?_) wp_lookupHandle
      intro h
      obtain ⟨hframe, found, rfl⟩ := h
      rw [onValue_ok]
      cases found.filter (·.network = network) <;>
        exact hfollows.trans (hframe.follows hfollows.agreed)

theorem federation_id (hs : s.Agreed) {network : NetworkId} :
    (federationLookup env q "id" network).wp Serves (fun r s' => s'.Agreed ∧
      (s.Unpointed q → r = .ok (.error "not found")) ∧
      ∀ answer, r = .ok (.ok answer) → ∃ n rec, validateHandleShape n = .ok () ∧
        s'.owner n = some q ∧ s'.cells (.name n) = some (rec, none) ∧ rec.network = network ∧
        answer = ⟨n ++ "*" ++ env.federationDomain, q⟩) s := by
  rw [federationLookup, if_neg (by decide), if_pos rfl]
  refine wp_bind.mpr (wp_mono (fun r s' => ?_) (wp_handleOf hs))
  intro h
  obtain ⟨hfollows, found, rfl, hfound, -, hnone⟩ := h
  rw [onValue_ok]
  cases found with
  | none => exact ⟨hfollows.agreed, fun _ => rfl, nofun⟩
  | some name =>
    obtain ⟨hshape, howner⟩ := hfound name rfl
    refine wp_bind.mpr (wp_mono (fun r s'' => ?_)
      (wp_lookupHandle_of_owner hfollows.agreed hshape howner))
    intro h
    obtain ⟨hframe, rec, hcell, rfl⟩ := h
    rw [onValue_ok]
    have hagreed := hframe.agreed hfollows.agreed
    have hpointed : ¬s.Unpointed q := fun hq => by cases hnone hq
    by_cases hnetwork : rec.network = network
    · rw [Option.filter_some_pos (by simpa using hnetwork)]
      refine ⟨hagreed, fun hq => absurd hq hpointed, fun answer hanswer => ?_⟩
      cases hanswer
      refine ⟨name, rec, hshape, ?_, (hframe.name name).trans hcell, hnetwork, rfl⟩
      have hlater := hfollows.agreed.owner_later (t := s''.now) howner
      have hsame : s''.owner name = Store.owner ⟨s''.now, s'.cells⟩ name :=
        Store.owner_congr rfl (hframe.name name)
      exact hsame.trans hlater
    · rw [Option.filter_some_neg (by simpa using hnetwork)]
      exact ⟨hagreed, fun hq => absurd hq hpointed, nofun⟩

theorem federation_name (hs : s.Agreed) {network : NetworkId} {query domain : String}
    {rec : HandleRecord} (hquery : splitAddress query = some (n, domain))
    (hdomain : env.toLowerCase domain = env.toLowerCase env.federationDomain)
    (hshape : validateHandleShape n = .ok ()) (howner : s.owner n = some q)
    (hcell : s.cells (.name n) = some (rec, none)) (hnetwork : rec.network = network) :
    (federationLookup env query "name" network).wp Serves
      (fun r _ => r = .ok (.ok ⟨n ++ "*" ++ env.federationDomain, q⟩)) s := by
  rw [federationLookup, if_pos rfl, hquery]
  dsimp only
  rw [wp_ite]
  refine ⟨fun hne => absurd hdomain hne, fun _ => wp_bind.mpr ?_⟩
  refine wp_mono (fun r s' => ?_) (wp_lookupHandle_of_owner hs hshape howner)
  intro h
  obtain ⟨-, rec', hcell', rfl⟩ := h
  rw [hcell] at hcell'
  cases hcell'
  rw [onValue_ok, Option.filter_some_pos (by simpa using hnetwork)]
  rfl

/-! ### Claims -/

theorem Follows.serving (h : Follows s s') : Serving q s s' :=
  ⟨h.agreed, h.now, fun p _ => h.unpointed p⟩

theorem Kept.serving (h : Kept s s') (hs : s.Agreed) : Serving q s s' :=
  ⟨h.agreed hs, h.now, fun _ _ => h.unpointed⟩

theorem Follows.then (h : Follows s s') (h' : Serving q s' s'') : Serving q s s'' :=
  ⟨h'.agreed, h.now.trans h'.now, fun p hp hn => h'.others p hp (h.unpointed p hn)⟩

/-- The account has got the name, which was nobody's, and its only pointer leads to it. -/
theorem serving_claim {rec : HandleRecord} (hs : s.Agreed) (hnow : s.now ≤ s'.now)
    (hshape : validateHandleShape n = .ok ()) (hnobody : s.owner n = none) (hfree : s.Unpointed q)
    (hrec : s'.cells (.name n) = some (rec, none)) (hlive : rec.releasedUntil = none)
    (howner : rec.pubkey = q) (hname : ∀ m, m ≠ n → s'.cells (.name m) = s.cells (.name m))
    (hself : s'.cells (.of_ q) = some (n, none))
    (hof : ∀ p, p ≠ q → s'.cells (.of_ p) = s.cells (.of_ p))
    (hlegacy : ∀ network p, s'.cells (.ofLegacy network p) = s.cells (.ofLegacy network p)) :
    Serving q s s' := by
  have howns : s'.owner n = some q :=
    Store.owner_eq_some.mpr ⟨rec, Cells.get_of_cell hrec, hlive, howner⟩
  have hother {p m : String} (hp : p ≠ q) (hm : s'.Pointed p m) : s.Pointed p m :=
    hm.of_le hnow (hof p hp) fun network => hlegacy network p
  refine ⟨hs.step (fun m rec' expiry hm _ => ?_) (fun m p _ hm _ => ?_) fun p m hm => ?_, hnow,
    fun p hp hn m hm => hn m (hother hp hm)⟩
  · by_cases hmn : m = n
    · subst hmn
      rw [hrec] at hm
      cases hm
      exact .inr rfl
    · exact .inl (hname m hmn ▸ hm)
  · have hmn : m ≠ n := by
      rintro rfl
      rw [hnobody] at hm
      cases hm
    have hsame : s'.owner m = Store.owner ⟨s'.now, s.cells⟩ m := Store.owner_congr rfl (hname m hmn)
    exact hsame.trans (hs.owner_later hm)
  · by_cases hp : p = q
    · subst hp
      rcases hm with hm | ⟨network, hm⟩
      · rw [Cells.get_of_cell hself] at hm
        cases hm
        exact .inr ⟨hshape, howns⟩
      · rw [Cells.get_congr (hlegacy network p)] at hm
        exact .inl (.inr ⟨network, Cells.get_of_le hnow hm⟩)
    · exact .inl (hother hp hm)

theorem wp_skelHolder {took : Bool} : (skelHolder n took).wp Serves (fun r s' => s.now ≤ s'.now ∧
    s'.cells = s.cells ∧ ∃ holder, r = .ok holder ∧ (took = true → holder = some n) ∧
      (took = false → holder = s.cells.get s'.now (.skel (skeleton n)))) s := by
  rw [skelHolder, wp_ite]
  refine ⟨fun htook => ⟨le_rfl, rfl, _, rfl, fun _ => rfl, fun h => ?_⟩, fun htook => ?_⟩
  · rw [htook] at h
    cases h
  · exact wp_kvGet.mpr fun t ht => ⟨ht, rfl, _, rfl, fun h => absurd h htook, fun _ => rfl⟩

theorem wp_giveSkelBack {took : Bool} : (giveSkelBack n took).wp Serves (fun r s' => r = .ok () ∧
    s.now ≤ s'.now ∧ ∀ key, key ≠ .skel (skeleton n) → s'.cells key = s.cells key) s := by
  rw [giveSkelBack, wp_ite]
  refine ⟨fun _ => wp_kvDel.mpr fun t ht => ⟨rfl, ht, fun key hkey => ?_⟩, fun _ => ⟨rfl, le_rfl, ?_⟩⟩
  · exact Cells.del_of_ne hkey
  · exact fun _ _ => rfl

/-- The name is nobody's, and its skeleton is free or held for it, for as long as the run lasts. -/
structure Ready (n : String) (s s' : Store) : Prop where
  skel : ∀ h, s.cells.get s.now (.skel (skeleton n)) = some h → h = n
  steady : ∀ h t, s.cells (.skel (skeleton n)) = some (h, some t) → t ≤ s.now ∨ s'.now < t

/-- The skeleton of a name that is ready is held for it at any time of the run, if it is held. -/
theorem Ready.holder (h : Ready n s s'') {t t' : ℕ} {holder : String} (ht : s.now ≤ t)
    (ht' : t' ≤ s''.now) (hget : s.cells.get t (.skel (skeleton n)) = some holder) :
    s.cells.get t' (.skel (skeleton n)) = some n := by
  obtain rfl := h.skel holder (Cells.get_of_le ht hget)
  obtain ⟨expiry, hcell, hlive⟩ := Cells.get_eq_some.mp hget
  refine Cells.get_eq_some.mpr ⟨expiry, hcell, fun e he => ?_⟩
  obtain rfl := Option.mem_def.mp he
  have hlate := hlive e rfl
  rcases h.steady holder e hcell with hsoon | hsoon <;> omega

theorem wp_takeName {rec : HandleRecord} {replaces : Bool} :
    (takeName n rec replaces).wp Serves (fun r s' => s.now ≤ s'.now ∧ ∃ took, r = .ok took ∧
      (took = true → s'.cells = s.cells.set (.name n) rec none) ∧
      (took = false → s'.cells = s.cells ∧ replaces = false ∧
        s.cells.get s'.now (.name n) ≠ none)) s := by
  rw [takeName, wp_ite]
  refine ⟨fun _ => wp_bind.mpr (wp_kvSet.mpr fun t ht => ?_), fun hnew => wp_kvSetNx.mpr fun t ht => ?_⟩
  · exact ⟨ht, true, rfl, fun _ => rfl, nofun⟩
  · cases hget : s.cells.get t (.name n) with
    | some v =>
      rw [Cells.setNx_of_some hget]
      exact ⟨ht, false, rfl, nofun, fun _ => ⟨rfl, by simpa using hnew, by simp⟩⟩
    | none =>
      rw [Cells.setNx_of_none hget]
      exact ⟨ht, true, rfl, fun _ => rfl, nofun⟩

/-- A claim of a name that is nobody's, by an account without a pointer. -/
theorem wp_register {input : ProofInput} {replaces : Bool} (hs : s.Agreed)
    (hshape : validateHandleShape n = .ok ()) (hnobody : s.owner n = none)
    (hnew : replaces = false → s.cells.get s.now (.name n) = none)
    (hfree : s.Unpointed input.pubkey) :
    (register input n replaces).wp Serves (fun r s' => Serving input.pubkey s s' ∧
      (Ready n s s' → r = .ok (.ok ⟨n, input.pubkey, input.network⟩))) s := by
  rw [register]
  refine wp_bind.mpr (wp_kvSetNx.mpr fun t ht => ?_)
  rw [onValue_ok]
  generalize hset : s.cells.setNx t (.skel (skeleton n)) n _ = reserved
  obtain ⟨tookSkel, cells⟩ := reserved
  have hsame (key : Key) (hkey : key ≠ .skel (skeleton n)) : cells key = s.cells key :=
    (congrFun (congrArg Prod.snd hset) key).symm.trans (Cells.setNx_of_ne hkey)
  have hkept {s' : Store} (hle : s.now ≤ s'.now)
      (h : ∀ key, key ≠ .skel (skeleton n) → s'.cells key = s.cells key) : Kept s s' :=
    ⟨hle, fun m => h _ nofun, fun p => h _ nofun, fun network p => h _ nofun⟩
  refine wp_bind.mpr (wp_mono (fun r s₁ => ?_) wp_skelHolder)
  rintro ⟨hnow₁, hcells₁, holder, rfl, hmine, hother⟩
  rw [onValue_ok, wp_ite]
  refine ⟨fun hheld => ⟨(hkept (ht.trans hnow₁) fun key hkey => ?_).serving hs, fun hready => ?_⟩,
    fun _ => wp_bind.mpr (wp_now.mpr fun t₂ ht₂ => ?_)⟩
  · exact hcells₁ ▸ hsame key hkey
  · refine absurd ?_ hheld
    cases hget : s.cells.get t (.skel (skeleton n)) with
    | none =>
      rw [Cells.setNx_of_none hget] at hset
      exact hmine (Prod.mk.inj hset).1.symm
    | some h =>
      rw [Cells.setNx_of_some hget] at hset
      obtain ⟨hfalse, rfl⟩ := Prod.mk.inj hset
      rw [hother hfalse.symm]
      exact hready.holder ht le_rfl hget
  rw [onValue_ok]
  have hcells₂ (key : Key) (hkey : key ≠ .skel (skeleton n)) : s₁.cells key = s.cells key :=
    hcells₁ ▸ hsame key hkey
  have hnow₂ : s.now ≤ t₂ := ht.trans (hnow₁.trans ht₂)
  refine wp_bind.mpr (wp_mono (fun r s₃ => ?_) wp_takeName)
  rintro ⟨hnow₃, tookName, rfl, htaken, hlost⟩
  rw [onValue_ok, wp_ite]
  refine ⟨fun hfalse => wp_bind.mpr (wp_mono (fun r s₄ => ?_) wp_giveSkelBack), fun htrue => ?_⟩
  · -- An account that claims after another gets the name that it has found free.
    obtain ⟨-, hreplaces, hget⟩ := hlost hfalse
    refine absurd ?_ hget
    have hname : s₁.cells (.name n) = s.cells (.name n) := hcells₂ _ nofun
    refine (Cells.get_congr hname).trans ?_
    exact Cells.get_none_of_le (hnow₂.trans hnow₃) (hnew hreplaces)
  · have hcells₃ := htaken (by simpa using htrue)
    refine wp_bind.mpr (wp_kvSetNx.mpr fun t₄ ht₄ => ?_)
    have hnow₄ : s.now ≤ t₄ := hnow₂.trans (hnow₃.trans ht₄)
    have hofree : s₃.cells.get t₄ (.of_ input.pubkey) = none := by
      refine Option.eq_none_iff_forall_ne_some.mpr fun m hm => hfree m (.inl ?_)
      have hof : s₃.cells (.of_ input.pubkey) = s.cells (.of_ input.pubkey) := by
        rw [hcells₃]
        exact (Cells.set_of_ne (by simp)).trans (hcells₂ _ (by simp))
      exact Cells.get_of_le hnow₄ ((Cells.get_congr hof).symm.trans hm)
    rw [Cells.setNx_of_none hofree, hcells₃, onValue_ok, wp_ite]
    refine ⟨nofun, fun _ => ⟨?_, fun _ => rfl⟩⟩
    have hne : Key.name n ≠ .of_ input.pubkey := nofun
    have hrec : ((s₁.cells.set (.name n) ⟨input.pubkey, input.network, t₂, none⟩ none).set
        (.of_ input.pubkey) n none) (.name n) =
        some (⟨input.pubkey, input.network, t₂, none⟩, none) :=
      (Cells.set_of_ne hne).trans Cells.set_self
    have hrest (key : Key) (hskel : key ≠ .skel (skeleton n)) (hname : key ≠ .name n)
        (hof : key ≠ .of_ input.pubkey) : ((s₁.cells.set (.name n)
          ⟨input.pubkey, input.network, t₂, none⟩ none).set (.of_ input.pubkey) n none) key =
        s.cells key :=
      (Cells.set_of_ne hof).trans ((Cells.set_of_ne hname).trans (hcells₂ key hskel))
    refine serving_claim hs hnow₄ hshape hnobody hfree hrec rfl rfl (fun m hm => ?_) Cells.set_self
      (fun p hp => ?_) fun network p => ?_
    · exact hrest (.name m) nofun (fun heq => hm (Key.name.inj heq)) nofun
    · exact hrest (.of_ p) nofun nofun fun heq => hp (Key.of_.inj heq)
    · exact hrest (.ofLegacy network p) nofun nofun nofun

/-- A name of the account is moved to another network. -/
theorem wp_rehome {input : ProofInput} {rec : HandleRecord} (hs : s.Agreed)
    (hget : s.cells.get s.now (.name n) = some rec) (hlive : rec.releasedUntil = none)
    (howner : rec.pubkey = q) : (rehome input n rec).wp Serves (fun r s' => r = .ok () ∧
      s'.Agreed ∧ s.now ≤ s'.now ∧ (∀ p, s.Unpointed p → s'.Unpointed p) ∧
      s'.owner n = some q) s := by
  have howns : s.owner n = some q := Store.owner_eq_some.mpr ⟨rec, hget, hlive, howner⟩
  rw [rehome, wp_ite]
  refine ⟨fun _ => ⟨rfl, hs, le_rfl, fun _ => id, howns⟩, fun _ => wp_kvSet.mpr fun t ht => ?_⟩
  have hself : Store.owner ⟨t, s.cells.set (.name n) { rec with network := input.network } none⟩ n =
      some q := Store.owner_eq_some.mpr ⟨_, Cells.get_set_self, hlive, howner⟩
  have hpointed {p m : String} (hm : Store.Pointed
      ⟨t, s.cells.set (.name n) { rec with network := input.network } none⟩ p m) : s.Pointed p m :=
    hm.of_le ht (by simp) fun network => by simp
  refine ⟨rfl, hs.step (fun m rec' expiry hm _ => ?_) (fun m p _ hm _ => ?_) fun p m hm => .inl (hpointed hm),
    ht, fun p hp m hm => hp m (hpointed hm), hself⟩
  · by_cases hmn : m = n
    · subst hmn
      cases Cells.set_self.symm.trans hm
      exact .inr rfl
    · have hsame : s.cells.set (.name n) { rec with network := input.network } none (.name m) =
          s.cells (.name m) := Cells.set_of_ne fun heq => hmn (Key.name.inj heq)
      exact .inl (hsame.symm.trans hm)
  · by_cases hmn : m = n
    · subst hmn
      rw [howns] at hm
      cases hm
      exact hself
    · have hsame : Store.owner ⟨t, s.cells.set (.name n) { rec with network := input.network } none⟩ m =
          Store.owner ⟨t, s.cells⟩ m :=
        Store.owner_congr rfl (Cells.set_of_ne fun heq => hmn (Key.name.inj heq))
      exact hsame.trans (hs.owner_later hm)

theorem Ready.later (h : Ready n s s'') (hnow : s.now ≤ s'.now)
    (hskel : s'.cells (.skel (skeleton n)) = s.cells (.skel (skeleton n))) : Ready n s' s'' where
  skel f hf := by
    rw [Cells.get_congr hskel] at hf
    exact h.skel f (Cells.get_of_le hnow hf)
  steady f t hf := by
    rw [hskel] at hf
    exact (h.steady f t hf).imp_left fun ht => ht.trans hnow

/-- A name that is nobody's stays so while its record does. -/
theorem owner_none_later (hnow : s.now ≤ s'.now) (hname : s'.cells (.name n) = s.cells (.name n))
    (h : s.owner n = none) : s'.owner n = none := by
  apply Option.eq_none_iff_forall_ne_some.mpr
  intro q hq
  obtain ⟨rec, hget, hlive⟩ := Store.owner_eq_some.mp hq
  rw [Cells.get_congr hname] at hget
  rw [Store.owner_eq_some.mpr ⟨rec, Cells.get_of_le hnow hget, hlive⟩] at h
  cases h

theorem wp_claimFree {input : ProofInput} {replaces : Bool} (hs : s.Agreed)
    (hpubkey : isValidEd25519PublicKey input.pubkey = true)
    (hshape : validateHandleShape n = .ok ()) (hnobody : s.owner n = none)
    (hnew : replaces = false → s.cells.get s.now (.name n) = none) :
    (claimFree input n replaces).wp Serves (fun r s' => Serving input.pubkey s s' ∧
      (s.Unpointed input.pubkey → Ready n s s' →
        r = .ok (.ok ⟨n, input.pubkey, input.network⟩))) s := by
  rw [claimFree]
  refine wp_bind.mpr (wp_mono (fun r s₁ => ?_) (wp_handleOf hs))
  rintro ⟨hfollows, found, rfl, hfound, hfree, hnone⟩
  have hnobody₁ := owner_none_later hfollows.now (hfollows.name n) hnobody
  rw [onValue_ok]
  cases found with
  | some name =>
    have hne : name ≠ n := by
      rintro rfl
      have howner := (hfound name rfl).2
      rw [hnobody₁] at howner
      cases howner
    rw [Option.filter_some_pos (by simpa using hne)]
    refine ⟨hfollows.serving, fun hq => ?_⟩
    cases hnone hq
  | none =>
    refine wp_mono (fun r s' => ?_) (wp_register hfollows.agreed hshape hnobody₁ (fun hreplaces => ?_)
      (hfree rfl hpubkey))
    · rintro ⟨hserving, hready⟩
      refine ⟨hfollows.then hserving, fun _ h => hready (h.later hfollows.now (hfollows.skel _))⟩
    · rw [Cells.get_congr (hfollows.name n)]
      exact Cells.get_none_of_le hfollows.now (hnew hreplaces)

/-- The name can be claimed now. -/
structure Available (n : String) (s : Store) : Prop where
  shape : validateHandleShape n = .ok ()
  free : ∀ rec, s.cells.get s.now (.name n) = some rec → ∃ t, rec.releasedUntil = some t ∧ t ≤ s.now
  skel : ∀ h, s.cells.get s.now (.skel (skeleton n)) = some h → h = n

/-- The expiry of the skeleton, if it has one, does not come while the run lasts. -/
def Steady (n : String) (s s' : Store) : Prop :=
  ∀ h t, s.cells (.skel (skeleton n)) = some (h, some t) → t ≤ s.now ∨ s'.now < t

/-- What a claim cannot fail for, as long as the run from the first store to the second lasts. -/
structure Claimable (env : Env) (input : ProofInput) (s s' : Store) : Prop where
  accepted : Acceptable env.toProofEnv
    { input with name := normalizeHandle env input.name, action := .claim } s s'
  available : Available (normalizeHandle env input.name) s
  steady : Steady (normalizeHandle env input.name) s s'
  unpointed : s.Unpointed input.pubkey

theorem Claimable.ready {input : ProofInput} (h : Claimable env input s s') :
    Ready (normalizeHandle env input.name) s s' :=
  ⟨h.available.skel, h.steady⟩

theorem wp_claimHandle {input : ProofInput} (hs : s.Agreed) :
    (claimHandle env input).wp Serves (fun r s' => Serving input.pubkey s s' ∧
      (Claimable env input s s' →
        r = .ok (.ok ⟨normalizeHandle env input.name, input.pubkey, input.network⟩))) s := by
  rw [claimHandle]
  generalize hname : normalizeHandle env input.name = name
  cases hshape : validateHandleShape name with
  | error reason =>
    refine ⟨((Frame.later le_rfl).follows hs).serving, fun h => ?_⟩
    have hvalid := h.available.shape
    rw [hname, hshape] at hvalid
    cases hvalid
  | ok u =>
    refine wp_bind.mpr (wp_mono (fun r s₁ => ?_) wp_verifyHandleProof)
    rintro ⟨hframe, proofOk, rfl, hpubkey, haccept⟩
    have hfollows := hframe.follows hs
    rw [onValue_ok]
    cases proofOk with
    | error reason =>
      refine ⟨hfollows.serving, fun h => ?_⟩
      have haccepted := h.accepted
      rw [hname] at haccepted
      cases haccept haccepted
    | ok u =>
      refine wp_bind.mpr (wp_kvGet.mpr fun t ht => ?_)
      have hlater : Follows s ⟨t, s₁.cells⟩ :=
        hfollows.trans ((Frame.later ht).follows hfollows.agreed)
      rw [onValue_ok]
      cases hget : s₁.cells.get t (.name name) with
      | none =>
        have hnobody : Store.owner ⟨t, s₁.cells⟩ name = none := by rw [Store.owner, hget]; rfl
        refine wp_mono (fun r s' => ?_)
          (wp_claimFree hlater.agreed (hpubkey rfl) hshape hnobody fun _ => hget)
        rintro ⟨hserving, hready⟩
        refine ⟨hlater.then hserving, fun h => hready (hlater.unpointed _ h.unpointed) ?_⟩
        exact (hname ▸ h.ready).later hlater.now (hlater.skel _)
      | some existing =>
        have hrecord : s.cells.get s.now (.name name) = some existing := by
          rw [Cells.get_congr (hlater.name name)] at hget
          exact Cells.get_of_le hlater.now hget
        cases hreleased : existing.releasedUntil with
        | some until_ =>
          simp only [hreleased]
          refine wp_bind.mpr (wp_now.mpr fun t' ht' => ?_)
          rw [onValue_ok, wp_ite]
          have hagain : Follows s ⟨t', s₁.cells⟩ :=
            hlater.trans ((Frame.later ht').follows hlater.agreed)
          refine ⟨fun hearly => ⟨hagain.serving, fun h => ?_⟩, fun _ => ?_⟩
          · obtain ⟨t₀, ht₀, hle⟩ := h.available.free existing (hname ▸ hrecord)
            rw [hreleased] at ht₀
            cases ht₀
            exact absurd (hle.trans hagain.now) (Nat.not_le.mpr hearly)
          · have hnobody : Store.owner ⟨t', s₁.cells⟩ name = none := by
              have hnow : Store.owner ⟨t, s₁.cells⟩ name = none := by
                rw [Store.owner, hget, Option.filter_some_neg (by simp [hreleased])]
                rfl
              exact owner_none_later ht' rfl hnow
            refine wp_mono (fun r s' => ?_)
              (wp_claimFree hagain.agreed (hpubkey rfl) hshape hnobody fun h => Bool.noConfusion h)
            rintro ⟨hserving, hready⟩
            refine ⟨hagain.then hserving, fun h => hready (hagain.unpointed _ h.unpointed) ?_⟩
            exact (hname ▸ h.ready).later hagain.now (hagain.skel _)
        | none =>
          have htaken (s' : Store) (h : Claimable env input s s') : False := by
            obtain ⟨t₀, ht₀, -⟩ := h.available.free existing (hname ▸ hrecord)
            rw [hreleased] at ht₀
            cases ht₀
          simp only [hreleased]
          rw [wp_ite]
          refine ⟨fun _ => ⟨hlater.serving, fun h => (htaken _ h).elim⟩, fun howner => ?_⟩
          rw [not_not] at howner
          refine wp_bind.mpr (wp_mono (fun r s₂ => ?_)
            (wp_rehome hlater.agreed hget hreleased howner))
          rintro ⟨rfl, hagreed, hnow, hunpointed, howns⟩
          rw [onValue_ok]
          refine wp_bind.mpr (wp_kvSet.mpr fun t₂ ht₂ => ⟨?_, fun h => (htaken _ h).elim⟩)
          have hset := serving_set_of hagreed ht₂ hshape howns
          refine ⟨hset.agreed, hlater.now.trans (hnow.trans ht₂), fun p hp hn => ?_⟩
          exact hset.others p hp (hunpointed p (hlater.unpointed p hn))

/-! ### Releases -/

/-- The name of the account is released, and no pointer of the account is left. -/
theorem agreed_release (hs : s.Agreed) (hnow : s.now ≤ s'.now) (howner : s.owner n = some q)
    (hdead : ∀ rec expiry, s'.cells (.name n) = some (rec, expiry) → rec.releasedUntil ≠ none)
    (hname : ∀ m, m ≠ n → s'.cells (.name m) = s.cells (.name m)) (hfree : s'.Unpointed q)
    (hof : ∀ p, p ≠ q → s'.cells (.of_ p) = s.cells (.of_ p))
    (hlegacy : ∀ network p, p ≠ q → s'.cells (.ofLegacy network p) = s.cells (.ofLegacy network p)) :
    s'.Agreed ∧ ∀ p, s.Unpointed p → s'.Unpointed p := by
  have hpointed {p m : String} (hm : s'.Pointed p m) : p ≠ q ∧ s.Pointed p m := by
    have hp : p ≠ q := by
      rintro rfl
      exact hfree m hm
    exact ⟨hp, hm.of_le hnow (hof p hp) fun network => hlegacy network p hp⟩
  refine ⟨hs.step (fun m rec expiry hm hlive => .inl ?_) (fun m p _ hm hm' => ?_)
    fun p m hm => .inl (hpointed hm).2, fun p hp m hm => hp m (hpointed hm).2⟩
  · have hmn : m ≠ n := by
      rintro rfl
      exact hdead rec expiry hm hlive
    exact (hname m hmn).symm.trans hm
  · have hmn : m ≠ n := by
      rintro rfl
      rw [howner] at hm
      exact (hpointed hm').1 (Option.some.inj hm).symm
    have hsame : s'.owner m = Store.owner ⟨s'.now, s.cells⟩ m := Store.owner_congr rfl (hname m hmn)
    exact hsame.trans (hs.owner_later hm)

theorem wp_tombstone {rec : HandleRecord} (hs : s.Agreed) (howner : s.owner n = some rec.pubkey)
    (hcleared : ∀ network, network ≠ rec.network →
      s.cells.get s.now (.ofLegacy network rec.pubkey) = none) :
    (tombstone n rec).wp Serves (fun r s' => r = .ok () ∧ s'.Agreed ∧ s.now ≤ s'.now ∧
      (∀ p, s.Unpointed p → s'.Unpointed p) ∧ s'.Unpointed rec.pubkey) s := by
  rw [tombstone]
  refine wp_bind.mpr (wp_now.mpr fun t₁ ht₁ => wp_bind.mpr (wp_kvSet.mpr fun t₂ ht₂ =>
    wp_bind.mpr (wp_kvSet.mpr fun t₃ ht₃ => wp_bind.mpr (wp_kvDel.mpr fun t₄ ht₄ =>
      wp_kvDel.mpr fun t₅ ht₅ => ?_))))
  have hnow : s.now ≤ t₅ := ht₁.trans (ht₂.trans (ht₃.trans (ht₄.trans ht₅)))
  generalize hcells : (((s.cells.set (.name n) _ _).set (.skel (skeleton n)) n _).del
    (.of_ rec.pubkey)).del (.ofLegacy rec.network rec.pubkey) = cells
  have hdead : ∀ rec' expiry, cells (.name n) = some (rec', expiry) → rec'.releasedUntil ≠ none := by
    intro rec' expiry hrec'
    simp [← hcells] at hrec'
    simp [← hrec'.1]
  have hname (m : String) (hm : m ≠ n) : cells (.name m) = s.cells (.name m) := by
    simp [← hcells, hm]
  have hof (p : String) (hp : p ≠ rec.pubkey) : cells (.of_ p) = s.cells (.of_ p) := by
    simp [← hcells, hp]
  have hlegacy (network : NetworkId) (p : String) (hp : p ≠ rec.pubkey ∨ network ≠ rec.network) :
      cells (.ofLegacy network p) = s.cells (.ofLegacy network p) := by
    rw [← hcells, Cells.del_of_ne (by rintro ⟨⟩; simp at hp)]
    simp
  have hfree : Store.Unpointed ⟨t₅, cells⟩ rec.pubkey := by
    rintro m (hm | ⟨network, hm⟩)
    · simp [← hcells] at hm
    · by_cases hnetwork : network = rec.network
      · subst hnetwork
        simp [← hcells] at hm
      · rw [Cells.get_congr (hlegacy network _ (.inr hnetwork)),
          Cells.get_none_of_le hnow (hcleared network hnetwork)] at hm
        cases hm
  have hreleased : Store.Agreed ⟨t₅, cells⟩ ∧ ∀ p, s.Unpointed p → Store.Unpointed ⟨t₅, cells⟩ p :=
    agreed_release hs hnow howner hdead hname hfree hof fun network p hp => hlegacy network p (.inl hp)
  obtain ⟨hagreed, hunpointed⟩ := hreleased
  exact ⟨rfl, hagreed, hnow, hunpointed, hfree⟩

theorem wp_tombstone_ok {rec : HandleRecord} :
    (tombstone n rec).wp Serves (fun r _ => r = .ok ()) s := by
  rw [tombstone]
  exact wp_bind.mpr (wp_now.mpr fun _ _ => wp_bind.mpr (wp_kvSet.mpr fun _ _ =>
    wp_bind.mpr (wp_kvSet.mpr fun _ _ => wp_bind.mpr (wp_kvDel.mpr fun _ _ =>
      wp_kvDel.mpr fun _ _ => rfl))))

/-- What a release leaves that goes through only from a store that meets its condition. -/
theorem wp_releaseHandle {input : ProofInput} (hs : s.Agreed) :
    (releaseHandle env input).wp Serves (fun r s' =>
      (∀ name, r = .ok (.ok name) → Cleared env s input) → s'.Agreed ∧
        (∀ p, s.Unpointed p → s'.Unpointed p) ∧
        ∀ name, r = .ok (.ok name) → s'.Unpointed input.pubkey) s := by
  rw [releaseHandle]
  unfold Cleared
  generalize hname : normalizeHandle env input.name = name
  have hrefused {s' : Store} {reason : String} (h : Follows s s') : s'.Agreed ∧
      (∀ p, s.Unpointed p → s'.Unpointed p) ∧ ∀ m : String,
        (.ok (.error reason) : Except String (Except String String)) = .ok (.ok m) →
          s'.Unpointed input.pubkey := ⟨h.agreed, h.unpointed, nofun⟩
  cases hshape : validateHandleShape name with
  | error reason => exact fun _ => hrefused ((Frame.later le_rfl).follows hs)
  | ok u =>
    refine wp_bind.mpr (wp_kvGet.mpr fun t ht => ?_)
    have hlater : Follows s ⟨t, s.cells⟩ := (Frame.later ht).follows hs
    rw [onValue_ok]
    cases hfound : (s.cells.get t (.name name)).filter (·.releasedUntil.isNone) with
    | none => exact fun _ => hrefused hlater
    | some rec =>
      obtain ⟨hget, hlive⟩ := Option.filter_eq_some_iff.mp hfound
      simp only [wp_ite]
      refine ⟨fun _ _ => hrefused hlater, fun howner => ?_⟩
      rw [not_not] at howner
      refine wp_bind.mpr (wp_mono (fun r s₁ => ?_) wp_verifyHandleProof)
      rintro ⟨hframe, proofOk, rfl, -⟩
      have hfollows : Follows s s₁ := hlater.trans (hframe.follows hlater.agreed)
      rw [onValue_ok]
      cases proofOk with
      | error reason => exact fun _ => hrefused hfollows
      | ok u =>
        by_cases hcleared : ∀ rec, s.cells.get s.now (.name name) = some rec →
            ∀ network, network ≠ rec.network →
              s.cells.get s.now (.ofLegacy network rec.pubkey) = none
        · have howns : s₁.owner name = some rec.pubkey := by
            have hnow : Store.owner ⟨t, s.cells⟩ name = some rec.pubkey :=
              Store.owner_eq_some.mpr ⟨rec, hget, by simpa using hlive, rfl⟩
            have hsame : s₁.owner name = Store.owner ⟨s₁.now, s.cells⟩ name :=
              Store.owner_congr rfl (hframe.name name)
            exact hsame.trans (hlater.agreed.owner_later hnow)
          refine wp_bind.mpr (wp_mono (fun r s' => ?_) (wp_tombstone hfollows.agreed howns ?_))
          · rintro ⟨rfl, hagreed, -, hunpointed, hfree⟩ -
            exact ⟨hagreed, fun p hp => hunpointed p (hfollows.unpointed p hp),
              fun _ _ => howner ▸ hfree⟩
          · intro network hnetwork
            have hlegacy : s₁.cells (.ofLegacy network rec.pubkey) =
                s.cells (.ofLegacy network rec.pubkey) := hframe.legacy network rec.pubkey
            rw [Cells.get_congr hlegacy]
            exact Cells.get_none_of_le hfollows.now
              (hcleared rec (Cells.get_of_le ht hget) network hnetwork)
        · refine wp_bind.mpr (wp_mono (fun r s' => ?_) wp_tombstone_ok)
          rintro rfl
          exact fun h => absurd (h name rfl) hcleared

/-! ### What is available -/

theorem wp_skelAvailable (hshape : validateHandleShape n = .ok ())
    (hfree : ∀ rec, s.cells.get s.now (.name n) = some rec →
      ∃ t, rec.releasedUntil = some t ∧ t ≤ s.now) :
    (skelAvailable n).wp Serves (fun r s' => s.now ≤ s'.now ∧ s'.cells = s.cells ∧
      (r = .ok (.ok ()) → Available n s')) s := by
  rw [skelAvailable]
  refine wp_bind.mpr (wp_kvGet.mpr fun t ht => ⟨ht, rfl, fun hok => ⟨hshape, fun rec hrec => ?_, ?_⟩⟩)
  · obtain ⟨t', ht', hle⟩ := hfree rec (Cells.get_of_le ht hrec)
    exact ⟨t', ht', hle.trans ht⟩
  · intro h hh
    dsimp only at hh hok
    rw [hh] at hok
    by_contra hne
    simp [hne] at hok

theorem wp_handleAvailability {raw : String} : (handleAvailability env raw).wp Serves (fun r s' =>
    s.now ≤ s'.now ∧ s'.cells = s.cells ∧
      (r = .ok (.ok ()) → Available (normalizeHandle env raw) s')) s := by
  rw [handleAvailability]
  generalize normalizeHandle env raw = name
  cases hshape : validateHandleShape name with
  | error reason => exact ⟨le_rfl, rfl, nofun⟩
  | ok u =>
    refine wp_bind.mpr (wp_kvGet.mpr fun t ht => ?_)
    rw [onValue_ok]
    cases hget : s.cells.get t (.name name) with
    | none =>
      refine wp_mono (fun r s' => ?_) (wp_skelAvailable (s := ⟨t, s.cells⟩) hshape fun rec hrec => ?_)
      · exact fun ⟨hnow, hcells, havailable⟩ => ⟨ht.trans hnow, hcells, havailable⟩
      · rw [hget] at hrec
        cases hrec
    | some rec =>
      cases hreleased : rec.releasedUntil with
      | none =>
        simp only [hreleased]
        exact ⟨ht, rfl, nofun⟩
      | some until_ =>
        simp only [hreleased]
        refine wp_bind.mpr (wp_now.mpr fun t' ht' => ?_)
        rw [onValue_ok, wp_ite]
        refine ⟨fun _ => ⟨ht.trans ht', rfl, nofun⟩, fun hlate => ?_⟩
        refine wp_mono (fun r s' => ?_) (wp_skelAvailable (s := ⟨t', s.cells⟩) hshape fun rec' hrec' => ?_)
        · exact fun ⟨hnow, hcells, havailable⟩ =>
            ⟨ht.trans (ht'.trans hnow), hcells, havailable⟩
        · have hsame := Cells.get_of_le ht' hrec'
          rw [hget] at hsame
          cases hsame
          exact ⟨until_, hreleased, Nat.not_lt.mp hlate⟩

/-! ## Over a whole run -/

/-- A name that the endpoint finds for an account leads back to it, in every spelling of the
domain. -/
def FederationAgrees (env : Env) (s : Store) : Prop :=
  ∀ q network answer s',
    Runs Serves (federationLookup env q "id" network) s (.ok (.ok answer)) s' →
    ∃ name, answer = ⟨name ++ "*" ++ env.federationDomain, q⟩ ∧
      ∀ query domain r s'', splitAddress query = some (name, domain) →
        env.toLowerCase domain = env.toLowerCase env.federationDomain →
        Runs Serves (federationLookup env query "name" network) s' r s'' → r = .ok (.ok answer)

/-- The account has no name, and gets any that is available, unless its proof is refused. -/
structure Nameless (env : Env) (q : String) (s : Store) : Prop where
  unfound : ∀ network r s', Runs Serves (federationLookup env q "id" network) s r s' →
    r = .ok (.error "not found")
  claims : ∀ input r s₁ s₂, input.pubkey = q →
    Runs Serves (handleAvailability env input.name) s (.ok (.ok ())) s₁ →
    Runs Serves (claimHandle env input) s₁ r s₂ →
    Acceptable env.toProofEnv
      { input with name := normalizeHandle env input.name, action := .claim } s₁ s₂ →
    Steady (normalizeHandle env input.name) s₁ s₂ →
    r = .ok (.ok ⟨normalizeHandle env input.name, q, input.network⟩)

theorem Store.Agreed.federationAgrees (hs : s.Agreed) : FederationAgrees env s := by
  intro q network answer s' hrun
  obtain ⟨hagreed, -, hanswer⟩ := hrun.sound (federation_id hs)
  obtain ⟨name, rec, hshape, howner, hcell, hnetwork, rfl⟩ := hanswer answer rfl
  refine ⟨name, rfl, fun query domain r s'' hquery hdomain hrun' => ?_⟩
  exact hrun'.sound (federation_name hagreed hquery hdomain hshape howner hcell hnetwork)

theorem Store.Agreed.nameless (hs : s.Agreed) (hq : s.Unpointed q) : Nameless env q s where
  unfound network r s' hrun := (hrun.sound (federation_id hs)).2.1 hq
  claims input r s₁ s₂ hpubkey hasked hrun haccept hsteady := by
    obtain ⟨hnow, hcells, havailable⟩ := hasked.sound wp_handleAvailability
    have hkept : Kept s s₁ := ⟨hnow, fun _ => by rw [hcells], fun _ => by rw [hcells],
      fun _ _ => by rw [hcells]⟩
    rw [← hpubkey]
    refine (hrun.sound (wp_claimHandle (hkept.agreed hs))).2 ⟨haccept, havailable rfl, hsteady, ?_⟩
    exact hpubkey ▸ hkept.unpointed hq

theorem Moves.kept {turn : Turn} (hs : s.Agreed) (h : Moves env Cleared turn s s') :
    s'.Agreed ∧ ∀ q, turn.NotClaimOf q → s.Unpointed q → s'.Unpointed q := by
  cases h with
  | @claim input _ _ r hrun =>
    have hserving := (hrun.sound (wp_claimHandle hs)).1
    exact ⟨hserving.agreed, fun q hq => hserving.others q hq.symm⟩
  | release hrun hmet =>
    obtain ⟨hagreed, hunpointed, -⟩ := hrun.sound (wp_releaseHandle hs) hmet
    exact ⟨hagreed, fun q _ => hunpointed q⟩
  | federation hrun =>
    have hfollows := hrun.sound (federation_follows hs)
    exact ⟨hfollows.agreed, fun q _ => hfollows.unpointed q⟩

theorem Reaches.agreed {kind : Turn → Prop} (hs : s.Agreed) (h : Reaches env Cleared kind s s') :
    s'.Agreed := by
  induction h with
  | refl => exact hs
  | tail _ hmove ih =>
    obtain ⟨turn, -, hmove⟩ := hmove
    exact (hmove.kept ih).1

theorem Reaches.unpointed (hs : s.Agreed) (hq : s.Unpointed q)
    (h : Reaches env Cleared (Turn.NotClaimOf q) s s') : s'.Agreed ∧ s'.Unpointed q := by
  induction h with
  | refl => exact ⟨hs, hq⟩
  | tail _ hmove ih =>
    obtain ⟨turn, hturn, hmove⟩ := hmove
    exact ⟨(hmove.kept ih.1).1, (hmove.kept ih.1).2 q hturn ih.2⟩

/-- **Federation agrees with itself**, over every run of turns in which the releases that go through
find no older pointer of another network; and from a release until its next claim, an account has no
name and can get one. -/
theorem federation_agrees (hs : s.Agreed) (h : Reaches env Cleared (fun _ => True) s s') :
    FederationAgrees env s' ∧ ∀ input name s₁ s₂,
      Runs Serves (releaseHandle env input) s' (.ok (.ok name)) s₁ → Cleared env s' input →
      Reaches env Cleared (Turn.NotClaimOf input.pubkey) s₁ s₂ → Nameless env input.pubkey s₂ := by
  have hagreed := h.agreed hs
  refine ⟨hagreed.federationAgrees, fun input name s₁ s₂ hrelease hcleared hafter => ?_⟩
  obtain ⟨hagreed₁, -, hfree⟩ := hrelease.sound (wp_releaseHandle hagreed) fun _ _ => hcleared
  obtain ⟨hagreed₂, hfree₂⟩ := hafter.unpointed hagreed₁ (hfree name rfl)
  exact hagreed₂.nameless hfree₂

end

namespace Demo

def later : Proofs.Number := ⟨"2594000", by decide⟩

/-- The clock of a second timestamp is 30 days after the first. -/
def slowEnv : Env := { env with
  finite := fun ts => if ts = Proofs.Demo.second then some 1000 else some 2594000
  toLowerCase_name := fun _ _ => rfl }

/-- What the account signs for `@meric`. -/
def signed (action : ProofAction) (pubkey : String) (ts : Proofs.Number)
    (network : NetworkId) : ProofInput where
  action := action
  name := "meric"
  pubkey := pubkey
  ts := ts
  nonce := "00000000"
  network := network
  proof := handleProofMessage action "meric" pubkey ts "00000000" network

/-- Everything that a call asks for comes at the time `t`. -/
def serve (t : ℕ) (s : Store) : (q : Ask) → q.Answer × Store
  | .run c => (.ok (.ok (s.cells.exec t c).1), ⟨t, (s.cells.exec t c).2⟩)
  | .now => (t, ⟨t, s.cells⟩)

def playAt {α : Type} (t : ℕ) : Call α → Store → Except String α × Store
  | .ret r, s => (r, s)
  | .ask q k, s => playAt t (k (serve t s q).1) (serve t s q).2

theorem runs_playAt {α : Type} {t : ℕ} (p : Call α) {s : Store} (h : s.now ≤ t) :
    Runs Serves p s (playAt t p s).1 (playAt t p s).2 := by
  induction p generalizing s with
  | ret r => exact .ret
  | ask q k ih =>
    cases q with
    | run c => exact .ask _ (.run h) (ih _ le_rfl)
    | now => exact .ask _ (.now h) (ih _ le_rfl)

/-- `@meric` has been practised with, and its pointer is kept in the older layout. -/
def practised : Store where
  now := 1000000
  cells := ((Cells.empty.set (.name "meric") ⟨alice, .testnet, 0, none⟩ none).set
    (.skel (skeleton "meric")) "meric" none).set (.ofLegacy .testnet alice) "meric" none

theorem agreed_practised : practised.Agreed := by
  have hname (n : String) (h : n ≠ "meric") : practised.cells (.name n) = none := by
    simp [practised, h, Cells.empty]
  have hpointed {q n : String} (h : practised.Pointed q n) : q = alice ∧ n = "meric" := by
    have hof : practised.cells.get practised.now (.of_ q) = none := by
      simp [practised, Cells.empty, Cells.get]
    rcases h with h | ⟨network, h⟩
    · rw [hof] at h
      cases h
    · by_cases hkey : Key.ofLegacy network q = .ofLegacy .testnet alice
      · cases hkey
        exact ⟨rfl, (Option.some.inj (Cells.get_set_self.symm.trans h)).symm⟩
      · have hnone : practised.cells (.ofLegacy network q) = none := by
          rw [practised]
          exact (Cells.set_of_ne hkey).trans (by simp [Cells.empty])
        rw [Cells.get, hnone] at h
        cases h
  refine ⟨fun n rec expiry h _ => ?_, fun q n h => ?_, fun q n h => ?_⟩
  · by_cases hn : n = "meric"
    · subst hn
      have hcell : practised.cells (.name "meric") = some (⟨alice, .testnet, 0, none⟩, none) := by
        simp [practised]
      rw [hcell] at h
      cases h
      rfl
    · rw [hname n hn] at h
      cases h
  · obtain ⟨-, rfl⟩ := hpointed h
    decide +kernel
  · obtain ⟨rfl, rfl⟩ := hpointed h
    decide +kernel

theorem agreed_empty {now : ℕ} : Store.Agreed ⟨now, .empty⟩ where
  lasting := nofun
  shaped := by rintro q n (h | ⟨network, h⟩) <;> cases h
  owned := by rintro q n (h | ⟨network, h⟩) <;> cases h

/-- The account claims `@meric` on the network it is on now. -/
def claimed (s : Store) : Except String (Except String Found) × Store :=
  playAt 1000000 (claimHandle slowEnv (signed .claim alice Proofs.Demo.second .mainnet)) s

def released (s : Store) : Except String (Except String String) × Store :=
  playAt 1000000 (releaseHandle slowEnv (signed .release alice Proofs.Demo.second .mainnet)) s

/-- Thirty days later somebody else claims it. -/
def reclaimed (s : Store) : Except String (Except String Found) × Store :=
  playAt 2594000000 (claimHandle slowEnv (signed .claim bob later .testnet)) s

def foundById (s : Store) : Except String (Except String FederationAnswer) × Store :=
  playAt 2594000000 (federationLookup slowEnv alice "id" .testnet) s

def foundByName (s : Store) : Except String (Except String FederationAnswer) × Store :=
  playAt 2594000000 (federationLookup slowEnv "meric*getlumenia.com" "name" .testnet) s

/-- Practised with on one network, claimed and released on the other, and claimed by somebody else. -/
def passedOn : Store := (reclaimed (released (claimed practised).2).2).2

theorem passedOn_found : practised.now ≤ 1000000 ∧ (claimed practised).2.now ≤ 1000000 ∧
    (released (claimed practised).2).2.now ≤ 2594000000 ∧ passedOn.now ≤ 2594000000 ∧
    (foundById passedOn).2.now ≤ 2594000000 ∧
    (foundById passedOn).1 = .ok (.ok ⟨"meric*getlumenia.com", alice⟩) ∧
    (foundByName (foundById passedOn).2).1 = .ok (.ok ⟨"meric*getlumenia.com", bob⟩) := by
  decide +kernel

theorem reaches_passedOn : Reaches slowEnv (fun _ _ _ => True) (fun _ => True) practised passedOn := by
  obtain ⟨hnow, hnow₁, hnow₂, -⟩ := passedOn_found
  have hclaim : Moves slowEnv (fun _ _ _ => True) _ practised (claimed practised).2 :=
    .claim (runs_playAt _ hnow)
  have hrelease : Moves slowEnv (fun _ _ _ => True) _ _ (released (claimed practised).2).2 :=
    .release (runs_playAt _ hnow₁) fun _ _ => trivial
  have hreclaim : Moves slowEnv (fun _ _ _ => True) _ _ passedOn := .claim (runs_playAt _ hnow₂)
  exact .tail (.tail (.single ⟨_, trivial, hclaim⟩) ⟨_, trivial, hrelease⟩) ⟨_, trivial, hreclaim⟩

def fresh : Store := ⟨1000000, .empty⟩

theorem fresh_released : fresh.now ≤ 1000000 ∧ (claimed fresh).2.now ≤ 1000000 ∧
    (released (claimed fresh).2).1 = .ok (.ok "meric") ∧
    (∀ network ∈ [NetworkId.testnet, .mainnet],
      (claimed fresh).2.cells.get (claimed fresh).2.now (.ofLegacy network alice) = none) ∧
    ((claimed fresh).2.cells.get (claimed fresh).2.now (.name "meric")).all (·.pubkey = alice) = true ∧
    normalizeHandle slowEnv "meric" = "meric" := by
  decide +kernel

end Demo

/-- One account after a claim and a release, from an empty store. -/
theorem federation_agrees_after_release : FederationAgrees Demo.slowEnv (Demo.claimed Demo.fresh).2 ∧
    Nameless Demo.slowEnv Demo.alice (Demo.released (Demo.claimed Demo.fresh).2).2 := by
  obtain ⟨hnow, hnow₁, hok, hlegacy, howner, hname⟩ := Demo.fresh_released
  have hclaim : Moves Demo.slowEnv Cleared _ Demo.fresh (Demo.claimed Demo.fresh).2 :=
    .claim (Demo.runs_playAt _ hnow)
  obtain ⟨hagrees, hrest⟩ := federation_agrees Demo.agreed_empty
    (.single ⟨_, trivial, hclaim⟩ : Reaches Demo.slowEnv Cleared (fun _ => True) Demo.fresh _)
  have hrelease := Demo.runs_playAt (releaseHandle Demo.slowEnv
    (Demo.signed .release Demo.alice Proofs.Demo.second .mainnet)) hnow₁
  refine ⟨hagrees, hrest _ "meric" _ _ (hok ▸ hrelease) ?_ .refl⟩
  intro rec hrec network _
  have hrec' : (Demo.claimed Demo.fresh).2.cells.get (Demo.claimed Demo.fresh).2.now (.name "meric") =
      some rec := hname ▸ hrec
  rw [hrec'] at howner
  have hpubkey : rec.pubkey = Demo.alice := by simpa using howner
  rw [hpubkey]
  exact hlegacy network (by cases network <;> simp)

/-- The name is found for the account that has released it, and leads to its new owner. -/
theorem pointer_left_behind : ¬∀ (env : Env) (s s' : Store), s.Agreed →
    Reaches env (fun _ _ _ => True) (fun _ => True) s s' →
    FederationAgrees env s' ∧ ∀ input name s₁ s₂,
      Runs Serves (releaseHandle env input) s' (.ok (.ok name)) s₁ →
      Reaches env (fun _ _ _ => True) (Turn.NotClaimOf input.pubkey) s₁ s₂ →
      Nameless env input.pubkey s₂ := by
  intro h
  have hagrees := (h _ _ _ Demo.agreed_practised Demo.reaches_passedOn).1
  obtain ⟨-, -, -, hnow, hnow', hid, hname⟩ := Demo.passedOn_found
  have hrun := Demo.runs_playAt (federationLookup Demo.slowEnv Demo.alice "id" .testnet) hnow
  obtain ⟨name, hanswer, hback⟩ := hagrees _ _ _ _ (hid ▸ hrun)
  have hmeric : name = "meric" := by
    have htext : "meric" ++ "*getlumenia.com" = name ++ "*getlumenia.com" :=
      (congrArg FederationAnswer.stellarAddress hanswer).trans (String.append_assoc ..)
    exact ((String.append_left_inj _).mp htext).symm
  have hrun' := Demo.runs_playAt
    (federationLookup Demo.slowEnv "meric*getlumenia.com" "name" .testnet) hnow'
  have hsame := hback "meric*getlumenia.com" "getlumenia.com" _ _ (hmeric ▸ by decide +kernel) rfl hrun'
  rw [show (Demo.playAt _ _ _).1 = _ from hname] at hsame
  exact absurd hsame (by decide +kernel)

end Lumenia.Sponsor.Handles
