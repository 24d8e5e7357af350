import Lumenia.Sponsor.Caps
import Lumenia.Sponsor.Tickets

/-!
# The escrow caps are never exceeded

Over a store that answers, in every interleaving of any number of requests, each counter of
`checkCaps` covers what is admitted on it and not released, so no limit is ever exceeded; and when
no request is mid-way the counters hold exactly that.

A request's ghost is the wallet of its tickets. It is empty but for the time from the first INCRBY to
the last decrement, so a refusal leaks nothing; and an admitted request found each total within its
limit, so by `Metered.sum_le` the admitted ones are within it together.
-/

namespace Lumenia.Sponsor

open Ticket

namespace Wallet

/-- The wallet after `a` was added to each of the counters, with the new totals. -/
def taken (γ : Wallet) (a : ℤ) : List String → List ℤ → Wallet
  | key :: keys, n :: ns => taken (Function.update γ key (some ⟨a, n⟩)) a keys ns
  | _, _ => γ

def dropped (γ : Wallet) (keys : List String) : Wallet := fun k => if k ∈ keys then none else γ k

variable {γ : Wallet} {a : ℤ} {keys : List String} {ns : List ℤ} {k key : String}

theorem taken_of_not_mem (hk : k ∉ keys) : γ.taken a keys ns k = γ k := by
  induction keys generalizing γ ns with
  | nil => rfl
  | cons key keys ih =>
    cases ns with
    | nil => rfl
    | cons n ns =>
      rw [List.mem_cons, not_or] at hk
      rw [taken, ih hk.2, Function.update_of_ne hk.1]

/-- Every ticket that was taken is of the amount. -/
theorem taken_of_mem (hlen : ns.length = keys.length) (hk : k ∈ keys) :
    ∃ n, γ.taken a keys ns k = some ⟨a, n⟩ := by
  induction keys generalizing γ ns with
  | nil => cases hk
  | cons key keys ih =>
    cases ns with
    | nil => cases hlen
    | cons n ns =>
      by_cases hmem : k ∈ keys
      · exact ih (by simpa using hlen) hmem
      · obtain rfl | hk := List.mem_cons.mp hk
        · exact ⟨n, by rw [taken, taken_of_not_mem hmem, Function.update_self]⟩
        · exact absurd hk hmem

theorem dropped_taken (h : ∀ k, k ∉ keys → γ k = none) :
    (γ.taken a keys ns).dropped keys = fun _ => none := by
  funext k
  unfold dropped
  split
  · rfl
  · rename_i hk
    rw [taken_of_not_mem hk, h k hk]

end Wallet

variable {ι : Type} [DecidableEq ι] [Fintype ι] (env : Env) (caps : CapsConfig)

/-- The wallet of an admitted request. -/
def EscrowRequest.Reserved (r : EscrowRequest) (γ : Wallet) : Prop :=
  ∃ ns : List ℤ, ns.length = (r.keys env).length ∧
    γ = Wallet.taken (fun _ => none) r.amountStroops (r.keys env) ns ∧
    overSender caps r.sender ns = false ∧ overDay caps ns = false

/-- A verdict leaves the wallet empty, or reserved and with the way to give it back. -/
def EscrowRequest.Judged (r : EscrowRequest) {M : Type} (v : CapVerdict M Standing) (γ : Wallet) : Prop :=
  v.ok = false ∧ γ = (fun _ => none) ∨
    v.ok = true ∧ v.release = some (capsGiveBack (r.keys env) r.amountStroops) ∧
      r.Reserved env caps γ

def escrowOutline (req : ι → EscrowRequest) : Outline ι (Store ι) Wallet Fault Standing where
  inv s t := Books s t ∧ ∀ key, s.Countable key
  allowed d := d = .intact
  shown i e γ := if e = .admitted then (req i).Reserved env caps γ else γ = fun _ => none

section

variable {env caps} {req : ι → EscrowRequest} {i : ι} {γ : Wallet} {a : ℤ} {keys : List String}
  {M : Type}

/-! ## What the functions do to the wallet -/

theorem wpCmds_take (hnodup : keys.Nodup) (hfree : ∀ k ∈ keys, γ k = none) (ha : 0 ≤ a)
    {got : List KvReply} {K : List KvReply → Wallet → Prop}
    (hK : ∀ ns rs, ns.length = keys.length → Reports (got ++ rs) got.length ns →
      K (got ++ rs) (γ.taken a keys ns)) :
    (escrowOutline env caps req).wpCmds (backend ι) i (keys.flatMap fun key => incrCmds key a)
      got K γ := by
  induction keys generalizing γ got with
  | nil =>
    have hK' := hK [] [] rfl trivial
    rwa [List.append_nil] at hK'
  | cons key keys ih =>
    obtain ⟨hkey, hnodup⟩ := List.nodup_cons.mp hnodup
    rw [List.flatMap_cons]
    refine wpCmds_incr (fun n => Function.update γ key (some ⟨a, n⟩)) ?_ fun n m =>
      ih hnodup (fun k hk => ?_) fun ns rs hlen hrs => ?_
    · rintro s t ⟨hbooks, hcount⟩ rfl
      exact ⟨hcount key, hbooks.take (hfree key (by simp)) ha,
        fun k => Store.countable_added (hcount k)⟩
    · rw [Function.update_of_ne (ne_of_mem_of_not_mem hk hkey)]
      exact hfree k (by simp [hk])
    · have hK' := hK (n :: ns) (.of (.int n) :: .of (.int m) :: rs) (by simp [hlen])
      simp only [List.append_assoc, List.cons_append, List.nil_append] at hrs ⊢
      refine hK' ⟨by simp, ?_⟩
      simpa using hrs

theorem wpCmds_drop (hnodup : keys.Nodup) (hheld : ∀ k ∈ keys, ∃ n, γ k = some ⟨a, n⟩)
    {got : List KvReply} {K : List KvReply → Wallet → Prop}
    (hK : ∀ rs, K (got ++ rs) (γ.dropped keys)) :
    (escrowOutline env caps req).wpCmds (backend ι) i (keys.flatMap fun key => incrCmds key (-a))
      got K γ := by
  induction keys generalizing γ got with
  | nil =>
    have hwallet : γ.dropped [] = γ := by
      funext k
      simp [Wallet.dropped]
    have hK' := hK []
    rwa [List.append_nil, hwallet] at hK'
  | cons key keys ih =>
    obtain ⟨hkey, hnodup⟩ := List.nodup_cons.mp hnodup
    rw [List.flatMap_cons]
    refine wpCmds_incr (fun _ => Function.update γ key none) ?_ fun n m =>
      ih hnodup (fun k hk => ?_) fun rs => ?_
    · rintro s t ⟨hbooks, hcount⟩ rfl
      obtain ⟨n, hn⟩ := hheld key (by simp)
      exact ⟨hcount key, hbooks.drop hn, fun k => Store.countable_added (hcount k)⟩
    · rw [Function.update_of_ne (ne_of_mem_of_not_mem hk hkey)]
      exact hheld k (by simp [hk])
    · have hwallet : Wallet.dropped (Function.update γ key none) keys = γ.dropped (key :: keys) := by
        funext k
        by_cases hk : k = key
        · subst hk
          simp [Wallet.dropped]
        · simp [Wallet.dropped, hk]
      have hK' := hK (.of (.int n) :: .of (.int m) :: rs)
      rw [hwallet]
      simpa using hK'

theorem wp_addToDays_take (hnodup : keys.Nodup) (ha : 0 ≤ a)
    {Q : Except String (List ℤ) → Wallet → Prop}
    (hQ : ∀ ns, ns.length = keys.length → Q (.ok ns) (Wallet.taken (fun _ => none) a keys ns)) :
    (escrowOutline env caps req).wp (M := M) (backend ι) i (addToDays keys a) Q
      (fun _ => none) := by
  refine wpCmds_take hnodup (fun _ _ => rfl) ha fun ns rs hlen hrs => ?_
  rintro d rfl
  refine ⟨_, Outline.Turns.refl, ?_⟩
  have htotals := incrTotals_of_reports hrs hlen
  change Q (incrTotals ([] ++ rs) keys 0) _
  rw [← List.length_nil, htotals]
  exact hQ ns hlen

theorem wp_capsGiveBack (hnodup : keys.Nodup) {ns : List ℤ} (hlen : ns.length = keys.length)
    {Q : Unit → Wallet → Prop} (hQ : Q () fun _ => none) :
    (escrowOutline env caps req).wp (M := M) (backend ι) i (capsGiveBack keys a) Q
      (Wallet.taken (fun _ => none) a keys ns) := by
  refine wpCmds_drop hnodup (fun k hk => Wallet.taken_of_mem hlen hk) fun rs => ?_
  rintro d -
  refine ⟨_, Outline.Turns.refl, ?_⟩
  rw [Wallet.dropped_taken fun _ _ => rfl]
  exact hQ

theorem wp_judgeTotals {r : EscrowRequest} {ns : List ℤ} (hlen : ns.length = (r.keys env).length) :
    (escrowOutline env caps req).wp (M := M) (backend ι) i
      (judgeTotals caps r.amountStroops r.sender (r.keys env) (.ok ns)) (r.Judged env caps)
      (Wallet.taken (fun _ => none) r.amountStroops (r.keys env) ns) := by
  unfold judgeTotals
  dsimp only
  split
  · rw [Outline.wp_bind]
    refine wp_capsGiveBack nodup_capKeys hlen ?_
    rw [Outline.wp_pure]
    exact .inl ⟨rfl, rfl⟩
  rename_i hsender
  split
  · rw [Outline.wp_bind]
    refine wp_capsGiveBack nodup_capKeys hlen ?_
    rw [Outline.wp_pure]
    exact .inl ⟨rfl, rfl⟩
  rename_i hday
  rw [Bool.not_eq_true] at hsender hday
  rw [Outline.wp_pure]
  exact .inr ⟨rfl, rfl, ns, hlen, rfl, hsender, hday⟩

theorem wp_checkCaps (hkv : env.kv = true) {r : EscrowRequest} :
    (escrowOutline env caps req).wp (M := M) (backend ι) i
      (checkCaps env caps r.amountStroops r.now r.senderPublicKey) (r.Judged env caps)
      fun _ => none := by
  unfold checkCaps
  split
  · rw [Outline.wp_pure]
    exact .inl ⟨rfl, rfl⟩
  rename_i hpos
  split
  · rw [Outline.wp_pure]
    exact .inl ⟨rfl, rfl⟩
  split
  · rw [Outline.wp_pure]
    exact .inl ⟨rfl, rfl⟩
  rw [if_neg (by simp [hkv]), Outline.wp_bind]
  exact wp_addToDays_take nodup_capKeys (by omega) fun ns hlen => wp_judgeTotals hlen

/-- A request keeps the outline from its empty wallet on. -/
theorem wp_escrowRequest (hkv : env.kv = true) :
    (escrowOutline env caps req).wp (backend ι) i (escrowRequest env caps (req i))
      ((escrowOutline env caps req).shown i) fun _ => none := by
  refine ⟨rfl, _, Outline.Turns.refl, ?_⟩
  rw [Outline.wp_bind]
  refine Outline.wp_mono ?_ (wp_checkCaps hkv)
  rintro v γ (⟨hok, rfl⟩ | ⟨hok, hrelease, hreserved⟩)
  · rw [hok]
    exact rfl
  · rw [hok, hrelease]
    refine ⟨hreserved, γ, Outline.Turns.refl, ?_⟩
    obtain ⟨ns, hlen, rfl, -, -⟩ := hreserved
    rw [Option.getD_some, Outline.wp_bind]
    exact wp_capsGiveBack nodup_capKeys hlen rfl

/-! ## Within the limits -/

theorem Reserved.day {r : EscrowRequest} (h : r.Reserved env caps γ) :
    ∃ x, γ (dayKey env r.now) = some x ∧ x.seen ≤ caps.maxDayStroops := by
  obtain ⟨ns, hlen, rfl, -, hday⟩ := h
  cases ns with
  | nil =>
    unfold EscrowRequest.keys capKeys at hlen
    split at hlen <;> cases hlen
  | cons n ns =>
    have hn : n ≤ caps.maxDayStroops := by simpa [overDay] using hday
    refine ⟨⟨r.amountStroops, n⟩, ?_, hn⟩
    unfold EscrowRequest.keys capKeys
    split
    · rw [Wallet.taken, Wallet.taken_of_not_mem, Function.update_self]
      simpa using dayKey_ne_senderDayKey
    · rw [Wallet.taken, Wallet.taken_of_not_mem, Function.update_self]
      simp

theorem Reserved.sender {r : EscrowRequest} (h : r.Reserved env caps γ) (hsender : r.sender ≠ "") :
    ∃ x, γ (senderDayKey env r.now r.sender) = some x ∧ x.seen ≤ caps.maxSender := by
  obtain ⟨ns, hlen, rfl, hover, -⟩ := h
  unfold EscrowRequest.keys capKeys at hlen ⊢
  rw [if_pos hsender] at hlen ⊢
  match ns, hlen with
  | [n, m], _ =>
    have hm : m ≤ caps.maxSender := by simpa [overSender, hsender] using hover
    exact ⟨⟨r.amountStroops, m⟩, by simp [Wallet.taken], hm⟩

end

/-- What is admitted and not released, among the requests with `P`. -/
def unreleased (req : ι → EscrowRequest)
    (x : Sys ι Unit Cmd KvReply Unit Standing Standing (Store ι)) (P : EscrowRequest → Prop)
    [DecidablePred P] : ℤ :=
  ∑ i with (x.prog i).shows = some .admitted ∧ P (req i), (req i).amountStroops

theorem escrows_sound (hkv : env.kv = true) (req : ι → EscrowRequest) (schedule : List ι) :
    ∃ g, Books ((escrows env caps req).final (reliably schedule)).store g ∧
      ∀ i e, (((escrows env caps req).final (reliably schedule)).prog i).shows = some e →
        (escrowOutline env caps req).shown i e (g i) := by
  obtain ⟨g, ⟨hbooks, -⟩, hwp⟩ := Outline.sound (O := escrowOutline env caps req)
    (Q := (escrowOutline env caps req).shown) (fun _ => ())
    ⟨Store.empty, fun _ => (), fun i => escrowRequest env caps (req i)⟩
    ⟨Books.empty, fun _ _ => nofun⟩ (fun i => wp_escrowRequest hkv) (intact_of_mem_reliably schedule)
  exact ⟨g, hbooks, fun i e he => Outline.shown_of_wp (hwp i) he⟩

/-- A counter covers the admitted requests that use it, which are within any limit each of them was
found within; and it holds nothing else once every request is at rest. -/
theorem unreleased_le_count (hkv : env.kv = true) (req : ι → EscrowRequest) (schedule : List ι)
    {key : String} {limit : ℕ} {P : EscrowRequest → Prop} [DecidablePred P]
    (hkey : ∀ r, P r ↔ key ∈ r.keys env)
    (hlimit : ∀ {r γ}, P r → r.Reserved env caps γ → ∃ x, γ key = some x ∧ x.seen ≤ limit) :
    let x := (escrows env caps req).final (reliably schedule)
    unreleased req x P ≤ x.store.kv.count key ∧ unreleased req x P ≤ limit ∧
      ((∀ i, (x.prog i).shows ≠ none) → x.store.kv.count key = unreleased req x P) := by
  obtain ⟨g, hbooks, hshown⟩ := escrows_sound env caps hkv req schedule
  intro x
  have hreserved : ∀ i, (x.prog i).shows = some .admitted → (req i).Reserved env caps (g i) :=
    fun i hi => hshown i _ hi
  have hworth : unreleased req x P =
      ∑ i with (x.prog i).shows = some .admitted ∧ P (req i), worth (g i key) := by
    refine Finset.sum_congr rfl fun i hi => ?_
    obtain ⟨hshows, hP⟩ := (Finset.mem_filter.mp hi).2
    obtain ⟨ns, hlen, heq, -⟩ := hreserved i hshows
    obtain ⟨n, hn⟩ := Wallet.taken_of_mem (γ := fun _ => none) (a := (req i).amountStroops) hlen
      ((hkey _).mp hP)
    rw [heq, hn, worth_some]
  rw [hworth]
  change Books x.store g at hbooks
  refine ⟨(hbooks.metered key).sum_le_total _, (hbooks.metered key).sum_le (by simp) ?_, ?_⟩
  · intro i hi
    obtain ⟨hshows, hP⟩ := (Finset.mem_filter.mp hi).2
    exact hlimit hP (hreserved i hshows)
  · intro hrest
    rw [(hbooks.metered key).total, Finset.sum_filter]
    refine Finset.sum_congr rfl fun i _ => ?_
    split
    · rfl
    rename_i hout
    -- A request at rest that is not admitted on this counter has no ticket there.
    obtain ⟨e, he⟩ := Option.ne_none_iff_exists'.mp (hrest i)
    by_cases hadm : e = .admitted
    · subst hadm
      obtain ⟨ns, -, heq, -⟩ := hreserved i he
      rw [heq, Wallet.taken_of_not_mem fun hmem => hout ⟨he, (hkey _).mpr hmem⟩, worth_none]
    · have hempty : g i = fun _ => none := by simpa [escrowOutline, hadm] using hshown i e he
      rw [hempty, worth_none]

/-- The request is of the UTC day of `day`. -/
def EscrowRequest.On (day : Instant) (r : EscrowRequest) : Prop := utcDay r.now = utcDay day

/-- The request is of the UTC day of `day`, and of this sender. -/
def EscrowRequest.By (day : Instant) (who : String) (r : EscrowRequest) : Prop :=
  r.On day ∧ r.sender = who

instance (day : Instant) : DecidablePred (EscrowRequest.On day) :=
  fun _ => inferInstanceAs (Decidable (_ = _))

instance (day : Instant) (who : String) : DecidablePred (EscrowRequest.By day who) :=
  fun _ => inferInstanceAs (Decidable (_ ∧ _))

theorem EscrowRequest.on_iff {day : Instant} {r : EscrowRequest} :
    r.On day ↔ dayKey env day ∈ r.keys env := by
  have hday : dayKey env day = dayKey env r.now ↔ r.On day := by
    rw [dayKey_inj, eq_comm]
    rfl
  unfold EscrowRequest.keys capKeys
  split <;> simp [hday, dayKey_ne_senderDayKey]

theorem EscrowRequest.by_iff {day : Instant} {who : String} (hwho : who ≠ "") {r : EscrowRequest} :
    r.By day who ↔ senderDayKey env day who ∈ r.keys env := by
  unfold EscrowRequest.keys capKeys
  split
  · have hne : senderDayKey env day who ≠ dayKey env r.now := dayKey_ne_senderDayKey.symm
    simp only [List.mem_cons, hne, false_or, List.not_mem_nil, or_false]
    constructor
    · rintro ⟨hday, rfl⟩
      rw [senderDayKey, senderDayKey, hday]
    · intro h
      obtain ⟨hday, hsender⟩ := senderDayKey_inj h
      exact ⟨hday.symm, hsender.symm⟩
  · rename_i hsender
    rw [List.mem_singleton]
    constructor
    · rintro ⟨-, rfl⟩
      exact absurd hwho hsender
    · exact fun h => absurd h.symm dayKey_ne_senderDayKey

/-- **The escrow caps are never exceeded**, whatever requests there are and however the steps of
their checks and releases interleave. -/
theorem caps_never_exceeded (hkv : env.kv = true) (req : ι → EscrowRequest) (schedule : List ι)
    (day : Instant) :
    let x := (escrows env caps req).final (reliably schedule)
    (unreleased req x (·.On day) ≤ x.store.kv.count (dayKey env day) ∧
      unreleased req x (·.On day) ≤ caps.maxDayStroops) ∧
    (∀ who, who ≠ "" → unreleased req x (·.By day who) ≤ x.store.kv.count (senderDayKey env day who) ∧
      unreleased req x (·.By day who) ≤ caps.maxSender) ∧
    ((∀ i, (x.prog i).shows ≠ none) →
      x.store.kv.count (dayKey env day) = unreleased req x (·.On day) ∧
      ∀ who, who ≠ "" →
        x.store.kv.count (senderDayKey env day who) = unreleased req x (·.By day who)) := by
  intro x
  obtain ⟨hcover, hlimit, hrest⟩ := unreleased_le_count env caps hkv req
    schedule (P := (·.On day)) (fun r => r.on_iff env) fun hon h => by
      have hkey := Reserved.day h
      rwa [dayKey, hon] at hkey
  have hsender := fun who (hwho : who ≠ "") => unreleased_le_count env caps hkv req
    schedule (P := (·.By day who)) (fun r => r.by_iff env hwho) fun hby h => by
      obtain ⟨hon, rfl⟩ := hby
      have hkey := Reserved.sender h hwho
      rwa [senderDayKey, hon] at hkey
  exact ⟨⟨hcover, hlimit⟩, fun who hwho => ⟨(hsender who hwho).1, (hsender who hwho).2.1⟩,
    fun h => ⟨hrest h, fun who hwho => (hsender who hwho).2.2 h⟩⟩

namespace Demo

/-- 5 USDC from one sender and 4 from another. -/
def requests : Fin 2 → EscrowRequest
  | 0 => ⟨noon, 50000000, some "GALICE"⟩
  | 1 => ⟨noon, 40000000, some " GBOB "⟩

/-- The second request is counted before the first is admitted, and refused after it. -/
def race : List (Fin 2) := [0, 1, 0, 1, 1, 0, 0, 0, 1, 1, 0, 1, 1, 1, 1, 1, 1]

end Demo

theorem caps_never_exceeded_race :
    let x := (escrows Demo.testnet Demo.limits Demo.requests).final (reliably Demo.race)
    (x.prog 0).shows = some .admitted ∧ (x.prog 1).shows = some .refused ∧
      x.store.kv.count (dayKey Demo.testnet Demo.noon) = 50000000 ∧
      unreleased Demo.requests x (·.On Demo.noon) ≤ 80000000 :=
  ⟨by decide +kernel, by decide +kernel, by decide +kernel,
    (caps_never_exceeded Demo.testnet Demo.limits rfl Demo.requests Demo.race Demo.noon).1.2⟩

end Lumenia.Sponsor
