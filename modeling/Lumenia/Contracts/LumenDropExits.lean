import Lumenia.Contracts.LumenDropSolvency

/-!
# LumenDrop: exits cannot be blocked, and do not interfere

`exits_never_blocked`: in every reachable world, whatever became of the pause flag and of the owner,
a record that still holds value has an exit that pays it. `exits_independent`: exits of different
records can be carried out in either order, although they draw on one balance, unless the asset
contract answers the payment of one differently once the other is paid, as it does for a payee whose
trustline has room for one of the two (`limited_payee_orders`).
-/

namespace Lumenia.LumenDrop

open Soroban

section

variable {Address : Type} [DecidableEq Address] {G : Governance Address} {env : Env Address}
  {c : Ctx Address} {w w' : World G} {link : BytesN 32} {tok owner : Address}
  {opening : Address → ℕ} {is : List (Input Address)}

/-! ## Exits cannot be blocked -/

/-- The call succeeds, and its one transfer pays `n` to `dst`. -/
def Pays (env : Env Address) (c : Ctx Address) (w : World G) (e : Exit Address) (dst : Address)
    (n : ℤ) : Prop :=
  ∃ w' ev, invoke env c (.exit e) w = .ok (w', ⟨[⟨env.contract, dst, n⟩], [ev]⟩)

theorem Admitted.pays {e : Exit Address} {q : Settlement Address} (h : Admitted env c w e q)
    (hw : Sound env w) (hcov : escrowed w ≤ w.balance env.contract) (hpays : AssetPays env c w) :
    Pays env c w e q.dst q.amount := by
  have hle := h.covered hw hcov
  refine ⟨settled env w q, q.event, ?_⟩
  rw [invoke, invokeExit_eq, (plan_eq_ok hw.token).mpr h, ok_bind]
  exact settle_eq_ok.mpr ⟨hle, hpays _ _ hle, rfl⟩

/-- `payout` was paid a share of the pool at some point of the history. -/
def GotShare (h : List (Input Address × Outcome Address)) (link : BytesN 32) (payout : Address) :
    Prop :=
  ∃ c sig r, (.call c (.exit (.claimShare link payout sig)), .ok r) ∈ h

omit [DecidableEq Address] in
theorem GotShare.mono {h : List (Input Address × Outcome Address)}
    {x : Input Address × Outcome Address} {payout : Address} (hs : GotShare h link payout) :
    GotShare (h ++ [x]) link payout := by
  obtain ⟨c, sig, r, hr⟩ := hs
  exact ⟨c, sig, r, List.mem_append_left _ hr⟩

/-- A marker that one call leaves was there before, or the call paid that share. -/
theorem Done.marker {op : Op Address} {r : Receipt Address (Event Address)} {payout : Address}
    (h : Done env c w op w' r)
    (hm : (w'.storage.lookup (DataKey.poolClaimed link payout)).isSome = true) :
    (w.storage.lookup (DataKey.poolClaimed link payout)).isSome = true ∨
      ∃ sig, op = .exit (.claimShare link payout sig) := by
  cases h with
  | deposit | createDrop => exact .inl (by simpa [Finmap.lookup_insert_of_ne] using hm)
  | governance => exact .inl hm
  | exit hadm =>
    cases hadm with
    | claim | reclaim | reclaimPool =>
      exact .inl (by simpa [settled, Finmap.lookup_insert_of_ne] using hm)
    | @claimShare link' payout' sig =>
      by_cases heq : DataKey.poolClaimed link payout = DataKey.poolClaimed link' payout'
      · cases heq
        exact .inr ⟨sig, rfl⟩
      · exact .inl (by simpa [settled, sharePlan, Finmap.lookup_insert_of_ne, heq] using hm)

/-- A marker stands only for a share that was paid. -/
theorem gotShare_of_marker {payout : Address}
    (hm : (((ledger (G := G) env tok owner opening).final is).storage.lookup
      (DataKey.poolClaimed link payout)).isSome = true) :
    GotShare ((ledger (G := G) env tok owner opening).history is) link payout := by
  refine (Machine.invariant (m := ledger (G := G) env tok owner opening)
    (P := fun h s => Sound env s ∧
      ((s.storage.lookup (DataKey.poolClaimed link payout)).isSome = true →
        GotShare h link payout)) ⟨construct_sound, ?_⟩ ?_ is).2 hm
  · simp [ledger, Soroban.ledger, construct, Finmap.lookup_insert_of_ne]
  · rintro h s i ⟨hs, ih⟩
    refine ⟨step_sound hs i, fun hm => ?_⟩
    cases i with
    | call c op =>
      change ((step env (invoke env) s (.call c op)).1.storage.lookup _).isSome = true at hm
      change GotShare (h ++ [(_, (step env (invoke env) s (.call c op)).2)]) _ _
      obtain ⟨f, hf⟩ | ⟨s', r, hr, hdone⟩ := step_call_cases hs.token c op
      · rw [hf] at hm
        exact (ih hm).mono
      · rw [hr] at hm ⊢
        obtain hold | ⟨sig, rfl⟩ := hdone.marker hm
        · exact (ih hold).mono
        · exact ⟨c, sig, r, by simp⟩
    | outside src dst n =>
      refine (ih ?_).mono
      change ((step env (invoke env) s (.outside src dst n)).1.storage.lookup _).isSome = true at hm
      simp only [step] at hm
      split at hm <;> exact hm

/-- **Nothing is trapped.** In every reachable world, with any governance state in place of its own,
each record that holds value has its exits. -/
theorem exits_never_blocked (g : G.State) :
    let w : World G := { (ledger (G := G) env tok owner opening).final is with gov := g }
    (∀ link d, getDrop w link = some d → d.claimed = false →
      (∀ c payout sig, AssetPays env c w →
        env.ed25519Verify link (message env tagSingle link payout) sig = true →
          Pays env c w (.claim link payout sig) payout d.amount) ∧
      ∀ c, AssetPays env c w → d.expiry ≤ c.timestamp → c.authorized d.sender = true →
        Pays env c w (.reclaim link) d.sender d.amount) ∧
    ∀ link p, getPool w link = some p → 0 < p.remaining →
      (∀ c payout sig, AssetPays env c w → c.timestamp < p.expiry → p.claimed < p.slots →
        ¬ GotShare ((ledger (G := G) env tok owner opening).history is) link payout →
        env.ed25519Verify link (message env tagGroup link payout) sig = true →
          Pays env c w (.claimShare link payout sig) payout p.amountPer) ∧
      ∀ c, AssetPays env c w → p.expiry ≤ c.timestamp → c.authorized p.sender = true →
        Pays env c w (.reclaimPool link) p.sender p.remaining := by
  intro w
  have hs : Sound env w := final_sound.1.of_storage
  have hcov : escrowed w ≤ w.balance env.contract := escrowed_le_balance
  refine ⟨fun link d hd hopen => ⟨fun c payout sig hpays hsig => ?_, fun c hpays hexp hauth => ?_⟩,
    fun link p hp hrem => ⟨fun c payout sig hpays hexp hfree hnew hsig => ?_,
      fun c hpays hexp hauth => ?_⟩⟩
  · exact (Admitted.claim hd hopen hsig).pays hs hcov hpays
  · exact (Admitted.reclaim hd hopen hexp hauth (hs.drops hd).1).pays hs hcov hpays
  · have hmarker : w.storage.lookup (DataKey.poolClaimed link payout) = none := by
      rw [← Option.not_isSome_iff_eq_none]
      exact fun hm => hnew (gotShare_of_marker hm)
    exact (hs.admitted_claimShare hp hexp hfree hmarker hsig).pays hs hcov hpays
  · exact (Admitted.reclaimPool hp hexp hauth (hs.pools hp).sender hrem).pays hs hcov hpays

/-! ## Exits of different records do not interfere -/

/-- The keys an exit may write: its record, and for a share the marker of its payout. -/
def Exit.footprint : Exit Address → List (DataKey Address)
  | .claim link _ _ | .reclaim link => [.drop link]
  | .claimShare link payout _ => [.poolClaimed link payout, .pool link]
  | .reclaimPool link => [.pool link]

omit [DecidableEq Address] in
theorem Exit.footprint_disjoint {e₁ e₂ : Exit Address} (h : e₁.key ≠ e₂.key) :
    e₁.footprint.Disjoint e₂.footprint := by
  intro k h₁ h₂
  cases e₁ <;> cases e₂ <;> simp_all [Exit.footprint, Exit.key]
  all_goals grind

omit [DecidableEq Address] in
theorem Exit.token_notMem_footprint {e : Exit Address} : DataKey.token ∉ e.footprint := by
  cases e <;> simp [Exit.footprint]

theorem Admitted.writes {e : Exit Address} {q : Settlement Address} (h : Admitted env c w e q) :
    q.writes.map Sigma.fst = e.footprint := by
  cases h <;> rfl

/-- The decision of an exit depends on the keys it may write, and on the token. -/
theorem plan_congr {e : Exit Address} (htok : token w = token w')
    (h : ∀ k ∈ e.footprint, w.storage.lookup k = w'.storage.lookup k) :
    plan env c w e = plan env c w' e := by
  cases e <;> simp only [Exit.footprint, List.forall_mem_cons] at h <;>
    simp only [plan, getDrop, getPool, htok, h]

theorem step_exit_storage (hw : Sound env w) (e : Exit Address) {k : DataKey Address}
    (hk : k ∉ e.footprint) :
    (step env (invoke env) w (.call c (.exit e))).1.storage.lookup k = w.storage.lookup k := by
  obtain ⟨f, h⟩ | ⟨w', r, h, hdone⟩ := step_call_cases hw.token c (.exit e)
  · rw [h]
  · rw [h]
    cases hdone with
    | exit hadm => exact lookup_writeAll (hadm.writes ▸ hk)

/-- The transfer an exit asks of the asset contract, by its record. -/
def Exit.payment (env : Env Address) (w : World G) : Exit Address → Option (Transfer Address)
  | .claim link payout _ => (getDrop w link).map fun d => ⟨env.contract, payout, d.amount⟩
  | .reclaim link => (getDrop w link).map fun d => ⟨env.contract, d.sender, d.amount⟩
  | .claimShare link payout _ => (getPool w link).map fun p => ⟨env.contract, payout, p.amountPer⟩
  | .reclaimPool link => (getPool w link).map fun p => ⟨env.contract, p.sender, p.remaining⟩

/-- The asset contract answers the exit's payment at the balances of `w'` as at those of `w`. -/
def Undisturbed (env : Env Address) (c : Ctx Address) (w w' : World G) (e : Exit Address) : Prop :=
  ∀ t, e.payment env w = some t →
    c.refuses w'.balance t.src t.dst t.amount = c.refuses w.balance t.src t.dst t.amount

theorem Admitted.payment {e : Exit Address} {q : Settlement Address} (h : Admitted env c w e q) :
    e.payment env w = some ⟨env.contract, q.dst, q.amount⟩ := by
  cases h with
  | claim hd | reclaim hd => simp [Exit.payment, hd]
  | claimShare hp | reclaimPool hp => simp [Exit.payment, hp, sharePlan]

/-- The asset contract judges a transfer by what its payee holds, as the limit of a trustline is the
payee's own. -/
def ByPayee (c : Ctx Address) : Prop :=
  ∀ b b' src dst n, b dst = b' dst → c.refuses b src dst n = c.refuses b' src dst n

/-- Exits that pay different accounts do not disturb each other at an asset contract that judges by
the payee. -/
theorem undisturbed_of_payees {c₁ c₂ : Ctx Address} {e₁ e₂ : Exit Address} (hw : Sound env w)
    (hc : ByPayee c₁)
    (hne : ∀ t₁ t₂, e₁.payment env w = some t₁ → e₂.payment env w = some t₂ →
      t₁.dst ≠ env.contract ∧ t₁.dst ≠ t₂.dst) :
    Undisturbed env c₁ w (step env (invoke env) w (.call c₂ (.exit e₂))).1 e₁ := by
  intro t₁ ht₁
  obtain ⟨f, h⟩ | ⟨w', r, h, hdone⟩ := step_call_cases hw.token c₂ (.exit e₂)
  · rw [h]
  · rw [h]
    cases hdone with
    | @exit _ q hadm =>
      obtain ⟨hself, hother⟩ := hne t₁ _ ht₁ hadm.payment
      apply hc
      simp [settled, Transfer.apply_eq, hself, hother]

theorem plan_step_exit (c₁ c₂ : Ctx Address) {e₁ e₂ : Exit Address} (hw : Sound env w)
    (hne : e₁.key ≠ e₂.key) :
    plan env c₂ (step env (invoke env) w (.call c₁ (.exit e₁))).1 e₂ = plan env c₂ w e₂ := by
  have hdisj := Exit.footprint_disjoint hne
  refine plan_congr ?_ fun k hk => step_exit_storage hw e₁ fun hk₁ => hdisj hk₁ hk
  simp only [token, step_exit_storage hw e₁ Exit.token_notMem_footprint]

/-- Exits of different records, at a world that covers its records. -/
theorem step_exit_comm {c₁ c₂ : Ctx Address} {e₁ e₂ : Exit Address} (hw : Sound env w)
    (hcov : escrowed w ≤ w.balance env.contract) (hne : e₁.key ≠ e₂.key) :
    let s := fun c e (w : World G) => step env (invoke env) w (.call c (.exit e))
    Undisturbed env c₁ w (s c₂ e₂ w).1 e₁ → Undisturbed env c₂ w (s c₁ e₁ w).1 e₂ →
    (s c₂ e₂ (s c₁ e₁ w).1).1 = (s c₁ e₁ (s c₂ e₂ w).1).1 ∧
      (s c₁ e₁ (s c₂ e₂ w).1).2 = (s c₁ e₁ w).2 ∧ (s c₂ e₂ (s c₁ e₁ w).1).2 = (s c₂ e₂ w).2 := by
  intro s hsame₁ hsame₂
  have hplan : ∀ {c e q}, plan env c w e = .ok q →
      Admitted env c w e q ∧ 0 ≤ q.amount ∧ q.amount ≤ w.balance env.contract := by
    intro c e q hq
    have hadm := (plan_eq_ok hw.token).mp hq
    have hle := hadm.amount_le.trans (Finmap.weight_le_total hw.owed_nonneg)
    exact ⟨hadm, (hadm.amount_pos hw).le, hle.trans hcov⟩
  have hs : ∀ c e (w : World G), s c e w = perform env c w (plan env c w e) :=
    fun _ _ _ => step_exit
  have h₁₂ := plan_step_exit c₁ c₂ hw hne
  have h₂₁ := plan_step_exit c₂ c₁ hw hne.symm
  change plan env c₂ (s c₁ e₁ w).1 e₂ = _ at h₁₂
  change plan env c₁ (s c₂ e₂ w).1 e₁ = _ at h₂₁
  rw [hs c₂ e₂ (s c₁ e₁ w).1, hs c₁ e₁ (s c₂ e₂ w).1, h₁₂, h₂₁, hs, hs]
  refine perform_comm (fun p hp => (hplan hp).2) (fun q hq => (hplan hq).2) (fun p q hp hq => ?_)
    (fun p hp => ?_) fun q hq => ?_
  · obtain ⟨hadm₁, -⟩ := hplan hp
    obtain ⟨hadm₂, -⟩ := hplan hq
    refine ⟨?_, by rw [hadm₁.writes, hadm₂.writes]; exact Exit.footprint_disjoint hne⟩
    calc p.amount + q.amount
        ≤ w.storage.weight DataKey.owed e₁.key + w.storage.weight DataKey.owed e₂.key :=
          add_le_add hadm₁.amount_le hadm₂.amount_le
      _ ≤ escrowed w := Finmap.weight_add_weight_le_total hw.owed_nonneg hne
      _ ≤ w.balance env.contract := hcov
  · rw [← hs]
    exact hsame₁ _ (hplan hp).1.payment
  · rw [← hs]
    exact hsame₂ _ (hplan hq).1.payment

/-! ## Two shares of one pool -/

omit [DecidableEq Address] in
theorem poolClaimed_ne {a b : Address} (h : a ≠ b) :
    DataKey.poolClaimed link a ≠ DataKey.poolClaimed link b := fun h' => h (by injection h')

theorem getPool_sharePlan {a : Address} {p : Pool Address} :
    getPool (settled env w (sharePlan link a p)) link = some p.shared := by
  simp [settled, sharePlan]

theorem marker_sharePlan {a b : Address} {p : Pool Address} (h : b ≠ a) :
    (settled env w (sharePlan link a p)).storage.lookup (DataKey.poolClaimed link b) =
      w.storage.lookup (DataKey.poolClaimed link b) := by
  simp [settled, sharePlan, Finmap.lookup_insert_of_ne, poolClaimed_ne h]

theorem settled_sharePlan_swap {a₁ a₂ : Address} {p : Pool Address} (hne : a₁ ≠ a₂) :
    settled env (settled env w (sharePlan link a₂ p)) (sharePlan link a₁ p.shared) =
      settled env (settled env w (sharePlan link a₁ p)) (sharePlan link a₂ p.shared) := by
  ext1
  · apply Finmap.ext_lookup
    intro k
    simp only [settled, sharePlan, writeAll_cons, writeAll_nil]
    by_cases h₀ : k = DataKey.pool link
    · subst h₀
      simp [Finmap.lookup_insert]
    · by_cases h₁ : k = DataKey.poolClaimed link a₁
      · subst h₁
        simp [Finmap.lookup_insert, Finmap.lookup_insert_of_ne, poolClaimed_ne hne]
      · by_cases h₂ : k = DataKey.poolClaimed link a₂
        · subst h₂
          simp [Finmap.lookup_insert, Finmap.lookup_insert_of_ne, poolClaimed_ne hne.symm]
        · simp [Finmap.lookup_insert_of_ne, h₀, h₁, h₂]
  · rfl
  · exact Transfer.apply_comm _ _ _

/-- A share already paid to somebody else does not stop this one. -/
theorem claimShare_swap {c₁ c₂ : Ctx Address} {a₁ a₂ : Address} {s₁ s₂ : BytesN 64}
    {q₁ q₂ : Settlement Address} (hne : a₁ ≠ a₂)
    (h₁ : Admitted env c₁ w (.claimShare link a₁ s₁) q₁)
    (h₂ : Admitted env c₂ (settled env w q₁) (.claimShare link a₂ s₂) q₂) :
    ∃ p, q₁ = sharePlan link a₁ p ∧ q₂ = sharePlan link a₂ p.shared ∧
      Admitted env c₂ w (.claimShare link a₂ s₂) (sharePlan link a₂ p) ∧
      Admitted env c₁ (settled env w (sharePlan link a₂ p)) (.claimShare link a₁ s₁)
        (sharePlan link a₁ p.shared) := by
  cases h₁ with
  | @claimShare _ _ _ p hp hexp₁ hslots₁ hrem₁ hnew₁ hsig₁ hadd₁ hsub₁ =>
    cases h₂ with
    | @claimShare _ _ _ p' hp' hexp₂ hslots₂ hrem₂ hnew₂ hsig₂ hadd₂ hsub₂ =>
      obtain rfl : p' = p.shared := by
        rw [getPool_sharePlan] at hp'
        exact (Option.some.inj hp').symm
      rw [marker_sharePlan hne.symm] at hnew₂
      refine ⟨p, rfl, rfl, .claimShare hp hexp₂ hslots₁ hrem₁ hnew₂ hsig₂ hadd₁ hsub₁, ?_⟩
      exact .claimShare getPool_sharePlan hexp₁ hslots₂ hrem₂ (by rwa [marker_sharePlan hne]) hsig₁
        hadd₂ hsub₂

/-- Two shares of one pool that went through in one order go through in the other, to the same
world, where the asset contract does not mind the order. -/
theorem step_claimShare_swap {c₁ c₂ : Ctx Address} {a₁ a₂ : Address} {s₁ s₂ : BytesN 64}
    (hw : Sound env w) (hcov : escrowed w ≤ w.balance env.contract) (hne : a₁ ≠ a₂) :
    let s := fun c a sig (w : World G) =>
      step env (invoke env) w (.call c (.exit (.claimShare link a sig)))
    Undisturbed env c₁ w (s c₂ a₂ s₂ w).1 (.claimShare link a₁ s₁) →
    Undisturbed env c₂ w (s c₁ a₁ s₁ w).1 (.claimShare link a₂ s₂) →
    ∀ {r₁ r₂}, (s c₁ a₁ s₁ w).2 = .ok r₁ → (s c₂ a₂ s₂ (s c₁ a₁ s₁ w).1).2 = .ok r₂ →
      (∃ r, (s c₂ a₂ s₂ w).2 = .ok r) ∧ (∃ r, (s c₁ a₁ s₁ (s c₂ a₂ s₂ w).1).2 = .ok r) ∧
        (s c₁ a₁ s₁ (s c₂ a₂ s₂ w).1).1 = (s c₂ a₂ s₂ (s c₁ a₁ s₁ w).1).1 := by
  intro s hsame₁ hsame₂ r₁ r₂ h₁ h₂
  obtain ⟨q₁, hadm₁, hyes₁, hw₁⟩ := admitted_of_step hw.token h₁
  change (s c₁ a₁ s₁ w).1 = _ at hw₁
  rw [hw₁] at h₂ hsame₂ ⊢
  obtain ⟨q₂, hadm₂, hyes₂, hw₂⟩ := admitted_of_step (hadm₁.sound hw).token h₂
  change (s c₂ a₂ s₂ (settled env w q₁)).1 = _ at hw₂
  rw [hw₂]
  obtain ⟨p, rfl, rfl, hadm₂', hadm₁'⟩ := claimShare_swap hne hadm₁ hadm₂
  have hs₂ := hadm₂'.sound hw
  have hcov₂ : (sharePlan link a₂ p).amount ≤ w.balance env.contract :=
    (hadm₂'.amount_le.trans (Finmap.weight_le_total hw.owed_nonneg)).trans hcov
  -- what the first share leaves still covers every record, so the second is funded
  have hcov' : escrowed (settled env w (sharePlan link a₂ p)) ≤
      (settled env w (sharePlan link a₂ p)).balance env.contract := by
    rw [hadm₂'.escrowed_settled]
    have hle := covered_settled (p := ⟨[], a₂, escrowed w - (sharePlan link a₂ p).amount,
      (sharePlan link a₂ p).event⟩) (hadm₂'.amount_pos hw).le (by simpa using hcov)
    exact hle
  have hcov₁ := (hadm₁'.amount_le.trans (Finmap.weight_le_total hs₂.owed_nonneg)).trans hcov'
  have hyes₂' : c₂.refuses w.balance env.contract a₂ p.amountPer = false :=
    (hsame₂ _ hadm₂'.payment).symm.trans hyes₂
  have hstep₂ : s c₂ a₂ s₂ w = _ := step_of_admitted hw.token hadm₂' hcov₂ hyes₂'
  rw [hstep₂] at hsame₁
  have hyes₁' : c₁.refuses (settled env w (sharePlan link a₂ p)).balance env.contract a₁
      p.amountPer = false := (hsame₁ _ hadm₁.payment).trans hyes₁
  have hstep₁ : s c₁ a₁ s₁ (settled env w (sharePlan link a₂ p)) = _ :=
    step_of_admitted hs₂.token hadm₁' hcov₁ hyes₁'
  rw [hstep₂, hstep₁]
  exact ⟨⟨_, rfl⟩, ⟨_, rfl⟩, settled_sharePlan_swap hne⟩

/-- **Independence.** At every reachable world: exits of different records give the same two
outcomes and the same world in either order, each writes nothing outside its own footprint, and two
shares of one pool for different payouts commute whenever both go through. The asset contract has to
answer the payment of each after the other as before it. -/
theorem exits_independent :
    let w : World G := (ledger (G := G) env tok owner opening).final is
    let s := fun c e (w : World G) => step env (invoke env) w (.call c (.exit e))
    (∀ c₁ c₂ e₁ e₂, Exit.key e₁ ≠ Exit.key e₂ →
      Undisturbed env c₁ w (s c₂ e₂ w).1 e₁ → Undisturbed env c₂ w (s c₁ e₁ w).1 e₂ →
      (s c₂ e₂ (s c₁ e₁ w).1).1 = (s c₁ e₁ (s c₂ e₂ w).1).1 ∧
        (s c₁ e₁ (s c₂ e₂ w).1).2 = (s c₁ e₁ w).2 ∧
        (s c₂ e₂ (s c₁ e₁ w).1).2 = (s c₂ e₂ w).2) ∧
    (∀ c e k, k ∉ Exit.footprint e → (s c e w).1.storage.lookup k = w.storage.lookup k) ∧
    ∀ c₁ c₂ link a₁ a₂ s₁ s₂ r₁ r₂, a₁ ≠ a₂ →
      Undisturbed env c₁ w (s c₂ (.claimShare link a₂ s₂) w).1 (.claimShare link a₁ s₁) →
      Undisturbed env c₂ w (s c₁ (.claimShare link a₁ s₁) w).1 (.claimShare link a₂ s₂) →
      (s c₁ (.claimShare link a₁ s₁) w).2 = .ok r₁ →
      (s c₂ (.claimShare link a₂ s₂) (s c₁ (.claimShare link a₁ s₁) w).1).2 = .ok r₂ →
        (∃ r, (s c₂ (.claimShare link a₂ s₂) w).2 = .ok r) ∧
        (∃ r, (s c₁ (.claimShare link a₁ s₁) (s c₂ (.claimShare link a₂ s₂) w).1).2 = .ok r) ∧
        (s c₁ (.claimShare link a₁ s₁) (s c₂ (.claimShare link a₂ s₂) w).1).1 =
          (s c₂ (.claimShare link a₂ s₂) (s c₁ (.claimShare link a₁ s₁) w).1).1 := by
  intro w s
  have hw : Sound env w := final_sound.1
  have hcov : escrowed w ≤ w.balance env.contract := escrowed_le_balance
  refine ⟨fun c₁ c₂ e₁ e₂ hne => step_exit_comm hw hcov hne,
    fun c e k hk => step_exit_storage hw e hk, ?_⟩
  intro c₁ c₂ link a₁ a₂ s₁ s₂ r₁ r₂ hne hsame₁ hsame₂ h₁ h₂
  exact step_claimShare_swap hw hcov hne hsame₁ hsame₂ h₁ h₂

end

/-! ## Concrete runs

A drop of 5 and a pool of 5 in 2 slots under one link, or two drops of 5, all funded by account 3.
Trustlines have a limit of 7. -/

namespace Demo

open Soroban.Demo (at_ link sig five hundred)

def pool : Input ℕ :=
  .call (at_ 0 3) (.createDrop 3 link five ⟨2, by decide⟩ hundred)

def both : World Governance.standard := ledger.final [fund, pool]

def otherLink : BytesN 32 := Vector.replicate 32 8

def fundOther : Input ℕ := .call (at_ 0 3) (.deposit 3 otherLink five hundred)

def two : World Governance.standard := ledger.final [fund, fundOther]

/-- A moment at which no account may hold more than 7. -/
def limited : Ctx ℕ :=
  { at_ 10 9 with refuses := fun b _ dst n => dst ≠ 0 && 7 < b dst + n }

theorem limited_byPayee : ByPayee limited := by
  intro b b' src dst n hb
  simp [limited, hb]

/-- Paused, with no owner left. -/
def abandoned : Governance.standard.State := (none, none, true)

def exit_ (payout : ℕ) (e : BytesN 32 → ℕ → BytesN 64 → Exit ℕ) (w : World Governance.standard) :
    World Governance.standard × Outcome ℕ :=
  step Soroban.Demo.env (invoke Soroban.Demo.env) w (.call limited (.exit (e link payout sig)))

end Demo

open Demo Soroban.Demo

theorem exits_never_blocked_paused :
    Pays Soroban.Demo.env (at_ 10 9) { Demo.both with gov := Demo.abandoned }
      (.claim link 4 sig) 4 5 :=
  ((exits_never_blocked Demo.abandoned).1 link ⟨3, 5, 100, false⟩
    (by decide) rfl).1 (at_ 10 9) 4 sig (fun _ _ _ => rfl) (by decide)

/-- Two drops of 5 for one account, whose trustline has room for one: the first to come is paid. -/
theorem limited_payee_orders :
    let s := fun e (w : World Governance.standard) =>
      step Soroban.Demo.env (invoke Soroban.Demo.env) w (.call Demo.limited (.exit e))
    let e₁ := Exit.claim link 4 sig
    let e₂ := Exit.claim Demo.otherLink 4 sig
    e₁.key ≠ e₂.key ∧ (s e₂ (s e₁ Demo.two).1).2 ≠ (s e₂ Demo.two).2 ∧
      (s e₂ (s e₁ Demo.two).1).1 ≠ (s e₁ (s e₂ Demo.two).1).1 := by
  intro s e₁ e₂
  have hlast : (s e₂ (s e₁ Demo.two).1).2 = .error (.trap .tokenRefused) := by decide
  have hfirst : (s e₂ Demo.two).2 ≠ .error (.trap .tokenRefused) := by decide
  have hleft : getDrop (s e₂ (s e₁ Demo.two).1).1 link = some ⟨3, 5, 100, true⟩ := by decide
  have hright : getDrop (s e₁ (s e₂ Demo.two).1).1 link = some ⟨3, 5, 100, false⟩ := by decide
  refine ⟨by decide, fun h => hfirst (h.symm.trans hlast), fun h => ?_⟩
  rw [h, hright] at hleft
  exact absurd hleft (by decide)

theorem exits_independent_both :
    (Demo.exit_ 4 .claim (Demo.exit_ 5 .claimShare Demo.both).1).1 =
        (Demo.exit_ 5 .claimShare (Demo.exit_ 4 .claim Demo.both).1).1 ∧
      (Demo.exit_ 4 .claimShare (Demo.exit_ 5 .claimShare Demo.both).1).1 =
        (Demo.exit_ 5 .claimShare (Demo.exit_ 4 .claimShare Demo.both).1).1 := by
  have hsound : Sound Soroban.Demo.env Demo.both := final_sound.1
  have hapart : ∀ e₁ e₂ : Exit ℕ, (e₁.payment Soroban.Demo.env Demo.both).map Transfer.dst =
      some 4 → (e₂.payment Soroban.Demo.env Demo.both).map Transfer.dst = some 5 →
      Undisturbed Soroban.Demo.env Demo.limited Demo.both (step Soroban.Demo.env
        (invoke Soroban.Demo.env) Demo.both (.call Demo.limited (.exit e₂))).1 e₁ ∧
      Undisturbed Soroban.Demo.env Demo.limited Demo.both (step Soroban.Demo.env
        (invoke Soroban.Demo.env) Demo.both (.call Demo.limited (.exit e₁))).1 e₂ := by
    intro e₁ e₂ h₁ h₂
    constructor <;> apply undisturbed_of_payees hsound Demo.limited_byPayee <;>
      intro t₁ t₂ ht₁ ht₂ <;> simp_all [Soroban.Demo.env]
  obtain ⟨hkeys, -, hshares⟩ :=
    @exits_independent ℕ _ Governance.standard Soroban.Demo.env 1 2 Demo.opening [fund, pool]
  obtain ⟨hclaim, hshare⟩ :=
    hapart (.claim link 4 sig) (.claimShare link 5 sig) (by decide) (by decide)
  obtain ⟨hshare₄, hshare₅⟩ :=
    hapart (.claimShare link 4 sig) (.claimShare link 5 sig) (by decide) (by decide)
  exact ⟨(hkeys Demo.limited Demo.limited (.claim link 4 sig) (.claimShare link 5 sig)
    (by simp [Exit.key]) hclaim hshare).1.symm, (hshares Demo.limited Demo.limited link 4 5 sig sig
    _ _ (by decide) hshare₄ hshare₅ rfl rfl).2.2⟩

end Lumenia.LumenDrop
