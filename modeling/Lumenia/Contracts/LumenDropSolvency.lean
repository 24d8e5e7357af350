import Lumenia.Contracts.LumenDropSpec
import Lumenia.Contracts.Custodian
import Mathlib.Tactic.Ring
import Mathlib.Tactic.Linarith

/-!
# LumenDrop: records, custody and solvency

`Sound` says what every stored record satisfies in every reachable world. Over it each step of the
ledger is one move of the contract's custody (`simulates`). What the contract holds beyond its
records is therefore exactly what it was given from outside plus what exits paid to the contract
itself (`final_sound`).
-/

namespace Lumenia.LumenDrop

open Soroban

section

variable {Address : Type} {G : Governance Address} {env : Env Address}
  {c : Ctx Address} {w w' : World G} {link : BytesN 32}

/-! ## Sound records -/

structure Pool.Sound (env : Env Address) (p : Pool Address) : Prop where
  sender : p.sender ≠ env.contract
  amountPer : 0 < p.amountPer
  slots : p.slots ≤ u32Max
  claimed : p.claimed ≤ p.slots
  covered : p.amountPer * (p.slots - p.claimed) ≤ p.remaining
  bounded : p.remaining ≤ i128Max

theorem Pool.Sound.remaining_nonneg {p : Pool Address} (h : p.Sound env) : 0 ≤ p.remaining := by
  have hclaimed : (p.claimed : ℤ) ≤ p.slots := by exact_mod_cast h.claimed
  have := mul_nonneg h.amountPer.le (sub_nonneg.mpr hclaimed)
  have := h.covered
  omega

/-- A pool with a free slot has money for it. -/
theorem Pool.Sound.share_le {p : Pool Address} (h : p.Sound env) (hfree : p.claimed < p.slots) :
    p.amountPer ≤ p.remaining := by
  have hone : (1 : ℤ) ≤ p.slots - p.claimed := by omega
  calc p.amountPer = p.amountPer * 1 := (mul_one _).symm
    _ ≤ p.amountPer * (p.slots - p.claimed) := mul_le_mul_of_nonneg_left hone h.amountPer.le
    _ ≤ p.remaining := h.covered

theorem Pool.Sound.share {p : Pool Address} (h : p.Sound env) (hfree : p.claimed < p.slots) :
    p.shared.Sound env where
  sender := h.sender
  amountPer := h.amountPer
  slots := h.slots
  claimed := hfree
  covered := by
    have heq : p.amountPer * (p.slots - (p.claimed + 1 : ℕ)) =
        p.amountPer * (p.slots - p.claimed) - p.amountPer := by push_cast; ring
    have := h.covered
    change p.amountPer * (p.slots - (p.claimed + 1 : ℕ)) ≤ p.remaining - p.amountPer
    omega
  bounded := by
    have := h.bounded
    have := h.amountPer
    change p.remaining - p.amountPer ≤ i128Max
    omega

theorem Pool.Sound.close {p : Pool Address} (h : p.Sound env) :
    p.closed.Sound env where
  sender := h.sender
  amountPer := h.amountPer
  slots := h.slots
  claimed := le_rfl
  covered := by simp [Pool.closed]
  bounded := by simp [Pool.closed, i128Max]

variable [DecidableEq Address]

/-- What every stored record satisfies, in every reachable world. -/
structure Sound (env : Env Address) (w : World G) : Prop where
  token : (w.storage.lookup DataKey.token).isSome = true
  drops : ∀ {link d}, getDrop w link = some d → d.sender ≠ env.contract ∧ 0 < d.amount
  pools : ∀ {link p}, getPool w link = some p → p.Sound env

namespace Sound

variable {s : Finmap (@DataKey.Val Address)} {g g' : G.State} {b b' : Address → ℤ}

/-- Soundness speaks of the storage alone. -/
theorem of_storage (h : Sound (G := G) env ⟨s, g, b⟩) : Sound (G := G) env ⟨s, g', b'⟩ :=
  ⟨h.token, h.drops, h.pools⟩

theorem insert_drop (h : Sound (G := G) env ⟨s, g, b⟩) {d : Drop Address}
    (hself : d.sender ≠ env.contract) (hpos : 0 < d.amount) :
    Sound (G := G) env ⟨s.insert (.drop link) (.V1 d), g, b⟩ where
  token := by simpa [Finmap.lookup_insert_of_ne s] using h.token
  drops {l d'} hd := by
    by_cases hl : l = link
    · subst hl
      rw [getDrop_insert_self, Option.some.injEq] at hd
      subst hd
      exact ⟨hself, hpos⟩
    · rw [getDrop_insert_of_ne (by simpa using Ne.symm hl)] at hd
      exact h.drops hd
  pools hp := h.pools (by rwa [getPool_insert_of_ne (by simp)] at hp)

theorem insert_pool (h : Sound (G := G) env ⟨s, g, b⟩) {p : Pool Address} (hp : p.Sound env) :
    Sound (G := G) env ⟨s.insert (.pool link) (.V1 p), g, b⟩ where
  token := by simpa [Finmap.lookup_insert_of_ne s] using h.token
  drops hd := h.drops (by rwa [getDrop_insert_of_ne (by simp)] at hd)
  pools {l p'} hp' := by
    by_cases hl : l = link
    · subst hl
      rw [getPool_insert_self, Option.some.injEq] at hp'
      exact hp' ▸ hp
    · rw [getPool_insert_of_ne (by simpa using Ne.symm hl)] at hp'
      exact h.pools hp'

theorem insert_poolClaimed (h : Sound (G := G) env ⟨s, g, b⟩) {a : Address} :
    Sound (G := G) env ⟨s.insert (DataKey.poolClaimed link a) true, g, b⟩ where
  token := by simpa [Finmap.lookup_insert_of_ne s] using h.token
  drops hd := h.drops (by rwa [getDrop_insert_of_ne (by simp)] at hd)
  pools hp := h.pools (by rwa [getPool_insert_of_ne (by simp)] at hp)

end Sound

theorem Admitted.sound {e : Exit Address} {q : Settlement Address} (h : Admitted env c w e q)
    (hw : Sound env w) : Sound env (settled env w q) := by
  cases h with
  | @claim _ _ _ d hd | @reclaim _ d hd =>
    obtain ⟨hself, hpos⟩ := hw.drops hd
    exact (hw.insert_drop (d := d.taken) hself hpos).of_storage
  | claimShare hp _ hslots =>
    exact (hw.insert_poolClaimed.insert_pool ((hw.pools hp).share hslots)).of_storage
  | reclaimPool hp => exact (hw.insert_pool (hw.pools hp).close).of_storage

omit [DecidableEq Address] in
theorem createdPool_sound {sender : Address} {amount : I128} {slots : U32} {expiry : ℕ}
    (hself : sender ≠ env.contract) (hslots : 0 < slots.1) (hle : (slots.1 : ℤ) ≤ amount.1) :
    Pool.Sound env ⟨sender, amount.1 / slots.1, amount.1, slots.1, 0, expiry⟩ where
  sender := hself
  amountPer := Int.le_ediv_of_mul_le (by exact_mod_cast hslots) (by omega)
  slots := slots.2
  claimed := Nat.zero_le _
  covered := by
    have := Int.mul_ediv_self_le (x := amount.1) (k := slots.1) (by omega)
    simpa [mul_comm] using this
  bounded := amount.2.2

theorem Done.sound {op : Op Address} {r : Receipt Address (Event Address)}
    (h : Done env c w op w' r) (hw : Sound env w) : Sound env w' := by
  cases h with
  | deposit hself hpos => exact (hw.insert_drop hself hpos).of_storage
  | createDrop hself hslots hle =>
    exact (hw.insert_pool (createdPool_sound hself hslots hle)).of_storage
  | exit hadm => exact hadm.sound hw
  | governance => exact hw.of_storage

theorem construct_sound {tok owner : Address} {opening : Address → ℕ} :
    Sound env (construct (G := G) tok owner opening) where
  token := by simp [construct, Finmap.lookup_insert]
  drops hd := by simp [construct, getDrop, Finmap.lookup_insert_of_ne] at hd
  pools hp := by simp [construct, getPool, Finmap.lookup_insert_of_ne] at hp

/-! ## The contract as a custody of its own account -/

/-- What a record owes. -/
def DataKey.owed : (k : DataKey Address) → k.Val → ℤ
  | .drop _, .V1 d => if d.claimed then 0 else d.amount
  | .pool _, .V1 p => p.remaining
  | .token, _ | .poolClaimed .., _ => 0

/-- The amounts of the unclaimed drops plus the remainders of the pools. -/
abbrev escrowed (w : World G) : ℤ := Soroban.escrowed DataKey.owed w

theorem owed_drop {d : Drop Address} (h : getDrop w link = some d) :
    w.storage.weight DataKey.owed (.drop link) = if d.claimed then 0 else d.amount :=
  Finmap.weight_of_lookup (lookup_drop_of_getDrop h)

theorem owed_pool {p : Pool Address} (h : getPool w link = some p) :
    w.storage.weight DataKey.owed (.pool link) = p.remaining :=
  Finmap.weight_of_lookup (lookup_pool_of_getPool h)

theorem Sound.owed_nonneg (hw : Sound env w) (k : DataKey Address) :
    0 ≤ w.storage.weight DataKey.owed k := by
  cases hk : w.storage.lookup k with
  | none => rw [Finmap.weight_of_lookup_none hk]
  | some v =>
    rw [Finmap.weight_of_lookup hk]
    match k, v with
    | .drop link, .V1 d =>
      have hd : getDrop w link = some d := by simp [getDrop, hk]
      simp only [DataKey.owed]
      split
      · rfl
      · exact (hw.drops hd).2.le
    | .pool link, .V1 p =>
      have hp : getPool w link = some p := by simp [getPool, hk]
      exact (hw.pools hp).remaining_nonneg
    | .token, _ | .poolClaimed .., _ => rfl

/-- An exit takes exactly what it pays out of what the records owe. -/
theorem Admitted.escrowed_settled {e : Exit Address} {q : Settlement Address} (h : Admitted env c w e q) :
    escrowed (settled env w q) = escrowed w - q.amount := by
  unfold escrowed Soroban.escrowed
  cases h with
  | claim hd hopen | reclaim hd hopen =>
    simp [settled, Finmap.total_insert, owed_drop hd, hopen, DataKey.owed, Drop.taken]
  | @claimShare link payout _ p hp =>
    have hpool : (w.storage.insert (DataKey.poolClaimed link payout) true).weight DataKey.owed
        (.pool link) = p.remaining := by
      rw [Finmap.weight_insert_of_ne (by simp), owed_pool hp]
    have hflag : w.storage.weight DataKey.owed (.poolClaimed link payout) = 0 := by
      cases hk : w.storage.lookup (DataKey.poolClaimed link payout) with
      | none => exact Finmap.weight_of_lookup_none hk
      | some v => exact Finmap.weight_of_lookup hk
    simp only [settled, sharePlan, writeAll_cons, writeAll_nil, Finmap.total_insert, hpool, hflag,
      DataKey.owed, Pool.shared]
    omega
  | reclaimPool hp => simp [settled, Finmap.total_insert, owed_pool hp, DataKey.owed, Pool.closed]

/-- Exits pay positive amounts. -/
theorem Admitted.amount_pos {e : Exit Address} {q : Settlement Address} (h : Admitted env c w e q)
    (hw : Sound env w) : 0 < q.amount := by
  cases h with
  | claim hd | reclaim hd => exact (hw.drops hd).2
  | claimShare hp => exact (hw.pools hp).amountPer
  | reclaimPool _ _ _ _ hrem => exact hrem

/-- The record an exit addresses. -/
def Exit.key : Exit Address → DataKey Address
  | .claim link _ _ | .reclaim link => .drop link
  | .claimShare link _ _ | .reclaimPool link => .pool link

/-- An exit never pays more than its own record owes. -/
theorem Admitted.amount_le {e : Exit Address} {q : Settlement Address} (h : Admitted env c w e q) :
    q.amount ≤ w.storage.weight DataKey.owed e.key := by
  cases h with
  | claim hd hopen | reclaim hd hopen =>
    change _ ≤ w.storage.weight DataKey.owed (.drop _)
    simp [owed_drop hd, hopen]
  | claimShare hp _ _ hrem =>
    change _ ≤ w.storage.weight DataKey.owed (.pool _)
    simpa [owed_pool hp, sharePlan] using hrem
  | reclaimPool hp =>
    change _ ≤ w.storage.weight DataKey.owed (.pool _)
    simp [owed_pool hp]

theorem Admitted.covered {e : Exit Address} {q : Settlement Address} (h : Admitted env c w e q)
    (hw : Sound env w) (hcov : escrowed w ≤ w.balance env.contract) :
    q.amount ≤ w.balance env.contract :=
  (h.amount_le.trans (Finmap.weight_le_total hw.owed_nonneg)).trans hcov

abbrev Outcome (Address : Type) := Except (Fault Error) (Receipt Address (Event Address))

theorem Done.custody {op : Op Address} {r : Receipt Address (Event Address)}
    (h : Done env c w op w' r) (hw : Sound env w) :
    let move : Custody.Move Address := moveOf env (.call c op) (.ok r : Outcome Address)
    move.Honest env.contract ∧
      custody DataKey.owed w' = (custody DataKey.owed w).apply env.contract move := by
  cases h with
  | deposit hself _ hnew =>
    have hzero := Finmap.weight_of_lookup_none (w := DataKey.owed) (getDrop_eq_none.mp hnew)
    simp [Soroban.custody, Soroban.escrowed, Custody.apply, Custody.Move.Honest, moveOf, hself,
      Finmap.total_insert, hzero, DataKey.owed]
  | createDrop hself _ _ hnew =>
    have hzero := Finmap.weight_of_lookup_none (w := DataKey.owed) (getPool_eq_none.mp hnew)
    simp [Soroban.custody, Soroban.escrowed, Custody.apply, Custody.Move.Honest, moveOf, hself,
      Finmap.total_insert, hzero, DataKey.owed]
  | exit hadm =>
    have hpaid := hadm.escrowed_settled
    have hnonneg := (hadm.amount_pos hw).le
    simp only [moveOf, if_true, Custody.Move.Honest, Custody.apply, Soroban.custody]
    exact ⟨hnonneg, congrArg₂ Custody.mk hpaid rfl⟩
  | governance => exact ⟨trivial, rfl⟩

/-- **Simulation.** One step of the ledger, successful or not, is one honest move of the custody. -/
theorem simulates (hw : Sound env w) (i : Input Address) :
    Simulates env DataKey.owed (invoke env) w i :=
  simulates_of_ok fun hi hinv => hi ▸ (invoke_cases hw.token hinv).custody hw

theorem step_sound (hw : Sound env w) (i : Input Address) :
    Sound env (step env (invoke env) w i).1 := by
  cases i with
  | call c op =>
    obtain ⟨f, h⟩ | ⟨w', r, h, hdone⟩ := step_call_cases hw.token c op
    · rwa [h]
    · rw [h]
      exact hdone.sound hw
  | outside src dst n =>
    simp only [step]
    split
    · exact hw
    · exact hw.of_storage

/-! ## Solvency -/

section Runs

variable {tok owner : Address} {opening : Address → ℕ} {is : List (Input Address)}

theorem escrowed_construct : escrowed (construct (G := G) tok owner opening) = 0 := by
  simp [Soroban.escrowed, construct, Finmap.total_insert, Finmap.weight, DataKey.owed]

/-- Every reachable world is sound, and holds its records plus what strayed into it. -/
theorem final_sound :
    let m := ledger (G := G) env tok owner opening
    Sound env (m.final is) ∧ 0 ≤ strays env (m.history is) ∧
      (m.final is).balance env.contract =
        escrowed (m.final is) + opening env.contract + strays env (m.history is) := by
  have hinit : Sound env (construct (G := G) tok owner opening) := construct_sound
  have hzero : escrowed (construct (G := G) tok owner opening) = 0 := escrowed_construct
  have h := final_custody hinit (fun hw => step_sound hw _) (fun hw => simulates hw _) is
  simp only [hzero, sub_zero] at h
  exact h

/-- The step is a claim that passes its guards, is not refused by the asset contract, and names the
contract's own address as its payout. -/
def SelfPayout (env : Env Address) (w : World G) : Input Address → Prop
  | .call c (.exit (.claim link payout sig)) =>
    payout = env.contract ∧ ∃ d, getDrop w link = some d ∧ d.claimed = false ∧
      env.ed25519Verify link (message env tagSingle link payout) sig = true ∧
      c.refuses w.balance env.contract payout d.amount = false
  | .call c (.exit (.claimShare link payout sig)) =>
    payout = env.contract ∧ ∃ p, getPool w link = some p ∧ c.timestamp < p.expiry ∧
      p.claimed < p.slots ∧ w.storage.lookup (DataKey.poolClaimed link payout) = none ∧
      env.ed25519Verify link (message env tagGroup link payout) sig = true ∧
      c.refuses w.balance env.contract payout p.amountPer = false
  | _ => False

/-- An exit that pays the contract is a self payout: senders are never the contract. -/
theorem Admitted.selfPayout {e : Exit Address} {q : Settlement Address} (h : Admitted env c w e q)
    (hyes : c.refuses w.balance env.contract q.dst q.amount = false) (hdst : q.dst = env.contract) :
    SelfPayout env w (.call c (.exit e)) := by
  cases h with
  | claim hd hopen hsig => exact ⟨hdst, _, hd, hopen, hsig, hyes⟩
  | claimShare hp hexp hslots _ hnew hsig => exact ⟨hdst, _, hp, hexp, hslots, hnew, hsig, hyes⟩
  | reclaim _ _ _ _ hself | reclaimPool _ _ _ hself => exact absurd hdst hself

theorem Sound.admitted_claimShare {p : Pool Address} {payout : Address} {sig : BytesN 64}
    (hw : Sound env w) (hp : getPool w link = some p) (hexp : c.timestamp < p.expiry)
    (hslots : p.claimed < p.slots)
    (hnew : w.storage.lookup (DataKey.poolClaimed link payout) = none)
    (hsig : env.ed25519Verify link (message env tagGroup link payout) sig = true) :
    Admitted env c w (.claimShare link payout sig) (sharePlan link payout p) := by
  have hsound := hw.pools hp
  have hle := hsound.share_le hslots
  have hadd : p.claimed + 1 ≤ u32Max := hslots.trans_le hsound.slots
  have hsub : i128Min ≤ p.remaining - p.amountPer ∧ p.remaining - p.amountPer ≤ i128Max := by
    have := hsound.bounded
    have := hsound.amountPer
    simp only [i128Min]
    omega
  exact .claimShare hp hexp hslots hle hnew hsig hadd hsub

/-- A self payout is an admitted exit. -/
theorem SelfPayout.admitted {i : Input Address} (hw : Sound env w) (h : SelfPayout env w i) :
    ∃ c e q, i = .call c (.exit e) ∧ Admitted env c w e q ∧ q.dst = env.contract ∧
      c.refuses w.balance env.contract q.dst q.amount = false := by
  cases i with
  | outside => exact h.elim
  | call c op =>
    cases op with
    | exit e =>
      cases e with
      | claim link payout sig =>
        obtain ⟨hdst, d, hd, hopen, hsig, hyes⟩ := h
        exact ⟨c, _, _, rfl, .claim hd hopen hsig, hdst, hyes⟩
      | claimShare link payout sig =>
        obtain ⟨hdst, p, hp, hexp, hslots, hnew, hsig, hyes⟩ := h
        exact ⟨c, _, _, rfl, hw.admitted_claimShare hp hexp hslots hnew hsig, hdst, hyes⟩
      | reclaim | reclaimPool => exact h.elim
    | deposit | createDrop | governance => exact h.elim

/-- Without gifts, money strays into the contract by self payouts only. -/
theorem stray_eq_zero_iff (hw : Sound env w) (hcov : escrowed w ≤ w.balance env.contract)
    {i : Input Address} (hgift : NoGift env i) :
    (moveOf env i (step env (invoke env) w i).2).stray env.contract = 0 ↔ ¬ SelfPayout env w i := by
  constructor
  · intro hstray hself
    obtain ⟨c, e, q, rfl, hadm, hdst, hyes⟩ := hself.admitted hw
    rw [step_of_admitted hw.token hadm (hadm.covered hw hcov) hyes, stray_call,
      if_pos ⟨rfl, hdst⟩] at hstray
    exact (hadm.amount_pos hw).ne' hstray
  · intro hself
    cases i with
    | call c op =>
      obtain ⟨f, h⟩ | ⟨w', r, h, hdone⟩ := step_call_cases hw.token c op
      · rw [h, moveOf_error]
        rfl
      · rw [h]
        cases hdone with
        | deposit hsender | createDrop hsender =>
          rw [stray_call]
          exact if_neg fun hboth => hsender hboth.1
        | governance => rfl
        | exit hadm =>
          obtain ⟨q, hadm, hyes, -⟩ := admitted_of_step hw.token (congrArg Prod.snd h)
          rw [← h, step_of_admitted hw.token hadm (hadm.covered hw hcov) hyes, stray_call]
          exact if_neg fun hboth => hself (hadm.selfPayout hyes hboth.2)
    | outside src dst n =>
      simp only [step]
      split
      · rfl
      · exact if_neg hgift

/-- In every reachable world the contract's balance covers its records. -/
theorem escrowed_le_balance :
    let m := ledger (G := G) env tok owner opening
    escrowed (m.final is) ≤ (m.final is).balance env.contract := by
  intro m
  obtain ⟨-, hnonneg, hsum⟩ : _ ∧ 0 ≤ strays env (m.history is) ∧
    (m.final is).balance env.contract =
      escrowed (m.final is) + opening env.contract + strays env (m.history is) := final_sound
  omega

/-- A covered exit does not end for want of funds. -/
theorem step_exit_ne_unfunded (hw : Sound env w) (hcov : escrowed w ≤ w.balance env.contract)
    (c : Ctx Address) (e : Exit Address) :
    (step env (invoke env) w (.call c (.exit e))).2 ≠ .error (.trap .unfunded) := by
  rw [step_exit]
  cases h : plan env c w e with
  | error f =>
    rw [perform_error]
    intro hf
    rw [Except.error.injEq] at hf
    subst hf
    exact plan_ne_unfunded h
  | ok q =>
    have hadm := (plan_eq_ok hw.token).mp h
    have hle := hadm.amount_le.trans (Finmap.weight_le_total hw.owed_nonneg)
    rw [perform_ok (hle.trans hcov)]
    split <;> simp

/-- **Solvency.** With nothing sent to the contract from outside, the contract holds exactly the
money of its records after every step of a run just when no step is a self payout; and any exit
tried next is funded in any case. -/
theorem solvency (hopen : opening env.contract = 0) (hgift : ∀ i ∈ is, NoGift env i) :
    let m := ledger (G := G) env tok owner opening
    ((∀ js, js <+: is → (m.final js).balance env.contract = escrowed (m.final js)) ↔
      ∀ js i, js ++ [i] <+: is → ¬ SelfPayout env (m.final js) i) ∧
    ∀ (c : Ctx Address) (e : Exit Address),
      (m.step (m.final is) (.call c (.exit e))).2 ≠ .error (.trap .unfunded) := by
  intro m
  have hstray : ∀ js i, js ++ [i] <+: is →
      ((moveOf env i (m.step (m.final js) i).2).stray env.contract = 0 ↔
        ¬ SelfPayout env (m.final js) i) := fun js i hpre =>
    stray_eq_zero_iff final_sound.1 escrowed_le_balance (hgift i (hpre.subset (by simp)))
  have hsum : ∀ js, (m.final js).balance env.contract = escrowed (m.final js) +
      opening env.contract + strays env (m.history js) := fun js => final_sound.2.2
  have hlast : ∀ js i, strays env (m.history (js ++ [i])) = strays env (m.history js) +
      (moveOf env i (m.step (m.final js) i).2).stray env.contract := fun js i => by
    rw [Machine.history_concat, strays_concat]
  refine ⟨⟨fun heq js i hpre => ?_, fun hself js hpre => ?_⟩,
    fun c e => step_exit_ne_unfunded final_sound.1 escrowed_le_balance c e⟩
  · rw [← hstray js i hpre]
    have hbefore := heq js ((List.prefix_append js [i]).trans hpre)
    have hafter := heq (js ++ [i]) hpre
    have := hlast js i
    have := hsum js
    have := hsum (js ++ [i])
    omega
  · rw [hsum, hopen]
    suffices hzero : strays env (m.history js) = 0 by omega
    induction js using List.reverseRecOn with
    | nil => rfl
    | append_singleton js i ih =>
      rw [hlast, ih ((List.prefix_append js [i]).trans hpre), zero_add]
      exact (hstray js i hpre).mpr (hself js i hpre)

end Runs

end

/-! ## Concrete runs

A deposit of 5 by account 3, then a claim of it to account 4, or to the contract itself. -/

namespace Demo

open Soroban.Demo (at_ link sig five hundred)

def opening : ℕ → ℕ := fun a => if a = 3 then 10 else 0

def ledger : Machine (World Governance.standard) (Input ℕ) (Outcome ℕ) :=
  LumenDrop.ledger Soroban.Demo.env 1 2 opening

def fund : Input ℕ := .call (at_ 0 3) (.deposit 3 link five hundred)

def claimTo (payout : ℕ) : Input ℕ := .call (at_ 10 9) (.exit (.claim link payout sig))

end Demo

open Demo

theorem solvency_claimed :
    (Demo.ledger.final [fund, claimTo 4]).balance 0 =
      escrowed (Demo.ledger.final [fund, claimTo 4]) := by
  have hgift : ∀ i ∈ [fund, claimTo 4], NoGift Soroban.Demo.env i := by
    simp [fund, claimTo, NoGift]
  refine (solvency (show opening 0 = 0 from rfl) hgift).1.mpr ?_ _ List.prefix_rfl
  intro js i hpre
  have hi : i ∈ [fund, claimTo 4] := hpre.subset (by simp)
  simp only [List.mem_cons, List.not_mem_nil, or_false] at hi
  obtain rfl | rfl := hi
  · exact id
  · exact fun h => absurd h.1 (by decide)

/-- A claim the link key signs for the contract's own address is paid to it: the record is closed
and its money belongs to no record. -/
theorem self_payout_strands :
    (Demo.ledger.final [fund, claimTo 0]).balance 0 = 5 ∧
      escrowed (Demo.ledger.final [fund, claimTo 0]) = 0 := by
  decide

end Lumenia.LumenDrop
