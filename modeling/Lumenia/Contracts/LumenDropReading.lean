import Lumenia.Contracts.LumenDropExits

/-!
# LumenDrop: what a record tells

In every reachable world the record of a link decides, together with the time, which of its exits
succeed and which are refused because the pool is empty.
-/

namespace Lumenia.LumenDrop

open Soroban

variable {Address : Type} {G : Governance Address} {env : Env Address} {p : Pool Address}

/-- A sound pool is out of money for a share just when its shares are gone. -/
theorem exhausted_iff (h : p.Sound env) :
    (p.slots ≤ p.claimed ∨ p.remaining < p.amountPer) ↔ p.slots ≤ p.claimed := by
  constructor
  · rintro (hslots | hrem)
    · exact hslots
    · by_contra hfree
      have hle := h.share_le (not_le.mp hfree)
      omega
  · exact .inl

theorem empty_iff (h : p.Sound env) :
    (p.slots ≤ p.claimed ∨ p.remaining ≤ 0) ↔ p.slots ≤ p.claimed := by
  constructor
  · rintro (hslots | hrem)
    · exact hslots
    · by_contra hfree
      have hle := h.share_le (not_le.mp hfree)
      have hpos := h.amountPer
      omega
  · exact .inl

variable [DecidableEq Address] {c : Ctx Address} {w : World G} {link : BytesN 32} {payout : Address}
  {sig : BytesN 64} {e : Exit Address} {d : Drop Address}

/-- A state of the contract on its ledger, after any run. -/
def Reachable (env : Env Address) (w : World G) : Prop :=
  ∃ tok owner opening is, w = (ledger (G := G) env tok owner opening).final is

theorem Reachable.sound (h : Reachable env w) : Sound env w := by
  obtain ⟨tok, owner, opening, is, rfl⟩ := h
  exact final_sound.1

theorem Reachable.covered (h : Reachable env w) : escrowed w ≤ w.balance env.contract := by
  obtain ⟨tok, owner, opening, is, rfl⟩ := h
  exact escrowed_le_balance

def Succeeds (env : Env Address) (c : Ctx Address) (w : World G) (e : Exit Address) : Prop :=
  ∃ w' r, invoke env c (.exit e) w = .ok (w', r)

def RefusedAsEmpty (env : Env Address) (c : Ctx Address) (w : World G) (e : Exit Address) : Prop :=
  invoke env c (.exit e) w = .error (.error .DropEmpty)

/-- Where the asset contract lets it pay, the contract carries out the admitted exits. -/
theorem Reachable.succeeds_iff (h : Reachable env w) (hpays : AssetPays env c w) :
    Succeeds env c w e ↔ ∃ q, Admitted env c w e q := by
  constructor
  · rintro ⟨w', r, hinvoke⟩
    rw [invoke, invokeExit_eq, bind_eq_ok] at hinvoke
    obtain ⟨q, hq, -⟩ := hinvoke
    exact ⟨q, (plan_eq_ok h.sound.token).mp hq⟩
  · rintro ⟨q, hq⟩
    obtain ⟨w', ev, hinvoke⟩ := hq.pays h.sound h.covered hpays
    exact ⟨w', _, hinvoke⟩

theorem settle_ne_error {q : Settlement Address} {x : Error} :
    settle env c w q ≠ .error (.error x) := by
  unfold settle World.transfer
  simp only [failIf_bind]
  split
  · simp
  · split
    · simp
    · intro h
      cases h

/-- The contract's own refusals come from the decision of the exit. -/
theorem refusedAsEmpty_iff : RefusedAsEmpty env c w e ↔ plan env c w e = .error (.error .DropEmpty) := by
  rw [RefusedAsEmpty, invoke, invokeExit_eq, bind_eq_error]
  constructor
  · rintro (h | ⟨q, -, hq⟩)
    · exact h
    · exact absurd hq settle_ne_error
  · exact .inl

/-- A share goes to an address that has none, on a good signature, while there are shares. -/
theorem Reachable.claimShare_iff (h : Reachable env w) (hpays : AssetPays env c w)
    (hp : getPool w link = some p)
    (hnew : w.storage.lookup (DataKey.poolClaimed link payout) = none)
    (hsig : env.ed25519Verify link (message env tagGroup link payout) sig = true) :
    Succeeds env c w (.claimShare link payout sig) ↔ c.timestamp < p.expiry ∧ p.claimed < p.slots := by
  rw [h.succeeds_iff hpays]
  constructor
  · rintro ⟨q, hq⟩
    cases hq with
    | claimShare hp' hexp hslots =>
      cases hp.symm.trans hp'
      exact ⟨hexp, hslots⟩
  · rintro ⟨hexp, hslots⟩
    exact ⟨_, h.sound.admitted_claimShare hp hexp hslots hnew hsig⟩

theorem Reachable.claimShare_empty_iff (h : Reachable env w) (hp : getPool w link = some p) :
    RefusedAsEmpty env c w (.claimShare link payout sig) ↔
      c.timestamp < p.expiry ∧ p.slots ≤ p.claimed := by
  rw [refusedAsEmpty_iff, ← exhausted_iff (h.sound.pools hp)]
  simp [plan, hp, bind_eq_error, token, pure, Except.pure]

theorem Reachable.reclaimPool_iff (h : Reachable env w) (hpays : AssetPays env c w)
    (hp : getPool w link = some p) (hauth : c.authorized p.sender = true) :
    Succeeds env c w (.reclaimPool link) ↔ p.expiry ≤ c.timestamp ∧ 0 < p.remaining := by
  rw [h.succeeds_iff hpays]
  constructor
  · rintro ⟨q, hq⟩
    cases hq with
    | reclaimPool hp' hexp _ _ hrem =>
      cases hp.symm.trans hp'
      exact ⟨hexp, hrem⟩
  · rintro ⟨hexp, hrem⟩
    exact ⟨_, .reclaimPool hp hexp hauth (h.sound.pools hp).sender hrem⟩

theorem Reachable.reclaimPool_empty_iff (h : Reachable env w) (hp : getPool w link = some p)
    (hauth : c.authorized p.sender = true) :
    RefusedAsEmpty env c w (.reclaimPool link) ↔ p.expiry ≤ c.timestamp ∧ p.remaining ≤ 0 := by
  have hsender := (h.sound.pools hp).sender
  rw [refusedAsEmpty_iff]
  simp [plan, hp, bind_eq_error, token, pure, Except.pure, requireAuth, hauth, hsender]

/-- A drop is paid on a good signature until it is gone. -/
theorem Reachable.claim_iff (h : Reachable env w) (hpays : AssetPays env c w)
    (hd : getDrop w link = some d)
    (hsig : env.ed25519Verify link (message env tagSingle link payout) sig = true) :
    Succeeds env c w (.claim link payout sig) ↔ d.claimed = false := by
  rw [h.succeeds_iff hpays]
  constructor
  · rintro ⟨q, hq⟩
    cases hq with
    | claim hd' hopen =>
      cases hd.symm.trans hd'
      exact hopen
  · exact fun hopen => ⟨_, .claim hd hopen hsig⟩

/-- Nothing is paid without a record. -/
theorem Reachable.not_succeeds (h : Reachable env w) (hpays : AssetPays env c w) :
    (getDrop w link = none → ¬Succeeds env c w (.claim link payout sig)) ∧
      (getPool w link = none → ¬Succeeds env c w (.claimShare link payout sig)) := by
  rw [h.succeeds_iff hpays, h.succeeds_iff hpays]
  constructor
  · rintro hnone ⟨q, hq⟩
    cases hq with
    | claim hd =>
      rw [hnone] at hd
      cases hd
  · rintro hnone ⟨q, hq⟩
    cases hq with
    | claimShare hp =>
      rw [hnone] at hp
      cases hp

end Lumenia.LumenDrop
