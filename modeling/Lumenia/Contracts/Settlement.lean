import Lumenia.Contracts.Host

/-!
# Settlements

Every exit of the escrow contracts ends the same way: it writes its record (and perhaps a marker),
then pays one amount out of the contract. A `Settlement` is that decision as data; `settle` carries
it out. Settlements that write different keys and are covered together can be carried out in either
order (`settled_comm`).
-/

namespace Lumenia.Soroban

variable {Address : Type} [DecidableEq Address] {κ : Type} [DecidableEq κ] {Val : κ → Type}
  {G : Governance Address} {ε ev : Type}

structure Settlement (Address : Type) {κ : Type} (Val : κ → Type) (ev : Type) where
  writes : List (Sigma Val)
  dst : Address
  amount : ℤ
  event : ev

/-- Storage after a list of writes, first one first. -/
def writeAll (s : Finmap Val) (ws : List (Sigma Val)) : Finmap Val :=
  ws.foldl (fun s kv => s.insert kv.1 kv.2) s

@[simp] theorem writeAll_nil {s : Finmap Val} : writeAll s [] = s := rfl

@[simp] theorem writeAll_cons {s : Finmap Val} {kv : Sigma Val} {ws : List (Sigma Val)} :
    writeAll s (kv :: ws) = writeAll (s.insert kv.1 kv.2) ws := rfl

theorem lookup_writeAll {s : Finmap Val} {ws : List (Sigma Val)} {k : κ}
    (h : k ∉ ws.map Sigma.fst) : (writeAll s ws).lookup k = s.lookup k := by
  induction ws generalizing s with
  | nil => rfl
  | cons kv ws ih =>
    simp only [List.map_cons, List.mem_cons, not_or] at h
    rw [writeAll_cons, ih h.2, Finmap.lookup_insert_of_ne s h.1]

theorem writeAll_insert {s : Finmap Val} {ws : List (Sigma Val)} {k : κ} {v : Val k}
    (h : k ∉ ws.map Sigma.fst) : writeAll (s.insert k v) ws = (writeAll s ws).insert k v := by
  induction ws generalizing s with
  | nil => rfl
  | cons kv ws ih =>
    simp only [List.map_cons, List.mem_cons, not_or] at h
    rw [writeAll_cons, writeAll_cons, Finmap.insert_insert_of_ne s h.1, ih h.2]

theorem writeAll_comm {s : Finmap Val} {us vs : List (Sigma Val)}
    (h : (us.map Sigma.fst).Disjoint (vs.map Sigma.fst)) :
    writeAll (writeAll s us) vs = writeAll (writeAll s vs) us := by
  induction us generalizing s with
  | nil => rfl
  | cons kv us ih =>
    simp only [List.map_cons, List.disjoint_cons_left] at h
    rw [writeAll_cons, writeAll_cons, ih h.2, writeAll_insert h.1]

variable (env : Env Address)

/-- Effects first, then the transfer. -/
def settle (c : Ctx Address) (w : World Address Val G.State) (p : Settlement Address Val ev) :
    Except (Fault ε) (World Address Val G.State × Receipt Address ev) := do
  let t : Transfer Address := ⟨env.contract, p.dst, p.amount⟩
  let w ← { w with storage := writeAll w.storage p.writes }.transfer c t
  return (w, ⟨[t], [p.event]⟩)

/-- The world a settlement leads to. -/
def settled (w : World Address Val G.State) (p : Settlement Address Val ev) :
    World Address Val G.State where
  storage := writeAll w.storage p.writes
  gov := w.gov
  balance := (Transfer.mk env.contract p.dst p.amount).apply w.balance

/-- The outcome of a plan: a failed invocation leaves the world as it was. -/
def perform (c : Ctx Address) (w : World Address Val G.State)
    (x : Except (Fault ε) (Settlement Address Val ev)) :
    World Address Val G.State × Except (Fault ε) (Receipt Address ev) :=
  match x >>= settle env c w with
  | .ok (w', r) => (w', .ok r)
  | .error f => (w, .error f)

variable {env} {w : World Address Val G.State} {p q : Settlement Address Val ev} {c : Ctx Address}

theorem settle_eq_ok {r : World Address Val G.State × Receipt Address ev} :
    settle (ε := ε) env c w p = .ok r ↔
      p.amount ≤ w.balance env.contract ∧ c.refuses w.balance env.contract p.dst p.amount = false ∧
        r = (settled env w p, ⟨[⟨env.contract, p.dst, p.amount⟩], [p.event]⟩) := by
  unfold settle
  simp only [bind_eq_ok, World.transfer_eq_ok, pure, Except.pure, Except.ok.injEq, eq_comm (b := r)]
  constructor
  · intro h
    obtain ⟨_, ⟨h₁, h₂, rfl⟩, rfl⟩ := h
    exact ⟨h₁, h₂, rfl⟩
  · intro h
    obtain ⟨h₁, h₂, rfl⟩ := h
    exact ⟨_, ⟨h₁, h₂, rfl⟩, rfl⟩

/-- A covered settlement goes through or is refused by the asset contract. -/
theorem settle_of_covered (h : p.amount ≤ w.balance env.contract) :
    settle (ε := ε) env c w p =
      if c.refuses w.balance env.contract p.dst p.amount = true then .error (.trap .tokenRefused)
      else .ok (settled env w p, ⟨[⟨env.contract, p.dst, p.amount⟩], [p.event]⟩) := by
  simp only [settle, World.transfer, failIf_bind, if_neg (not_lt.mpr h)]
  split <;> rfl

theorem perform_error {f : Fault ε} : perform env c w
    (.error f : Except _ (Settlement Address Val ev)) = (w, .error f) := rfl

theorem perform_ok (h : p.amount ≤ w.balance env.contract) :
    perform (ε := ε) env c w (.ok p) =
      if c.refuses w.balance env.contract p.dst p.amount = true then (w, .error (.trap .tokenRefused))
      else (settled env w p, .ok ⟨[⟨env.contract, p.dst, p.amount⟩], [p.event]⟩) := by
  simp only [perform, ok_bind, settle_of_covered h]
  cases hr : c.refuses w.balance env.contract p.dst p.amount <;> simp

/-- A payment of `q` leaves enough for `p` when there was enough for both. -/
theorem covered_settled (hq : 0 ≤ q.amount)
    (h : p.amount + q.amount ≤ w.balance env.contract) :
    p.amount ≤ (settled env w q).balance env.contract := by
  simp only [settled, Transfer.apply_eq]
  split_ifs <;> omega

theorem settled_comm (h : (p.writes.map Sigma.fst).Disjoint (q.writes.map Sigma.fst)) :
    settled env (settled env w p) q = settled env (settled env w q) p := by
  ext1
  · exact writeAll_comm h
  · rfl
  · exact Transfer.apply_comm _ _ _

variable {c₁ c₂ : Ctx Address} {x y : Except (Fault ε) (Settlement Address Val ev)}

/-- Plans that write different keys and are covered together can be carried out in either order,
where the asset contract answers each of them after the other as before it: both outcomes and the
final world are the same. -/
theorem perform_comm
    (hx : ∀ p, x = .ok p → 0 ≤ p.amount ∧ p.amount ≤ w.balance env.contract)
    (hy : ∀ q, y = .ok q → 0 ≤ q.amount ∧ q.amount ≤ w.balance env.contract)
    (hxy : ∀ p q, x = .ok p → y = .ok q →
      p.amount + q.amount ≤ w.balance env.contract ∧
        (p.writes.map Sigma.fst).Disjoint (q.writes.map Sigma.fst))
    (hrx : ∀ p, x = .ok p →
      c₁.refuses (perform env c₂ w y).1.balance env.contract p.dst p.amount =
        c₁.refuses w.balance env.contract p.dst p.amount)
    (hry : ∀ q, y = .ok q →
      c₂.refuses (perform env c₁ w x).1.balance env.contract q.dst q.amount =
        c₂.refuses w.balance env.contract q.dst q.amount) :
    (perform env c₂ (perform env c₁ w x).1 y).1 =
        (perform env c₁ (perform env c₂ w y).1 x).1 ∧
      (perform env c₁ (perform env c₂ w y).1 x).2 =
        (perform env c₁ w x).2 ∧
      (perform env c₂ (perform env c₁ w x).1 y).2 =
        (perform env c₂ w y).2 := by
  cases x with
  | error f => simp [perform_error]
  | ok p =>
    cases y with
    | error f => simp [perform_error]
    | ok q =>
      obtain ⟨hp, hpc⟩ := hx p rfl
      obtain ⟨hq, hqc⟩ := hy q rfl
      obtain ⟨hsum, hdisj⟩ := hxy p q rfl rfl
      have hpq : p.amount ≤ (settled env w q).balance env.contract := covered_settled hq hsum
      have hqp : q.amount ≤ (settled env w p).balance env.contract :=
        covered_settled hp (by omega)
      have hrp := hrx p rfl
      have hrq := hry q rfl
      rw [perform_ok hqc] at hrp
      rw [perform_ok hpc] at hrq
      rw [perform_ok hpc, perform_ok hqc]
      split_ifs with h₁ h₂ h₂
      · simp [perform_ok hpc, perform_ok hqc, h₁, h₂]
      · rw [if_neg h₂] at hrp
        simp [perform_ok hqc, perform_ok hpq, h₁, h₂, hrp]
      · rw [if_neg h₁] at hrq
        simp [perform_ok hpc, perform_ok hqp, h₁, h₂, hrq]
      · rw [if_neg h₂] at hrp
        rw [if_neg h₁] at hrq
        simp [perform_ok hpq, perform_ok hqp, h₁, h₂, hrp, hrq, settled_comm hdisj]

end Lumenia.Soroban
