import Lumenia.Contracts.LumenDrop
import Lumenia.Contracts.Settlement

/-!
# What a LumenDrop call can do

An exit is a plan (`plan`, which reads only the records it names) followed by `settle`
(`invokeExit_eq`); `Admitted` lists the plans. A funding call and a governance call are inverted in
`deposit_eq_ok`, `createDrop_eq_ok` and `Soroban.governance_eq_ok`, and `invoke_cases` sums up one
successful call. Later modules reason from these and do not unfold the entry points again.
-/

namespace Lumenia.LumenDrop

open Soroban

variable {Address : Type} [DecidableEq Address] {G : Governance Address} {env : Env Address}
  {c : Ctx Address} {w w' : World G} {link : BytesN 32} {payout sender : Address}

abbrev Settlement (Address : Type) :=
  Soroban.Settlement Address (@DataKey.Val Address) (Event Address)

/-! ## Reading what was written -/

section Read

variable {k : DataKey Address} {v : k.Val} {s : Finmap (@DataKey.Val Address)}
  {g : G.State} {b : Address → ℤ}

@[simp] theorem getDrop_insert_self {d : Drop Address} :
    getDrop (G := G) ⟨s.insert (.drop link) (.V1 d), g, b⟩ link = some d := by
  simp [getDrop, Finmap.lookup_insert]

@[simp] theorem getPool_insert_self {p : Pool Address} :
    getPool (G := G) ⟨s.insert (.pool link) (.V1 p), g, b⟩ link = some p := by
  simp [getPool, Finmap.lookup_insert]

theorem getDrop_insert_of_ne (h : k ≠ .drop link) :
    getDrop (G := G) ⟨s.insert k v, g, b⟩ link = getDrop (G := G) ⟨s, g, b⟩ link := by
  simp [getDrop, Finmap.lookup_insert_of_ne s h.symm]

theorem getPool_insert_of_ne (h : k ≠ .pool link) :
    getPool (G := G) ⟨s.insert k v, g, b⟩ link = getPool (G := G) ⟨s, g, b⟩ link := by
  simp [getPool, Finmap.lookup_insert_of_ne s h.symm]

theorem token_insert_of_ne (h : k ≠ .token) :
    token (G := G) ⟨s.insert k v, g, b⟩ = token (G := G) ⟨s, g, b⟩ := by
  simp [token, Finmap.lookup_insert_of_ne s h.symm]

theorem lookup_drop_of_getDrop {d : Drop Address} (h : getDrop w link = some d) :
    w.storage.lookup (.drop link) = some (.V1 d) := by
  obtain ⟨⟨d'⟩, hd, rfl⟩ := Option.map_eq_some_iff.mp h
  exact hd

theorem lookup_pool_of_getPool {p : Pool Address} (h : getPool w link = some p) :
    w.storage.lookup (.pool link) = some (.V1 p) := by
  obtain ⟨⟨p'⟩, hp, rfl⟩ := Option.map_eq_some_iff.mp h
  exact hp

theorem getDrop_eq_none : getDrop w link = none ↔ w.storage.lookup (.drop link) = none :=
  Option.map_eq_none_iff

theorem getPool_eq_none : getPool w link = none ↔ w.storage.lookup (.pool link) = none :=
  Option.map_eq_none_iff

end Read

/-! ## Exits are plans, settled -/

/-- The decision of an exit, before anything is written. -/
def plan (env : Env Address) (c : Ctx Address) (w : World G) :
    Exit Address → Except (Fault Error) (Settlement Address)
  | .claim link payout sig => do
    let d ← okOr (getDrop w link) (.error .NothingHere)
    failIf (d.claimed = true) (.error .AlreadyClaimed)
    failIf (env.ed25519Verify link (message env tagSingle link payout) sig = false)
      (.trap .badSignature)
    let _ ← token w
    return ⟨[⟨.drop link, DropEntry.V1 { d with claimed := true }⟩], payout, d.amount,
      .claim link payout d.amount⟩
  | .reclaim link => do
    let d ← okOr (getDrop w link) (.error .NothingHere)
    failIf (d.claimed = true) (.error .AlreadyClaimed)
    failIf (c.timestamp < d.expiry) (.error .NotExpired)
    requireAuth env c d.sender
    let _ ← token w
    return ⟨[⟨.drop link, DropEntry.V1 { d with claimed := true }⟩], d.sender, d.amount,
      .reclaim link d.sender d.amount⟩
  | .claimShare link payout sig => do
    let p ← okOr (getPool w link) (.error .NothingHere)
    failIf (p.expiry ≤ c.timestamp) (.error .Expired)
    failIf (p.slots ≤ p.claimed ∨ p.remaining < p.amountPer) (.error .DropEmpty)
    failIf ((w.storage.lookup (DataKey.poolClaimed link payout)).isSome = true)
      (.error .AlreadyClaimedThis)
    failIf (env.ed25519Verify link (message env tagGroup link payout) sig = false)
      (.trap .badSignature)
    let claimed ← okOr (checkedAdd p.claimed 1) (.error .Overflow)
    let remaining ← okOr (checkedSub p.remaining p.amountPer) (.error .Overflow)
    let _ ← token w
    return ⟨[⟨.poolClaimed link payout, true⟩, ⟨.pool link, PoolEntry.V1 { p with claimed, remaining }⟩],
      payout, p.amountPer, .share link payout p.amountPer claimed⟩
  | .reclaimPool link => do
    let p ← okOr (getPool w link) (.error .NothingHere)
    failIf (c.timestamp < p.expiry) (.error .NotExpired)
    requireAuth env c p.sender
    failIf (p.remaining ≤ 0) (.error .DropEmpty)
    let _ ← token w
    return ⟨[⟨.pool link, PoolEntry.V1 { p with remaining := 0, claimed := p.slots }⟩], p.sender,
      p.remaining, .repool link p.sender p.remaining⟩

theorem invokeExit_eq (e : Exit Address) :
    invokeExit env c w e = plan env c w e >>= settle env c w := by
  cases e <;>
    simp [invokeExit, plan, claim, reclaim, claimShare, reclaimPool, settle, bind_assoc,
      token_insert_of_ne]

/-- A drop after its exit. -/
def Drop.taken (d : Drop Address) : Drop Address := { d with claimed := true }

/-- A pool after one more share. -/
def Pool.shared (p : Pool Address) : Pool Address :=
  { p with claimed := p.claimed + 1, remaining := p.remaining - p.amountPer }

/-- A pool after its sender took the rest. -/
def Pool.closed (p : Pool Address) : Pool Address := { p with remaining := 0, claimed := p.slots }

/-- Paying one share of the pool `p`. -/
def sharePlan (link : BytesN 32) (payout : Address) (p : Pool Address) : Settlement Address where
  writes := [⟨.poolClaimed link payout, true⟩, ⟨.pool link, PoolEntry.V1 p.shared⟩]
  dst := payout
  amount := p.amountPer
  event := .share link payout p.amountPer (p.claimed + 1)

/-- The plans of the four exits. -/
inductive Admitted (env : Env Address) (c : Ctx Address) (w : World G) :
    Exit Address → Settlement Address → Prop
  | claim {link payout sig d} (hd : getDrop w link = some d) (hopen : d.claimed = false)
      (hsig : env.ed25519Verify link (message env tagSingle link payout) sig = true) :
      Admitted env c w (.claim link payout sig)
        ⟨[⟨.drop link, DropEntry.V1 d.taken⟩], payout, d.amount,
          .claim link payout d.amount⟩
  | reclaim {link d} (hd : getDrop w link = some d) (hopen : d.claimed = false)
      (hexp : d.expiry ≤ c.timestamp) (hauth : c.authorized d.sender = true)
      (hself : d.sender ≠ env.contract) :
      Admitted env c w (.reclaim link)
        ⟨[⟨.drop link, DropEntry.V1 d.taken⟩], d.sender, d.amount,
          .reclaim link d.sender d.amount⟩
  | claimShare {link payout sig p} (hp : getPool w link = some p)
      (hexp : c.timestamp < p.expiry) (hslots : p.claimed < p.slots)
      (hrem : p.amountPer ≤ p.remaining)
      (hnew : w.storage.lookup (DataKey.poolClaimed link payout) = none)
      (hsig : env.ed25519Verify link (message env tagGroup link payout) sig = true)
      (hadd : p.claimed + 1 ≤ u32Max)
      (hsub : i128Min ≤ p.remaining - p.amountPer ∧ p.remaining - p.amountPer ≤ i128Max) :
      Admitted env c w (.claimShare link payout sig) (sharePlan link payout p)
  | reclaimPool {link p} (hp : getPool w link = some p) (hexp : p.expiry ≤ c.timestamp)
      (hauth : c.authorized p.sender = true) (hself : p.sender ≠ env.contract)
      (hrem : 0 < p.remaining) :
      Admitted env c w (.reclaimPool link)
        ⟨[⟨.pool link, PoolEntry.V1 p.closed⟩], p.sender,
          p.remaining, .repool link p.sender p.remaining⟩

theorem token_eq_ok {a : Address} : token w = .ok a ↔ w.storage.lookup .token = some a := by
  simp [token]

/-- `plan` accepts exactly the admitted plans, on a contract whose constructor has run. -/
theorem plan_eq_ok {e : Exit Address} {q : Settlement Address}
    (htok : (w.storage.lookup DataKey.token).isSome = true) :
    plan env c w e = .ok q ↔ Admitted env c w e q := by
  obtain ⟨a, ha⟩ := Option.isSome_iff_exists.mp htok
  have ht : token w = .ok a := token_eq_ok.mpr ha
  constructor
  · intro h
    cases e <;> simp only [plan, ht, bind_eq_ok, okOr_eq_ok, failIf_eq_ok, requireAuth_eq_ok,
      checkedAdd_eq_some, checkedSub_eq_some, pure, Except.pure, Except.ok.injEq, not_or, not_lt,
      not_le, Bool.not_eq_true, Bool.not_eq_false, Option.isSome_eq_false_iff,
      Option.isNone_iff_eq_none, exists_const] at h
    case claim =>
      obtain ⟨d, hd, hopen, hsig, _, -, rfl⟩ := h
      exact .claim hd hopen hsig
    case reclaim =>
      obtain ⟨d, hd, hopen, hexp, ⟨hauth, hself⟩, _, -, rfl⟩ := h
      exact .reclaim hd hopen hexp hauth hself
    case claimShare =>
      obtain ⟨p, hp, hexp, ⟨hslots, hrem⟩, hnew, hsig, _, ⟨hadd, rfl⟩, _, ⟨hsub, rfl⟩, _, -, rfl⟩ := h
      exact .claimShare hp hexp hslots hrem hnew hsig hadd hsub
    case reclaimPool =>
      obtain ⟨p, hp, hexp, ⟨hauth, hself⟩, hrem, _, -, rfl⟩ := h
      exact .reclaimPool hp hexp hauth hself hrem
  · intro h
    cases h with
    | claim hd hopen hsig => simp [plan, hd, hopen, hsig, ht, failIf_bind, Drop.taken]
    | reclaim hd hopen hexp hauth hself =>
      simp [plan, hd, hopen, ht, failIf_bind, requireAuth, hauth, hself, not_lt.mpr hexp,
        Drop.taken]
    | claimShare hp hexp hslots hrem hnew hsig hadd hsub =>
      have h₁ := checkedAdd_eq_some.mpr ⟨hadd, rfl⟩
      have h₂ := checkedSub_eq_some.mpr ⟨hsub, rfl⟩
      simp [plan, hp, ht, failIf_bind, not_le.mpr hexp, not_le.mpr hslots, not_lt.mpr hrem, hnew,
        hsig, h₁, h₂, sharePlan, Pool.shared]
    | reclaimPool hp hexp hauth hself hrem =>
      simp [plan, hp, ht, failIf_bind, requireAuth, hauth, hself, not_lt.mpr hexp, hrem, Pool.closed]

/-- The decision of an exit moves no money, so it does not fail for want of it. -/
theorem plan_ne_unfunded {e : Exit Address} : plan env c w e ≠ .error (.trap .unfunded) := by
  cases e <;> simp [plan, token, requireAuth, bind_eq_error, pure, Except.pure]

/-! ## Funding calls -/

section Funding

variable {amount : I128} {slots : U32} {expiry : U64}
  {r : World G × Receipt Address (Event Address)}

theorem deposit_eq_ok (h : deposit env c w sender link amount expiry = .ok r) :
    sender ≠ env.contract ∧ 0 < amount.1 ∧ getDrop w link = none ∧
      r = (⟨w.storage.insert (.drop link) (.V1 ⟨sender, amount.1, expiry.1, false⟩), w.gov,
          (Transfer.mk sender env.contract amount.1).apply w.balance⟩,
        ⟨[⟨sender, env.contract, amount.1⟩], [.deposit link sender amount.1 expiry.1]⟩) := by
  simp only [deposit, bind_eq_ok, failIf_eq_ok, requireAuth_eq_ok, World.transfer_eq_ok, not_le,
    Bool.not_eq_true, Option.isSome_eq_false_iff, Option.isNone_iff_eq_none, exists_const, pure,
    Except.pure, Except.ok.injEq] at h
  obtain ⟨_, -, ⟨-, hself⟩, hpos, _, -, hnew, _, -, _, ⟨-, -, rfl⟩, rfl⟩ := h
  exact ⟨hself, hpos, getDrop_eq_none.mpr hnew, rfl⟩

theorem createDrop_eq_ok (h : createDrop env c w sender link amount slots expiry = .ok r) :
    sender ≠ env.contract ∧ 0 < slots.1 ∧ (slots.1 : ℤ) ≤ amount.1 ∧ getPool w link = none ∧
      r = (⟨w.storage.insert (.pool link)
            (.V1 ⟨sender, amount.1 / slots.1, amount.1, slots.1, 0, expiry.1⟩), w.gov,
          (Transfer.mk sender env.contract amount.1).apply w.balance⟩,
        ⟨[⟨sender, env.contract, amount.1⟩], [.newPool link sender amount.1 slots.1]⟩) := by
  simp only [createDrop, bind_eq_ok, failIf_eq_ok, okOr_eq_ok, requireAuth_eq_ok,
    World.transfer_eq_ok, not_or, not_le, not_lt, Bool.not_eq_true, Option.isSome_eq_false_iff,
    Option.isNone_iff_eq_none, exists_const, pure, Except.pure, Except.ok.injEq] at h
  obtain ⟨_, -, ⟨-, hself⟩, ⟨hpos, hslots, hle⟩, _, -, hnew, per, hper, _, -, _, ⟨-, -, rfl⟩, rfl⟩ := h
  have hs : 0 < slots.1 := Nat.pos_of_ne_zero hslots
  rw [checkedDiv_of_pos hpos (by exact_mod_cast hs), Option.some.injEq] at hper
  subst hper
  exact ⟨hself, hs, hle, getPool_eq_none.mpr hnew, rfl⟩

end Funding

/-! ## One successful call -/

/-- Everything a successful call can have done. -/
inductive Done (env : Env Address) (c : Ctx Address) (w : World G) :
    Op Address → World G → Receipt Address (Event Address) → Prop
  | deposit {sender link amount expiry} (hself : sender ≠ env.contract) (hpos : 0 < amount.1)
      (hnew : getDrop w link = none) :
      Done env c w (.deposit sender link amount expiry)
        ⟨w.storage.insert (.drop link) (.V1 ⟨sender, amount.1, expiry.1, false⟩), w.gov,
          (Transfer.mk sender env.contract amount.1).apply w.balance⟩
        ⟨[⟨sender, env.contract, amount.1⟩], [.deposit link sender amount.1 expiry.1]⟩
  | createDrop {sender link amount slots expiry} (hself : sender ≠ env.contract)
      (hslots : 0 < slots.1) (hle : (slots.1 : ℤ) ≤ amount.1) (hnew : getPool w link = none) :
      Done env c w (.createDrop sender link amount slots expiry)
        ⟨w.storage.insert (.pool link)
          (.V1 ⟨sender, amount.1 / slots.1, amount.1, slots.1, 0, expiry.1⟩), w.gov,
          (Transfer.mk sender env.contract amount.1).apply w.balance⟩
        ⟨[⟨sender, env.contract, amount.1⟩], [.newPool link sender amount.1 slots.1]⟩
  | exit {e q} (hadm : Admitted env c w e q) (hcov : q.amount ≤ w.balance env.contract) :
      Done env c w (.exit e) (settled env w q)
        ⟨[⟨env.contract, q.dst, q.amount⟩], [q.event]⟩
  | governance {op g} : Done env c w (.governance op) { w with gov := g } ⟨[], []⟩

theorem invoke_cases {op : Op Address} {r : Receipt Address (Event Address)}
    (htok : (w.storage.lookup DataKey.token).isSome = true)
    (h : invoke env c op w = .ok (w', r)) : Done env c w op w' r := by
  cases op with
  | deposit =>
    obtain ⟨hself, hpos, hnew, hr⟩ := deposit_eq_ok h
    cases hr
    exact .deposit hself hpos hnew
  | createDrop =>
    obtain ⟨hself, hslots, hle, hnew, hr⟩ := createDrop_eq_ok h
    cases hr
    exact .createDrop hself hslots hle hnew
  | exit e =>
    rw [invoke, invokeExit_eq, bind_eq_ok] at h
    obtain ⟨q, hq, hr⟩ := h
    obtain ⟨hcov, -, hr⟩ := settle_eq_ok.mp hr
    cases hr
    exact .exit ((plan_eq_ok htok).mp hq) hcov
  | governance =>
    obtain ⟨g, hr⟩ := governance_eq_ok h
    cases hr
    exact .governance

theorem step_call_cases (htok : (w.storage.lookup DataKey.token).isSome = true) (c : Ctx Address)
    (op : Op Address) : (∃ f, step env (invoke env) w (.call c op) = (w, .error f)) ∨
      ∃ w' r, step env (invoke env) w (.call c op) = (w', .ok r) ∧ Done env c w op w' r := by
  cases h : invoke env c op w with
  | error f => exact .inl ⟨f, step_call_error h⟩
  | ok r => exact .inr ⟨r.1, r.2, step_call_ok h, invoke_cases htok h⟩

/-- An exit step is a plan, performed. -/
theorem step_exit {e : Exit Address} :
    step env (invoke env) w (.call c (.exit e)) =
      perform env c w (plan env c w e) := by
  rw [perform, ← invokeExit_eq]
  rfl

/-- An admitted exit that is covered, and not refused, is carried out. -/
theorem step_of_admitted {e : Exit Address} {q : Settlement Address}
    (htok : (w.storage.lookup DataKey.token).isSome = true) (h : Admitted env c w e q)
    (hcov : q.amount ≤ w.balance env.contract)
    (hyes : c.refuses w.balance env.contract q.dst q.amount = false) :
    step env (invoke env) w (.call c (.exit e)) =
      (settled env w q, .ok ⟨[⟨env.contract, q.dst, q.amount⟩], [q.event]⟩) := by
  rw [step_exit, (plan_eq_ok htok).mpr h, perform_ok hcov]
  simp [hyes]

/-- An exit that went through was admitted and not refused. -/
theorem admitted_of_step {e : Exit Address} {r : Receipt Address (Event Address)}
    (htok : (w.storage.lookup DataKey.token).isSome = true)
    (h : (step env (invoke env) w (.call c (.exit e))).2 = .ok r) :
    ∃ q, Admitted env c w e q ∧ c.refuses w.balance env.contract q.dst q.amount = false ∧
      (step env (invoke env) w (.call c (.exit e))).1 = settled env w q := by
  cases hinv : invoke env c (.exit e) w with
  | error f => simp [step_call_error hinv] at h
  | ok r' =>
    obtain ⟨w', r'⟩ := r'
    rw [step_call_ok hinv]
    rw [invoke, invokeExit_eq, bind_eq_ok] at hinv
    obtain ⟨q, hq, hr⟩ := hinv
    obtain ⟨-, hyes, heq⟩ := settle_eq_ok.mp hr
    cases heq
    exact ⟨q, (plan_eq_ok htok).mp hq, hyes, rfl⟩

end Lumenia.LumenDrop
