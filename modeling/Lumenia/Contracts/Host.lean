import Lumenia.Theory.Machine
import Lumenia.Theory.FinmapTotal
import Lumenia.Theory.Escrow
import Lumenia.Theory.Codes

/-!
# The Soroban host under the escrow contracts

What `contracts/lumen-drop` and `contracts/lumen-drop-commit` use of the host: checked machine
integers, persistent storage, `require_auth`, `ed25519_verify`, `sha256`, the client of the pinned
asset contract, and the governance crates. A contract function takes the world before the call and
either fails, which leaves that world as it was, or returns the world after it with a `Receipt` of
the transfers and events of the invocation.

Storage TTL is not modelled: an archived entry is restored by the transaction that reads it.
-/

namespace Lumenia.Soroban

abbrev Bytes := List UInt8

abbrev BytesN (n : ℕ) := Vector UInt8 n

/-! ## Machine integers -/

def i128Min : ℤ := -2 ^ 127
def i128Max : ℤ := 2 ^ 127 - 1
def u32Max : ℕ := 2 ^ 32 - 1
def u64Max : ℕ := 2 ^ 64 - 1

abbrev I128 := {n : ℤ // i128Min ≤ n ∧ n ≤ i128Max}
abbrev U32 := {n : ℕ // n ≤ u32Max}
abbrev U64 := {n : ℕ // n ≤ u64Max}

/-- `i128::checked_sub`. -/
def checkedSub (a b : ℤ) : Option ℤ :=
  if i128Min ≤ a - b ∧ a - b ≤ i128Max then some (a - b) else none

/-- `i128::checked_div`: truncates, and refuses `x / 0` and `MIN / -1`. -/
def checkedDiv (a b : ℤ) : Option ℤ :=
  if b = 0 ∨ (a = i128Min ∧ b = -1) then none else some (a.tdiv b)

/-- `u32::checked_add`. -/
def checkedAdd (a b : ℕ) : Option ℕ := if a + b ≤ u32Max then some (a + b) else none

/-- `u64::saturating_add`. -/
def saturatingAdd (a b : ℕ) : ℕ := min (a + b) u64Max

/-- `i128::to_be_bytes`: sixteen bytes of two's complement. -/
def toBeBytes (n : ℤ) : Bytes := bigEndian 16 (n % 2 ^ 128).toNat

theorem toBeBytes_selfDelimiting : SelfDelimiting fun n : I128 => toBeBytes n.1 := by
  refine .of_length (fun m n h => ?_) fun _ => length_bigEndian
  have heq := bigEndian_inj (by omega) (by omega) h
  have hm := m.2
  have hn := n.2
  simp only [i128Min, i128Max] at hm hn
  exact Subtype.ext (by omega)

theorem checkedSub_eq_some {a b c : ℤ} :
    checkedSub a b = some c ↔ (i128Min ≤ a - b ∧ a - b ≤ i128Max) ∧ c = a - b := by
  simp [checkedSub, eq_comm]

theorem checkedAdd_eq_some {a b c : ℕ} : checkedAdd a b = some c ↔ a + b ≤ u32Max ∧ c = a + b := by
  simp [checkedAdd, eq_comm]

theorem checkedDiv_of_pos {a b : ℤ} (ha : 0 < a) (hb : 0 < b) : checkedDiv a b = some (a / b) := by
  have h : ¬ (b = 0 ∨ (a = i128Min ∧ b = -1)) := by omega
  rw [checkedDiv, if_neg h, Int.tdiv_eq_ediv_of_nonneg ha.le]

/-! ## Failures -/

/-- What ends an invocation without a contract error. -/
inductive Trap
  | unauthorized
  | enforcedPause
  | governance
  | badSignature
  | unfunded
  | tokenRefused
  deriving DecidableEq

/-- A contract error, or a trap. Either rolls the invocation back. -/
inductive Fault (ε : Type)
  | error (e : ε)
  | trap (t : Trap)
  deriving DecidableEq

/-- `if bad { return Err(..) }`. -/
def failIf {ε : Type} (bad : Prop) [Decidable bad] (f : Fault ε) : Except (Fault ε) Unit :=
  if bad then .error f else .ok ()

/-- `Option::ok_or`, with `?`. -/
def okOr {ε α : Type} (o : Option α) (f : Fault ε) : Except (Fault ε) α :=
  match o with
  | some a => .ok a
  | none => .error f

section

variable {ε α β : Type}

theorem bind_eq_ok {x : Except ε α} {k : α → Except ε β} {r : β} :
    x >>= k = .ok r ↔ ∃ a, x = .ok a ∧ k a = .ok r := by
  cases x <;> simp [bind, Except.bind]

theorem bind_eq_error {x : Except ε α} {k : α → Except ε β} {e : ε} :
    x >>= k = .error e ↔ x = .error e ∨ ∃ a, x = .ok a ∧ k a = .error e := by
  cases x <;> simp [bind, Except.bind]

variable {f g : Fault ε}

@[simp] theorem failIf_eq_error {bad : Prop} [Decidable bad] :
    failIf bad f = .error g ↔ bad ∧ f = g := by
  unfold failIf; split <;> simp_all

@[simp] theorem okOr_eq_error {o : Option α} : okOr o f = .error g ↔ o = none ∧ f = g := by
  cases o <;> simp [okOr]

@[simp] theorem failIf_eq_ok {bad : Prop} [Decidable bad] {u : Unit} :
    failIf bad f = .ok u ↔ ¬ bad := by
  unfold failIf; split <;> simp_all

@[simp] theorem okOr_eq_ok {o : Option α} {a : α} : okOr o f = .ok a ↔ o = some a := by
  cases o <;> simp [okOr]

theorem failIf_bind {bad : Prop} [Decidable bad] {k : Unit → Except (Fault ε) β} :
    failIf bad f >>= k = if bad then .error f else k () := by
  unfold failIf; split <;> rfl

@[simp] theorem okOr_some_bind {a : α} {k : α → Except (Fault ε) β} : okOr (some a) f >>= k = k a :=
  rfl

@[simp] theorem ok_bind {k : α → Except ε β} {a : α} : Except.ok a >>= k = k a := rfl

end

/-! ## The host -/

/-- What does not change between invocations of one deployed contract. -/
structure Env (Address : Type) where
  networkId : BytesN 32
  /-- `env.current_contract_address()` -/
  contract : Address
  /-- `Address::to_xdr` -/
  toXdr : Address → Bytes
  ed25519Verify : BytesN 32 → Bytes → BytesN 64 → Bool
  sha256 : Bytes → BytesN 32

/-- What an invocation comes with: the ledger time, who signed for it, and which transfers the asset
contract refuses for its own reasons at given balances (no trustline, a frozen account, a payee at
the limit of its trustline). A transfer changes nothing of the asset contract but the balances. -/
structure Ctx (Address : Type) where
  timestamp : ℕ
  authorized : Address → Bool
  refuses : (Address → ℤ) → Address → Address → ℤ → Bool

/-- The `stellar_access` and `stellar_contract_utils` crates. They keep their own state under keys
of their own; nothing else is assumed of them. `none` is a trap. -/
structure Governance (Address : Type) where
  State : Type
  setOwner : Address → State
  onlyOwner : (Address → Bool) → State → Bool
  paused : State → Bool
  pause : State → Option State
  unpause : State → Option State
  transferOwnership : (Address → Bool) → Address → ℕ → State → Option State
  acceptOwnership : (Address → Bool) → State → Option State
  renounceOwnership : (Address → Bool) → State → Option State

/-- The governance entry points, the same in both contracts. -/
inductive GovOp (Address : Type)
  | pause (caller : Address)
  | unpause (caller : Address)
  | transferOwnership (newOwner : Address) (liveUntilLedger : ℕ)
  | acceptOwnership
  | renounceOwnership

/-- A contract's storage, the state of its governance crates, and the balances of its asset. -/
@[ext] structure World (Address : Type) {κ : Type} (Val : κ → Type) (G : Type) where
  storage : Finmap Val
  gov : G
  balance : Address → ℤ

/-- What a successful invocation leaves in the ledger's metadata. -/
structure Receipt (Address ev : Type) where
  moved : List (Transfer Address)
  events : List ev
  deriving DecidableEq

section

variable {Address : Type} [DecidableEq Address] (env : Env Address)
variable {κ : Type} {Val : κ → Type} {G : Governance Address} {ε ev : Type}

/-- `Address::require_auth`. Nothing can authorize for the contract itself: it has no `__check_auth`,
and the host refuses a reentrant call. -/
def requireAuth (c : Ctx Address) (a : Address) : Except (Fault ε) Unit :=
  failIf (¬ (c.authorized a = true ∧ a ≠ env.contract)) (.trap .unauthorized)

/-- The asset contract's `transfer`: moves exactly the amount, or traps. -/
def World.transfer (w : World Address Val G.State) (c : Ctx Address) (t : Transfer Address) :
    Except (Fault ε) (World Address Val G.State) := do
  failIf (w.balance t.src < t.amount) (.trap .unfunded)
  failIf (c.refuses w.balance t.src t.dst t.amount = true) (.trap .tokenRefused)
  return { w with balance := t.apply w.balance }

/-- `#[when_not_paused]`. -/
def whenNotPaused (w : World Address Val G.State) : Except (Fault ε) Unit :=
  failIf (G.paused w.gov = true) (.trap .enforcedPause)

/-- `pause`, `unpause`, and the `Ownable` entry points. -/
def governance (c : Ctx Address) (w : World Address Val G.State) :
    GovOp Address → Except (Fault ε) (World Address Val G.State × Receipt Address ev)
  | .pause _ => do
    failIf (¬ G.onlyOwner c.authorized w.gov = true) (.trap .unauthorized)
    let g ← okOr (G.pause w.gov) (.trap .governance)
    return ({ w with gov := g }, ⟨[], []⟩)
  | .unpause _ => do
    failIf (¬ G.onlyOwner c.authorized w.gov = true) (.trap .unauthorized)
    let g ← okOr (G.unpause w.gov) (.trap .governance)
    return ({ w with gov := g }, ⟨[], []⟩)
  | .transferOwnership newOwner live => do
    let g ← okOr (G.transferOwnership c.authorized newOwner live w.gov) (.trap .governance)
    return ({ w with gov := g }, ⟨[], []⟩)
  | .acceptOwnership => do
    let g ← okOr (G.acceptOwnership c.authorized w.gov) (.trap .governance)
    return ({ w with gov := g }, ⟨[], []⟩)
  | .renounceOwnership => do
    let g ← okOr (G.renounceOwnership c.authorized w.gov) (.trap .governance)
    return ({ w with gov := g }, ⟨[], []⟩)

variable {env}

theorem requireAuth_eq_ok {c : Ctx Address} {a : Address} {u : Unit} :
    requireAuth (ε := ε) env c a = .ok u ↔ c.authorized a = true ∧ a ≠ env.contract := by
  simp only [requireAuth, failIf_eq_ok, not_not]

theorem World.transfer_eq_ok {w w' : World Address Val G.State} {c : Ctx Address}
    {t : Transfer Address} : w.transfer (ε := ε) c t = .ok w' ↔
      t.amount ≤ w.balance t.src ∧ c.refuses w.balance t.src t.dst t.amount = false ∧
        w' = { w with balance := t.apply w.balance } := by
  unfold World.transfer
  simp only [bind_eq_ok, failIf_eq_ok, pure, Except.pure, Except.ok.injEq, exists_const, not_lt,
    Bool.not_eq_true, eq_comm (b := w')]

omit [DecidableEq Address] in
/-- Governance moves no money and no record. -/
theorem governance_eq_ok {c : Ctx Address} {w : World Address Val G.State} {op : GovOp Address}
    {r : World Address Val G.State × Receipt Address ev} (h : governance (ε := ε) c w op = .ok r) :
    ∃ g, r = ({ w with gov := g }, ⟨[], []⟩) := by
  cases op <;> simp only [governance, bind_eq_ok, okOr_eq_ok, pure, Except.pure,
    Except.ok.injEq] at h
  case pause | unpause =>
    obtain ⟨_, _, g, _, rfl⟩ := h
    exact ⟨g, rfl⟩
  all_goals
    obtain ⟨g, _, rfl⟩ := h
    exact ⟨g, rfl⟩

/-- The asset contract refuses no transfer that the contract's balance covers. -/
def AssetPays (env : Env Address) (c : Ctx Address) (w : World Address Val G.State) : Prop :=
  ∀ dst n, n ≤ w.balance env.contract → c.refuses w.balance env.contract dst n = false

/-! ## Runs of one contract on its ledger -/

/-- A call of the contract, or a transfer of its asset that the contract has no part in (an issuer
mints by paying from its own account). -/
inductive Input (Address Op : Type)
  | call (c : Ctx Address) (op : Op)
  | outside (src dst : Address) (n : ℕ)

section

variable {Op : Type} (env)
  (invoke : Ctx Address → Op → World Address Val G.State →
    Except (Fault ε) (World Address Val G.State × Receipt Address ev))

/-- One transaction. A failed invocation is rolled back. -/
def step (w : World Address Val G.State) :
    Input Address Op → World Address Val G.State × Except (Fault ε) (Receipt Address ev)
  | .call c op =>
    match invoke c op w with
    | .ok (w', r) => (w', .ok r)
    | .error f => (w, .error f)
  | .outside src dst n =>
    if src = env.contract then (w, .error (.trap .unauthorized))
    else ({ w with balance := (Transfer.mk src dst n).apply w.balance }, .ok ⟨[⟨src, dst, n⟩], []⟩)

/-- The ledger with the contract on it, from the state the constructor leaves. -/
def ledger (opening : World Address Val G.State) :
    Machine (World Address Val G.State) (Input Address Op) (Except (Fault ε) (Receipt Address ev)) :=
  ⟨opening, step env invoke⟩

variable {env invoke}

theorem step_call_ok {w w' : World Address Val G.State} {c : Ctx Address} {op : Op}
    {r : Receipt Address ev} (h : invoke c op w = .ok (w', r)) :
    step env invoke w (.call c op) = (w', .ok r) := by
  simp [step, h]

theorem step_call_error {w : World Address Val G.State} {c : Ctx Address} {op : Op}
    {f : Fault ε} (h : invoke c op w = .error f) :
    step env invoke w (.call c op) = (w, .error f) := by
  simp [step, h]

end

end

/-! ## A small instance

Concrete runs take numbers as addresses, the documented behaviour of the governance crates, and one
signature that verifies. -/

/-- An owner, a pending owner and a pause flag. -/
def Governance.standard : Governance ℕ where
  State := Option ℕ × Option ℕ × Bool
  setOwner a := (some a, none, false)
  onlyOwner auth s := s.1.any auth
  paused s := s.2.2
  pause s := if s.2.2 then none else some (s.1, s.2.1, true)
  unpause s := if s.2.2 then some (s.1, s.2.1, false) else none
  transferOwnership auth new _ s := if s.1.any auth then some (s.1, some new, s.2.2) else none
  acceptOwnership auth s := if s.2.1.any auth then some (s.2.1, none, s.2.2) else none
  renounceOwnership auth s :=
    if s.1.any auth && s.2.1.isNone then some (none, none, s.2.2) else none

namespace Demo

def link : BytesN 32 := Vector.replicate 32 7
def sig : BytesN 64 := Vector.replicate 64 9
def five : I128 := ⟨5, by decide⟩
def hundred : U64 := ⟨100, by decide⟩

/-- The contract is address 0; an address is written in unary, ended by a zero. -/
def env : Env ℕ where
  networkId := Vector.replicate 32 1
  contract := 0
  toXdr n := List.replicate n 1 ++ [0]
  ed25519Verify _ _ s := s == sig
  sha256 m := Vector.replicate 32 (m.foldl (· + ·) 0)

/-- A moment at which the given account signs and the asset contract refuses nothing. -/
def at_ (timestamp account : ℕ) : Ctx ℕ where
  timestamp := timestamp
  authorized a := a == account
  refuses _ _ _ _ := false

end Demo

end Lumenia.Soroban
