import Lumenia.Contracts.LumenDropSpec
import Lumenia.Sponsor.CapsRefusal
import Lumenia.Sponsor.RelayBids

/-!
# The deposit relay and the escrow contract agree

What `relayDepositHandler` lets through is one call of the escrow contract, which moves an amount
within the caps out of the account that signed; and where the contract accepts the call, it takes that
amount from that account, and a pool pays no share below the minimum (`deposit_admitted`).
-/

namespace Lumenia.Sponsor

open Dialogue LumenDrop Soroban

/-! ## Values of a call -/

/-- A value in a transaction; those of other types are left in their encoding. -/
inductive ScVal
  | u32 (n : U32)
  | u64 (n : U64)
  | i128 (n : I128)
  | bytes (b : BytesN 32)
  | address (key : String)
  | other (xdr : Bytes)

/-- What the SDK makes of a value. -/
structure Sdk where
  scValToNative : ScVal → Native
  /-- `Address.fromScVal(v).toString()` -/
  address : ScVal → Option String
  u32 : ∀ n, scValToNative (.u32 n) = .number n.1
  i128 : ∀ n, scValToNative (.i128 n) = .bigint n.1
  address_key : ∀ key, address (.address key) = some key

def Sdk.arg (sdk : Sdk) (v : ScVal) : ScArg := ⟨sdk.address v, sdk.scValToNative v⟩

/-- The arguments as the contract takes them. The host traps on a value of another type. -/
def decode : String → List ScVal → Option (Op String)
  | "deposit", [.address source, .bytes link, .i128 amount, .u64 expiry] =>
    some (.deposit source link amount expiry)
  | "create_drop", [.address source, .bytes link, .i128 amount, .u32 slots, .u64 expiry] =>
    some (.createDrop source link amount slots expiry)
  | _, _ => none

/-! ## What is let through -/

/-- The number of shares of a pool. -/
structure PoolSlots (cfg : DepositConfig) (amount slots : ℤ) : Prop where
  range : 2 ≤ slots ∧ slots ≤ maxPoolSlots cfg
  ceiling : cfg.mainnet = true → slots ≤ 8
  share : cfg.caps.minDropStroops ≤ amount / slots

/-- A call that the relay pays for. -/
structure Admitted (cfg : DepositConfig) (input : RelayDepositInput) (fn : String)
    (source link amount : ScArg) (rest : List ScArg) (stroops : ℤ) : Prop where
  parsed : ∃ inner contract, input.inner = .ok inner ∧ cfg.lumendropContract = some contract ∧
    inner.source = input.senderPublicKey ∧
    inner.operations = [.invokeContract contract fn (source :: link :: amount :: rest)]
  called : fn = "deposit" ∧ rest.length = 1 ∨ fn = "create_drop" ∧ rest.length = 2
  sender : source.address = some input.senderPublicKey
  read : amount.native.toBigInt = .ok stroops
  capped : 0 < stroops ∧ cfg.caps.minDropStroops ≤ stroops ∧ stroops ≤ cfg.caps.maxDropStroops
  pool : fn = "create_drop" → ∃ slots, rest.head?.map ScArg.native = some (.number slots) ∧
    PoolSlots cfg stroops slots

/-- What the contract does of it. -/
def ContractAgrees (cfg : DepositConfig) (sender : String) (stroops : ℤ) : Op String → Prop
  | .deposit source _ amount _ => source = sender ∧ amount.1 = stroops
  | .createDrop source link amount slots expiry => source = sender ∧ amount.1 = stroops ∧
    PoolSlots cfg stroops slots.1 ∧
    ∀ {G : Governance String} (env : Soroban.Env String) (c : Ctx String) (w : World G) r,
      invoke env c (.createDrop source link amount slots expiry) w = .ok r →
        ∃ pool, getPool r.1 link = some pool ∧ pool.sender = sender ∧ pool.slots = slots.1 ∧
          pool.amountPer = stroops / slots.1 ∧ cfg.caps.minDropStroops ≤ pool.amountPer
  | _ => False

section

variable {cfg : DepositConfig} {input : RelayDepositInput} {fn : String} {args rest : List ScArg}
  {sender contract : String} {stroops : ℤ} {inner : InnerTransaction}

/-! ## The caps -/

/-- The caps of the relay are those that `checkCaps` computes, whatever the store answers it. -/
def CapsHold (caps : CapsConfig) : (q : Await) → q.Answer → Prop
  | .checkCaps amountStroops senderPublicKey, .admitted _ => ∃ env now fate,
    (outcome env caps ⟨now, amountStroops, some senderPublicKey⟩ fate).1.ok = true
  | _, _ => True

theorem capped_of_outcome {env : Env} {caps : CapsConfig} {r : EscrowRequest}
    {fate : ℕ → Fate KvReply} (h : (outcome env caps r fate).1.ok = true) :
    0 < r.amountStroops ∧ caps.minDropStroops ≤ r.amountStroops ∧
      r.amountStroops ≤ caps.maxDropStroops := by
  unfold outcome checkCaps at h
  split at h
  · cases h
  · next hpos =>
    split at h
    · cases h
    · next hmin =>
      split at h
      · cases h
      · next hmax => exact ⟨not_le.mp hpos, not_lt.mp hmin, not_lt.mp hmax⟩

/-! ## The checks -/

theorem depositArity_eq_some {n : ℕ} (h : depositArity fn = some n) :
    fn = "deposit" ∧ n = 4 ∨ fn = "create_drop" ∧ n = 5 := by
  unfold depositArity at h
  split at h
  · exact .inl ⟨rfl, (Option.some.inj h).symm⟩
  · exact .inr ⟨rfl, (Option.some.inj h).symm⟩
  · cases h

theorem maxPoolSlots_le (hmainnet : cfg.mainnet = true) : maxPoolSlots cfg ≤ 8 := by
  unfold maxPoolSlots
  rw [hmainnet]
  exact min_le_right _ _

/-- The gate's rounding is that of the contract. -/
theorem poolSlots_of_checkSlots {n : Native} (hpos : 0 ≤ stroops)
    (h : checkSlots cfg stroops n = .ok ()) : ∃ slots, n = .number slots ∧ PoolSlots cfg stroops slots := by
  cases n with
  | number slots =>
    obtain ⟨hrange, hshare⟩ := check_bind_eq_ok.mp h
    rw [failWhen_eq_ok, not_or, not_lt, not_lt] at hrange
    rw [failWhen_eq_ok, not_lt, Int.tdiv_eq_ediv_of_nonneg hpos] at hshare
    refine ⟨slots, rfl, hrange, fun hmainnet => ?_, hshare⟩
    exact hrange.2.trans (maxPoolSlots_le hmainnet)
  | bigint n => cases h
  | other r => cases h

theorem depositCall_eq_ok {ops : List InnerOp} (h : depositCall contract ops = .ok (fn, args)) :
    ops = [.invokeContract contract fn args] ∧ depositArity fn ≠ none := by
  unfold depositCall at h
  split at h
  · obtain ⟨hcalled, h⟩ := check_bind_eq_ok.mp h
    obtain ⟨harity, h⟩ := check_bind_eq_ok.mp h
    rw [failWhen_eq_ok, not_not] at hcalled
    obtain ⟨rfl, rfl⟩ := Prod.mk.inj (Except.ok.inj h)
    exact ⟨by rw [hcalled], failWhen_eq_ok.mp harity⟩
  · cases h
  · cases h
  · cases h

theorem depositAmount_eq_ok (h : depositAmount cfg sender fn args = .ok stroops) :
    depositArity fn = some args.length ∧ ∃ source link amount rest,
      args = source :: link :: amount :: rest ∧ source.address = some sender ∧
        amount.native.toBigInt = .ok stroops ∧ checkPool cfg fn stroops rest = .ok () := by
  obtain ⟨harity, h⟩ := check_bind_eq_ok.mp h
  rw [failWhen_eq_ok, not_not] at harity
  refine ⟨harity, ?_⟩
  match args, harity, h with
  | source :: link :: amount :: rest, _, h =>
    refine ⟨source, link, amount, rest, rfl, ?_⟩
    cases haddress : source.address with
    | none =>
      simp only [haddress] at h
      cases h
    | some key =>
      simp only [haddress] at h
      obtain ⟨hsender, h⟩ := check_bind_eq_ok.mp h
      rw [failWhen_eq_ok, not_not] at hsender
      cases hread : amount.native.toBigInt with
      | error message =>
        simp only [hread] at h
        cases h
      | ok n =>
        simp only [hread] at h
        obtain ⟨hpool, h⟩ := check_bind_eq_ok.mp h
        obtain rfl := Except.ok.inj h
        exact ⟨congrArg some hsender, rfl, hpool⟩
  | [], harity, _ | [_], harity, _ | [_, _], harity, _ =>
    rcases depositArity_eq_some harity with ⟨-, hlength⟩ | ⟨-, hlength⟩ <;> cases hlength

/-- What has passed every check, and the caps. -/
theorem admitted_of_checkDeposit (h : checkDeposit cfg input = .ok (inner, stroops))
    (hcaps : 0 < stroops ∧ cfg.caps.minDropStroops ≤ stroops ∧ stroops ≤ cfg.caps.maxDropStroops) :
    ∃ fn source link amount rest, Admitted cfg input fn source link amount rest stroops := by
  unfold checkDeposit at h
  split at h
  · cases h
  · cases h
  rename_i contract parsed hcontract hparsed
  obtain ⟨hsource, h⟩ := check_bind_eq_ok.mp h
  rw [failWhen_eq_ok, not_not] at hsource
  obtain ⟨⟨fn, args⟩, hcall, h⟩ := value_bind_eq_ok.mp h
  obtain ⟨-, h⟩ := check_bind_eq_ok.mp h
  obtain ⟨amount, hamount, h⟩ := value_bind_eq_ok.mp h
  obtain ⟨rfl, rfl⟩ := Prod.mk.inj (Except.ok.inj h)
  obtain ⟨hops, -⟩ := depositCall_eq_ok hcall
  obtain ⟨harity, source, link, amount, rest, rfl, haddress, hread, hpool⟩ :=
    depositAmount_eq_ok hamount
  refine ⟨fn, source, link, amount, rest, ⟨parsed, contract, hparsed, hcontract, hsource, hops⟩,
    ?_, haddress, hread, hcaps, ?_⟩
  · rcases depositArity_eq_some harity with ⟨hfn, hlength⟩ | ⟨hfn, hlength⟩
    · exact .inl ⟨hfn, Nat.add_right_cancel (m := 3) hlength⟩
    · exact .inr ⟨hfn, Nat.add_right_cancel (m := 3) hlength⟩
  · rintro rfl
    cases rest with
    | nil => rcases depositArity_eq_some harity with ⟨-, hlength⟩ | ⟨-, hlength⟩ <;> cases hlength
    | cons slots rest =>
      obtain ⟨n, hn, hslots⟩ := poolSlots_of_checkSlots hcaps.1.le hpool
      exact ⟨n, congrArg some hn, hslots⟩

/-! ## The contract -/

variable {sdk : Sdk} {source link amount : ScArg} {values : List ScVal} {op : Op String}

/-- Both sides divide alike. -/
theorem pool_of_invoke {G : Governance String} {env : Soroban.Env String} {c : Ctx String} {w : World G}
    {account : String} {key : BytesN 32} {n : I128} {slots : U32} {expiry : U64}
    {r : World G × Receipt String (LumenDrop.Event String)}
    (h : invoke env c (.createDrop account key n slots expiry) w = .ok r) :
    ∃ pool, getPool r.1 key = some pool ∧ pool.sender = account ∧ pool.slots = slots.1 ∧
      pool.amountPer = n.1 / slots.1 := by
  obtain ⟨-, -, -, -, rfl⟩ := createDrop_eq_ok h
  exact ⟨_, getPool_insert_self, rfl, rfl, rfl⟩

/-- **The contract agrees** with what was admitted. -/
theorem agrees_of_admitted (hadmitted : Admitted cfg input fn source link amount rest stroops)
    (hvalues : values.map sdk.arg = source :: link :: amount :: rest)
    (hop : decode fn values = some op) : ContractAgrees cfg input.senderPublicKey stroops op := by
  unfold decode at hop
  split at hop
  · next account key n expiry =>
    obtain rfl := Option.some.inj hop
    obtain ⟨rfl, -, rfl, -⟩ : sdk.arg (.address account) = source ∧ _ ∧ sdk.arg (.i128 n) = amount ∧ _ := by
      simpa using hvalues
    have haccount := hadmitted.sender
    have hread := hadmitted.read
    simp only [Sdk.arg, sdk.address_key, sdk.i128, Native.toBigInt] at haccount hread
    exact ⟨Option.some.inj haccount, Except.ok.inj hread⟩
  · next account key n slots expiry =>
    obtain rfl := Option.some.inj hop
    obtain ⟨rfl, -, rfl, rfl⟩ : sdk.arg (.address account) = source ∧ _ ∧ sdk.arg (.i128 n) = amount ∧
        [sdk.arg (.u32 slots), sdk.arg (.u64 expiry)] = rest := by
      simpa using hvalues
    have haccount := hadmitted.sender
    have hread := hadmitted.read
    simp only [Sdk.arg, sdk.address_key, sdk.i128, Native.toBigInt] at haccount hread
    obtain rfl := Option.some.inj haccount
    obtain rfl := Except.ok.inj hread
    obtain ⟨shares, hshares, hslots⟩ := hadmitted.pool rfl
    simp only [List.head?_cons, Option.map_some, Sdk.arg, sdk.u32] at hshares
    obtain rfl := Native.number.inj (Option.some.inj hshares)
    refine ⟨rfl, rfl, hslots, fun env c w r hinvoke => ?_⟩
    obtain ⟨pool, hpool, hsender, hcount, hper⟩ := pool_of_invoke hinvoke
    exact ⟨pool, hpool, hsender, hcount, hper, hper ▸ hslots.share⟩
  · cases hop

/-! ## Whole runs -/

theorem wp_relayDeposit_admitted : (relayDeposit cfg input).wp (recorded (CapsHold cfg.caps))
    (fun _ h => (∃ e ∈ h, e.1.pays) →
      ∃ fn source link amount rest stroops, Admitted cfg input fn source link amount rest stroops) [] := by
  have hquiet : ∀ {h : History}, (∀ e ∈ h, e.1.pays = false) → (∃ e ∈ h, e.1.pays = true) →
      ∃ fn source link amount rest stroops, Admitted cfg input fn source link amount rest stroops := by
    rintro h hnone ⟨e, he, hpays⟩
    rw [hnone e he] at hpays
    cases hpays
  unfold relayDeposit
  split
  · exact wp_throw.mpr (hquiet (List.forall_mem_nil _))
  rename_i inner stroops hchecked
  rw [wp_recorded_bind]
  intro answer _
  cases answer with
  | error t => exact wp_throw.mpr (hquiet (by simp [Await.pays]))
  | ok sim =>
    dsimp only
    split
    · exact wp_throw.mpr (hquiet (by simp [Await.pays]))
    rw [wp_recorded_bind]
    intro verdict hfair
    cases verdict with
    | refused reason => exact wp_throw.mpr (hquiet (by simp [Await.pays]))
    | admitted release =>
      obtain ⟨env, now, fate, hok⟩ := hfair
      obtain ⟨fn, source, link, amount, rest, hadmitted⟩ :=
        admitted_of_checkDeposit hchecked (capped_of_outcome hok)
      exact wp_of_forall fun _ _ _ => ⟨fn, source, link, amount, rest, stroops, hadmitted⟩

/-- **The gate and the contract agree.** A run of the deposit relay that charges a fee or signs does
so for one call of the escrow contract, which is all that its checks promise; and whatever the values
in the transaction are, if the contract takes the call, it does what was checked. -/
theorem deposit_admitted {r : Except Failure Relayed} {h : History}
    (hrun : Runs (recorded (CapsHold cfg.caps)) (relayDeposit cfg input) [] r h)
    (hpays : ∃ e ∈ h, e.1.pays) : ∃ fn source link amount rest stroops,
      Admitted cfg input fn source link amount rest stroops ∧
        ∀ (sdk : Sdk) values op, values.map sdk.arg = source :: link :: amount :: rest →
          decode fn values = some op → ContractAgrees cfg input.senderPublicKey stroops op := by
  obtain ⟨fn, source, link, amount, rest, stroops, hadmitted⟩ :=
    hrun.sound wp_relayDeposit_admitted hpays
  exact ⟨fn, source, link, amount, rest, stroops, hadmitted,
    fun sdk values op => agrees_of_admitted hadmitted⟩

end

namespace Demo

/-- The first send of the day, counted for the day and for its sender. -/
def firstSend : ℕ → Fate KvReply :=
  fun _ => ⟨fun _ => true, .ok [.of (.int 50000000), .of (.int 1), .of (.int 50000000), .of (.int 1)]⟩

/-- A network where the deposit lands, and the caps of that day. -/
def gateAnswer (h : History) : (q : Await) → q.Answer
  | .checkCaps amountStroops senderPublicKey =>
    if (outcome testnet limits ⟨noon, amountStroops, some senderPublicKey⟩ firstSend).1.ok then
      .admitted true
    else .refused "over the caps"
  | q => network (.error unavailable) (.error unavailable) included h q

theorem capsHold_gateAnswer (h : History) (q : Await) : CapsHold limits q (gateAnswer h q) := by
  cases q with
  | checkCaps amountStroops senderPublicKey =>
    simp only [gateAnswer]
    split
    · next hok => exact ⟨testnet, noon, firstSend, hok⟩
    · trivial
  | _ => trivial

/-- Five dollars in six shares. -/
def poolValues : List ScVal :=
  [.address "sender", .bytes Soroban.Demo.link, .i128 ⟨50000000, by decide⟩, .u32 ⟨6, by decide⟩,
    .u64 Soroban.Demo.hundred]

def demoSdk : Sdk where
  scValToNative
    | .u32 n => .number n.1
    | .u64 n => .bigint n.1
    | .i128 n => .bigint n.1
    | .bytes _ | .address _ | .other _ => .other (.error "Cannot convert to a BigInt")
  address
    | .address key => some key
    | _ => none
  u32 _ := rfl
  i128 _ := rfl
  address_key _ := rfl

/-- A pool of the account that signs, on mainnet. -/
def poolInput : RelayDepositInput where
  inner := .ok ⟨"sender", 2100000, 100000,
    [.invokeContract "escrow" "create_drop" (poolValues.map demoSdk.arg)]⟩
  senderPublicKey := "sender"

def poolRun : Except Failure Relayed × History :=
  (relayDeposit relayConfig.toDepositConfig poolInput).play gateAnswer []

theorem runs_poolRun : Runs (recorded (CapsHold limits))
    (relayDeposit relayConfig.toDepositConfig poolInput) [] poolRun.1 poolRun.2 :=
  runs_play capsHold_gateAnswer _ _

end Demo

/-- A pool is let through, and the contract takes it. -/
theorem deposit_admitted_pool : Demo.poolRun.1 = .ok ⟨some "ab", true⟩ ∧
    (decode "create_drop" Demo.poolValues).isSome ∧ ∃ fn source link amount rest stroops,
      Admitted Demo.relayConfig.toDepositConfig Demo.poolInput fn source link amount rest stroops ∧
        ∀ (sdk : Sdk) values op, values.map sdk.arg = source :: link :: amount :: rest →
          decode fn values = some op →
            ContractAgrees Demo.relayConfig.toDepositConfig Demo.poolInput.senderPublicKey stroops op := by
  refine ⟨by decide +kernel, rfl, deposit_admitted Demo.runs_poolRun ?_⟩
  have hsigned : (Demo.poolRun.2.any fun e => e.1.pays) = true := by decide +kernel
  exact List.any_eq_true.mp hsigned

end Lumenia.Sponsor
