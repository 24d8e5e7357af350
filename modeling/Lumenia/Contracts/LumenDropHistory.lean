import Lumenia.Contracts.Journal
import Lumenia.Contracts.LumenDropSolvency

/-!
# LumenDrop: every record pays out exactly once

`DropLife` and `PoolLife` list everything that can ever happen to a record: which calls are accepted
for it, in which order, what each moves, and what the contract stores in between. `exactly_once`
says that in every run each record has such a life.
-/

namespace Lumenia.LumenDrop

open Soroban

abbrev Entry (Address : Type) := Soroban.Entry Address (Op Address) (Event Address)

section

variable {Address : Type}

/-- The record a call addresses. -/
def Op.key : Op Address → Option (DataKey Address)
  | .deposit _ link _ _ => some (.drop link)
  | .createDrop _ link _ _ _ => some (.pool link)
  | .exit e => some e.key
  | .governance _ => none

variable (env : Env Address) (link : BytesN 32)

/-! ## Single drops -/

/-- The life of the drop under `link`: its accepted calls and its record. -/
inductive DropLife : List (Entry Address) → Option (Drop Address) → Prop
  | unused : DropLife [] none
  | live {c sender amount expiry r} (hself : sender ≠ env.contract) (hpos : 0 < amount.1)
      (hin : r.moved = [⟨sender, env.contract, amount.1⟩]) :
      DropLife [⟨c, .deposit sender link amount expiry, r⟩]
        (some ⟨sender, amount.1, expiry.1, false⟩)
  | claimed {c sender amount expiry r c' payout sig r'} (hself : sender ≠ env.contract)
      (hpos : 0 < amount.1) (hin : r.moved = [⟨sender, env.contract, amount.1⟩])
      (hsig : env.ed25519Verify link (message env tagSingle link payout) sig = true)
      (hout : r'.moved = [⟨env.contract, payout, amount.1⟩]) :
      DropLife [⟨c, .deposit sender link amount expiry, r⟩, ⟨c', .exit (.claim link payout sig), r'⟩]
        (some ⟨sender, amount.1, expiry.1, true⟩)
  | reclaimed {c sender amount expiry r c' r'} (hself : sender ≠ env.contract)
      (hpos : 0 < amount.1) (hin : r.moved = [⟨sender, env.contract, amount.1⟩])
      (hexp : expiry.1 ≤ c'.timestamp) (hauth : c'.authorized sender = true)
      (hout : r'.moved = [⟨env.contract, sender, amount.1⟩]) :
      DropLife [⟨c, .deposit sender link amount expiry, r⟩, ⟨c', .exit (.reclaim link), r'⟩]
        (some ⟨sender, amount.1, expiry.1, true⟩)

/-! ## Pools -/

/-- An accepted `claimShare`. -/
structure Share (Address : Type) where
  ctx : Ctx Address
  payout : Address
  sig : BytesN 64
  receipt : Receipt Address (Event Address)

def Share.entry (s : Share Address) : Entry Address :=
  ⟨s.ctx, .exit (.claimShare link s.payout s.sig), s.receipt⟩

/-- What every accepted share satisfies. -/
structure Share.Paid (per : ℤ) (expiry : ℕ) (s : Share Address) : Prop where
  before : s.ctx.timestamp < expiry
  signed : env.ed25519Verify link (message env tagGroup link s.payout) s.sig = true
  moved : s.receipt.moved = [⟨env.contract, s.payout, per⟩]

/-- The life of the pool under `link`: its accepted calls and its record. -/
inductive PoolLife : List (Entry Address) → Option (Pool Address) → Prop
  | unused : PoolLife [] none
  | live {c sender r} {amount : I128} {slots : U32} {expiry : U64} {shares : List (Share Address)}
      (hself : sender ≠ env.contract)
      (hin : r.moved = [⟨sender, env.contract, amount.1⟩])
      (hpaid : ∀ s ∈ shares, Share.Paid env link (amount.1 / slots.1) expiry.1 s)
      (honce : (shares.map Share.payout).Nodup) (hslots : shares.length ≤ slots.1)
      (hrem : 0 ≤ amount.1 - amount.1 / slots.1 * shares.length) :
      PoolLife (⟨c, .createDrop sender link amount slots expiry, r⟩ :: shares.map (Share.entry link))
        (some ⟨sender, amount.1 / slots.1, amount.1 - amount.1 / slots.1 * shares.length, slots.1,
          shares.length, expiry.1⟩)
  | reclaimed {c sender r c' r'} {amount : I128} {slots : U32} {expiry : U64}
      {shares : List (Share Address)} (hself : sender ≠ env.contract)
      (hin : r.moved = [⟨sender, env.contract, amount.1⟩])
      (hpaid : ∀ s ∈ shares, Share.Paid env link (amount.1 / slots.1) expiry.1 s)
      (honce : (shares.map Share.payout).Nodup) (hslots : shares.length ≤ slots.1)
      (hrem : 0 < amount.1 - amount.1 / slots.1 * shares.length)
      (hexp : expiry.1 ≤ c'.timestamp) (hauth : c'.authorized sender = true)
      (hout : r'.moved =
        [⟨env.contract, sender, amount.1 - amount.1 / slots.1 * shares.length⟩]) :
      PoolLife (⟨c, .createDrop sender link amount slots expiry, r⟩ ::
          (shares.map (Share.entry link) ++ [⟨c', .exit (.reclaimPool link), r'⟩]))
        (some ⟨sender, amount.1 / slots.1, 0, slots.1, slots.1, expiry.1⟩)

/-- The payouts that took a share. -/
def sharePayouts (es : List (Entry Address)) : List Address :=
  es.filterMap fun e => match e.op with
    | .exit (.claimShare _ payout _) => some payout
    | _ => none

variable {env link}

theorem sharePayouts_append {es es' : List (Entry Address)} :
    sharePayouts (es ++ es') = sharePayouts es ++ sharePayouts es' :=
  List.filterMap_append

variable (link) in
theorem sharePayouts_shares {shares : List (Share Address)} :
    sharePayouts (shares.map (Share.entry link)) = shares.map Share.payout := by
  induction shares with
  | nil => rfl
  | cons s shares ih =>
    simp only [List.map_cons, sharePayouts, List.filterMap_cons, Share.entry] at ih ⊢
    rw [ih]

variable [DecidableEq Address]

variable (env) in
/-- The money a list of accepted calls moved out of the contract. -/
def paidOut (es : List (Entry Address)) : ℤ :=
  ((es.flatMap fun e => e.receipt.moved).map fun t =>
    if t.src = env.contract then t.amount else 0).sum

theorem paidOut_cons {e : Entry Address} {es : List (Entry Address)} :
    paidOut env (e :: es) = paidOut env [e] + paidOut env es := by
  simp [paidOut]

theorem paidOut_append {es es' : List (Entry Address)} :
    paidOut env (es ++ es') = paidOut env es + paidOut env es' := by
  simp [paidOut]

theorem paidOut_of_moved {c : Ctx Address} {op : Op Address} {r : Receipt Address (Event Address)}
    {t : Transfer Address} (h : r.moved = [t]) :
    paidOut env [⟨c, op, r⟩] = if t.src = env.contract then t.amount else 0 := by
  simp [paidOut, h]

theorem paidOut_shares {shares : List (Share Address)} {per : ℤ} {expiry : ℕ}
    (h : ∀ s ∈ shares, Share.Paid env link per expiry s) :
    paidOut env (shares.map (Share.entry link)) = per * shares.length := by
  induction shares with
  | nil => simp [paidOut]
  | cons s shares ih =>
    simp only [List.forall_mem_cons] at h
    rw [List.map_cons, paidOut_cons, ih h.2, Share.entry, paidOut_of_moved h.1.moved]
    simp only [if_true, List.length_cons]
    push_cast
    ring

/-- A drop never pays more than what was deposited, and after an exit exactly that. -/
theorem DropLife.paidOut {es : List (Entry Address)} {o : Option (Drop Address)}
    (h : DropLife env link es o) {d : Drop Address} (hd : o = some d) :
    LumenDrop.paidOut env es = if d.claimed then d.amount else 0 := by
  cases h with
  | unused => cases hd
  | live hself _ hin =>
    cases hd
    simp [paidOut_of_moved hin, hself]
  | claimed hself _ hin _ hout | reclaimed hself _ hin _ _ hout =>
    cases hd
    rw [paidOut_cons, paidOut_of_moved hin, paidOut_of_moved hout]
    simp [hself]

/-- What a pool paid out and what it still holds add up to what was put in. -/
theorem PoolLife.paidOut {es : List (Entry Address)} {o : Option (Pool Address)}
    (h : PoolLife env link es o) {p : Pool Address} (hp : o = some p) :
    ∃ c sender amount slots expiry r rest,
      es = ⟨c, .createDrop sender link amount slots expiry, r⟩ :: rest ∧
        LumenDrop.paidOut env es + p.remaining = amount.1 := by
  cases h with
  | unused => cases hp
  | live hself hin hpaid =>
    cases hp
    refine ⟨_, _, _, _, _, _, _, rfl, ?_⟩
    rw [paidOut_cons, paidOut_of_moved hin, paidOut_shares hpaid]
    simp [hself]
  | reclaimed hself hin hpaid _ _ _ _ _ hout =>
    cases hp
    refine ⟨_, _, _, _, _, _, _, rfl, ?_⟩
    rw [paidOut_cons, paidOut_append, paidOut_of_moved hin, paidOut_of_moved hout,
      paidOut_shares hpaid]
    simp [hself]

omit [DecidableEq Address] in
/-- A pool its sender reclaimed holds nothing. -/
theorem PoolLife.remaining_eq_zero {es : List (Entry Address)} {o : Option (Pool Address)}
    (h : PoolLife env link es o) {p : Pool Address} (hp : o = some p) {e : Entry Address}
    (he : e ∈ es) (hop : e.op = .exit (.reclaimPool link)) : p.remaining = 0 := by
  cases h with
  | unused => cases hp
  | live =>
    rw [List.mem_cons, List.mem_map] at he
    obtain rfl | ⟨s, -, rfl⟩ := he
    · cases hop
    · cases hop
  | reclaimed =>
    cases hp
    rfl

/-! ## How a life goes on -/

section Goes

omit [DecidableEq Address]

variable {es : List (Entry Address)} {c : Ctx Address} {r : Receipt Address (Event Address)}

theorem DropLife.claim {d : Drop Address} {payout : Address} {sig : BytesN 64}
    (h : DropLife env link es (some d)) (hopen : d.claimed = false)
    (hsig : env.ed25519Verify link (message env tagSingle link payout) sig = true)
    (hout : r.moved = [⟨env.contract, payout, d.amount⟩]) :
    DropLife env link (es ++ [⟨c, .exit (.claim link payout sig), r⟩]) (some d.taken) := by
  cases h with
  | live hself hpos hin => exact .claimed hself hpos hin hsig hout
  | claimed | reclaimed => cases hopen

theorem DropLife.reclaim {d : Drop Address} (h : DropLife env link es (some d))
    (hopen : d.claimed = false) (hexp : d.expiry ≤ c.timestamp)
    (hauth : c.authorized d.sender = true)
    (hout : r.moved = [⟨env.contract, d.sender, d.amount⟩]) :
    DropLife env link (es ++ [⟨c, .exit (.reclaim link), r⟩]) (some d.taken) := by
  cases h with
  | live hself hpos hin => exact .reclaimed hself hpos hin hexp hauth hout
  | claimed | reclaimed => cases hopen

theorem PoolLife.create {sender : Address} {amount : I128} {slots : U32} {expiry : U64}
    (hself : sender ≠ env.contract) (hle : (slots.1 : ℤ) ≤ amount.1)
    (hin : r.moved = [⟨sender, env.contract, amount.1⟩]) :
    PoolLife env link [⟨c, .createDrop sender link amount slots expiry, r⟩]
      (some ⟨sender, amount.1 / slots.1, amount.1, slots.1, 0, expiry.1⟩) := by
  have hrem : 0 ≤ amount.1 - amount.1 / slots.1 * ([] : List (Share Address)).length := by
    simp only [List.length_nil, Nat.cast_zero, mul_zero, sub_zero]
    omega
  have hlife : PoolLife env link (⟨c, .createDrop sender link amount slots expiry, r⟩ ::
      [].map (Share.entry link)) _ := .live hself hin (by simp) (by simp) (by simp) hrem
  simpa using hlife

theorem PoolLife.share {p : Pool Address} {s : Share Address}
    (h : PoolLife env link es (some p)) (hfree : p.claimed < p.slots)
    (hrem : p.amountPer ≤ p.remaining) (hfresh : s.payout ∉ sharePayouts es)
    (hs : s.Paid env link p.amountPer p.expiry) :
    PoolLife env link (es ++ [s.entry link]) (some p.shared) := by
  cases h with
  | reclaimed => simp at hfree
  | @live c sender r amount slots expiry shares hself hin hpaid honce =>
    have hnew : s.payout ∉ shares.map Share.payout := by
      rw [← sharePayouts_shares link]
      exact hfresh
    have honce' : ((shares ++ [s]).map Share.payout).Nodup := by
      rw [List.map_append, List.map_singleton, ← List.concat_eq_append]
      exact (List.nodup_concat _ _).mpr ⟨hnew, honce⟩
    have hpaid' : ∀ t ∈ shares ++ [s], Share.Paid env link (amount.1 / slots.1) expiry.1 t := by
      intro t ht
      obtain ht | rfl := by simpa using ht
      · exact hpaid t ht
      · exact hs
    have hlen : amount.1 - amount.1 / slots.1 * (shares ++ [s]).length =
        amount.1 - amount.1 / slots.1 * shares.length - amount.1 / slots.1 := by
      simp only [List.length_append, List.length_singleton]
      push_cast
      ring
    have hlife := PoolLife.live (c := c) hself hin hpaid' honce'
      (by simpa using Nat.succ_le_of_lt hfree) (by rw [hlen]; exact sub_nonneg.mpr hrem)
    rw [hlen] at hlife
    simpa [Pool.shared] using hlife

theorem PoolLife.close {p : Pool Address} (h : PoolLife env link es (some p))
    (hrem : 0 < p.remaining) (hexp : p.expiry ≤ c.timestamp)
    (hauth : c.authorized p.sender = true)
    (hout : r.moved = [⟨env.contract, p.sender, p.remaining⟩]) :
    PoolLife env link (es ++ [⟨c, .exit (.reclaimPool link), r⟩]) (some p.closed) := by
  cases h with
  | live hself hin hpaid honce hslots =>
    exact .reclaimed hself hin hpaid honce hslots hrem hexp hauth hout
  | reclaimed => simp at hrem

end Goes

/-! ## One accepted call -/

variable {G : Governance Address} {c : Ctx Address} {w w' : World G} {op : Op Address}
  {r : Receipt Address (Event Address)} {es : List (Entry Address)}

theorem Done.getDrop_of_ne (h : Done env c w op w' r) (hkey : op.key ≠ some (.drop link)) :
    getDrop w' link = getDrop w link := by
  cases h with
  | deposit => exact getDrop_insert_of_ne (by simpa [Op.key] using hkey)
  | createDrop => exact getDrop_insert_of_ne (by simp)
  | governance => rfl
  | exit hadm =>
    cases hadm with
    | claim | reclaim => exact getDrop_insert_of_ne (by simpa [Op.key, Exit.key] using hkey)
    | reclaimPool => exact getDrop_insert_of_ne (by simp)
    | claimShare =>
      exact (getDrop_insert_of_ne (by simp)).trans (getDrop_insert_of_ne (by simp))

theorem Done.getPool_of_ne (h : Done env c w op w' r) (hkey : op.key ≠ some (.pool link)) :
    getPool w' link = getPool w link := by
  cases h with
  | deposit => exact getPool_insert_of_ne (by simp)
  | createDrop => exact getPool_insert_of_ne (by simpa [Op.key] using hkey)
  | governance => rfl
  | exit hadm =>
    cases hadm with
    | claim | reclaim => exact getPool_insert_of_ne (by simp)
    | reclaimPool => exact getPool_insert_of_ne (by simpa [Op.key, Exit.key] using hkey)
    | claimShare =>
      exact (getPool_insert_of_ne (by simpa [Op.key, Exit.key] using hkey)).trans
        (getPool_insert_of_ne (by simp))

theorem Done.dropLife (h : Done env c w op w' r) (hkey : op.key = some (.drop link))
    (hlife : DropLife env link es (getDrop w link)) :
    DropLife env link (es ++ [⟨c, op, r⟩]) (getDrop w' link) := by
  cases h with
  | deposit hself hpos hnew =>
    obtain rfl : _ = link := by simpa [Op.key] using hkey
    rw [hnew] at hlife
    cases hlife
    rw [getDrop_insert_self]
    exact .live hself hpos rfl
  | createDrop | governance => simp [Op.key] at hkey
  | exit hadm =>
    cases hadm with
    | claimShare | reclaimPool => simp [Op.key, Exit.key] at hkey
    | claim hd hopen hsig =>
      obtain rfl : _ = link := by simpa [Op.key, Exit.key] using hkey
      rw [hd] at hlife
      simpa [settled] using hlife.claim hopen hsig rfl
    | reclaim hd hopen hexp hauth =>
      obtain rfl : _ = link := by simpa [Op.key, Exit.key] using hkey
      rw [hd] at hlife
      simpa [settled] using hlife.reclaim hopen hexp hauth rfl

/-- The life of a pool, with the markers of the payouts that took a share. -/
def PoolHistory (env : Env Address) (link : BytesN 32) (es : List (Entry Address)) (w : World G) :
    Prop :=
  PoolLife env link es (getPool w link) ∧ ∀ a ∈ sharePayouts es,
    (w.storage.lookup (DataKey.poolClaimed link a)).isSome = true

theorem Done.marker_mono (h : Done env c w op w' r) {a : Address}
    (hm : (w.storage.lookup (DataKey.poolClaimed link a)).isSome = true) :
    (w'.storage.lookup (DataKey.poolClaimed link a)).isSome = true := by
  cases h with
  | deposit | createDrop => simpa [Finmap.lookup_insert_of_ne] using hm
  | governance => exact hm
  | exit hadm =>
    cases hadm with
    | claim | reclaim | reclaimPool => simpa [settled, Finmap.lookup_insert_of_ne] using hm
    | @claimShare link' payout' =>
      by_cases heq : DataKey.poolClaimed link a = DataKey.poolClaimed link' payout'
      · cases heq
        simp [settled, sharePlan, Finmap.lookup_insert_of_ne, Finmap.lookup_insert]
      · simpa [settled, sharePlan, Finmap.lookup_insert_of_ne, heq] using hm

theorem Done.poolHistory (h : Done env c w op w' r) (hkey : op.key = some (.pool link))
    (hlife : PoolHistory env link es w) : PoolHistory env link (es ++ [⟨c, op, r⟩]) w' := by
  obtain ⟨hlife, hmarks⟩ := hlife
  have hold : ∀ a ∈ sharePayouts es,
      (w'.storage.lookup (DataKey.poolClaimed link a)).isSome = true :=
    fun a ha => h.marker_mono (hmarks a ha)
  cases h with
  | deposit | governance => simp [Op.key] at hkey
  | @createDrop sender _ amount slots expiry hself hslots hle hnew =>
    obtain rfl : _ = link := by simpa [Op.key] using hkey
    rw [hnew] at hlife
    cases hlife
    refine ⟨?_, fun a ha => nomatch ha⟩
    rw [getPool_insert_self]
    exact PoolLife.create hself hle rfl
  | exit hadm =>
    cases hadm with
    | claim | reclaim => simp [Op.key, Exit.key] at hkey
    | @claimShare l payout sig p hp hexp hslots hrem hnew hsig =>
      obtain rfl : l = link := by simpa [Op.key, Exit.key] using hkey
      rw [hp] at hlife
      have hfresh : payout ∉ sharePayouts es := fun ha => by simpa [hnew] using hmarks payout ha
      let s : Share Address := ⟨c, payout, sig, ⟨[⟨env.contract, payout, p.amountPer⟩],
        [.share l payout p.amountPer (p.claimed + 1)]⟩⟩
      refine ⟨?_, ?_⟩
      · simpa [settled, sharePlan, Share.entry] using hlife.share (s := s) hslots hrem hfresh ⟨hexp, hsig, rfl⟩
      · intro a ha
        obtain ha | rfl : a ∈ sharePayouts es ∨ a = payout := by
          simpa [sharePayouts_append, sharePayouts] using ha
        · exact hold a ha
        · simp [settled, sharePlan, Finmap.lookup_insert_of_ne, Finmap.lookup_insert]
    | reclaimPool hp hexp hauth hself hrem =>
      obtain rfl : _ = link := by simpa [Op.key, Exit.key] using hkey
      rw [hp] at hlife
      refine ⟨?_, ?_⟩
      · simpa [settled] using hlife.close hrem hexp hauth rfl
      · simpa [sharePayouts_append, sharePayouts] using hold

/-! ## Runs -/

section Runs

variable {tok owner : Address} {opening : Address → ℕ}

theorem dropLife_final (is : List (Input Address)) :
    DropLife env link (journal Op.key (.drop link) ((ledger (G := G) env tok owner opening).history is))
      (getDrop ((ledger (G := G) env tok owner opening).final is) link) := by
  refine journal_induction (S := Sound env)
    (L := fun es w => DropLife env link es (getDrop w link)) construct_sound
    (fun hw => step_sound hw _) ?_ (fun h => h) ?_ ?_ is
  · simpa [construct, getDrop, Finmap.lookup_insert_of_ne] using DropLife.unused
  · intro es w c op w' r hw hinv hkey hlife
    rwa [(invoke_cases hw.token hinv).getDrop_of_ne hkey]
  · intro es w c op w' r hw hinv hkey hlife
    exact (invoke_cases hw.token hinv).dropLife hkey hlife

theorem poolHistory_final (is : List (Input Address)) :
    PoolHistory env link (journal Op.key (.pool link) ((ledger (G := G) env tok owner opening).history is))
      ((ledger (G := G) env tok owner opening).final is) := by
  refine journal_induction (S := Sound env) (L := PoolHistory env link)
    construct_sound (fun hw => step_sound hw _) ?_ (fun h => h) ?_ ?_ is
  · refine ⟨?_, fun a ha => nomatch ha⟩
    simpa [construct, getPool, Finmap.lookup_insert_of_ne] using PoolLife.unused
  · intro es w c op w' r hw hinv hkey hlife
    have hdone := invoke_cases hw.token hinv
    refine ⟨?_, fun a ha => hdone.marker_mono (hlife.2 a ha)⟩
    rw [hdone.getPool_of_ne hkey]
    exact hlife.1
  · intro es w c op w' r hw hinv hkey hlife
    exact (invoke_cases hw.token hinv).poolHistory hkey hlife

/-- **Exactly once.** In every run each drop and each pool has one of the lives above, the money that
left a record and the money it still holds add up to what was put in, and a record that exists is
never written over. -/
theorem exactly_once (is : List (Input Address)) :
    let m := ledger (G := G) env tok owner opening
    let w := m.final is
    (∀ link, DropLife env link (journal Op.key (.drop link) (m.history is)) (getDrop w link) ∧
      ∀ d, getDrop w link = some d →
        paidOut env (journal Op.key (.drop link) (m.history is)) =
          if d.claimed then d.amount else 0) ∧
    (∀ link, PoolLife env link (journal Op.key (.pool link) (m.history is)) (getPool w link) ∧
      ∀ p, getPool w link = some p → ∃ c sender amount slots expiry r rest,
        journal Op.key (.pool link) (m.history is) =
            ⟨c, .createDrop sender link amount slots expiry, r⟩ :: rest ∧
          0 ≤ p.remaining ∧
          paidOut env (journal Op.key (.pool link) (m.history is)) + p.remaining = amount.1 ∧
          ∀ e ∈ rest, e.op = .exit (.reclaimPool link) →
            paidOut env (journal Op.key (.pool link) (m.history is)) = amount.1) ∧
    ∀ c sender link amount expiry,
      (getDrop w link ≠ none →
        ∃ f, m.step w (.call c (.deposit sender link amount expiry)) = (w, .error f)) ∧
      ∀ slots, getPool w link ≠ none →
        ∃ f, m.step w (.call c (.createDrop sender link amount slots expiry)) = (w, .error f) := by
  intro m w
  have hw : Sound env w := final_sound.1
  refine ⟨fun link => ⟨dropLife_final is, fun d hd => (dropLife_final is).paidOut hd⟩,
    fun link => ⟨(poolHistory_final is).1, fun p hp => ?_⟩, fun c sender link amount expiry => ?_⟩
  · obtain ⟨c, sender, amount, slots, expiry, r, rest, hes, hsum⟩ :=
      (poolHistory_final is).1.paidOut hp
    refine ⟨c, sender, amount, slots, expiry, r, rest, hes, (hw.pools hp).remaining_nonneg, hsum,
      fun e he hop => ?_⟩
    have hzero := (poolHistory_final is).1.remaining_eq_zero hp (hes ▸ List.mem_cons_of_mem _ he) hop
    rwa [hzero, add_zero] at hsum
  · refine ⟨fun hlive => ?_, fun slots hlive => ?_⟩
    · obtain h | ⟨w', r, -, hdone⟩ :=
        step_call_cases hw.token c (.deposit sender link amount expiry)
      · exact h
      · cases hdone with
        | deposit _ _ hnew => exact absurd hnew hlive
    · obtain h | ⟨w', r, -, hdone⟩ :=
        step_call_cases hw.token c (.createDrop sender link amount slots expiry)
      · exact h
      · cases hdone with
        | createDrop _ _ _ hnew => exact absurd hnew hlive

end Runs

end

end Lumenia.LumenDrop
