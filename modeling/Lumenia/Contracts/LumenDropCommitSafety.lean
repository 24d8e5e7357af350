import Lumenia.Contracts.LumenDropCommit
import Lumenia.Contracts.Custodian
import Lumenia.Contracts.Journal

/-!
# LumenDropCommit: safety under any commitments

Nothing is assumed of `sha256`, and a sender may store any 32 bytes as a commitment. `Done` lists
what an accepted call can have done; from it come the custody of the contract's account
(`simulates`), the life of every record (`DropLife`), and `commitment_safety`, which puts them
together.
-/

namespace Lumenia.LumenDropCommit

open Soroban

abbrev Entry (Address : Type) := Soroban.Entry Address (Op Address) (Event Address)

section

variable {Address : Type} [DecidableEq Address] {G : Governance Address} {env : Env Address}
  {c : Ctx Address} {w w' : World G} {link : BytesN 32}

/-! ## Reading what was written -/

section Read

omit [DecidableEq Address]

variable {l : BytesN 32} {d : Drop Address} {s : Finmap (DataKey.Val Address)} {g : G.State}
  {b : Address → ℤ}

@[simp] theorem getDrop_insert_self :
    getDrop (G := G) ⟨s.insert (.drop link) (.V1 d), g, b⟩ link = some d := by
  simp [getDrop, Finmap.lookup_insert]

theorem getDrop_insert_of_ne (h : l ≠ link) :
    getDrop (G := G) ⟨s.insert (.drop link) (.V1 d), g, b⟩ l = getDrop (G := G) ⟨s, g, b⟩ l := by
  simp [getDrop, Finmap.lookup_insert_of_ne s (by simpa using h : DataKey.drop l ≠ .drop link)]

theorem token_insert_drop :
    token (G := G) ⟨s.insert (.drop link) (.V1 d), g, b⟩ = token (G := G) ⟨s, g, b⟩ := by
  simp [token, Finmap.lookup_insert_of_ne]

theorem lookup_of_getDrop (h : getDrop w link = some d) :
    w.storage.lookup (.drop link) = some (.V1 d) := by
  obtain ⟨⟨d'⟩, hd, rfl⟩ := Option.map_eq_some_iff.mp h
  exact hd

theorem getDrop_eq_none : getDrop w link = none ↔ w.storage.lookup (.drop link) = none :=
  Option.map_eq_none_iff

end Read

/-! ## One accepted call -/

/-- A drop after its exit. -/
def Drop.taken (d : Drop Address) : Drop Address := { d with claimed := true }

/-- The world after `link` paid its escrow to `dst`. -/
def paid (env : Env Address) (w : World G) (link : BytesN 32) (d : Drop Address) (dst : Address) :
    World G where
  storage := w.storage.insert (.drop link) (.V1 d.taken)
  gov := w.gov
  balance := (Transfer.mk env.contract dst d.escrowed).apply w.balance

/-- Everything an accepted call can have done. -/
inductive Done (env : Env Address) (c : Ctx Address) (w : World G) :
    Op Address → World G → Receipt Address (Event Address) → Prop
  | deposit {sender link commitment amount expiry} (hself : sender ≠ env.contract)
      (hpos : 0 < amount.1) (hnew : getDrop w link = none) :
      Done env c w (.deposit sender link commitment amount expiry)
        ⟨w.storage.insert (.drop link) (.V1 ⟨sender, commitment, amount.1, expiry.1, false⟩), w.gov,
          (Transfer.mk sender env.contract amount.1).apply w.balance⟩
        ⟨[⟨sender, env.contract, amount.1⟩], [.deposit link sender commitment expiry.1]⟩
  | claim {link payout sig amount salt d} (hd : getDrop w link = some d) (hopen : d.claimed = false)
      (hreveal : commit env link amount.1 salt = d.commitment) (hamount : amount.1 = d.escrowed)
      (hsig : env.ed25519Verify link (message env link payout amount.1 salt) sig = true) :
      Done env c w (.claim link payout sig amount salt) (paid env w link d payout)
        ⟨[⟨env.contract, payout, d.escrowed⟩], [.claim link payout d.escrowed]⟩
  | reclaim {link d} (hd : getDrop w link = some d) (hopen : d.claimed = false)
      (hexp : d.expiry ≤ c.timestamp) (hauth : c.authorized d.sender = true) :
      Done env c w (.reclaim link) (paid env w link d d.sender)
        ⟨[⟨env.contract, d.sender, d.escrowed⟩], [.reclaim link d.sender d.escrowed]⟩
  | governance {op g} : Done env c w (.governance op) { w with gov := g } ⟨[], []⟩

theorem invoke_cases {op : Op Address} {r : Receipt Address (Event Address)}
    (h : invoke env c op w = .ok (w', r)) : Done env c w op w' r := by
  cases op with
  | deposit sender link commitment amount expiry =>
    simp only [invoke, deposit, bind_eq_ok, failIf_eq_ok, requireAuth_eq_ok, World.transfer_eq_ok,
      not_le, Bool.not_eq_true, Option.isSome_eq_false_iff, Option.isNone_iff_eq_none, exists_const,
      pure, Except.pure, Except.ok.injEq] at h
    obtain ⟨_, -, ⟨-, hself⟩, hpos, _, -, hnew, _, -, _, ⟨-, -, rfl⟩, hr⟩ := h
    cases hr
    exact .deposit hself hpos (getDrop_eq_none.mpr hnew)
  | claim link payout sig amount salt =>
    simp only [invoke, claim, bind_eq_ok, okOr_eq_ok, failIf_eq_ok, World.transfer_eq_ok, not_not,
      Bool.not_eq_true, Bool.not_eq_false, exists_const, pure, Except.pure, Except.ok.injEq] at h
    obtain ⟨d, hd, hopen, hreveal, hamount, hsig, _, -, _, ⟨-, -, rfl⟩, hr⟩ := h
    cases hr
    exact .claim hd hopen hreveal hamount hsig
  | reclaim link =>
    simp only [invoke, reclaim, bind_eq_ok, okOr_eq_ok, failIf_eq_ok, requireAuth_eq_ok,
      World.transfer_eq_ok, not_lt, Bool.not_eq_true, exists_const, pure, Except.pure,
      Except.ok.injEq] at h
    obtain ⟨d, hd, hopen, hexp, ⟨hauth, -⟩, _, -, _, ⟨-, -, rfl⟩, hr⟩ := h
    cases hr
    exact .reclaim hd hopen hexp hauth
  | governance op =>
    obtain ⟨g, hr⟩ := governance_eq_ok h
    cases hr
    exact .governance

/-- An accepted claim opened the commitment to the escrow, and paid the escrow. -/
theorem claim_of_step {payout : Address} {sig : BytesN 64} {amount : I128} {salt : BytesN 32}
    {r : Receipt Address (Event Address)}
    (h : (step env (invoke env) w (.call c (.claim link payout sig amount salt))).2 = .ok r) :
    ∃ d, getDrop w link = some d ∧ d.claimed = false ∧
      commit env link amount.1 salt = d.commitment ∧ amount.1 = d.escrowed ∧
      r.moved = [⟨env.contract, payout, d.escrowed⟩] := by
  cases hinv : invoke env c (.claim link payout sig amount salt) w with
  | error f => simp [step_call_error hinv] at h
  | ok x =>
    obtain ⟨w', r'⟩ := x
    rw [step_call_ok hinv, Except.ok.injEq] at h
    subst h
    cases invoke_cases hinv with
    | claim hd hopen hreveal hamount => exact ⟨_, hd, hopen, hreveal, hamount, rfl⟩

/-- No claim is accepted where the commitment does not open to the escrow. -/
theorem claim_refused {d : Drop Address} {payout : Address} {sig : BytesN 64} {amount : I128}
    {salt : BytesN 32} (hd : getDrop w link = some d)
    (hnone : commit env link d.escrowed salt ≠ d.commitment) :
    ∃ f, step env (invoke env) w (.call c (.claim link payout sig amount salt)) = (w, .error f) := by
  cases hinv : invoke env c (.claim link payout sig amount salt) w with
  | error f => exact ⟨f, step_call_error hinv⟩
  | ok x =>
    obtain ⟨d', hd', -, hreveal, hamount, -⟩ := claim_of_step (congrArg Prod.snd (step_call_ok hinv))
    obtain rfl : d = d' := Option.some.inj (hd.symm.trans hd')
    exact absurd (hamount ▸ hreveal) hnone

/-- What a reclaim needs is enough for it. -/
theorem reclaim_of_open {d : Drop Address} {tok : Address}
    (htok : w.storage.lookup DataKey.token = some tok) (hd : getDrop w link = some d)
    (hopen : d.claimed = false) (hexp : d.expiry ≤ c.timestamp)
    (hauth : c.authorized d.sender = true) (hself : d.sender ≠ env.contract)
    (hcov : d.escrowed ≤ w.balance env.contract)
    (hyes : c.refuses w.balance env.contract d.sender d.escrowed = false) :
    invoke env c (.reclaim link) w = .ok (paid env w link d d.sender,
      ⟨[⟨env.contract, d.sender, d.escrowed⟩], [.reclaim link d.sender d.escrowed]⟩) := by
  have ht : token w = .ok tok := by simp [token, htok]
  simp [invoke, reclaim, hd, failIf_bind, hopen, not_lt.mpr hexp, requireAuth, hauth, hself,
    token_insert_drop, ht, World.transfer, not_lt.mpr hcov, hyes, paid, Drop.taken, pure,
    Except.pure]

/-- What the views give is enough for a claim: a record under the commitment that `commitmentOf` gives for the escrow
and a salt is paid to whoever the link's key has signed the bytes of `claimMessage` for. -/
theorem claim_of_views {d : Drop Address} {tok payout : Address} {sig : BytesN 64} {amount : I128} {salt : BytesN 32}
    (htok : w.storage.lookup DataKey.token = some tok) (hd : getDrop w link = some d)
    (hopen : d.claimed = false) (hamount : amount.1 = d.escrowed)
    (hcommit : d.commitment = commitmentOf env link d.escrowed salt)
    (hsig : env.ed25519Verify link (claimMessage env link payout d.escrowed salt) sig = true)
    (hcov : d.escrowed ≤ w.balance env.contract)
    (hyes : c.refuses w.balance env.contract payout d.escrowed = false) :
    invoke env c (.claim link payout sig amount salt) w = .ok (paid env w link d payout,
      ⟨[⟨env.contract, payout, d.escrowed⟩], [.claim link payout d.escrowed]⟩) := by
  have ht : token w = .ok tok := by simp [token, htok]
  have hreveal : commit env link d.escrowed salt = d.commitment := hcommit.symm
  have hverify : env.ed25519Verify link (message env link payout d.escrowed salt) sig = true := hsig
  simp [invoke, claim, hd, failIf_bind, hopen, hamount, hreveal, hverify, token_insert_drop, ht, World.transfer,
    not_lt.mpr hcov, hyes, paid, Drop.taken, pure, Except.pure]

/-! ## Sound records, custody -/

/-- What every stored record satisfies, in every reachable world. -/
structure Sound (env : Env Address) (w : World G) : Prop where
  token : (w.storage.lookup DataKey.token).isSome = true
  drops : ∀ {link d}, getDrop w link = some d → d.sender ≠ env.contract ∧ 0 < d.escrowed

omit [DecidableEq Address] in
theorem Sound.insert_drop {s : Finmap (DataKey.Val Address)} {g g' : G.State}
    {b b' : Address → ℤ} {d : Drop Address} (h : Sound (G := G) env ⟨s, g, b⟩)
    (hself : d.sender ≠ env.contract) (hpos : 0 < d.escrowed) :
    Sound (G := G) env ⟨s.insert (.drop link) (.V1 d), g', b'⟩ where
  token := by simpa [Finmap.lookup_insert_of_ne s] using h.token
  drops {l d'} hd := by
    by_cases hl : l = link
    · subst hl
      rw [getDrop_insert_self, Option.some.injEq] at hd
      subst hd
      exact ⟨hself, hpos⟩
    · rw [getDrop_insert_of_ne hl] at hd
      exact h.drops hd

theorem Done.sound {op : Op Address} {r : Receipt Address (Event Address)}
    (h : Done env c w op w' r) (hw : Sound env w) : Sound env w' := by
  cases h with
  | deposit hself hpos => exact hw.insert_drop hself hpos
  | @claim _ _ _ _ _ d hd | @reclaim _ d hd =>
    obtain ⟨hself, hpos⟩ := hw.drops hd
    exact hw.insert_drop (d := d.taken) hself hpos
  | governance => exact ⟨hw.token, hw.drops⟩

theorem step_sound (hw : Sound env w) (i : Input Address) :
    Sound env (step env (invoke env) w i).1 := by
  cases i with
  | call c op =>
    cases h : invoke env c op w with
    | error f => rwa [step_call_error h]
    | ok x =>
      rw [step_call_ok h]
      exact (invoke_cases h).sound hw
  | outside src dst n =>
    simp only [step]
    split
    · exact hw
    · exact ⟨hw.token, hw.drops⟩

/-- What a record owes. -/
def DataKey.owed : (k : DataKey) → DataKey.Val Address k → ℤ
  | .drop _, .V1 d => if d.claimed then 0 else d.escrowed
  | .token, _ => 0

/-- The sum of `escrowed` over the unsettled records. -/
abbrev escrowed (w : World G) : ℤ := Soroban.escrowed DataKey.owed w

omit [DecidableEq Address] in
theorem owed_drop {d : Drop Address} (h : getDrop w link = some d) :
    w.storage.weight DataKey.owed (.drop link) = if d.claimed then 0 else d.escrowed :=
  Finmap.weight_of_lookup (lookup_of_getDrop h)

omit [DecidableEq Address] in
theorem Sound.owed_nonneg (hw : Sound env w) (k : DataKey) :
    0 ≤ w.storage.weight DataKey.owed k := by
  cases hk : w.storage.lookup k with
  | none => rw [Finmap.weight_of_lookup_none hk]
  | some v =>
    rw [Finmap.weight_of_lookup hk]
    match k, v with
    | .drop link, .V1 d =>
      have hd : getDrop w link = some d := by simp [getDrop, hk]
      simp only [DataKey.owed]
      split
      · rfl
      · exact (hw.drops hd).2.le
    | .token, _ => rfl

theorem escrowed_paid {d : Drop Address} {dst : Address} (hd : getDrop w link = some d)
    (hopen : d.claimed = false) : escrowed (paid env w link d dst) = escrowed w - d.escrowed := by
  simp [Soroban.escrowed, paid, Finmap.total_insert, owed_drop hd, hopen, DataKey.owed, Drop.taken]

theorem Done.custody {op : Op Address} {r : Receipt Address (Event Address)}
    (h : Done env c w op w' r) (hw : Sound env w) :
    let move : Custody.Move Address := moveOf env (.call c op) (.ok r : Outcome Address)
    move.Honest env.contract ∧
      custody DataKey.owed w' = (custody DataKey.owed w).apply env.contract move := by
  cases h with
  | deposit hself _ hnew =>
    have hzero := Finmap.weight_of_lookup_none (w := DataKey.owed) (getDrop_eq_none.mp hnew)
    simp [Soroban.custody, Soroban.escrowed, Custody.apply, Custody.Move.Honest, moveOf, hself,
      Finmap.total_insert, hzero, DataKey.owed]
  | @claim _ dst _ _ _ d hd hopen | @reclaim _ d hd hopen =>
    simp only [moveOf, if_true, Custody.Move.Honest, Custody.apply, Soroban.custody]
    exact ⟨(hw.drops hd).2.le, congrArg₂ Custody.mk (escrowed_paid hd hopen) rfl⟩
  | governance => exact ⟨trivial, rfl⟩

/-- **Simulation.** One step of the ledger is one honest move of the custody. -/
theorem simulates (hw : Sound env w) (i : Input Address) :
    Simulates env DataKey.owed (invoke env) w i :=
  simulates_of_ok fun hi hinv => hi ▸ (invoke_cases hinv).custody hw

/-- The payout of a claim is not the contract's own address. -/
def PaysElsewhere (env : Env Address) : Input Address → Prop
  | .call _ (.claim _ payout _ _ _) => payout ≠ env.contract
  | _ => True

theorem stray_eq_zero (hw : Sound env w) {i : Input Address} (hgift : NoGift env i)
    (hpay : PaysElsewhere env i) :
    (moveOf env i (step env (invoke env) w i).2).stray env.contract = 0 := by
  cases i with
  | call c op =>
    cases h : invoke env c op w with
    | error f =>
      rw [step_call_error h, moveOf_error]
      rfl
    | ok x =>
      obtain ⟨w', r⟩ := x
      rw [step_call_ok h]
      cases invoke_cases h with
      | deposit hself =>
        rw [stray_call]
        exact if_neg fun hboth => hself hboth.1
      | claim =>
        rw [stray_call]
        exact if_neg fun hboth => hpay hboth.2
      | reclaim hd =>
        rw [stray_call]
        exact if_neg fun hboth => (hw.drops hd).1 hboth.2
      | governance => rfl
  | outside src dst n =>
    simp only [step]
    split
    · rfl
    · exact if_neg hgift

/-! ## The life of a record -/

/-- The record a call addresses. -/
def Op.key : Op Address → Option DataKey
  | .deposit _ link .. | .claim link .. | .reclaim link => some (.drop link)
  | .governance _ => none

variable (env link) in
/-- The life of the drop under `link`: its accepted calls and its record. -/
inductive DropLife : List (Entry Address) → Option (Drop Address) → Prop
  | unused : DropLife [] none
  | live {c sender commitment amount expiry r}
      (hin : r.moved = [⟨sender, env.contract, amount.1⟩]) :
      DropLife [⟨c, .deposit sender link commitment amount expiry, r⟩]
        (some ⟨sender, commitment, amount.1, expiry.1, false⟩)
  | claimed {c sender commitment amount expiry r c' payout sig salt r'}
      (hin : r.moved = [⟨sender, env.contract, amount.1⟩])
      (hreveal : commit env link amount.1 salt = commitment)
      (hsig : env.ed25519Verify link (message env link payout amount.1 salt) sig = true)
      (hout : r'.moved = [⟨env.contract, payout, amount.1⟩]) :
      DropLife [⟨c, .deposit sender link commitment amount expiry, r⟩,
          ⟨c', .claim link payout sig amount salt, r'⟩]
        (some ⟨sender, commitment, amount.1, expiry.1, true⟩)
  | reclaimed {c sender commitment amount expiry r c' r'}
      (hin : r.moved = [⟨sender, env.contract, amount.1⟩])
      (hexp : expiry.1 ≤ c'.timestamp) (hauth : c'.authorized sender = true)
      (hout : r'.moved = [⟨env.contract, sender, amount.1⟩]) :
      DropLife [⟨c, .deposit sender link commitment amount expiry, r⟩, ⟨c', .reclaim link, r'⟩]
        (some ⟨sender, commitment, amount.1, expiry.1, true⟩)

variable {es : List (Entry Address)} {op : Op Address} {r : Receipt Address (Event Address)}

theorem Done.getDrop_of_ne (h : Done env c w op w' r) (hkey : op.key ≠ some (.drop link)) :
    getDrop w' link = getDrop w link := by
  cases h with
  | deposit | claim | reclaim =>
    exact getDrop_insert_of_ne fun heq => hkey (by simp [Op.key, heq])
  | governance => rfl

theorem Done.dropLife (h : Done env c w op w' r) (hkey : op.key = some (.drop link))
    (hlife : DropLife env link es (getDrop w link)) :
    DropLife env link (es ++ [⟨c, op, r⟩]) (getDrop w' link) := by
  cases h with
  | deposit _ _ hnew =>
    obtain rfl : _ = link := by simpa [Op.key] using hkey
    rw [hnew] at hlife
    cases hlife
    rw [getDrop_insert_self]
    exact .live rfl
  | @claim _ payout sig amount salt d hd hopen hreveal hamount hsig =>
    obtain rfl : _ = link := by simpa [Op.key] using hkey
    rw [hd] at hlife
    rw [paid, getDrop_insert_self]
    cases hlife with
    | live hin =>
      obtain rfl := Subtype.ext hamount
      exact .claimed hin hreveal hsig rfl
    | claimed | reclaimed => cases hopen
  | reclaim hd hopen hexp hauth =>
    obtain rfl : _ = link := by simpa [Op.key] using hkey
    rw [hd] at hlife
    rw [paid, getDrop_insert_self]
    cases hlife with
    | live hin => exact .reclaimed hin hexp hauth rfl
    | claimed | reclaimed => cases hopen
  | governance => simp [Op.key] at hkey

omit [DecidableEq Address] in
/-- A claim in the life of a record opened its commitment to what was escrowed. -/
theorem DropLife.opens {o : Option (Drop Address)} (h : DropLife env link es o) {d : Drop Address}
    (hd : o = some d) {e : Entry Address} (he : e ∈ es) {payout : Address} {sig : BytesN 64}
    {amount : I128} {salt : BytesN 32} (hop : e.op = .claim link payout sig amount salt) :
    commit env link d.escrowed salt = d.commitment := by
  cases h with
  | unused => cases hd
  | live =>
    obtain rfl := List.mem_singleton.mp he
    cases hop
  | claimed _ hreveal =>
    cases hd
    rw [List.mem_pair] at he
    obtain rfl | rfl := he
    · cases hop
    · cases hop
      exact hreveal
  | reclaimed =>
    rw [List.mem_pair] at he
    obtain rfl | rfl := he <;> cases hop

/-! ## Runs -/

section Runs

variable {tok owner : Address} {opening : Address → ℕ}

omit [DecidableEq Address] in
theorem construct_sound : Sound env (construct (G := G) tok owner opening) where
  token := by simp [construct, Finmap.lookup_insert]
  drops hd := by simp [construct, getDrop, Finmap.lookup_insert_of_ne] at hd

omit [DecidableEq Address] in
theorem escrowed_construct : escrowed (construct (G := G) tok owner opening) = 0 := by
  simp [Soroban.escrowed, construct, Finmap.total_insert, Finmap.weight, DataKey.owed]

/-- Every reachable world is sound, and holds its records plus what strayed into it. -/
theorem final_sound (is : List (Input Address)) :
    let m := ledger (G := G) env tok owner opening
    Sound env (m.final is) ∧ 0 ≤ strays env (m.history is) ∧
      (m.final is).balance env.contract =
        escrowed (m.final is) + opening env.contract + strays env (m.history is) := by
  have hinit : Sound env (construct (G := G) tok owner opening) := construct_sound
  have hzero : escrowed (construct (G := G) tok owner opening) = 0 := escrowed_construct
  have h := final_custody hinit (fun hw => step_sound hw _) (fun hw => simulates hw _) is
  simp only [hzero, sub_zero] at h
  exact h

theorem strays_eq_zero {is : List (Input Address)} (hgift : ∀ i ∈ is, NoGift env i)
    (hpay : ∀ i ∈ is, PaysElsewhere env i) :
    strays env ((ledger (G := G) env tok owner opening).history is) = 0 := by
  refine (Machine.invariant_of (m := ledger (G := G) env tok owner opening)
    (C := fun i => NoGift env i ∧ PaysElsewhere env i)
    (P := fun h s => Sound env s ∧ strays env h = 0) ⟨construct_sound, rfl⟩ ?_
    fun i hi => ⟨hgift i hi, hpay i hi⟩).2
  rintro h s i ⟨hg, hp⟩ ⟨hs, hsum⟩
  refine ⟨step_sound hs i, ?_⟩
  rw [strays_concat, hsum, zero_add]
  exact stray_eq_zero hs hg hp

theorem dropLife_final (is : List (Input Address)) :
    let m := ledger (G := G) env tok owner opening
    DropLife env link (journal Op.key (.drop link) (m.history is)) (getDrop (m.final is) link) := by
  refine journal_induction (S := Sound env)
    (L := fun es w => DropLife env link es (getDrop w link)) construct_sound
    (fun hw => step_sound hw _) ?_ (fun h => h) ?_ ?_ is
  · simpa [construct, getDrop, Finmap.lookup_insert_of_ne] using DropLife.unused
  · intro es w c op w' r hw hinv hkey hlife
    rwa [(invoke_cases hinv).getDrop_of_ne hkey]
  · intro es w c op w' r hw hinv hkey hlife
    exact (invoke_cases hinv).dropLife hkey hlife

/-- **Safety of the commitment escrow**, in every reachable world and whatever the hash: the balance
is what the unsettled records escrowed; an accepted claim pays the escrow, and opened the commitment
to it; a record settles once; and a record whose commitment does not open to its escrow leaves by its
sender's reclaim, and by nothing else. -/
theorem commitment_safety (is : List (Input Address)) :
    let m := ledger (G := G) env tok owner opening
    let w := m.final is
    (opening env.contract = 0 → (∀ i ∈ is, NoGift env i) → (∀ i ∈ is, PaysElsewhere env i) →
      w.balance env.contract = escrowed w) ∧
    (∀ c link payout sig amount salt r,
      (m.step w (.call c (.claim link payout sig amount salt))).2 = .ok r →
        ∃ d, getDrop w link = some d ∧ d.claimed = false ∧
          commit env link amount.1 salt = d.commitment ∧ amount.1 = d.escrowed ∧
          r.moved = [⟨env.contract, payout, d.escrowed⟩]) ∧
    (∀ link, DropLife env link (journal Op.key (.drop link) (m.history is)) (getDrop w link)) ∧
    ∀ link d, getDrop w link = some d → (∀ salt, commit env link d.escrowed salt ≠ d.commitment) →
      (∀ e ∈ journal Op.key (.drop link) (m.history is), ∀ payout sig amount salt,
        e.op ≠ .claim link payout sig amount salt) ∧
      (∀ c payout sig amount salt, ∃ f,
        m.step w (.call c (.claim link payout sig amount salt)) = (w, .error f)) ∧
      ∀ c, d.claimed = false → d.expiry ≤ c.timestamp → c.authorized d.sender = true →
        AssetPays env c w →
          ∃ w' ev, m.step w (.call c (.reclaim link)) =
            (w', .ok ⟨[⟨env.contract, d.sender, d.escrowed⟩], [ev]⟩) := by
  intro m w
  obtain ⟨hw, hnonneg, hsum⟩ : Sound env w ∧ 0 ≤ strays env (m.history is) ∧
    w.balance env.contract = escrowed w + opening env.contract + strays env (m.history is) :=
      final_sound is
  refine ⟨fun hopen hgift hpay => ?_, fun c link payout sig amount salt r h => claim_of_step h,
    fun link => dropLife_final is, fun link d hd hnone =>
      ⟨fun e he payout sig amount salt hop => hnone salt ((dropLife_final is).opens hd he hop),
        fun c payout sig amount salt => claim_refused hd (hnone salt),
        fun c hopen hexp hauth hpays => ?_⟩⟩
  · have hzero : strays env (m.history is) = 0 := strays_eq_zero hgift hpay
    omega
  · obtain ⟨tok, htok⟩ := Option.isSome_iff_exists.mp hw.token
    have hle : d.escrowed ≤ w.balance env.contract := by
      have hweight := Finmap.weight_le_total (a := DataKey.drop link) hw.owed_nonneg
      rw [owed_drop hd, hopen] at hweight
      change d.escrowed ≤ escrowed w at hweight
      omega
    have hstep : step env (invoke env) w (.call c (.reclaim link)) = _ := step_call_ok
      (reclaim_of_open htok hd hopen hexp hauth (hw.drops hd).1 hle (hpays _ _ hle))
    exact ⟨_, _, hstep⟩

end Runs

end

/-! ## A concrete run

Account 3 escrows 5 under bytes that no hash of the small instance takes as value. -/

namespace Demo

open Soroban.Demo (at_ link five hundred)

/-- Not a constant vector, as every value of the demonstration hash is. -/
def commitment : BytesN 32 := Vector.ofFn fun i => UInt8.ofNat i

def ledger : Machine (World Governance.standard) (Input ℕ) (Outcome ℕ) :=
  LumenDropCommit.ledger Soroban.Demo.env 1 2 fun a => if a = 3 then 8 else 0

def fund : Input ℕ :=
  .call (at_ 0 3) (.deposit 3 link commitment five hundred)

theorem commit_ne (amount : ℤ) (salt : BytesN 32) :
    commit Soroban.Demo.env link amount salt ≠ commitment := by
  intro h
  have h₀ : _ = commitment[0] := congrArg (fun v : BytesN 32 => v[0]) h
  have h₁ : _ = commitment[1] := congrArg (fun v : BytesN 32 => v[1]) h
  simp only [commit, Soroban.Demo.env, Vector.getElem_replicate] at h₀ h₁
  exact absurd (h₀.symm.trans h₁) (by decide)

end Demo

open Demo Soroban.Demo in
theorem commitment_safety_dishonest :
    ∃ w' ev, Demo.ledger.step (Demo.ledger.final [fund]) (.call (at_ 100 3) (.reclaim link)) =
      (w', .ok ⟨[⟨0, 3, 5⟩], [ev]⟩) :=
  ((commitment_safety [fund]).2.2.2 link ⟨3, commitment, 5, 100, false⟩ (by decide)
    (commit_ne 5)).2.2 (at_ 100 3) rfl (by decide) (by decide) fun _ _ _ => rfl

end Lumenia.LumenDropCommit
