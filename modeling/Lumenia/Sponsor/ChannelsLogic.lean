import Lumenia.Sponsor.ChannelsStore

/-!
# What the requests owe each other over leases

`Sound` is what holds of the store and of the transactions, and `Others` what one request has to bear
from the rest. Each step keeps both (`Sound.react`), and so does each program that takes, uses and
releases a lease.
-/

namespace Lumenia.Sponsor.Channels

open Dialogue

variable {ι : Type}

/-! ## Terms -/

/-- What holds of leases and transactions at any time. -/
structure Sound (w : World ι) : Prop where
  drawn : ∀ g ∈ w.grants, ∃ i, w.owner g.token = some i
  single : ∀ g ∈ w.grants, ∀ g' ∈ w.grants, g.token = g'.token → g = g'
  stored : ∀ g, Live w g → w.held g.key = some (g.token, g.expiry)
  mine : ∀ i t, (i, t) ∈ w.released → w.owner t = some i
  leased : ∀ i tx, w.tx i = some tx → w.owner tx.lease.token = some i ∧
    ∃ g ∈ w.grants, g.token = tx.lease.token ∧ g.key = chanKey tx.lease.publicKey ∧
      (tx.maxTime + 1) * 1000 ≤ g.expiry
  kept : ∀ i tx, w.tx i = some tx → tx.Open w → (i, tx.lease.token) ∉ w.released
  ttl : ∀ g ∈ w.grants, g.expiry = g.granted + channelLeaseTtlSeconds * 1000

/-- What the other requests and the network may do. -/
structure Others (i : ι) (w w' : World ι) : Prop where
  time : w.now ≤ w'.now
  owner : ∀ t, w.owner t = some i → w'.owner t = some i
  grants : ∀ g ∈ w.grants, g ∈ w'.grants
  fresh : ∀ g ∈ w'.grants, w.owner g.token = some i → g ∈ w.grants
  released : ∀ t, (i, t) ∈ w'.released → (i, t) ∈ w.released
  tx : w'.tx i = w.tx i ∨ ∃ tx, w.tx i = some tx ∧ w'.tx i = some { tx with included := true }
  reads : w'.reads i = w.reads i

theorem Others.refl (i : ι) (w : World ι) : Others i w w :=
  ⟨le_rfl, fun _ => id, fun _ => id, fun _ hg _ => hg, fun _ => id, .inl rfl, rfl⟩

theorem Others.trans (i : ι) {w₁ w₂ w₃ : World ι} (h : Others i w₁ w₂) (h' : Others i w₂ w₃) :
    Others i w₁ w₃ where
  time := h.time.trans h'.time
  owner t ht := h'.owner t (h.owner t ht)
  grants g hg := h'.grants g (h.grants g hg)
  fresh g hg hi := h.fresh g (h'.fresh g hg (h.owner _ hi)) hi
  released t ht := h.released t (h'.released t ht)
  tx := by
    rcases h.tx with heq | ⟨tx, htx, heq⟩ <;> rcases h'.tx with heq' | ⟨tx', htx', heq'⟩
    · exact .inl (heq'.trans heq)
    · exact .inr ⟨tx', heq ▸ htx', heq'⟩
    · exact .inr ⟨tx, htx, heq'.trans heq⟩
    · obtain rfl : { tx with included := true } = tx' := Option.some.inj (heq.symm.trans htx')
      exact .inr ⟨tx, htx, heq'⟩
  reads := h'.reads.trans h.reads

def terms : Terms ι (World ι) := ⟨Sound, Others, Others.refl, Others.trans⟩

/-! ## Steps -/

/-- No transaction of the request is open. -/
def Closed (i : ι) (w : World ι) : Prop := ∀ tx, w.tx i = some tx → ¬tx.Open w

/-- The window of the request's transaction is over. -/
def Expired (i : ι) (w : World ι) : Prop := ∀ tx, w.tx i = some tx → tx.maxTime < w.now / 1000

theorem Expired.closed {i : ι} {w : World ι} (h : Expired i w) : Closed i w := by
  intro tx htx hopen
  exact absurd hopen.valid (Nat.not_le.mpr (h tx htx))

/-- The time between the grant of a lease and the building of the transaction. -/
def slackSeconds (timeoutSeconds : ℕ) : ℕ := channelLeaseTtlSeconds - timeoutSeconds

/-- A release after all 41 reads comes when the window of the transaction is over. -/
def LeaseCmd.Timely (i : ι) (w : World ι) : LeaseCmd → Prop
  | .fencedDel .. => w.reads i = 41 → Expired i w
  | _ => True

/-- No step takes too long: a transaction is built before the slack of its lease is used up, with the
second that `maxTime` is counted from. And what the RPC throws when a transaction may be on its way
has a text. -/
def Timely : Condition ι
  | _, w, .build (some l) timeoutSeconds, _ =>
    ∀ g ∈ w.grants, g.token = l.token →
      (w.now / 1000 + 1) * 1000 ≤ g.granted + slackSeconds timeoutSeconds * 1000
  | i, w, .pipeline cmd, _ | i, w, .memory cmd, _ => cmd.Timely i w
  | _, _, .await (.sendTransaction _), .error t =>
    sendRefusedOutright t = false → ∃ line, describeThrow t = .ok line
  | _, _, .await (.getTransaction _), .error t => ∃ message, t.readMessage = .ok message
  | _, _, _, _ => True

/-- The lease of this token is the request's own. -/
structure Mine (i : ι) (key token : String) (w : World ι) : Prop where
  owner : w.owner token = some i
  granted : ∃ g ∈ w.grants, g.token = token ∧ g.key = key
  kept : (i, token) ∉ w.released

/-- The request has drawn a token, and not used it. -/
structure Drawn (i : ι) (token : String) (w : World ι) : Prop where
  owner : w.owner token = some i
  unused : ∀ g ∈ w.grants, g.token ≠ token
  kept : (i, token) ∉ w.released

/-- What a command has to bring. -/
def LeaseCmd.Ready (i : ι) (w : World ι) : LeaseCmd → Prop
  | .setNx _ token ttlSeconds | .acquireAny _ token ttlSeconds =>
    Drawn i token w ∧ ttlSeconds = channelLeaseTtlSeconds
  | .fencedDel _ token => w.owner token = some i ∧ (w.reads i = 41 ∨ Closed i w)

/-- What a step has to bring. -/
def Ready (i : ι) (w : World ι) : Ask → Prop
  | .pipeline cmd | .memory cmd => cmd.Ready i w
  | .build (some l) timeoutSeconds =>
    w.tx i = none ∧ Mine i (chanKey l.publicKey) l.token w ∧ timeoutSeconds ≤ channelLeaseTtlSeconds
  | .handOut (some _) | .await (.sendTransaction _) =>
    ∀ tx, w.tx i = some tx → (i, tx.lease.token) ∉ w.released
  | _ => True

section

variable {i : ι} {w w' : World ι}

/-- The step keeps the invariant and what the other requests rely on. -/
def Fine (i : ι) (w w' : World ι) : Prop := Sound w' ∧ ∀ j, j ≠ i → Others j w w'

theorem Fine.refl (h : Sound w) : Fine i w w := ⟨h, fun j _ => .refl j w⟩

theorem Sound.draw (h : Sound w) {t : String} (ht : w.owner t = none) :
    Fine i w { w with owner := Function.update w.owner t (some i) } := by
  have howner {j : ι} {t' : String} (ht' : w.owner t' = some j) :
      Function.update w.owner t (some i) t' = some j := by
    rw [Function.update_of_ne]
    · exact ht'
    · rintro rfl
      rw [ht] at ht'
      cases ht'
  refine ⟨⟨fun g hg => ?_, h.single, fun g hg => h.stored g ⟨hg.granted, hg.unexpired, hg.kept⟩,
    fun j t' ht' => howner (h.mine j t' ht'), fun j tx htx => ?_,
    fun j tx htx hopen => h.kept j tx htx ⟨hopen.sent, hopen.undecided, hopen.valid⟩, h.ttl⟩,
    fun j hj => ?_⟩
  · obtain ⟨j, hj⟩ := h.drawn g hg
    exact ⟨j, howner hj⟩
  · obtain ⟨hj, hg⟩ := h.leased j tx htx
    exact ⟨howner hj, hg⟩
  · exact { Others.refl j w with
      owner := fun t' => howner
      fresh := fun _ hg _ => hg }

theorem Sound.grant (h : Sound w) {key t : String} {ttlSeconds : ℕ}
    (hready : Drawn i t w ∧ ttlSeconds = channelLeaseTtlSeconds) (hfree : w.holder key = none) :
    Fine i w (w.grant key t ttlSeconds) := by
  obtain ⟨hdrawn, rfl⟩ := hready
  have hmem {g : Grant} : g ∈ (w.grant key t channelLeaseTtlSeconds).grants ↔
      g ∈ w.grants ∨ g = ⟨key, t, w.now, w.now + channelLeaseTtlSeconds * 1000⟩ := by
    simp [World.grant]
  refine ⟨⟨fun g hg => ?_, fun g hg g' hg' heq => ?_, fun g hg => ?_, h.mine, fun j tx htx => ?_,
    fun j tx htx hopen => h.kept j tx htx ⟨hopen.sent, hopen.undecided, hopen.valid⟩, fun g hg => ?_⟩,
    fun j hj => ?_⟩
  · rcases hmem.mp hg with hg | rfl
    · exact h.drawn g hg
    · exact ⟨i, hdrawn.owner⟩
  · rcases hmem.mp hg with hg | rfl <;> rcases hmem.mp hg' with hg' | rfl
    · exact h.single g hg g' hg' heq
    · exact absurd heq (hdrawn.unused g hg)
    · exact absurd heq.symm (hdrawn.unused g' hg')
    · rfl
  · rcases hmem.mp hg.granted with hold | rfl
    · have hheld := h.stored g ⟨hold, hg.unexpired, hg.kept⟩
      have hne : g.key ≠ key := by
        rintro rfl
        rw [World.holder, hheld] at hfree
        have hexp : w.now < g.expiry := hg.unexpired
        simp only [Option.filter_some, decide_eq_true hexp, if_true, reduceCtorEq] at hfree
      simpa [World.grant, Function.update_of_ne hne] using hheld
    · simp [World.grant]
  · obtain ⟨hj, g, hg, hrest⟩ := h.leased j tx htx
    exact ⟨hj, g, hmem.mpr (.inl hg), hrest⟩
  · rcases hmem.mp hg with hg | rfl
    · exact h.ttl g hg
    · rfl
  · refine { Others.refl j w with grants := fun g hg => hmem.mpr (.inl hg), fresh := fun g hg ht => ?_ }
    rcases hmem.mp hg with hg | rfl
    · exact hg
    · exact absurd (Option.some.inj (ht.symm.trans hdrawn.owner)) hj

theorem Sound.freed (h : Sound w) {key t : String} (hmine : w.owner t = some i) (hclosed : Closed i w) :
    Fine i w (w.exec i (.fencedDel key t)).2 := by
  set w' := (w.exec i (.fencedDel key t)).2 with hw'
  obtain ⟨hnow, howner, hgrants, hreleased, htx, hreads⟩ : w'.now = w.now ∧ w'.owner = w.owner ∧
      w'.grants = w.grants ∧ w'.released = w.released ++ [(i, t)] ∧ w'.tx = w.tx ∧
      w'.reads = w.reads := by
    simp only [hw', World.exec]
    split <;> exact ⟨rfl, rfl, rfl, rfl, rfl, rfl⟩
  have hmem {j : ι} {t' : String} : (j, t') ∈ w'.released ↔ (j, t') ∈ w.released ∨ j = i ∧ t' = t := by
    simp [hreleased]
  refine ⟨⟨by rw [hgrants, howner]; exact h.drawn, by rw [hgrants]; exact h.single, fun g hg => ?_, fun j t' ht' => ?_,
    by rw [htx, howner, hgrants]; exact h.leased, fun j tx hj hopen hrel => ?_,
    by rw [hgrants]; exact h.ttl⟩, fun j hj => ?_⟩
  · have hlive : Live w g := ⟨hgrants ▸ hg.granted, hnow ▸ hg.unexpired,
      fun j hj => hg.kept j (hmem.mpr (.inl hj))⟩
    have hheld := h.stored g hlive
    have htoken : g.token ≠ t := fun heq => hg.kept i (hmem.mpr (.inr ⟨rfl, heq⟩))
    simp only [hw', World.exec]
    split
    · next heq =>
      have hne : g.key ≠ key := by
        rintro rfl
        rw [World.holder, hheld] at heq
        simp [hlive.unexpired] at heq
        exact htoken heq
      simpa [Function.update_of_ne hne] using hheld
    · exact hheld
  · rw [howner]
    rcases hmem.mp ht' with hold | ⟨rfl, rfl⟩
    · exact h.mine j t' hold
    · exact hmine
  · rw [htx] at hj
    have hopen' : tx.Open w := ⟨hopen.sent, hopen.undecided, hnow ▸ hopen.valid⟩
    rcases hmem.mp hrel with hold | ⟨rfl, -⟩
    · exact h.kept j tx hj hopen' hold
    · exact hclosed tx hj hopen'
  · refine ⟨hnow.ge, by simp [howner], by simp [hgrants], by simp +contextual [hgrants], fun t' ht' => ?_,
      .inl (by rw [htx]), by rw [hreads]⟩
    rcases hmem.mp ht' with hold | ⟨rfl, -⟩
    · exact hold
    · exact absurd rfl hj

theorem Sound.exec (h : Sound w) {cmd : LeaseCmd} (hready : cmd.Ready i w)
    (htimely : cmd.Timely i w) : Fine i w (w.exec i cmd).2 := by
  cases cmd with
  | setNx key token ttlSeconds =>
    cases hfree : w.holder key with
    | none => simpa [World.exec, hfree] using h.grant hready hfree
    | some held => simpa [World.exec, hfree] using Fine.refl h
  | acquireAny keys token ttlSeconds =>
    cases hfind : keys.findIdx? fun key => (w.holder key).isNone with
    | none => simpa [World.exec, hfind] using Fine.refl h
    | some n =>
      obtain ⟨hn, hfree, -⟩ := List.findIdx?_eq_some_iff_getElem.mp hfind
      have hkey : keys.getD n "" = keys[n] := by simp [List.getD_eq_getElem?_getD, hn]
      simp only [World.exec, hfind, hkey]
      exact h.grant hready (Option.isNone_iff_eq_none.mp hfree)
  | fencedDel key token => exact h.freed hready.1 (hready.2.elim (fun hreads => (htimely hreads).closed) id)

variable [DecidableEq ι]

/-- A change of the request's own transaction that leaves its lease and its window. -/
theorem Sound.own (h : Sound w) {tx' : Option Tx}
    (htx : ∀ new, tx' = some new → w.owner new.lease.token = some i ∧
      (∃ g ∈ w.grants, g.token = new.lease.token ∧ g.key = chanKey new.lease.publicKey ∧
        (new.maxTime + 1) * 1000 ≤ g.expiry) ∧
      (new.Open w → (i, new.lease.token) ∉ w.released)) :
    Fine i w { w with tx := Function.update w.tx i tx' } := by
  refine ⟨⟨h.drawn, h.single, fun g hg => h.stored g ⟨hg.granted, hg.unexpired, hg.kept⟩, h.mine,
    fun j tx hj => ?_, fun j tx hj hopen => ?_, h.ttl⟩, fun j hj => ?_⟩
  · by_cases hji : j = i
    · subst hji
      obtain ⟨howner, hgrant, -⟩ := htx tx (by simpa using hj)
      exact ⟨howner, hgrant⟩
    · exact h.leased j tx (by simpa [Function.update_of_ne hji] using hj)
  · have hopen' : tx.Open w := ⟨hopen.sent, hopen.undecided, hopen.valid⟩
    by_cases hji : j = i
    · subst hji
      exact (htx tx (by simpa using hj)).2.2 hopen'
    · exact h.kept j tx (by simpa [Function.update_of_ne hji] using hj) hopen'
  · exact { Others.refl j w with tx := .inl (Function.update_of_ne hj ..) }

theorem Sound.send (h : Sound w) {hash : Option String}
    (hkept : ∀ tx, w.tx i = some tx → (i, tx.lease.token) ∉ w.released) :
    Fine i w (w.send i hash) := by
  apply h.own
  intro new hnew
  obtain ⟨tx, htx, rfl⟩ := Option.map_eq_some_iff.mp hnew
  obtain ⟨howner, hgrant⟩ := h.leased i tx htx
  exact ⟨howner, hgrant, fun _ => hkept tx htx⟩

/-- A transaction that is built before the slack is used up has its window within the lease. -/
theorem within_lease {granted now timeoutSeconds : ℕ} (htimeout : timeoutSeconds ≤ channelLeaseTtlSeconds)
    (hslack : (now / 1000 + 1) * 1000 ≤ granted + slackSeconds timeoutSeconds * 1000) :
    (now / 1000 + timeoutSeconds + 1) * 1000 ≤ granted + channelLeaseTtlSeconds * 1000 := by
  have hsplit : slackSeconds timeoutSeconds + timeoutSeconds = channelLeaseTtlSeconds :=
    Nat.sub_add_cancel htimeout
  calc (now / 1000 + timeoutSeconds + 1) * 1000
      = (now / 1000 + 1) * 1000 + timeoutSeconds * 1000 := by ring
    _ ≤ granted + slackSeconds timeoutSeconds * 1000 + timeoutSeconds * 1000 :=
      Nat.add_le_add_right hslack _
    _ = granted + channelLeaseTtlSeconds * 1000 := by rw [← hsplit]; ring

theorem Sound.build (h : Sound w) {l : ChannelLease} {timeoutSeconds : ℕ}
    (hmine : Mine i (chanKey l.publicKey) l.token w) (htimeout : timeoutSeconds ≤ channelLeaseTtlSeconds)
    (htimely : Timely i w (.build (some l) timeoutSeconds) ()) :
    Fine i w (w.build i l timeoutSeconds) := by
  apply h.own
  intro new hnew
  obtain rfl := Option.some.inj hnew
  obtain ⟨g, hg, htoken, hkey⟩ := hmine.granted
  have hwindow := within_lease htimeout (htimely g hg htoken)
  rw [← h.ttl g hg] at hwindow
  exact ⟨hmine.owner, ⟨g, hg, htoken, hkey, hwindow⟩, fun _ => hmine.kept⟩

theorem Sound.read (h : Sound w) : Fine i w (w.read i) := by
  refine ⟨⟨h.drawn, h.single, fun g hg => h.stored g ⟨hg.granted, hg.unexpired, hg.kept⟩, h.mine,
    h.leased, fun j tx hj hopen => h.kept j tx hj ⟨hopen.sent, hopen.undecided, hopen.valid⟩, h.ttl⟩,
    fun j hj => ?_⟩
  exact { Others.refl j w with reads := Function.update_of_ne hj .. }

/-- **The step lemma.** -/
theorem Sound.react (h : Sound w) {d : Chance} {q : Ask} (hready : Ready i w q)
    (hfair : fair i d w q = true) (htimely : Timely i w q (react i d w q).1) :
    Fine i w (react i d w q).2 := by
  cases q with
  | randomUUID => exact h.draw (by simpa [fair] using hfair)
  | pipeline cmd =>
    rw [Channels.react]
    split
    · exact h.exec hready htimely
    · exact .refl h
  | memory cmd => exact h.exec hready htimely
  | build source timeoutSeconds =>
    cases source with
    | none => exact .refl h
    | some l => exact h.build hready.2.1 hready.2.2 htimely
  | handOut source =>
    cases source with
    | none => exact .refl h
    | some l => exact h.send hready
  | await q =>
    cases q with
    | sendTransaction =>
      rw [Channels.react]
      split
      · exact .refl h
      · exact h.send hready
    | getTransaction hash => exact h.read
    | _ => exact .refl h
  | _ => exact .refl h

end

/-- Questions that leave the world as it is. -/
def Ask.Idle : Ask → Bool
  | shuffled _ | sleep _ | loadAccount _ | build none _ | handOut none => true
  | await (.sendTransaction _) | await (.getTransaction _) => false
  | await _ => true
  | _ => false

section

variable {i : ι}

theorem ready_of_idle {q : Ask} (hq : q.Idle = true) {w : World ι} : Ready i w q := by
  cases q with
  | build source | handOut source =>
    cases source with
    | none => trivial
    | some l => cases hq
  | await q =>
    cases q with
    | sendTransaction => cases hq
    | _ => trivial
  | pipeline | memory => cases hq
  | _ => trivial

end

/-! ## Programs -/

section

variable [DecidableEq ι] {α β : Type} {i : ι} {P : World ι → Prop}
  {Q : Except Failure α → World ι → Prop}

/-- What a program keeps and ends with. -/
abbrev Spec (i : ι) (P : World ι → Prop) (p : Call α) (Q : Except Failure α → World ι → Prop) : Prop :=
  terms.Triple (Steps Timely) i P p Q

abbrev Stable (i : ι) (P : World ι → Prop) : Prop := terms.Stable i P

theorem spec_ask {q : Ask} {k : q.Answer → Call α} {N : q.Answer → World ι → Prop}
    (hP : Stable i P) (hready : ∀ w, Sound w → P w → Ready i w q)
    (hnext : ∀ w d, Sound w → P w → fair i d w q = true → Timely i w q (react i d w q).1 →
      N (react i d w q).1 (react i d w q).2)
    (hrest : ∀ a, Spec i (N a) (k a) Q) : Spec i P (.ask q k) Q := by
  refine .ask hP ?_ hrest
  intro w a w' hsound hw h
  obtain ⟨d, hfair, htimely, hreact⟩ := h
  obtain ⟨rfl, rfl⟩ := Prod.mk.inj hreact.symm
  have hfine := hsound.react (hready w hsound hw) hfair htimely
  have hend := hnext w d hsound hw hfair htimely
  exact ⟨hfine.1, hfine.2, hend⟩

theorem react_idle {q : Ask} (hq : q.Idle = true) {d : Chance} {w : World ι} :
    (react i d w q).2 = w := by
  cases q with
  | build source | handOut source =>
    cases source with
    | none => rfl
    | some l => cases hq
  | await q =>
    cases q with
    | sendTransaction | getTransaction => cases hq
    | _ => rfl
  | shuffled | sleep | loadAccount => rfl
  | _ => cases hq

theorem spec_idle {q : Ask} {k : q.Answer → Call α} (hq : q.Idle = true) (hP : Stable i P)
    (hrest : ∀ a, Spec i P (k a) Q) : Spec i P (.ask q k) Q := by
  refine spec_ask (N := fun _ => P) hP (fun w _ _ => ready_of_idle hq) ?_ hrest
  intro w d _ hw _ _
  rwa [react_idle hq]

/-- A program that asks only such questions. -/
theorem spec_asks_idle {p : Call α} (hp : p.Asks (·.Idle = true)) (hP : Stable i P) :
    Spec i P p fun _ => P := by
  induction p with
  | ret r => exact .ret hP fun _ _ => id
  | ask q k ih =>
    obtain ⟨hq, hk⟩ := asks_ask.mp hp
    exact spec_idle hq hP fun a => ih a (hk a)

/-! ### What a request knows -/

/-- The request has built nothing yet. -/
structure Fresh (i : ι) (w : World ι) : Prop where
  tx : w.tx i = none
  reads : w.reads i = 0

/-- On the way with a lease, or on the sponsor's own account: whether the transaction has left and
under which hash, and how often the ledger was asked for it. -/
structure Riding (i : ι) (l : Option ChannelLease) (sent : Bool) (hash : Option String) (n : ℕ)
    (w : World ι) : Prop where
  tx : (w.tx i).map (fun tx => (tx.lease, tx.sent, tx.hash)) = l.map (·, sent, hash)
  reads : w.reads i = n
  mine : ∀ l' ∈ l, Mine i (chanKey l'.publicKey) l'.token w

omit [DecidableEq ι]

theorem stable_mine {key token : String} : Stable i (Mine i key token) := by
  rintro w w' hrely - h
  obtain ⟨g, hg, heq⟩ := h.granted
  exact ⟨hrely.owner token h.owner, ⟨g, hrely.grants g hg, heq⟩, fun hrel => h.kept (hrely.released _ hrel)⟩

theorem stable_drawn {token : String} : Stable i (Drawn i token) := by
  rintro w w' hrely - h
  refine ⟨hrely.owner token h.owner, fun g hg heq => ?_, fun hrel => h.kept (hrely.released _ hrel)⟩
  exact h.unused g (hrely.fresh g hg (heq ▸ h.owner)) heq

theorem stable_fresh : Stable i (Fresh i) := by
  rintro w w' hrely - h
  refine ⟨?_, hrely.reads.trans h.reads⟩
  rcases hrely.tx with heq | ⟨tx, htx, -⟩
  · exact heq.trans h.tx
  · rw [h.tx] at htx
    cases htx

theorem stable_closed : Stable i (Closed i) := by
  rintro w w' hrely - h tx htx hopen
  rcases hrely.tx with heq | ⟨tx', htx', heq⟩
  · exact h tx (heq ▸ htx)
      ⟨hopen.sent, hopen.undecided, (Nat.div_le_div_right hrely.time).trans hopen.valid⟩
  · rw [heq] at htx
    cases htx
    cases hopen.undecided

theorem stable_reads {n : ℕ} : Stable i fun w => w.reads i = n :=
  fun _ _ hrely _ h => hrely.reads.trans h

theorem stable_riding {l : Option ChannelLease} {sent : Bool} {hash : Option String} {n : ℕ} :
    Stable i (Riding i l sent hash n) := by
  intro w w' hrely hinv h
  refine ⟨?_, hrely.reads.trans h.reads, fun l' hl' => stable_mine w w' hrely hinv (h.mine l' hl')⟩
  rcases hrely.tx with heq | ⟨tx, htx, heq⟩
  · rw [heq, h.tx]
  · rw [heq, ← h.tx, htx]
    rfl

theorem Riding.closed {l : Option ChannelLease} {hash : Option String} {n : ℕ} {w : World ι}
    (h : Riding i l false hash n w) : Closed i w := by
  intro tx htx hopen
  have heq := h.tx
  rw [htx, Option.map_some] at heq
  cases l with
  | none => cases heq
  | some l' =>
    have hsent : tx.sent = false := (Prod.mk.inj (Prod.mk.inj (Option.some.inj heq)).2).1
    exact Bool.false_ne_true (hsent.symm.trans hopen.sent)

end

/-! ### Stores -/

section

variable {i : ι} {key token : String} {w : World ι}

theorem mine_grant {ttlSeconds : ℕ} (h : Drawn i token w) :
    Mine i key token (w.grant key token ttlSeconds) :=
  ⟨h.owner, ⟨_, List.mem_append_right _ (List.mem_singleton_self _), rfl, rfl⟩, h.kept⟩

theorem Drawn.ready_setNx (h : Drawn i token w) :
    (LeaseCmd.setNx key token channelLeaseTtlSeconds).Ready i w := ⟨h, rfl⟩

theorem Drawn.ready_acquireAny {keys : List String} (h : Drawn i token w) :
    (LeaseCmd.acquireAny keys token channelLeaseTtlSeconds).Ready i w := ⟨h, rfl⟩

theorem fresh_exec {cmd : LeaseCmd} (h : Fresh i w) : Fresh i (w.exec i cmd).2 := by
  cases cmd with
  | setNx | acquireAny =>
    simp only [World.exec]
    split
    · exact h
    · exact ⟨h.tx, h.reads⟩
  | fencedDel =>
    simp only [World.exec]
    split <;> exact ⟨h.tx, h.reads⟩

variable [DecidableEq ι]

/-- A request that has asked for this key has the lease that it was told of. -/
def Acquired (i : ι) (key : String) (r : Except Failure (Option String)) (w : World ι) : Prop :=
  Fresh i w ∧ ∀ token, r = .ok (some token) → Mine i key token w

/-- The same of one out of several keys. -/
def AcquiredAny (i : ι) (keys : List String) (r : Except Failure (Option (ℕ × String)))
    (w : World ι) : Prop :=
  Fresh i w ∧ ∀ n token, r = .ok (some (n, token)) → ∃ key, keys[n]? = some key ∧ Mine i key token w

/-- What a request may expect of a store of leases. -/
structure LeaseStore.Keeps (ι : Type) [DecidableEq ι] (s : LeaseStore) : Prop where
  acquire : ∀ (i : ι) key, Spec i (Fresh i) (s.acquire key channelLeaseTtlSeconds) (Acquired i key)
  acquireAny : ∀ f, s.acquireAny = some f → ∀ (i : ι) keys,
    Spec i (Fresh i) (f keys channelLeaseTtlSeconds) (AcquiredAny i keys)
  release : ∀ (i : ι) key token, Spec i
    (fun w => Mine i key token w ∧ (w.reads i = 41 ∨ Closed i w)) (s.release key token)
    fun _ _ => True

theorem spec_randomUUID {α : Type} {k : String → Call α} {Q : Except Failure α → World ι → Prop}
    (hrest : ∀ token, Spec i (fun w => Fresh i w ∧ Drawn i token w) (k token) Q) :
    Spec i (Fresh i) (.ask .randomUUID k) Q := by
  refine spec_ask (N := fun token w => Fresh i w ∧ Drawn i token w) stable_fresh
    (fun _ _ _ => trivial) (fun w d hsound hw hfair _ => ⟨⟨hw.tx, hw.reads⟩, ?_⟩) hrest
  have hnew : w.owner d.text = none := by simpa [fair] using hfair
  have hunowned : ∀ j, w.owner d.text ≠ some j := fun j => by simp [hnew]
  refine ⟨Function.update_self .., fun g hg heq => ?_, fun hrel => ?_⟩
  · obtain ⟨j, hj⟩ := hsound.drawn g hg
    rw [show g.token = d.text from heq] at hj
    exact hunowned j hj
  · exact hunowned i (hsound.mine i d.text hrel)

/-- What a command that takes a lease has found. -/
def LeaseCmd.Took (i : ι) (result : Result) (w : World ι) : LeaseCmd → Prop
  | .setNx key token _ => result = .str "OK" → Mine i key token w
  | .acquireAny keys token _ =>
    ∀ n, placeOf keys (some result) = some n → ∃ key, keys[n]? = some key ∧ Mine i key token w
  | .fencedDel .. => False

def LeaseCmd.isTake : LeaseCmd → Bool
  | .setNx .. | .acquireAny .. => true
  | .fencedDel .. => false

omit [DecidableEq ι] in
theorem stable_acquired {r : Except Failure (Option String)} : Stable i (Acquired i key r) := by
  rintro w w' hrely hinv ⟨hfresh, h⟩
  exact ⟨stable_fresh w w' hrely hinv hfresh, fun token hr =>
    stable_mine w w' hrely hinv (h token hr)⟩

omit [DecidableEq ι] in
theorem stable_acquiredAny {keys : List String} {r : Except Failure (Option (ℕ × String))} :
    Stable i (AcquiredAny i keys r) := by
  rintro w w' hrely hinv ⟨hfresh, h⟩
  refine ⟨stable_fresh w w' hrely hinv hfresh, fun n token hr => ?_⟩
  obtain ⟨key, hkey, hmine⟩ := h n token hr
  exact ⟨key, hkey, stable_mine w w' hrely hinv hmine⟩

omit [DecidableEq ι] in
theorem took_exec {cmd : LeaseCmd} (htake : cmd.isTake = true) (hready : cmd.Ready i w) :
    cmd.Took i (w.exec i cmd).1 (w.exec i cmd).2 := by
  cases cmd with
  | setNx key token ttlSeconds =>
    intro hok
    cases hfree : w.holder key with
    | none => simpa [World.exec, hfree] using mine_grant hready.1
    | some held => simp [World.exec, hfree] at hok
  | acquireAny keys token ttlSeconds =>
    intro n hn
    cases hfind : keys.findIdx? fun key => (w.holder key).isNone with
    | none => simp [World.exec, hfind, placeOf] at hn
    | some m =>
      obtain ⟨hm, -, -⟩ := List.findIdx?_eq_some_iff_getElem.mp hfind
      have hnm : n = m := by
        simp only [World.exec, hfind, placeOf] at hn
        split at hn
        · have := Option.some.inj hn
          omega
        · cases hn
      subst hnm
      refine ⟨keys[n], List.getElem?_eq_getElem hm, ?_⟩
      have hkey : keys.getD n "" = keys[n] := by simp [List.getD_eq_getElem?_getD, hm]
      simp only [World.exec, hfind, hkey]
      exact mine_grant hready.1
  | fencedDel => cases htake

omit [DecidableEq ι] in
theorem stable_took {cmd : LeaseCmd} {result : Result} : Stable i fun w => cmd.Took i result w := by
  intro w w' hrely hinv h
  cases cmd with
  | setNx => exact fun hok => stable_mine w w' hrely hinv (h hok)
  | acquireAny =>
    intro n hn
    obtain ⟨key, hkey, hmine⟩ := h n hn
    exact ⟨key, hkey, stable_mine w w' hrely hinv hmine⟩
  | fencedDel => exact h

/-- A command that takes a lease, through the pipeline. -/
theorem spec_pipeline_take {cmd : LeaseCmd} (htake : cmd.isTake = true)
    (hready : ∀ w : World ι, Drawn i token w → cmd.Ready i w) :
    Spec i (fun w => Fresh i w ∧ Drawn i token w) (pipeline cmd) fun r w =>
      Fresh i w ∧ ∀ result, r = .ok (some result) → cmd.Took i result w := by
  rw [pipeline, question_bind]
  refine spec_ask (N := fun a w => Fresh i w ∧ ∀ first rest, a = .ok (first :: rest) →
      first.failed = false → ∀ result, first.result = some result → cmd.Took i result w)
    (stable_fresh.and stable_drawn) (fun w _ hw => hready w hw.2) ?_ fun a => ?_
  · rintro w d - ⟨hfresh, hdrawn⟩ hfair -
    refine ⟨?_, fun first rest ha hfine result hresult => ?_⟩
    · rw [react]
      split
      · exact fresh_exec hfresh
      · exact hfresh
    · simp only [fair, Bool.and_eq_true, Option.all_eq_true] at hfair
      obtain ⟨hexecuted, hbad⟩ := hfair
      simp only [react, Chance.replies] at ha ⊢
      cases hfailure : d.failure with
      | some message => simp [hfailure] at ha
      | none =>
        cases hgarbled : d.garbled with
        | some replies =>
          obtain rfl : replies = first :: rest := by simpa [hfailure, hgarbled] using ha
          have hfailed := hbad _ hgarbled
          rw [Chance.bad, hfine] at hfailed
          cases hfailed
        | none =>
          have hdone : d.executed = true := by simpa [hfailure, hgarbled] using hexecuted
          obtain ⟨rfl, -⟩ : KvReply.of (w.exec i cmd).1 = first ∧ [] = rest := by
            simpa [hfailure, hgarbled] using ha
          obtain rfl := Option.some.inj hresult
          rw [if_pos hdone]
          exact took_exec htake (hready w hdrawn)
  · have hstable : Stable i fun w => Fresh i w ∧ ∀ first rest, a = .ok (first :: rest) →
        first.failed = false → ∀ result, first.result = some result → cmd.Took i result w := by
      rintro w w' hrely hinv ⟨hfresh, h⟩
      exact ⟨stable_fresh w w' hrely hinv hfresh, fun first rest ha hfine result hresult =>
        stable_took w w' hrely hinv (h first rest ha hfine result hresult)⟩
    match a with
    | .error message => exact .ret hstable fun w _ hw => ⟨hw.1, nofun⟩
    | .ok [] => exact .ret hstable fun w _ hw => ⟨hw.1, nofun⟩
    | .ok (first :: rest) =>
      dsimp only
      split
      · exact .ret hstable fun w _ hw => ⟨hw.1, nofun⟩
      · next hfine =>
        refine .ret hstable fun w _ hw => ⟨hw.1, fun result hresult => ?_⟩
        exact hw.2 first rest rfl (by simpa using hfine) result (Except.ok.inj hresult)

theorem spec_memory_take {α : Type} {cmd : LeaseCmd} (htake : cmd.isTake = true)
    (hready : ∀ w : World ι, Drawn i token w → cmd.Ready i w) {k : Result → Call α}
    {Q : Except Failure α → World ι → Prop}
    (hrest : ∀ result, Spec i (fun w => Fresh i w ∧ cmd.Took i result w) (k result) Q) :
    Spec i (fun w => Fresh i w ∧ Drawn i token w) (.ask (.memory cmd) k) Q :=
  spec_ask (N := fun result w => Fresh i w ∧ cmd.Took i result w) (stable_fresh.and stable_drawn)
    (fun w _ hw => hready w hw.2)
    (fun w _ _ hw _ _ => ⟨fresh_exec hw.1, took_exec htake (hready w hw.2)⟩) hrest

/-- A release that no answer is needed for. -/
theorem spec_release {α : Type} {q : Ask} {k : q.Answer → Call α}
    (hq : q = .pipeline (.fencedDel key token) ∨ q = .memory (.fencedDel key token))
    (hrest : ∀ a, Spec i (fun _ => True) (k a) fun _ _ => True) :
    Spec i (fun w => Mine i key token w ∧ (w.reads i = 41 ∨ Closed i w)) (.ask q k)
      fun _ _ => True := by
  refine spec_ask (N := fun _ _ => True) ?_ ?_ (fun _ _ _ _ _ _ => trivial) hrest
  · apply stable_mine.and
    rintro w w' hrely hinv (hreads | hclosed)
    · exact .inl (stable_reads w w' hrely hinv hreads)
    · exact .inr (stable_closed w w' hrely hinv hclosed)
  · rintro w - ⟨hmine, hend⟩
    rcases hq with rfl | rfl <;> exact ⟨hmine.owner, hend⟩

omit [DecidableEq ι] in
theorem stable_taken {cmd : LeaseCmd} {r : Except Failure (Option Result)} :
    Stable i fun w => Fresh i w ∧ ∀ result, r = .ok (some result) → cmd.Took i result w := by
  rintro w w' hrely hinv ⟨hfresh, h⟩
  exact ⟨stable_fresh w w' hrely hinv hfresh, fun result hr =>
    stable_took w w' hrely hinv (h result hr)⟩

theorem redisLeaseStore_keeps : redisLeaseStore.Keeps ι where
  acquire i key := by
    refine spec_randomUUID fun token => (spec_pipeline_take rfl fun _ => Drawn.ready_setNx).bind
      (fun result => ?_) (fun _ => stable_taken) fun e w _ hw => ⟨hw.1, nofun⟩
    refine .ret stable_taken fun w _ hw => ⟨hw.1, fun token' htoken' => ?_⟩
    split at htoken'
    · next hok =>
      obtain rfl := Option.some.inj (Except.ok.inj htoken')
      exact hw.2 (.str "OK") (congrArg _ hok) rfl
    · cases htoken'
  acquireAny := by
    intro f hf i keys
    cases hf
    refine spec_randomUUID fun token => (spec_pipeline_take rfl fun _ => Drawn.ready_acquireAny).bind
      (fun result => ?_) (fun _ => stable_taken) fun e w _ hw => ⟨hw.1, nofun⟩
    refine .ret stable_taken fun w _ hw => ⟨hw.1, fun n token' hplace => ?_⟩
    obtain ⟨n', hn', heq⟩ := Option.map_eq_some_iff.mp (Except.ok.inj hplace)
    obtain ⟨rfl, rfl⟩ := Prod.mk.inj heq
    cases result with
    | none => cases hn'
    | some result => exact hw.2 result rfl n' hn'
  release i key token := by
    have htrue : Stable i fun _ : World ι => True := fun _ _ _ _ => id
    have hpipeline : Spec i (fun w => Mine i key token w ∧ (w.reads i = 41 ∨ Closed i w))
        (pipeline (.fencedDel key token)) fun _ _ => True := by
      rw [pipeline, question_bind]
      apply spec_release (.inl rfl)
      intro a
      match a with
      | .error message => exact .ret htrue fun _ _ => id
      | .ok [] => exact .ret htrue fun _ _ => id
      | .ok (first :: rest) =>
        dsimp only
        split <;> exact .ret htrue fun _ _ => id
    exact hpipeline.attempt (fun _ => htrue) fun _ => .ret htrue fun _ _ => id

theorem memoryAcquire_keeps :
    Spec i (Fresh i) (memoryAcquire key channelLeaseTtlSeconds) (Acquired i key) := by
  apply spec_randomUUID
  intro token
  apply spec_memory_take rfl (fun _ => Drawn.ready_setNx)
  intro result
  refine .ret (stable_fresh.and stable_took) fun w _ hw => ⟨hw.1, fun token' htoken' => ?_⟩
  split at htoken'
  · next hok =>
    obtain rfl := Option.some.inj (Except.ok.inj htoken')
    exact hw.2 hok
  · cases htoken'

theorem memoryAcquireAny_keeps {keys : List String} {index : ℕ} :
    Spec i (Fresh i) (memoryAcquireAny channelLeaseTtlSeconds keys index) fun r w => Fresh i w ∧
      ∀ n token, r = .ok (some (n, token)) →
        ∃ m key, n = index + m ∧ keys[m]? = some key ∧ Mine i key token w := by
  induction keys generalizing index with
  | nil => exact .ret stable_fresh fun w _ hw => ⟨hw, nofun⟩
  | cons key rest ih =>
    rw [memoryAcquireAny]
    refine memoryAcquire_keeps.bind (fun found => ?_) (fun e => stable_acquired)
      fun e w _ hw => ⟨hw.1, nofun⟩
    cases found with
    | some token =>
      refine .ret stable_acquired fun w _ hw => ⟨hw.1, fun n token' heq => ?_⟩
      obtain ⟨rfl, rfl⟩ := Prod.mk.inj (Option.some.inj (Except.ok.inj heq))
      exact ⟨0, key, rfl, rfl, hw.2 token rfl⟩
    | none =>
      refine (ih.weaken fun w _ hw => hw.1).mono fun r w _ hw => ⟨hw.1, fun n token heq => ?_⟩
      obtain ⟨m, key', rfl, hkey', hmine⟩ := hw.2 n token heq
      exact ⟨m + 1, key', by omega, hkey', hmine⟩

theorem memoryLeaseStore_keeps : memoryLeaseStore.Keeps ι where
  acquire i key := memoryAcquire_keeps
  acquireAny := by
    intro f hf i keys
    cases hf
    refine memoryAcquireAny_keeps.mono fun r w _ hw => ⟨hw.1, fun n token heq => ?_⟩
    obtain ⟨m, key, rfl, hkey, hmine⟩ := hw.2 n token heq
    exact ⟨key, by rwa [Nat.zero_add], hmine⟩
  release i key token := spec_release (.inr rfl) fun a => .ret (fun _ _ _ _ => id) fun _ _ => id

/-! ### The pool -/

/-- What a search for a lease ends with. -/
def Leased (i : ι) (l : Option ChannelLease) (w : World ι) : Prop :=
  Fresh i w ∧ ∀ l' ∈ l, Mine i (chanKey l'.publicKey) l'.token w

omit [DecidableEq ι] in
theorem stable_leased {l : Option ChannelLease} : Stable i (Leased i l) := by
  rintro w w' hrely hinv ⟨hfresh, h⟩
  exact ⟨stable_fresh w w' hrely hinv hfresh, fun l' hl' => stable_mine w w' hrely hinv (h l' hl')⟩

/-- What a probe ends with: where it has ended the search, with its lease. -/
def Probed (i : ι) (r : Except Failure (Option ChannelLease ⊕ ℕ)) (w : World ι) : Prop :=
  match r with
  | .ok (.inl l) => Leased i l w
  | _ => Fresh i w

variable {m : ChannelManager} {opts : LeaseOptions}

omit [DecidableEq ι] in
theorem stable_probed {r : Except Failure (Option ChannelLease ⊕ ℕ)} : Stable i (Probed i r) := by
  match r with
  | .ok (.inl l) => exact stable_leased
  | .ok (.inr probes) => exact stable_fresh
  | .error e => exact stable_fresh

theorem probeEach_keeps (hstore : m.store.Keeps ι) {order : List (Fin m.keypairs.length)} {probes : ℕ} :
    Spec i (Fresh i) (probeEach m opts order probes) (Probed i) := by
  induction order generalizing probes with
  | nil => exact .ret stable_fresh fun w _ hw => hw
  | cons idx rest ih =>
    rw [probeEach]
    split
    · exact .ret stable_fresh fun w _ hw => hw
    · have hacquire := hstore.acquire i (chanKey (m.keypairs.get idx))
      apply hacquire.attempt (fun _ => stable_acquired)
      intro found
      match found with
      | .error e => exact .ret stable_acquired fun w _ hw => ⟨hw.1, nofun⟩
      | .ok none => exact ih.weaken fun w _ hw => hw.1
      | .ok (some token) =>
        refine .ret stable_acquired fun w _ hw => ⟨hw.1, fun l hl => ?_⟩
        obtain rfl := Option.mem_some.mp hl
        exact hw.2 token rfl

theorem probeAny_keeps (hstore : m.store.Keeps ι)
    {acquireAny : List String → ℕ → Call (Option (ℕ × String))}
    (hany : m.store.acquireAny = some acquireAny) {order : List (Fin m.keypairs.length)} {probes : ℕ} :
    Spec i (Fresh i) (probeAny m acquireAny order probes) (Probed i) := by
  refine (hstore.acquireAny acquireAny hany i _).attempt (fun _ => stable_acquiredAny) fun found => ?_
  match found with
  | .error e => exact .ret stable_acquiredAny fun w _ hw => ⟨hw.1, nofun⟩
  | .ok none => exact .ret stable_acquiredAny fun w _ hw => hw.1
  | .ok (some (n, token)) =>
    dsimp only
    cases hn : order[n]? with
    | none => exact .ret stable_acquiredAny fun w _ hw => hw.1
    | some idx =>
      refine .ret stable_acquiredAny fun w _ hw => ⟨hw.1, fun l hl => ?_⟩
      obtain rfl := Option.mem_some.mp hl
      obtain ⟨key, hkey, hmine⟩ := hw.2 n token rfl
      rw [List.getElem?_map, hn, Option.map_some] at hkey
      exact Option.some.inj hkey ▸ hmine

theorem attempt_keeps (hstore : m.store.Keeps ι) {left probes : ℕ} :
    Spec i (Fresh i) (attempt m opts left probes) fun r w => ∀ l, r = .ok l → Leased i l w := by
  induction left generalizing probes with
  | zero => exact .ret stable_fresh fun w _ hw l hl => Except.ok.inj hl ▸ ⟨hw, nofun⟩
  | succ left ih =>
    rw [attempt]
    split
    · exact .ret stable_fresh fun w _ hw l hl => Except.ok.inj hl ▸ ⟨hw, nofun⟩
    · apply spec_idle rfl stable_fresh
      intro order
      have hprobe : Spec i (Fresh i) (probe m opts order probes) (Probed i) := by
        unfold probe
        split
        · next hany => exact probeAny_keeps hstore hany
        · exact probeEach_keeps hstore
      refine hprobe.bind (fun found => ?_) (fun _ => stable_probed) fun e w _ _ => nofun
      match found with
      | .inl l => exact .ret stable_probed fun w _ hw l' hl' => Except.ok.inj hl' ▸ hw
      | .inr probes =>
        dsimp only
        split
        · exact spec_idle rfl stable_probed fun _ => ih
        · exact ih

theorem leaseOf_keeps {channels : Option ChannelManager} (hstore : ∀ m ∈ channels, m.store.Keeps ι) :
    Spec i (Fresh i) (leaseOf channels) fun r w => ∀ l, r = .ok l → Leased i l w := by
  cases channels with
  | none => exact .ret stable_fresh fun w _ hw l hl => Except.ok.inj hl ▸ ⟨hw, nofun⟩
  | some m =>
    unfold leaseOf lease
    dsimp only
    split
    · exact .ret stable_fresh fun w _ hw l hl => Except.ok.inj hl ▸ ⟨hw, nofun⟩
    · exact attempt_keeps (hstore m rfl)

end

/-! ### Relays -/

section

variable [DecidableEq ι] {i : ι} {l : Option ChannelLease} {α β : Type}

theorem relay_bind {p : Route α} {f : α → Route β} : relay (p >>= f) = relay p >>= fun a => relay (f a) :=
  relabel_bind

/-- What a relay ends with before it releases its lease. -/
def RelayEnds (i : ι) (l : Option ChannelLease) (r : Except Failure Watched) (w : World ι) : Prop :=
  (∀ l' ∈ l, Mine i (chanKey l'.publicKey) l'.token w) ∧
    (keepsLease r = false → w.reads i = 41 ∨ Closed i w)

/-- What one read of a poll ends with. -/
def ReadEnds (i : ι) (l : Option ChannelLease) (hash : Option String) (n : ℕ)
    (a : Except Thrown Polled) (w : World ι) : Prop :=
  Riding i l true hash (n + 1) w ∧
    match a with
    | .error t => ∃ message, t.readMessage = .ok message
    | .ok got => got.status ≠ .other ∧ (got.isIncluded = true → Closed i w)

/-- What a send ends with. -/
def SendEnds (i : ι) (l : Option ChannelLease) (tx : Payable) (a : Except Thrown Sent) (w : World ι) :
    Prop :=
  if refusesSend a then Riding i l false none 0 w
  else
    Riding i l true tx.hash 0 w ∧
      match a with
      | .error t => ∃ line, describeThrow t = .ok line
      | .ok sent => sent.hash = tx.hash

/-- What a poll ends with. -/
def PollEnds (i : ι) (l : Option ChannelLease) (r : Except Failure (Polled × Bool)) (w : World ι) :
    Prop :=
  (∀ l' ∈ l, Mine i (chanKey l'.publicKey) l'.token w) ∧
    match r with
    | .ok (got, cut) => got.status ≠ .other ∧ (got.isIncluded = true → Closed i w) ∧
        (got.status = .NOT_FOUND → cut = false → w.reads i = 41)
    | .error e => e.isSubmitUnconfirmed = true

omit [DecidableEq ι] in
theorem stable_leases : Stable i fun w => ∀ l' ∈ l, Mine i (chanKey l'.publicKey) l'.token w :=
  fun w w' hrely hinv h l' hl' => stable_mine w w' hrely hinv (h l' hl')

omit [DecidableEq ι] in
theorem stable_relayEnds {r : Except Failure Watched} : Stable i (RelayEnds i l r) := by
  refine stable_leases.and fun w w' hrely hinv h hkeeps => (h hkeeps).imp ?_ ?_
  · exact stable_reads w w' hrely hinv
  · exact stable_closed w w' hrely hinv

omit [DecidableEq ι] in
theorem stable_readEnds {hash : Option String} {n : ℕ} {a : Except Thrown Polled} :
    Stable i (ReadEnds i l hash n a) := by
  apply stable_riding.and
  intro w w' hrely hinv h
  match a, h with
  | .error t, h => exact h
  | .ok got, ⟨hother, hclosed⟩ =>
    exact ⟨hother, fun hin => stable_closed w w' hrely hinv (hclosed hin)⟩

section

variable {tx : Payable} {a : Except Thrown Sent} {w : World ι}

omit [DecidableEq ι] in
theorem SendEnds.refused (h : SendEnds i l tx a w) (ha : refusesSend a = true) :
    Riding i l false none 0 w := by
  unfold SendEnds at h
  rwa [if_pos ha] at h

omit [DecidableEq ι] in
theorem SendEnds.sent {sent : Sent} (h : SendEnds i l tx (.ok sent) w)
    (ha : ¬refusesSend (.ok sent) = true) : Riding i l true sent.hash 0 w := by
  rw [SendEnds, if_neg ha] at h
  obtain ⟨hriding, hhash⟩ := h
  rwa [← hhash] at hriding

end

omit [DecidableEq ι] in
theorem stable_sendEnds {tx : Payable} {a : Except Thrown Sent} : Stable i (SendEnds i l tx a) := by
  unfold SendEnds
  split
  · exact stable_riding
  · exact stable_riding.and fun _ _ _ _ => id

omit [DecidableEq ι] in
theorem stable_pollEnds {r : Except Failure (Polled × Bool)} : Stable i (PollEnds i l r) := by
  apply stable_leases.and
  intro w w' hrely hinv h
  match r, h with
  | .ok (got, cut), ⟨hother, hincluded, hreads⟩ =>
    exact ⟨hother, fun hin => stable_closed w w' hrely hinv (hincluded hin),
      fun hnot hcut => hrely.reads.trans (hreads hnot hcut)⟩
  | .error e, h => exact h

theorem Riding.read {hash : Option String} {n : ℕ} {w : World ι} (h : Riding i l true hash n w) :
    Riding i l true hash (n + 1) (w.read i) where
  tx := h.tx
  reads := by simp [World.read, h.reads]
  mine := fun l' hl' => ⟨(h.mine l' hl').owner, (h.mine l' hl').granted, (h.mine l' hl').kept⟩

theorem Riding.send {hash : Option String} {n : ℕ} {w : World ι} (h : Riding i l false none n w) :
    Riding i l true hash n (w.send i hash) where
  tx := by
    have htx := h.tx
    cases hi : w.tx i with
    | none =>
      rw [hi] at htx
      cases l with
      | none => simp [World.send, hi]
      | some l' => cases htx
    | some tx =>
      rw [hi] at htx
      cases l with
      | none => cases htx
      | some l' =>
        obtain ⟨rfl, -⟩ := Prod.mk.inj (Option.some.inj htx)
        simp [World.send, hi]
  reads := h.reads
  mine := fun l' hl' => ⟨(h.mine l' hl').owner, (h.mine l' hl').granted, (h.mine l' hl').kept⟩

omit [DecidableEq ι] in
theorem Riding.kept {sent : Bool} {hash : Option String} {n : ℕ} {w : World ι}
    (h : Riding i l sent hash n w) {tx : Tx} (htx : w.tx i = some tx) : (i, tx.lease.token) ∉ w.released := by
  have heq := h.tx
  rw [htx] at heq
  cases l with
  | none => cases heq
  | some l' =>
    obtain ⟨rfl, -⟩ := Prod.mk.inj (Option.some.inj heq)
    exact (h.mine _ rfl).kept

omit [DecidableEq ι] in
theorem Riding.closed_of_included {hash : Option String} {n : ℕ} {w : World ι}
    (h : Riding i l true hash n w)
    (hincluded : ((w.tx i).all fun tx => tx.hash ≠ hash || tx.included) = true) : Closed i w := by
  intro tx htx hopen
  have heq := h.tx
  rw [htx] at heq
  cases l with
  | none => cases heq
  | some l' =>
    have hhash : tx.hash = hash := (Prod.mk.inj (Prod.mk.inj (Option.some.inj heq)).2).2
    rw [htx, Option.all_some, hopen.undecided, hhash] at hincluded
    simp at hincluded

theorem pollReads_keeps {hash : Option String} {reserve : ℤ} {reads n : ℕ} {isFirst : Bool}
    {got : Polled} (hgot : got.status = .NOT_FOUND) (hn : n + reads = 41) :
    Spec i (Riding i l true hash n) (relay (pollReads hash reserve reads isFirst got))
      (PollEnds i l) := by
  induction reads generalizing n isFirst got with
  | zero =>
    refine .ret stable_riding fun w _ hw => ⟨hw.mine, by simp [hgot], by simp [Polled.isIncluded, hgot], ?_⟩
    exact fun _ _ => hw.reads.trans hn
  | succ reads ih =>
    have hread (k : Except Thrown Polled → Route (Polled × Bool))
        (hthrown : ∀ t, k (.error t) = throw (pollFailure hash t))
        (hgot : ∀ got, k (.ok got) = if got.status ≠ .NOT_FOUND then return (got, false)
          else pollReads hash reserve reads false got) :
        Spec i (Riding i l true hash n) (.ask (.await (.getTransaction hash)) fun a => relay (k a))
          (PollEnds i l) := by
      refine spec_ask (N := ReadEnds i l hash n) stable_riding (fun _ _ _ => trivial) ?_ fun a => ?_
      · intro w d _ hw hfair htimely
        refine ⟨hw.read, ?_⟩
        simp only [fair] at hfair
        simp only [react] at htimely ⊢
        cases hanswer : d.await (.getTransaction hash) with
        | error t =>
          rw [hanswer] at htimely
          exact htimely
        | ok got =>
          simp only [hanswer, Bool.and_eq_true, decide_eq_true_eq] at hfair
          refine ⟨hfair.1, fun hin => ?_⟩
          apply Riding.closed_of_included (w := w.read i) hw.read
          rw [hin, Bool.not_true, Bool.false_or] at hfair
          exact hfair.2
      · cases a with
        | error t =>
          rw [hthrown]
          refine .ret stable_readEnds fun w _ hw => ⟨hw.1.mine, ?_⟩
          obtain ⟨message, hmessage⟩ := hw.2
          change (pollFailure hash t).isSubmitUnconfirmed = true
          rw [pollFailure, hmessage]
          rfl
        | ok got =>
          rw [hgot]
          split
          · next hfound =>
            exact .ret stable_readEnds fun w _ hw => ⟨hw.1.mine, hw.2.1, hw.2.2, fun hnot => absurd hnot hfound⟩
          · next hnot =>
            exact (ih (not_not.mp hnot) (by omega)).weaken fun w _ hw => hw.1
    rw [pollReads, question_bind]
    apply spec_idle rfl stable_riding
    intro left
    change Spec i _ (relay (if left < 1 + reserve then _ else _)) _
    split
    · exact .ret stable_riding fun w _ hw => ⟨hw.mine, by simp [hgot], by simp [Polled.isIncluded, hgot],
        fun _ hcut => absurd hcut (by simp)⟩
    · unfold pauseUnless
      split
      · exact hread _ (fun _ => rfl) fun _ => rfl
      · exact spec_idle rfl stable_riding fun _ => hread _ (fun _ => rfl) fun _ => rfl

theorem watch_keeps {sent : Sent} {window : Window} (hwindow : window.maxPolls = 40) :
    Spec i (Riding i l true sent.hash 0) (relay (watch sent window)) (RelayEnds i l) := by
  unfold watch pollUntilDecided
  rw [relay_bind]
  refine (pollReads_keeps rfl (by rw [hwindow])).bind (fun r => ?_) (fun _ => stable_pollEnds) ?_
  · obtain ⟨got, cut⟩ := r
    have hends {w : World ι} (hw : PollEnds i l (.ok (got, cut)) w) :
        RelayEnds i l (.ok ⟨sent.hash, got, cut⟩) w := by
      refine ⟨hw.1, fun hkeeps => ?_⟩
      obtain ⟨hother, hincluded, hreads⟩ := hw.2
      cases hstatus : got.status with
      | SUCCESS | FAILED => exact .inr (hincluded (by simp [Polled.isIncluded, hstatus]))
      | NOT_FOUND => exact .inl (hreads hstatus (by simpa [keepsLease, hstatus] using hkeeps))
      | other => exact absurd hstatus hother
    dsimp only
    split
    · exact spec_idle rfl stable_pollEnds fun _ => .ret stable_pollEnds fun w _ hw => hends hw
    · exact .ret stable_pollEnds fun w _ hw => hends hw
  · intro e w _ hw
    exact ⟨hw.1, fun hkeeps => absurd (hw.2.symm.trans hkeeps) (by decide)⟩

theorem sendAnswered_keeps {tx : Payable} {label : String} {window : Window}
    (hwindow : window.maxPolls = 40) {sent : Sent} :
    Spec i (SendEnds i l tx (.ok sent)) (relay (sendAnswered label window sent)) (RelayEnds i l) := by
  unfold sendAnswered
  cases hstatus : sent.status with
  | ERROR | TRY_AGAIN_LATER =>
    have hrefused : refusesSend (.ok sent) = true := by simp [refusesSend, hstatus]
    refine Terms.Triple.weaken ?_ fun w _ hw => hw.refused hrefused
    exact spec_idle rfl stable_riding fun _ =>
      .ret stable_riding fun w _ hw => ⟨hw.mine, fun _ => .inr hw.closed⟩
  | PENDING | DUPLICATE | other =>
    have hsent : ¬refusesSend (.ok sent) = true := by simp [refusesSend, hstatus]
    exact (watch_keeps hwindow).weaken fun w _ hw => hw.sent hsent

theorem sendThrew_keeps {tx : Payable} {label hash : String} {t : Thrown} :
    Spec i (SendEnds i l tx (.error t)) (relay (sendThrew label hash t)) (RelayEnds i l) := by
  have hstable : Stable i (SendEnds i l tx (.error t)) := stable_sendEnds
  unfold sendThrew
  split
  · next hrefused =>
    refine spec_idle rfl hstable fun _ => .ret hstable fun w _ hw => ?_
    have hriding := hw.refused hrefused
    exact ⟨hriding.mine, fun _ => .inr hriding.closed⟩
  · next hsent =>
    refine .ret hstable fun w _ hw => ?_
    rw [SendEnds, if_neg (show ¬refusesSend (.error t) = true from hsent)] at hw
    obtain ⟨hriding, line, hline⟩ := hw
    -- The send may have reached the network: the error says so, and the lease is kept.
    refine ⟨hriding.mine, fun hkeeps => ?_⟩
    rw [hline] at hkeeps
    cases hkeeps

theorem sendSigned_keeps {tx : Payable} {label : String} {window : Window}
    (hwindow : window.maxPolls = 40) :
    Spec i (Riding i l false none 0) (relay (sendSigned tx label window)) (RelayEnds i l) := by
  unfold sendSigned
  split
  · exact .ret stable_riding fun w _ hw => ⟨hw.mine, fun _ => .inr hw.closed⟩
  · rw [question_bind]
    refine spec_ask (N := SendEnds i l tx) stable_riding (fun w _ hw tx htx => hw.kept htx) ?_
      fun a => ?_
    · intro w d _ hw hfair htimely
      simp only [fair] at hfair
      simp only [react] at htimely ⊢
      cases hanswer : d.await (.sendTransaction tx) with
      | error t =>
        rw [hanswer] at htimely
        unfold SendEnds
        split
        · exact hw
        · next hsent => exact ⟨hw.send, htimely (Bool.eq_false_iff.mpr hsent)⟩
      | ok sent =>
        rw [hanswer] at hfair
        unfold SendEnds
        split
        · exact hw
        · next hsent =>
          have hhash : sent.hash = tx.hash := by simpa [hsent] using hfair
          exact ⟨hw.send, hhash⟩
    · cases a with
      | error t => exact sendThrew_keeps
      | ok sent => exact sendAnswered_keeps hwindow

theorem payAndSubmit_keeps {tx : Payable} {label : String} {window : Window}
    (hwindow : window.maxPolls = 40) :
    Spec i (Riding i l false none 0) (relay (payAndSubmit tx label window)) (RelayEnds i l) := by
  have hunsent {r : Except Failure Watched} {w : World ι} (hw : Riding i l false none 0 w) :
      RelayEnds i l r w := ⟨hw.mine, fun _ => .inr hw.closed⟩
  rw [payAndSubmit, question_bind]
  apply spec_idle rfl stable_riding
  intro charged
  match charged with
  | .error e => exact .ret stable_riding fun w _ hw => hunsent hw
  | .ok charge =>
    change Spec i _ (relay (signCharged tx >>= fun _ => sendSigned tx label window)) _
    rw [signCharged, question_bind]
    apply spec_idle rfl stable_riding
    intro signed
    match signed with
    | .ok () => exact sendSigned_keeps hwindow
    | .error t =>
      exact spec_idle rfl stable_riding fun _ => .ret stable_riding fun w _ hw => hunsent hw

theorem relayAttempt_keeps {cfg : SponsorConfig} {r : Relay} (hwindow : r.window.maxPolls = 40)
    (htimeout : r.timeoutSeconds ≤ channelLeaseTtlSeconds) :
    Spec i (Leased i l) (relayAttempt cfg r l) (RelayEnds i l) := by
  have hnew {r : Except Failure Watched} {w : World ι} (hw : Leased i l w) : RelayEnds i l r w :=
    ⟨hw.2, fun _ => .inr fun tx htx => absurd (hw.1.tx.symm.trans htx) nofun⟩
  rw [relayAttempt, question_bind]
  apply spec_idle rfl stable_leased
  intro loaded
  match loaded with
  | .error t => exact .ret stable_leased fun w _ hw => hnew hw
  | .ok () =>
    change Spec i _ (.ask (.build l r.timeoutSeconds) _) _
    refine spec_ask (N := fun _ => Riding i l false none 0) stable_leased ?_ ?_ fun _ => ?_
    · rintro w - hw
      cases l with
      | none => trivial
      | some l' => exact ⟨hw.1.tx, hw.2 l' rfl, htimeout⟩
    · rintro w d - ⟨hfresh, hmine⟩ - -
      cases l with
      | none => exact ⟨by simp [react, hfresh.tx], hfresh.reads, nofun⟩
      | some l' =>
        refine ⟨by simp [react, World.build], hfresh.reads, fun l'' hl'' => ?_⟩
        exact ⟨(hmine l'' hl'').owner, (hmine l'' hl'').granted, (hmine l'' hl'').kept⟩
    · have hunsent {r : Except Failure Watched} {w : World ι} (hw : Riding i l false none 0 w) :
          RelayEnds i l r w := ⟨hw.mine, fun _ => .inr hw.closed⟩
      apply spec_idle rfl stable_riding
      intro simulated
      match simulated with
      | .error t => exact .ret stable_riding fun w _ hw => hunsent hw
      | .ok simulated =>
        dsimp only [andThen, onValue, orThrow, pure, bind]
        split
        · exact .ret stable_riding fun w _ hw => hunsent hw
        · exact payAndSubmit_keeps hwindow

/-! ### Requests -/

variable {channels : Option ChannelManager} {cfg : SponsorConfig}

omit [DecidableEq ι] in
theorem stable_true : Stable i fun _ => True := fun _ _ _ _ => id

theorem release_keeps {l : ChannelLease} (hstore : ∀ m ∈ channels, m.store.Keeps ι) :
    Spec i (fun w => Mine i (chanKey l.publicKey) l.token w ∧ (w.reads i = 41 ∨ Closed i w))
      (release channels l) fun _ _ => True := by
  cases channels with
  | none =>
    refine .ret ?_ fun _ _ _ => trivial
    intro w w' hrely hinv h
    obtain ⟨hmine, hend⟩ := h
    exact ⟨stable_mine w w' hrely hinv hmine,
      hend.imp (stable_reads w w' hrely hinv) (stable_closed w w' hrely hinv)⟩
  | some m => exact (hstore m rfl).release i _ _

theorem relayOnChannel_keeps {r : Relay} (hstore : ∀ m ∈ channels, m.store.Keeps ι)
    (hwindow : r.window.maxPolls = 40) (htimeout : r.timeoutSeconds ≤ channelLeaseTtlSeconds) :
    Spec i (Fresh i) (relayOnChannel cfg channels r) fun _ _ => True := by
  refine (leaseOf_keeps hstore).bind (fun l => ?_) (fun e => ?_) fun _ _ _ _ => trivial
  · refine Terms.Triple.weaken ?_ fun w _ hw => hw l rfl
    refine (relayAttempt_keeps hwindow htimeout).attempt (fun _ => stable_relayEnds) fun attempted => ?_
    have hrest {served : Except Failure Served} : Spec i (fun _ => True) (.ret served) fun _ _ => True :=
      .ret stable_true fun _ _ => id
    cases l with
    | none => cases attempted <;> exact hrest.weaken fun _ _ _ => trivial
    | some l =>
      have hreleased {served : Except Failure Served} :
          Spec i (RelayEnds i (some l) attempted) (do
            if keepsLease attempted then pure () else release channels l
            .ret served) fun _ _ => True := by
        split
        · exact hrest.weaken fun _ _ _ => trivial
        · next hkeeps =>
          refine ((release_keeps hstore).weaken fun w _ hw => ?_).bind (fun _ => hrest)
            (fun _ => stable_true) fun _ _ _ => id
          exact ⟨hw.1 l rfl, hw.2 (by simpa using hkeeps)⟩
      cases attempted <;> exact hreleased
  · rintro w w' - - -
    exact nofun

/-- What the channel path of an account ends with. -/
def SandwichEnds (i : ι) (l : ChannelLease) (w : World ι) : Prop :=
  Mine i (chanKey l.publicKey) l.token w ∧ Closed i w ∧
    ∀ tx, w.tx i = some tx → tx.lease = l

omit [DecidableEq ι] in
theorem stable_sandwichEnds {l : ChannelLease} : Stable i (SandwichEnds i l) := by
  intro w w' hrely hinv h
  obtain ⟨hmine, hclosed, hlease⟩ := h
  refine ⟨stable_mine w w' hrely hinv hmine, stable_closed w w' hrely hinv hclosed, fun tx htx => ?_⟩
  rcases hrely.tx with heq | ⟨tx', htx', heq⟩
  · exact hlease tx (heq ▸ htx)
  · rw [heq] at htx
    cases htx
    exact hlease tx' htx'

theorem channelSandwich_keeps {l : ChannelLease} {trustlineOnly : Bool} :
    Spec i (Leased i (some l)) (channelSandwich l trustlineOnly) fun _ => SandwichEnds i l := by
  have hbuilt {w : World ι} (hw : Riding i (some l) false none 0 w) : SandwichEnds i l w := by
    refine ⟨hw.mine l rfl, hw.closed, fun tx htx => ?_⟩
    have heq := hw.tx
    rw [htx] at heq
    exact (Prod.mk.inj (Option.some.inj heq)).1
  rw [channelSandwich, question_bind]
  apply spec_idle rfl stable_leased
  intro loaded
  match loaded with
  | .error t =>
    refine .ret stable_leased fun w _ hw => ⟨hw.2 l rfl, ?_, ?_⟩
    · exact fun tx htx => absurd (hw.1.tx.symm.trans htx) nofun
    · exact fun tx htx => absurd (hw.1.tx.symm.trans htx) nofun
  | .ok () =>
    refine spec_ask (N := fun _ => Riding i (some l) false none 0) stable_leased
      (fun w _ hw => ⟨hw.1.tx, hw.2 l rfl, by decide⟩) ?_ fun _ => ?_
    · rintro w d - ⟨hfresh, hmine⟩ - -
      refine ⟨by simp [react, World.build], hfresh.reads, fun l' hl' => ?_⟩
      exact ⟨(hmine l' hl').owner, (hmine l' hl').granted, (hmine l' hl').kept⟩
    · apply spec_idle rfl stable_riding
      intro charged
      match charged with
      | .error e => exact .ret stable_riding fun w _ hw => hbuilt hw
      | .ok charge =>
        apply spec_idle rfl stable_riding
        intro signed
        match signed with
        | .error t => exact .ret stable_riding fun w _ hw => hbuilt hw
        | .ok () => exact .ret stable_riding fun w _ hw => hbuilt hw

theorem asks_idle {q : Ask} (hq : q.Idle = true) : (ask q).Asks (·.Idle = true) := asks_question hq

/-- Nothing on the sponsor's own account concerns the leases. -/
theorem asks_sponsorSandwich {trustlineOnly : Bool} :
    (sponsorSandwich cfg trustlineOnly).Asks (·.Idle = true) := by
  unfold sponsorSandwich
  refine (asks_idle rfl).bind fun loaded => Asks.bind ?_ fun _ =>
    (asks_idle rfl).bind fun _ => Asks.bind ?_ fun _ => Asks.bind ?_ fun _ =>
    (asks_idle rfl).bind fun _ => asks_pure
  · cases loaded with
    | ok => exact asks_pure
    | error => exact asks_throw
  · refine (asks_idle rfl).bind fun charged => ?_
    cases charged with
    | ok => exact asks_pure
    | error => exact asks_throw
  · refine asks_ask.mpr ⟨rfl, fun signed => ?_⟩
    cases signed with
    | ok => exact asks_pure
    | error t => exact asks_ask.mpr ⟨rfl, fun _ => asks_throw⟩

theorem sponsorSandwich_keeps {trustlineOnly : Bool} {P : World ι → Prop} :
    Spec i P (sponsorSandwich cfg trustlineOnly) fun _ _ => True :=
  (spec_asks_idle asks_sponsorSandwich stable_true).weaken fun _ _ _ => trivial

theorem createAccountHandler_keeps {recipient : String} (hstore : ∀ m ∈ channels, m.store.Keeps ι) :
    Spec i (Fresh i) (createAccountHandler cfg channels recipient) fun _ _ => True := by
  have hret {r : Except Failure Served} {P : World ι → Prop} :
      Spec i P (.ret r) fun _ _ => True :=
    (Terms.Triple.ret stable_true fun _ _ => id).weaken fun _ _ _ => trivial
  unfold createAccountHandler
  split
  · exact hret
  split
  · exact hret
  have hexists : Spec i (Fresh i) (accountExists recipient) fun _ => Fresh i := by
    rw [accountExists, question_bind]
    apply spec_idle rfl stable_fresh
    intro found
    match found with
    | .ok () => exact .ret stable_fresh fun _ _ => id
    | .error t =>
      dsimp only
      split
      · exact .ret stable_fresh fun _ _ => id
      · split <;> exact .ret stable_fresh fun _ _ => id
  refine hexists.bind (fun exists_ => ?_) (fun _ => stable_fresh) fun _ _ _ _ => trivial
  refine (leaseOf_keeps hstore).bind (fun l => ?_) (fun e _ _ _ _ _ => nofun) fun _ _ _ _ => trivial
  cases l with
  | none => exact sponsorSandwich_keeps
  | some l =>
    refine Terms.Triple.weaken ?_ fun w _ hw => hw (some l) rfl
    refine channelSandwich_keeps.bind (fun attempted => ?_) (fun _ => stable_sandwichEnds)
      fun _ _ _ _ => trivial
    match attempted with
    | (.ok (), charged) =>
      refine spec_ask (N := fun _ _ => True) stable_sandwichEnds ?_ (fun _ _ _ _ _ _ => trivial)
        fun _ => hret
      rintro w - ⟨hmine, -, hlease⟩ tx htx
      rw [hlease tx htx]
      exact hmine.kept
    | (.error e, charged) =>
      have hrelease : Spec i (SandwichEnds i l) (release channels l >>= fun _ =>
          if e.isPublicRefusal then throw e else sponsorSandwich cfg exists_)
          fun _ _ => True := by
        refine ((release_keeps hstore).weaken fun w _ hw => ⟨hw.1, .inr hw.2.1⟩).bind (fun _ => ?_)
          (fun _ => stable_true) fun _ _ _ => id
        split
        · exact hret
        · exact sponsorSandwich_keeps
      dsimp only
      split
      · exact spec_idle rfl stable_sandwichEnds fun _ => hrelease
      · exact hrelease

theorem maxPolls_claimRelay {sdk : Sdk} {method : String} :
    (claimRelay sdk method).window.maxPolls = 40 := by
  simp [Relay.window, claimRelay]

theorem maxPolls_cctpRelay {sdk : Sdk} : (cctpRelay sdk).window.maxPolls = 40 := by
  simp [Relay.window, cctpRelay]

theorem relayClaimHandler_keeps {sdk : Sdk} {input : RelayClaimInput}
    (hstore : ∀ m ∈ channels, m.store.Keeps ι) :
    Spec i (Fresh i) (relayClaimHandler cfg sdk input channels) fun _ _ => True := by
  rw [relayClaimHandler]
  cases checkClaim cfg sdk.isAddress input with
  | error e => exact .ret stable_fresh fun _ _ _ => trivial
  | ok => exact relayOnChannel_keeps hstore maxPolls_claimRelay (Nat.le_of_ble_eq_true rfl)

theorem relayCctpHandler_keeps {sdk : Sdk} {attested : Except Failure (Option String)}
    (hstore : ∀ m ∈ channels, m.store.Keeps ι) :
    Spec i (Fresh i) (relayCctpHandler cfg sdk attested channels) fun _ _ => True := by
  unfold relayCctpHandler
  match attested with
  | .error e => exact .ret stable_fresh fun _ _ _ => trivial
  | .ok (some detail) => exact .ret stable_fresh fun _ _ _ => trivial
  | .ok none => exact relayOnChannel_keeps hstore maxPolls_cctpRelay (Nat.le_of_ble_eq_true rfl)

theorem serve_keeps {request : Request} (hstore : ∀ m ∈ channels, m.store.Keeps ι) :
    Spec i (Fresh i) (request.serve cfg channels) fun _ _ => True := by
  cases request with
  | createAccount recipient =>
    rw [Request.serve]
    exact createAccountHandler_keeps hstore
  | relayClaim sdk input =>
    rw [Request.serve]
    exact relayClaimHandler_keeps hstore
  | relayCctp sdk attested =>
    rw [Request.serve]
    exact relayCctpHandler_keeps hstore

/-! ### The network -/

omit [DecidableEq ι] in
theorem sound_empty : Sound (World.empty : World ι) where
  drawn := nofun
  single := nofun
  stored := fun _ hg => absurd hg.granted List.not_mem_nil
  mine := nofun
  leased := nofun
  kept := nofun
  ttl := nofun

theorem Sound.stirs {w w' : World ι} (h : Sound w) (hw : World.Stirs w w') :
    Sound w' ∧ ∀ i, Others i w w' := by
  cases hw with
  | @time now hnow =>
    refine ⟨⟨h.drawn, h.single, fun g hg => ?_, h.mine, h.leased, fun i tx htx hopen => ?_, h.ttl⟩,
      fun i => ?_⟩
    · exact h.stored g ⟨hg.granted, hnow.trans_lt hg.unexpired, hg.kept⟩
    · exact h.kept i tx htx
        ⟨hopen.sent, hopen.undecided, (Nat.div_le_div_right hnow).trans hopen.valid⟩
    · exact { Others.refl i w with time := hnow }
  | @included j tx htx hsent =>
    have hfine : Fine j w
        { w with tx := Function.update w.tx j (some { tx with included := true }) } := by
      apply h.own
      intro new hnew
      obtain rfl := Option.some.inj hnew
      obtain ⟨howner, hgrant⟩ := h.leased j tx htx
      exact ⟨howner, hgrant, fun hopen => nomatch hopen.undecided⟩
    refine ⟨hfine.1, fun i => ?_⟩
    by_cases hij : i = j
    · subst hij
      exact { Others.refl i w with tx := .inr ⟨tx, htx, Function.update_self ..⟩ }
    · exact hfine.2 i hij

end

end Lumenia.Sponsor.Channels
