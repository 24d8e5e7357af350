import Lumenia.Sponsor.ChannelsLogic

/-!
# Leases are exclusive

`leases_exclusive`: in every run where transactions are built soon enough after the lease was
granted, a channel has one lease at a time, a release frees only the lease of its own request, and no
two requests have open transactions on one channel. `transactions_collide`: a lease runs from the moment
it is taken and a transaction from the moment it is built, so that one that is built late outlasts
its lease.
-/

namespace Lumenia.Sponsor.Channels

open Dialogue

variable {ι : Type}

/-- What the leases are for. -/
structure Exclusive (w : World ι) : Prop where
  one : ∀ g g', Live w g → Live w g' → g.key = g'.key → g = g'
  /-- Only the release of its own request frees a lease before its time. -/
  stored : ∀ g, Live w g → w.held g.key = some (g.token, g.expiry)
  fenced : ∀ i t, (i, t) ∈ w.released → w.owner t = some i
  /-- Transactions that the network may still include are on different channels. -/
  apart : ∀ i j tx tx', w.tx i = some tx → w.tx j = some tx' → tx.Open w → tx'.Open w →
    tx.lease.publicKey = tx'.lease.publicKey → i = j
  /-- No transaction outlasts the lease it was built under. -/
  outlasted : ∀ i tx, w.tx i = some tx → ∃ g ∈ w.grants, g.token = tx.lease.token ∧
    g.key = chanKey tx.lease.publicKey ∧ w.owner g.token = some i ∧
    (tx.maxTime + 1) * 1000 ≤ g.expiry

namespace Sound

variable {w : World ι} {i : ι} {tx : Tx}

/-- The lease of an open transaction is live. -/
theorem live (h : Sound w) (htx : w.tx i = some tx) (hopen : tx.Open w) :
    ∃ g, Live w g ∧ g.token = tx.lease.token ∧ g.key = chanKey tx.lease.publicKey := by
  obtain ⟨howner, g, hg, htoken, hkey, hexpiry⟩ := h.leased i tx htx
  refine ⟨g, ⟨hg, ?_, fun j hj => ?_⟩, htoken, hkey⟩
  · have hvalid := hopen.valid
    omega
  · have hji : j = i := by
      have howner' := h.mine j g.token hj
      rw [htoken, howner] at howner'
      exact (Option.some.inj howner').symm
    rw [hji, htoken] at hj
    exact h.kept i tx htx hopen hj

theorem exclusive (h : Sound w) : Exclusive w where
  one g g' hg hg' hkey := by
    have hheld := (h.stored g hg).symm.trans (hkey ▸ h.stored g' hg')
    exact h.single g hg.granted g' hg'.granted (Prod.mk.inj (Option.some.inj hheld)).1
  stored := h.stored
  fenced := h.mine
  apart i j tx tx' htx htx' hopen hopen' hchannel := by
    obtain ⟨g, hg, htoken, hkey⟩ := h.live htx hopen
    obtain ⟨g', hg', htoken', hkey'⟩ := h.live htx' hopen'
    have hkeys : g.key = g'.key := by rw [hkey, hkey', hchannel]
    have hheld := (h.stored g hg).symm.trans (hkeys ▸ h.stored g' hg')
    have htokens : tx.lease.token = tx'.lease.token := by
      rw [← htoken, ← htoken']
      exact (Prod.mk.inj (Option.some.inj hheld)).1
    have howner := (h.leased i tx htx).1
    rw [htokens, (h.leased j tx' htx').1] at howner
    exact (Option.some.inj howner).symm
  outlasted i tx htx := by
    obtain ⟨howner, g, hg, htoken, hkey, hexpiry⟩ := h.leased i tx htx
    exact ⟨g, hg, htoken, hkey, htoken ▸ howner, hexpiry⟩

end Sound

section

variable [DecidableEq ι] {cfg : SponsorConfig} {channels : Option ChannelManager}
  {requests : ι → Request} {x : Crowd ι Ask.Answer Failure Served (World ι)}

/-- **Leases are exclusive**, in every run where transactions are built in time. -/
theorem leases_exclusive
    (hstore : ∀ m ∈ channels, m.store = redisLeaseStore ∨ m.store = memoryLeaseStore)
    (hrun : Run Timely cfg channels requests x) : Exclusive x.world := by
  have hkeeps : ∀ m ∈ channels, m.store.Keeps ι := by
    intro m hm
    rcases hstore m hm with hredis | hmemory
    · rw [hredis]
      exact redisLeaseStore_keeps
    · rw [hmemory]
      exact memoryLeaseStore_keeps
  have hopening : terms.Kept (Steps Timely) (fun _ _ _ => True) (opening cfg channels requests) :=
    ⟨sound_empty, fun i => (serve_keeps hkeeps).keeps sound_empty ⟨rfl, rfl⟩⟩
  have hend := Terms.sound (fun _ _ hsound hw => Sound.stirs hsound hw) hopening hrun
  exact Sound.exclusive hend.inv

end

namespace Demo

def cfg : SponsorConfig := ⟨"S", "K", none, []⟩

/-- A pool of one channel. -/
def pool : ChannelManager := ⟨["C"], redisLeaseStore, false⟩

def recipient (i : ℕ) : String := Stellar.address (BitVec.ofNat 256 i)

def requests (i : ℕ) : Request := .createAccount (recipient i)

/-- All goes well. -/
def chance (token : String) : Chance where
  executed := true
  failure := none
  garbled := none
  text := token
  order := [0]
  thrown := none
  await
    | .chargeSponsorFee _ => .ok ⟨400, true, 400, "day"⟩
    | .sign _ => .ok ()
    | .submitTransaction _ | .transaction .. | .simulateTransaction | .sendTransaction _
    | .getTransaction _ => .error .null
    | .subrequestsLeft => 0
    | .checkCaps .. | .enforcePilot _ => .admitted true
    | .settle _ | .recheckPause | .sleep | .releaseCap | .releasePilot => ()

def steps (i n : ℕ) : List (ℕ × Chance) := List.replicate n (i, chance (toString i))

abbrev State := Crowd ℕ Ask.Answer Failure Served (World ℕ)

def play (x : State) (schedule : List (ℕ × Chance)) : State := x.play react schedule

def at_ (now : ℕ) (x : State) : State := { x with world := { x.world with now := now } }

def start : State := opening cfg (some pool) requests

/-- One after the other. -/
def inTurn : State := play (at_ 151000 (play start (steps 0 9))) (steps 1 9)

/-- The account of the channel is read for 40 seconds, and another request leases the channel when
the lease has expired. -/
def late : State := play (at_ 151000 (play (at_ 40000 (play start (steps 0 4))) (steps 0 5))) (steps 1 9)

/-- Enough for an account that is built in time. -/
def timely (w : World ℕ) : Ask → Bool
  | .build (some l) timeoutSeconds => w.grants.all fun g =>
    g.token ≠ l.token || (w.now / 1000 + 1) * 1000 ≤ g.granted + slackSeconds timeoutSeconds * 1000
  | .pipeline (.fencedDel ..) | .memory (.fencedDel ..) => false
  | .await (.sendTransaction _) | .await (.getTransaction _) => false
  | _ => true

theorem timely_of_check {i : ℕ} {w : World ℕ} {q : Ask} {a : q.Answer} (h : timely w q = true) :
    Timely i w q a := by
  unfold Timely
  split
  · intro g hg htoken
    simpa [htoken] using List.all_eq_true.mp h g hg
  · next cmd _ =>
    cases cmd with
    | fencedDel => cases h
    | _ => trivial
  · next cmd _ =>
    cases cmd with
    | fencedDel => cases h
    | _ => trivial
  · cases h
  · cases h
  · trivial

def fairly (ok : World ℕ → Ask → Bool) (x : State) (schedule : List (ℕ × Chance)) : Bool :=
  Crowd.fairly react (fun i d w q => fair i d w q && ok w q) x schedule

theorem leads_steps {met : Condition ℕ} {ok : World ℕ → Ask → Bool}
    (hok : ∀ {i w q} {a : q.Answer}, ok w q = true → met i w q a) {x : State}
    {schedule : List (ℕ × Chance)} (h : fairly ok x schedule = true) :
    Leads (Steps met) World.Stirs x (play x schedule) := by
  refine leads_play (fun i d w q hd => ?_) h
  obtain ⟨hfair, hmet⟩ := Bool.and_eq_true_iff.mp hd
  exact ⟨d, hfair, hok hmet, rfl⟩

theorem leads_at {met : Condition ℕ} {now : ℕ} {x : State} (h : x.world.now ≤ now) :
    Leads (Steps met) World.Stirs x (at_ now x) :=
  .single (.stir (.time h))

theorem run_inTurn : Run Timely cfg (some pool) requests inTurn := by
  obtain ⟨hfirst, htime, hsecond⟩ : fairly timely start (steps 0 9) = true ∧
      (play start (steps 0 9)).world.now ≤ 151000 ∧
      fairly timely (at_ 151000 (play start (steps 0 9))) (steps 1 9) = true := by
    decide +kernel
  exact (leads_steps timely_of_check hfirst).trans
    ((leads_at htime).trans (leads_steps timely_of_check hsecond))

theorem run_late : Run .none cfg (some pool) requests late := by
  have hnone {i : ℕ} {w : World ℕ} {q : Ask} {a : q.Answer} : true = true → Condition.none i w q a :=
    fun _ => trivial
  obtain ⟨hlease, hslow, hbuild, htime, hsecond⟩ :
      fairly (fun _ _ => true) start (steps 0 4) = true ∧
      (play start (steps 0 4)).world.now ≤ 40000 ∧
      fairly (fun _ _ => true) (at_ 40000 (play start (steps 0 4))) (steps 0 5) = true ∧
      (play (at_ 40000 (play start (steps 0 4))) (steps 0 5)).world.now ≤ 151000 ∧
      fairly (fun _ _ => true)
        (at_ 151000 (play (at_ 40000 (play start (steps 0 4))) (steps 0 5))) (steps 1 9) = true := by
    decide +kernel
  exact (leads_steps hnone hlease).trans ((leads_at hslow).trans ((leads_steps hnone hbuild).trans
    ((leads_at htime).trans (leads_steps hnone hsecond))))

end Demo

theorem leases_exclusive_in_turn : Exclusive Demo.inTurn.world ∧
    Demo.inTurn.world.tx 0 = some ⟨⟨"C", "0"⟩, 120, true, none, false⟩ ∧
    Demo.inTurn.world.tx 1 = some ⟨⟨"C", "1"⟩, 271, true, none, false⟩ :=
  ⟨leases_exclusive (fun m hm => .inl (Option.mem_some.mp hm ▸ rfl)) Demo.run_inTurn,
    by decide +kernel⟩

/-- Two accounts are handed out on one channel, and the network may include either. -/
theorem transactions_collide : ¬∀ (cfg : SponsorConfig) (channels : Option ChannelManager)
    (requests : ℕ → Request) x,
    (∀ m ∈ channels, m.store = redisLeaseStore ∨ m.store = memoryLeaseStore) →
    Run .none cfg channels requests x → Exclusive x.world := by
  intro h
  have hexclusive := h Demo.cfg (some Demo.pool) Demo.requests _
    (fun m hm => .inl (Option.mem_some.mp hm ▸ rfl)) Demo.run_late
  obtain ⟨hfirst, hsecond, hnow⟩ :
      Demo.late.world.tx 0 = some ⟨⟨"C", "0"⟩, 160, true, none, false⟩ ∧
      Demo.late.world.tx 1 = some ⟨⟨"C", "1"⟩, 271, true, none, false⟩ ∧
      Demo.late.world.now / 1000 = 151 := by
    decide +kernel
  have hsame := hexclusive.apart 0 1 _ _ hfirst hsecond ⟨rfl, rfl, by rw [hnow]; decide⟩
    ⟨rfl, rfl, by rw [hnow]; decide⟩ rfl
  exact absurd hsame (by decide)

end Lumenia.Sponsor.Channels
