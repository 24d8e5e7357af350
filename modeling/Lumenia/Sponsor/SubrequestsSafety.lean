import Lumenia.Sponsor.DepositSafety
import Lumenia.Sponsor.Subrequests

/-!
# A poll leaves room for what follows it

Whatever a relay has spent when the network accepts its transaction, and whatever its polls answer or
throw, a poll is made only where the meter has room for the settlement and the releases that can still
follow. So a window does not take a request over its limit, and what is owed after a rejection on the
ledger goes back within the limit (`window_leaves_room`).
-/

namespace Lumenia.Sponsor.Subrequests

open Dialogue Channels

/-! ## What the give-backs cost -/

section

variable {ι M ε α : Type} [DecidableEq ι] {i : ι} {keys : List String} {delta : ℤ} {n : ℕ}

theorem sends_atomically {f : M → M × α} (h : (atomically f : Task M ε α).Sends n) : n = 0 := by
  cases h with
  | mem m h => exact h.of_ret

/-- Any counters are moved in one pipeline. -/
theorem sends_addToDays (h : (addToDays keys delta : Task M ε _).Sends n) : n = 1 := by
  cases h with
  | pipe r h => rw [h.of_ret]

theorem sends_capsGiveBack {amountStroops : ℤ}
    (h : (capsGiveBack keys amountStroops : Task M ε Unit).Sends n) : n = 1 := by
  obtain ⟨_, _, _, hdays, hret, rfl⟩ := h.of_bind
  rw [sends_addToDays hdays, hret.of_ret]

variable {charge : FeeCharge}

theorem sends_giveBack {call : SettleCall} {stroops : ℤ}
    (h : (charge.giveBack i call stroops : Task (FeeMemory ι) ε Unit).Sends n) : n ≤ 1 := by
  obtain ⟨proceed, _, _, hmemory, hrest, rfl⟩ := h.of_bind
  rw [sends_atomically hmemory]
  cases proceed with
  | false =>
    rw [hrest.of_ret]
    exact Nat.zero_le 1
  | true =>
    obtain ⟨_, _, _, hdays, hret, rfl⟩ := hrest.of_bind
    rw [sends_addToDays hdays, hret.of_ret]

/-- A charge is settled in one pipeline, if in any. -/
theorem sends_call {call : SettleCall}
    (h : (charge.call i call : Task (FeeMemory ι) ε Unit).Sends n) : n ≤ 1 := by
  cases call with
  | notIncluded => exact sends_giveBack h
  | settled feeCharged =>
    change (charge.settled i feeCharged).Sends n at h
    unfold FeeCharge.settled at h
    split at h
    · exact (sends_atomically h).le.trans (Nat.zero_le 1)
    · split at h
      · exact (sends_atomically h).le.trans (Nat.zero_le 1)
      · exact sends_giveBack h

theorem takes_release {pubkey : String} (h : (Pilot.release pubkey).Takes n) : n = 1 := by
  cases h with
  | ask a h =>
    cases h
    rfl

end

/-- The steps that give something back after the window. -/
def isGiveBack : Ask → Bool
  | .await (.settle _) | .await .releaseCap | .await .releasePilot | .pipeline _ | .memory _ => true
  | _ => false

/-- **Each give-back is one subrequest at most.** -/
theorem costs_le_one {q : Ask} (hq : isGiveBack q = true) {n : ℕ} (h : Costs q n) : n ≤ 1 := by
  cases q with
  | await q =>
    cases q with
    | settle call =>
      obtain ⟨charge, hsends⟩ := h
      exact sends_call hsends
    | releaseCap =>
      obtain ⟨keys, amountStroops, hsends⟩ := h
      exact (sends_capsGiveBack hsends).le
    | releasePilot =>
      obtain ⟨pubkey, htakes⟩ := h
      exact (takes_release htakes).le
    | _ => cases hq
  | pipeline cmd => exact le_of_eq h
  | memory cmd => exact (le_of_eq h).trans (Nat.zero_le 1)
  | _ => cases hq

/-! ## What a record shows -/

/-- The network accepted the transaction. -/
def accepted : Outlay Ask.Answer → Bool
  | ⟨⟨.await (.sendTransaction _), .ok sent⟩, _⟩ => sent.status ≠ .ERROR && sent.status ≠ .TRY_AGAIN_LATER
  | _ => false

/-- A poll, answered or not. -/
def polled : Outlay Ask.Answer → Bool
  | ⟨⟨.await (.getTransaction _), _⟩, _⟩ => true
  | _ => false

/-- What a poll was answered. -/
def reading : Outlay Ask.Answer → Option Polled
  | ⟨⟨.await (.getTransaction _), .ok got⟩, _⟩ => some got
  | _ => none

/-- The ledger rejected the transaction, with this record of it. -/
def Rejects (got : Polled) (h : Record) : Prop := got.status = .FAILED ∧ ∃ o ∈ h, reading o = some got

def asked (h : Record) : List Ask := h.map fun o => o.event.1

/-- The steps that the relays share. -/
def awaited (h : Record) : History := h.filterMap fun o =>
  match o.event with
  | ⟨.await q, a⟩ => some ⟨q, a⟩
  | _ => none

/-- The question frees the lease on a channel. -/
def frees (l : ChannelLease) (q : Ask) : Prop :=
  q = .pipeline (.fencedDel (chanKey l.publicKey) l.token) ∨
    q = .memory (.fencedDel (chanKey l.publicKey) l.token)

/-- The ledger has rejected the transaction, and what is owed then has been asked for: the fee is
settled by the record, and a reservation of the caps, a slot of the pilot and the lease on the channel
of the transaction go back where there is one. -/
structure GivenBack (got : Polled) (h : Record) : Prop where
  fee : .await (.settle (.settled (feeChargedOf got.resultXdr))) ∈ asked h
  cap : CapTaken (awaited h) → .await .releaseCap ∈ asked h
  slot : SlotTaken (awaited h) → .await .releasePilot ∈ asked h
  lease : ∀ l timeoutSeconds, .build (some l) timeoutSeconds ∈ asked h → ∃ q ∈ asked h, frees l q

/-- What a window leaves room for, in a run that began with this meter. -/
structure LeavesRoom (m : Meter) (h : Record) : Prop where
  /-- When a poll is made, all that follows it but polls is within the limit. -/
  room : ∀ before poll rest, h = before ++ poll :: rest → polled poll = true →
    m.used + spent (before ++ [poll]) + spent (rest.filter fun o => !polled o) ≤ m.limit
  /-- Within the limit when the network accepts the transaction, within the limit at the end. -/
  within : ∀ before sent rest, h = before ++ sent :: rest → accepted sent = true →
    m.used + spent (before ++ [sent]) ≤ m.limit → m.used + spent h ≤ m.limit
  /-- What is owed after a rejection goes back, and does not take the request over the limit. -/
  returned : ∀ got, Rejects got h → GivenBack got h ∧ m.used + spent h ≤ m.limit

/-- There has been no poll, and nothing was spent since the transaction was accepted. -/
structure Still (h : Record) : Prop where
  unpolled : ∀ o ∈ h, polled o = false
  unspent : ∀ before sent rest, h = before ++ sent :: rest → accepted sent = true → spent rest = 0

section

variable {m : Meter} {h h' es : Record} {got : Polled}

theorem rejects_append : Rejects got (h ++ h') ↔ Rejects got h ∨ Rejects got h' := by
  simp only [Rejects, List.mem_append, or_and_right, exists_or, and_or_left]

/-- Steps that read nothing reject nothing. -/
theorem not_rejects (hh : ∀ o ∈ h, reading o = none) : ¬Rejects got h := by
  rintro ⟨-, o, ho, hreading⟩
  rw [hh o ho] at hreading
  cases hreading

theorem polled_of_reading {o : Outlay Ask.Answer} (h : reading o = some got) : polled o = true := by
  unfold reading at h
  split at h
  · rfl
  · cases h

theorem reading_of_sleep {o : Outlay Ask.Answer} (ho : o.event.1 = .await .sleep) :
    reading o = none := by
  obtain ⟨⟨q, a⟩, n⟩ := o
  obtain rfl : q = .await .sleep := ho
  rfl

theorem eq_of_reading {hash : Option String} {answer : Except Thrown Polled} {n : ℕ}
    (h : reading ⟨⟨.await (.getTransaction hash), answer⟩, n⟩ = some got) : answer = .ok got := by
  cases answer with
  | error t => cases h
  | ok got' => exact congrArg Except.ok (Option.some.inj h)

/-- **A run that is still, or that ends within the limit, has left room.** -/
theorem LeavesRoom.intro (hend : Still h ∨ m.used + spent h ≤ m.limit)
    (hback : ∀ got, Rejects got h → GivenBack got h) : LeavesRoom m h where
  room before poll rest heq hpoll := by
    rcases hend with hstill | hend
    · have hno := hstill.unpolled poll (heq ▸ List.mem_append_right _ List.mem_cons_self)
      rw [hpoll] at hno
      cases hno
    · have hle : spent (rest.filter fun o => !polled o) ≤ spent rest := spent_filter_le
      rw [heq, List.append_cons, spent_append] at hend
      omega
  within before sent rest heq hsent hle := by
    rcases hend with hstill | hend
    · rw [heq, List.append_cons, spent_append, hstill.unspent before sent rest heq hsent]
      exact hle
    · exact hend
  returned got hgot := by
    refine ⟨hback got hgot, ?_⟩
    rcases hend with hstill | hend
    · obtain ⟨-, o, ho, hreading⟩ := hgot
      have hno := hstill.unpolled o ho
      rw [polled_of_reading hreading] at hno
      cases hno
    · exact hend

end

/-! ## The window -/

/-- The window was cut before any poll. -/
structure Cut (r : Except Failure (Polled × Bool)) (es : Record) : Prop where
  result : ∃ got, r = .ok (got, true) ∧ got.status = .NOT_FOUND
  unpolled : ∀ o ∈ es, polled o = false
  unspent : spent es = 0

/-- A poll, as the outlays it adds to a record. -/
structure Polling (m : Meter) (hash : Option String) (reserve : ℤ) (h : Record)
    (r : Except Failure (Polled × Bool)) (es : Record) : Prop where
  steps : ∀ o ∈ es, ∃ q, o.event.1 = .await q ∧ q.polls hash = true
  room : Cut r es ∨ m.used + spent (h ++ es) + reserve ≤ m.limit
  rejected : ∀ got, Rejects got es → r = .ok (got, false)

section

variable {m : Meter} {h : Record} {hash : Option String} {reserve : ℤ}

/-- The meter counts every subrequest once. -/
def Left (m : Meter) (spent : ℕ) : (q : Ask) → q.Answer → Prop
  | .await .subrequestsLeft, left => (m.limit : ℤ) - (m.used + spent : ℕ) = left
  | _, _ => True

theorem left_of_reads {f : FetchFn} (hf : Installed f) {spent : ℕ} {q : Ask} {a : q.Answer}
    (hreads : Reads f m spent q a) : Left m spent q a := by
  cases q with
  | await q =>
    cases q with
    | subrequestsLeft =>
      change subrequestsLeft (metersAfter f m spent) = some a at hreads
      rw [metersAfter_eq hf] at hreads
      exact Option.some.inj hreads
    | _ => trivial
  | _ => trivial

theorem wp_relay_wait {α : Type} {q : Await} {k : q.Answer → Route α}
    {post : Except Failure α → Record → Prop} :
    (relay (wait q >>= k)).wp (metered Costs (Left m)) post h ↔
      ∀ a n, Costs (.await q) n → Left m (spent h) (.await q) a →
        (relay (k a)).wp (metered Costs (Left m)) post (h ++ [⟨⟨.await q, a⟩, n⟩]) :=
  wp_metered_ask

theorem wp_relay_bind {α β : Type} {p : Route α} {k : α → Route β}
    {post : Except Failure β → Record → Prop} :
    (relay (p >>= k)).wp (metered Costs (Left m)) post h ↔
      (relay p).wp (metered Costs (Left m))
        (fun r h => (onValue (fun a => relay (k a)) r).wp (metered Costs (Left m)) post h) h := by
  rw [relay, relabel_bind]
  exact wp_bind

/-- A pause costs nothing. -/
theorem wp_pauseUnless {isFirst : Bool} {post : Except Failure Unit → Record → Prop}
    (hpost : ∀ es : Record, (∀ o ∈ es, o.event.1 = .await .sleep) → spent es = 0 →
      post (.ok ()) (h ++ es)) :
    (relay (pauseUnless isFirst)).wp (metered Costs (Left m)) post h := by
  unfold pauseUnless
  split
  · have hnone := hpost [] (List.forall_mem_nil _) rfl
    rwa [List.append_nil] at hnone
  · apply wp_metered_ask.mpr
    intro a n hn _
    apply hpost _ (List.forall_mem_singleton.mpr rfl)
    obtain rfl : n = 0 := hn
    rfl

theorem wp_pollReads {reads : ℕ} {isFirst : Bool} {got : Polled} (hgot : got.status = .NOT_FOUND)
    (hroom : reads = 0 → m.used + spent h + reserve ≤ m.limit) :
    (relay (pollReads hash reserve reads isFirst got)).wp (metered Costs (Left m))
      (fun r h' => ∃ es, h' = h ++ es ∧ Polling m hash reserve h r es) h := by
  induction reads generalizing h isFirst got with
  | zero =>
    refine ⟨[], (List.append_nil h).symm, List.forall_mem_nil _, .inr ?_, ?_⟩
    · rw [List.append_nil]
      exact hroom rfl
    · rintro got ⟨-, o, ho, -⟩
      cases ho
  | succ reads ih =>
    rw [pollReads, wp_relay_wait]
    intro left n hn hleft
    obtain rfl : n = 0 := hn
    have hmeter : @Eq ℤ ((m.limit : ℤ) - (m.used + spent h : ℕ)) left := hleft
    split
    · refine ⟨_, rfl, ?_, .inl ⟨⟨got, rfl, hgot⟩, ?_, rfl⟩, ?_⟩
      · exact List.forall_mem_singleton.mpr ⟨_, rfl, rfl⟩
      · exact List.forall_mem_singleton.mpr rfl
      · rintro got ⟨-, o, ho, hreading⟩
        rw [List.mem_singleton.mp ho] at hreading
        cases hreading
    rename_i hmore
    have henough : 1 + reserve ≤ m.limit - (m.used + spent h : ℕ) := hmeter ▸ not_lt.mp hmore
    rw [wp_relay_bind]
    apply wp_pauseUnless
    intro pause hpause hfree
    rw [onValue_ok, wp_relay_wait]
    intro answer n hn _
    obtain rfl : n = 1 := hn
    -- What this round of the loop adds.
    let round : Record := [⟨⟨.await .subrequestsLeft, left⟩, 0⟩] ++ pause ++
      [⟨⟨.await (.getTransaction hash), answer⟩, 1⟩]
    have hsteps : ∀ o ∈ round, ∃ q, o.event.1 = .await q ∧ q.polls hash = true :=
      List.forall_mem_append.mpr ⟨List.forall_mem_append.mpr
        ⟨List.forall_mem_singleton.mpr ⟨_, rfl, rfl⟩, fun o ho => ⟨_, hpause o ho, rfl⟩⟩,
        List.forall_mem_singleton.mpr ⟨_, rfl, decide_eq_true rfl⟩⟩
    have hone : spent round = 1 := by simp [round, hfree]
    have hfits : m.used + spent (h ++ round) + reserve ≤ m.limit := by
      rw [spent_append, hone]
      push_cast at henough ⊢
      omega
    have hrejects : ∀ got, Rejects got round → answer = .ok got := by
      intro got hgot
      rcases rejects_append.mp hgot with hbefore | ⟨-, o, ho, hreading⟩
      · refine absurd hbefore (not_rejects fun o ho => ?_)
        rcases List.mem_append.mp ho with ho | ho
        · rw [List.mem_singleton.mp ho]
          rfl
        · exact reading_of_sleep (hpause o ho)
      · rw [List.mem_singleton.mp ho] at hreading
        exact eq_of_reading hreading
    have hround : h ++ [⟨⟨.await .subrequestsLeft, left⟩, 0⟩] ++ pause ++
        [⟨⟨.await (.getTransaction hash), answer⟩, 1⟩] = h ++ round := by
      simp only [round, List.append_assoc]
    rw [hround]
    cases answer with
    | error t =>
      exact ⟨round, rfl, hsteps, .inr hfits, fun got hgot => absurd (hrejects got hgot) (by simp)⟩
    | ok got' =>
      dsimp only
      split
      · refine ⟨round, rfl, hsteps, .inr hfits, fun got hgot => ?_⟩
        obtain rfl := Except.ok.inj (hrejects got hgot)
        rfl
      · rename_i hstatus
        refine wp_mono ?_ (ih (not_not.mp hstatus) fun _ => hfits)
        rintro r _ ⟨es, rfl, hes⟩
        refine ⟨round ++ es, List.append_assoc .., List.forall_mem_append.mpr ⟨hsteps, hes.steps⟩, ?_, ?_⟩
        · rw [← List.append_assoc]
          rcases hes.room with hcut | hroom
          · rw [spent_append, hcut.unspent]
            exact .inr hfits
          · exact .inr hroom
        · intro got hgot
          rcases rejects_append.mp hgot with hbefore | hafter
          · obtain rfl := Except.ok.inj (hrejects got hbefore)
            cases hbefore.1.symm.trans (not_not.mp hstatus)
          · exact hes.rejected got hafter

/-! ## The submission -/

/-- A window that the budget has cut before the network decided. -/
def IsCut (r : Except Failure Watched) : Prop := ∃ w, r = .ok w ∧ w.cut = true ∧ w.got.status = .NOT_FOUND

/-- After a rejection the window ends with it, and the fee is settled by its record. -/
def Concludes (r : Except Failure Watched) (es : Record) : Prop :=
  ∀ got, Rejects got es →
    (∃ w, r = .ok w ∧ w.got = got) ∧ .await (.settle (.settled (feeChargedOf got.resultXdr))) ∈ asked es

/-- What is watched after the send, as the outlays that this adds. -/
structure Watches (m : Meter) (reserve : ℤ) (h : Record) (r : Except Failure Watched) (es : Record) :
    Prop where
  steps : ∀ o ∈ es, ∃ q, o.event.1 = .await q ∧ q.submits = true
  room : (IsCut r ∧ (∀ o ∈ es, polled o = false) ∧ spent es = 0) ∨
    m.used + spent (h ++ es) + reserve ≤ m.limit
  concludes : Concludes r es

variable {window : Window}

theorem asked_append {h h' : Record} : asked (h ++ h') = asked h ++ asked h' := List.map_append

theorem wp_watch {sent : Sent} : (relay (watch sent window)).wp (metered Costs (Left m))
    (fun r h' => ∃ es, h' = h ++ es ∧ Watches m window.reserve h r es) h := by
  unfold watch
  rw [wp_relay_bind]
  refine wp_mono ?_ (wp_pollReads rfl nofun)
  rintro r _ ⟨es, rfl, hes⟩
  have hsteps : ∀ o ∈ es, ∃ q, o.event.1 = .await q ∧ q.submits = true := by
    intro o ho
    obtain ⟨q, hq, hpolls⟩ := hes.steps o ho
    exact ⟨q, hq, submits_of_polls hpolls⟩
  cases r with
  | error e =>
    refine ⟨es, rfl, hsteps, .inr ?_, fun got hgot => nomatch hes.rejected got hgot⟩
    rcases hes.room with ⟨⟨_, heq, _⟩, _⟩ | hroom
    · cases heq
    · dsimp only at hroom
      omega
  | ok read =>
    obtain ⟨got, cut⟩ := read
    rw [onValue_ok]
    dsimp only
    split
    · rename_i hincluded
      refine wp_relay_wait.mpr fun u n hn _ => ⟨es ++ [⟨⟨.await (.settle _), u⟩, n⟩],
        List.append_assoc .., ?_, .inr ?_, ?_⟩
      · exact List.forall_mem_append.mpr ⟨hsteps, List.forall_mem_singleton.mpr ⟨_, rfl, rfl⟩⟩
      · have hsettle : n ≤ 1 := costs_le_one rfl hn
        rcases hes.room with ⟨⟨_, heq, hstatus⟩, _⟩ | hroom
        · cases heq
          simp [Polled.isIncluded, hstatus] at hincluded
        · rw [← List.append_assoc, spent_append, spent_cons, spent_nil]
          dsimp only at hroom
          push_cast at hroom ⊢
          omega
      · intro got' hgot'
        rcases rejects_append.mp hgot' with hgot' | hnone
        · obtain ⟨rfl, rfl⟩ := Prod.mk.inj (Except.ok.inj (hes.rejected got' hgot'))
          refine ⟨⟨_, rfl, rfl⟩, ?_⟩
          rw [asked_append]
          exact List.mem_append_right _ (List.mem_singleton_self _)
        · exact absurd hnone (not_rejects (List.forall_mem_singleton.mpr rfl))
    · rename_i hincluded
      refine ⟨es, rfl, hsteps, ?_, ?_⟩
      · rcases hes.room with ⟨⟨_, heq, hstatus⟩, hunpolled, hunspent⟩ | hroom
        · cases heq
          exact .inl ⟨⟨_, rfl, rfl, hstatus⟩, hunpolled, hunspent⟩
        · dsimp only at hroom
          exact .inr (by omega)
      · intro got' hgot'
        obtain ⟨rfl, rfl⟩ := Prod.mk.inj (Except.ok.inj (hes.rejected got' hgot'))
        simp [Polled.isIncluded, hgot'.1] at hincluded

/-- Nothing in the record has reached the network. -/
def Unreached (es : Record) : Prop := ∀ o ∈ es, accepted o = false ∧ polled o = false

/-- How a part of a relay ends that is to leave room for `reserve` subrequests: the budget has cut it,
and everything is kept; or it came to no send that was accepted; or there is the room. -/
inductive Ending (m : Meter) (reserve : ℤ) (kept : Prop) (h es : Record) : Prop
  | cut (hkept : kept) (still : Still es)
  | unsent (hes : Unreached es)
  | room (hroom : m.used + spent (h ++ es) + reserve ≤ m.limit)

/-- The fee of a transaction that the ledger has rejected is settled by its record. -/
def SettlesFee (es : Record) : Prop :=
  ∀ got, Rejects got es → .await (.settle (.settled (feeChargedOf got.resultXdr))) ∈ asked es

variable {kept kept' : Prop} {es es' : Record}

theorem Unreached.append (hes : Unreached es) (hes' : Unreached es') : Unreached (es ++ es') :=
  List.forall_mem_append.mpr ⟨hes, hes'⟩

theorem Unreached.not_rejects {got : Polled} (hes : Unreached es) : ¬Rejects got es := by
  intro h
  obtain ⟨-, o, ho, hreading⟩ := h
  have hno := (hes o ho).2
  rw [polled_of_reading hreading] at hno
  cases hno

theorem SettlesFee.of_unreached (hes : Unreached es) : SettlesFee es :=
  fun _ hgot => absurd hgot hes.not_rejects

theorem SettlesFee.append (hes : SettlesFee es) (hes' : SettlesFee es') : SettlesFee (es ++ es') := by
  intro got hgot
  rw [asked_append]
  rcases rejects_append.mp hgot with hgot | hgot
  · exact List.mem_append_left _ (hes got hgot)
  · exact List.mem_append_right _ (hes' got hgot)

/-- What comes before the send does not matter. -/
theorem Still.after (hes : Unreached es) (hstill : Still es') : Still (es ++ es') where
  unpolled o ho := by
    rcases List.mem_append.mp ho with ho | ho
    · exact (hes o ho).2
    · exact hstill.unpolled o ho
  unspent before sent rest heq hsent := by
    have hno : sent ∉ es := fun hmem => by
      have hnot := (hes sent hmem).1
      rw [hsent] at hnot
      cases hnot
    rcases List.append_eq_append_iff.mp heq with ⟨as, rfl, heq'⟩ | ⟨bs, rfl, heq'⟩
    · exact hstill.unspent as sent rest heq' hsent
    · cases bs with
      | nil => exact hstill.unspent [] sent rest heq'.symm hsent
      | cons b bs =>
        obtain ⟨rfl, -⟩ := List.cons.inj heq'
        exact absurd (List.mem_append_right _ List.mem_cons_self) hno

theorem still_of_sent {sent : Outlay Ask.Answer} (hsent : polled sent = false)
    (hes : ∀ o ∈ es, polled o = false) (hfree : spent es = 0) : Still (sent :: es) where
  unpolled := List.forall_mem_cons.mpr ⟨hsent, hes⟩
  unspent before o rest heq _ := by
    cases before with
    | nil =>
      obtain ⟨-, rfl⟩ := List.cons.inj heq
      exact hfree
    | cons b before =>
      obtain ⟨-, rfl⟩ := List.cons.inj heq
      have hsum : spent (before ++ o :: rest) = 0 := hfree
      rw [spent_append, spent_cons] at hsum
      omega

/-- A part that comes after others. -/
theorem Ending.after (hes : Unreached es) (hend : Ending m reserve kept (h ++ es) es') :
    Ending m reserve kept h (es ++ es') := by
  cases hend with
  | cut hkept still => exact .cut hkept (still.after hes)
  | unsent hes' => exact .unsent (hes.append hes')
  | room hroom => exact .room (by rwa [← List.append_assoc])

/-- A give-back in the room that has been left for it. -/
theorem Ending.giveBack {n : ℕ} (hend : Ending m (reserve + n) kept h es) (hgave : ¬kept)
    (hes' : Unreached es') (hn : spent es' ≤ n) : Ending m reserve kept' h (es ++ es') := by
  cases hend with
  | cut hkept still => exact absurd hkept hgave
  | unsent hes => exact .unsent (hes.append hes')
  | room hroom =>
    refine .room ?_
    rw [← List.append_assoc, spent_append]
    push_cast
    omega

theorem Ending.mono {reserve' : ℤ} (hend : Ending m reserve kept h es) (hle : reserve' ≤ reserve)
    (hkept : kept → kept') : Ending m reserve' kept' h es := by
  cases hend with
  | cut hk still => exact .cut (hkept hk) still
  | unsent hes => exact .unsent hes
  | room hroom => exact .room (by omega)

/-- A submission, as the outlays it adds to a record. -/
structure Submits (m : Meter) (reserve : ℤ) (h : Record) (r : Except Failure Watched) (es : Record) :
    Prop where
  steps : ∀ o ∈ es, ∃ q, o.event.1 = .await q ∧ q.submits = true
  ending : Ending m reserve (IsCut r) h es
  concludes : Concludes r es

/-- The steps before the send. -/
def Before (es : Record) : Prop :=
  ∀ o ∈ es, ∃ q, o.event.1 = .await q ∧ q.submits = true ∧ q.reaches = false

theorem unreached_of_await {o : Outlay Ask.Answer} {q : Await} (ho : o.event.1 = .await q)
    (hq : q.reaches = false) : accepted o = false ∧ polled o = false := by
  obtain ⟨⟨q', a⟩, n⟩ := o
  obtain rfl : q' = .await q := ho
  cases q <;> first | exact ⟨rfl, rfl⟩ | cases hq

theorem Before.unreached (hes : Before es) : Unreached es := by
  intro o ho
  obtain ⟨q, hq, -, hreach⟩ := hes o ho
  exact unreached_of_await hq hreach

/-- A submission that failed before anything was accepted. -/
theorem Submits.unsent {e : Failure} (hsteps : ∀ o ∈ es, ∃ q, o.event.1 = .await q ∧ q.submits = true)
    (hes : Unreached es) : Submits m reserve h (.error e) es where
  steps := hsteps
  ending := .unsent hes
  concludes _ hgot := absurd hgot hes.not_rejects

theorem Submits.after {r : Except Failure Watched} (hes : Before es)
    (hsub : Submits m reserve (h ++ es) r es') : Submits m reserve h r (es ++ es') where
  steps := List.forall_mem_append.mpr ⟨fun o ho => by
    obtain ⟨q, hq, hsubmits, -⟩ := hes o ho
    exact ⟨q, hq, hsubmits⟩, hsub.steps⟩
  ending := hsub.ending.after hes.unreached
  concludes got hgot := by
    rcases rejects_append.mp hgot with hgot | hgot
    · exact absurd hgot hes.unreached.not_rejects
    · obtain ⟨hresult, hasked⟩ := hsub.concludes got hgot
      exact ⟨hresult, asked_append ▸ List.mem_append_right _ hasked⟩

theorem wp_sendAnswered {tx : Payable} {label : String} {sent : Sent} {n : ℕ} :
    (relay (sendAnswered label window sent)).wp (metered Costs (Left m))
      (fun r h' => ∃ es, h' = h ++ es ∧ Submits m window.reserve h r es)
      (h ++ [⟨⟨.await (.sendTransaction tx), .ok sent⟩, n⟩]) := by
  have hsend : ∀ o ∈ [(⟨⟨.await (.sendTransaction tx), .ok sent⟩, n⟩ : Outlay Ask.Answer)],
      ∃ q, o.event.1 = .await q ∧ q.submits = true := List.forall_mem_singleton.mpr ⟨_, rfl, rfl⟩
  -- A refusal settles the charge and ends with an error.
  have hrefused : sent.status = .ERROR ∨ sent.status = .TRY_AGAIN_LATER → ∀ e : Failure,
      (relay (wait (.settle .notIncluded) >>= fun _ => throw e : Route Watched)).wp
        (metered Costs (Left m)) (fun r h' => ∃ es, h' = h ++ es ∧ Submits m window.reserve h r es)
        (h ++ [⟨⟨.await (.sendTransaction tx), .ok sent⟩, n⟩]) := by
    intro hstatus e
    refine wp_relay_wait.mpr fun u k _ _ => ⟨_, List.append_assoc .., Submits.unsent ?_ ?_⟩
    · exact List.forall_mem_append.mpr ⟨hsend, List.forall_mem_singleton.mpr ⟨_, rfl, rfl⟩⟩
    · refine Unreached.append (List.forall_mem_singleton.mpr ⟨?_, rfl⟩) (List.forall_mem_singleton.mpr ⟨rfl, rfl⟩)
      rcases hstatus with hstatus | hstatus <;> simp [accepted, hstatus]
  unfold sendAnswered
  split
  · exact hrefused (.inl ‹_›) _
  · exact hrefused (.inr ‹_›) _
  all_goals
    refine wp_mono ?_ wp_watch
    rintro r _ ⟨es, rfl, hes⟩
    refine ⟨_, List.append_assoc .., ?_, ?_, ?_⟩
    · exact List.forall_mem_append.mpr ⟨hsend, hes.steps⟩
    · rcases hes.room with ⟨hcut, hunpolled, hunspent⟩ | hroom
      · exact .cut hcut (still_of_sent rfl hunpolled hunspent)
      · exact .room (by rwa [← List.append_assoc])
    · intro got hgot
      rcases rejects_append.mp hgot with hgot | hgot
      · exact absurd hgot (not_rejects (List.forall_mem_singleton.mpr rfl))
      · obtain ⟨hresult, hasked⟩ := hes.concludes got hgot
        exact ⟨hresult, asked_append ▸ List.mem_append_right _ hasked⟩

theorem wp_sendSigned {tx : Payable} {label : String} :
    (relay (sendSigned tx label window)).wp (metered Costs (Left m))
      (fun r h' => ∃ es, h' = h ++ es ∧ Submits m window.reserve h r es) h := by
  unfold sendSigned
  split
  · exact ⟨[], (List.append_nil h).symm, .unsent (List.forall_mem_nil _) (List.forall_mem_nil _)⟩
  apply wp_relay_wait.mpr
  intro answer n _ _
  cases answer with
  | error t =>
    have hsend : ∀ o ∈ [(⟨⟨.await (.sendTransaction tx), .error t⟩, n⟩ : Outlay Ask.Answer)],
        ∃ q, o.event.1 = .await q ∧ q.submits = true := List.forall_mem_singleton.mpr ⟨_, rfl, rfl⟩
    have hunsent : Unreached [⟨⟨.await (.sendTransaction tx), .error t⟩, n⟩] :=
      List.forall_mem_singleton.mpr ⟨rfl, rfl⟩
    unfold sendThrew
    dsimp only
    split
    · refine wp_relay_wait.mpr fun u k _ _ => ⟨_, List.append_assoc .., Submits.unsent ?_ ?_⟩
      · exact List.forall_mem_append.mpr ⟨hsend, List.forall_mem_singleton.mpr ⟨_, rfl, rfl⟩⟩
      · exact hunsent.append (List.forall_mem_singleton.mpr ⟨rfl, rfl⟩)
    · exact ⟨_, rfl, .unsent hsend hunsent⟩
  | ok sent => exact wp_sendAnswered

/-- **How `payAndSubmit` ends under the meter.** -/
theorem wp_payAndSubmit {tx : Payable} {label : String} :
    (relay (payAndSubmit tx label window)).wp (metered Costs (Left m))
      (fun r h' => ∃ es, h' = h ++ es ∧ Submits m window.reserve h r es) h := by
  apply wp_relay_wait.mpr
  intro charged n _ _
  have hcharge : Before [⟨⟨.await (.chargeSponsorFee tx.fee), charged⟩, n⟩] :=
    List.forall_mem_singleton.mpr ⟨_, rfl, rfl, rfl⟩
  cases charged with
  | error e =>
    exact ⟨_, rfl, .unsent (List.forall_mem_singleton.mpr ⟨_, rfl, rfl⟩) hcharge.unreached⟩
  | ok charge =>
    dsimp only
    rw [wp_relay_bind, signCharged]
    apply wp_relay_wait.mpr
    intro signed k _ _
    have hsign : Before [⟨⟨.await (.chargeSponsorFee tx.fee), .ok charge⟩, n⟩, ⟨⟨.await (.sign tx), signed⟩, k⟩] :=
      List.forall_mem_cons.mpr ⟨⟨_, rfl, rfl, rfl⟩, List.forall_mem_singleton.mpr ⟨_, rfl, rfl, rfl⟩⟩
    rw [List.append_assoc]
    cases signed with
    | ok u =>
      change (relay (sendSigned tx label window)).wp (metered Costs (Left m)) _ _
      refine wp_mono ?_ wp_sendSigned
      rintro r _ ⟨es, rfl, hes⟩
      exact ⟨_, List.append_assoc .., hes.after hsign⟩
    | error t =>
      refine wp_relay_wait.mpr fun u l _ _ => ⟨_, List.append_assoc .., Submits.unsent ?_ ?_⟩
      · refine List.forall_mem_append.mpr ⟨fun o ho => ?_, List.forall_mem_singleton.mpr ⟨_, rfl, rfl⟩⟩
        obtain ⟨q, hq, hsubmits, -⟩ := hsign o ho
        exact ⟨q, hq, hsubmits⟩
      · exact hsign.unreached.append (List.forall_mem_singleton.mpr ⟨rfl, rfl⟩)

/-! ## The deposit and the reclaim -/

/-- A part of a relay, as the outlays it adds to a record. -/
structure Relays (m : Meter) (reserve : ℤ) (kept : Prop) (h es : Record) : Prop where
  ending : Ending m reserve kept h es
  settles : SettlesFee es

theorem Relays.unsent (hes : Unreached es) : Relays m reserve kept h es :=
  ⟨.unsent hes, .of_unreached hes⟩

theorem Relays.after (hes : Unreached es) (hrelays : Relays m reserve kept (h ++ es) es') :
    Relays m reserve kept h (es ++ es') :=
  ⟨hrelays.ending.after hes, (SettlesFee.of_unreached hes).append hrelays.settles⟩

theorem Relays.mono {reserve' : ℤ} (hrelays : Relays m reserve kept h es) (hle : reserve' ≤ reserve)
    (hkept : kept → kept') : Relays m reserve' kept' h es :=
  ⟨hrelays.ending.mono hle hkept, hrelays.settles⟩

theorem Relays.giveBack {n : ℕ} (hrelays : Relays m (reserve + n) kept h es) (hgave : ¬kept)
    (hes' : Unreached es') (hn : spent es' ≤ n) : Relays m reserve kept' h (es ++ es') :=
  ⟨hrelays.ending.giveBack hgave hes' hn, hrelays.settles.append (.of_unreached hes')⟩

theorem Submits.relays {r : Except Failure Watched} (hsub : Submits m reserve h r es) :
    Relays m reserve (IsCut r) h es :=
  ⟨hsub.ending, fun got hgot => (hsub.concludes got hgot).2⟩

theorem wp_relay_outcome {α : Type} {p : Route α} {post : Except Failure (Except Failure α) → Record → Prop} :
    (relay (p.outcome : Route (Except Failure α))).wp (metered Costs (Left m)) post h ↔
      (relay p).wp (metered Costs (Left m)) (fun r h => post (.ok r) h) h := by
  rw [relay, Dialogue.outcome, relabel_andThen]
  exact wp_andThen

/-- The caps are released in one subrequest, if they are. -/
theorem wp_releaseOnce {release released : Bool} :
    (relay (releaseOnce release released)).wp (metered Costs (Left m))
      (fun r h' => r = .ok true ∧ ∃ es, h' = h ++ es ∧ Unreached es ∧ spent es ≤ (!released).toNat) h := by
  unfold releaseOnce
  split
  · rename_i hdue
    obtain ⟨-, hnot⟩ := Bool.and_eq_true_iff.mp hdue
    refine wp_relay_wait.mpr fun u n hn _ => ⟨rfl, _, rfl, List.forall_mem_singleton.mpr ⟨rfl, rfl⟩, ?_⟩
    have hone : n ≤ 1 := costs_le_one rfl hn
    rwa [spent_cons, spent_nil, hnot]
  · exact ⟨rfl, [], (List.append_nil h).symm, List.forall_mem_nil _, Nat.zero_le _⟩

variable {cfg : DepositConfig} {inner : InnerTransaction} {release : Bool}

theorem not_isCut_error {e : Failure} : ¬IsCut (.error e) := by
  intro h
  obtain ⟨w, heq, -⟩ := h
  cases heq

/-- A part of the deposit's route that ends with `r`: after a rejection it gives up. -/
structure Deposits {α : Type} (m : Meter) (reserve : ℤ) (r : Except Failure α) (h es : Record) : Prop where
  relays : Relays m reserve (gaveUp r = false) h es
  gave : ∀ got, Rejects got es → gaveUp r = true

section

variable {α β : Type} {r : Except Failure α} {r' : Except Failure β}

theorem Deposits.unsent (hes : Unreached es) : Deposits m reserve r h es :=
  ⟨.unsent hes, fun _ hgot => absurd hgot hes.not_rejects⟩

theorem Deposits.after (hes : Unreached es) (hdep : Deposits m reserve r (h ++ es) es') :
    Deposits m reserve r h (es ++ es') where
  relays := hdep.relays.after hes
  gave got hgot := by
    rcases rejects_append.mp hgot with hbefore | hafter
    · exact absurd hbefore hes.not_rejects
    · exact hdep.gave got hafter

theorem Deposits.mono {reserve' : ℤ} (hdep : Deposits m reserve r h es) (hle : reserve' ≤ reserve)
    (heq : gaveUp r' = gaveUp r) : Deposits m reserve' r' h es where
  relays := hdep.relays.mono hle fun hkept => heq.trans hkept
  gave got hgot := heq.trans (hdep.gave got hgot)

theorem Deposits.giveBack {n : ℕ} (hdep : Deposits m (reserve + n) r h es) (hgave : gaveUp r = true)
    (hes' : Unreached es') (hn : spent es' ≤ n) : Deposits m reserve r h (es ++ es') where
  relays := hdep.relays.giveBack (by simp [hgave]) hes' hn
  gave _ _ := hgave

end

/-- The release of the caps that is still owed, and one of the slot. -/
theorem wp_depositAttempt : (relay (depositAttempt cfg inner release)).wp (metered Costs (Left m))
    (fun r h' => ∃ res released es, r = .ok (res, released) ∧ h' = h ++ es ∧
      Deposits m (1 + (!released).toNat) res h es) h := by
  unfold depositAttempt
  split
  · exact ⟨_, false, [], rfl, (List.append_nil h).symm, .unsent (List.forall_mem_nil _)⟩
  rw [wp_relay_bind, wp_relay_outcome]
  refine wp_mono ?_ wp_payAndSubmit
  rintro r _ ⟨es, rfl, hes⟩
  rw [onValue_ok]
  cases r with
  | error e =>
    refine ⟨_, false, es, rfl, rfl, hes.relays.mono le_rfl fun hcut => absurd hcut not_isCut_error, ?_⟩
    intro got hgot
    obtain ⟨⟨w, heq, -⟩, -⟩ := hes.concludes got hgot
    cases heq
  | ok w =>
    have hkept : w.got.status ≠ .FAILED → ∀ relayed, ∃ res released es',
        (.ok (.ok relayed, false) : Except Failure _) = .ok (res, released) ∧ h ++ es = h ++ es' ∧
          Deposits m (1 + (!released).toNat) (res : Except Failure Relayed) h es' := by
      intro hstatus relayed
      refine ⟨_, false, es, rfl, rfl, hes.relays.mono le_rfl fun _ => rfl, fun got hgot => ?_⟩
      obtain ⟨⟨w', heq, hrejected⟩, -⟩ := hes.concludes got hgot
      obtain rfl := Except.ok.inj heq
      exact absurd (hrejected ▸ hgot.1) hstatus
    unfold depositWatched
    dsimp only
    split
    · rename_i hstatus
      exact hkept (by simp [hstatus]) _
    · rename_i hstatus
      rw [wp_relay_bind]
      refine wp_mono ?_ wp_releaseOnce
      rintro _ _ ⟨rfl, es', rfl, hunreached, hspent⟩
      refine ⟨_, true, es ++ es', rfl, List.append_assoc .., hes.relays.giveBack ?_ hunreached hspent,
        fun _ _ => rfl⟩
      rintro ⟨w', heq, -, hnot⟩
      obtain rfl := Except.ok.inj heq
      cases hstatus.symm.trans hnot
    all_goals
      rename_i hstatus
      exact hkept (by simp [hstatus]) _

theorem wp_depositReserved : (relay (depositReserved cfg inner release)).wp (metered Costs (Left m))
    (fun r h' => ∃ es, h' = h ++ es ∧ Deposits m 1 r h es) h := by
  unfold depositReserved
  rw [wp_relay_bind]
  refine wp_mono ?_ wp_depositAttempt
  rintro _ _ ⟨res, released, es, rfl, rfl, hes⟩
  rw [onValue_ok]
  cases res with
  | ok relayed => exact ⟨es, rfl, hes.mono (by omega) rfl⟩
  | error e =>
    dsimp only
    split
    · rename_i hplain
      rw [wp_relay_bind]
      refine wp_mono ?_ wp_releaseOnce
      rintro _ _ ⟨rfl, es', rfl, hunreached, hspent⟩
      exact ⟨_, List.append_assoc .., hes.giveBack hplain hunreached hspent⟩
    · exact ⟨es, rfl, hes.mono (by omega) rfl⟩

theorem wp_relayDeposit {input : RelayDepositInput} :
    (relay (relayDeposit cfg input)).wp (metered Costs (Left m))
      (fun r h' => ∃ es, h' = h ++ es ∧ Deposits m 1 r h es) h := by
  unfold relayDeposit
  split
  · exact ⟨[], (List.append_nil h).symm, .unsent (List.forall_mem_nil _)⟩
  apply wp_relay_wait.mpr
  intro simulated n _ _
  have hsimulated : Unreached [⟨⟨.await .simulateTransaction, simulated⟩, n⟩] :=
    List.forall_mem_singleton.mpr ⟨rfl, rfl⟩
  cases simulated with
  | error t => exact ⟨_, rfl, .unsent hsimulated⟩
  | ok sim =>
    dsimp only
    split
    · exact ⟨_, rfl, .unsent hsimulated⟩
    apply wp_relay_wait.mpr
    intro reserved k _ _
    have hreserved := hsimulated.append
      (List.forall_mem_singleton.mpr ⟨rfl, rfl⟩ : Unreached [⟨⟨.await (.checkCaps _ _), reserved⟩, k⟩])
    rw [List.append_assoc]
    cases reserved with
    | refused reason => exact ⟨_, rfl, .unsent hreserved⟩
    | admitted release =>
      refine wp_mono ?_ wp_depositReserved
      rintro r _ ⟨es, rfl, hes⟩
      exact ⟨_, List.append_assoc .., hes.after hreserved⟩

theorem wp_depositRoute {pilotEnabled : Bool} {input : RelayDepositInput} :
    (relay (depositRoute cfg pilotEnabled input)).wp (metered Costs (Left m))
      (fun r h' => ∃ es, h' = h ++ es ∧ Deposits m 0 r h es) h := by
  unfold depositRoute withPilotSlot
  split
  · rw [wp_relay_bind]
    refine wp_mono ?_ wp_relayDeposit
    rintro r _ ⟨es, rfl, hes⟩
    cases r with
    | ok relayed => exact ⟨es, rfl, hes.mono (by omega) rfl⟩
    | error e => exact ⟨es, rfl, hes.mono (by omega) rfl⟩
  apply wp_relay_wait.mpr
  intro slot n _ _
  have hslot : Unreached [⟨⟨.await (.enforcePilot input.senderPublicKey), slot⟩, n⟩] :=
    List.forall_mem_singleton.mpr ⟨rfl, rfl⟩
  cases slot with
  | refused reason => exact ⟨_, rfl, .unsent hslot⟩
  | admitted release =>
    dsimp only
    rw [wp_relay_bind, wp_relay_outcome]
    refine wp_mono ?_ wp_relayDeposit
    rintro r _ ⟨es, rfl, hes⟩
    rw [onValue_ok]
    cases r with
    | ok relayed =>
      exact ⟨_, List.append_assoc .., .after hslot (hes.mono (by omega) rfl)⟩
    | error e =>
      dsimp only
      split
      · rename_i hdue
        obtain ⟨-, hplain⟩ := Bool.and_eq_true_iff.mp hdue
        apply wp_relay_wait.mpr
        intro u k hk _
        have hone : spent [(⟨⟨.await .releasePilot, u⟩, k⟩ : Outlay Ask.Answer)] ≤ 1 := costs_le_one rfl hk
        have hroom : Deposits m (0 + (1 : ℕ)) (.error e : Except Failure (Slotted Relayed))
          (h ++ [⟨⟨.await (.enforcePilot input.senderPublicKey), .admitted release⟩, n⟩]) es :=
          hes.mono le_rfl rfl
        exact ⟨_, by rw [List.append_assoc, List.append_assoc], (hroom.giveBack hplain
          (List.forall_mem_singleton.mpr ⟨rfl, rfl⟩) hone).after hslot⟩
      · exact ⟨_, List.append_assoc .., .after hslot (hes.mono (by omega) rfl)⟩

/-- The steps that take a reservation. -/
def reserves : Ask → Bool
  | .await (.checkCaps ..) | .await (.enforcePilot _) => true
  | _ => false

def Ungated (es : Record) : Prop := ∀ o ∈ es, reserves o.event.1 = false

theorem Submits.ungated {r : Except Failure Watched} (hsub : Submits m reserve h r es) : Ungated es := by
  intro o ho
  obtain ⟨q, hq, hsubmits⟩ := hsub.steps o ho
  rw [hq]
  cases q <;> first | rfl | cases hsubmits

theorem wp_relayReclaim {cfg : RelayConfig} {input : RelayDepositInput} :
    (relay (relayReclaim cfg input)).wp (metered Costs (Left m))
      (fun _ h' => ∃ es, h' = h ++ es ∧ Relays m 0 True h es ∧ Ungated es) h := by
  unfold relayReclaim
  split
  · exact ⟨[], (List.append_nil h).symm, .unsent (List.forall_mem_nil _), List.forall_mem_nil _⟩
  apply wp_relay_wait.mpr
  intro simulated n _ _
  have hsimulated : Unreached [⟨⟨.await .simulateTransaction, simulated⟩, n⟩] :=
    List.forall_mem_singleton.mpr ⟨rfl, rfl⟩
  have hungated : Ungated [⟨⟨.await .simulateTransaction, simulated⟩, n⟩] :=
    List.forall_mem_singleton.mpr rfl
  cases simulated with
  | error t => exact ⟨_, rfl, .unsent hsimulated, hungated⟩
  | ok sim =>
    dsimp only
    split
    · exact ⟨_, rfl, .unsent hsimulated, hungated⟩
    split
    · exact ⟨_, rfl, .unsent hsimulated, hungated⟩
    rw [wp_relay_bind]
    refine wp_mono ?_ wp_payAndSubmit
    rintro r _ ⟨es, rfl, hes⟩
    have hend : ∃ es', h ++ [⟨⟨.await .simulateTransaction, .ok sim⟩, n⟩] ++ es = h ++ es' ∧
        Relays m 0 True h es' ∧ Ungated es' :=
      ⟨_, List.append_assoc .., (hes.relays.mono le_rfl fun _ => trivial).after hsimulated,
        List.forall_mem_append.mpr ⟨hungated, hes.ungated⟩⟩
    cases r with
    | error e => exact hend
    | ok w =>
      rw [onValue_ok]
      unfold reclaimWatched
      split <;> exact hend

end

/-! ## The relays on a channel -/

/-- The steps of a search for a lease. -/
def leases : Ask → Bool
  | .randomUUID | .pipeline _ | .memory _ | .shuffled _ | .sleep _ => true
  | _ => false

/-- One of the two stores of leases. -/
def OwnStore (s : LeaseStore) : Prop := s = redisLeaseStore ∨ s = memoryLeaseStore

section

variable {s : LeaseStore} {mgr : ChannelManager} {opts : LeaseOptions}

theorem asks_pipeline {cmd : LeaseCmd} : (Channels.pipeline cmd).Asks (leases · = true) := by
  refine asks_ask.mpr ⟨rfl, fun answer => ?_⟩
  match answer with
  | .error message => exact asks_throw
  | .ok [] => exact asks_throw
  | .ok (first :: rest) => exact asks_ite asks_throw asks_pure

theorem asks_memoryAcquire {key : String} {ttlSeconds : ℕ} :
    (memoryAcquire key ttlSeconds).Asks (leases · = true) :=
  asks_ask.mpr ⟨rfl, fun _ => asks_ask.mpr ⟨rfl, fun _ => asks_pure⟩⟩

theorem asks_memoryAcquireAny {ttlSeconds : ℕ} {keys : List String} {index : ℕ} :
    (memoryAcquireAny ttlSeconds keys index).Asks (leases · = true) := by
  induction keys generalizing index with
  | nil => exact asks_pure
  | cons key rest ih =>
    apply Asks.bind asks_memoryAcquire
    intro token
    cases token with
    | none => exact ih
    | some token => exact asks_pure

theorem asks_acquire (hs : OwnStore s) {key : String} {ttlSeconds : ℕ} :
    (s.acquire key ttlSeconds).Asks (leases · = true) := by
  rcases hs with rfl | rfl
  · exact asks_ask.mpr ⟨rfl, fun _ => asks_pipeline.bind fun _ => asks_pure⟩
  · exact asks_memoryAcquire

theorem asks_acquireAny (hs : OwnStore s) {f : List String → ℕ → Call (Option (ℕ × String))}
    (hf : s.acquireAny = some f) {keys : List String} {ttlSeconds : ℕ} :
    (f keys ttlSeconds).Asks (leases · = true) := by
  rcases hs with rfl | rfl
  · cases hf
    exact asks_ask.mpr ⟨rfl, fun _ => asks_pipeline.bind fun _ => asks_pure⟩
  · cases hf
    exact asks_memoryAcquireAny

theorem asks_probeEach (hs : OwnStore mgr.store) {order : List (Fin mgr.keypairs.length)} {probes : ℕ} :
    (probeEach mgr opts order probes).Asks (leases · = true) := by
  induction order generalizing probes with
  | nil => exact asks_pure
  | cons idx rest ih =>
    rw [probeEach]
    refine asks_ite asks_pure ((asks_acquire hs).outcome.bind fun r => ?_)
    match r with
    | .error e => exact asks_pure
    | .ok (some token) => exact asks_pure
    | .ok none => exact ih

theorem asks_probe (hs : OwnStore mgr.store) {order : List (Fin mgr.keypairs.length)} {probes : ℕ} :
    (probe mgr opts order probes).Asks (leases · = true) := by
  unfold probe
  split
  · next f hf =>
    refine (asks_acquireAny hs hf).outcome.bind fun r => ?_
    match r with
    | .error e => exact asks_pure
    | .ok none => exact asks_pure
    | .ok (some (index, token)) =>
      dsimp only
      split
      · exact asks_throw
      · exact asks_pure
  · exact asks_probeEach hs

theorem asks_attempt (hs : OwnStore mgr.store) {left probes : ℕ} :
    (attempt mgr opts left probes).Asks (leases · = true) := by
  induction left generalizing probes with
  | zero => exact asks_pure
  | succ left ih =>
    rw [attempt]
    refine asks_ite asks_pure (asks_ask.mpr ⟨rfl, fun order => (asks_probe hs).bind fun found => ?_⟩)
    cases found with
    | inl found => exact asks_pure
    | inr probes => exact asks_ite (Asks.bind (asks_question rfl) fun _ => ih) ih

theorem asks_leaseOf {channels : Option ChannelManager} (hstore : ∀ c ∈ channels, OwnStore c.store) :
    (leaseOf channels).Asks (leases · = true) := by
  cases channels with
  | none => exact asks_pure
  | some mgr => exact asks_ite asks_pure (asks_attempt (hstore mgr rfl))

variable {m : Meter} {h es es' : Record} {reserve : ℤ} {kept : Prop} {l : ChannelLease}

theorem wp_pipeline {cmd : LeaseCmd} : (Channels.pipeline cmd).wp (metered Costs (Left m))
    (fun _ h' => ∃ o, h' = h ++ [o] ∧ o.event.1 = .pipeline cmd ∧ o.cost ≤ 1) h := by
  apply wp_metered_bind.mpr
  intro answer n hn _
  have hone : n ≤ 1 := costs_le_one rfl hn
  match answer with
  | .error message => exact ⟨_, rfl, rfl, hone⟩
  | .ok [] => exact ⟨_, rfl, rfl, hone⟩
  | .ok (first :: rest) =>
    dsimp only
    split <;> exact ⟨_, rfl, rfl, hone⟩

/-- A lease is freed in one subrequest, if in any. -/
theorem wp_release (hs : OwnStore mgr.store) : (release (some mgr) l).wp (metered Costs (Left m))
    (fun r h' => r = .ok () ∧ ∃ o, h' = h ++ [o] ∧ frees l o.event.1 ∧ o.cost ≤ 1) h := by
  change (mgr.store.release _ _).wp _ _ _
  rcases hs with heq | heq
  · rw [heq]
    change ((Channels.pipeline _).outcome >>= _).wp _ _ _
    rw [wp_bind, wp_outcome]
    refine wp_mono ?_ wp_pipeline
    rintro r _ ⟨o, rfl, ho, hone⟩
    exact ⟨rfl, o, rfl, .inl ho, hone⟩
  · rw [heq]
    apply wp_metered_bind.mpr
    intro result n hn _
    exact ⟨rfl, _, rfl, .inr rfl, costs_le_one rfl hn⟩

theorem unreached_of_leases {o : Outlay Ask.Answer} (ho : leases o.event.1 = true) :
    accepted o = false ∧ polled o = false := by
  obtain ⟨⟨q, a⟩, n⟩ := o
  cases q <;> first | exact ⟨rfl, rfl⟩ | cases ho

theorem ungated_of_leases {q : Ask} (hq : leases q = true) : reserves q = false := by
  cases q <;> first | rfl | cases hq

theorem leases_of_frees {q : Ask} (hq : frees l q) : leases q = true := by
  rcases hq with rfl | rfl <;> rfl

/-- After a rejection, the lease of the channel that was built on is freed. -/
def FreesLease (es : Record) : Prop := (∃ got, Rejects got es) →
  ∀ l timeoutSeconds, .build (some l) timeoutSeconds ∈ asked es → ∃ q ∈ asked es, frees l q

theorem freesLease_append (hes : ¬∃ got, Rejects got es)
    (hbuild : ∀ l timeoutSeconds, .build l timeoutSeconds ∉ asked es) (hes' : FreesLease es') :
    FreesLease (es ++ es') := by
  rintro ⟨got, hgot⟩ l timeoutSeconds hmem
  have hafter : Rejects got es' := (rejects_append.mp hgot).resolve_left fun hbefore => hes ⟨got, hbefore⟩
  rw [asked_append] at hmem ⊢
  rcases List.mem_append.mp hmem with hmem | hmem
  · exact absurd hmem (hbuild _ _)
  · obtain ⟨q, hq, hfrees⟩ := hes' ⟨got, hafter⟩ l timeoutSeconds hmem
    exact ⟨q, List.mem_append_right _ hq, hfrees⟩

/-- The `try` of a relay on a channel, as the outlays it adds to a record. -/
structure Attempts (m : Meter) (leased : Option ChannelLease) (h : Record) (r : Except Failure Watched)
    (es : Record) : Prop where
  ending : Ending m 1 (IsCut r) h es
  concludes : Concludes r es
  built : ∀ l timeoutSeconds, .build (some l) timeoutSeconds ∈ asked es → leased = some l
  ungated : Ungated es

theorem not_built_of_steps {l : Option ChannelLease} {timeoutSeconds : ℕ}
    (hsteps : ∀ o ∈ es, ∃ q, o.event.1 = .await q ∧ q.submits = true) :
    .build l timeoutSeconds ∉ asked es := by
  intro hmem
  obtain ⟨o, ho, heq⟩ := List.mem_map.mp hmem
  obtain ⟨q, hq, -⟩ := hsteps o ho
  cases heq.symm.trans hq

variable {leased : Option ChannelLease}

/-- It failed before anything was sent. -/
theorem Attempts.unsent {e : Failure} (hes : Unreached es)
    (hbuilt : ∀ l timeoutSeconds, .build (some l) timeoutSeconds ∈ asked es → leased = some l)
    (hungated : Ungated es) : Attempts m leased h (.error e) es :=
  ⟨.unsent hes, fun _ hgot => absurd hgot hes.not_rejects, hbuilt, hungated⟩

theorem wp_relayAttempt {cfg : SponsorConfig} {relay : Channels.Relay} :
    (relayAttempt cfg relay leased).wp (metered Costs (Left m))
      (fun r h' => ∃ es, h' = h ++ es ∧ Attempts m leased h r es) h := by
  unfold relayAttempt
  generalize (leased.map (·.publicKey)).getD cfg.sponsorAccountId = source
  apply wp_metered_bind.mpr
  intro loaded n _ _
  cases loaded with
  | error t =>
    refine ⟨_, rfl, .unsent (List.forall_mem_singleton.mpr ⟨rfl, rfl⟩) (fun l _ hmem => ?_)
      (List.forall_mem_singleton.mpr rfl)⟩
    cases List.mem_singleton.mp hmem
  | ok u =>
    change (ask (.build leased relay.timeoutSeconds) >>= _).wp _ _ _
    apply wp_metered_bind.mpr
    intro built k _ _
    apply wp_metered_bind.mpr
    intro simulated j _ _
    rw [List.append_assoc, List.append_assoc]
    -- What comes before the send.
    let start : Record := [⟨⟨.loadAccount source, .ok u⟩, n⟩] ++ ([⟨⟨.build leased relay.timeoutSeconds, built⟩, k⟩] ++
      [⟨⟨.await .simulateTransaction, simulated⟩, j⟩])
    have hstart : Unreached start := by simp [start, Unreached, accepted, polled]
    have hungated : Ungated start := by simp [start, Ungated, reserves]
    have hbuilt : ∀ l timeoutSeconds, .build (some l) timeoutSeconds ∈ asked start → leased = some l := by
      intro l timeoutSeconds hmem
      simp only [start, asked, List.map_cons, List.map_nil, List.cons_append, List.nil_append,
        List.mem_cons, reduceCtorEq, List.not_mem_nil, or_false, false_or, Ask.build.injEq] at hmem
      exact hmem.1.symm
    cases simulated with
    | error t => exact ⟨start, rfl, .unsent hstart hbuilt hungated⟩
    | ok sim =>
      rw [orThrow_ok_bind]
      split
      · exact ⟨start, rfl, .unsent hstart hbuilt hungated⟩
      · refine wp_mono ?_ wp_payAndSubmit
        rintro r _ ⟨es, rfl, hes⟩
        refine ⟨start ++ es, List.append_assoc .., hes.ending.after hstart, ?_, ?_,
          List.forall_mem_append.mpr ⟨hungated, hes.ungated⟩⟩
        · intro got hgot
          have hafter := (rejects_append.mp hgot).resolve_left hstart.not_rejects
          obtain ⟨hresult, hasked⟩ := hes.concludes got hafter
          exact ⟨hresult, asked_append ▸ List.mem_append_right _ hasked⟩
        · intro l timeoutSeconds hmem
          rw [asked_append] at hmem
          rcases List.mem_append.mp hmem with hmem | hmem
          · exact hbuilt l timeoutSeconds hmem
          · exact absurd hmem (not_built_of_steps hes.steps)

/-- A window that was cut keeps its lease. -/
theorem keepsLease_of_isCut {r : Except Failure Watched} (hcut : IsCut r) : keepsLease r = true := by
  obtain ⟨w, rfl, hw, hstatus⟩ := hcut
  simp [keepsLease, hw, hstatus]

theorem not_keepsLease_of_rejects {r : Except Failure Watched} (hr : Concludes r es) {got : Polled}
    (hgot : Rejects got es) : keepsLease r = false := by
  obtain ⟨⟨w, rfl, rfl⟩, -⟩ := hr got hgot
  simp [keepsLease, hgot.1]

theorem wp_leaseOf {channels : Option ChannelManager} (hstore : ∀ c ∈ channels, OwnStore c.store) :
    (leaseOf channels).wp (metered Costs (Left m)) (fun r h' => ∃ es, h' = h ++ es ∧ Unreached es ∧
      (∀ l timeoutSeconds, .build l timeoutSeconds ∉ asked es) ∧ Ungated es ∧
      ∀ l, r = .ok (some l) → ∃ mgr, channels = some mgr) h := by
  cases channels with
  | none => exact ⟨[], (List.append_nil h).symm, List.forall_mem_nil _,
    fun _ _ => List.not_mem_nil, List.forall_mem_nil _, nofun⟩
  | some mgr =>
    refine wp_mono ?_ (asks_leaseOf hstore).wp_metered
    rintro r _ ⟨es, rfl, hes⟩
    refine ⟨es, rfl, fun o ho => unreached_of_leases (hes o ho).1, fun l timeoutSeconds hmem => ?_,
      fun o ho => ungated_of_leases (hes o ho).1, fun _ _ => ⟨mgr, rfl⟩⟩
    obtain ⟨o, ho, heq⟩ := List.mem_map.mp hmem
    have hleases := (hes o ho).1
    rw [heq] at hleases
    cases hleases

theorem FreesLease.of_unreached (hes : Unreached es) : FreesLease es := by
  intro h
  obtain ⟨got, hgot⟩ := h
  exact absurd hgot hes.not_rejects

theorem wp_relayOnChannel {cfg : SponsorConfig} {channels : Option ChannelManager}
    {relay : Channels.Relay} (hstore : ∀ c ∈ channels, OwnStore c.store) :
    (relayOnChannel cfg channels relay).wp (metered Costs (Left m))
      (fun _ h' => ∃ es, h' = h ++ es ∧ Relays m 0 True h es ∧ FreesLease es ∧ Ungated es) h := by
  unfold relayOnChannel
  rw [wp_bind]
  refine wp_mono ?_ (wp_leaseOf hstore)
  rintro r _ ⟨search, rfl, hsearch, hbuild, hungated, hleased⟩
  cases r with
  | error e => exact ⟨search, rfl, .unsent hsearch, .of_unreached hsearch, hungated⟩
  | ok leased =>
    rw [onValue_ok, wp_bind, wp_outcome]
    refine wp_mono ?_ wp_relayAttempt
    rintro attempted _ ⟨es, rfl, hes⟩
    rw [onValue_ok]
    have hkept : FreesLease es → ∃ es', h ++ search ++ es = h ++ es' ∧ Relays m 0 True h es' ∧
        FreesLease es' ∧ Ungated es' :=
      fun hfrees => ⟨search ++ es, List.append_assoc .., Relays.after hsearch
        ⟨hes.ending.mono (by omega) fun _ => trivial, fun got hgot => (hes.concludes got hgot).2⟩,
        freesLease_append (fun ⟨_, hgot⟩ => hsearch.not_rejects hgot) hbuild hfrees,
        List.forall_mem_append.mpr ⟨hungated, hes.ungated⟩⟩
    cases leased with
    | none =>
      have hfrees : FreesLease es := fun _ l timeoutSeconds hmem => nomatch hes.built l timeoutSeconds hmem
      cases attempted <;> exact hkept hfrees
    | some l =>
      obtain ⟨mgr, rfl⟩ := hleased l rfl
      have hend : ∀ served : Except Failure Served, (do
          if keepsLease attempted then pure () else release (some mgr) l
          .ret served : Call Served).wp (metered Costs (Left m))
            (fun _ h' => ∃ es, h' = h ++ es ∧ Relays m 0 True h es ∧ FreesLease es ∧ Ungated es) (h ++ search ++ es) := by
        intro served
        split
        · rename_i hkeeps
          refine hkept fun ⟨got, hgot⟩ => ?_
          rw [not_keepsLease_of_rejects hes.concludes hgot] at hkeeps
          cases hkeeps
        · rename_i hfree
          rw [wp_bind]
          refine wp_mono ?_ (wp_release (hstore mgr rfl))
          rintro _ _ ⟨rfl, o, rfl, hfrees, hone⟩
          have hafter : Relays m 0 True (h ++ search) (es ++ [o]) := by
            have hroom : Relays m (0 + (1 : ℕ)) (IsCut attempted) (h ++ search) es :=
              ⟨hes.ending, fun got hgot => (hes.concludes got hgot).2⟩
            refine hroom.giveBack (fun hcut => hfree (keepsLease_of_isCut hcut)) ?_ ?_
            · exact List.forall_mem_singleton.mpr (unreached_of_leases (leases_of_frees hfrees))
            · rwa [spent_cons, spent_nil]
          refine ⟨search ++ (es ++ [o]), by simp only [List.append_assoc], hafter.after hsearch,
            freesLease_append (fun ⟨_, hgot⟩ => hsearch.not_rejects hgot) hbuild ?_,
            List.forall_mem_append.mpr ⟨hungated, List.forall_mem_append.mpr ⟨hes.ungated,
              List.forall_mem_singleton.mpr (ungated_of_leases (leases_of_frees hfrees))⟩⟩⟩
          rintro - l' timeoutSeconds hmem
          rw [asked_append] at hmem ⊢
          refine ⟨o.event.1, List.mem_append_right _ (List.mem_singleton_self _), ?_⟩
          rcases List.mem_append.mp hmem with hmem | hmem
          · obtain rfl := Option.some.inj (hes.built l' timeoutSeconds hmem)
            exact hfrees
          · have hlease := leases_of_frees hfrees
            have heq : Ask.build (some l') timeoutSeconds = o.event.1 := List.mem_singleton.mp hmem
            rw [← heq] at hlease
            cases hlease
      cases attempted <;> exact hend _

end

/-! ## The runs -/

section

variable {m : Meter} {h es : Record} {α : Type}

theorem awaited_append {h' : Record} : awaited (h ++ h') = awaited h ++ awaited h' := List.filterMap_append

/-- What holds of the shared steps by themselves holds of them here, where there are no others. -/
theorem wp_relay {p : Route α} {post : Except Failure α → History → Prop}
    (hp : p.wp (recorded fun _ _ => True) post (awaited h)) :
    (relay p).wp (metered Costs (Left m)) (fun r h' => post r (awaited h') ∧
      ∃ es, h' = h ++ es ∧ ∀ o ∈ es, ∃ q, o.event.1 = .await q) h := by
  induction p generalizing h with
  | ret r => exact ⟨hp, [], (List.append_nil h).symm, List.forall_mem_nil _⟩
  | ask q k ih =>
    apply wp_metered_ask.mpr
    intro a n _ _
    have hnext : (k a).wp (recorded fun _ _ => True) post (awaited (h ++ [⟨⟨.await q, a⟩, n⟩])) := by
      rw [awaited_append]
      exact hp a _ ⟨trivial, rfl⟩
    refine wp_mono ?_ (ih a hnext)
    rintro r _ ⟨hpost, es, rfl, hes⟩
    exact ⟨hpost, _, List.append_assoc .., List.forall_mem_cons.mpr ⟨⟨q, rfl⟩, hes⟩⟩

theorem mem_awaited {e : Event Await.Answer} (he : e ∈ awaited h) :
    ∃ o ∈ h, o.event = ⟨.await e.1, e.2⟩ := by
  obtain ⟨o, ho, heq⟩ := List.mem_filterMap.mp he
  refine ⟨o, ho, ?_⟩
  split at heq
  · rename_i q a hevent
    obtain rfl := Option.some.inj heq
    exact hevent
  · cases heq

theorem asked_of_times {q : Await} (hq : times q (awaited h) = 1) : .await q ∈ asked h := by
  have hpos : 0 < List.countP (fun e => decide (e.1 = q)) (awaited h) := Nat.lt_of_lt_of_eq Nat.one_pos hq.symm
  obtain ⟨e, he, heq⟩ := List.countP_pos_iff.mp hpos
  obtain ⟨o, ho, hevent⟩ := mem_awaited he
  have hfst : e.1 = q := of_decide_eq_true heq
  have hquestion : o.event.1 = .await e.1 := congrArg Sigma.fst hevent
  exact List.mem_map.mpr ⟨o, ho, hquestion.trans (congrArg Ask.await hfst)⟩

theorem not_taken_of_ungated (hes : Ungated h) : ¬CapTaken (awaited h) ∧ ¬SlotTaken (awaited h) := by
  constructor
  · rintro ⟨amountStroops, sender, hmem⟩
    obtain ⟨o, ho, hevent⟩ := mem_awaited hmem
    have hno := hes o ho
    rw [hevent] at hno
    cases hno
  · rintro ⟨pubkey, hmem⟩
    obtain ⟨o, ho, hevent⟩ := mem_awaited hmem
    have hno := hes o ho
    rw [hevent] at hno
    cases hno

/-- **A relay that ends with no room owed leaves room.** -/
theorem Relays.leavesRoom (hrelays : Relays m 0 True [] h)
    (hback : ∀ got, Rejects got h → .await (.settle (.settled (feeChargedOf got.resultXdr))) ∈ asked h →
      GivenBack got h) : LeavesRoom m h := by
  refine .intro ?_ fun got hgot => hback got hgot (hrelays.settles got hgot)
  cases hrelays.ending with
  | cut _ still => exact .inl still
  | unsent hes =>
    refine .inl ⟨fun o ho => (hes o ho).2, fun before sent rest heq hsent => ?_⟩
    have hnot := (hes sent (heq ▸ List.mem_append_right _ List.mem_cons_self)).1
    rw [hsent] at hnot
    cases hnot
  | room hroom =>
    rw [List.nil_append] at hroom
    exact .inr (by omega)

theorem leavesRoom_of_channel (hrelays : Relays m 0 True [] h) (hfrees : FreesLease h) (hes : Ungated h) :
    LeavesRoom m h := hrelays.leavesRoom fun got hgot hfee =>
  { fee := hfee
    cap := fun htaken => absurd htaken (not_taken_of_ungated hes).1
    slot := fun htaken => absurd htaken (not_taken_of_ungated hes).2
    lease := hfrees ⟨got, hgot⟩ }

theorem not_built_of_awaits (hes : ∀ o ∈ es, ∃ q, o.event.1 = .await q) {l : Option ChannelLease}
    {timeoutSeconds : ℕ} : .build l timeoutSeconds ∉ asked es := by
  intro hmem
  obtain ⟨o, ho, heq⟩ := List.mem_map.mp hmem
  obtain ⟨q, hq⟩ := hes o ho
  cases heq.symm.trans hq

theorem leavesRoom_of_deposit {r : Except Failure (Slotted Relayed)} (hdep : Deposits m 0 r [] h)
    (hends : RouteEnds r (awaited h)) (hes : ∀ o ∈ h, ∃ q, o.event.1 = .await q) : LeavesRoom m h := by
  refine (hdep.relays.mono le_rfl fun _ => trivial).leavesRoom fun got hgot hfee => ?_
  rcases hends with ⟨hcap, hslot, -, -⟩ | ⟨-, hcap, hslot⟩
  · exact ⟨hfee, fun htaken => absurd htaken hcap, fun htaken => absurd htaken hslot,
      fun _ _ hmem => absurd hmem (not_built_of_awaits hes)⟩
  · have hgave := hdep.gave got hgot
    exact ⟨hfee, fun htaken => asked_of_times (hcap.gave hgave htaken),
      fun htaken => asked_of_times (hslot.gave hgave htaken),
      fun _ _ hmem => absurd hmem (not_built_of_awaits hes)⟩

theorem wp_discard {p : Call α} {post : Record → Prop} (hp : p.wp (metered Costs (Left m)) (fun _ => post) h) :
    (p >>= fun _ => return () : Call Unit).wp (metered Costs (Left m)) (fun _ => post) h := by
  rw [wp_bind]
  refine wp_mono (fun r h' hpost => ?_) hp
  cases r <;> exact hpost

theorem wp_serve {relay : Handler} (hstore : ∀ c ∈ relay.channels, OwnStore c.store) :
    relay.serve.wp (metered Costs (Left m)) (fun _ => LeavesRoom m) [] := by
  have hidle : LeavesRoom m [] := leavesRoom_of_channel (.unsent (List.forall_mem_nil _))
    (.of_unreached (List.forall_mem_nil _)) (List.forall_mem_nil _)
  have hchannel : ∀ cfg channels r, (∀ c ∈ channels, OwnStore c.store) →
      (relayOnChannel cfg channels r).wp (metered Costs (Left m)) (fun _ => LeavesRoom m) [] := by
    intro cfg channels r hstore
    refine wp_mono ?_ (wp_relayOnChannel hstore)
    intro _ _ h
    obtain ⟨es, rfl, hrelays, hfrees, hes⟩ := h
    exact leavesRoom_of_channel hrelays hfrees hes
  cases relay with
  | relayClaim cfg sdk input channels =>
    apply wp_discard
    unfold relayClaimHandler
    split
    · exact hidle
    · exact hchannel cfg channels _ hstore
  | relayDeposit cfg pilotEnabled input =>
    refine wp_discard (wp_mono ?_ (wp_and wp_depositRoute (wp_relay Sponsor.wp_depositRoute)))
    intro r _ h
    obtain ⟨⟨es, rfl, hrelays⟩, hends, es', heq, hes⟩ := h
    obtain rfl := heq
    exact leavesRoom_of_deposit hrelays hends hes
  | relayReclaim cfg input =>
    have hawaits : (Sponsor.relayReclaim cfg input).wp (recorded fun _ _ => True) (fun _ _ => True) [] :=
      wp_of_forall fun _ _ => trivial
    refine wp_discard (wp_mono ?_ (wp_and wp_relayReclaim (wp_relay hawaits)))
    intro r _ h
    obtain ⟨⟨es, rfl, hrelays, hungated⟩, -, es', heq, hes⟩ := h
    obtain rfl := heq
    exact leavesRoom_of_channel hrelays (fun _ _ _ hmem => absurd hmem (not_built_of_awaits hes)) hungated
  | relayCctp cfg sdk attested channels =>
    apply wp_discard
    unfold relayCctpHandler
    split
    · exact hidle
    · exact hidle
    · exact hchannel cfg channels _ hstore

/-- **A poll leaves room for what follows it.** In every run of a relay under a meter, whatever has been
spent and whatever the steps answer, a poll is made only where what follows it fits in the limit; so the
window does not take the request over the limit, and what is owed after a rejection goes back. -/
theorem window_leaves_room {relay : Handler} {f : FetchFn} {r : Except Failure Unit}
    (hstore : ∀ c ∈ relay.channels, OwnStore c.store) (hf : Installed f) (hrun : relay.Run f m r h) :
    LeavesRoom m h := by
  refine (hrun.metered_mono fun n q a => ?_).sound (wp_serve hstore)
  exact left_of_reads hf

end

namespace Demo

open Sponsor.Demo

/-- The ledger rejects the transaction, and charges 100 stroops of its bid. -/
def rejected : Polled := ⟨.FAILED, some ⟨100, .txFailed, none⟩⟩

/-- What the steps cost: the pilot gate asks twice, and the signature is made here. -/
def cost : Ask → ℕ
  | .await (.enforcePilot _) => 2
  | .await (.sign _) | .await .sleep | .await .subrequestsLeft | .memory _ => 0
  | .await (.settle call) => if call = .settled (some (.bigint 100)) then 1 else 0
  | _ => 1

def answer (m : Meter) (h : Record) : (q : Ask) → q.Answer
  | .await .subrequestsLeft => (m.limit : ℤ) - (m.after (spent h)).used
  | .await q => network (.error unavailable) (.error unavailable) rejected [] q
  | .randomUUID => "t"
  | .pipeline _ => .error "fetch failed"
  | .memory _ => .null
  | .shuffled _ => []
  | .loadAccount _ => .ok ()
  | .sleep _ | .build .. | .handOut _ => ()

/-- A deposit in a slot of the pilot. -/
def deposit : Handler := .relayDeposit depositConfig true depositInput

def run (used : ℕ) : Except Failure Unit × Record :=
  deposit.serve.playMetered (fun h q => (answer ⟨used, subrequestBudget⟩ h q, cost q)) []

/-- A charge that finds nothing of its own in memory sends nothing. -/
theorem sends_giveBack_fresh {call : SettleCall} {stroops : ℤ} {charge : FeeCharge} :
    (charge.giveBack () call stroops : Task (FeeMemory Unit) Unit Unit).Sends 0 :=
  .mem .fresh .ret

theorem sends_call_fresh {call : SettleCall} {charge : FeeCharge} :
    (charge.call () call : Task (FeeMemory Unit) Unit Unit).Sends 0 := by
  cases call with
  | notIncluded => exact sends_giveBack_fresh
  | settled feeCharged =>
    change (charge.settled () feeCharged).Sends 0
    unfold FeeCharge.settled
    split
    · exact .mem .fresh .ret
    · split
      · exact .mem .fresh .ret
      · exact sends_giveBack_fresh

/-- The rest of an open bid goes back. -/
theorem sends_call_open : ∃ charge : FeeCharge,
    (charge.call () (.settled (some (.bigint 100))) : Task (FeeMemory Unit) Unit Unit).Sends 1 := by
  let charge : FeeCharge := ⟨400, true, 400, "caps:testnet:fees:2026-10-08"⟩
  exact ⟨charge, .mem (FeeMemory.fresh.openHandle () charge) (.pipe (.error "") .ret)⟩

theorem costs_cost (q : Ask) : Costs q (cost q) := by
  cases q with
  | await q =>
    cases q with
    | settle call =>
      change Costs _ (if call = .settled (some (.bigint 100)) then 1 else 0)
      split
      · next heq =>
        rw [heq]
        exact sends_call_open
      · exact ⟨⟨0, true, 0, ""⟩, sends_call_fresh⟩
    | releaseCap => exact ⟨[], 0, .pipe (.error "") .ret⟩
    | releasePilot => exact ⟨"sender", .ask (.ok 0) .ret⟩
    | getTransaction hash | sleep | subrequestsLeft => rfl
    | _ => trivial
  | pipeline cmd | memory cmd => rfl
  | _ => trivial

theorem reads_answer {m : Meter} (h : Record) (q : Ask) : Reads .bare m (spent h) q (answer m h q) := by
  cases q with
  | await q =>
    cases q with
    | subrequestsLeft =>
      change subrequestsLeft (metersAfter .bare m (spent h)) = _
      rw [metersAfter_eq .bare]
      rfl
    | _ => trivial
  | _ => trivial

theorem run_deposit (used : ℕ) : deposit.Run .bare ⟨used, subrequestBudget⟩ (run used).1 (run used).2 :=
  runs_playMetered (fun _ q => costs_cost q) (fun h q => reads_answer h q) _ _

end Demo

/-- With exactly four subrequests left the deposit is watched, and its rejection takes them all. -/
theorem window_leaves_room_at_limit :
    (Demo.run 35).1 = .error (.error "v2-deposit tx FAILED") ∧
      35 + spent (Demo.run 35).2 = subrequestBudget ∧ LeavesRoom ⟨35, subrequestBudget⟩ (Demo.run 35).2 := by
  refine ⟨by decide +kernel, by decide +kernel, window_leaves_room (fun c hc => ?_) .bare (Demo.run_deposit 35)⟩
  have hnone : c ∈ (none : Option ChannelManager) := hc
  cases hnone

/-- With three left it is not watched. -/
example : (Demo.run 36).2.any polled = false := by decide +kernel

end Lumenia.Sponsor.Subrequests
