import Lumenia.Sponsor.CctpMessages
import Lumenia.Theory.Outlay

/-!
# What a request to relay a mint left behind

An answer of the route says what became of the mint: that Circle is still attesting only where the
request took no step that pays, that it was minted only where the ledger said so of the hash that the
send was answered with.
-/

namespace Lumenia.Sponsor

open Dialogue

/-! ## How a submission ends -/

/-- The ledger included the transaction with this hash. -/
abbrev seesSuccess : Option String → Event Await.Answer → Bool := sees .SUCCESS

/-- The network answered the send with this hash. -/
def SentAs (hash : Option String) (h : History) : Prop :=
  ∃ (tx : Payable) (sent : Sent), (⟨.sendTransaction tx, .ok sent⟩ : Event Await.Answer) ∈ h ∧
    sent.hash = hash

/-- The ledger's word on a transaction is what the watching ends with. -/
def Witnessed (h : History) : Except Failure Watched → Prop
  | .ok w => (∀ hash, Shows (seesSuccess hash) h ↔ hash = w.hash ∧ w.got.status = .SUCCESS) ∧
      SentAs w.hash h
  | .error _ => ∀ hash, ¬Shows (seesSuccess hash) h

section

variable {fair : (q : Await) → q.Answer → Prop} {hash : Option String} {h es es' : History} {e : Event Await.Answer}

/-- No transaction was seen included. -/
def Unseen (h : History) : Prop := ∀ hash, ¬Shows (seesSuccess hash) h

theorem Unseen.snoc (hunseen : Unseen h) (he : polledAs .SUCCESS e = none) : Unseen (h ++ [e]) := by
  intro hash
  rw [shows_append]
  simp [hunseen hash, sees, he]

theorem unseen_of_unreached (hes : ∀ e ∈ es, e.1.reaches = false) : Unseen es :=
  fun _ => not_shows_of_unreached reaching_sees hes

theorem SentAs.append (h : SentAs hash es) : SentAs hash (es ++ es') := by
  obtain ⟨tx, sent, hmem, hhash⟩ := h
  exact ⟨tx, sent, List.mem_append_left _ hmem, hhash⟩

variable {tx : Payable} {label : String} {window : Window} {sent : Sent}

/-- What is watched is the transaction that was sent, and only its poll can see it included. -/
theorem wp_watch_witnessed (hsent : SentAs sent.hash h) (hunseen : Unseen h) :
    (watch sent window).wp (recorded fair) (fun r h' => Witnessed h' r) h := by
  unfold watch
  rw [wp_bind]
  refine wp_mono ?_ (wp_pollReads rfl)
  rintro r _ ⟨polls, rfl, hpolls⟩
  have hseen : ∀ hash, Shows (seesSuccess hash) (h ++ polls) ↔
      hash = sent.hash ∧ ∃ got cut, r = .ok (got, cut) ∧ got.status = .SUCCESS := by
    intro hash
    rw [shows_append]
    exact (or_iff_right (hunseen hash)).trans (hpolls.sees_iff (by decide))
  cases r with
  | error e =>
    intro hash hshows
    obtain ⟨-, _, _, heq, -⟩ := (hseen hash).mp hshows
    cases heq
  | ok read =>
    obtain ⟨got, cut⟩ := read
    have hgot : ∀ hash, Shows (seesSuccess hash) (h ++ polls) ↔
        hash = sent.hash ∧ got.status = .SUCCESS := by
      intro hash
      rw [hseen]
      apply and_congr_right
      intro _
      constructor
      · rintro ⟨_, _, heq, hstatus⟩
        cases heq
        exact hstatus
      · exact fun hstatus => ⟨got, cut, rfl, hstatus⟩
    rw [onValue_ok]
    dsimp only
    split
    · refine wp_recorded_bind.mpr fun u _ => ⟨fun hash => ?_, hsent.append.append⟩
      rw [shows_append, hgot]
      simp [sees, polledAs]
    · exact ⟨hgot, hsent.append⟩

theorem wp_sendSigned_witnessed (hunseen : Unseen h) :
    (sendSigned tx label window).wp (recorded fair) (fun r h' => Witnessed h' r) h := by
  unfold sendSigned
  split
  · exact hunseen
  rw [wp_recorded_bind]
  intro answer _
  have hsent : Unseen (h ++ [⟨.sendTransaction tx, answer⟩]) := hunseen.snoc rfl
  -- A refused send settles the charge.
  have hrefused : ∀ e : Failure, (wait (.settle .notIncluded) >>= fun _ => throw e : Route Watched).wp
      (recorded fair) (fun r h' => Witnessed h' r) (h ++ [⟨.sendTransaction tx, answer⟩]) :=
    fun e => wp_recorded_bind.mpr fun u _ => hsent.snoc rfl
  cases answer with
  | error t =>
    unfold sendThrew
    dsimp only
    split
    · exact hrefused _
    · exact hsent
  | ok sent =>
    unfold sendAnswered
    dsimp only
    split
    · exact hrefused _
    · exact hrefused _
    all_goals exact wp_watch_witnessed ⟨tx, sent, by simp, rfl⟩ hsent

theorem wp_payAndSubmit_witnessed (hunseen : Unseen h) :
    (payAndSubmit tx label window).wp (recorded fair) (fun r h' => Witnessed h' r) h := by
  unfold payAndSubmit
  rw [wp_recorded_bind]
  intro charged _
  have hcharged : Unseen (h ++ [⟨.chargeSponsorFee tx.fee, charged⟩]) := hunseen.snoc rfl
  cases charged with
  | error e => exact hcharged
  | ok charge =>
    unfold signCharged
    dsimp only
    rw [wp_bind, wp_recorded_bind]
    intro signed _
    have hsigned : Unseen (h ++ [⟨.chargeSponsorFee tx.fee, .ok charge⟩] ++ [⟨.sign tx, signed⟩]) :=
      hcharged.snoc rfl
    cases signed with
    | ok u => exact wp_sendSigned_witnessed hsigned
    | error t => exact wp_recorded_bind.mpr fun u _ => hsigned.snoc rfl

end

end Lumenia.Sponsor

namespace Lumenia.Sponsor.CctpRelay

open Dialogue Channels

/-! ## The relay on a channel -/

/-- The steps that the relays share. -/
def awaited : Part Ask.Answer Await.Answer
  | ⟨.await q, a⟩ => some ⟨q, a⟩
  | _ => none

/-- A question about channels only. -/
def Aside (q : Ask) : Prop := ∀ a, awaited ⟨q, a⟩ = none

/-- What is thrown does not carry the sponsor's own brand of an undecided submission. -/
def Thrown.Unbranded (t : Thrown) : Prop := t.branded .submitUnconfirmed = false

/-- No step outside the sponsor throws a value with that brand. -/
def Unbranded : (q : Ask) → q.Answer → Prop
  | .loadAccount _, .error t | .await .simulateTransaction, .error t | .await (.sign _), .error t =>
    Thrown.Unbranded t
  | _, _ => True

/-- A store of leases that asks about channels only, and whose releases do not throw. -/
structure Lends (s : LeaseStore) : Prop where
  acquire : ∀ key ttlSeconds, (s.acquire key ttlSeconds).Asks Aside
  acquireAny : ∀ f, s.acquireAny = some f → ∀ keys ttlSeconds, (f keys ttlSeconds).Asks Aside
  release : ∀ (fair : (q : Ask) → q.Answer → Prop) key token h,
    (s.release key token).wp (noted fair awaited) (fun r h' => r = .ok () ∧ h' = h) h

section

variable {h : History} {fair : (q : Ask) → q.Answer → Prop}

theorem asks_pipeline {cmd : LeaseCmd} : (Channels.pipeline cmd).Asks Aside := by
  refine (asks_question fun _ => rfl).bind fun reply => ?_
  cases reply with
  | error message => exact asks_throw
  | ok replies =>
    cases replies with
    | nil => exact asks_throw
    | cons first rest => exact asks_ite asks_throw asks_pure

theorem redisLeaseStore_lends : Lends redisLeaseStore where
  acquire key ttlSeconds := (asks_question fun _ => rfl).bind fun token => asks_pipeline.bind fun _ => asks_pure
  acquireAny f hf keys ttlSeconds := by
    cases hf
    exact (asks_question fun _ => rfl).bind fun token => asks_pipeline.bind fun _ => asks_pure
  release fair key token h := by
    change (Dialogue.outcome (Channels.pipeline (.fencedDel key token)) >>= fun _ => pure ()).wp _ _ h
    rw [wp_bind, wp_outcome]
    exact wp_mono (fun _ _ hh => ⟨rfl, hh⟩) asks_pipeline.wp_noted

theorem asks_memoryAcquire {key : String} {ttlSeconds : ℕ} : (memoryAcquire key ttlSeconds).Asks Aside :=
  (asks_question fun _ => rfl).bind fun _ => (asks_question fun _ => rfl).bind fun _ => asks_pure

theorem asks_memoryAcquireAny {ttlSeconds index : ℕ} {keys : List String} :
    (memoryAcquireAny ttlSeconds keys index).Asks Aside := by
  induction keys generalizing index with
  | nil => exact asks_pure
  | cons key rest ih =>
    apply asks_memoryAcquire.bind
    intro found
    cases found with
    | none => exact ih
    | some token => exact asks_pure

theorem memoryLeaseStore_lends : Lends memoryLeaseStore where
  acquire key ttlSeconds := asks_memoryAcquire
  acquireAny f hf keys ttlSeconds := by
    cases hf
    exact asks_memoryAcquireAny
  release fair key token h := by
    intro a h' ⟨_, hnoted⟩
    exact ⟨rfl, hnoted.trans (List.append_nil h)⟩

/-- The sponsor's own stores lend. -/
theorem lends_of_own {s : LeaseStore} (hs : s = redisLeaseStore ∨ s = memoryLeaseStore) : Lends s := by
  cases hs with
  | inl hredis => exact hredis ▸ redisLeaseStore_lends
  | inr hmemory => exact hmemory ▸ memoryLeaseStore_lends

variable {m : ChannelManager} {opts : LeaseOptions} {channels : Option ChannelManager}

/-- A search for a lease leaves the excerpt as it is, and throws no undecided submission. -/
def Searched {α : Type} (h : History) (r : Except Failure α) (h' : History) : Prop :=
  h' = h ∧ ∀ e, r = .error e → e.isSubmitUnconfirmed = false

theorem searched_ok {α : Type} {a : α} : Searched h (.ok a) h := by
  refine ⟨rfl, fun e he => ?_⟩
  cases he

theorem wp_probeEach (hstore : Lends m.store) {order : List (Fin m.keypairs.length)} {probes : ℕ} :
    (probeEach m opts order probes).wp (noted fair awaited) (Searched h) h := by
  induction order generalizing probes with
  | nil => exact searched_ok
  | cons idx rest ih =>
    rw [probeEach]
    split
    · exact searched_ok
    rw [wp_bind, wp_outcome]
    refine wp_mono ?_ (hstore.acquire _ _).wp_noted
    rintro found _ rfl
    rw [onValue_ok]
    cases found with
    | error e => exact searched_ok
    | ok token =>
      cases token with
      | none => exact ih
      | some token => exact searched_ok

theorem wp_probeAny {acquireAny : List String → ℕ → Call (Option (ℕ × String))}
    (hany : ∀ keys ttlSeconds, (acquireAny keys ttlSeconds).Asks Aside) {order : List (Fin m.keypairs.length)}
    {probes : ℕ} : (probeAny m acquireAny order probes).wp (noted fair awaited) (Searched h) h := by
  unfold probeAny
  dsimp only
  rw [wp_bind, wp_outcome]
  refine wp_mono ?_ (hany _ _).wp_noted
  rintro found _ rfl
  rw [onValue_ok]
  cases found with
  | error e => exact searched_ok
  | ok place =>
    cases place with
    | none => exact searched_ok
    | some place =>
      obtain ⟨index, token⟩ := place
      dsimp only
      split
      · refine ⟨rfl, fun e he => ?_⟩
        cases he
        rfl
      · exact searched_ok

theorem wp_attempt (hstore : Lends m.store) {left probes : ℕ} :
    (attempt m opts left probes).wp (noted fair awaited) (Searched h) h := by
  induction left generalizing probes with
  | zero => exact searched_ok
  | succ left ih =>
    rw [attempt]
    split
    · exact searched_ok
    rw [question_bind]
    apply wp_noted_aside (fun _ => rfl)
    intro order _
    rw [wp_bind]
    have hprobe : (probe m opts order probes).wp (noted fair awaited) (Searched h) h := by
      unfold probe
      split
      · next hany => exact wp_probeAny (hstore.acquireAny _ hany)
      · exact wp_probeEach hstore
    refine wp_mono ?_ hprobe
    rintro found _ ⟨rfl, hplain⟩
    cases found with
    | error e => exact ⟨rfl, fun e' he' => hplain e' (congrArg _ (Except.error.inj he'))⟩
    | ok found =>
      rw [onValue_ok]
      cases found with
      | inl l => exact searched_ok
      | inr probes =>
        dsimp only
        split
        · rw [question_bind]
          exact wp_noted_aside (fun _ => rfl) fun _ _ => ih
        · exact ih

theorem wp_leaseOf (hstore : ∀ m ∈ channels, Lends m.store) :
    (leaseOf channels).wp (noted fair awaited) (Searched h) h := by
  cases channels with
  | none => exact searched_ok
  | some m =>
    unfold leaseOf lease
    dsimp only
    split
    · exact searched_ok
    · exact wp_attempt (hstore m rfl)

theorem wp_release {l : ChannelLease} (hstore : ∀ m ∈ channels, Lends m.store) :
    (release channels l).wp (noted fair awaited) (fun r h' => r = .ok () ∧ h' = h) h := by
  cases channels with
  | none => exact ⟨rfl, rfl⟩
  | some m => exact (hstore m rfl).release fair _ _ h

/-- The SDK throws none of the sponsor's own errors. -/
structure Foreign (sdk : Channels.Sdk) : Prop where
  assemble : ∀ sim e, sdk.assemble sim = .error e → e.isSubmitUnconfirmed = false
  feeBump : ∀ sim prepared e, sdk.assemble sim = .ok prepared → prepared.feeBump = .error e →
    e.isSubmitUnconfirmed = false

variable {sdk : Channels.Sdk} {l : Option ChannelLease} {cfg : SponsorConfig}

theorem submission_foreign (hsdk : Foreign sdk) {sim : Simulated} {e : Failure}
    (he : submission (cctpRelay sdk) l sim = .error e) : e.isSubmitUnconfirmed = false := by
  unfold submission at he
  split at he
  · cases he
    rfl
  · change (sdk.assemble sim >>= _) = _ at he
    cases hprepared : sdk.assemble sim with
    | error e' =>
      rw [hprepared] at he
      cases he
      exact hsdk.assemble _ _ hprepared
    | ok prepared =>
      rw [hprepared] at he
      dsimp only [bind, Except.bind] at he
      split at he
      · cases he
        rfl
      · split at he
        · exact hsdk.feeBump _ _ _ hprepared he
        · cases he

/-- What a request that fails with this leaves behind. -/
structure Failed (e : Failure) (h : History) : Prop where
  undecided : e.isSubmitUnconfirmed = true → ¬NoEffect h ∧ Unseen h
  decided : e.isSubmitUnconfirmed = false → NoEffect h ∨ Misjudges h
  passed : ∀ t, e = .passed t → e.isSubmitUnconfirmed = false

/-- How the attempt of a relay ends, beside its record. -/
structure Attempted (r : Except Failure Watched) (h : History) : Prop where
  gave : rejects r = true → NoEffect h ∨ Misjudges h
  kept : rejects r = false → ¬NoEffect h
  passed : ∀ t, r = .error (.passed t) → Thrown.Unbranded t
  witnessed : Witnessed h r

theorem failed_of_attempted {e : Failure} (he : Attempted (.error e) h) : Failed e h where
  undecided hun := ⟨he.kept (by simp [rejects, hun]), he.witnessed⟩
  decided hplain := he.gave (by simp [rejects, hplain])
  passed t ht := by
    subst ht
    exact he.passed t rfl

/-- An error before anything reached the network. -/
theorem attempted_before {e : Failure} (hquiet : ∀ e ∈ h, e.1.reaches = false)
    (he : e.isSubmitUnconfirmed = false) : Attempted (.error e) h where
  gave _ := .inl (noEffect_of_unreached hquiet)
  kept hkept := by
    rw [rejects, he] at hkept
    cases hkept
  passed t ht := by
    cases ht
    exact he
  witnessed := unseen_of_unreached hquiet

theorem noEffect_or_of_judges {gave : Bool} (hjudged : Judges gave h) (hgave : gave = true) :
    NoEffect h ∨ Misjudges h := by
  by_cases hclear : Misjudges h
  · exact .inr hclear
  · exact .inl ((hjudged.mpr hclear).mp hgave)

/-- The steps of a relay, as it awaits them. -/
def awaitUnbranded (q : Await) (a : q.Answer) : Prop := Unbranded (.await q) a

theorem wp_relayAttempt (hsdk : Foreign sdk) :
    (relayAttempt cfg (cctpRelay sdk) l).wp (noted Unbranded awaited) Attempted [] := by
  unfold relayAttempt
  intro loaded _ h
  obtain ⟨hloaded, rfl⟩ := h
  cases loaded with
  | error t => exact attempted_before (List.forall_mem_nil _) hloaded
  | ok u =>
    rintro _ _ ⟨-, rfl⟩ simulated _ ⟨hsimulated, rfl⟩
    have hquiet : ∀ e ∈ [(⟨.simulateTransaction, simulated⟩ : Event Await.Answer)], e.1.reaches = false :=
      List.forall_mem_singleton.mpr rfl
    cases simulated with
    | error t => exact attempted_before hquiet hsimulated
    | ok sim =>
      simp only [Dialogue.andThen, onValue_ok, orThrow_ok_bind]
      split
      · rename_i e hsub
        exact attempted_before hquiet (submission_foreign hsdk hsub)
      · have hfair : ∀ q a, Unbranded (.await q) a → awaitUnbranded q a := fun _ _ => id
        refine wp_noted_relabel hfair (fun _ _ => rfl) (wp_noted_some ?_)
        refine wp_mono ?_ (wp_and wp_payAndSubmit_ends (wp_payAndSubmit_witnessed ?_))
        · intro r _ h
          obtain ⟨⟨es, rfl, hes⟩, hwitnessed⟩ := h
          have hsame : SameReach ([⟨.simulateTransaction, .ok sim⟩] ++ es ++ []) es :=
            sameReach_between (List.forall_mem_singleton.mpr ⟨rfl, rfl⟩) (List.forall_mem_nil _)
          rw [List.append_nil] at hsame
          have hpassed : ∀ t, r = .error (.passed t) → Thrown.Unbranded t := by
            intro t ht
            obtain ⟨-, tx, hsign⟩ := hes.passed t ht
            exact hsign
          refine ⟨noEffect_or_of_judges (hes.judged.congr hsame), fun hkept hnone => ?_, hpassed, hwitnessed⟩
          refine hes.kept hkept (fun t ht => ?_) (hsame.noEffect.mp hnone)
          have hplain : t.branded .submitUnconfirmed = false := hpassed t ht
          rw [ht, rejects, Failure.isSubmitUnconfirmed, hplain] at hkept
          cases hkept
        · exact unseen_of_unreached hquiet

/-- What a relayed mint tells. -/
def Told (r : Except Failure Served) (h : History) : Prop :=
  match r with
  | .ok (.relayed hash true) => Shows (seesSuccess hash) h ∧ SentAs hash h
  | .ok (.relayed _ false) => ¬NoEffect h ∧ Unseen h
  | .ok _ => False
  | .error e => Failed e h

theorem told_conclude {w : Watched} (hw : Attempted (.ok w) h) : Told ((cctpRelay sdk).conclude w) h := by
  change Told (if w.got.status = .FAILED then .error (.error "cctp-relay tx FAILED")
    else .ok (.relayed w.hash (w.got.status = .SUCCESS))) h
  split
  · rename_i hfailed
    refine ⟨fun hun => ?_, fun _ => hw.gave (decide_eq_true hfailed), fun t ht => ?_⟩
    · cases hun
    · cases ht
  · rename_i hfailed
    obtain ⟨hseen, hsent⟩ := hw.witnessed
    by_cases hsuccess : w.got.status = .SUCCESS
    · rw [decide_eq_true hsuccess]
      exact ⟨(hseen _).mpr ⟨rfl, hsuccess⟩, hsent⟩
    · rw [decide_eq_false hsuccess]
      exact ⟨hw.kept (decide_eq_false hfailed), fun hash hshows => hsuccess ((hseen hash).mp hshows).2⟩

theorem told_recover {e : Failure} (he : Attempted (.error e) h) : Told ((cctpRelay sdk).recover e) h := by
  have herror : Failed e h := failed_of_attempted he
  change Told (if e.isSubmitUnconfirmed then _ else .error e) h
  split
  · rename_i hun
    split
    · exact herror
    · exact herror
    · exact herror.undecided hun
  · exact herror

/-- A lease that is given back changes nothing of it. -/
theorem told_release {l : ChannelLease} {r : Except Failure Served} (hstore : ∀ m ∈ channels, Lends m.store)
    (hr : Told r h) : (release channels l >>= fun _ => .ret r : Call Served).wp (noted fair awaited) Told h := by
  rw [wp_bind]
  refine wp_mono ?_ (wp_release hstore)
  rintro _ _ ⟨rfl, rfl⟩
  exact hr

theorem wp_relayOnChannel (hsdk : Foreign sdk) (hstore : ∀ m ∈ channels, Lends m.store) :
    (relayOnChannel cfg channels (cctpRelay sdk)).wp (noted Unbranded awaited) Told [] := by
  unfold relayOnChannel
  rw [wp_bind]
  refine wp_mono ?_ (wp_leaseOf hstore)
  rintro r _ ⟨rfl, hplain⟩
  cases r with
  | error e => exact failed_of_attempted (attempted_before (List.forall_mem_nil _) (hplain e rfl))
  | ok l =>
    rw [onValue_ok, wp_bind, wp_outcome]
    refine wp_mono (fun r h hr => ?_) (wp_relayAttempt hsdk)
    rw [onValue_ok]
    cases r with
    | ok w =>
      cases l with
      | none => exact told_conclude hr
      | some l =>
        dsimp only
        split
        · exact told_conclude hr
        · exact told_release hstore (told_conclude hr)
    | error e =>
      cases l with
      | none => exact told_recover hr
      | some l =>
        dsimp only
        split
        · exact told_recover hr
        · exact told_release hstore (told_recover hr)

end

/-! ## Errors -/

/-- All errors of a program are of a kind. -/
def Errs {ε α : Type} (P : ε → Prop) (x : Except ε α) : Prop := ∀ e, x = .error e → P e

section

variable {ε α β : Type} {P : ε → Prop}

theorem errs_ok {a : α} : Errs P (.ok a) := by
  intro e he
  cases he

theorem errs_error {e : ε} (he : P e) : Errs P (.error e : Except ε α) := by
  intro e' heq
  cases heq
  exact he

theorem errs_ite {c : Prop} [Decidable c] {x y : Except ε α} (hx : Errs P x) (hy : Errs P y) :
    Errs P (if c then x else y) := by
  split
  · exact hx
  · exact hy

theorem errs_failWhen {bad : Prop} [Decidable bad] {e : ε} (he : P e) : Errs P (failWhen bad e) := by
  exact errs_ite (errs_error he) errs_ok

theorem errs_bind {x : Except ε α} {f : α → Except ε β} (hx : Errs P x) (hf : ∀ a, Errs P (f a)) :
    Errs P (x >>= f) := by
  cases x with
  | ok a => exact hf a
  | error e => exact errs_error (hx e rfl)

theorem errs_mapError {ε' : Type} {P' : ε' → Prop} {f : ε' → ε} {x : Except ε' α} (hx : Errs P' x)
    (hf : ∀ e, P' e → P (f e)) : Errs P (x.mapError f) := by
  cases x with
  | ok a => exact errs_ok
  | error e => exact errs_error (hf e (hx e rfl))

end

/-- The submission is decided, or there was none. -/
def Plain (e : Failure) : Prop := e.isSubmitUnconfirmed = false

section

variable {cfg : Config} {input : CctpRelayInput} {front : Front} {message attestation : Bytes} {forwarder : String}

theorem errs_checkInput : Errs Plain (checkInput cfg input) := by
  unfold checkInput
  refine errs_bind (errs_failWhen rfl) fun _ => errs_bind (errs_failWhen rfl) fun _ => ?_
  cases input.burnTxHash with
  | none => exact errs_error rfl
  | some burn =>
    refine errs_bind (errs_failWhen rfl) fun _ => ?_
    cases input.sourceDomain with
    | none => exact errs_ok
    | some domain =>
      cases domain with
      | base => exact errs_ok
      | other text => exact errs_error rfl

theorem errs_parseCctpHeader : Errs Plain (parseCctpHeader message) :=
  errs_bind (errs_failWhen rfl) fun _ => errs_ok

theorem errs_checkCctpMessage (hdecode : ∀ s, Errs Plain (cfg.decodeContract s)) :
    Errs Plain (checkCctpMessage cfg.decodeContract message attestation forwarder) := by
  unfold checkCctpMessage
  refine errs_bind (errs_failWhen rfl) fun _ => errs_bind (errs_failWhen rfl) fun _ => ?_
  apply errs_bind errs_parseCctpHeader
  intro h
  refine errs_bind (errs_failWhen rfl) fun _ => errs_bind (errs_failWhen rfl) fun _ => ?_
  exact errs_bind (hdecode _) fun id => errs_bind (errs_failWhen rfl) fun _ => errs_ok

theorem errs_lookup {reply : IrisReply} (hbody : Errs Thrown.Unbranded reply.first) :
    Errs Plain reply.lookup := by
  unfold IrisReply.lookup
  split
  · exact errs_ok
  split
  · exact errs_error rfl
  split
  · rename_i t ht
    exact errs_error (hbody t ht)
  · exact errs_ok
  · split
    · split
      · exact errs_ok
      · exact errs_ok
    · exact errs_ok

/-- No success, and no submission that is undecided. -/
def Stop.Refuses : Stop → Prop
  | .threw e => Plain e
  | .answered r => r.status ∉ [200, 202]

theorem refuses_answered {status : ℕ} {body : List (String × Json.Scalar)} (hstatus : status ∉ [200, 202]) :
    Stop.Refuses (.answered ⟨status, body⟩) := hstatus

/-- What the steps before the handler throw does not carry the sponsor's own brand. -/
structure Front.Unbranded (front : Front) : Prop where
  service : Errs Thrown.Unbranded front.service
  halted : Errs Thrown.Unbranded front.halted
  body : Errs (fun thrown => ∀ t ∈ thrown, Thrown.Unbranded t) front.body
  limited : Errs Thrown.Unbranded front.limited

theorem errs_readBody (hfront : front.Unbranded) : Errs Stop.Refuses front.readBody := by
  unfold Front.readBody
  split
  · exact errs_error (refuses_answered (by decide))
  · rename_i t ht
    exact errs_error (hfront.body _ ht t rfl)
  · split
    · exact errs_ok
    · exact errs_error (refuses_answered (by decide))

theorem errs_enter (hfront : front.Unbranded) : Errs Stop.Refuses (front.enter cfg) := by
  unfold Front.enter
  refine errs_bind (errs_mapError hfront.service fun _ => id) fun _ => ?_
  refine errs_bind (errs_mapError hfront.halted fun _ => id) fun halted => ?_
  apply errs_bind (errs_failWhen (refuses_answered (by decide)))
  intro _
  apply errs_bind (errs_failWhen (refuses_answered (by decide)))
  intro _
  apply errs_bind (errs_failWhen (refuses_answered (by decide)))
  intro _
  apply errs_bind (errs_failWhen (refuses_answered (by decide)))
  intro _
  apply errs_bind (errs_readBody hfront)
  intro input
  refine errs_bind (errs_mapError hfront.limited fun _ => id) fun limited => ?_
  cases limited with
  | none => exact errs_ok
  | some reason => exact errs_error (refuses_answered (by decide))

end

/-! ## The route -/

/-- The steps that the relays share, of a request. -/
def relayed : Part Step.Answer Await.Answer
  | ⟨.relay _ q, a⟩ => awaited ⟨q, a⟩
  | _ => none

/-- Neither does what is thrown on the way. -/
def Step.Unbranded : (q : Step) → q.Answer → Prop
  | .fetch _, .error t => Thrown.Unbranded t
  | .fetch _, .ok reply => Errs Thrown.Unbranded reply.first
  | .relay _ q, a => CctpRelay.Unbranded q a

/-- What the sponsor needs of the code around it. -/
structure Config.Foreign (cfg : Config) : Prop where
  sdk : CctpRelay.Foreign cfg.sdk
  decodeContract : ∀ s, Errs Plain (cfg.decodeContract s)

/-- What a result of the handler tells. -/
def Minted (r : Except Failure CctpRelayResult) (h : History) : Prop :=
  match r with
  | .ok (.pending _) => h = []
  | .ok (.minted hash _ true) => Shows (seesSuccess hash) h ∧ SentAs hash h
  | .ok (.minted _ _ false) => ¬NoEffect h ∧ Unseen h
  | .error e => Failed e h

/-- What an answer of the route tells. -/
inductive Answered (h : History) : Option Response → Prop
  | pending (detail : String) (hquiet : h = []) : Answered h (some (relayResponse (.pending detail)))
  | minted (hash : Option String) (nonce : String) (hseen : Shows (seesSuccess hash) h)
    (hsent : SentAs hash h) :
    Answered h (some (relayResponse (.minted hash nonce true)))
  | submitted (hash : Option String) (nonce : String) (heffect : ¬NoEffect h) (hunseen : Unseen h) :
    Answered h (some (relayResponse (.minted hash nonce false)))
  | unconfirmed (hash : Option String) (heffect : ¬NoEffect h) (hunseen : Unseen h) :
    Answered h (some ⟨202, ("error", .str "submit unconfirmed") :: optional "hash" hash⟩)
  | refused (response : Response) (hstatus : response.status ∉ [200, 202])
    (hlimited : response.status = 429 → h = []) (hnone : NoEffect h ∨ Misjudges h) :
    Answered h (some response)
  | lost (hnone : NoEffect h ∨ Misjudges h) : Answered h none

section

variable {h : History} {cfg : Config} {channels : Option ChannelManager} {input : CctpRelayInput} {front : Front}
  {ref : String} {mainnet : Bool}

theorem failed_plain {e : Failure} (he : Plain e) : Failed e [] :=
  failed_of_attempted (attempted_before (List.forall_mem_nil _) he)

theorem wp_relayCall (hcfg : cfg.Foreign) (hstore : ∀ m ∈ channels, Lends m.store) {call : Invocation} :
    (relayCall cfg channels call).wp (noted Step.Unbranded relayed) Told [] :=
  wp_noted_relabel (fun _ _ => id) (fun _ _ => rfl) (wp_relayOnChannel hcfg.sdk hstore)

theorem minted_ofServed {nonce : String} {r : Except Failure Served} (hr : Told r h) :
    (onValue (fun served => pure (.ofServed nonce served)) r : Run CctpRelayResult).wp (noted Step.Unbranded relayed) Minted h := by
  cases r with
  | error e => exact hr
  | ok served =>
    cases served with
    | relayed hash confirmed =>
      cases confirmed with
      | true => exact hr
      | false => exact hr
    | pending detail => exact hr.elim
    | sandwich via trustlineOnly => exact hr.elim

/-- What is done with Circle's answer. -/
theorem wp_afterLookup (hcfg : cfg.Foreign) (hstore : ∀ m ∈ channels, Lends m.store) {forwarder : String}
    {found : IrisLookup} : (match found with
      | .pending detail => pure (.pending detail)
      | .complete message attestation =>
        match checkCctpMessage cfg.decodeContract message attestation forwarder with
        | .error e => throw e
        | .ok header => do
          let served ← relayCall cfg channels ⟨forwarder, cctpMethod, message, attestation⟩
          return .ofServed header.nonce served : Run CctpRelayResult).wp (noted Step.Unbranded relayed) Minted [] := by
  cases found with
  | pending detail => exact rfl
  | complete message attestation =>
    dsimp only
    split
    · rename_i e hcheck
      exact failed_plain (errs_checkCctpMessage hcfg.decodeContract e hcheck)
    · rw [wp_bind]
      exact wp_mono (fun _ _ => minted_ofServed) (wp_relayCall hcfg hstore)

theorem wp_relayCctpHandler (hcfg : cfg.Foreign) (hstore : ∀ m ∈ channels, Lends m.store) :
    (relayCctpHandler cfg channels input).wp (noted Step.Unbranded relayed) Minted [] := by
  unfold relayCctpHandler
  split
  · rename_i e he
    exact failed_plain (errs_checkInput e he)
  rename_i forwarder burn _
  unfold fetchAttestation
  cases burn with
  | other text => exact failed_plain rfl
  | text burnTxHash =>
    apply wp_noted_aside (fun _ => rfl)
    intro reply hreply
    cases reply with
    | error t => exact failed_plain hreply
    | ok reply =>
      change Dialogue.wp _ _ ((.ret reply.lookup : Run IrisLookup) >>= _) _
      rw [wp_bind]
      cases hlookup : reply.lookup with
      | error e => exact failed_plain (errs_lookup hreply e hlookup)
      | ok found => exact wp_afterLookup hcfg hstore

/-- A refusal, or no answer, for an error that is not an undecided submission. -/
theorem answered_plain {e : Failure} (hplain : Plain e) (hnone : NoEffect h ∨ Misjudges h) :
    Answered h (errorResponse mainnet ref e) := by
  unfold errorResponse
  split
  · exact .lost hnone
  dsimp only
  split
  · exact .refused _ (by simp) (by simp) hnone
  rw [if_neg (by rw [show e.isSubmitUnconfirmed = false from hplain]; nofun)]
  split
  · exact .refused _ (by simp) (by simp) hnone
  split
  · split
    · exact .lost hnone
    · exact .refused _ (by simp) (by simp) hnone
  · exact .refused _ (by simp) (by simp) hnone

theorem answered_errorResponse {e : Failure} (he : Failed e h) : Answered h (errorResponse mainnet ref e) := by
  cases e with
  | unconfirmed detail hash => exact .unconfirmed _ (he.undecided rfl).1 (he.undecided rfl).2
  | passed t => exact answered_plain (he.passed t rfl) (he.decided (he.passed t rfl))
  | _ => exact answered_plain rfl (he.decided rfl)

theorem answered_result {result : CctpRelayResult} (hr : Minted (.ok result) h) :
    Answered h (some (relayResponse result)) := by
  cases result with
  | pending detail => exact .pending detail hr
  | minted hash nonce confirmed =>
    cases confirmed with
    | true => exact .minted hash nonce hr.1 hr.2
    | false => exact .submitted hash nonce hr.1 hr.2

theorem wp_serve (hcfg : cfg.Foreign) (hstore : ∀ m ∈ channels, Lends m.store) (hfront : front.Unbranded) :
    (serve cfg channels ref front).wp (noted Step.Unbranded relayed)
      (fun r h => ∃ response, r = .ok response ∧ Answered h response) [] := by
  unfold serve
  split
  · rename_i response hstop
    exact ⟨_, rfl, .refused _ (errs_enter hfront _ hstop) (fun _ => rfl)
      (.inl (noEffect_of_unreached (List.forall_mem_nil _)))⟩
  · rename_i e hstop
    exact ⟨_, rfl, answered_errorResponse (failed_plain (errs_enter hfront _ hstop))⟩
  · rw [wp_bind, wp_outcome]
    refine wp_mono (fun r h hr => ?_) (wp_relayCctpHandler hcfg hstore)
    rw [onValue_ok]
    cases r with
    | ok result => exact ⟨_, rfl, answered_result hr⟩
    | error e => exact ⟨_, rfl, answered_errorResponse hr⟩

/-- **An answer tells what became of the mint.** Circle is said to be attesting only where no step was taken that pays;
a mint is said to be confirmed, with its hash, only where the ledger said so of that hash, and not confirmed only where
it was sent and the ledger has not said so; an error leaves no effect, unless an answer misjudges the mint. -/
theorem relay_answers_right {r : Except Failure (Option Response)} {h : List (Event Step.Answer)} (hcfg : cfg.Foreign)
    (hstore : ∀ m ∈ channels, Lends m.store) (hfront : front.Unbranded)
    (hrun : Runs (recorded Step.Unbranded) (serve cfg channels ref front) [] r h) :
    ∃ response, r = .ok response ∧ Answered (h.filterMap relayed) response :=
  (noted_filterMap hrun).sound (wp_serve hcfg hstore hfront)

end

theorem Demo.errs_decodeContract (s : String) : Errs Plain (Demo.decodeContract s) := by
  unfold Demo.decodeContract
  exact errs_ite errs_ok (errs_error rfl)

theorem Demo.config_foreign : Demo.config.Foreign where
  sdk := {
    assemble := fun sim e h => by cases h
    feeBump := fun sim prepared e h he => by
      obtain rfl := Except.ok.inj h
      cases he }
  decodeContract := Demo.errs_decodeContract

theorem Demo.front_unbranded : Demo.front.Unbranded := ⟨errs_ok, errs_ok, errs_ok, errs_ok⟩

theorem Demo.world_unbranded {h : List (Event Step.Answer)} {q : Step} :
    Step.Unbranded q (Demo.world h q) := by
  cases q with
  | fetch url => exact errs_ok
  | relay call q =>
    cases q with
    | await q => cases q <;> exact trivial
    | _ => exact trivial

/-- A channel is leased through the shared store, and the mint is confirmed. -/
theorem relay_answers_right_demo : Demo.run.1.toOption.join.map Response.status = some 200 ∧
    ∃ response, Demo.run.1 = .ok response ∧ Answered (Demo.run.2.filterMap relayed) response := by
  refine ⟨by decide +kernel, relay_answers_right Demo.config_foreign (fun m hm => ?_) Demo.front_unbranded
    (Demo.runs_run fun h q => ?_)⟩
  · obtain rfl := Option.some.inj hm
    exact lends_of_own (.inl rfl)
  · exact Demo.world_unbranded

end Lumenia.Sponsor.CctpRelay
