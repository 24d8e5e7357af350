import Lumenia.Sponsor.Deposit
import Lumenia.Sponsor.SubmitSafety

/-!
# A deposit is released when it did not take effect

Whatever the steps of the deposit route answer or throw, the caps and the pilot slot that it took are
given back once for a deposit that provably did not take effect, and kept for any other, except when
an answer misjudges it (`released_right_iff`): a poll or a send throws a value that the relay cannot put
in words, so that it ends with an ordinary error; a step before the send throws a value with the brand
of an undecided submission; or the RPC reports the failure of a transaction under another hash.
-/

namespace Lumenia.Sponsor

open Dialogue

/-! ## What the steps show -/

def sends : Event Await.Answer → Bool
  | ⟨.sendTransaction _, _⟩ => true
  | _ => false

/-- The hash of what is sent. -/
def sentHash : Event Await.Answer → Option String
  | ⟨.sendTransaction tx, _⟩ => tx.hash
  | _ => none

/-- The send was refused outright, or answered with an error or to try again later. -/
def refusesSend : Event Await.Answer → Bool
  | ⟨.sendTransaction _, .ok sent⟩ => sent.status = .ERROR || sent.status = .TRY_AGAIN_LATER
  | ⟨.sendTransaction _, .error t⟩ => sendRefusedOutright t
  | _ => false

/-- The hash of a transaction with this status. -/
def polledAs (status : PollStatus) : Event Await.Answer → Option (Option String)
  | ⟨.getTransaction hash, .ok got⟩ => if got.status = status then some hash else none
  | _ => none

/-- The transaction with this hash has this status. -/
def sees (status : PollStatus) (hash : Option String) (e : Event Await.Answer) : Bool :=
  polledAs status e = some hash

/-- The ledger rejected the transaction with this hash. -/
abbrev seesFailed : Option String → Event Await.Answer → Bool := sees .FAILED

def Shows (f : Event Await.Answer → Bool) (h : History) : Prop := ∃ e ∈ h, f e = true

instance {f : Event Await.Answer → Bool} {h : History} : Decidable (Shows f h) :=
  inferInstanceAs (Decidable (∃ e ∈ h, f e = true))

/-- The deposit provably did not take effect: it was not sent, or refused, or the ledger rejected it. -/
def NoEffect (h : History) : Prop :=
  ∀ e ∈ h, sends e = true → refusesSend e = true ∨ Shows (seesFailed (sentHash e)) h

instance {h : History} : Decidable (NoEffect h) :=
  inferInstanceAs (Decidable (∀ e ∈ h, sends e = true → _))

def isError {ε α : Type} : Except ε α → Bool
  | .error _ => true
  | .ok _ => false

/-- A poll, or a send that may have reached the network, throws what cannot be put in words; or a step
before the send throws what looks like an undecided submission. -/
def misleads : Event Await.Answer → Bool
  | ⟨.getTransaction _, .error t⟩ => isError t.readMessage
  | ⟨.sendTransaction _, .error t⟩ => !sendRefusedOutright t && isError (describeThrow t)
  | ⟨.simulateTransaction, .error t⟩ | ⟨.sign _, .error t⟩ => t.branded .submitUnconfirmed
  | _ => false

/-- The ledger is said to have rejected a transaction that was not sent. -/
def Misnamed (h : History) : Prop :=
  ∃ hash, Shows (seesFailed hash) h ∧ ∀ e ∈ h, sends e = true → sentHash e ≠ hash

instance {h : History} : Decidable (Misnamed h) :=
  decidable_of_iff (∃ e ∈ h, ∃ hash ∈ polledAs .FAILED e, ∀ e' ∈ h, sends e' = true → sentHash e' ≠ hash) (by
    constructor
    · intro ⟨e, he, hash, hfailed, hother⟩
      exact ⟨hash, ⟨e, he, decide_eq_true hfailed⟩, hother⟩
    · intro ⟨hash, ⟨e, he, hfailed⟩, hother⟩
      exact ⟨e, he, hash, of_decide_eq_true hfailed, hother⟩)

/-- The answers that the route draws the wrong conclusion from. -/
def Misjudges (h : History) : Prop := Shows misleads h ∨ Misnamed h

instance {h : History} : Decidable (Misjudges h) :=
  inferInstanceAs (Decidable (Shows misleads h ∨ Misnamed h))

/-- The route took a reservation of the caps. -/
def CapTaken (h : History) : Prop :=
  ∃ amountStroops sender, (⟨.checkCaps amountStroops sender, .admitted true⟩ : Event Await.Answer) ∈ h

/-- The route took a slot of the pilot. -/
def SlotTaken (h : History) : Prop :=
  ∃ pubkey, (⟨.enforcePilot pubkey, .admitted true⟩ : Event Await.Answer) ∈ h

/-- How often a step was made. -/
def times (q : Await) (h : History) : ℕ := h.countP fun e => e.1 = q

/-- A reservation is released at most once, if it was taken and nothing took effect, and never if
something did or might have. -/
def ReleasedRight (taken : Prop) (releases : ℕ) (h : History) : Prop :=
  releases ≤ 1 ∧ (NoEffect h → taken → releases = 1) ∧ (¬NoEffect h → releases = 0)

/-! ## Events that change nothing -/

/-- The steps that reach the network with the deposit. -/
def Await.reaches : Await → Bool
  | sendTransaction _ | getTransaction _ => true
  | _ => false

/-- The steps of `payAndSubmit`. -/
def Await.submits : Await → Bool
  | chargeSponsorFee _ | sign _ | settle _ | sendTransaction _ | subrequestsLeft | sleep
  | getTransaction _ => true
  | _ => false

section

variable {h es es' : History} {e : Event Await.Answer} {α : Type} {hash : Option String}

@[simp] theorem shows_nil {f : Event Await.Answer → Bool} : ¬Shows f [] := by
  intro h
  obtain ⟨e, he, -⟩ := h
  cases he

@[simp] theorem shows_cons {f : Event Await.Answer → Bool} :
    Shows f (e :: es) ↔ f e = true ∨ Shows f es := by
  simp [Shows]

@[simp] theorem shows_append {f : Event Await.Answer → Bool} :
    Shows f (es ++ es') ↔ Shows f es ∨ Shows f es' := by
  simp [Shows, or_and_right, exists_or]

theorem not_shows {f : Event Await.Answer → Bool} (hes : ∀ e ∈ es, f e = false) : ¬Shows f es := by
  intro h
  obtain ⟨e, he, htrue⟩ := h
  rw [hes e he] at htrue
  cases htrue

/-- `f` is true of steps that reach the network only. -/
def Reaching (f : Event Await.Answer → Bool) : Prop := ∀ e, f e = true → e.1.reaches = true

theorem reaching_sends : Reaching sends := by
  intro ⟨q, a⟩ h
  cases q <;> first | rfl | cases h

theorem reaching_refusesSend : Reaching refusesSend := by
  intro ⟨q, a⟩ h
  cases q <;> first | rfl | cases h

theorem reaching_sees {status : PollStatus} : Reaching (sees status hash) := by
  intro ⟨q, a⟩ h
  cases q <;> first | rfl | cases h

theorem Reaching.false {f : Event Await.Answer → Bool} (hf : Reaching f) (he : e.1.reaches = false) :
    f e = false := by
  cases htrue : f e with
  | false => rfl
  | true => exact absurd (hf e htrue) (by simp [he])

theorem not_shows_of_unreached {f : Event Await.Answer → Bool} (hf : Reaching f)
    (hes : ∀ e ∈ es, e.1.reaches = false) : ¬Shows f es :=
  not_shows fun e he => hf.false (hes e he)

theorem noEffect_of_unreached (hes : ∀ e ∈ es, e.1.reaches = false) : NoEffect es := by
  intro e he hsends
  rw [reaching_sends.false (hes e he)] at hsends
  cases hsends

/-- An event that says nothing about the deposit. -/
def Silent (e : Event Await.Answer) : Prop := e.1.reaches = false ∧ misleads e = false

/-- Two records that say the same about the deposit. -/
structure SameReach (h h' : History) : Prop where
  reach : ∀ e, e.1.reaches = true → (e ∈ h ↔ e ∈ h')
  misled : Shows misleads h ↔ Shows misleads h'

theorem SameReach.shows {h' : History} {f : Event Await.Answer → Bool} (hsame : SameReach h h')
    (hf : Reaching f) : Shows f h ↔ Shows f h' := by
  apply exists_congr
  intro e
  apply and_congr_left
  intro he
  exact hsame.reach e (hf e he)

theorem SameReach.noEffect {h' : History} (hsame : SameReach h h') : NoEffect h ↔ NoEffect h' := by
  apply forall_congr'
  intro e
  constructor
  · intro hno he hsends
    exact (hno ((hsame.reach e (reaching_sends e hsends)).mpr he) hsends).imp_right
      (hsame.shows reaching_sees).mp
  · intro hno he hsends
    exact (hno ((hsame.reach e (reaching_sends e hsends)).mp he) hsends).imp_right
      (hsame.shows reaching_sees).mpr

theorem SameReach.misnamed {h' : History} (hsame : SameReach h h') : Misnamed h ↔ Misnamed h' := by
  apply exists_congr
  intro hash
  apply and_congr (hsame.shows reaching_sees)
  apply forall_congr'
  intro e
  constructor
  · exact fun hno he hsends => hno ((hsame.reach e (reaching_sends e hsends)).mpr he) hsends
  · exact fun hno he hsends => hno ((hsame.reach e (reaching_sends e hsends)).mp he) hsends

theorem SameReach.misjudges {h' : History} (hsame : SameReach h h') : Misjudges h ↔ Misjudges h' :=
  or_congr hsame.misled hsame.misnamed

/-- Silent events, before and after. -/
theorem sameReach_between {before after : History} (hbefore : ∀ e ∈ before, Silent e)
    (hafter : ∀ e ∈ after, Silent e) : SameReach (before ++ es ++ after) es where
  reach e he := by
    have hnot : e ∉ before ∧ e ∉ after := by
      refine ⟨fun hmem => ?_, fun hmem => ?_⟩
      · rw [(hbefore e hmem).1] at he
        cases he
      · rw [(hafter e hmem).1] at he
        cases he
    simp [hnot.1, hnot.2]
  misled := by
    simp [not_shows fun e he => (hbefore e he).2, not_shows fun e he => (hafter e he).2]

/-! ## Judging a submission -/

/-- Whether the end of a program tells what became of the deposit. -/
def Judges (gave : Bool) (es : History) : Prop := (gave = true ↔ NoEffect es) ↔ ¬Misjudges es

theorem Judges.congr {gave : Bool} (hjudges : Judges gave es') (hsame : SameReach es es') :
    Judges gave es := by
  unfold Judges
  rw [hsame.noEffect, hsame.misjudges]
  exact hjudges

theorem misjudges_iff_of_unreached (hes : ∀ e ∈ es, e.1.reaches = false) :
    Misjudges es ↔ Shows misleads es := by
  apply or_iff_left
  intro h
  obtain ⟨hash, hfailed, -⟩ := h
  exact not_shows_of_unreached reaching_sees hes hfailed

/-- An end before the send. -/
theorem judges_of_unreached {gave : Bool} (hes : ∀ e ∈ es, e.1.reaches = false)
    (hgave : gave = true ↔ ¬Shows misleads es) : Judges gave es := by
  have hnone := noEffect_of_unreached hes
  unfold Judges
  rw [misjudges_iff_of_unreached hes, hgave]
  exact ⟨fun hiff => hiff.mpr hnone, fun hnot => iff_of_true hnot hnone⟩

theorem judges_of_silent (hes : ∀ e ∈ es, Silent e) : Judges true es :=
  judges_of_unreached (fun e he => (hes e he).1)
    (iff_of_true rfl (not_shows fun e he => (hes e he).2))

/-- What the end of a submission takes for no effect. -/
def rejects : Except Failure Watched → Bool
  | .ok w => w.got.status = .FAILED
  | .error e => !e.isSubmitUnconfirmed

/-- A submission, as the events it adds. -/
structure Submitting (fair : (q : Await) → q.Answer → Prop) (r : Except Failure Watched) (es : History) :
    Prop where
  steps : ∀ e ∈ es, e.1.submits = true
  judged : Judges (rejects r) es
  /-- What is passed on was thrown by the signer. -/
  passed : ∀ t, r = .error (.passed t) → NoEffect es ∧ ∃ tx, fair (.sign tx) (.error t)
  /-- What is undecided in the sponsor's own words may have taken effect. -/
  kept : rejects r = false → (∀ t, r ≠ .error (.passed t)) → ¬NoEffect es

/-! ## The submission -/

variable {fair : (q : Await) → q.Answer → Prop} {tx : Payable} {label : String} {window : Window}

theorem submits_of_polls {q : Await} (h : q.polls hash = true) : q.submits = true := by
  cases q <;> first | rfl | cases h

theorem sends_of_polls (h : e.1.polls hash = true) : sends e = false := by
  obtain ⟨q, a⟩ := e
  cases q <;> first | rfl | cases h

theorem worded_ne_passed {error : String → Failure} {text : Except Failure String} {t : Thrown}
    (herror : ∀ s, error s ≠ .passed t) (htext : ∀ e, text = .error e → e ∈ typeErrors) :
    Failure.worded error text ≠ .passed t := by
  cases text with
  | ok s => exact herror s
  | error e =>
    intro heq
    have hmem := htext e rfl
    rw [show e = .passed t from heq] at hmem
    simp [typeErrors] at hmem

theorem pollFailure_ne_passed {t t' : Thrown} : pollFailure hash t ≠ .passed t' := by
  apply worded_ne_passed
  · intro s hs
    cases hs
  · exact fun _ => Thrown.readMessage_error

theorem event_of_sees {status : PollStatus} (h : sees status hash e = true) :
    ∃ got, e = ⟨.getTransaction hash, .ok got⟩ ∧ got.status = status := by
  obtain ⟨q, a⟩ := e
  cases q with
  | getTransaction asked =>
    cases a with
    | ok got =>
      have hpolled := of_decide_eq_true h
      unfold polledAs at hpolled
      dsimp only at hpolled
      split at hpolled
      · rename_i hstatus
        obtain rfl := Option.some.inj hpolled
        exact ⟨got, rfl, hstatus⟩
      · cases hpolled
    | error t => cases h
  | _ => cases h

theorem misleads_of_polls (hpolls : e.1.polls hash = true) (h : misleads e = true) :
    ∃ t, reading e = some (.error t) ∧ isError t.readMessage = true := by
  obtain ⟨q, a⟩ := e
  cases q with
  | getTransaction asked =>
    cases a with
    | ok got => cases h
    | error t => exact ⟨t, rfl, h⟩
  | subrequestsLeft | sleep => cases h
  | _ => cases hpolls

/-- A poll sees a decision exactly when it ends with it, and under the hash it asks for. -/
theorem Watching.sees_iff {asked : Option String} {status : PollStatus}
    {r : Except Failure (Polled × Bool)} (hes : Watching fair asked r es)
    (hdecided : status ≠ .NOT_FOUND) :
    Shows (sees status hash) es ↔ hash = asked ∧ ∃ got cut, r = .ok (got, cut) ∧ got.status = status := by
  constructor
  · intro h
    obtain ⟨e, he, hsees⟩ := h
    obtain ⟨got, rfl, hstatus⟩ := event_of_sees hsees
    have hasked : hash = asked := of_decide_eq_true (hes.polls _ he)
    have hmem : .ok got ∈ es.filterMap reading := List.mem_filterMap.mpr ⟨_, he, rfl⟩
    have hnot : ¬NotYet (.ok got) := by
      intro h
      obtain ⟨got', heq, hnotFound⟩ := h
      cases heq
      exact hdecided (hstatus.symm.trans hnotFound)
    cases r with
    | ok read =>
      cases (hes.seen.2 _ hmem).resolve_right hnot
      exact ⟨hasked, _, _, rfl, hstatus⟩
    | error e =>
      obtain ⟨t, -, -, hlast⟩ := hes.seen
      cases (hlast _ hmem).resolve_right hnot
  · intro h
    obtain ⟨rfl, got, cut, rfl, hstatus⟩ := h
    have hmem := hes.seen.1.resolve_left (by rwa [hstatus])
    obtain ⟨asked, he⟩ := mem_of_reading hmem
    obtain rfl : asked = hash := of_decide_eq_true (hes.polls _ he)
    exact ⟨_, he, by simp [sees, polledAs, hstatus]⟩

/-- A poll misleads exactly when it ends with an ordinary error. -/
theorem Watching.misleads_iff {r : Except Failure (Polled × Bool)} (hes : Watching fair hash r es) :
    Shows misleads es ↔ ∃ e, r = .error e ∧ e.isSubmitUnconfirmed = false := by
  constructor
  · intro h
    obtain ⟨e, he, hmisleads⟩ := h
    obtain ⟨t, hreading, ht⟩ := misleads_of_polls (hes.polls e he) hmisleads
    have hmem := List.mem_filterMap.mpr ⟨e, he, hreading⟩
    have hnot : ¬NotYet (.error t) := by
      intro h
      obtain ⟨got, heq, -⟩ := h
      cases heq
    cases r with
    | ok read => cases (hes.seen.2 _ hmem).resolve_right hnot
    | error e =>
      obtain ⟨t', rfl, -, hlast⟩ := hes.seen
      cases (hlast _ hmem).resolve_right hnot
      refine ⟨_, rfl, ?_⟩
      cases hread : t.readMessage with
      | ok message =>
        rw [hread] at ht
        cases ht
      | error e' =>
        rw [pollFailure, hread]
        exact not_unconfirmed_of_typeErrors (Thrown.readMessage_error hread)
  · intro h
    obtain ⟨e, rfl, hplain⟩ := h
    obtain ⟨t, rfl, hmem, -⟩ := hes.seen
    obtain ⟨asked, he⟩ := mem_of_reading hmem
    refine ⟨_, he, ?_⟩
    change isError t.readMessage = true
    cases hread : t.readMessage with
    | ok message =>
      rw [pollFailure, hread] at hplain
      cases hplain
    | error e' => rfl

/-- The events up to a send that was accepted. -/
structure Accepted (tx : Payable) (es : History) : Prop where
  steps : ∀ e ∈ es, e.1.submits = true
  sent : ∃ e ∈ es, sends e = true ∧ sentHash e = tx.hash ∧ refusesSend e = false
  only : ∀ e ∈ es, sends e = true → sentHash e = tx.hash
  unseen : ∀ hash, ¬Shows (seesFailed hash) es

theorem Accepted.sentHash_eq (hpre : Accepted tx es) (hunsent : ∀ e ∈ es', sends e = false)
    (he : e ∈ es ++ es') (hsends : sends e = true) : sentHash e = tx.hash := by
  rcases List.mem_append.mp he with he | he
  · exact hpre.only e he hsends
  · rw [hunsent e he] at hsends
    cases hsends

/-- The poll decides what an accepted transaction ends with. -/
theorem Accepted.noEffect_iff (hpre : Accepted tx es) (hunsent : ∀ e ∈ es', sends e = false) :
    NoEffect (es ++ es') ↔ Shows (seesFailed tx.hash) es' := by
  constructor
  · intro hno
    obtain ⟨e, he, hsends, hhash, hrefuses⟩ := hpre.sent
    rcases hno e (List.mem_append_left _ he) hsends with hrefused | hfailed
    · rw [hrefuses] at hrefused
      cases hrefused
    · rw [hhash, shows_append] at hfailed
      exact hfailed.resolve_left (hpre.unseen _)
  · intro hfailed e he hsends
    rw [hpre.sentHash_eq hunsent he hsends]
    exact .inr (shows_append.mpr (.inr hfailed))

theorem Accepted.misnamed_iff (hpre : Accepted tx es) (hunsent : ∀ e ∈ es', sends e = false) :
    Misnamed (es ++ es') ↔ ∃ hash, Shows (seesFailed hash) es' ∧ tx.hash ≠ hash := by
  refine exists_congr fun hash => and_congr ?_ ?_
  · rw [shows_append]
    exact or_iff_right (hpre.unseen hash)
  · constructor
    · intro hother
      obtain ⟨e, he, hsends, hhash, -⟩ := hpre.sent
      rw [← hhash]
      exact hother e (List.mem_append_left _ he) hsends
    · intro hother e he hsends
      rw [hpre.sentHash_eq hunsent he hsends]
      exact hother

/-- What the poll ends with is judged by the hash that it asked for. -/
theorem judges_watched {asked : Option String} {r : Except Failure (Polled × Bool)} {after : History}
    (hpre : Accepted tx es) (hclear : ¬Shows misleads es) (hpolls : Watching fair asked r es')
    (hafter : ∀ e ∈ after, Silent e) :
    Judges (rejects (r.map fun read => ⟨asked, read.1, read.2⟩)) (es ++ (es' ++ after)) := by
  have hunsent : ∀ e ∈ es', sends e = false := fun e he => sends_of_polls (hpolls.polls e he)
  have hsame : SameReach (es ++ (es' ++ after)) (es ++ es') := by
    have hbetween : SameReach ([] ++ (es ++ es') ++ after) (es ++ es') :=
      sameReach_between (List.forall_mem_nil _) hafter
    rwa [List.nil_append, List.append_assoc] at hbetween
  refine Judges.congr ?_ hsame
  have hmisled : Shows misleads (es ++ es') ↔ Shows misleads es' := by
    rw [shows_append]
    exact or_iff_right hclear
  have hfailed : ∀ hash, Shows (seesFailed hash) es' ↔
      hash = asked ∧ ∃ got cut, r = .ok (got, cut) ∧ got.status = .FAILED :=
    fun hash => hpolls.sees_iff nofun
  unfold Judges Misjudges
  rw [hpre.noEffect_iff hunsent, hpre.misnamed_iff hunsent, hmisled, hpolls.misleads_iff]
  simp only [hfailed]
  cases r with
  | error e =>
    cases hun : e.isSubmitUnconfirmed <;> simp [rejects, Except.map, hun]
  | ok read =>
    obtain ⟨got, cut⟩ := read
    by_cases hstatus : got.status = .FAILED
    · simp [rejects, Except.map, hstatus]
    · simp [rejects, Except.map, hstatus]

theorem wp_watch_ends {sent : Sent} (hpre : Accepted tx es) (hclear : ¬Shows misleads es) :
    (watch sent window).wp (recorded fair)
      (fun r h' => ∃ es', h' = h ++ es' ∧ Submitting fair r es') (h ++ es) := by
  unfold watch
  rw [wp_bind]
  refine wp_mono ?_ (wp_pollReads rfl)
  rintro r _ ⟨polls, rfl, hpolls⟩
  have hsteps : ∀ e ∈ es ++ polls, e.1.submits = true := List.forall_mem_append.mpr
    ⟨hpre.steps, fun e he => submits_of_polls (hpolls.polls e he)⟩
  have hunsent : ∀ e ∈ polls, sends e = false := fun e he => sends_of_polls (hpolls.polls e he)
  have hjudged := judges_watched hpre hclear hpolls (List.forall_mem_nil _)
  rw [List.append_nil] at hjudged
  have hfailed : Shows (seesFailed tx.hash) polls →
      ∃ got cut, r = .ok (got, cut) ∧ got.status = .FAILED := by
    intro hshows
    exact ((hpolls.sees_iff (by decide)).mp hshows).2
  rw [List.append_assoc]
  cases r with
  | error e =>
    refine ⟨es ++ polls, rfl, hsteps, hjudged, fun t heq => ?_, fun _ _ => ?_⟩
    · obtain ⟨t', rfl, -, -⟩ := hpolls.seen
      exact absurd (Except.error.inj heq) pollFailure_ne_passed
    · rw [hpre.noEffect_iff hunsent]
      intro hshows
      obtain ⟨_, _, heq, -⟩ := hfailed hshows
      cases heq
  | ok read =>
    obtain ⟨got, cut⟩ := read
    have hnot : rejects (.ok ⟨sent.hash, got, cut⟩) = false → ¬Shows (seesFailed tx.hash) polls := by
      intro hkept hshows
      obtain ⟨_, _, heq, hstatus⟩ := hfailed hshows
      cases heq
      exact of_decide_eq_false hkept hstatus
    rw [onValue_ok]
    dsimp only
    split
    · refine wp_recorded_bind.mpr fun u _ =>
        ⟨es ++ (polls ++ [⟨.settle _, u⟩]), by simp only [List.append_assoc], ?_, ?_, fun t heq => ?_,
          fun hkept _ => ?_⟩
      · rw [← List.append_assoc]
        exact List.forall_mem_append.mpr ⟨hsteps, List.forall_mem_singleton.mpr rfl⟩
      · exact judges_watched hpre hclear hpolls (List.forall_mem_singleton.mpr ⟨rfl, rfl⟩)
      · cases heq
      · rw [hpre.noEffect_iff (List.forall_mem_append.mpr ⟨hunsent, List.forall_mem_singleton.mpr rfl⟩),
          shows_append]
        exact not_or.mpr ⟨hnot hkept, by simp [sees, polledAs]⟩
    · refine ⟨es ++ polls, rfl, hsteps, hjudged, fun t heq => ?_, fun hkept _ => ?_⟩
      · cases heq
      · rw [hpre.noEffect_iff hunsent]
        exact hnot hkept

/-- What is known before the send. -/
structure Unsent (es : History) : Prop where
  steps : ∀ e ∈ es, e.1.submits = true
  silent : ∀ e ∈ es, Silent e

/-- A send that was refused. -/
theorem Unsent.refused (hpre : Unsent es) {answer : Except Thrown Sent} {u : Unit} {call : SettleCall}
    (hrefuses : refusesSend ⟨.sendTransaction tx, answer⟩ = true) {e : Failure}
    (he : e.isSubmitUnconfirmed = false) (hpassed : ∀ t, e ≠ .passed t) :
    Submitting fair (.error e) (es ++ [⟨.sendTransaction tx, answer⟩, ⟨.settle call, u⟩]) := by
  have hnone : NoEffect (es ++ [⟨.sendTransaction tx, answer⟩, ⟨.settle call, u⟩]) := by
    intro e he hsends
    rcases List.mem_append.mp he with he | he
    · rw [reaching_sends.false (hpre.silent e he).1] at hsends
      cases hsends
    · obtain rfl | rfl := List.mem_pair.mp he
      · exact .inl hrefuses
      · cases hsends
  have hmisled : misleads ⟨.sendTransaction tx, answer⟩ = false := by
    cases answer with
    | ok sent => rfl
    | error t =>
      have hout : sendRefusedOutright t = true := hrefuses
      simp [misleads, hout]
  have hclear : ¬Misjudges (es ++ [⟨.sendTransaction tx, answer⟩, ⟨.settle call, u⟩]) := by
    rintro (hshows | ⟨hash, hfailed, -⟩)
    · rw [shows_append] at hshows
      refine hshows.elim (not_shows fun e he => (hpre.silent e he).2) (not_shows fun e he => ?_)
      obtain rfl | rfl := List.mem_pair.mp he
      · exact hmisled
      · rfl
    · rw [shows_append] at hfailed
      refine hfailed.elim (not_shows_of_unreached reaching_sees fun e he => (hpre.silent e he).1) ?_
      simp [sees, polledAs]
  have hgave : rejects (.error e) = true := by simp [rejects, he]
  refine ⟨List.forall_mem_append.mpr ⟨hpre.steps, by simp [Await.submits]⟩, ?_, fun t heq => ?_, ?_⟩
  · exact iff_of_true (iff_of_true hgave hnone) hclear
  · exact absurd (Except.error.inj heq) (hpassed t)
  · intro hkept
    rw [hgave] at hkept
    cases hkept

theorem Unsent.accepted (hpre : Unsent es) {answer : Except Thrown Sent}
    (haccepts : refusesSend ⟨.sendTransaction tx, answer⟩ = false) :
    Accepted tx (es ++ [⟨.sendTransaction tx, answer⟩]) where
  steps := List.forall_mem_append.mpr ⟨hpre.steps, List.forall_mem_singleton.mpr rfl⟩
  sent := ⟨_, List.mem_append_right _ (List.mem_singleton_self _), rfl, rfl, haccepts⟩
  only e he hsends := by
    rcases List.mem_append.mp he with he | he
    · rw [reaching_sends.false (hpre.silent e he).1] at hsends
      cases hsends
    · rw [List.mem_singleton.mp he]
      rfl
  unseen hash := by
    rw [shows_append]
    refine not_or.mpr ⟨?_, by simp [sees, polledAs]⟩
    exact not_shows_of_unreached reaching_sees fun e he => (hpre.silent e he).1

/-- A send that threw, and may have reached the network. -/
theorem Unsent.threw (hpre : Unsent es) {t : Thrown} {detail : String → String} {hash : Option String}
    (haccepts : sendRefusedOutright t = false) :
    Submitting fair (.error (.worded (fun line => .unconfirmed (detail line) hash) (describeThrow t)))
      (es ++ [⟨.sendTransaction tx, .error t⟩]) := by
  have hacc : Accepted tx (es ++ [⟨.sendTransaction tx, .error t⟩]) := hpre.accepted haccepts
  have heffect : ¬NoEffect (es ++ [⟨.sendTransaction tx, .error t⟩]) := by
    have hiff := hacc.noEffect_iff (List.forall_mem_nil _)
    rw [List.append_nil] at hiff
    rw [hiff]
    exact shows_nil
  have hmisjudges : Misjudges (es ++ [⟨.sendTransaction tx, .error t⟩]) ↔
      isError (describeThrow t) = true := by
    unfold Misjudges
    rw [or_iff_left fun hnamed : Misnamed _ => hacc.unseen _ hnamed.choose_spec.1, shows_append,
      or_iff_right (not_shows fun e he => (hpre.silent e he).2)]
    simp [misleads, haccepts]
  refine ⟨hacc.steps, ?_, fun t' heq => ?_, fun _ _ => heffect⟩
  · unfold Judges
    rw [hmisjudges]
    cases hwords : describeThrow t with
    | ok line => simp [rejects, Failure.worded, Failure.isSubmitUnconfirmed, isError, heffect]
    | error e =>
      have hplain := not_unconfirmed_of_typeErrors (describeThrow_error hwords)
      simp [rejects, Failure.worded, hplain, isError, heffect]
  · refine absurd (Except.error.inj heq) (worded_ne_passed (fun s hs => ?_) fun _ => describeThrow_error)
    cases hs

theorem wp_sendSigned_ends (hpre : Unsent es) : (sendSigned tx label window).wp (recorded fair)
    (fun r h' => ∃ es', h' = h ++ es' ∧ Submitting fair r es') (h ++ es) := by
  unfold sendSigned
  split
  · refine ⟨es, rfl, hpre.steps, judges_of_silent hpre.silent, fun t heq => ?_, fun hkept => ?_⟩
    · cases heq
    · cases hkept
  rw [wp_recorded_bind]
  intro answer hanswer
  rw [List.append_assoc]
  -- A refused send settles the charge and ends with an ordinary error.
  have hrefused : refusesSend ⟨.sendTransaction tx, answer⟩ = true → ∀ e : Failure,
      e.isSubmitUnconfirmed = false → (∀ t, e ≠ .passed t) →
      (wait (.settle .notIncluded) >>= fun _ => throw e : Route Watched).wp (recorded fair) (fun r h' => ∃ es', h' = h ++ es' ∧ Submitting fair r es')
        (h ++ (es ++ [⟨.sendTransaction tx, answer⟩])) := by
    intro hrefuses e he hpassed
    refine wp_recorded_bind.mpr fun u _ =>
      ⟨es ++ [⟨.sendTransaction tx, answer⟩, ⟨.settle .notIncluded, u⟩], ?_,
        hpre.refused hrefuses he hpassed⟩
    simp only [List.append_assoc, List.cons_append, List.nil_append]
  cases answer with
  | error t =>
    unfold sendThrew
    dsimp only
    split
    · rename_i hrefuses
      refine hrefused hrefuses _ (Failure.worded_plain (fun _ => rfl) fun _ => describeThrow_error) ?_
      refine fun t' => worded_ne_passed (fun s hs => ?_) fun _ => describeThrow_error
      cases hs
    · rename_i hnot
      have hnot : sendRefusedOutright t = false := Bool.not_eq_true _ ▸ hnot
      exact ⟨_, rfl, hpre.threw hnot⟩
  | ok sent =>
    have hclear : ¬Shows misleads (es ++ [⟨.sendTransaction tx, .ok sent⟩]) := by
      rw [shows_append]
      exact not_or.mpr ⟨not_shows fun e he => (hpre.silent e he).2, by simp [misleads]⟩
    unfold sendAnswered
    dsimp only
    split
    · rename_i hstatus
      apply hrefused (by simp [refusesSend, hstatus]) _ rfl
      intro t heq
      cases heq
    · rename_i hstatus
      apply hrefused (by simp [refusesSend, hstatus]) _ rfl
      intro t heq
      cases heq
    all_goals
      rename_i hstatus
      exact wp_watch_ends (hpre.accepted (by simp [refusesSend, hstatus])) hclear

/-- **How `payAndSubmit` ends.** -/
theorem wp_payAndSubmit_ends : (payAndSubmit tx label window).wp (recorded fair)
    (fun r h' => ∃ es, h' = h ++ es ∧ Submitting fair r es) h := by
  unfold payAndSubmit
  rw [wp_recorded_bind]
  intro charged _
  cases charged with
  | error e =>
    have hgave : rejects (.error e.failure) = true := by simp [rejects, FeeError.not_unconfirmed]
    refine ⟨_, rfl, List.forall_mem_singleton.mpr rfl, ?_, fun t heq => ?_, fun hkept => ?_⟩
    · rw [hgave]
      exact judges_of_silent (List.forall_mem_singleton.mpr ⟨rfl, rfl⟩)
    · cases e <;> cases heq
    · rw [hgave] at hkept
      cases hkept
  | ok charge =>
    unfold signCharged
    dsimp only
    rw [wp_bind, wp_recorded_bind]
    intro signed hsigned
    rw [List.append_assoc]
    cases signed with
    | ok u =>
      refine wp_sendSigned_ends ⟨?_, ?_⟩
      · simp [Await.submits]
      · simp [Silent, Await.reaches, misleads]
    | error t =>
      have hunreached : ∀ e ∈ ([⟨.chargeSponsorFee tx.fee, .ok charge⟩] ++ [⟨.sign tx, .error t⟩] ++
          [⟨.settle .notIncluded, ()⟩] : History), e.1.reaches = false := by simp [Await.reaches]
      refine wp_recorded_bind.mpr fun u _ => ⟨_, List.append_assoc .., ?_, ?_, fun t' heq => ?_, ?_⟩
      · simp [Await.submits]
      · apply judges_of_unreached hunreached
        simp [rejects, Failure.isSubmitUnconfirmed, misleads]
      · cases heq
        exact ⟨noEffect_of_unreached hunreached, tx, hsigned⟩
      · exact fun _ hnot => absurd rfl (hnot t)

/-! ## The handler and the pilot gate -/

/-- The handler ends with an ordinary error. -/
def gaveUp : Except Failure α → Bool
  | .ok _ => false
  | .error e => !e.isSubmitUnconfirmed

/-- The handler gives up exactly when nothing took effect, unless an answer misjudges the deposit. -/
def Tells (r : Except Failure α) (es : History) : Prop := Judges (gaveUp r) es

/-- A reservation is released once exactly when it was taken and the handler gave up. -/
structure GivesBack (r : Except Failure α) (taken : Prop) (releases : ℕ) : Prop where
  kept : gaveUp r = false ∨ ¬taken → releases = 0
  gave : gaveUp r = true → taken → releases = 1

/-- The steps of the pilot gate. -/
def Await.gates : Await → Bool
  | enforcePilot _ | releasePilot => true
  | _ => false

/-- A handler of a deposit, as the events it adds. -/
structure Relaying (r : Except Failure Relayed) (es : History) : Prop where
  gates : ∀ e ∈ es, e.1.gates = false
  tells : Tells r es
  back : GivesBack r (CapTaken es) (times .releaseCap es)

theorem times_append {q : Await} : times q (es ++ es') = times q es + times q es' :=
  List.countP_append

theorem times_eq_zero {q : Await} (hes : ∀ e ∈ es, e.1 ≠ q) : times q es = 0 :=
  List.countP_eq_zero.mpr fun e he => by simpa using hes e he

theorem gates_of_submits {q : Await} (h : q.submits = true) : q.gates = false := by
  cases q <;> first | rfl | cases h

variable {cfg : DepositConfig} {inner : InnerTransaction} {release released : Bool}

/-- A handler that ends before it has reserved anything. -/
theorem Relaying.of_unreserved {r : Except Failure Relayed} (hr : gaveUp r = true ↔ ¬Shows misleads es)
    (hes : ∀ e ∈ es, e.1.reaches = false ∧ e.1.gates = false ∧ e.1 ≠ .releaseCap)
    (htaken : ¬CapTaken es) : Relaying r es where
  gates e he := (hes e he).2.1
  tells := judges_of_unreached (fun e he => (hes e he).1) hr
  back := ⟨fun _ => times_eq_zero fun e he => (hes e he).2.2, fun _ h => absurd h htaken⟩

/-- The call that gives the caps back. -/
def capReturn (due : Bool) : History := if due then [⟨.releaseCap, ()⟩] else []

theorem times_capReturn {due : Bool} : times .releaseCap (capReturn due) = due.toNat := by
  cases due <;> rfl

theorem capTaken_iff {simulated : Simulated} {amountStroops : ℤ} {sender : String} {tail : History}
    (hsteps : ∀ e ∈ tail, e.1.submits = true ∨ e.1 = .releaseCap) :
    CapTaken ([⟨.simulateTransaction, .ok simulated⟩,
      ⟨.checkCaps amountStroops sender, .admitted release⟩] ++ tail) ↔ release = true := by
  constructor
  · intro h
    obtain ⟨amount, sender', hmem⟩ := h
    rcases List.mem_append.mp hmem with hmem | hmem
    · rcases List.mem_pair.mp hmem with heq | heq
      · cases heq
      · cases heq
        rfl
    · rcases hsteps _ hmem with hstep | hstep <;> cases hstep
  · rintro rfl
    exact ⟨amountStroops, sender, List.mem_append_left _ (List.mem_pair.mpr (.inr rfl))⟩

/-- A handler that has reserved, submitted, and given the caps back if it gave up. -/
theorem Relaying.of_reserved {r : Except Failure Relayed} {simulated : Simulated}
    {amountStroops : ℤ} {sender : String} (hes : ∀ e ∈ es, e.1.submits = true) (htells : Tells r es) :
    Relaying r ([⟨.simulateTransaction, .ok simulated⟩,
      ⟨.checkCaps amountStroops sender, .admitted release⟩] ++ (es ++ capReturn (gaveUp r && release))) := by
  have hreturn : ∀ e ∈ capReturn (gaveUp r && release), e = ⟨.releaseCap, ()⟩ := by
    intro e he
    unfold capReturn at he
    split at he
    · exact List.mem_singleton.mp he
    · cases he
  have htail : ∀ e ∈ es ++ capReturn (gaveUp r && release), e.1.submits = true ∨ e.1 = .releaseCap := by
    intro e he
    rcases List.mem_append.mp he with he | he
    · exact .inl (hes e he)
    · rw [hreturn e he]
      exact .inr rfl
  have hsame : SameReach ([⟨.simulateTransaction, .ok simulated⟩,
      ⟨.checkCaps amountStroops sender, .admitted release⟩] ++ (es ++ capReturn (gaveUp r && release))) es := by
    rw [← List.append_assoc]
    apply sameReach_between (by simp [Silent, Await.reaches, misleads])
    intro e he
    rw [hreturn e he]
    exact ⟨rfl, rfl⟩
  refine ⟨?_, Judges.congr htells hsame, ?_⟩
  · refine List.forall_mem_append.mpr ⟨by simp [Await.gates], fun e he => ?_⟩
    rcases htail e he with hstep | hstep
    · exact gates_of_submits hstep
    · rw [hstep]
      rfl
  · have htimes : times .releaseCap es = 0 := times_eq_zero fun e he hcap => by
      have hstep := hes e he
      rw [hcap] at hstep
      cases hstep
    rw [times_append, times_append, htimes, times_capReturn, show times .releaseCap [_, _] = 0 from rfl]
    refine ⟨fun hnot => ?_, fun hgave htaken => ?_⟩
    · rcases hnot with hkept | hfree
      · rw [hkept]
        rfl
      · rw [capTaken_iff htail, Bool.not_eq_true] at hfree
        rw [hfree, Bool.and_false]
        rfl
    · rw [hgave, (capTaken_iff htail).mp htaken]
      rfl

/-- The attempt, as the events it adds: a submission, and the caps for one that the ledger rejected. -/
def Attempting (release : Bool) (r : Except Failure Relayed) (released : Bool) (es' : History) : Prop :=
  ∃ es, es' = es ++ capReturn (released && release) ∧ (∀ e ∈ es, e.1.submits = true) ∧ Tells r es ∧
    (released = true → gaveUp r = true)

theorem wp_releaseOnce {post : Except Failure Bool → History → Prop}
    (hpost : post (.ok true) (h ++ capReturn (!released && release))) :
    (releaseOnce release released).wp (recorded fair) post h := by
  unfold releaseOnce
  cases release <;> cases released
  · simpa [capReturn] using hpost
  · simpa [capReturn] using hpost
  · exact wp_recorded_bind.mpr fun u _ => hpost
  · simpa [capReturn] using hpost

@[simp] theorem gaveUp_failure {e : OwnError} : gaveUp (.error e.failure : Except Failure α) = true := by
  rw [gaveUp, FeeError.not_unconfirmed]
  rfl

theorem wp_depositAttempt : (depositAttempt cfg inner release).wp (recorded fair)
    (fun r h' => ∃ res released es, r = .ok (res, released) ∧ h' = h ++ es ∧
      Attempting release res released es) h := by
  unfold depositAttempt
  split
  · refine ⟨_, false, [], rfl, (List.append_nil h).symm, [], rfl, List.forall_mem_nil _, ?_, nofun⟩
    rw [Tells, gaveUp_failure]
    exact judges_of_silent (List.forall_mem_nil _)
  · rw [wp_bind, wp_outcome]
    refine wp_mono ?_ wp_payAndSubmit_ends
    rintro r _ ⟨es, rfl, hsteps, hjudged, -, -⟩
    rw [onValue_ok]
    cases r with
    | error e =>
      exact ⟨_, false, es, rfl, rfl, es, (List.append_nil es).symm, hsteps, hjudged, nofun⟩
    | ok w =>
      have hkept : w.got.status ≠ .FAILED → ∀ relayed, Tells (.ok relayed : Except Failure Relayed) es := by
        intro hnot relayed
        rwa [rejects, decide_eq_false hnot] at hjudged
      unfold depositWatched
      dsimp only
      split
      · rename_i hstatus
        exact ⟨_, false, es, rfl, rfl, es, (List.append_nil es).symm, hsteps,
          hkept (by rw [hstatus]; nofun) _, nofun⟩
      · rename_i hstatus
        rw [wp_bind]
        apply wp_releaseOnce
        refine ⟨_, true, es ++ capReturn release, rfl, List.append_assoc .., es, rfl, hsteps, ?_, fun _ => rfl⟩
        rwa [rejects, decide_eq_true hstatus] at hjudged
      all_goals
        rename_i hstatus
        exact ⟨_, false, es, rfl, rfl, es, (List.append_nil es).symm, hsteps,
          hkept (by rw [hstatus]; nofun) _, nofun⟩

/-- The caps are given back once, by the attempt or after it. -/
theorem wp_depositReserved : (depositReserved cfg inner release).wp (recorded fair)
    (fun r h' => ∃ es, h' = h ++ (es ++ capReturn (gaveUp r && release)) ∧
      (∀ e ∈ es, e.1.submits = true) ∧ Tells r es) h := by
  unfold depositReserved
  rw [wp_bind]
  refine wp_mono ?_ wp_depositAttempt
  rintro _ _ ⟨res, released, _, rfl, rfl, es, rfl, hsteps, htells, hreleased⟩
  rw [onValue_ok]
  cases res with
  | ok relayed =>
    have hnot : released = false := by
      cases released
      · rfl
      · cases hreleased rfl
    exact ⟨es, by rw [hnot]; rfl, hsteps, htells⟩
  | error e =>
    dsimp only
    split
    · rename_i hplain
      have hgave : gaveUp (.error e : Except Failure Relayed) = true := hplain
      have honce : capReturn (released && release) ++ capReturn (!released && release) =
          capReturn release := by cases released <;> simp [capReturn]
      rw [wp_bind]
      refine wp_releaseOnce ⟨es, ?_, hsteps, htells⟩
      rw [hgave, Bool.true_and, ← honce]
      simp only [List.append_assoc]
    · rename_i hunconfirmed
      have hkept : gaveUp (.error e : Except Failure Relayed) = false := by
        simpa [gaveUp] using hunconfirmed
      have hnot : released = false := by
        cases released
        · rfl
        · cases hkept.symm.trans (hreleased rfl)
      exact ⟨es, by rw [hnot, hkept], hsteps, htells⟩

/-- **How the handler ends.** -/
theorem wp_relayDeposit {input : RelayDepositInput} : (relayDeposit cfg input).wp (recorded fair)
    (fun r h' => ∃ es, h' = h ++ es ∧ Relaying r es) h := by
  unfold relayDeposit
  split
  · exact ⟨[], (List.append_nil h).symm, .of_unreserved (iff_of_true gaveUp_failure shows_nil)
      (List.forall_mem_nil _) fun ⟨_, _, hmem⟩ => by cases hmem⟩
  rw [wp_recorded_bind]
  intro simulated _
  have hone : ∀ r : Except Failure Relayed,
      (gaveUp r = true ↔ ¬misleads ⟨.simulateTransaction, simulated⟩ = true) →
      ∃ es, h ++ [⟨.simulateTransaction, simulated⟩] = h ++ es ∧ Relaying r es := by
    intro r hr
    refine ⟨_, rfl, .of_unreserved (by simpa using hr)
      (List.forall_mem_singleton.mpr ⟨rfl, rfl, nofun⟩) ?_⟩
    rintro ⟨_, _, hmem⟩
    cases List.mem_singleton.mp hmem
  cases simulated with
  | error t => exact hone _ (by simp [gaveUp, Failure.isSubmitUnconfirmed, misleads])
  | ok sim =>
    dsimp only
    split
    · exact hone _ (iff_of_true gaveUp_failure (by simp [misleads]))
    rw [wp_recorded_bind]
    intro reserved _
    cases reserved with
    | refused reason =>
      refine ⟨_, List.append_assoc .., .of_unreserved (iff_of_true rfl (by simp [misleads])) ?_ ?_⟩
      · simp [Await.reaches, Await.gates]
      · rintro ⟨_, _, hmem⟩
        simp at hmem
    | admitted release =>
      refine wp_mono ?_ wp_depositReserved
      rintro r _ ⟨es, rfl, hsteps, htells⟩
      exact ⟨_, by rw [List.append_assoc, List.append_assoc]; rfl, .of_reserved hsteps htells⟩

theorem Tells.of_gaveUp {β : Type} {r : Except Failure α} {r' : Except Failure β}
    (htells : Tells r es) (heq : gaveUp r' = gaveUp r) : Tells r' es := by
  rwa [Tells, heq]

theorem GivesBack.of_gaveUp {β : Type} {r : Except Failure α} {r' : Except Failure β} {taken taken' : Prop}
    {releases releases' : ℕ} (hback : GivesBack r taken releases) (heq : gaveUp r' = gaveUp r)
    (htaken : taken' ↔ taken) (hreleases : releases' = releases) : GivesBack r' taken' releases' := by
  rw [hreleases]
  exact ⟨fun hr => hback.kept (hr.imp (heq ▸ ·) (htaken.not.mp ·)),
    fun hr ht => hback.gave (heq ▸ hr) (htaken.mp ht)⟩

/-- How the route ends: refused with nothing taken, or with both reservations given back exactly when
the handler gave up. -/
def RouteEnds (r : Except Failure α) (h : History) : Prop :=
  (¬CapTaken h ∧ ¬SlotTaken h ∧ times .releaseCap h = 0 ∧ times .releasePilot h = 0) ∨
  Tells r h ∧ GivesBack r (CapTaken h) (times .releaseCap h) ∧
    GivesBack r (SlotTaken h) (times .releasePilot h)

/-- The call that gives the slot back. -/
def slotReturn (due : Bool) : History := if due then [⟨.releasePilot, ()⟩] else []

theorem slotTaken_iff {pubkey : String} {tail : History}
    (htail : ∀ e ∈ tail, e.1.gates = false ∨ e = ⟨.releasePilot, ()⟩) :
    SlotTaken ([⟨.enforcePilot pubkey, .admitted release⟩] ++ tail) ↔ release = true := by
  constructor
  · intro h
    obtain ⟨pubkey', hmem⟩ := h
    rcases List.mem_append.mp hmem with hmem | hmem
    · cases List.mem_singleton.mp hmem
      rfl
    · rcases htail _ hmem with hgate | heq
      · cases hgate
      · cases heq
  · rintro rfl
    exact ⟨pubkey, List.mem_append_left _ (List.mem_singleton_self _)⟩

theorem times_slotReturn {due : Bool} : times .releasePilot (slotReturn due) = due.toNat := by
  cases due <;> rfl

theorem mem_slotReturn {due : Bool} (he : e ∈ slotReturn due) : e = ⟨.releasePilot, ()⟩ := by
  unfold slotReturn at he
  split at he
  · exact List.mem_singleton.mp he
  · cases he

theorem Relaying.times_releasePilot {r : Except Failure Relayed} (hes : Relaying r es) :
    times .releasePilot es = 0 := times_eq_zero fun e he hq => by
  have hgates := hes.gates e he
  rw [hq] at hgates
  cases hgates

/-- A handler that ran in a slot. -/
theorem RouteEnds.of_relaying {pubkey : String} {r : Except Failure Relayed} {r' : Except Failure α}
    (hes : Relaying r es) (heq : gaveUp r' = gaveUp r) :
    RouteEnds r' ([⟨.enforcePilot pubkey, .admitted release⟩] ++
      (es ++ slotReturn (gaveUp r && release))) := by
  have htail : ∀ e ∈ es ++ slotReturn (gaveUp r && release),
      e.1.gates = false ∨ e = ⟨.releasePilot, ()⟩ := by
    intro e he
    exact (List.mem_append.mp he).imp (hes.gates e) mem_slotReturn
  have hsame : SameReach ([⟨.enforcePilot pubkey, .admitted release⟩] ++
      (es ++ slotReturn (gaveUp r && release))) es := by
    rw [← List.append_assoc]
    apply sameReach_between (by simp [Silent, Await.reaches, misleads])
    intro e he
    rw [mem_slotReturn he]
    exact ⟨rfl, rfl⟩
  have htells : Tells r _ := Judges.congr hes.tells hsame
  refine .inr ⟨htells.of_gaveUp heq, hes.back.of_gaveUp heq ?_ ?_, ?_⟩
  · constructor
    · intro h
      obtain ⟨amountStroops, sender, hmem⟩ := h
      rcases List.mem_append.mp hmem with hmem | hmem
      · cases List.mem_singleton.mp hmem
      · rcases List.mem_append.mp hmem with hmem | hmem
        · exact ⟨amountStroops, sender, hmem⟩
        · cases mem_slotReturn hmem
    · intro h
      obtain ⟨amountStroops, sender, hmem⟩ := h
      exact ⟨amountStroops, sender, List.mem_append_right _ (List.mem_append_left _ hmem)⟩
  · have hslot : times .releaseCap (slotReturn (gaveUp r && release)) = 0 :=
      times_eq_zero fun e he => by rw [mem_slotReturn he]; nofun
    rw [times_append, times_append, hslot, Nat.add_zero]
    exact Nat.zero_add _
  · have htimes : times .releasePilot ([⟨.enforcePilot pubkey, .admitted release⟩] ++
        (es ++ slotReturn (gaveUp r && release))) = (gaveUp r && release).toNat := by
      rw [times_append, times_append, hes.times_releasePilot, times_slotReturn, Nat.zero_add]
      exact Nat.zero_add _
    rw [htimes]
    refine ⟨fun hnot => ?_, fun hgave htaken => ?_⟩
    · rw [heq] at hnot
      rcases hnot with hkept | hfree
      · rw [hkept]
        rfl
      · rw [slotTaken_iff htail, Bool.not_eq_true] at hfree
        rw [hfree, Bool.and_false]
        rfl
    · rw [heq] at hgave
      rw [hgave, (slotTaken_iff htail).mp htaken]
      rfl

theorem wp_depositRoute {pilotEnabled : Bool} {input : RelayDepositInput} :
    (depositRoute cfg pilotEnabled input).wp (recorded fair) RouteEnds [] := by
  unfold depositRoute withPilotSlot
  split
  · rw [wp_bind]
    refine wp_mono ?_ wp_relayDeposit
    intro r h' h
    obtain ⟨es, heq, hes⟩ := h
    obtain rfl : h' = es := heq
    have hslot : ¬SlotTaken h' := by
      intro h
      obtain ⟨pubkey, hmem⟩ := h
      cases hes.gates _ hmem
    have hends : ∀ r' : Except Failure (Slotted Relayed), gaveUp r' = gaveUp r → RouteEnds r' h' :=
      fun r' heq => .inr ⟨hes.tells.of_gaveUp heq, hes.back.of_gaveUp heq Iff.rfl rfl,
        fun _ => hes.times_releasePilot, fun _ htaken => absurd htaken hslot⟩
    cases r with
    | ok relayed => exact hends _ rfl
    | error e => exact hends _ rfl
  rw [wp_recorded_bind]
  intro slot _
  cases slot with
  | refused reason =>
    refine .inl ⟨?_, ?_, rfl, rfl⟩
    · intro h
      obtain ⟨_, _, hmem⟩ := h
      cases List.mem_singleton.mp hmem
    · intro h
      obtain ⟨_, hmem⟩ := h
      cases List.mem_singleton.mp hmem
  | admitted release =>
    dsimp only
    rw [wp_bind, wp_outcome]
    refine wp_mono ?_ wp_relayDeposit
    intro r _ h
    obtain ⟨es, rfl, hes⟩ := h
    rw [onValue_ok]
    have hends : ∀ r' : Except Failure (Slotted Relayed), gaveUp r' = gaveUp r → RouteEnds r'
        ([⟨.enforcePilot input.senderPublicKey, .admitted release⟩] ++
          (es ++ slotReturn (gaveUp r && release))) := fun r' heq => .of_relaying hes heq
    cases r with
    | ok relayed =>
      have hran := hends (.ok (.ran relayed)) rfl
      rw [show slotReturn (gaveUp (.ok relayed : Except Failure Relayed) && release) = [] from rfl,
        List.append_nil] at hran
      exact hran
    | error e =>
      dsimp only
      have hthrew := hends (.error e) rfl
      split
      · rename_i hdue
        obtain ⟨hrelease, hplain⟩ := Bool.and_eq_true_iff.mp hdue
        have hgave : gaveUp (.error e : Except Failure Relayed) = true := hplain
        rw [hgave, hrelease, ← List.append_assoc] at hthrew
        apply wp_recorded_bind.mpr
        intro u _
        rw [hrelease]
        exact hthrew
      · rename_i hnot
        have hkept : (gaveUp (.error e : Except Failure Relayed) && release) = false := by
          rw [Bool.and_comm]
          simpa [gaveUp] using hnot
        rw [hkept, show slotReturn false = [] from rfl, List.append_nil] at hthrew
        exact hthrew

theorem ReleasedRight.of_free {taken : Prop} {releases : ℕ} (hfree : ¬taken) (hzero : releases = 0) :
    ReleasedRight taken releases h :=
  ⟨hzero ▸ Nat.zero_le 1, fun _ htaken => absurd htaken hfree, fun _ => hzero⟩

theorem releasedRight_iff {r : Except Failure α} {taken : Prop} {releases : ℕ} (htells : Tells r h)
    (hback : GivesBack r taken releases) :
    ReleasedRight taken releases h ↔ ¬(Misjudges h ∧ taken) := by
  by_cases htaken : taken
  · have hright : ReleasedRight taken releases h ↔ (gaveUp r = true ↔ NoEffect h) := by
      cases hr : gaveUp r with
      | false =>
        have hzero := hback.kept (.inl hr)
        constructor
        · intro ⟨_, honce, _⟩
          apply iff_of_false Bool.false_ne_true
          intro hno
          have hone := honce hno htaken
          omega
        · intro hiff
          exact ⟨hzero ▸ Nat.zero_le 1, fun hno => absurd (hiff.mpr hno) Bool.false_ne_true, fun _ => hzero⟩
      | true =>
        have hone := hback.gave hr htaken
        constructor
        · intro ⟨_, _, hnever⟩
          refine iff_of_true rfl (not_not.mp fun heffect => ?_)
          have hzero := hnever heffect
          omega
        · intro hiff
          exact ⟨hone.le, fun _ _ => hone, fun heffect => absurd (hiff.mp rfl) heffect⟩
    rw [hright]
    exact htells.trans (not_congr (and_iff_left htaken).symm)
  · exact iff_of_true (.of_free htaken (hback.kept (.inr htaken))) fun hlost => htaken hlost.2

/-- **A deposit is released when it did not take effect.** In every run of the route, both
reservations are released as they have to be, unless an answer misjudges the deposit and one of them
is held; and then they are not. -/
theorem released_right_iff {pilotEnabled : Bool} {input : RelayDepositInput}
    {r : Except Failure (Slotted Relayed)}
    (hrun : Runs (recorded fun _ _ => True) (depositRoute cfg pilotEnabled input) [] r h) :
    (ReleasedRight (CapTaken h) (times .releaseCap h) h ∧
        ReleasedRight (SlotTaken h) (times .releasePilot h) h) ↔
      ¬(Misjudges h ∧ (CapTaken h ∨ SlotTaken h)) := by
  rcases hrun.sound wp_depositRoute with ⟨hcap, hslot, hcaps, hslots⟩ | ⟨htells, hcap, hslot⟩
  · exact iff_of_true ⟨.of_free hcap hcaps, .of_free hslot hslots⟩ fun hlost => hlost.2.elim hcap hslot
  · rw [releasedRight_iff htells hcap, releasedRight_iff htells hslot, ← not_or, ← and_or_left]

end

namespace Demo

def depositConfig : DepositConfig :=
  ⟨some "escrow", true, none, limits, fun base inner => .ok ⟨(base * 2 + inner.resourceFee).toNat, some "ab"⟩⟩

/-- Five dollars, from the account that signed. -/
def depositInput : RelayDepositInput where
  inner := .ok ⟨"sender", 2100000, 100000, [.invokeContract "escrow" "deposit"
    [⟨some "sender", .other (.error "")⟩, ⟨none, .other (.error "")⟩, ⟨none, .bigint 50000000⟩,
      ⟨none, .bigint 1800000000⟩]]⟩
  senderPublicKey := "sender"

/-- The route on the pilot, when the poll answers or throws this. -/
def depositRun (poll : Except Thrown Polled) : Except Failure (Slotted Relayed) × History :=
  (depositRoute depositConfig true depositInput).play
    (fun h q => match q with
      | .getTransaction _ => poll
      | q => network (.error unavailable) (.error unavailable) .notFoundYet h q) []

theorem runs_depositRun (poll : Except Thrown Polled) : Runs (recorded fun _ _ => True)
    (depositRoute depositConfig true depositInput) [] (depositRun poll).1 (depositRun poll).2 :=
  runs_play (fun _ _ => trivial) _ _

end Demo

/-- The ledger rejects the deposit. -/
theorem released_right_iff_failed :
    let h := (Demo.depositRun (.ok ⟨.FAILED, none⟩)).2
    times .releaseCap h = 1 ∧ times .releasePilot h = 1 ∧
      ReleasedRight (CapTaken h) (times .releaseCap h) h ∧
      ReleasedRight (SlotTaken h) (times .releasePilot h) h := by
  refine ⟨by decide +kernel, by decide +kernel, ?_⟩
  refine (released_right_iff (Demo.runs_depositRun _)).mpr fun hlost => absurd hlost.1 ?_
  decide +kernel

/-- A poll throws no value for a deposit that was sent, and both reservations go back. -/
theorem lost_poll_releases : ¬∀ cfg pilotEnabled input r h,
    Runs (recorded fun _ _ => True) (depositRoute cfg pilotEnabled input) [] r h →
      ReleasedRight (CapTaken h) (times .releaseCap h) h ∧
        ReleasedRight (SlotTaken h) (times .releasePilot h) h := by
  intro hall
  obtain ⟨⟨-, -, hcap⟩, -⟩ := hall _ _ _ _ _ (Demo.runs_depositRun (.error .null))
  exact absurd (hcap (by decide +kernel)) (by decide +kernel)

end Lumenia.Sponsor
