import Lumenia.Sponsor.DepositSafety
import Lumenia.Theory.Json

/-!
# The worker in front of the deposit relay

The route `/v2-deposit` of `apps/sponsor/src/worker.ts`: the halt switch, the cap on the body and the
rate limiter, the relay under the pilot gate, and the answer for a result or for what was thrown. An
answer that is given after the deposit was left with the network is one of a few
(`serveDeposit_late`).
-/

namespace Lumenia.Sponsor

open Dialogue

structure Response where
  status : ℕ
  body : List (String × Json.Scalar)

/-- A member that is left out where it is `undefined`. -/
def optional (name : String) (value : Option String) : List (String × Json.Scalar) :=
  value.toList.map fun s => (name, .str s)

/-! ## Before the relay -/

/-- What the steps before the relay answer or throw. -/
structure Front where
  service : Except Thrown Unit
  halted : Except Thrown Bool
  /-- The request declares a body over the cap. -/
  declaredTooLarge : Bool
  /-- The fields of the body where both are there; a body over the cap throws no other value. -/
  body : Except (Option Thrown) (Option RelayDepositInput)
  /-- The reason where the request is limited. -/
  limited : Except Thrown (Option (Option String))

/-- Why the relay does not run. -/
inductive Stop
  | threw (e : Failure)
  | answered (r : Response)

def tooLarge : Response := ⟨413, [("error", .str "request body too large")]⟩

def Front.readBody (f : Front) : Except Stop RelayDepositInput :=
  match f.body with
  | .error none => .error (.answered tooLarge)
  | .error (some t) => .error (.threw (.passed t))
  | .ok none => .error (.answered ⟨400, [("error", .str "xdr and senderPublicKey are required")]⟩)
  | .ok (some input) => .ok input

/-- Up to the relay. -/
def Front.enter (f : Front) : Except Stop RelayDepositInput := do
  f.service.mapError fun t => .threw (.passed t)
  let halted ← f.halted.mapError fun t => .threw (.passed t)
  failWhen (halted = true) (.answered ⟨503, [("error", .str "sponsor temporarily halted")]⟩)
  failWhen (f.declaredTooLarge = true) (.answered tooLarge)
  let input ← f.readBody
  match ← f.limited.mapError fun t => .threw (.passed t) with
  | some reason => throw (.answered ⟨429, optional "error" reason⟩)
  | none => return input

/-! ## After the relay -/

/-- `(e as Error).message`, which throws for no value. -/
def Failure.message : Failure → Except Failure (Option Member)
  | passed t => t.message
  | error message | refusal message => .ok (some (.text message))
  | unconfirmed detail _ => .ok (some (.text ("submit unconfirmed: " ++ detail)))
  | busy => .ok (some (.text "the network is busy; try again shortly"))

def Failure.code : Failure → Option Member
  | passed t => t.code
  | _ => none

def Member.text? : Member → Option String
  | text s => some s
  | _ => none

/-- The answer for what was thrown; missing where the handler throws as well, and the platform
answers. A reason that is not for the caller is hidden on mainnet. -/
def errorResponse (mainnet : Bool) (ref : String) (e : Failure) : Option Response :=
  match e.message with
  | .error _ => none
  | .ok message =>
    let reason := optional "error" (message.bind Member.text?)
    if e.isPublicRefusal then some ⟨400, reason ++ optional "code" (e.code.bind Member.text?)⟩
    else if e.isSubmitUnconfirmed then
      some ⟨202, ("error", .str "submit unconfirmed") :: optional "hash" (e.hash.filter (· ≠ ""))⟩
    else if e.isRelayBusy then some ⟨503, reason⟩
    else if mainnet then
      -- The log line of the reason.
      match textOrEmpty message with
      | .error _ => none
      | .ok _ => some ⟨400, [("error", .str "request failed"), ("ref", .str ref)]⟩
    else some ⟨400, reason⟩

def depositResponse : Slotted Relayed → Response
  | .refused reason => ⟨403, [("error", .str reason)]⟩
  | .ran relayed =>
    ⟨if relayed.confirmed then 200 else 202,
      optional "hash" relayed.hash ++ [("confirmed", .bool relayed.confirmed)]⟩

/-- The route. -/
def serveDeposit (cfg : DepositConfig) (pilotEnabled : Bool) (ref : String) (front : Front) :
    Route (Option Response) :=
  match front.enter with
  | .error (.answered response) => return some response
  | .error (.threw e) => return errorResponse cfg.mainnet ref e
  | .ok input => do
    match ← (depositRoute cfg pilotEnabled input).outcome with
    | .ok served => return some (depositResponse served)
    | .error e => return errorResponse cfg.mainnet ref e

/-! ## Failures after the send -/

/-- The network was given the deposit and did not refuse it, so a ledger may include it. -/
def LeftSubmitted (h : History) : Prop := Shows sends h ∧ ¬Shows refusesSend h

/-- How the relay fails once the network may have the deposit. -/
inductive LateFailure : Failure → Prop
  | unconfirmed (detail : String) (hash : Option String) : LateFailure (.unconfirmed detail hash)
  | wordless (e : Failure) (h : e ∈ typeErrors) : LateFailure e
  | rejected : LateFailure (.error "v2-deposit tx FAILED")

section

variable {fair : (q : Await) → q.Answer → Prop} {h : History} {hash : Option String} {α : Type}

/-- An undecided submission, or a `TypeError` for want of its words. -/
theorem lateFailure_worded {detail : String → String} {text : Except Failure String}
    (htext : ∀ e, text = .error e → e ∈ typeErrors) :
    LateFailure (.worded (fun s => .unconfirmed (detail s) hash) text) := by
  cases text with
  | ok s => exact .unconfirmed _ _
  | error e => exact .wordless e (htext e rfl)

theorem lateFailure_pollFailure {t : Thrown} : LateFailure (pollFailure hash t) :=
  lateFailure_worded fun _ => Thrown.readMessage_error

/-- A failure that comes with the deposit at the network is a late one. -/
def FailsLate (r : Except Failure α) (h : History) : Prop :=
  LeftSubmitted h → ∀ e, r = .error e → LateFailure e

theorem FailsLate.of_unsent {r : Except Failure α} (hsent : ¬Shows sends h) : FailsLate r h :=
  fun hleft => absurd hleft.1 hsent

theorem FailsLate.of_refused {r : Except Failure α} (hrefused : Shows refusesSend h) :
    FailsLate r h :=
  fun hleft => absurd hrefused hleft.2

theorem FailsLate.of_late {e : Failure} (hlate : LateFailure e) :
    FailsLate (.error e : Except Failure α) h := by
  intro _ e' he
  cases he
  exact hlate

theorem FailsLate.of_value {a : α} : FailsLate (.ok a) h := by
  intro _ e he
  cases he

/-- What was thrown is thrown on. -/
theorem FailsLate.error {β : Type} {e : Failure} (hlate : FailsLate (.error e : Except Failure α) h) :
    FailsLate (.error e : Except Failure β) h := by
  intro hleft e' he
  cases he
  exact hlate hleft e rfl

variable {tx : Payable} {label : String} {window : Window} {cfg : DepositConfig}
  {inner : InnerTransaction}

theorem unsent_append {es : History} (hsent : ¬Shows sends h)
    (hes : ∀ e ∈ es, e.1.reaches = false) : ¬Shows sends (h ++ es) := by
  rw [shows_append]
  rintro (hshows | hshows)
  · exact hsent hshows
  · exact not_shows_of_unreached reaching_sends hes hshows

/-- Once the send is accepted, only a poll can fail. -/
theorem wp_watch_late {sent : Sent} : (watch sent window).wp (recorded fair) FailsLate h := by
  unfold watch
  rw [wp_bind]
  refine wp_mono ?_ (wp_pollReads rfl)
  rintro r _ ⟨polls, rfl, hpolls⟩
  cases r with
  | error e =>
    obtain ⟨t, rfl, -, -⟩ := hpolls.seen
    exact FailsLate.of_late lateFailure_pollFailure
  | ok read =>
    rw [onValue_ok]
    dsimp only
    split
    · exact wp_recorded_bind.mpr fun u _ => FailsLate.of_value
    · exact FailsLate.of_value

theorem wp_sendSigned_late (hsent : ¬Shows sends h) :
    (sendSigned tx label window).wp (recorded fair) FailsLate h := by
  unfold sendSigned
  split
  · exact FailsLate.of_unsent hsent
  rw [wp_recorded_bind]
  intro answer _
  have hrefused : refusesSend ⟨.sendTransaction tx, answer⟩ = true → ∀ e : Failure,
      (wait (.settle .notIncluded) >>= fun _ => throw e : Route Watched).wp (recorded fair) FailsLate
        (h ++ [⟨.sendTransaction tx, answer⟩]) := by
    intro hrefuses e
    apply wp_recorded_bind.mpr
    intro u _
    apply FailsLate.of_refused
    simp [hrefuses]
  cases answer with
  | error t =>
    unfold sendThrew
    dsimp only
    split
    · rename_i hrefuses
      exact hrefused hrefuses _
    · exact FailsLate.of_late (lateFailure_worded fun _ => describeThrow_error)
  | ok sent =>
    unfold sendAnswered
    dsimp only
    split
    · rename_i hstatus
      exact hrefused (by simp [refusesSend, hstatus]) _
    · rename_i hstatus
      exact hrefused (by simp [refusesSend, hstatus]) _
    all_goals exact wp_watch_late

theorem wp_payAndSubmit_late (hsent : ¬Shows sends h) :
    (payAndSubmit tx label window).wp (recorded fair) FailsLate h := by
  unfold payAndSubmit
  rw [wp_recorded_bind]
  intro charged _
  have hcharged := unsent_append hsent (List.forall_mem_singleton.mpr rfl :
    ∀ e ∈ [(⟨.chargeSponsorFee tx.fee, charged⟩ : Event Await.Answer)], e.1.reaches = false)
  cases charged with
  | error e => exact FailsLate.of_unsent hcharged
  | ok charge =>
    unfold signCharged
    dsimp only
    rw [wp_bind, wp_recorded_bind]
    intro signed _
    have hsigned := unsent_append hcharged (List.forall_mem_singleton.mpr rfl :
      ∀ e ∈ [(⟨.sign tx, signed⟩ : Event Await.Answer)], e.1.reaches = false)
    cases signed with
    | ok u => exact wp_sendSigned_late hsigned
    | error t =>
      apply wp_recorded_bind.mpr
      intro u _
      apply FailsLate.of_unsent
      exact unsent_append hsigned (List.forall_mem_singleton.mpr rfl)

/-- Giving a reservation back does not reach the network. -/
theorem leftSubmitted_append {es : History} (hes : ∀ e ∈ es, e.1.reaches = false) :
    LeftSubmitted (h ++ es) ↔ LeftSubmitted h := by
  have hshows : ∀ f, Reaching f → (Shows f (h ++ es) ↔ Shows f h) := by
    intro f hf
    rw [shows_append]
    exact or_iff_left (not_shows_of_unreached hf hes)
  rw [LeftSubmitted, LeftSubmitted, hshows _ reaching_sends, hshows _ reaching_refusesSend]

theorem unreached_capReturn {due : Bool} : ∀ e ∈ capReturn due, e.1.reaches = false := by
  intro e he
  unfold capReturn at he
  split at he
  · rw [List.mem_singleton.mp he]
    rfl
  · cases he

/-- The attempt, whose failure is a value. -/
theorem wp_depositAttempt_late {release : Bool} (hsent : ¬Shows sends h) :
    (depositAttempt cfg inner release).wp (recorded fair)
      (fun r h' => ∃ res released, r = .ok (res, released) ∧ FailsLate res h') h := by
  unfold depositAttempt
  split
  · exact ⟨_, false, rfl, .of_unsent hsent⟩
  · rw [wp_bind, wp_outcome]
    refine wp_mono ?_ (wp_payAndSubmit_late hsent)
    intro r h' hlate
    rw [onValue_ok]
    cases r with
    | error e =>
      exact ⟨_, false, rfl, hlate.error⟩
    | ok w =>
      unfold depositWatched
      dsimp only
      split
      · exact ⟨_, false, rfl, .of_value⟩
      · rw [wp_bind]
        exact wp_releaseOnce ⟨_, true, rfl, .of_late .rejected⟩
      all_goals exact ⟨_, false, rfl, .of_value⟩

theorem wp_depositReserved_late {release : Bool} (hsent : ¬Shows sends h) :
    (depositReserved cfg inner release).wp (recorded fair) FailsLate h := by
  unfold depositReserved
  rw [wp_bind]
  refine wp_mono ?_ (wp_depositAttempt_late hsent)
  rintro _ h' ⟨res, released, rfl, hlate⟩
  rw [onValue_ok]
  cases res with
  | ok relayed => exact FailsLate.of_value
  | error e =>
    dsimp only
    split
    · rw [wp_bind]
      apply wp_releaseOnce
      intro hleft
      apply hlate
      rwa [leftSubmitted_append unreached_capReturn] at hleft
    · exact hlate

theorem wp_relayDeposit_late {input : RelayDepositInput} (hsent : ¬Shows sends h) :
    (relayDeposit cfg input).wp (recorded fair) FailsLate h := by
  unfold relayDeposit
  split
  · exact FailsLate.of_unsent hsent
  rw [wp_recorded_bind]
  intro simulated _
  have hsimulated := unsent_append hsent (List.forall_mem_singleton.mpr rfl :
    ∀ e ∈ [(⟨.simulateTransaction, simulated⟩ : Event Await.Answer)], e.1.reaches = false)
  cases simulated with
  | error t => exact FailsLate.of_unsent hsimulated
  | ok sim =>
    dsimp only
    split
    · exact FailsLate.of_unsent hsimulated
    rw [wp_recorded_bind]
    intro reserved _
    have hreserved := unsent_append hsimulated (List.forall_mem_singleton.mpr rfl :
      ∀ e ∈ [(⟨.checkCaps _ _, reserved⟩ : Event Await.Answer)], e.1.reaches = false)
    cases reserved with
    | refused reason => exact FailsLate.of_unsent hreserved
    | admitted release => exact wp_depositReserved_late hreserved

/-- How the route ends with the deposit at the network: the pilot has not refused it. -/
def EndsLate : Except Failure (Slotted Relayed) → Prop
  | .ok (.ran _) => True
  | .ok (.refused _) => False
  | .error e => LateFailure e

theorem wp_depositRoute_late {pilotEnabled : Bool} {input : RelayDepositInput} :
    (depositRoute cfg pilotEnabled input).wp (recorded fair)
      (fun r h => LeftSubmitted h → EndsLate r) [] := by
  unfold depositRoute withPilotSlot
  split
  · rw [wp_bind]
    refine wp_mono ?_ (wp_relayDeposit_late (by simp))
    rintro (e | relayed) h' hlate
    · exact fun hleft => hlate hleft e rfl
    · exact fun _ => trivial
  rw [wp_recorded_bind]
  intro slot _
  cases slot with
  | refused reason =>
    intro hleft
    simp [LeftSubmitted, sends] at hleft
  | admitted release =>
    dsimp only
    rw [wp_bind, wp_outcome]
    refine wp_mono ?_ (wp_relayDeposit_late (by simp [sends]))
    rintro (e | relayed) h' hlate
    · rw [onValue_ok]
      dsimp only
      split
      · refine wp_recorded_bind.mpr fun u _ hleft => hlate ?_ e rfl
        rwa [leftSubmitted_append (List.forall_mem_singleton.mpr rfl)] at hleft
      · exact fun hleft => hlate hleft e rfl
    · exact fun _ => trivial

/-- The answers that can be given with the deposit at the network. -/
inductive LateAnswer (mainnet : Bool) (ref : String) : Option Response → Prop
  | ran (relayed : Relayed) : LateAnswer mainnet ref (some (depositResponse (.ran relayed)))
  | threw (e : Failure) (h : LateFailure e) : LateAnswer mainnet ref (errorResponse mainnet ref e)

/-- **What the route answers once the network may have the deposit.** -/
theorem serveDeposit_late {pilotEnabled : Bool} {ref : String} {front : Front} :
    (serveDeposit cfg pilotEnabled ref front).wp (recorded fair)
      (fun r h => ∃ served, r = .ok served ∧ (LeftSubmitted h → LateAnswer cfg.mainnet ref served)) [] := by
  have hunsent : ∀ {P : Prop}, LeftSubmitted [] → P := fun hleft => absurd hleft.1 shows_nil
  unfold serveDeposit
  split
  · exact ⟨_, rfl, hunsent⟩
  · exact ⟨_, rfl, hunsent⟩
  · rename_i input _
    rw [wp_bind, wp_outcome]
    refine wp_mono ?_ wp_depositRoute_late
    intro r h hlate
    rw [onValue_ok]
    match r with
    | .error e => exact ⟨_, rfl, fun hleft => .threw e (hlate hleft)⟩
    | .ok (.ran relayed) => exact ⟨_, rfl, fun _ => .ran relayed⟩
    | .ok (.refused reason) => exact ⟨_, rfl, fun hleft => (hlate hleft).elim⟩

end

end Lumenia.Sponsor
