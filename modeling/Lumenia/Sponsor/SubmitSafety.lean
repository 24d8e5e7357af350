import Lumenia.Sponsor.Submit

/-!
# The calls on a charge are true

Let the network tell the truth about the transaction that it is asked about (`Honest`). Whatever it
answers, `submit` and `payAndSubmit` make at most one call on the charge. The bid goes back only for a
transaction that was never included, save for one that another transaction of its sender overtook in
its own ledger, and for one that Horizon did not know when it was asked twice; and a smaller sum stands
only where the ledger charged it, save for a transaction that was never included and of which the
ledger could not be asked (`settlement_sound`).
-/

namespace Lumenia.Sponsor

open Dialogue

/-- A transaction in its ledger. -/
structure Inclusion where
  fee : ℤ
  /-- Another transaction of its sender moved the sequence in the same ledger. -/
  overtaken : Bool

/-- What becomes of a transaction: whether it is ever included. -/
abbrev Ruling := Option Inclusion

/-- What becomes of all transactions, by their hashes, and of one whose hash cannot be computed. -/
structure Chain where
  ledger : String → Ruling
  unhashed : Ruling

def Chain.fate (c : Chain) (tx : Payable) : Ruling := tx.hash.elim c.unhashed c.ledger

/-! ## What the answers of the network mean -/

section

variable (fate : Ruling)

/-- The submission is included, at this fee. -/
def ChargedBy (fee : ℤ) : Prop := ∃ i, fate = some i ∧ fee = i.fee

/-- Core gives this result while it validates. -/
def TransactionResult.ByValidation (r : TransactionResult) : Prop :=
  r.code ∈ validationOnlyCodes ∨
    r.code = .txFeeBumpInnerFailed ∧ ∃ c ∈ r.innerCode, c ∈ validationOnlyCodes

/-- The answer refuses the request itself: nothing behind it has seen the transaction. -/
def Thrown.RefusesRequest (t : Thrown) : Prop :=
  (∃ status, t.status = some status ∧ status < 500 ∧ status ≠ 408)

/-- What Horizon's refusal says. The guard for memos runs before the submission. A result is that of
the ledger if the submission is included; and with a code of validation it is so only where the
transaction was overtaken. -/
structure Thrown.HonestRefusal (t : Thrown) : Prop where
  memo : t.name = some "AccountRequiresMemoError" → fate = none
  request : t.RefusesRequest → t.extras.any (·.resultCodes) = false →
    t.extras.bind (·.resultXdr) = none → fate = none
  result : ∀ r, t.extras.bind (·.resultXdr) = some (some r) → ∀ i, fate = some i →
    r.feeCharged = i.fee ∧ (r.ByValidation → i.overtaken = true)

/-- A record has the fee of the ledger. A Horizon may not know a transaction that is included: it may
not have ingested its ledger. -/
def HonestLookup : Except Thrown (Option (Option ℤ)) → Prop
  | .ok record => ∀ fee, record = some (some fee) → ChargedBy fate fee
  | .error _ => True

/-- A submission that Horizon accepted has the fee of the ledger, where it has one. -/
def HonestPost : Except Thrown Posted → Prop
  | .ok posted => (∀ r, posted.resultXdr.join = some r → ChargedBy fate r.feeCharged) ∧
      ∀ fee, chargedStroops posted.feeCharged = some fee → ChargedBy fate fee
  | .error t => t.HonestRefusal fate

/-- The RPC had the request refused by its shape. -/
def Thrown.RefusesShape (t : Thrown) : Prop :=
  ∃ o n, t.object? = some o ∧ o.code = some (.number n) ∧ n ∈ [-32700, -32600, -32601, -32602]

/-- The RPC does not have a transaction whose send it refuses, nor one it answers with an error or
asks to send again. The hash that it answers with is that of the transaction. -/
def HonestSend (hash : Option String) : Except Thrown Sent → Prop
  | .ok sent => (sent.status = .ERROR ∨ sent.status = .TRY_AGAIN_LATER → fate = none) ∧
      ∀ named, sent.hash = some named → hash = some named
  | .error t => t.RefusesShape ∨ t.RefusesRequest → fate = none

/-- A transaction that is said to be included is, at the fee of its result. -/
def HonestPoll : Except Thrown Polled → Prop
  | .ok got => got.isIncluded = true → ∃ i, fate = some i ∧
      ∀ r, got.resultXdr = some r → r.feeCharged = i.fee
  | .error _ => True

end

/-- The network tells the truth about the transaction that it is given, or asked about by its hash; and
what was not signed is not included. -/
def Honest (c : Chain) : (q : Await) → q.Answer → Prop
  | .sign tx, .error _ => c.fate tx = none
  | .submitTransaction tx, answer => HonestPost (c.fate tx) answer
  | .transaction hash _, answer => HonestLookup (c.ledger hash) answer
  | .sendTransaction tx, answer => HonestSend (c.fate tx) tx.hash answer
  | .getTransaction hash, answer => HonestPoll (hash.bind c.ledger) answer
  | _, _ => True

/-! ## The calls -/

def settleCall : Event Await.Answer → Option SettleCall
  | ⟨.settle call, _⟩ => some call
  | _ => none

/-- The calls on the charge, in order. -/
def settleCalls (h : History) : List SettleCall := h.filterMap settleCall

/-- Horizon was asked for the transaction twice, one ledger apart, and did not know it. -/
def MissedTwice (tx : Payable) (h : History) : Prop :=
  ∃ hash t t', tx.hash = some hash ∧
    (⟨.transaction hash false, .error t⟩ : Event Await.Answer) ∈ h ∧ isNotFound t = true ∧
    (⟨.transaction hash true, .error t'⟩ : Event Await.Answer) ∈ h ∧ isNotFound t' = true

/-- A lookup that does not tell the fee, nor that the transaction is missing. -/
def Unreadable : Except Thrown (Option (Option ℤ)) → Prop
  | .ok record => record.join = none
  | .error t => isNotFound t = false

/-- The ledger could not be asked for the transaction, or did not tell its fee. -/
def Untold (tx : Payable) (h : History) : Prop :=
  ∀ hash, tx.hash = some hash → ∃ recheck answer,
    (⟨.transaction hash recheck, answer⟩ : Event Await.Answer) ∈ h ∧ Unreadable answer

/-- The refusal of the transaction names the sum, and the ledger could not be asked. -/
def Nominal (tx : Payable) (h : History) (sum : ℤ) : Prop :=
  (∃ t r, (⟨.submitTransaction tx, .error t⟩ : Event Await.Answer) ∈ h ∧
    t.extras.bind (·.resultXdr) = some (some r) ∧ r.feeCharged = sum) ∧ Untold tx h

/-- What a call says of the transaction is true. -/
def SettleCall.TrueOf (c : Chain) (tx : Payable) (h : History) : SettleCall → Prop
  | .notIncluded => ∀ i, c.fate tx = some i → i.overtaken = true ∨ MissedTwice tx h
  | .settled feeCharged => ∀ n, chargedStroops feeCharged = some n →
      ChargedBy (c.fate tx) n ∨ c.fate tx = none ∧ Nominal tx h n

/-- An answer that decides the transaction. -/
def decides (tx : Payable) : Event Await.Answer → Bool
  | ⟨.sign tx', .error _⟩ => tx' = tx
  | ⟨.submitTransaction tx', .ok _⟩ => tx' = tx
  | ⟨.submitTransaction tx', .error t⟩ =>
    tx' = tx && (t.name = some "AccountRequiresMemoError" || t.extras.any (·.resultCodes) ||
      t.status.any fun status => status < 500 && status ≠ 408)
  | ⟨.sendTransaction tx', .ok sent⟩ =>
    tx' = tx && (sent.status = .ERROR || sent.status = .TRY_AGAIN_LATER)
  | ⟨.sendTransaction tx', .error t⟩ => tx' = tx && sendRefusedOutright t
  | ⟨.getTransaction hash, .ok got⟩ => hash.isSome && hash = tx.hash && got.isIncluded
  | _ => false

/-- How the submission of a transaction leaves its charge. -/
structure Settled {α : Type} (c : Chain) (tx : Payable) (r : Except Failure α) (h : History) :
    Prop where
  once : (settleCalls h).length ≤ 1
  isTrue : ∀ call ∈ settleCalls h, call.TrueOf c tx h
  /-- Without an answer that decides, there is no call. -/
  decided : (∀ e ∈ h, decides tx e = false) → settleCalls h = []
  unconfirmed : (∃ detail hash, r = .error (.unconfirmed detail hash)) → settleCalls h = []

section

variable {c : Chain} {tx : Payable} {α : Type} {h : History} {e : Event Await.Answer}

theorem chargedStroops_bigint {fee n : ℤ} (h : chargedStroops (some (.bigint fee)) = some n) :
    n = fee := by
  simp only [chargedStroops, toStroops, Fee.whole, Option.bind_some, bind, Except.bind] at h
  split at h
  · cases h
  · exact (Option.some_inj.mp h).symm

@[simp] theorem settleCalls_nil : settleCalls [] = [] := rfl

theorem settleCalls_snoc : settleCalls (h ++ [e]) = settleCalls h ++ (settleCall e).toList := by
  rw [settleCalls, List.filterMap_append]
  cases hcall : settleCall e with
  | none => simp [settleCalls, hcall]
  | some call => simp [settleCalls, hcall]

theorem settleCalls_quiet (hcall : settleCall e = none) : settleCalls (h ++ [e]) = settleCalls h := by
  rw [settleCalls_snoc, hcall, Option.toList_none, List.append_nil]

theorem settleCalls_settle {call : SettleCall} {u : Unit} (hnone : settleCalls h = []) :
    settleCalls (h ++ [⟨.settle call, u⟩]) = [call] := by
  rw [settleCalls_snoc, hnone]
  rfl

/-- Without a call, a charge is as it has to be. -/
theorem Settled.of_none {r : Except Failure α} (hnone : settleCalls h = []) : Settled c tx r h where
  once := by rw [hnone]; exact Nat.zero_le _
  isTrue := by simp [hnone]
  decided _ := hnone
  unconfirmed _ := hnone

/-- One true call after an answer that decides. -/
theorem Settled.of_call {r : Except Failure α} {call : SettleCall} (hcall : settleCalls h = [call])
    (htrue : call.TrueOf c tx h) (hdecided : ∃ e ∈ h, decides tx e = true)
    (hr : ∀ detail hash, r ≠ .error (.unconfirmed detail hash)) : Settled c tx r h where
  once := by rw [hcall]; exact le_rfl
  isTrue := by simpa [hcall] using htrue
  decided hno := by
    obtain ⟨e, he, hdecides⟩ := hdecided
    rw [hno e he] at hdecides
    cases hdecides
  unconfirmed := by
    rintro ⟨detail, hash, heq⟩
    exact absurd heq (hr detail hash)

theorem trueOf_notIncluded (hfate : c.fate tx = none) : SettleCall.notIncluded.TrueOf c tx h := by
  intro i hi
  rw [hfate] at hi
  cases hi

theorem trueOf_bigint {fee : ℤ} (hfee : ChargedBy (c.fate tx) fee) :
    (SettleCall.settled (some (.bigint fee))).TrueOf c tx h := by
  intro n hn
  rw [chargedStroops_bigint hn]
  exact .inl hfee

theorem trueOf_unreadable {v : Option Fee} (hv : chargedStroops v = none) :
    (SettleCall.settled v).TrueOf c tx h := by
  intro n hn
  rw [hv] at hn
  cases hn

/-! ## Horizon -/

variable {t : Thrown}

/-- After a refusal that was ruled on, before the charge is settled. -/
structure Refused (c : Chain) (tx : Payable) (t : Thrown) (h : History) : Prop where
  asked : (⟨.submitTransaction tx, .error t⟩ : Event Await.Answer) ∈ h
  honest : t.HonestRefusal (c.fate tx)
  ruled : outcomeUnknown t = false
  quiet : settleCalls h = []

theorem Refused.snoc (hr : Refused c tx t h) (hquiet : settleCall e = none) :
    Refused c tx t (h ++ [e]) where
  asked := List.mem_append_left _ hr.asked
  honest := hr.honest
  ruled := hr.ruled
  quiet := (settleCalls_quiet hquiet).trans hr.quiet

theorem Refused.decided (hr : Refused c tx t h) : ∃ e ∈ h, decides tx e = true := by
  refine ⟨_, hr.asked, ?_⟩
  have hruled := hr.ruled
  unfold outcomeUnknown at hruled
  unfold decides
  split at hruled
  · rename_i hname
    simp [hname]
  split at hruled
  · rename_i hcodes
    simp [hcodes]
  split at hruled
  · cases hruled
  · rename_i status hstatus
    simp only [Bool.or_eq_false_iff, decide_eq_false_iff_not, not_le] at hruled
    simp [hstatus, hruled]

/-- What `ledgerFeeCharged` says. -/
def OnLedger.Meant (o : OnLedger) (c : Chain) (tx : Payable) (h : History) : Prop :=
  match o with
  | charged fee => ChargedBy (c.fate tx) fee
  | never => MissedTwice tx h
  | undecided => Untold tx h

theorem Chain.fate_of_hash {hash : String} (htx : tx.hash = some hash) :
    c.fate tx = c.ledger hash := by
  rw [Chain.fate, htx]
  rfl

theorem untold_of_mem {hash : String} {recheck : Bool}
    {answer : Except Thrown (Option (Option ℤ))} (htx : tx.hash = some hash)
    (hmem : (⟨.transaction hash recheck, answer⟩ : Event Await.Answer) ∈ h)
    (hanswer : Unreadable answer) : Untold tx h := by
  intro hash' htx'
  obtain rfl : hash = hash' := Option.some.inj (htx.symm.trans htx')
  exact ⟨recheck, answer, hmem, hanswer⟩

theorem meant_ofRecord {hash : String} {recheck : Bool} {record : Option (Option ℤ)}
    (htx : tx.hash = some hash) (hrecord : HonestLookup (c.ledger hash) (.ok record)) :
    (OnLedger.ofRecord record).Meant c tx (h ++ [⟨.transaction hash recheck, .ok record⟩]) := by
  have hmem : (⟨.transaction hash recheck, .ok record⟩ : Event Await.Answer) ∈
      h ++ [⟨.transaction hash recheck, .ok record⟩] := List.mem_append_right _ List.mem_cons_self
  rcases record with _ | _ | fee
  · exact untold_of_mem htx hmem rfl
  · exact untold_of_mem htx hmem rfl
  · change ChargedBy (c.fate tx) fee
    rw [Chain.fate_of_hash htx]
    exact hrecord fee rfl

theorem wp_ledgerFeeCharged (hr : Refused c tx t h) :
    (ledgerFeeCharged tx).wp (recorded (Honest c))
      (fun r h' => ∃ o, r = .ok o ∧ settleCalls h' = [] ∧ h ⊆ h' ∧ o.Meant c tx h') h := by
  unfold ledgerFeeCharged
  cases htx : tx.hash with
  | none =>
    refine ⟨.undecided, rfl, hr.quiet, List.Subset.refl _, fun hash hhash => ?_⟩
    rw [htx] at hhash
    cases hhash
  | some hash =>
    rw [wp_recorded_bind]
    intro answer hanswer
    cases answer with
    | ok record =>
      exact ⟨_, rfl, (settleCalls_quiet rfl).trans hr.quiet, List.subset_append_left _ _,
        meant_ofRecord htx hanswer⟩
    | error t₁ =>
      have hr₁ := hr.snoc (e := ⟨.transaction hash false, .error t₁⟩) rfl
      dsimp only
      split
      · rename_i hother
        refine ⟨.undecided, rfl, hr₁.quiet, List.subset_append_left _ _, ?_⟩
        exact untold_of_mem htx (List.mem_append_right _ List.mem_cons_self)
          (by simpa [Unreadable] using hother)
      rename_i hmissing
      rw [wp_recorded_bind]
      rintro ⟨⟩ -
      have hr₂ := hr₁.snoc (e := ⟨.recheckPause, ()⟩) rfl
      have hsub : h ⊆ h ++ [⟨.transaction hash false, .error t₁⟩] ++ [⟨.recheckPause, ()⟩] :=
        List.Subset.trans (List.subset_append_left _ _) (List.subset_append_left _ _)
      rw [wp_recorded_bind]
      intro answer hanswer
      cases answer with
      | ok record =>
        exact ⟨_, rfl, (settleCalls_quiet rfl).trans hr₂.quiet,
          List.Subset.trans hsub (List.subset_append_left _ _), meant_ofRecord htx hanswer⟩
      | error t₂ =>
        refine ⟨_, rfl, (settleCalls_quiet rfl).trans hr₂.quiet,
          List.Subset.trans hsub (List.subset_append_left _ _), ?_⟩
        have hlast : (⟨.transaction hash true, .error t₂⟩ : Event Await.Answer) ∈
            h ++ [⟨.transaction hash false, .error t₁⟩] ++ [⟨.recheckPause, ()⟩] ++
              [⟨.transaction hash true, .error t₂⟩] := List.mem_append_right _ List.mem_cons_self
        split
        · rename_i hmissing'
          exact ⟨hash, t₁, t₂, htx, by simp, by simpa using hmissing, hlast, hmissing'⟩
        · rename_i hother
          exact untold_of_mem htx hlast (by simpa [Unreadable] using hother)

/-- How `settleRefusal` leaves the charge. -/
def SettledOnce (c : Chain) (tx : Payable) (r : Except Failure Unit) (h : History) : Prop :=
  r = .ok () ∧ ∃ call, settleCalls h = [call] ∧ call.TrueOf c tx h ∧ ∃ e ∈ h, decides tx e = true

/-- The one call of `settleRefusal`, when it is true. -/
theorem wp_settle {call : SettleCall} (hquiet : settleCalls h = [])
    (hdecided : ∃ e ∈ h, decides tx e = true)
    (htrue : call.TrueOf c tx (h ++ [⟨.settle call, ()⟩])) :
    (wait (.settle call)).wp (recorded (Honest c)) (SettledOnce c tx) h := by
  apply wp_recorded_question.mpr
  rintro ⟨⟩ -
  obtain ⟨e, he, hdecides⟩ := hdecided
  exact ⟨rfl, call, settleCalls_settle hquiet, htrue, e, List.mem_append_left _ he, hdecides⟩

theorem byValidation {r : TransactionResult} (hr : refusedWhileValidating (some r) = true) :
    r.ByValidation := by
  rw [refusedWhileValidating] at hr
  split at hr
  · rename_i hbump
    obtain ⟨c, hc, hmem⟩ := (Option.any_eq_true _ _).mp hr
    exact .inr ⟨hbump, c, hc, of_decide_eq_true hmem⟩
  · exact .inl (of_decide_eq_true hr)

theorem MissedTwice.snoc (hmissed : MissedTwice tx h) : MissedTwice tx (h ++ [e]) := by
  obtain ⟨hash, t, t', htx, hmem, hmissing, hmem', hmissing'⟩ := hmissed
  exact ⟨hash, t, t', htx, List.mem_append_left _ hmem, hmissing, List.mem_append_left _ hmem',
    hmissing'⟩

theorem Untold.snoc (huntold : Untold tx h) : Untold tx (h ++ [e]) := by
  intro hash htx
  obtain ⟨recheck, answer, hmem, hanswer⟩ := huntold hash htx
  exact ⟨recheck, answer, List.mem_append_left _ hmem, hanswer⟩

/-- The fee that a refusal names is that of the ledger, or nominal. -/
theorem trueOf_named (hhonest : t.HonestRefusal (c.fate tx)) {result : Option TransactionResult}
    (hresult : t.extras.bind (·.resultXdr) = some result)
    (hasked : (⟨.submitTransaction tx, .error t⟩ : Event Await.Answer) ∈ h)
    (huntold : Untold tx h) : (SettleCall.settled (feeChargedOf result)).TrueOf c tx h := by
  cases result with
  | none => exact trueOf_unreadable rfl
  | some r =>
    intro n hn
    rw [chargedStroops_bigint hn]
    cases hfate : c.fate tx with
    | none => exact .inr ⟨rfl, ⟨t, r, hasked, hresult, rfl⟩, huntold⟩
    | some i => exact .inl ⟨i, rfl, (hhonest.result r hresult i hfate).1⟩

theorem wp_settleRefusal (hr : Refused c tx t h) :
    (settleRefusal tx t).wp (recorded (Honest c)) (SettledOnce c tx) h := by
  unfold settleRefusal
  cases hresult : t.extras.bind (·.resultXdr) with
  | none =>
    dsimp only
    split
    · exact wp_settle hr.quiet hr.decided (trueOf_unreadable rfl)
    · rename_i hcodes
      refine wp_settle hr.quiet hr.decided (trueOf_notIncluded ?_)
      have hruled := hr.ruled
      unfold outcomeUnknown at hruled
      split at hruled
      · rename_i hname
        exact hr.honest.memo hname
      -- There are no result codes, so the status decides.
      split at hruled
      · cases hruled
      · rename_i status hstatus
        simp only [Bool.or_eq_false_iff, decide_eq_false_iff_not, not_le] at hruled
        exact hr.honest.request ⟨status, hstatus, hruled.2, hruled.1⟩ (Bool.not_eq_true _ ▸ hcodes)
          hresult
  | some result =>
    dsimp only
    split
    · rename_i hvalidating
      refine wp_settle hr.quiet hr.decided fun i hi => .inl ?_
      cases result with
      | none => cases hvalidating
      | some r => exact (hr.honest.result r hresult i hi).2 (byValidation hvalidating)
    · rw [wp_bind]
      refine wp_mono ?_ (wp_ledgerFeeCharged hr)
      rintro _ h' ⟨o, rfl, hquiet, hsub, hmeant⟩
      have hdecided : ∃ e ∈ h', decides tx e = true := by
        obtain ⟨e, he, hdecides⟩ := hr.decided
        exact ⟨e, hsub he, hdecides⟩
      cases o with
      | never => exact wp_settle hquiet hdecided fun i _ => .inr (MissedTwice.snoc hmeant)
      | charged fee => exact wp_settle hquiet hdecided (trueOf_bigint hmeant)
      | undecided =>
        exact wp_settle hquiet hdecided (trueOf_named hr.honest hresult
          (List.mem_append_left _ (hsub hr.asked)) (Untold.snoc hmeant))

/-- An error that is no undecided submission. -/
theorem ne_unconfirmed {e : Failure} (he : e.isSubmitUnconfirmed = false) (detail : String)
    (hash : Option String) : (.error e : Except Failure α) ≠ .error (.unconfirmed detail hash) := by
  intro heq
  cases heq
  cases he

/-- **`submit` settles its charge.** -/
theorem wp_submit {charged : Bool} :
    (submit tx charged).wp (recorded (Honest c)) (Settled c tx) [] := by
  unfold submit
  rw [wp_recorded_bind]
  intro answer hanswer
  cases answer with
  | ok posted =>
    dsimp only
    split
    · rw [wp_bind]
      apply wp_recorded_question.mpr
      rintro ⟨⟩ -
      refine Settled.of_call (settleCalls_settle rfl) ?_ ⟨_, List.mem_cons_self, by simp [decides]⟩
        nofun
      intro n hn
      cases hresult : posted.resultXdr.join with
      | none =>
        rw [hresult] at hn
        exact .inl (hanswer.2 n hn)
      | some r =>
        rw [hresult] at hn
        rw [chargedStroops_bigint hn]
        exact .inl (hanswer.1 r hresult)
    · exact Settled.of_none rfl
  | error t =>
    unfold submitRefused
    dsimp only
    split
    · exact Settled.of_none rfl
    split
    · exact Settled.of_none rfl
    · rename_i hruled
      have hr : Refused c tx t [⟨.submitTransaction tx, .error t⟩] :=
        ⟨List.mem_cons_self, hanswer, Bool.not_eq_true _ ▸ hruled, rfl⟩
      split
      · rw [wp_bind]
        refine wp_mono ?_ (wp_settleRefusal hr)
        intro _ h' h
        obtain ⟨rfl, call, hcall, htrue, hdecided⟩ := h
        refine Settled.of_call hcall htrue hdecided (ne_unconfirmed ?_)
        exact Failure.worded_plain (fun _ => rfl) fun _ => inText_error
      · exact Settled.of_none rfl

/-! ## The Soroban RPC -/

theorem settleCall_of_polls {hash : Option String} (hpolls : e.1.polls hash = true) : settleCall e = none := by
  obtain ⟨q, a⟩ := e
  cases q <;> first | rfl | cases hpolls

theorem settleCalls_polls {es : History} {hash : Option String}
    (hpolls : ∀ e ∈ es, e.1.polls hash = true) :
    settleCalls (h ++ es) = settleCalls h := by
  have hnone : es.filterMap settleCall = [] :=
    List.filterMap_eq_nil_iff.mpr fun e he => settleCall_of_polls (hpolls e he)
  rw [settleCalls, List.filterMap_append, hnone, List.append_nil]
  rfl

theorem mem_of_reading {es : History} {answer : Except Thrown Polled}
    (hmem : answer ∈ es.filterMap reading) :
    ∃ hash, (⟨.getTransaction hash, answer⟩ : Event Await.Answer) ∈ es := by
  obtain ⟨⟨q, a⟩, he, hreading⟩ := List.mem_filterMap.mp hmem
  cases q with
  | getTransaction hash =>
    cases hreading
    exact ⟨hash, he⟩
  | _ => cases hreading

/-- A transaction that a poll saw included. -/
theorem Watching.decided {es : History} {hash : Option String} {got : Polled} {cut : Bool}
    (hes : Watching (Honest c) hash (.ok (got, cut)) es)
    (hnamed : ∀ named, hash = some named → tx.hash = some named)
    (hincluded : got.isIncluded = true) :
    (∀ r, got.resultXdr = some r → ChargedBy (c.fate tx) r.feeCharged) ∧
      ∃ e ∈ es, decides tx e = true := by
  have hstatus : got.status ≠ .NOT_FOUND := by
    intro hnot
    rw [Polled.isIncluded, hnot] at hincluded
    cases hincluded
  obtain ⟨hash', hmem⟩ := mem_of_reading (hes.seen.1.resolve_left hstatus)
  obtain rfl : hash' = hash := of_decide_eq_true (hes.polls _ hmem)
  obtain ⟨i, hi, hfee⟩ := hes.fair _ hmem hincluded
  cases hhash : hash' with
  | none =>
    rw [hhash] at hi
    cases hi
  | some named =>
    rw [hhash] at hi
    have htx := hnamed named hhash
    refine ⟨fun r hr => ⟨i, (Chain.fate_of_hash htx).trans hi, hfee r hr⟩, _, hmem, ?_⟩
    simp [decides, hhash, htx, hincluded]

theorem wp_watch {sent : Sent} {window : Window} (hquiet : settleCalls h = [])
    (hnamed : ∀ named, sent.hash = some named → tx.hash = some named) :
    (watch sent window).wp (recorded (Honest c)) (Settled c tx) h := by
  unfold watch
  rw [wp_bind]
  refine wp_mono ?_ (wp_pollReads rfl)
  rintro r _ ⟨es, rfl, hes⟩
  have hcalls : settleCalls (h ++ es) = [] := (settleCalls_polls hes.polls).trans hquiet
  cases r with
  | error e => exact Settled.of_none hcalls
  | ok read =>
    obtain ⟨got, cut⟩ := read
    rw [onValue_ok]
    dsimp only
    split
    · rename_i hgot
      obtain ⟨hfee, e, he, hdecides⟩ := hes.decided hnamed hgot
      rw [wp_bind]
      apply wp_recorded_question.mpr
      rintro ⟨⟩ -
      refine Settled.of_call (settleCalls_settle hcalls) ?_
        ⟨e, List.mem_append_left _ (List.mem_append_right _ he), hdecides⟩ nofun
      cases hresult : got.resultXdr with
      | none => exact trueOf_unreadable rfl
      | some r => exact trueOf_bigint (hfee r hresult)
    · exact Settled.of_none hcalls

/-- A true call and then a plain error. -/
theorem wp_settle_throw {call : SettleCall} {e : Failure} (hquiet : settleCalls h = [])
    (htrue : call.TrueOf c tx (h ++ [⟨.settle call, ()⟩])) (hdecided : ∃ e ∈ h, decides tx e = true)
    (he : e.isSubmitUnconfirmed = false) :
    (wait (.settle call) >>= fun _ => (throw e : Route α)).wp (recorded (Honest c))
      (Settled c tx) h := by
  rw [wp_recorded_bind]
  rintro ⟨⟩ -
  obtain ⟨e', he', hdecides⟩ := hdecided
  exact Settled.of_call (settleCalls_settle hquiet) htrue ⟨e', List.mem_append_left _ he', hdecides⟩
    (ne_unconfirmed he)

theorem refuses_of_sendRefusedOutright (hrefused : sendRefusedOutright t = true) :
    t.RefusesShape ∨ t.RefusesRequest := by
  have hrequest : t.status.any (fun status => 400 ≤ status && status < 500 && status ≠ 408) = true →
      t.RefusesRequest := by
    intro hany
    obtain ⟨status, hstatus, hrange⟩ := (Option.any_eq_true _ _).mp hany
    simp only [Bool.and_eq_true, decide_eq_true_eq] at hrange
    exact ⟨status, hstatus, hrange.1.2, hrange.2⟩
  unfold sendRefusedOutright at hrefused
  split at hrefused
  · cases hrefused
  · rename_i o ho
    split at hrefused
    · rename_i code _ hcode
      obtain ⟨n, hn, rfl⟩ := List.mem_map.mp (of_decide_eq_true hrefused)
      exact .inl ⟨o, n, ho, hcode, hn⟩
    · exact .inr (hrequest hrefused)

theorem wp_sendSigned {label : String} {window : Window} (hquiet : settleCalls h = []) :
    (sendSigned tx label window).wp (recorded (Honest c)) (Settled c tx) h := by
  unfold sendSigned
  split
  · exact Settled.of_none hquiet
  rw [wp_recorded_bind]
  intro answer hanswer
  have hsent : settleCalls (h ++ [⟨.sendTransaction tx, answer⟩]) = [] :=
    (settleCalls_quiet rfl).trans hquiet
  cases answer with
  | error t =>
    unfold sendThrew
    dsimp only
    split
    · rename_i hrefused
      refine wp_settle_throw hsent (trueOf_notIncluded (hanswer ?_))
        ⟨_, List.mem_append_right _ List.mem_cons_self, by simp [decides, hrefused]⟩ ?_
      · exact refuses_of_sendRefusedOutright hrefused
      · exact Failure.worded_plain (fun _ => rfl) fun _ => describeThrow_error
    · exact Settled.of_none hsent
  | ok sent =>
    unfold sendAnswered
    dsimp only
    split
    · rename_i hstatus
      exact wp_settle_throw hsent (trueOf_notIncluded (hanswer.1 (.inl hstatus)))
        ⟨_, List.mem_append_right _ List.mem_cons_self, by simp [decides, hstatus]⟩ rfl
    · rename_i hstatus
      exact wp_settle_throw hsent (trueOf_notIncluded (hanswer.1 (.inr hstatus)))
        ⟨_, List.mem_append_right _ List.mem_cons_self, by simp [decides, hstatus]⟩ rfl
    all_goals exact wp_watch hsent hanswer.2

/-- **`payAndSubmit` settles its charge.** -/
theorem wp_payAndSubmit {label : String} {window : Window} :
    (payAndSubmit tx label window).wp (recorded (Honest c)) (Settled c tx) [] := by
  unfold payAndSubmit
  rw [wp_recorded_bind]
  rintro charged -
  cases charged with
  | error e => exact Settled.of_none rfl
  | ok charge =>
    unfold signCharged
    dsimp only
    rw [wp_bind, wp_recorded_bind]
    intro signed hsigned
    cases signed with
    | ok u => exact wp_sendSigned rfl
    | error t =>
      rw [wp_recorded_bind]
      rintro ⟨⟩ -
      refine Settled.of_call rfl (trueOf_notIncluded hsigned)
        ⟨⟨.sign tx, .error t⟩, by simp, by simp [decides]⟩ nofun

end

/-! ## Both together -/

section

variable {c : Chain} {tx : Payable}

/-- **The calls on a charge are true**, over Horizon and over the RPC, whatever an honest network
answers: there is one call at most, and none unless an answer decides the submission. -/
theorem settlement_sound :
    (∀ r h, Runs (recorded (Honest c)) (submit tx true) [] r h → Settled c tx r h) ∧
    ∀ label window r h, Runs (recorded (Honest c)) (payAndSubmit tx label window) [] r h →
      Settled c tx r h :=
  ⟨fun _ _ hrun => hrun.sound wp_submit, fun _ _ _ _ hrun => hrun.sound wp_payAndSubmit⟩

end

namespace Demo

/-- An error of an HTTP client, with this status. -/
def httpError (status : ℕ) (extras : Option Extras) : Thrown :=
  .object {
    isError := true
    name := none
    message := some (.text "Request failed")
    code := none
    response := some ⟨some status, extras⟩
    brands := []
    hash := none }

/-- A refusal of Horizon, with a result for 100 stroops. -/
def refusal (code : ResultCode) : Thrown :=
  httpError 400 (some ⟨some (some ⟨100, code, none⟩), true, "\x7b\x7d"⟩)

def unavailable : Thrown := httpError 503 none

def notFound : Thrown := httpError 404 none

/-- A network with these answers to the submission, a lookup and a poll of the transaction `ab`. -/
def network (post : Except Thrown Posted) (lookup : Except Thrown (Option (Option ℤ))) (got : Polled) :
    History → (q : Await) → q.Answer
  | _, .chargeSponsorFee feeBid => .ok ⟨feeBid, true, feeBid, "caps:testnet:fees:2026-10-08"⟩
  | _, .sign _ => .ok ()
  | _, .submitTransaction tx => if tx.hash = some "ab" then post else .error unavailable
  | _, .transaction hash _ => if hash = "ab" then lookup else .error notFound
  | _, .simulateTransaction => .ok ⟨none, "100"⟩
  | _, .sendTransaction tx => .ok ⟨.PENDING, tx.hash, "null"⟩
  | _, .subrequestsLeft => 30
  | _, .getTransaction hash => if hash = some "ab" then .ok got else .ok .notFoundYet
  | _, .checkCaps .. | _, .enforcePilot _ => .admitted true
  | _, .settle _ | _, .recheckPause | _, .sleep | _, .releaseCap | _, .releasePilot => ()

def included : Polled := ⟨.SUCCESS, some ⟨300, .txFeeBumpInnerSuccess, some .txSuccess⟩⟩

def payable : Payable := ⟨400, some "ab"⟩

/-- What becomes of the transaction `ab`; nothing else is included. -/
def chain (fate : Ruling) : Chain := ⟨fun hash => if hash = "ab" then fate else none, none⟩

theorem chain_fate {fate : Ruling} {tx : Payable} :
    (chain fate).fate tx = if tx.hash = some "ab" then fate else none := by
  obtain ⟨fee, hash⟩ := tx
  cases hash <;> simp [Chain.fate, chain]

end Demo

theorem honest_unavailable {fate : Ruling} : HonestPost fate (.error Demo.unavailable) where
  memo hname := by cases hname
  request := by
    intro h
    obtain ⟨status, hstatus, hlt, -⟩ := h
    cases hstatus
    omega
  result _ hresult := by cases hresult

theorem honest_network {fate : Ruling} {post : Except Thrown Posted}
    {lookup : Except Thrown (Option (Option ℤ))} {got : Polled} (hpost : HonestPost fate post)
    (hlookup : HonestLookup fate lookup) (hpoll : HonestPoll fate (.ok got)) (h : History)
    (q : Await) : Honest (Demo.chain fate) q (Demo.network post lookup got h q) := by
  cases q with
  | submitTransaction tx =>
    change HonestPost ((Demo.chain fate).fate tx) (if _ then _ else _)
    rw [Demo.chain_fate]
    split
    · exact hpost
    · exact honest_unavailable
  | transaction hash recheck =>
    change HonestLookup (if hash = "ab" then fate else none) (if _ then _ else _)
    split
    · exact hlookup
    · trivial
  | sendTransaction tx =>
    refine ⟨?_, fun named hnamed => hnamed⟩
    rintro (h | h) <;> cases h
  | getTransaction hash =>
    change HonestPoll (hash.bind (Demo.chain fate).ledger) (if _ then _ else _)
    split
    · rename_i hhash
      subst hhash
      exact hpoll
    · nofun
  | _ => trivial

theorem honest_refusal {fate : Ruling} {code : ResultCode}
    (hfate : ∀ i, fate = some i → i.fee = 100 ∧
      ((⟨100, code, none⟩ : TransactionResult).ByValidation → i.overtaken = true)) :
    HonestPost fate (.error (Demo.refusal code)) where
  memo hname := by cases hname
  request _ := nofun
  result := by
    rintro _ ⟨⟩ i hi
    obtain ⟨hfee, hover⟩ := hfate i hi
    exact ⟨hfee.symm, hover⟩

/-- The relay sees its transaction included. -/
theorem settlement_sound_included :
    let run := (payAndSubmit Demo.payable "v2-deposit" ⟨40, 2⟩).play
      (Demo.network (.error Demo.unavailable) (.error Demo.unavailable) Demo.included) []
    settleCalls run.2 = [.settled (some (.bigint 300))] ∧
      Settled (Demo.chain (some ⟨300, false⟩)) Demo.payable run.1 run.2 := by
  have hpoll : HonestPoll (some ⟨300, false⟩) (.ok Demo.included) :=
    fun _ => ⟨_, rfl, fun r hr => by cases hr; rfl⟩
  have hhonest := @honest_network (some ⟨300, false⟩) _ (.error Demo.unavailable) _ honest_unavailable trivial hpoll
  exact ⟨by decide, settlement_sound.2 _ _ _ _ (runs_play hhonest _ _)⟩

/-- Three sums that are not what the ledger charged: a transaction that was overtaken has its bid back,
one that failed in a ledger and was looked up twice at a Horizon that does not have that ledger too, and
one that was never included counts the fee of its refusal when the ledger cannot be asked. -/
theorem settlement_not_exact :
    (¬∀ c tx r h, Runs (recorded (Honest c)) (submit tx true) [] r h →
      .notIncluded ∈ settleCalls h → ¬MissedTwice tx h → c.fate tx = none) ∧
    (¬∀ c tx r h, Runs (recorded (Honest c)) (submit tx true) [] r h →
      .notIncluded ∈ settleCalls h → (∀ i, c.fate tx = some i → i.overtaken = false) →
        c.fate tx = none) ∧
    ¬∀ c tx r h, Runs (recorded (Honest c)) (submit tx true) [] r h →
      ∀ v n, .settled v ∈ settleCalls h → chargedStroops v = some n → n < tx.fee →
        ChargedBy (c.fate tx) n := by
  refine ⟨fun hall => ?_, fun hall => ?_, fun hall => ?_⟩
  · have hpost : HonestPost (some ⟨100, true⟩) (.error (Demo.refusal .txBadSeq)) :=
      honest_refusal fun i hi => by cases hi; exact ⟨rfl, fun _ => rfl⟩
    have hpoll : HonestPoll (some ⟨100, true⟩) (.ok .notFoundYet) := nofun
    have hhonest := @honest_network _ _ (.error Demo.unavailable) _ hpost trivial hpoll
    have hnone := hall _ _ _ _ (runs_play hhonest (submit Demo.payable true) []) (by decide) ?_
    · cases hnone
    rintro ⟨hash, t, t', -, hmem, -⟩
    have hasked : ∀ e ∈ ((submit Demo.payable true).play (Demo.network
        (.error (Demo.refusal .txBadSeq)) (.error Demo.unavailable) .notFoundYet) []).2,
        e.1 ≠ .transaction hash false := by
      intro e he
      simp only [show ((submit Demo.payable true).play (Demo.network
        (.error (Demo.refusal .txBadSeq)) (.error Demo.unavailable) .notFoundYet) []).2 =
          [⟨.submitTransaction Demo.payable, .error (Demo.refusal .txBadSeq)⟩,
            ⟨.settle .notIncluded, ()⟩] from rfl, List.mem_cons, List.not_mem_nil, or_false] at he
      obtain rfl | rfl := he <;> nofun
    exact hasked _ hmem rfl
  · have hpost : HonestPost (some ⟨100, false⟩) (.error (Demo.refusal .txFailed)) :=
      honest_refusal fun i hi => by
        cases hi
        refine ⟨rfl, ?_⟩
        rintro (h | ⟨h, -⟩)
        · exact absurd h (by decide)
        · cases h
    have hpoll : HonestPoll (some ⟨100, false⟩) (.ok .notFoundYet) := nofun
    have hhonest := @honest_network _ _ (.error Demo.notFound) _ hpost trivial hpoll
    have hnone := hall _ _ _ _ (runs_play hhonest (submit Demo.payable true) []) (by decide)
      fun i hi => by cases hi; rfl
    cases hnone
  · have hpost : HonestPost none (.error (Demo.refusal .txFailed)) := honest_refusal nofun
    have hpoll : HonestPoll none (.ok .notFoundYet) := nofun
    have hhonest := @honest_network _ _ (.error Demo.unavailable) _ hpost trivial hpoll
    obtain ⟨i, hi, -⟩ := hall _ _ _ _ (runs_play hhonest (submit Demo.payable true) [])
      (some (.bigint 100)) 100 (by decide) (by decide) (by decide)
    cases hi

end Lumenia.Sponsor
