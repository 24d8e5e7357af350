import Lumenia.Sponsor.RecoveryLogic

/-!
# What the recovery routes do

The one walk through the programs: after which deeds each of their questions comes (`Due`), and what
the deeds of a call that has ended are (`Told`). What follows from it over all runs needs no program
any more.
-/

namespace Lumenia.Sponsor.Recovery

open Dialogue

variable {ι : Type} {i : ι}

/-! ## Deeds so far -/

section

variable {L : List (Event ι)} {e : Event ι}

theorem lastSeen_concat : lastSeen (L ++ [e]) =
    match e with
    | .saw _ _ record issuer => some (record, issuer)
    | _ => lastSeen L := by
  cases e <;> simp [lastSeen]

theorem matched_concat : matched (L ++ [e]) =
    match e with
    | .compared _ _ equal _ => equal
    | _ => matched L := by
  cases e <;> simp [matched]

theorem lastRow_concat : lastRow (L ++ [e]) =
    match e with
    | .readRow _ _ row => some row
    | _ => lastRow L := by
  cases e <;> simp [lastRow]

end

/-- The deeds of a call that the verify budget has let through. -/
inductive Budgeted (i : ι) (id : String) : List (Event ι) → Prop
  | counted {window n : ℕ} (h : (n : ℤ) ≤ maxVerifyPerWindow) : Budgeted i id [.charged i id window n]
  | uncharged : Budgeted i id [.unread i id false]
  | garbled {window n : ℕ} : Budgeted i id [.charged i id window n, .unread i id false]

/-- The deeds up to a comparison. -/
def Looked (i : ι) (id : String) (record : OtpRecord) (issuer : Option ι) (L : List (Event ι)) : Prop :=
  ∃ L₀, Budgeted i id L₀ ∧ L = L₀ ++ [.saw i id record issuer]

/-- The deeds up to what follows from a comparison. -/
def Compared (i : ι) (id : String) (record : OtpRecord) (issuer : Option ι) (equal : Bool)
    (L : List (Event ι)) : Prop :=
  ∃ L₀ window, Looked i id record issuer L₀ ∧ L = L₀ ++ [.compared i id equal window]

/-- The deeds of a call whose code is accepted. -/
def Verified (i : ι) (id : String) (L : List (Event ι)) : Prop :=
  ∃ L₀ record issuer issuer', Compared i id record issuer true L₀ ∧
    L = L₀ ++ [.accepted i id issuer']

/-- The deeds of a call that a ticket has let in. -/
def Redeemed (i : ι) (id : String) (L : List (Event ι)) : Prop :=
  ∃ t minter, L = [.took i t id minter]

/-- The request that has signed `name` with a key of this hash. -/
def Request.owner : Request → Option OwnerProof
  | .recovery body => body.owner
  | .recoveryCheck _ owner | .recoveryRelease _ owner => owner
  | .recoveryOtp .. | .recoveryFetch .. | .verify .. => none

def Signs (env : Env) (req : Request) (name hash : String) : Prop :=
  ∃ owner, req.owner = some owner ∧ env.sha256Hex owner.pubkey = hash ∧
    env.verifies owner.pubkey (owner.message env name) owner.proof = true

/-- The request reads or writes a row behind the gate of a code or a ticket. -/
def Request.gated : Request → Bool
  | .recovery _ | .recoveryFetch .. => true
  | .recoveryOtp .. | .recoveryCheck .. | .recoveryRelease .. | .verify .. => false

/-- After which deeds a question comes. -/
def Due (env : Env) (req : Request) (i : ι) (L : List (Event ι)) : Ask → Prop
  | .incr (.otptry _) _ | .getdel _ => L = []
  | .get (.otp id) => Budgeted i id L
  | .compare id _ codeHash => ∃ record issuer, Looked i id record issuer L ∧ codeHash = record.codeHash
  | .set (.otp id) value _ => L = [] ∧ value.tries = 0 ∨
    ∃ record issuer, Compared i id record issuer false L ∧ value = { record with tries := record.tries + 1 }
  | .del (.otp id) => ∃ record issuer, Looked i id record issuer L ∨
    record.tries < maxTries ∧ Compared i id record issuer true L
  | .get (.email id) => if req.gated then Verified i id L ∨ Redeemed i id L else L = []
  | .set (.email id) row _ => ∃ L₀ old, L = L₀ ++ [.readRow i id old] ∧
    (Verified i id L₀ ∨ Redeemed i id L₀) ∧ (∀ h, row.ownerHash = some h → Signs env req id h) ∧
    ∀ h, old.bind StoredRow.ownerHash = some h → row.ownerHash = some h
  | .del (.email id) => ∃ old h, L = [.readRow i id (some old)] ∧ old.ownerHash = some h ∧
    Signs env req ("release:" ++ id) h
  | .set (.ticket _) id _ => ∃ L₀ row, Verified i id L₀ ∧ L = L₀ ++ [.readRow i id row]
  | _ => True

/-- What the deeds of a call are that has ended with this. -/
def Told (env : Env) (req : Request) (i : ι) (r : Except Thrown Served) (L : List (Event ι)) : Prop :=
  match req, r with
  | .verify id _, .ok (.verdict .ok) => ∃ s, text id = some s ∧ Verified i s L
  | .recovery body, .ok (.response r) => r = ⟨200, [("ok", .bool true), ("bound", .bool true)]⟩ →
    ∃ id row h, text body.id = some id ∧ .wroteRow i id row ∈ L ∧ row.ownerHash = some h ∧
      Signs env req id h
  | _, _ => True

/-! ## Codes -/

section

variable {L : List (Event ι)} {id : String} {record : OtpRecord} {issuer : Option ι} {equal : Bool}

theorem Looked.not_matched (h : Looked i id record issuer L) : matched L = false := by
  obtain ⟨L₀, hbudget, rfl⟩ := h
  cases hbudget <;> rfl

theorem Compared.matched (h : Compared i id record issuer equal L) : matched L = equal := by
  obtain ⟨L₀, window, -, rfl⟩ := h
  rw [matched_concat]

theorem Compared.lastSeen (h : Compared i id record issuer equal L) :
    lastSeen L = some (record, issuer) := by
  obtain ⟨L₀, window, ⟨L₁, -, rfl⟩, rfl⟩ := h
  rw [lastSeen_concat, lastSeen_concat]

end

theorem asks_orThrow {α : Type} {S : Ask → Prop} {r : Except String α} : (orThrow r).Asks S := by
  cases r with
  | ok a => exact asks_pure
  | error m => exact asks_throw

section

variable [DecidableEq ι] {env : Env} {req : Request} {L : List (Event ι)} {id code : String}

omit [DecidableEq ι] in
theorem due_idle {q : Ask} (hq : q.idle = true) : Due env req i L q := by
  match q, hq with
  | .now, _ => trivial
  | .sixDigit, _ => trivial
  | .randomHex, _ => trivial
  | .sendCodeEmail .., _ => trivial
  | .enforceRateLimit, _ => trivial
  | .setNx .., _ => trivial
  | .get (.pk _), _ => trivial
  | .set (.pk _) .., _ => trivial
  | .incr (.otpreq _) _, _ => trivial

theorem behaves_overVerifyBudget : Behaves env.sha256Hex i (Due env req i)
    (fun r L => r = .ok false → Budgeted i id L) (overVerifyBudget id) [] := by
  unfold overVerifyBudget
  refine behaves_charge rfl (fun window n => ?_) (fun rs L' hL' => ?_) fun m L => ?_
  · refine behaves_pure fun h => .counted ?_
    simpa [exceeds, firstNumber] using h
  · refine behaves_pure fun _ => ?_
    rcases hL' with rfl | ⟨window, n, rfl⟩
    · exact .uncharged
    · exact .garbled
  · exact behaves_throw nofun

theorem behaves_judgeCode (hL : Budgeted i id L) : Behaves env.sha256Hex i (Due env req i)
    (fun r L => r = .ok .ok → Verified i id L) (judgeCode id code) L := by
  unfold judgeCode
  refine behaves_get_code hL ?_ (fun record issuer => ?_) fun m L => ?_
  · exact behaves_orThrow_ok (behaves_pure nofun)
  · refine behaves_orThrow_ok (behaves_idle rfl trivial fun now => ?_)
    have hlooked : Looked i id record issuer (L ++ [.saw i id record issuer]) := ⟨L, hL, rfl⟩
    refine behaves_ite (fun _ => ?_) fun hgood => ?_
    · refine behaves_bind (P := fun _ _ => True) ?_ (fun _ _ _ => behaves_pure nofun) nofun
      unfold kvDel
      exact behaves_del_code ⟨record, issuer, .inl hlooked⟩ (fun _ _ _ => behaves_pure trivial)
        fun _ _ => behaves_pure trivial
    · refine behaves_compare ⟨record, issuer, hlooked, rfl⟩ fun equal window => ?_
      have hcompared : Compared i id record issuer equal
          (L ++ [.saw i id record issuer] ++ [.compared i id equal window]) :=
        ⟨_, window, hlooked, rfl⟩
      cases equal with
      | true =>
        refine behaves_bind (P := fun r L => Verified i id L) ?_
          (fun _ _ h => behaves_pure fun _ => h) nofun
        unfold kvDel
        have htries : record.tries < maxTries := by omega
        refine behaves_del_code ⟨record, issuer, .inr ⟨htries, hcompared⟩⟩
          (fun _ _ issuer' => behaves_pure ⟨_, record, issuer, issuer', hcompared, rfl⟩) fun hno => ?_
        rw [hcompared.matched] at hno
        cases hno
      | false =>
        refine behaves_idle rfl trivial fun now => ?_
        refine behaves_set_code (.inr ⟨record, issuer, hcompared, rfl⟩) fun a L => ?_
        cases a with
        | ok u => exact behaves_orThrow_ok (behaves_pure nofun)
        | error m => exact behaves_orThrow_error nofun
  · exact behaves_orThrow_error nofun

/-- The id of the email that the call names, as far as the code goes. -/
def idOf (rawId : Option Json) : String := ((text rawId).filter fun s => isId s).getD ""

theorem text_of_idOf {rawId : Option Json} (h : idOf rawId ≠ "") : text rawId = some (idOf rawId) := by
  unfold idOf at *
  cases ht : text rawId with
  | none => simp [ht] at h
  | some s =>
    cases hs : isId s with
    | true => simp [Option.filter, hs]
    | false => simp [Option.filter, ht, hs] at h

theorem behaves_verifyOtpDetailed {rawId rawCode : Option Json} :
    Behaves env.sha256Hex i (Due env req i)
      (fun r L => r = .ok .ok → ∃ s, text rawId = some s ∧ Verified i s L)
      (verifyOtpDetailed rawId rawCode) [] := by
  unfold verifyOtpDetailed
  refine behaves_ite (fun _ => behaves_pure nofun) fun hgood => ?_
  refine behaves_bind behaves_overVerifyBudget (fun spent L hspent => ?_) nofun
  cases spent with
  | true => exact behaves_pure nofun
  | false =>
    refine (behaves_judgeCode (hspent rfl)).mono fun r L hr hok => ⟨_, text_of_idOf ?_, hr hok⟩
    exact fun h => hgood (.inl h)

theorem behaves_requestOtp {rawEmail : Option Json} {purpose : OtpPurpose} :
    Behaves env.sha256Hex i (Due env req i) (fun _ _ => True) (requestOtp env rawEmail purpose) [] := by
  unfold requestOtp
  refine behaves_ite (fun _ => behaves_throw trivial) fun _ => ?_
  have hcap : Behaves env.sha256Hex i (Due env req i) (fun _ L' => L' = [])
      (overRequestCap (idForEmail env (env.toLowerCase (trim ((text rawEmail).getD ""))))) [] := by
    unfold overRequestCap
    refine behaves_idle rfl trivial fun a => ?_
    cases a with
    | ok rs => exact behaves_pure rfl
    | error m => exact behaves_pure rfl
  refine behaves_bind hcap (fun capped L hL => ?_) fun _ _ _ => trivial
  subst hL
  refine behaves_ite (fun _ => behaves_throw trivial) fun _ => ?_
  refine behaves_idle rfl trivial fun code => behaves_idle rfl trivial fun now => ?_
  refine behaves_set_code (.inl ⟨rfl, rfl⟩) fun a L => ?_
  cases a with
  | error m => exact behaves_orThrow_error trivial
  | ok u =>
    refine behaves_orThrow_ok (behaves_idle rfl trivial fun a => ?_)
    cases a with
    | ok u => exact behaves_pure trivial
    | error m => exact behaves_throw trivial

end

/-! ## Rows -/

section

variable [DecidableEq ι] {env : Env} {req : Request} {L : List (Event ι)} {id : String}
  {rawId rawBox : Option Json}

theorem text_of_validateId (h : validateId rawId = .ok id) : text rawId = some id := by
  unfold validateId at h
  cases ht : text rawId with
  | none => simp [ht] at h
  | some s =>
    cases hs : isId s with
    | true => simpa [Option.filter, ht, hs] using h
    | false => simp [Option.filter, ht, hs] at h

/-- The id is checked, or the call throws. -/
theorem behaves_validateId {α : Type} {f : String → Call α}
    {post : Except Thrown α → List (Event ι) → Prop}
    (hok : ∀ id, text rawId = some id → Behaves env.sha256Hex i (Due env req i) post (f id) L)
    (herror : ∀ m, post (.error (.error m)) L) :
    Behaves env.sha256Hex i (Due env req i) post (orThrow (validateId rawId) >>= f) L := by
  cases hv : validateId rawId with
  | ok id => exact behaves_orThrow_ok (hok id (text_of_validateId hv))
  | error m => exact behaves_orThrow_error (herror m)

/-- What is thrown is a plain error. -/
def Plain {α : Type} (r : Except Thrown α) : Prop := ∀ e, r = .error e → ∃ m, e = .error m

theorem plain_ok {α : Type} {a : α} : Plain (.ok a) := nofun

theorem plain_error {α : Type} {m : String} : Plain (.error (.error m) : Except Thrown α) := by
  rintro e ⟨⟩
  exact ⟨m, rfl⟩

theorem Plain.cast {α β : Type} {e : Thrown} (h : Plain (.error e : Except Thrown α)) :
    Plain (.error e : Except Thrown β) := by
  obtain ⟨m, rfl⟩ := h e rfl
  exact plain_error

/-- The proof is good for `name`. -/
def OwnerProof.good (env : Env) (owner : OwnerProof) (name : String) : Prop :=
  env.verifies owner.pubkey (owner.message env name) owner.proof = true

theorem behaves_kvSetNx {hash : String} : Behaves env.sha256Hex i (Due env req i)
    (fun r L' => L' = L ∧ Plain r) (kvSetNx hash) L := by
  unfold kvSetNx
  refine behaves_idle rfl trivial fun a => ?_
  cases a with
  | error m => exact behaves_orThrow_error ⟨rfl, plain_error⟩
  | ok rs =>
    refine behaves_orThrow_ok ?_
    split
    · exact behaves_pure ⟨rfl, plain_ok⟩
    · exact behaves_ite (fun _ => behaves_throw ⟨rfl, plain_error⟩)
        fun _ => behaves_pure ⟨rfl, plain_ok⟩

theorem behaves_verifyHandleProof {name : String} {owner : OwnerProof} :
    Behaves env.sha256Hex i (Due env req i)
      (fun r L' => L' = L ∧ Plain r ∧ (r = .ok (.ok ()) → owner.good env name))
      (verifyHandleProof env name owner) L := by
  unfold verifyHandleProof
  have hrefused {reason : String} : Behaves env.sha256Hex i (Due env req i)
      (fun r L' => L' = L ∧ Plain r ∧ (r = .ok (.ok ()) → owner.good env name))
      (pure (.error reason) : Call (Except String Unit)) L := behaves_pure ⟨rfl, plain_ok, nofun⟩
  refine behaves_ite (fun _ => hrefused) fun _ => ?_
  refine behaves_idle rfl trivial fun now => ?_
  refine behaves_ite (fun _ => hrefused) fun _ => ?_
  refine behaves_ite (fun _ => hrefused) fun _ => ?_
  refine behaves_ite (fun _ => hrefused) fun hgood => ?_
  have hverified : owner.good env name := by
    unfold OwnerProof.good
    simpa using hgood
  refine behaves_bind behaves_kvSetNx (fun fresh L' ⟨hL, _⟩ => ?_)
    fun e L' ⟨hL, he⟩ => ⟨hL, he.cast, nofun⟩
  subst hL
  exact behaves_ite (fun _ => behaves_pure ⟨rfl, plain_ok, fun _ => hverified⟩) fun _ => hrefused

theorem behaves_verifyOwner {name : String} {owner : OwnerProof} (hreq : req.owner = some owner) :
    Behaves env.sha256Hex i (Due env req i)
      (fun r L' => L' = L ∧ Plain r ∧ ∀ h, r = .ok (.ok h) → Signs env req name h)
      (verifyOwner env name owner) L := by
  unfold verifyOwner
  refine behaves_bind behaves_verifyHandleProof (fun r L' ⟨hL, _, hr⟩ => ?_)
    fun e L' ⟨hL, he, _⟩ => ⟨hL, he.cast, nofun⟩
  cases r with
  | error reason => exact behaves_pure ⟨hL, plain_ok, nofun⟩
  | ok u =>
    refine behaves_pure ⟨hL, plain_ok, ?_⟩
    rintro h ⟨⟩
    exact ⟨owner, hreq, rfl, hr rfl⟩

theorem behaves_ownerHashFrom :
    Behaves env.sha256Hex i (Due env req i)
      (fun r L' => L' = L ∧ Plain r ∧ ∀ h, r = .ok (some h) → Signs env req id h)
      (ownerHashFrom env id req.owner) L := by
  cases howner : req.owner with
  | none =>
    unfold ownerHashFrom
    exact behaves_pure ⟨rfl, plain_ok, nofun⟩
  | some owner =>
    unfold ownerHashFrom
    refine behaves_bind (behaves_verifyOwner howner) (fun r L' ⟨hL, _, hr⟩ => ?_)
      fun e L' ⟨hL, he, _⟩ => ⟨hL, he.cast, nofun⟩
    cases r with
    | error reason => exact behaves_throw ⟨hL, plain_error, nofun⟩
    | ok hash =>
      refine behaves_pure ⟨hL, plain_ok, ?_⟩
      rintro h ⟨⟩
      exact hr hash rfl

theorem behaves_readRow (hdue : Due env req i L (.get (.email id))) :
    Behaves env.sha256Hex i (Due env req i)
      (fun r L' => Plain r ∧ ∀ row, r = .ok row → L' = L ++ [.readRow i id row]) (readRow id) L := by
  unfold readRow
  refine behaves_get_row hdue (fun row => behaves_pure ⟨plain_ok, ?_⟩)
    fun m L => behaves_throw ⟨plain_error, nofun⟩
  rintro row ⟨⟩
  rfl

/-- The call has been let in for the id. -/
def Admitted (i : ι) (id : String) (L : List (Event ι)) : Prop := Verified i id L ∨ Redeemed i id L

/-- What `putBox` leaves: a bound row that the request has signed, or a conflict over the row read. -/
def Put (env : Env) (req : Request) (i : ι) (id : String) (L₀ : List (Event ι))
    (r : Except Thrown Bool) (L : List (Event ι)) : Prop :=
  match r with
  | .ok true => ∃ row h, .wroteRow i id row ∈ L ∧ row.ownerHash = some h ∧ Signs env req id h
  | .error (.backupConflict ..) => ∃ row, L = L₀ ++ [.readRow i id row]
  | _ => True

omit [DecidableEq ι] in
theorem put_of_plain {L₀ : List (Event ι)} {e : Thrown} {α : Type}
    (he : Plain (.error e : Except Thrown α)) : Put env req i id L₀ (.error e) L := by
  obtain ⟨m, rfl⟩ := he e rfl
  trivial

/-- A row is written that the request has signed if it is bound, and that stays bound to the key it
was bound to. -/
theorem behaves_writeRow {L₀ : List (Event ι)} {old : Option StoredRow} {row : StoredRow} {b : Bool}
    (hL : Admitted i id L₀) (hsigned : ∀ h, row.ownerHash = some h → Signs env req id h)
    (hbound : ∀ h, old.bind StoredRow.ownerHash = some h → row.ownerHash = some h)
    (hb : b = row.ownerHash.isSome) :
    Behaves env.sha256Hex i (Due env req i) (Put env req i id L₀)
      (do writeRow id row; return b) (L₀ ++ [.readRow i id old]) := by
  subst hb
  have hwrite : Behaves env.sha256Hex i (Due env req i)
      (fun r L => Plain r ∧ (r = .ok () → .wroteRow i id row ∈ L))
      (writeRow id row) (L₀ ++ [.readRow i id old]) := by
    unfold writeRow
    refine behaves_ite (fun _ => behaves_throw ⟨plain_error, nofun⟩) fun _ => ?_
    refine behaves_set_row ⟨L₀, old, rfl, hL, hsigned, hbound⟩ ?_ fun m L => ?_
    · exact behaves_pure ⟨plain_ok, fun _ => by simp⟩
    · exact behaves_throw ⟨plain_error, nofun⟩
  refine behaves_bind hwrite (fun u L ⟨_, hmem⟩ => behaves_pure ?_) fun e L ⟨he, _⟩ => put_of_plain he
  cases h : row.ownerHash with
  | none => trivial
  | some h' => exact ⟨row, h', hmem rfl, h, hsigned h' h⟩

theorem behaves_putBox {replace : Bool} (hreq : req.gated = true) (hid : text rawId = some id)
    (hL : Admitted i id L) :
    Behaves env.sha256Hex i (Due env req i) (Put env req i id L)
      (putBox env rawId rawBox req.owner replace) L := by
  unfold putBox
  refine behaves_validateId (fun id' hid' => ?_) fun _ => trivial
  obtain rfl : id' = id := Option.some.inj (hid'.symm.trans hid)
  have hbox {f : Box → Call Bool} (h : ∀ box, Behaves env.sha256Hex i (Due env req i)
      (Put env req i id' L) (f box) L) : Behaves env.sha256Hex i (Due env req i)
      (Put env req i id' L) (orThrow (env.validateBox rawBox) >>= f) L := by
    cases hv : env.validateBox rawBox with
    | ok box => exact behaves_orThrow_ok (h box)
    | error m => exact behaves_orThrow_error trivial
  refine hbox fun box => behaves_bind behaves_ownerHashFrom (fun hash L' ⟨hL', _, hhash⟩ => ?_)
    fun e L' ⟨_, he, _⟩ => put_of_plain he
  subst hL'
  have hdue : Due env req i L' (.get (.email id')) := by
    simp only [Due, hreq, if_true]
    exact hL
  have hsigned {row : StoredRow} (hrow : row.ownerHash = hash) :
      ∀ h, row.ownerHash = some h → Signs env req id' h := by
    rintro h hh
    exact hhash h (congrArg Except.ok (hrow.symm.trans hh))
  refine behaves_bind (behaves_readRow hdue) (fun old L hL₁ => ?_) fun e L ⟨he, _⟩ => put_of_plain he
  obtain rfl := hL₁.2 old rfl
  cases old with
  | none =>
    dsimp only
    refine behaves_ite (fun _ => behaves_throw trivial) fun _ => ?_
    exact behaves_writeRow hL (hsigned rfl) nofun rfl
  | some existing =>
    dsimp only
    cases hold : existing.ownerHash with
    | some h =>
      cases hash with
      | none => exact behaves_throw trivial
      | some h' =>
        refine behaves_ite (fun _ => behaves_throw ⟨_, rfl⟩) fun heq => ?_
        refine behaves_writeRow hL (hsigned rfl) (fun h₀ hh₀ => ?_) rfl
        have hbound : existing.ownerHash = some h₀ := hh₀
        rw [not_not.mp heq, ← hold, hbound]
    | none =>
      cases hash with
      | none => exact behaves_throw ⟨_, rfl⟩
      | some h =>
        refine behaves_ite (fun _ => ?_) fun _ => behaves_throw ⟨_, rfl⟩
        refine behaves_writeRow hL (hsigned rfl) (fun h₀ hh₀ => ?_) rfl
        have hbound : existing.ownerHash = some h₀ := hh₀
        rw [hold] at hbound
        cases hbound

/-! ## Routes -/

theorem asks_aliasWriteCheck {rawProof : Option Json} :
    (aliasWriteCheck env rawId rawProof).Asks fun q => q.idle = true := by
  unfold aliasWriteCheck
  refine Asks.bind asks_orThrow fun id => ?_
  split
  · exact asks_throw
  · exact Asks.bind (asks_question rfl) fun found => Asks.bind asks_orThrow fun existing =>
      asks_ite asks_throw asks_pure

theorem asks_storeAlias {body : RecoveryBody} :
    (storeAlias env body).Asks fun q => q.idle = true := by
  unfold storeAlias putAliasBox
  refine asks_ite (Asks.bind asks_orThrow fun box => Asks.bind asks_aliasWriteCheck fun r => ?_) asks_pure
  exact asks_ite asks_throw (Asks.bind (asks_question rfl) fun _ => asks_orThrow)

theorem behaves_mintRecoveryTicket {L₀ : List (Event ι)} {row : Option StoredRow}
    (hid : text rawId = some id) (hL : Verified i id L₀) :
    Behaves env.sha256Hex i (Due env req i) (fun _ _ => True) (mintRecoveryTicket rawId)
      (L₀ ++ [.readRow i id row]) := by
  unfold mintRecoveryTicket
  refine behaves_validateId (fun id' hid' => ?_) fun _ => trivial
  obtain rfl : id' = id := Option.some.inj (hid'.symm.trans hid)
  refine behaves_idle rfl trivial fun ticket => ?_
  refine behaves_set_ticket ⟨L₀, row, hL, rfl⟩ fun a L => ?_
  cases a with
  | ok u => exact behaves_orThrow_ok (behaves_pure trivial)
  | error m => exact behaves_orThrow_error trivial

theorem behaves_freshTicket {wanted : Bool} {L₀ : List (Event ι)} {row : Option StoredRow}
    (hid : text rawId = some id) (hL : wanted = true → Verified i id L₀) :
    Behaves env.sha256Hex i (Due env req i) (fun _ _ => True) (freshTicket wanted rawId)
      (L₀ ++ [.readRow i id row]) := by
  unfold freshTicket
  refine behaves_ite (fun h => ?_) fun _ => behaves_pure trivial
  exact behaves_bind (behaves_mintRecoveryTicket hid (hL h)) (fun _ _ _ => behaves_pure trivial)
    fun _ _ _ => trivial

/-- A request to bind a row has bound it if it is told so. -/
def Bound (env : Env) (body : RecoveryBody) (i : ι) (r : Except Thrown Response)
    (L : List (Event ι)) : Prop :=
  r = .ok ⟨200, [("ok", .bool true), ("bound", .bool true)]⟩ →
    ∃ id row h, text body.id = some id ∧ .wroteRow i id row ∈ L ∧ row.ownerHash = some h ∧
      Signs env (.recovery body) id h

theorem behaves_storeRows {body : RecoveryBody} (hid : text body.id = some id)
    (hL : Verified i id L ∨ Redeemed i id L ∧ present body.ticket = true) :
    Behaves env.sha256Hex i (Due env (.recovery body) i) (Bound env body i) (storeRows env body) L := by
  have hadmitted : Admitted i id L := hL.imp_right And.left
  unfold storeRows
  refine behaves_bind (P := fun r L' => ∃ r', r = .ok r' ∧ Put env (.recovery body) i id L r' L') ?_
    (fun r L' ⟨r', hr, hput⟩ => ?_) fun e L' ⟨r', hr, _⟩ => ?_
  · have hput : Behaves env.sha256Hex i (Due env (.recovery body) i)
        (Put env (.recovery body) i id L) (putBox env body.id body.box body.owner body.replace) L :=
      behaves_putBox rfl hid hadmitted
    exact behaves_andThen (hput.mono fun r L' h => behaves_pure ⟨r, rfl, h⟩)
  · cases hr
    cases r with
    | ok b =>
      refine behaves_bind (behaves_of_idle (fun _ => due_idle) asks_storeAlias) (fun u L₁ hL₁ => ?_)
        fun _ _ _ => nofun
      subst hL₁
      refine behaves_pure fun htold => ?_
      obtain rfl : b = true := by simpa using htold
      obtain ⟨row, h, hmem, hrow, hsigns⟩ := hput
      exact ⟨id, row, h, hid, hmem, hrow, hsigns⟩
    | error e =>
      cases e with
      | backupConflict unbound box =>
        obtain ⟨row, rfl⟩ := hput
        change Behaves _ _ _ _ (answerConflict body unbound box) _
        unfold answerConflict
        refine behaves_bind (behaves_freshTicket hid fun hwanted => ?_)
          (fun _ _ _ => behaves_pure fun h => ?_) fun _ _ _ => nofun
        · rcases hL with hL | ⟨-, hpresent⟩
          · exact hL
          · simp [hpresent] at hwanted
        · simp at h
      | error m => exact behaves_throw nofun
      | publicRefusal m c => exact behaves_throw nofun
      | otpBudgetExceeded => exact behaves_throw nofun
      | otpCheckUnavailable => exact behaves_throw nofun
  · cases hr

theorem behaves_admitted {body : RecoveryBody} (hid : text body.id = some id)
    (hL : Verified i id L ∨ Redeemed i id L ∧ present body.ticket = true) :
    Behaves env.sha256Hex i (Due env (.recovery body) i) (Bound env body i) (admitted env body) L := by
  unfold admitted
  refine behaves_ite (fun _ => ?_) fun _ => behaves_storeRows hid hL
  refine behaves_ite (fun _ => behaves_pure fun h => ?_) fun _ => ?_
  · simp at h
  · refine behaves_bind (behaves_of_idle (fun _ => due_idle) asks_aliasWriteCheck) (fun r L₁ hL₁ => ?_)
      fun _ _ _ => nofun
    subst hL₁
    exact behaves_storeRows hid hL

theorem behaves_rateLimited {k : Call Response} {post : Except Thrown Response → List (Event ι) → Prop}
    (hlimited : ∀ reason, post (.ok ⟨429, [("error", .str reason)]⟩) L)
    (h : Behaves env.sha256Hex i (Due env req i) post k L) :
    Behaves env.sha256Hex i (Due env req i) post (rateLimited k) L := by
  unfold rateLimited
  refine behaves_idle rfl trivial fun a => ?_
  cases a with
  | none => exact h
  | some reason => exact behaves_pure (hlimited reason)

theorem behaves_consumeRecoveryTicket {rawTicket : Option Json} :
    Behaves env.sha256Hex i (Due env req i)
      (fun r L => r = .ok true → ∃ id, text rawId = some id ∧ Redeemed i id L)
      (consumeRecoveryTicket rawTicket rawId) [] := by
  unfold consumeRecoveryTicket
  split
  · next ticket id hticket hid =>
    have htext : text rawId = some id := by
      obtain ⟨h, -⟩ := Option.filter_eq_some_iff.mp hid
      exact h
    refine behaves_take rfl ?_ (fun id' minter => ?_) (fun rs L hbad => ?_) fun m L => ?_
    · exact behaves_orThrow_ok (behaves_pure (by simp))
    · refine behaves_orThrow_ok (behaves_pure fun h => ⟨id, htext, ticket, minter, ?_⟩)
      have heq : id' = id := by simpa using h
      rw [heq]
      rfl
    · refine behaves_orThrow_ok ?_
      cases rs with
      | nil => exact behaves_pure (by simp)
      | cons r rs =>
        exact behaves_ite (fun _ => behaves_throw (by simp)) fun hgood => absurd hbad hgood
    · exact behaves_orThrow_error (by simp)
  · exact behaves_pure (by simp)

theorem refusal_eq_none {verdict : Verdict} (h : refusal verdict = none) : verdict = .ok := by
  cases verdict <;> first | rfl | cases h

theorem refusal_status {verdict : Verdict} {r : Response} (h : refusal verdict = some r) :
    r.status ≠ 200 := by
  cases verdict with
  | ok => cases h
  | wrong =>
    cases h
    decide
  | budget =>
    cases h
    decide

/-- What the gate lets in, it lets in by a code or a ticket for the id. -/
def LetIn (body : RecoveryBody) (i : ι) (r : Except Thrown (Option Response)) (L : List (Event ι)) :
    Prop :=
  match r with
  | .ok none => ∃ id, text body.id = some id ∧
      (Verified i id L ∨ Redeemed i id L ∧ present body.ticket = true)
  | .ok (some response) => response.status ≠ 200
  | .error _ => True

theorem behaves_gate {body : RecoveryBody} :
    Behaves env.sha256Hex i (Due env req i) (LetIn body i) (gate body) [] := by
  unfold gate
  refine behaves_ite (fun hpresent => ?_) fun _ => ?_
  · refine behaves_bind behaves_consumeRecoveryTicket (fun good L hgood => ?_) fun _ _ _ => trivial
    cases good with
    | true =>
      obtain ⟨id, hid, hredeemed⟩ := hgood rfl
      exact behaves_pure ⟨id, hid, .inr ⟨hredeemed, hpresent⟩⟩
    | false => exact behaves_pure (by decide : invalidCode.status ≠ 200)
  · refine behaves_bind behaves_verifyOtpDetailed (fun verdict L hverdict => ?_) fun _ _ _ => trivial
    refine behaves_pure ?_
    cases hr : refusal verdict with
    | none =>
      obtain ⟨id, hid, hverified⟩ := hverdict (congrArg _ (refusal_eq_none hr))
      exact ⟨id, hid, .inl hverified⟩
    | some response => exact refusal_status hr

theorem behaves_recovery {body : RecoveryBody} :
    Behaves env.sha256Hex i (Due env (.recovery body) i) (Bound env body i) (recovery env body) [] := by
  unfold recovery
  refine behaves_rateLimited (fun _ h => ?_) ?_
  · simp at h
  · refine behaves_ite (fun _ => behaves_pure fun h => ?_) fun _ => ?_
    · simp [invalidCode] at h
    · refine behaves_bind behaves_gate (fun r L hr => ?_) fun _ _ _ => nofun
      cases r with
      | some response =>
        refine behaves_pure fun h => ?_
        cases h
        exact absurd rfl hr
      | none =>
        obtain ⟨id, hid, hL⟩ := hr
        exact behaves_admitted hid hL

theorem behaves_getBoxState (hreq : req.gated = true) (hid : text rawId = some id)
    (hL : Admitted i id L) :
    Behaves env.sha256Hex i (Due env req i) (fun r L' => r.isOk → ∃ row, L' = L ++ [.readRow i id row])
      (getBoxState rawId) L := by
  unfold getBoxState
  refine behaves_validateId (fun id' hid' => ?_) fun _ => nofun
  obtain rfl : id' = id := Option.some.inj (hid'.symm.trans hid)
  have hdue : Due env req i L (.get (.email id')) := by
    simp only [Due, hreq, if_true]
    exact hL
  refine behaves_bind (behaves_readRow hdue) (fun row L' hL' => behaves_pure fun _ => ⟨row, hL'.2 row rfl⟩)
    fun _ _ _ => nofun

theorem behaves_recoveryFetch {rawCode : Option Json} :
    Behaves env.sha256Hex i (Due env (.recoveryFetch rawId rawCode) i) (fun _ _ => True)
      (recoveryFetch rawId rawCode) [] := by
  unfold recoveryFetch
  refine behaves_rateLimited (fun _ => trivial) ?_
  refine behaves_bind behaves_verifyOtpDetailed (fun verdict L hverdict => ?_) fun _ _ _ => trivial
  cases hr : refusal verdict with
  | some response => exact behaves_pure trivial
  | none =>
    obtain ⟨id, hid, hverified⟩ := hverdict (congrArg _ (refusal_eq_none hr))
    refine behaves_bind (behaves_getBoxState rfl hid (.inl hverified)) (fun found L' hL' => ?_)
      fun _ _ _ => trivial
    obtain ⟨row, rfl⟩ := hL' rfl
    cases found with
    | none => exact behaves_pure trivial
    | some found =>
      exact behaves_bind (behaves_freshTicket hid fun _ => hverified) (fun _ _ _ => behaves_pure trivial)
        fun _ _ _ => trivial

theorem behaves_recoveryOtp {email : Option Json} {purpose : OtpPurpose} :
    Behaves env.sha256Hex i (Due env req i) (fun _ _ => True) (recoveryOtp env email purpose) [] := by
  unfold recoveryOtp
  refine behaves_rateLimited (fun _ => trivial) ?_
  refine behaves_bind (P := fun _ _ => True)
    (behaves_andThen (behaves_requestOtp.mono fun r L _ => behaves_pure trivial)) (fun r L _ => ?_)
    fun _ _ _ => trivial
  split
  · exact behaves_pure trivial
  · exact behaves_throw trivial
  · exact behaves_pure trivial

theorem behaves_asOwner {owner : Option OwnerProof} {k : OwnerProof → Call Response}
    (hk : ∀ o, owner = some o → Behaves env.sha256Hex i (Due env req i) (fun _ _ => True) (k o) []) :
    Behaves env.sha256Hex i (Due env req i) (fun _ _ => True) (asOwner rawId owner k) [] := by
  unfold asOwner
  refine behaves_rateLimited (fun _ => trivial) ?_
  split
  · exact hk _ rfl
  · exact behaves_pure trivial

theorem behaves_recoveryCheck {owner : Option OwnerProof} :
    Behaves env.sha256Hex i (Due env (.recoveryCheck rawId owner) i) (fun _ _ => True)
      (recoveryCheck env rawId owner) [] := by
  unfold recoveryCheck
  refine behaves_asOwner fun o ho => ?_
  refine behaves_bind (P := fun _ _ => True) ?_ (fun r L _ => ?_) fun _ _ _ => trivial
  · unfold checkMine
    refine behaves_validateId (fun id hid => ?_) fun _ => trivial
    refine behaves_bind (behaves_verifyOwner ho) (fun r L ⟨hL, _⟩ => ?_) fun _ _ _ => trivial
    subst hL
    cases r with
    | error reason => exact behaves_pure trivial
    | ok hash =>
      exact behaves_bind (behaves_readRow rfl) (fun _ _ _ => behaves_pure trivial) fun _ _ _ => trivial
  · cases r with
    | error reason => exact behaves_pure trivial
    | ok mine => exact behaves_pure trivial

theorem behaves_recoveryRelease {owner : Option OwnerProof} :
    Behaves env.sha256Hex i (Due env (.recoveryRelease rawId owner) i) (fun _ _ => True)
      (recoveryRelease env rawId owner) [] := by
  unfold recoveryRelease
  refine behaves_asOwner fun o ho => ?_
  refine behaves_bind (P := fun _ _ => True) ?_ (fun r L _ => ?_) fun _ _ _ => trivial
  · unfold releaseBox
    refine behaves_validateId (fun id hid => ?_) fun _ => trivial
    refine behaves_bind (behaves_verifyOwner ho) (fun r L ⟨hL, _, hr⟩ => ?_) fun _ _ _ => trivial
    subst hL
    cases r with
    | error reason => exact behaves_pure trivial
    | ok hash =>
      refine behaves_bind (behaves_readRow rfl) (fun row L hL => ?_) fun _ _ _ => trivial
      obtain rfl := hL.2 row rfl
      refine behaves_ite (fun _ => behaves_pure trivial) fun hmine => ?_
      obtain ⟨old, rfl, hold⟩ := Option.bind_eq_some_iff.mp (not_not.mp hmine)
      refine behaves_bind (P := fun _ _ => True) ?_ (fun _ _ _ => behaves_pure trivial)
        fun _ _ _ => trivial
      unfold deleteRow
      exact behaves_del_row ⟨old, hash, rfl, hold, hr hash rfl⟩ (behaves_pure trivial)
        fun _ _ => behaves_throw trivial
  · split
    · exact behaves_pure trivial
    · exact behaves_pure trivial
    · exact behaves_pure trivial

/-- **What the service does.** Every question of a request comes after its due deeds, and what it ends
with is what its deeds say. -/
theorem behaves_serve {requests : ι → Request} :
    Behaves env.sha256Hex i (Due env (requests i) i) (Told env (requests i) i) (serve env (requests i))
      [] := by
  cases requests i with
  | recoveryOtp email purpose =>
    exact behaves_bind behaves_recoveryOtp (fun _ _ _ => behaves_pure trivial) fun _ _ _ => trivial
  | recovery body =>
    exact behaves_bind behaves_recovery (fun r L hr => behaves_pure fun h => hr (congrArg _ h))
      fun _ _ _ => trivial
  | recoveryFetch id code =>
    exact behaves_bind behaves_recoveryFetch (fun _ _ _ => behaves_pure trivial) fun _ _ _ => trivial
  | recoveryCheck id owner =>
    exact behaves_bind behaves_recoveryCheck (fun _ _ _ => behaves_pure trivial) fun _ _ _ => trivial
  | recoveryRelease id owner =>
    exact behaves_bind behaves_recoveryRelease (fun _ _ _ => behaves_pure trivial) fun _ _ _ => trivial
  | verify id code =>
    refine behaves_bind behaves_verifyOtpDetailed (fun verdict L hverdict => behaves_pure ?_)
      fun _ _ _ => trivial
    cases verdict with
    | ok => exact hverdict rfl
    | wrong => trivial
    | budget => trivial

end

end Lumenia.Sponsor.Recovery
