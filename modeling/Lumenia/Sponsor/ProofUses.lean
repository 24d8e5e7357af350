import Lumenia.Sponsor.Pilot
import Lumenia.Sponsor.IdentityLogic
import Lumenia.Sponsor.RecoveryCalls
import Lumenia.Theory.Denials

/-!
# Signed proofs are good for what they were signed for

All the routes of the sponsor that take a signature of an account build the same message, each with an action and a
name of its own. A signature for one of them is none for another, so who has not signed for a route gets nothing from
it.
-/

namespace Lumenia.Sponsor.ProofUses

open Dialogue Proofs Stellar
open Identity (attachProofName detachProofPrefix)

/-! ## What an account signs for -/

/-- What a signature is for. The links of an account are listed and taken off one provider on the same message, and an
attachment does not say what is attached. -/
inductive Purpose
  | claim (name : String)
  | release (name : String)
  | links
  | attach
  | detach (id : String)
  | backup (id : String)
  | check (id : String)
  | letGo (id : String)
  | pilot (id : String)
  deriving DecidableEq

namespace Purpose

def action : Purpose → ProofAction
  | claim _ => .claim
  | release _ => .release
  | pilot _ => .pilot
  | _ => .links

def name : Purpose → String
  | claim name | release name => name
  | links => ""
  | attach => attachProofName
  | detach id => detachProofPrefix ++ id
  | backup id | pilot id => id
  | check id => "check:" ++ id
  | letGo id => "release:" ++ id

/-- An id that is the whole name is one. -/
def Plain : Purpose → Prop
  | backup id => Recovery.isId id = true
  | _ => True

/-- The purpose of a name under the action `links`. -/
def ofName (name : List Char) : Purpose :=
  if name = [] then links
  else if name = "attach".toList then attach
  else if "detach:".toList.isPrefixOf name then detach (.ofList (name.drop 7))
  else if "check:".toList.isPrefixOf name then check (.ofList (name.drop 6))
  else if "release:".toList.isPrefixOf name then letGo (.ofList (name.drop 8))
  else backup (.ofList name)

variable {p p' : Purpose}

theorem isPrefixOf_backup {id : String} (h : Recovery.isId id = true) {start : List Char} (hcolon : ':' ∈ start) :
    start.isPrefixOf id.toList = false := by
  rw [Bool.eq_false_iff, ne_eq, List.isPrefixOf_iff_prefix]
  intro hhead
  simp only [Recovery.isId, Bool.and_eq_true, List.all_eq_true] at h
  exact absurd (h.2 ':' (hhead.subset hcolon)) (by decide)

theorem ofName_name (hp : p.Plain) (haction : p.action = .links) : ofName p.name.toList = p := by
  cases p with
  | claim name | release name | pilot id => exact absurd haction nofun
  | links | attach => decide
  | detach id => simp [ofName, name, detachProofPrefix]
  | check id => simp [ofName, name]
  | letGo id => simp [ofName, name]
  | backup id =>
    have hlength : id.toList.length = 64 := by
      have hid : Recovery.isId id = true := hp
      simp only [Recovery.isId, Bool.and_eq_true, decide_eq_true_eq] at hid
      exact hid.1
    have hne : id.toList ≠ [] := fun heq => by simp [heq] at hlength
    have hattach : id.toList ≠ "attach".toList := fun heq => by simp [heq] at hlength
    have hdetach := @isPrefixOf_backup id hp "detach:".toList (by decide)
    have hcheck := @isPrefixOf_backup id hp "check:".toList (by decide)
    have hrelease := @isPrefixOf_backup id hp "release:".toList (by decide)
    simp only [ofName, name, if_neg hne, if_neg hattach, hdetach, hcheck, hrelease, String.ofList_toList,
      Bool.false_eq_true, if_false]

/-- The action and the name tell the purpose. -/
theorem eq_of_name (hp : p.Plain) (hp' : p'.Plain) (haction : p.action = p'.action) (hname : p.name = p'.name) :
    p = p' := by
  by_cases hlinks : p.action = .links
  · rw [← ofName_name hp hlinks, ← ofName_name hp' (haction ▸ hlinks), hname]
  · cases p with
    | claim => cases p' with
      | claim => exact congrArg claim hname
      | _ => simp only [action, reduceCtorEq] at haction
    | release => cases p' with
      | release => exact congrArg release hname
      | _ => simp only [action, reduceCtorEq] at haction
    | pilot => cases p' with
      | pilot => exact congrArg pilot hname
      | _ => simp only [action, reduceCtorEq] at haction
    | _ => exact absurd rfl hlinks

end Purpose

/-- One signature of an account. -/
structure Use where
  purpose : Purpose
  ts : Proofs.Number
  nonce : String
  network : NetworkId
  plain : purpose.Plain
  fresh : Recovery.isNonce nonce = true

def Use.input (use : Use) (pubkey proof : String) : ProofInput :=
  ⟨use.purpose.action, use.purpose.name, pubkey, use.ts, use.nonce, use.network, proof⟩

section

variable (signed : String → Use → Prop)

/-- What an address verifies is what its holder has signed. -/
def Unforgeable (verifies : (pubkey message proof : String) → Bool) : Prop :=
  ∀ pubkey message proof, isValidEd25519PublicKey pubkey = true → verifies pubkey message proof = true →
    ∃ use, signed pubkey use ∧ message = (use.input pubkey proof).message

/-- The holder has signed for this. -/
def Meant (purpose : Purpose) (pubkey : String) (network : NetworkId) : Prop :=
  ∃ use, signed pubkey use ∧ use.purpose = purpose ∧ use.network = network

end

variable {signed : String → Use → Prop} {purpose : Purpose} {pubkey : String} {network : NetworkId}

/-- Who has signed a message has meant its purpose. -/
theorem meant_of_verified {verifies : (pubkey message proof : String) → Bool} {input : ProofInput}
    (h : Unforgeable signed verifies) (hwell : input.WellFormed)
    (hverifies : verifies input.pubkey input.message input.proof = true) (hplain : purpose.Plain)
    (haction : input.action = purpose.action) (hname : input.name = purpose.name) :
    Meant signed purpose input.pubkey input.network := by
  obtain ⟨use, hsigned, hmessage⟩ := h _ _ _ hwell.pubkey hverifies
  have hwell' : (use.input input.pubkey input.proof).WellFormed := ⟨hwell.pubkey, use.fresh⟩
  obtain ⟨haction', hname', -, -, -, hnetwork⟩ := message_inj hwell hwell' hmessage
  refine ⟨use, hsigned, Purpose.eq_of_name use.plain hplain ?_ ?_, hnetwork.symm⟩
  · exact haction'.symm.trans haction
  · exact hname'.symm.trans hname

/-- A proof that was not signed for this is refused, and not remembered. -/
theorem refuses_verify {Q : Type} {A : Q → Type} {ε : Type} {deps : ProofDeps A ε} {env : ProofEnv}
    {input : ProofInput} {S : Q → Prop} (hnow : deps.now.Asks S) (hnot : ¬Checks env input) :
    (verifyHandleProof deps env input).Denies S (· = .ok ()) := by
  unfold verifyHandleProof
  apply denies_ite (fun _ => denies_pure nofun)
  intro hpubkey
  apply hnow.denies_bind
  intro now
  apply denies_ite (fun _ => denies_pure nofun)
  intro _
  apply denies_ite (fun _ => denies_pure nofun)
  intro hnonce
  apply denies_ite (fun _ => denies_pure nofun)
  intro hsigned
  simp only [Bool.not_eq_false] at hpubkey hnonce hsigned
  exact absurd ⟨⟨hpubkey, hnonce⟩, hsigned⟩ hnot

/-! ## Names -/

section

open Handles (claimHandle releaseHandle normalizeHandle)

variable {env : Handles.Env} {input : ProofInput}

/-- Something of the registry of names is changed. -/
def WritesName : Handles.Ask → Prop
  | .run (.set ..) | .run (.setNx ..) | .run (.del _) => True
  | _ => False

def Done {ε α : Type} (r : Except ε α) : Prop := ∃ a, r = .ok a

theorem names_now : Handles.deps.now.Asks (¬WritesName ·) := asks_question (q := Handles.Ask.now) id

theorem names_kvGet {key : Handles.Key} : (Handles.kvGet key).Asks (¬WritesName ·) := by
  have hentry : (Handles.entry (.get key)).Asks (¬WritesName ·) := by
    refine Asks.bind (asks_question (q := Handles.Ask.run (.get key)) id) fun answer => ?_
    cases answer with
    | ok first => exact asks_pure
    | error e => exact asks_throw
  exact hentry.bind fun _ => asks_pure

theorem refuses_claim
    (hnot : ¬Checks env.toProofEnv { input with name := normalizeHandle env input.name, action := .claim }) :
    (claimHandle env input).Denies (¬WritesName ·) Done := by
  simp only [claimHandle]
  split
  · exact denies_pure nofun
  · refine (refuses_verify names_now hnot).bind fun proofOk hok => ?_
    cases proofOk with
    | error reason => exact denies_pure nofun
    | ok u => exact absurd rfl hok

theorem refuses_release
    (hnot : ¬Checks env.toProofEnv { input with name := normalizeHandle env input.name, action := .release }) :
    (releaseHandle env input).Denies (¬WritesName ·) Done := by
  simp only [releaseHandle]
  split
  · exact denies_pure nofun
  · apply Asks.denies_bind names_kvGet
    intro found
    split
    · exact denies_pure nofun
    · refine denies_ite (fun _ => denies_pure nofun) fun _ => (refuses_verify names_now hnot).bind fun proofOk hok => ?_
      cases proofOk with
      | error reason => exact denies_pure nofun
      | ok u => exact absurd rfl hok

end

/-! ## Links -/

section

open Identity

variable {env : Identity.Env} {resolved : ResolvedIdentity} {accountProof : AccountProof} {α : Type}

/-- The listing of an account is read, or something is stored or taken away but an OAuth ticket. -/
def ActsOnLinks : Identity.Ask → Prop
  | .run (.get (.of_ ..)) => True
  | .run (.get _) => False
  | .run (.del (.ticket _)) => False
  | .run _ => True
  | _ => False

def LinksGranted : Identity.Reply → Prop
  | .attached .. | .detached | .removed _ | .links _ => True
  | _ => False

variable {S : Identity.Ask → Prop}

theorem links_kvGet (key : Identity.Key) (hkey : S (.run (.get key))) : (kvGet key).Asks S :=
  (asks_entry hkey).bind fun _ => asks_pure

theorem links_kvDel (key : Identity.Key) (hkey : S (.run (.del key))) : (kvDel key).Asks S :=
  (asks_entry hkey).bind fun _ => asks_pure

/-- Whoever proves an identity has a ticket spent, and nothing else done. -/
theorem links_resolveProof {proof : IdentityProof} (hS : ∀ q, ¬ActsOnLinks q → S q) :
    (resolveProof env proof).Asks S := by
  cases proof with
  | passkey passkeyId secret =>
    refine asks_ite asks_pure ((links_kvGet (.identity passkeyId) (hS _ id)).bind fun row => ?_)
    exact asks_ite asks_pure asks_pure
  | email rawEmail code =>
    refine asks_ite asks_pure (asks_thrown (hS _ id) fun verified => ?_)
    exact asks_orThrow.bind fun verified => asks_ite asks_pure (asks_orThrow.bind fun _ => asks_pure)
  | ticket ticket =>
    have hconsume : (consumeTicket ticket).Asks S := by
      refine asks_ite asks_pure ((links_kvGet (.ticket ticket) (hS _ id)).bind fun found => ?_)
      cases found with
      | none => exact asks_pure
      | some t => exact (links_kvDel (.ticket ticket) (hS _ id)).bind fun _ => asks_pure
    apply hconsume.bind
    intro t
    cases t with
    | none => exact asks_pure
    | some t => exact asks_orThrow.bind fun _ => asks_pure

theorem links_now : Identity.deps.now.Asks (¬ActsOnLinks ·) := asks_question (q := Identity.Ask.now) id

theorem refuses_attachIdentity {address : String} {box : Option Json} {passkeyProof : Option String}
    {accountProof : Option AccountProof}
    (hnot : ∀ accountProof : AccountProof,
      ¬Checks env.toProofEnv (accountProof.input attachProofName address network)) :
    (attachIdentity env resolved address network box passkeyProof accountProof).Denies (¬ActsOnLinks ·)
      fun r => ∃ provider id links, r = .ok provider id links := by
  unfold attachIdentity
  apply denies_ite (fun _ => denies_pure nofun)
  intro _
  cases accountProof with
  | none => exact denies_pure nofun
  | some accountProof =>
    refine (refuses_verify links_now (hnot accountProof)).bind fun signed hsigned => ?_
    cases signed with
    | error reason => exact denies_pure nofun
    | ok u => exact absurd rfl hsigned

/-- `operate` of an attachment that the account has not signed for. -/
theorem refuses_operate_attach {body : AttachBody} (hnot : ∀ accountProof : AccountProof,
      ¬Checks env.toProofEnv (accountProof.input attachProofName body.address network)) :
    (operate env network resolved (.attach body)).Denies (¬ActsOnLinks ·) LinksGranted := by
  have htaken : (emailTaken env resolved body.address).Asks (¬ActsOnLinks ·) := by
    rw [emailTaken]
    split
    · exact asks_pure
    · exact asks_ite asks_pure (asks_thrown id fun hash => asks_orThrow.bind fun _ => asks_pure)
  apply htaken.denies_bind
  intro taken
  apply denies_ite (fun _ => denies_pure id)
  intro _
  refine (refuses_attachIdentity hnot).bind fun result hresult => ?_
  cases result with
  | ok provider id links => exact absurd ⟨provider, id, links, rfl⟩ hresult
  | refused reason conflict => exact denies_pure not_false

theorem denies_rateLimited {k : Identity.Call Reply} {granted : Reply → Prop} (hS : S .enforceRateLimit)
    (hrefused : ∀ reason, ¬granted (.refused 429 reason none)) (hk : k.Denies S granted) :
    (Identity.rateLimited k).Denies S granted := by
  apply denies_question_bind hS
  intro limited
  cases limited with
  | some reason => exact denies_pure (hrefused reason)
  | none => exact hk

theorem denies_identityRoute {proof : IdentityProof} {operation : Operation} {granted : Reply → Prop}
    (hS : ∀ q, ¬ActsOnLinks q → S q) (hrefused : ∀ status reason, ¬granted (.refused status reason none))
    (hoperate : ∀ resolved, (operate env network resolved operation).Denies S granted) :
    (identityRoute env network proof operation).Denies S granted := by
  apply denies_rateLimited (hS _ id) (hrefused 429)
  refine (links_resolveProof hS).denies_bind fun resolved => ?_
  cases resolved with
  | none => exact denies_pure (hrefused 401 _)
  | some resolved => exact hoperate resolved

/-- `/identity-attach` to an account that has not signed for it. -/
theorem refuses_attach {proof : IdentityProof} {body : AttachBody} (hnot : ∀ accountProof : AccountProof,
      ¬Checks env.toProofEnv (accountProof.input attachProofName body.address network)) :
    (identityRoute env network proof (.attach body)).Denies (¬ActsOnLinks ·) LinksGranted :=
  denies_identityRoute (fun _ => id) (fun _ _ => id) fun _ => refuses_operate_attach hnot

/-- The row of this identity is taken away. -/
def TakesRow (id : String) (q : Identity.Ask) : Prop := q = .run (.del (.identity id))

variable {id : String}

theorem keeps_row {q : Identity.Ask} (h : ¬ActsOnLinks q) : ¬TakesRow id q := by
  rintro rfl
  exact h trivial

theorem keeps_writeLinks {links : List LinkSummary} {address : String} :
    (writeLinks env network address links).Asks (¬TakesRow id ·) := by
  refine asks_ite (links_kvDel (.of_ network address) nofun) (asks_ite asks_throw ?_)
  exact (asks_entry (c := .set (.of_ network address) links none) nofun).bind fun _ => asks_pure

theorem keeps_now : Identity.deps.now.Asks (¬TakesRow id ·) := asks_question (q := Identity.Ask.now) nofun

/-- The row goes with a signature of its account for this identity, or another identity's goes. -/
theorem keeps_detachIdentity {accountProof : Option AccountProof}
    (hnot : ∀ (address : String) (accountProof : AccountProof),
      ¬Checks env.toProofEnv (accountProof.input (detachProofPrefix ++ id) address network)) :
    (detachIdentity env resolved network accountProof).Denies (¬TakesRow id ·) fun _ => False := by
  refine (links_kvGet (.identity resolved.id) nofun).denies_bind fun row => ?_
  cases row with
  | none => exact denies_pure not_false
  | some row =>
    cases accountProof with
    | none => exact denies_pure not_false
    | some accountProof =>
      by_cases hid : resolved.id = id
      · have hchecks := hnot row.address accountProof
        rw [← hid] at hchecks
        refine (refuses_verify keeps_now hchecks).bind fun signed hsigned => ?_
        cases signed with
        | error reason => exact denies_pure not_false
        | ok u => exact absurd rfl hsigned
      · have hdel : (kvDel (.identity resolved.id)).Asks (¬TakesRow id ·) :=
          links_kvDel (.identity resolved.id) fun h => hid (by simpa [TakesRow] using h)
        have hproof : (verifyHandleProof Identity.deps env.toProofEnv
            (accountProof.input (detachProofPrefix ++ resolved.id) row.address network)).Asks (¬TakesRow id ·) :=
          asks_verifyHandleProof keeps_now fun _ => asks_kvSetNx nofun
        apply hproof.denies_bind
        intro signed
        cases signed with
        | error reason => exact denies_pure not_false
        | ok u =>
          apply hdel.denies_bind
          intro _
          refine (links_kvGet (.of_ row.network row.address) nofun).bind (fun _ => asks_pure) |>.denies_bind
            fun links => ?_
          exact keeps_writeLinks.denies_bind fun _ => denies_pure not_false

/-- `/identity-detach` of an identity that nobody has signed for. -/
theorem refuses_detach {proof : IdentityProof} {accountProof : Option AccountProof}
    (hnot : ∀ (address : String) (accountProof : AccountProof),
      ¬Checks env.toProofEnv (accountProof.input (detachProofPrefix ++ id) address network)) :
    (identityRoute env network proof (.detach accountProof)).Denies (¬TakesRow id ·) fun _ => False := by
  apply denies_identityRoute (fun _ => keeps_row) (fun _ _ => not_false)
  intro resolved
  refine (keeps_detachIdentity hnot).bind fun done _ => ?_
  cases done with
  | ok => exact denies_pure not_false
  | refused reason unauthorized => exact denies_pure not_false

theorem refuses_identityDetachMine {provider : String}
    (hnot : ¬Checks env.toProofEnv (accountProof.input "" pubkey network)) :
    (identityDetachMine env network pubkey provider accountProof).Denies (¬ActsOnLinks ·) LinksGranted := by
  apply denies_rateLimited id (fun _ => id)
  split
  · exact denies_pure id
  · refine (refuses_verify links_now hnot).bind fun okProof hok => ?_
    cases okProof with
    | error reason => exact denies_pure id
    | ok u => exact absurd rfl hok

theorem refuses_identityLinks (hnot : ¬Checks env.toProofEnv (accountProof.input "" pubkey network)) :
    (identityLinks env network pubkey accountProof).Denies (¬ActsOnLinks ·) LinksGranted := by
  refine denies_rateLimited id (fun _ => id) ((refuses_verify links_now hnot).bind fun okProof hok => ?_)
  cases okProof with
  | error reason => exact denies_pure id
  | ok u => exact absurd rfl hok

end

/-! ## Backups -/

section

open Recovery

variable {env : Recovery.Env} {name : String} {owner : Recovery.OwnerProof} {S : Recovery.Ask → Prop}

/-- What the recovery routes check of a proof. -/
structure Signs (env : Recovery.Env) (name : String) (owner : Recovery.OwnerProof) : Prop where
  pubkey : isValidEd25519PublicKey owner.pubkey = true
  nonce : isNonce owner.nonce = true
  signed : env.verifies owner.pubkey (owner.message env name) owner.proof = true

theorem refuses_verifyOwner (hS : S .now) (hnot : ¬Signs env name owner) :
    (verifyOwner env name owner).Denies S Done := by
  have hverify : (Recovery.verifyHandleProof env name owner).Denies S (· = .ok ()) := by
    unfold Recovery.verifyHandleProof
    apply denies_ite (fun _ => denies_pure nofun)
    intro hpubkey
    apply denies_question_bind hS
    intro now
    apply denies_ite (fun _ => denies_pure nofun)
    intro _
    apply denies_ite (fun _ => denies_pure nofun)
    intro hnonce
    apply denies_ite (fun _ => denies_pure nofun)
    intro hsigned
    simp only [Bool.not_eq_false] at hpubkey hnonce hsigned
    exact absurd ⟨hpubkey, hnonce, hsigned⟩ hnot
  apply hverify.bind
  intro r hr
  cases r with
  | error reason => exact denies_pure nofun
  | ok u => exact absurd rfl hr

/-- A row is bound to an account. -/
def BindsRow : Recovery.Ask → Prop
  | .set (.email _) row _ => row.ownerHash.isSome
  | _ => False

/-- The row of an email is read or taken away. -/
def TouchesRow : Recovery.Ask → Prop
  | .get (.email _) | .del (.email _) => True
  | _ => False

theorem idle_binds {q : Recovery.Ask} (h : q.idle = true) : ¬BindsRow q := by
  cases q with
  | set key => cases key with
    | email => exact absurd h nofun
    | _ => exact id
  | _ => exact id

theorem denies_orThrow {α β : Type} {r : Except String α} {f : α → Recovery.Call β} {granted : β → Prop}
    (h : ∀ a, r = .ok a → (f a).Denies S granted) : (Recovery.orThrow r >>= f).Denies S granted := by
  cases r with
  | ok a => exact h a rfl
  | error message => exact denies_throw

theorem text_of_validateId {id : Option Json} {i : String} (h : validateId id = .ok i) :
    text id = some i ∧ isId i = true := by
  rw [validateId] at h
  split at h
  · rename_i found
    obtain rfl := Except.ok.inj h
    exact Option.filter_eq_some_iff.mp found
  · exact absurd h nofun

variable {id : Option Json}

theorem refuses_checkMine (hnot : ∀ i, text id = some i → ¬Signs env ("check:" ++ i) owner) :
    (checkMine env id owner).Denies (¬TouchesRow ·) Done := by
  apply denies_orThrow
  intro i hi
  refine (refuses_verifyOwner not_false (hnot i (text_of_validateId hi).1)).bind fun r hr => ?_
  cases r with
  | error reason => exact denies_pure nofun
  | ok hash => exact absurd ⟨hash, rfl⟩ hr

theorem refuses_releaseBox (hnot : ∀ i, text id = some i → ¬Signs env ("release:" ++ i) owner) :
    (releaseBox env id owner).Denies (¬TouchesRow ·) Done := by
  apply denies_orThrow
  intro i hi
  refine (refuses_verifyOwner not_false (hnot i (text_of_validateId hi).1)).bind fun r hr => ?_
  cases r with
  | error reason => exact denies_pure nofun
  | ok hash => exact absurd ⟨hash, rfl⟩ hr

/-- The request was served. -/
def Served200 (r : Response) : Prop := r.status = 200

theorem not_served {status : ℕ} {body : List (String × Field)} (h : status ≠ 200) : ¬Served200 ⟨status, body⟩ := h

theorem denies_asOwner {owner : Option Recovery.OwnerProof} {k : Recovery.OwnerProof → Recovery.Call Response}
    (hk : ∀ o ∈ owner, (k o).Denies (¬TouchesRow ·) Served200) :
    (asOwner id owner k).Denies (¬TouchesRow ·) Served200 := by
  refine denies_question_bind not_false fun limited => ?_
  cases limited with
  | some reason => exact denies_pure (not_served (by decide))
  | none =>
    cases owner with
    | none => cases (text id).filter fun s => isId s <;> exact denies_pure (not_served (by decide))
    | some o => cases (text id).filter fun s => isId s with
      | none => exact denies_pure (not_served (by decide))
      | some i => exact hk o rfl

/-- `/recovery-check` by an account that has not signed for it. -/
theorem refuses_recoveryCheck {owner : Option Recovery.OwnerProof}
    (hnot : ∀ o ∈ owner, ∀ i, text id = some i → ¬Signs env ("check:" ++ i) o) :
    (recoveryCheck env id owner).Denies (¬TouchesRow ·) Served200 := by
  refine denies_asOwner fun o ho => (refuses_checkMine (hnot o ho)).bind fun r hr => ?_
  cases r with
  | error reason => exact denies_pure (not_served (by decide))
  | ok mine => exact absurd ⟨mine, rfl⟩ hr

/-- `/recovery-release` by an account that has not signed for it. -/
theorem refuses_recoveryRelease {owner : Option Recovery.OwnerProof}
    (hnot : ∀ o ∈ owner, ∀ i, text id = some i → ¬Signs env ("release:" ++ i) o) :
    (recoveryRelease env id owner).Denies (¬TouchesRow ·) Served200 := by
  refine denies_asOwner fun o ho => (refuses_releaseBox (hnot o ho)).bind fun r hr => ?_
  cases r with
  | error reason => exact denies_pure (not_served (by decide))
  | ok released => exact absurd ⟨released, rfl⟩ hr

/-! ### A backup -/

theorem binds_verifyOtpDetailed {rawId rawCode : Option Json} :
    (verifyOtpDetailed rawId rawCode).Asks (¬BindsRow ·) := by
  have hbudget {id : String} : (overVerifyBudget id).Asks (¬BindsRow ·) := by
    refine Asks.bind (asks_question (q := Recovery.Ask.incr (.otptry id) verifyWindowSec) not_false) fun replies => ?_
    cases replies with
    | error message => exact asks_throw
    | ok replies => exact asks_pure
  have hjudge {id code : String} : (judgeCode id code).Asks (¬BindsRow ·) := by
    refine Asks.bind (asks_question (q := Recovery.Ask.get (.otp id)) not_false) fun found => ?_
    apply Recovery.asks_orThrow.bind
    intro found
    have hdel : (Recovery.kvDel (.otp id)).Asks (¬BindsRow ·) :=
      Asks.bind (asks_question (q := Recovery.Ask.del (.otp id)) not_false) fun _ => asks_pure
    cases found with
    | none => exact asks_pure
    | some record =>
      apply Asks.bind (asks_question (q := Recovery.Ask.now) not_false)
      intro now
      apply asks_ite (hdel.bind fun _ => asks_pure)
      apply Asks.bind (asks_question (q := Recovery.Ask.compare id code record.codeHash) not_false)
      intro equal
      apply asks_ite (hdel.bind fun _ => asks_pure)
      apply Asks.bind (asks_question (q := Recovery.Ask.now) not_false)
      intro now
      refine Asks.bind (asks_question (q := Recovery.Ask.set (.otp id) _ _) not_false) fun stored => ?_
      exact Recovery.asks_orThrow.bind fun _ => asks_pure
  refine asks_ite asks_pure (hbudget.bind fun spent => asks_ite asks_pure hjudge)

theorem binds_gate {body : RecoveryBody} : (gate body).Asks (¬BindsRow ·) := by
  refine asks_ite (Asks.bind ?_ fun spent => asks_ite asks_pure asks_pure)
    (binds_verifyOtpDetailed.bind fun verdict => asks_pure)
  rw [consumeRecoveryTicket]
  split
  · apply Asks.bind (asks_question (q := Recovery.Ask.getdel _) not_false)
    intro replies
    apply Recovery.asks_orThrow.bind
    intro replies
    cases replies[0]? with
    | none => exact asks_pure
    | some first => exact asks_ite asks_throw asks_pure
  · exact asks_pure

theorem denies_ownerHashFrom {i : String} {owner : Option Recovery.OwnerProof} (hS : S .now)
    (hnot : ∀ o ∈ owner, ¬Signs env i o) : (ownerHashFrom env i owner).Denies S (·.isSome) := by
  cases owner with
  | none => exact denies_pure nofun
  | some o =>
    refine (refuses_verifyOwner hS (hnot o rfl)).bind fun r hr => ?_
    cases r with
    | error reason => exact denies_throw
    | ok hash => exact absurd ⟨hash, rfl⟩ hr

/-- Without a signature for this id no row is bound, and a row that is bound stays. -/
theorem binds_putBox {rawBox : Option Json} {owner : Option Recovery.OwnerProof} {replace : Bool}
    (hnot : ∀ o ∈ owner, ∀ i, text id = some i → isId i = true → ¬Signs env i o) :
    (putBox env id rawBox owner replace).Denies (¬BindsRow ·) fun _ => False := by
  apply denies_orThrow
  intro i hi
  apply denies_orThrow
  intro box _
  have howner (o : Recovery.OwnerProof) (ho : o ∈ owner) : ¬Signs env i o :=
    hnot o ho i (text_of_validateId hi).1 (text_of_validateId hi).2
  refine (denies_ownerHashFrom not_false howner).bind fun ownerHash hnone => ?_
  obtain rfl : ownerHash = none := Option.not_isSome_iff_eq_none.mp hnone
  have hread : (readRow i).Asks (¬BindsRow ·) :=
    Asks.bind (asks_question (q := Recovery.Ask.get (.email i)) not_false) fun _ => Recovery.asks_orThrow
  have hwrite : (writeRow i ⟨box, none, none⟩).Asks (¬BindsRow ·) := by
    apply asks_ite asks_throw
    exact Asks.bind (asks_question (q := Recovery.Ask.set (.email i) _ _) (by simp [BindsRow])) fun _ =>
      Recovery.asks_orThrow
  apply hread.denies_bind
  intro row
  cases row with
  | none => exact denies_ite (fun _ => denies_throw) fun _ => hwrite.denies_bind fun _ => denies_pure not_false
  | some existing => cases hbound : existing.ownerHash with
    | none => simpa only [hbound] using denies_throw
    | some h => simpa only [hbound] using denies_throw

theorem binds_answerConflict {body : RecoveryBody} {unbound : Bool} {box : Box} :
    (answerConflict body unbound box).Asks (¬BindsRow ·) := by
  have hmint : (mintRecoveryTicket body.id).Asks (¬BindsRow ·) := by
    apply Recovery.asks_orThrow.bind
    intro i
    apply Asks.bind (asks_question (q := Recovery.Ask.randomHex) not_false)
    intro ticket
    refine Asks.bind (asks_question (q := Recovery.Ask.set (.ticket ticket) i _) not_false) fun stored => ?_
    exact Recovery.asks_orThrow.bind fun _ => asks_pure
  have hfresh {wanted : Bool} : (freshTicket wanted body.id).Asks (¬BindsRow ·) :=
    asks_ite (hmint.bind fun _ => asks_pure) asks_pure
  exact hfresh.bind fun ticket => asks_pure

/-- `/recovery` of an account that has not signed for this id binds no row. -/
theorem refuses_recovery {body : RecoveryBody}
    (hnot : ∀ o ∈ body.owner, ∀ i, text body.id = some i → isId i = true → ¬Signs env i o) :
    (recovery env body).Asks (¬BindsRow ·) := by
  have halias : (storeAlias env body).Asks (¬BindsRow ·) := asks_storeAlias.mono fun _ => idle_binds
  have hrows : (storeRows env body).Asks (¬BindsRow ·) := by
    apply Asks.bind (binds_putBox hnot).asks.outcome
    intro stored
    cases stored with
    | error e => cases e with
      | backupConflict unbound box => exact binds_answerConflict
      | _ => exact asks_throw
    | ok bound => exact halias.bind fun _ => asks_pure
  apply Asks.bind (asks_question (q := Recovery.Ask.enforceRateLimit) not_false)
  intro limited
  cases limited with
  | some reason => exact asks_pure
  | none =>
    refine asks_ite asks_pure (binds_gate.bind fun refused => ?_)
    cases refused with
    | some response => exact asks_pure
    | none =>
      refine asks_ite (asks_ite asks_pure ?_) hrows
      exact (asks_aliasWriteCheck.mono fun _ => idle_binds).bind fun _ => hrows

end

/-! ## The pilot -/

section

open Pilot

variable {env : Pilot.Env} {body : PilotBody} {owner : Pilot.OwnerProof} {email : String}

/-- The proof of an ask for an email. -/
def pilotInput (env : Pilot.Env) (body : PilotBody) (email : String) (owner : Pilot.OwnerProof) : ProofInput :=
  ⟨.pilot, env.sha256Hex (env.toLowerCase (trim email)), body.pubkey, owner.ts, owner.nonce, env.network, owner.proof⟩

/-- More is asked than the time and the rate. -/
def ActsOnPilot : Pilot.Ask → Prop
  | .now | .enforceRateLimit => False
  | _ => True

def Answered (r : Pilot.Reply) : Prop := ∃ answer, r = .answered answer

theorem refuses_signedRequest (hnot : ¬Checks env.toProofEnv (pilotInput env body email owner)) :
    (signedRequest env body email owner).Denies (¬ActsOnPilot ·) Answered := by
  apply denies_ite (fun _ => denies_pure nofun)
  intro _
  have hnow : Pilot.deps.now.Asks (¬ActsOnPilot ·) := asks_question (q := Pilot.Ask.now) id
  refine (refuses_verify hnow hnot).bind fun signed hsigned => ?_
  cases signed with
  | error reason => exact denies_pure nofun
  | ok u => exact absurd rfl hsigned

/-- `/pilot-request` of an account that has not signed for this inbox. -/
theorem refuses_pilotRequest (howner : body.owner = some owner)
    (hnot : ∀ email, normalizePilotEmail env body.email = some email →
      ¬Checks env.toProofEnv (pilotInput env body email owner)) :
    (pilotRequest env body).Denies (¬ActsOnPilot ·) Answered := by
  unfold pilotRequest
  apply denies_ite (fun _ => denies_pure nofun)
  intro _
  apply denies_ite (fun _ => denies_pure nofun)
  intro _
  cases hemail : normalizePilotEmail env body.email with
  | none => exact denies_pure nofun
  | some email =>
    apply denies_question_bind id
    intro limited
    cases limited with
    | some reason => exact denies_pure nofun
    | none =>
      simp only [howner]
      exact (refuses_signedRequest (hnot email hemail)).tryCatch fun _ => denies_pure nofun

end

/-! ## All the routes -/

/-- One deployment, whose parts check signatures alike. -/
structure Deployment where
  network : NetworkId
  verifies : (pubkey message proof : String) → Bool
  handles : Handles.Env
  identity : Identity.Env
  recovery : Recovery.Env
  pilot : Pilot.Env
  handles_verifies : handles.verifies = verifies
  identity_verifies : identity.verifies = verifies
  recovery_verifies : recovery.verifies = verifies
  pilot_verifies : pilot.verifies = verifies
  recovery_network : recovery.network = network.text
  pilot_network : pilot.network = network

/-- The requests that bring a signature of an account. -/
inductive Route
  | claim (input : ProofInput)
  | release (input : ProofInput)
  | identityLinks (pubkey : String) (accountProof : Identity.AccountProof)
  | identityDetachMine (pubkey provider : String) (accountProof : Identity.AccountProof)
  | identityAttach (proof : Identity.IdentityProof) (body : Identity.AttachBody)
  /-- `id` is the identity whose link it would end. -/
  | identityDetach (id : String) (proof : Identity.IdentityProof) (accountProof : Option Identity.AccountProof)
  | recovery (body : Recovery.RecoveryBody)
  | recoveryCheck (id : Option Json) (owner : Option Recovery.OwnerProof)
  | recoveryRelease (id : Option Json) (owner : Option Recovery.OwnerProof)
  | pilotRequest (body : Pilot.PilotBody) (owner : Pilot.OwnerProof)

namespace Route

/-- A number is written without a colon. -/
def Plain : Route → Prop
  | recovery body => ∀ o ∈ body.owner, ':' ∉ o.tsText.toList
  | recoveryCheck _ owner | recoveryRelease _ owner => ∀ o ∈ owner, ':' ∉ o.tsText.toList
  | _ => True

variable (dep : Deployment) (signed : String → Use → Prop)

/-- The account has signed for what the request is to do. -/
def MeantBy : Route → Prop
  | claim input => Meant signed (.claim (Handles.normalizeHandle dep.handles input.name)) input.pubkey input.network
  | release input =>
    Meant signed (.release (Handles.normalizeHandle dep.handles input.name)) input.pubkey input.network
  | identityLinks pubkey _ | identityDetachMine pubkey _ _ => Meant signed .links pubkey dep.network
  | identityAttach _ body => Meant signed .attach body.address dep.network
  | identityDetach id _ _ => ∃ address, Meant signed (.detach id) address dep.network
  | recovery body =>
    ∃ o ∈ body.owner, ∃ i, Recovery.text body.id = some i ∧ Meant signed (.backup i) o.pubkey dep.network
  | recoveryCheck id owner =>
    ∃ o ∈ owner, ∃ i, Recovery.text id = some i ∧ Meant signed (.check i) o.pubkey dep.network
  | recoveryRelease id owner =>
    ∃ o ∈ owner, ∃ i, Recovery.text id = some i ∧ Meant signed (.letGo i) o.pubkey dep.network
  | pilotRequest body _ => ∃ email, Pilot.normalizePilotEmail dep.pilot body.email = some email ∧
    Meant signed (.pilot (dep.pilot.sha256Hex (dep.pilot.toLowerCase (trim email)))) body.pubkey dep.network

/-- Whatever the stores answer, nothing is done for the request. -/
def Refused : Route → Prop
  | claim input => (Handles.claimHandle dep.handles input).Denies (¬WritesName ·) Done
  | release input => (Handles.releaseHandle dep.handles input).Denies (¬WritesName ·) Done
  | identityLinks pubkey accountProof =>
    (Identity.identityLinks dep.identity dep.network pubkey accountProof).Denies (¬ActsOnLinks ·) LinksGranted
  | identityDetachMine pubkey provider accountProof =>
    (Identity.identityDetachMine dep.identity dep.network pubkey provider accountProof).Denies (¬ActsOnLinks ·)
      LinksGranted
  | identityAttach proof body =>
    (Identity.identityRoute dep.identity dep.network proof (.attach body)).Denies (¬ActsOnLinks ·) LinksGranted
  | identityDetach id proof accountProof =>
    (Identity.identityRoute dep.identity dep.network proof (.detach accountProof)).Asks (¬TakesRow id ·)
  | recovery body => (Recovery.recovery dep.recovery body).Asks (¬BindsRow ·)
  | recoveryCheck id owner => (Recovery.recoveryCheck dep.recovery id owner).Denies (¬TouchesRow ·) Served200
  | recoveryRelease id owner => (Recovery.recoveryRelease dep.recovery id owner).Denies (¬TouchesRow ·) Served200
  | pilotRequest body owner =>
    (Pilot.pilotRequest dep.pilot { body with owner := some owner }).Denies (¬ActsOnPilot ·) Answered

end Route

variable {dep : Deployment}

theorem links_start : "lumenia-handle-links:v1:" = "lumenia-handle-" ++ ProofAction.links.text ++ ":v1:" := by decide

/-- What a recovery route checks, as the others write it. -/
def ownerInput (dep : Deployment) (name : String) (owner : Recovery.OwnerProof) (hplain : ':' ∉ owner.tsText.toList) :
    ProofInput :=
  ⟨.links, name, owner.pubkey, ⟨owner.tsText, hplain⟩, owner.nonce, dep.network, owner.proof⟩

variable {name : String} {owner : Recovery.OwnerProof}

/-- The recovery routes build the message that the others do. -/
theorem recovery_message (hplain : ':' ∉ owner.tsText.toList) :
    owner.message dep.recovery name = (ownerInput dep name owner hplain).message := by
  have hmessage : owner.message dep.recovery name =
      Recovery.handleProofMessage name owner.pubkey owner.tsText owner.nonce dep.network.text :=
    congrArg (Recovery.handleProofMessage name owner.pubkey owner.tsText owner.nonce) dep.recovery_network
  exact hmessage.trans (congrArg (fun start => start ++ name ++ ":" ++ owner.pubkey ++ ":" ++ owner.tsText ++ ":" ++
    owner.nonce ++ ":" ++ dep.network.text) links_start)

theorem meant_of_signs (h : Unforgeable signed dep.verifies) (hplain : ':' ∉ owner.tsText.toList)
    (hsigns : Signs dep.recovery name owner) (hpurpose : purpose.Plain) (haction : purpose.action = .links)
    (hname : purpose.name = name) : Meant signed purpose owner.pubkey dep.network := by
  have hsigned := hsigns.signed
  rw [recovery_message hplain, dep.recovery_verifies] at hsigned
  exact @meant_of_verified _ purpose _ (ownerInput dep name owner hplain) h ⟨hsigns.pubkey, hsigns.nonce⟩ hsigned
    hpurpose haction.symm hname.symm

theorem meant_of_checks {env : ProofEnv} {input : ProofInput} (h : Unforgeable signed dep.verifies)
    (henv : env.verifies = dep.verifies) (hchecks : Checks env input) (hplain : purpose.Plain)
    (haction : input.action = purpose.action) (hname : input.name = purpose.name) :
    Meant signed purpose input.pubkey input.network :=
  meant_of_verified h hchecks.toWellFormed (henv ▸ hchecks.signed) hplain haction hname

namespace Demo

def holder : String := "GAAAAAAAAAAAAAAAAAAAAAAAAAAAAAAAAAAAAAAAAAAAAAAAAAAAAWHF"

def emailId : String := .ofList (List.replicate 64 'e')

theorem plain_ts : ':' ∉ "1000".toList := by decide

theorem fresh_nonce : Recovery.isNonce "00000000" = true := by decide

/-- The holder has asked whether an email backs up the account. -/
def asked : Use := ⟨.check emailId, ⟨"1000", plain_ts⟩, "00000000", .testnet, trivial, fresh_nonce⟩

def hasSigned (pubkey : String) (use : Use) : Prop := pubkey = holder ∧ use = asked

def verifies (pubkey message proof : String) : Bool :=
  pubkey = holder && message = (asked.input holder "").message && proof = "signature"

def handles : Handles.Env where
  sha256Hex s := s
  finite _ := some 1000
  verifies := verifies
  toLowerCase s := s
  federationDomain := "example.org"
  toLowerCase_name _ _ := rfl

def noBox (_ : Option Json) : Except String Recovery.Box := .error "no box"

def deployment : Deployment where
  network := .testnet
  verifies := verifies
  handles := handles
  identity := { handles with validateBox := noBox, quote s := s, oauthConfig _ := false, publicUrl := "", webUrl := "" }
  recovery := ⟨handles.sha256Hex, handles.toLowerCase, verifies, noBox, "testnet", true⟩
  pilot := { handles with pilotMode := true, pilotMaxTx := none, requireProof := true, network := .testnet }
  handles_verifies := rfl
  identity_verifies := rfl
  recovery_verifies := rfl
  pilot_verifies := rfl
  recovery_network := rfl
  pilot_network := rfl

theorem unforgeable : Unforgeable hasSigned verifies := by
  intro pubkey message proof _ h
  simp only [verifies, Bool.and_eq_true, decide_eq_true_eq] at h
  obtain ⟨⟨rfl, hmessage⟩, -⟩ := h
  exact ⟨asked, ⟨rfl, rfl⟩, hmessage⟩

/-- The same signature, brought to let the email go. -/
def tried : Route :=
  .recoveryRelease (some (.str emailId)) (some ⟨holder, some 1000, "1000", "00000000", "signature"⟩)

end Demo

end Lumenia.Sponsor.ProofUses
