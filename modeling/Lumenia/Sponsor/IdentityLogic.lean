import Lumenia.Sponsor.IdentityStore

/-!
# What the calls over identity links can come to ask

A call stores the memory of a proof only once it has checked the signature, and the one-time keys of
an OAuth round trip only where it mints them. All else it asks is `Ordinary`.
-/

namespace Lumenia.Sponsor.Proofs

open Dialogue Stellar

/-- What has been checked of a proof when its memory is stored. -/
structure Checks (env : ProofEnv) (input : ProofInput) : Prop extends input.WellFormed where
  signed : env.verifies input.pubkey input.message input.proof = true

theorem asks_verifyHandleProof {Q : Type} {A : Q → Type} {ε : Type} {deps : ProofDeps A ε}
    {env : ProofEnv} {input : ProofInput} {K : Q → Prop} (hnow : deps.now.Asks K)
    (hset : Checks env input →
      (deps.kvSetNx (env.sha256Hex input.message) Recovery.proofMemorySec).Asks K) :
    (verifyHandleProof deps env input).Asks K := by
  unfold verifyHandleProof
  split
  · exact asks_pure
  · next hpubkey =>
    apply hnow.bind
    intro now
    apply asks_ite asks_pure
    split
    · exact asks_pure
    · next hnonce =>
      split
      · exact asks_pure
      · next hsigned =>
        simp only [Bool.not_eq_false] at hpubkey hnonce hsigned
        exact (hset ⟨⟨hpubkey, hnonce⟩, hsigned⟩).bind fun fresh => asks_pure

end Lumenia.Sponsor.Proofs

namespace Lumenia.Sponsor.Identity

open Dialogue Proofs

/-- The code of a one-time key. -/
def Key.code : Key → Option String
  | .state code | .ticket code => some code
  | _ => none

/-- Nothing is stored under a one-time key, and no proof is remembered. -/
def Ask.Ordinary : Ask → Prop
  | .run (.set key ..) => key.code = none
  | .run (.setNx ..) => False
  | _ => True

section

variable {α : Type} {env : Env} {K : Ask → Prop} {key : Key} {resolved : ResolvedIdentity}
  {address : String} {network : NetworkId}

theorem asks_orThrow {r : Except String α} : (orThrow r).Asks K := by
  cases r with
  | ok a => exact asks_pure
  | error message => exact asks_throw

theorem asks_thrown {q : Ask} {f : q.Answer → Call α} (hq : K q) (hf : ∀ a, (f a).Asks K) :
    (ask q >>= f).Asks K :=
  Asks.bind (asks_question hq) hf

theorem asks_entry {c : Command} (hc : K (.run c)) : (entry c).Asks K :=
  asks_thrown hc fun _ => asks_orThrow

theorem asks_kvGet (hK : ∀ q, q.Ordinary → K q) : (kvGet key).Asks K :=
  (asks_entry (hK (.run (.get key)) trivial)).bind fun _ => asks_pure

theorem asks_kvDel (hK : ∀ q, q.Ordinary → K q) : (kvDel key).Asks K :=
  (asks_entry (hK (.run (.del key)) trivial)).bind fun _ => asks_pure

theorem asks_kvSet (hK : ∀ q, q.Ordinary → K q) {value : key.Entry} {json : String}
    {ttlSec : Option ℕ} (hkey : key.code = none) : (kvSet key value json ttlSec).Asks K :=
  asks_ite asks_throw ((asks_entry (hK (.run (.set key value _)) hkey)).bind fun _ => asks_pure)

theorem asks_kvSetNx {hash : String} {ttlSec : ℕ}
    (hproof : ∀ hash ttl, K (.run (.setNx (.proof hash) () ttl))) :
    (deps.kvSetNx hash ttlSec).Asks K := by
  refine (asks_entry (hproof _ _)).bind fun first => ?_
  cases first with
  | ok taken => exact asks_pure
  | error message => exact asks_throw

theorem asks_writeLinks (hK : ∀ q, q.Ordinary → K q) {links : List LinkSummary} :
    (writeLinks env network address links).Asks K :=
  asks_ite (asks_kvDel hK) (asks_kvSet hK rfl)

theorem asks_readLinks (hK : ∀ q, q.Ordinary → K q) : (readLinks network address).Asks K :=
  (asks_kvGet hK).bind fun _ => asks_pure

/-- Nothing is asked but what the registry of handles is asked. -/
theorem asks_relabel_handles (hK : ∀ q, K (.handles q)) (call : Handles.Call α) :
    (call.relabel Ask.handles fun _ a => a : Call α).Asks K := by
  induction call with
  | ret r => cases r with
    | ok a => exact asks_pure
    | error e => exact asks_throw
  | ask q k ih => exact asks_ask.mpr ⟨hK q, ih⟩

theorem asks_handleOf (hK : ∀ q, K (.handles q)) : (handleOf address).Asks K :=
  asks_relabel_handles hK _

theorem asks_consumeTicket (hK : ∀ q, q.Ordinary → K q) {ticket : String} :
    (consumeTicket ticket).Asks K := by
  refine asks_ite asks_pure ((asks_kvGet hK).bind fun found => ?_)
  cases found with
  | none => exact asks_pure
  | some t => exact (asks_kvDel hK).bind fun _ => asks_pure

theorem asks_resolveProof (hK : ∀ q, q.Ordinary → K q) {proof : IdentityProof} :
    (resolveProof env proof).Asks K := by
  cases proof with
  | passkey id proof =>
    exact asks_ite asks_pure ((asks_kvGet hK).bind fun row => asks_ite asks_pure asks_pure)
  | email rawEmail code =>
    refine asks_ite asks_pure (asks_thrown (hK _ trivial) fun verified => ?_)
    apply asks_orThrow.bind
    intro verified
    apply asks_ite asks_pure
    exact asks_orThrow.bind fun _ => asks_pure
  | ticket ticket =>
    refine (asks_consumeTicket hK).bind fun t => ?_
    cases t with
    | none => exact asks_pure
    | some t => exact asks_orThrow.bind fun _ => asks_pure

/-- The memory of a proof is stored once it has been checked. -/
theorem asks_verify (hK : ∀ q, q.Ordinary → K q) {input : ProofInput}
    (hproof : Checks env.toProofEnv input → ∀ hash ttl, K (.run (.setNx (.proof hash) () ttl))) :
    (verifyHandleProof deps env.toProofEnv input).Asks K :=
  asks_verifyHandleProof (asks_question (hK _ trivial)) fun hchecks => asks_kvSetNx (hproof hchecks)

theorem asks_createdAtOf (hK : K .now) {existing : Option IdentityRow} :
    (createdAtOf existing).Asks K := by
  cases existing with
  | none => exact asks_question hK
  | some existing => exact asks_pure

theorem asks_fileRow (hK : ∀ q, q.Ordinary → K q) {box : Option Json} {passkeyProof : Option String}
    {existing : Option IdentityRow} :
    (fileRow env resolved address network box passkeyProof existing).Asks K := by
  refine (asks_readLinks hK).bind fun links => asks_ite asks_pure ?_
  refine (asks_createdAtOf (hK _ trivial)).bind fun createdAt => asks_orThrow.bind fun box => ?_
  exact (asks_kvSet hK rfl).bind fun _ => (asks_writeLinks hK).bind fun _ => asks_pure

theorem asks_attachIdentity (hK : ∀ q, q.Ordinary → K q) {box : Option Json}
    {passkeyProof : Option String} {accountProof : Option AccountProof}
    (hproof : ∀ p ∈ accountProof,
      Checks env.toProofEnv (p.input attachProofName address network) →
      ∀ hash ttl, K (.run (.setNx (.proof hash) () ttl))) :
    (attachIdentity env resolved address network box passkeyProof accountProof).Asks K := by
  unfold attachIdentity
  apply asks_ite asks_pure
  cases accountProof with
  | none => exact asks_pure
  | some accountProof =>
    refine (asks_verify hK (hproof accountProof rfl)).bind fun signed => ?_
    cases signed with
    | error reason => exact asks_pure
    | ok u =>
      refine (asks_kvGet hK).bind fun existing => ?_
      cases existing.filter (·.address ≠ address) with
      | some other => exact (asks_handleOf fun _ => hK _ trivial).bind fun handle => asks_pure
      | none => exact asks_fileRow hK

/-- `detachIdentity` once it has found the row. -/
theorem asks_detachIdentity (hK : ∀ q, q.Ordinary → K q) {accountProof : Option AccountProof}
    (hproof : ∀ p ∈ accountProof, ∀ address,
      Checks env.toProofEnv (p.input (detachProofPrefix ++ resolved.id) address network) →
      ∀ hash ttl, K (.run (.setNx (.proof hash) () ttl))) :
    (detachIdentity env resolved network accountProof).Asks K := by
  refine (asks_kvGet hK).bind fun row => ?_
  cases row with
  | none => exact asks_pure
  | some row =>
    cases accountProof with
    | none => exact asks_pure
    | some accountProof =>
      refine (asks_verify hK (hproof accountProof rfl row.address)).bind fun signed => ?_
      cases signed with
      | error reason => exact asks_pure
      | ok u =>
        refine (asks_kvDel hK).bind fun _ => (asks_readLinks hK).bind fun links => ?_
        exact (asks_writeLinks hK).bind fun _ => asks_pure

theorem asks_deleteRows (hK : ∀ q, q.Ordinary → K q) {links : List LinkSummary} :
    (deleteRows address links).Asks K := by
  induction links with
  | nil => exact asks_pure
  | cons link links ih =>
    refine (asks_kvGet hK).bind fun row => ?_
    cases row.filter (·.address = address) with
    | none => exact ih
    | some row => exact (asks_kvDel hK).bind fun _ => ih

theorem asks_detachProviderByAccount (hK : ∀ q, q.Ordinary → K q) {provider : Provider} :
    (detachProviderByAccount env address network provider).Asks K := by
  refine (asks_readLinks hK).bind fun links => (asks_deleteRows hK).bind fun _ => ?_
  exact (asks_writeLinks hK).bind fun _ => asks_pure

theorem asks_listLinks (hK : ∀ q, q.Ordinary → K q) : (listLinks address network).Asks K :=
  asks_ite asks_pure ((asks_readLinks hK).bind fun _ => asks_pure)

/-! ### Routes -/

theorem asks_rateLimited (hK : ∀ q, q.Ordinary → K q) {k : Call Reply} (hk : k.Asks K) :
    (rateLimited k).Asks K := by
  refine asks_thrown (hK _ trivial) fun limited => ?_
  cases limited with
  | none => exact hk
  | some reason => exact asks_pure

theorem asks_emailTaken (hK : ∀ q, q.Ordinary → K q) : (emailTaken env resolved address).Asks K := by
  unfold emailTaken
  cases resolved.label.filter fun label => resolved.provider = .email ∧ label ≠ "" with
  | none => exact asks_pure
  | some email =>
    exact asks_ite asks_pure
      (asks_thrown (hK _ trivial) fun hash => asks_orThrow.bind fun _ => asks_pure)

/-- What comes of an operation stores no one-time key. -/
theorem asks_operate (hK : ∀ q, q.Ordinary → K q) {operation : Operation}
    (hproof : ∀ hash ttl, K (.run (.setNx (.proof hash) () ttl))) :
    (operate env network resolved operation).Asks K := by
  cases operation with
  | check =>
    refine Asks.bind ((asks_kvGet hK).bind fun row => ?_) fun _ => asks_pure
    cases row with
    | none => exact asks_pure
    | some row => exact (asks_handleOf fun _ => hK _ trivial).bind fun _ => asks_pure
  | fetch =>
    refine Asks.bind ((asks_kvGet hK).bind fun row => ?_) fun found => ?_
    · cases row with
      | none => exact asks_pure
      | some row => exact (asks_handleOf fun _ => hK _ trivial).bind fun _ => asks_pure
    · cases found with
      | none => exact asks_pure
      | some found => exact asks_pure
  | detach accountProof =>
    refine (asks_detachIdentity hK fun _ _ _ _ => hproof).bind fun done => ?_
    cases done with
    | ok => exact asks_pure
    | refused reason unauthorized => exact asks_pure
  | attach body =>
    refine (asks_emailTaken hK).bind fun taken => asks_ite asks_pure ?_
    refine (asks_attachIdentity hK fun _ _ _ => hproof).bind fun result => ?_
    cases result with
    | ok provider id links => exact asks_pure
    | refused reason conflict => exact asks_pure

theorem asks_identityDetachMine (hK : ∀ q, q.Ordinary → K q) {pubkey provider : String}
    {accountProof : AccountProof}
    (hproof : Checks env.toProofEnv (accountProof.input "" pubkey network) →
      ∀ hash ttl, K (.run (.setNx (.proof hash) () ttl))) :
    (identityDetachMine env network pubkey provider accountProof).Asks K := by
  apply asks_rateLimited hK
  cases providers.find? (·.text = provider) with
  | none => exact asks_pure
  | some provider =>
    refine (asks_verify hK hproof).bind fun okProof => ?_
    cases okProof with
    | error reason => exact asks_pure
    | ok u => exact (asks_detachProviderByAccount hK).bind fun _ => asks_pure

theorem asks_identityLinks (hK : ∀ q, q.Ordinary → K q) {pubkey : String}
    {accountProof : AccountProof}
    (hproof : Checks env.toProofEnv (accountProof.input "" pubkey network) →
      ∀ hash ttl, K (.run (.setNx (.proof hash) () ttl))) :
    (identityLinks env network pubkey accountProof).Asks K := by
  refine asks_rateLimited hK ((asks_verify hK hproof).bind fun okProof => ?_)
  cases okProof with
  | error reason => exact asks_pure
  | ok u => exact (asks_listLinks hK).bind fun _ => asks_pure

/-! ### Commands -/

/-- What a command comes to, if it comes to an answer. -/
theorem keeps_run {ι P : Type} [DecidableEq ι] {next : P → Chance → Store → Ask → P}
    {met : Condition ι Ask Chance Store P} {inv : Tracked ι Store P → Prop} {i : ι} {p : P}
    {c : Command} {N : Except String (Except String c.Answer) → P → Prop}
    (hinv : ∀ d w, inv w → w.calls i = p → met i d w (.run c) →
      inv ((Surroundings.mk react next).meet i d w (.run c)).2)
    (hN : ∀ d w, inv w → w.calls i = p → met i d w (.run c) →
      N (d.fate.exec w.shared.now w.shared.cells c).1 (next p d w.shared (.run c))) :
    Keeps ⟨react, next⟩ met inv i p (entry c) N := by
  refine .ask hinv fun d w hw hp hmet => ?_
  have hend := hN d w hw hp hmet
  change Keeps ⟨react, next⟩ met inv i (next p d w.shared (.run c))
    (orThrow (d.fate.exec w.shared.now w.shared.cells c).1) N
  cases heq : (d.fate.exec w.shared.now w.shared.cells c).1 with
  | ok a => exact .ret (heq ▸ hend)
  | error message => exact .ret (heq ▸ hend)

end

end Lumenia.Sponsor.Identity
