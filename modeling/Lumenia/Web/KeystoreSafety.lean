import Lumenia.Web.Keystore
import Lumenia.Theory.Calls
import Mathlib.Algebra.GroupWithZero.Nat

/-!
# The records survive each other

Any number of keystore operations, from any number of tabs, one transaction after another. What a write
puts back is what its call has read before: as long as it does not undo what has been written since, a
record goes only when it is removed, a lock is never taken off in passing, and an address that was
published stays so (`keystore_kept`). With two tabs it may, in each of these respects
(`kind_write_unlocks`).
-/

namespace Lumenia.Web.Keystore

open Dialogue

/-! ## The calls -/

inductive Request
  | savePhase1 (pubkey : String) (seed : Bytes) (kind : Option AccountKind)
  | savePhase2 (pubkey : String) (seed : Bytes) (password : String) (params : ArgonParams)
    (kind : Option AccountKind)
  | setAccountKind (pubkey : String) (kind : AccountKind)
  | pinKindIfMissing (pubkey : String) (kind : AccountKind)
  | markPublished (pubkey : String)
  | setActive (pubkey : String)
  | removeAccount (pubkey : String) (force : Bool)
  deriving DecidableEq

namespace Request

def call : Request → Call Unit
  | savePhase1 pubkey seed kind => Keystore.savePhase1 pubkey seed kind
  | savePhase2 pubkey seed password params kind => do
    let _ ← Keystore.savePhase2 pubkey seed password params kind
    return ()
  | setAccountKind pubkey kind => Keystore.setAccountKind pubkey kind
  | pinKindIfMissing pubkey kind => do
    let _ ← Keystore.pinKindIfMissing pubkey kind
    return ()
  | markPublished pubkey => Keystore.markPublished pubkey
  | setActive pubkey => Keystore.setActive pubkey
  | removeAccount pubkey force => Keystore.removeAccount pubkey force

/-- A write of a kind. -/
def writesKind : Request → Bool
  | setAccountKind .. | pinKindIfMissing .. => true
  | _ => false

end Request

/-- What a call has read last, and its steps: the store before each and after it. -/
structure Progress where
  home : Option String
  record : Option KeyRecord
  published : List String
  steps : List (Store × Store)

namespace Progress

def start : Progress := ⟨none, none, [], []⟩

/-- What is read in a store. -/
def reads (p : Progress) (s : Store) : Ask → Progress
  | .idbGet .home => { p with home := s.home }
  | .idbGet (.account pubkey) => { p with record := s.accounts pubkey }
  | .idbGetAll => { p with published := s.published.getD [] }
  | _ => p

def next (p : Progress) (d : Chance) (s : Store) (q : Ask) : Progress :=
  { p.reads s q with steps := p.steps ++ [(s, (react d s q).2)] }

end Progress

def surroundings : Surroundings Ask.Answer Chance Store Progress := ⟨react, Progress.next⟩

variable {ι : Type}

/-- A write comes where what its call has read is still so. -/
structure Careful (req : ι → Request) (i : ι) (_ : Chance) (w : Tracked ι Store Progress) (q : Ask) :
    Prop where
  /-- Where the kind of a record is written that is locked now, it was locked when it was read. -/
  kind : ∀ record r r', q = .idbPut (.account record) → (req i).writesKind = true →
    w.shared.accounts record.pubkey = some r → r.phase = .locked → (w.calls i).record = some r' →
      r'.phase = .locked
  /-- Where the account that is removed is active, it was so when the pointer was read. -/
  removed : ∀ pubkey, q = .idbDelete (.account pubkey) → w.shared.home = some pubkey →
    (w.calls i).home = some pubkey
  /-- What is published was so when it was read, but for the address itself. -/
  marked : ∀ pubkeys own other, q = .idbPut (.published pubkeys) → req i = .markPublished own →
    other ∈ w.shared.published.getD [] → other ∈ (w.calls i).published ∨ other = own

/-! ## What a step may do -/

/-- A step of this request. -/
structure Safe (req : Request) (s s' : Store) : Prop where
  /-- A record is deleted by a removal of its account, which is not active then. -/
  deleted : ∀ pubkey, s.accounts pubkey ≠ none → s'.accounts pubkey = none →
    (∃ force, req = .removeAccount pubkey force) ∧ s.home ≠ some pubkey
  /-- A lock is taken off by a save of the account under a device key. -/
  unlocked : ∀ pubkey r r', s.accounts pubkey = some r → r.phase = .locked →
    s'.accounts pubkey = some r' → r'.phase = .deviceKey → ∃ seed kind, req = .savePhase1 pubkey seed kind
  published : ∀ pubkey ∈ s.published.getD [], pubkey ∈ s'.published.getD []

section

variable {req : Request} {s s' : Store} {record : KeyRecord} {pubkey : String}

theorem Safe.of_same (haccounts : s'.accounts = s.accounts) (hpublished : s'.published = s.published) :
    Safe req s s' where
  deleted pubkey hsome hnone := by
    rw [haccounts] at hnone
    exact absurd hnone hsome
  unlocked pubkey r r' hr hphase hr' hphase' := by
    rw [haccounts, hr] at hr'
    rw [← Option.some.inj hr', hphase] at hphase'
    cases hphase'
  published pubkey hmem := by rwa [hpublished]

/-- A record is put: what is left to show is that no lock is taken off. -/
theorem Safe.put (h : ∀ r, s.accounts record.pubkey = some r → r.phase = .locked →
      record.phase = .deviceKey → ∃ seed kind, req = .savePhase1 record.pubkey seed kind) :
    Safe req s (s.put (.account record)) where
  deleted pubkey hsome hnone := by
    change Function.update s.accounts record.pubkey (some record) pubkey = none at hnone
    rcases eq_or_ne pubkey record.pubkey with rfl | hne
    · rw [Function.update_self] at hnone
      cases hnone
    · rw [Function.update_of_ne hne] at hnone
      exact absurd hnone hsome
  unlocked pubkey r r' hr hphase hr' hphase' := by
    change Function.update s.accounts record.pubkey (some record) pubkey = some r' at hr'
    rcases eq_or_ne pubkey record.pubkey with rfl | hne
    · rw [Function.update_self] at hr'
      obtain rfl := Option.some.inj hr'
      exact h r hr hphase hphase'
    · rw [Function.update_of_ne hne, hr] at hr'
      rw [← Option.some.inj hr', hphase] at hphase'
      cases hphase'
  published _ hmem := hmem

theorem Safe.delete (hreq : ∃ force, req = .removeAccount pubkey force) (hhome : s.home ≠ some pubkey) :
    Safe req s (s.delete (.account pubkey)) where
  deleted other hsome hnone := by
    change Function.update s.accounts pubkey none other = none at hnone
    rcases eq_or_ne other pubkey with rfl | hne
    · exact ⟨hreq, hhome⟩
    · rw [Function.update_of_ne hne] at hnone
      exact absurd hnone hsome
  unlocked other r r' hr hphase hr' hphase' := by
    change Function.update s.accounts pubkey none other = some r' at hr'
    rcases eq_or_ne other pubkey with rfl | hne
    · rw [Function.update_self] at hr'
      cases hr'
    · rw [Function.update_of_ne hne, hr] at hr'
      rw [← Option.some.inj hr', hphase] at hphase'
      cases hphase'
  published _ hmem := hmem

theorem Safe.mark {pubkeys : List String} (h : ∀ pubkey ∈ s.published.getD [], pubkey ∈ pubkeys) :
    Safe req s (s.put (.published pubkeys)) where
  deleted _ hsome hnone := absurd hnone hsome
  unlocked _ r r' hr hphase hr' hphase' := by
    rw [show (s.put (.published pubkeys)).accounts = s.accounts from rfl, hr] at hr'
    rw [← Option.some.inj hr', hphase] at hphase'
    cases hphase'
  published := h

end

/-- Every step that was made is safe. -/
def AllSafe (req : ι → Request) (w : Tracked ι Store Progress) : Prop :=
  ∀ i, ∀ x ∈ (w.calls i).steps, Safe (req i) x.1 x.2

/-! ## The calls keep it -/

section

variable [DecidableEq ι] {req : ι → Request} {i : ι} {α : Type} {p : Progress}

/-- What a call may have read, whatever its steps have been. -/
abbrev KeepsFrom (req : ι → Request) (i : ι) (home : Option String) (record : Option KeyRecord)
    (published : List String) (call : Call α) : Prop :=
  ∀ steps, Keeps surroundings (Careful req) (AllSafe req) i ⟨home, record, published, steps⟩ call
    fun _ _ => True

variable {home : Option String} {record : Option KeyRecord} {published : List String}

theorem allSafe_meet {d : Chance} {w : Tracked ι Store Progress} {q : Ask} (h : AllSafe req w)
    (hsafe : Safe (req i) w.shared (react d w.shared q).2) : AllSafe req (surroundings.meet i d w q).2 := by
  intro j x hx
  rcases eq_or_ne j i with rfl | hne
  · rw [meet_calls_self] at hx
    rcases List.mem_append.mp hx with hold | hnew
    · exact h j x hold
    · rw [List.mem_singleton.mp hnew]
      exact hsafe
  · rw [meet_calls_ne hne] at hx
    exact h j x hx

theorem safe_refl {r : Request} {s : Store} : Safe r s s := .of_same rfl rfl

/-- A transaction that is rejected changes nothing. -/
theorem safe_transact {r : Request} {d : Chance} {s s' : Store} {a : α} (h : Safe r s s') :
    Safe r s (transact d s a s').2 := by
  unfold transact
  split
  · exact h
  · exact safe_refl

theorem keepsFrom_throw {message : String} :
    KeepsFrom req i home record published (throw message : Call α) := fun _ => .ret trivial

theorem keepsFrom_pure {a : α} : KeepsFrom req i home record published (pure a : Call α) :=
  fun _ => .ret trivial

theorem keepsFrom_ite {c : Prop} [Decidable c] {call call' : Call α}
    (h : c → KeepsFrom req i home record published call) (h' : ¬c → KeepsFrom req i home record published call') :
    KeepsFrom req i home record published (if c then call else call') :=
  fun steps => .ite (fun hc => h hc steps) fun hc => h' hc steps

/-! ### Reading -/

theorem keeps_idbGet {id : Id} : Keeps surroundings (Careful req) (AllSafe req) i p (idbGet id)
    fun r p' => ∀ a, r = .ok a → ∃ s steps, a = Store.get s id ∧
      p' = { p.reads s (.idbGet id) with steps := steps } := by
  refine .ask (fun d w h _ _ => allSafe_meet h (safe_transact safe_refl)) fun d w _ _ _ => ?_
  change Keeps _ _ _ i (p.next d w.shared (.idbGet id))
    (.ret (.ok (transact d w.shared (w.shared.get id) w.shared).1) >>= orThrow) _
  unfold transact
  cases d.rejected with
  | some message => exact .ret fun _ => nofun
  | none =>
    refine .ret fun a ha => ?_
    obtain rfl := Except.ok.inj ha
    exact ⟨w.shared, _, rfl, rfl⟩

theorem keepsFrom_getHomePointer {f : Option String → Call α}
    (hf : ∀ ptr, KeepsFrom req i ptr record published (f ptr)) :
    KeepsFrom req i home record published (getHomePointer >>= f) := by
  intro steps
  refine Keeps.bind (N := fun r p' => ∀ a, r = .ok a → ∃ steps, p' = ⟨a, record, published, steps⟩) ?_
    (fun ptr p' h => ?_) fun _ _ _ => trivial
  · refine keeps_idbGet.bind (fun a p' h => .ret fun ptr hptr => ?_) fun _ _ _ _ => nofun
    obtain ⟨s, steps, rfl, rfl⟩ := h a rfl
    obtain rfl := Except.ok.inj hptr
    exact ⟨steps, by rw [s.toHome_get]; rfl⟩
  · obtain ⟨steps, rfl⟩ := h ptr rfl
    exact hf ptr steps

theorem keepsFrom_getAccountRecord {pubkey : String} {f : Option KeyRecord → Call α}
    (hf : ∀ r, KeepsFrom req i home r published (f r)) :
    KeepsFrom req i home record published (getAccountRecord pubkey >>= f) := by
  intro steps
  refine Keeps.bind (N := fun r p' => ∀ a, r = .ok a → ∃ steps, p' = ⟨home, a, published, steps⟩) ?_
    (fun r p' h => ?_) fun _ _ _ => trivial
  · refine keeps_idbGet.bind (fun a p' h => .ret fun r hr => ?_) fun _ _ _ _ => nofun
    obtain ⟨s, steps, rfl, rfl⟩ := h a rfl
    obtain rfl := Except.ok.inj hr
    exact ⟨steps, by rw [s.toAccount_get]; rfl⟩
  · obtain ⟨steps, rfl⟩ := h r rfl
    exact hf r steps

theorem keepsFrom_getPublishedRecord {f : Option (List String) → Call α}
    (hf : ∀ r, KeepsFrom req i home record (r.getD []) (f r)) :
    KeepsFrom req i home record published (getPublishedRecord >>= f) := by
  intro steps
  refine Keeps.bind (N := fun r p' => ∀ a, r = .ok a → ∃ steps, p' = ⟨home, record, a.getD [], steps⟩) ?_
    (fun r p' h => ?_) fun _ _ _ => trivial
  · refine .ask (fun d w h _ _ => allSafe_meet h (safe_transact safe_refl)) fun d w _ _ _ => ?_
    change Keeps _ _ _ i (Progress.next _ d w.shared .idbGetAll)
      ((.ret (.ok (transact d w.shared w.shared w.shared).1) >>= orThrow) >>= fun all => pure all.published) _
    unfold transact
    cases d.rejected with
    | some message => exact .ret fun _ => nofun
    | none =>
      refine .ret fun a ha => ?_
      obtain rfl := Except.ok.inj ha
      exact ⟨_, rfl⟩
  · obtain ⟨steps, rfl⟩ := h r rfl
    exact hf r steps

/-! ### Writing -/

/-- A question whose answer tells nothing of the store. -/
theorem keepsFrom_question {q : Ask} {f : q.Answer → Call α} (hq : ∀ p s, Progress.reads p s q = p)
    (hsafe : ∀ d w steps, w.calls i = ⟨home, record, published, steps⟩ → Careful req i d w q →
      Safe (req i) w.shared (react d w.shared q).2)
    (hf : ∀ a, KeepsFrom req i home record published (f a)) :
    KeepsFrom req i home record published (question q >>= f) := by
  intro steps
  refine .ask (fun d w h hp hmet => allSafe_meet h (hsafe d w steps hp hmet)) fun d w _ _ _ => ?_
  have hnext : surroundings.next ⟨home, record, published, steps⟩ d w.shared q =
      ⟨home, record, published, steps ++ [(w.shared, (react d w.shared q).2)]⟩ :=
    congrArg (fun p : Progress => { p with steps := steps ++ [(w.shared, (react d w.shared q).2)] })
      (hq ⟨home, record, published, steps⟩ w.shared)
  rw [hnext]
  exact hf _ _

theorem keepsFrom_orThrow {β : Type} {r : Except String β} {f : β → Call α}
    (hf : ∀ b, KeepsFrom req i home record published (f b)) :
    KeepsFrom req i home record published (orThrow r >>= f) := by
  cases r with
  | error message => exact keepsFrom_throw
  | ok b => exact hf b

/-- What is read before is not used after. -/
theorem keepsFrom_bind {β : Type} {call : Call β} {f : β → Call α}
    (h : KeepsFrom req i home record published call)
    (hf : ∀ b home record published, KeepsFrom req i home record published (f b)) :
    KeepsFrom req i home record published (call >>= f) :=
  fun steps => (h steps).bind (fun b p' _ => hf b p'.home p'.record p'.published p'.steps) fun _ _ _ => trivial

theorem keepsFrom_result {β : Type} {r : Except String β} :
    KeepsFrom req i home record published (orThrow r) := by
  cases r with
  | error message => exact keepsFrom_throw
  | ok b => exact keepsFrom_pure

theorem keepsFrom_idbPut {r : StoredRecord}
    (hsafe : ∀ d w steps, w.calls i = ⟨home, record, published, steps⟩ → Careful req i d w (.idbPut r) →
      Safe (req i) w.shared (w.shared.put r)) :
    KeepsFrom req i home record published (idbPut r) :=
  keepsFrom_question (fun _ _ => rfl) (fun d w steps hp hmet => safe_transact (hsafe d w steps hp hmet))
    fun _ => keepsFrom_result

/-! ### The operations -/

theorem keepsFrom_setActive {pubkey : String} :
    KeepsFrom req i home record published (setActive pubkey) :=
  keepsFrom_idbPut fun _ _ _ _ _ => .of_same rfl rfl

theorem keepsFrom_adoptHomeIfUnset {pubkey : String} :
    KeepsFrom req i home record published (adoptHomeIfUnset pubkey) := by
  refine keepsFrom_getHomePointer fun ptr => ?_
  cases ptr with
  | some _ => exact keepsFrom_pure
  | none => exact keepsFrom_setActive

/-- A kind is written back with what was read. -/
theorem keepsFrom_putKind {r : KeyRecord} {kind : AccountKind} (hreq : (req i).writesKind = true) :
    KeepsFrom req i home (some r) published (idbPut (.account { r with kind := some kind })) := by
  refine keepsFrom_idbPut fun d w steps hp hmet => .put fun r' hr' hphase hphase' => ?_
  have hlocked : r.phase = .locked := hmet.kind _ r' r rfl hreq hr' hphase (by rw [hp])
  rw [show ({ r with kind := some kind } : KeyRecord).phase = r.phase from rfl, hlocked] at hphase'
  cases hphase'

theorem keepsFrom_setAccountKind {pubkey : String} {kind : AccountKind} (hreq : (req i).writesKind = true) :
    KeepsFrom req i home record published (setAccountKind pubkey kind) := by
  refine keepsFrom_getAccountRecord fun r => ?_
  cases r with
  | none => exact keepsFrom_pure
  | some r => exact keepsFrom_putKind hreq

theorem keepsFrom_pinKindIfMissing {pubkey : String} {kind : AccountKind}
    (hreq : (req i).writesKind = true) :
    KeepsFrom req i home record published (pinKindIfMissing pubkey kind) := by
  refine keepsFrom_getAccountRecord fun r => ?_
  cases r with
  | none => exact keepsFrom_pure
  | some r =>
    refine keepsFrom_ite (fun _ => keepsFrom_pure) fun _ => ?_
    exact keepsFrom_bind (keepsFrom_putKind hreq) fun _ _ _ _ => keepsFrom_pure

theorem keepsFrom_markPublished {pubkey : String} (hreq : req i = .markPublished pubkey) :
    KeepsFrom req i home record published (markPublished pubkey) := by
  refine keepsFrom_getPublishedRecord fun r => keepsFrom_ite (fun _ => keepsFrom_pure) fun _ => ?_
  refine keepsFrom_idbPut fun d w steps hp hmet => .mark fun other hother => ?_
  rcases hmet.marked _ pubkey other rfl hreq hother with hread | rfl
  · rw [hp] at hread
    exact List.mem_append_left _ (List.mem_eraseDups.mpr hread)
  · exact List.mem_append_right _ (List.mem_singleton_self other)

theorem keepsFrom_idbDelete {pubkey : String} (hreq : ∃ force, req i = .removeAccount pubkey force)
    (hhome : home ≠ some pubkey) :
    KeepsFrom req i home record published (idbDelete (.account pubkey)) := by
  refine keepsFrom_question (fun _ _ => rfl) (fun d w steps hp hmet => safe_transact ?_)
    fun _ => keepsFrom_result
  refine .delete hreq fun hactive => hhome ?_
  have hread := hmet.removed pubkey rfl hactive
  rwa [hp] at hread

theorem keepsFrom_removeAccount {pubkey : String} {force : Bool}
    (hreq : ∃ force, req i = .removeAccount pubkey force) :
    KeepsFrom req i home record published (removeAccount pubkey force) := by
  refine keepsFrom_getHomePointer fun ptr => keepsFrom_ite (fun _ => keepsFrom_pure) fun hptr => ?_
  refine keepsFrom_ite (fun _ => keepsFrom_idbDelete hreq hptr) fun _ => ?_
  refine keepsFrom_getAccountRecord fun r => keepsFrom_ite (fun _ => keepsFrom_pure) fun _ => ?_
  exact keepsFrom_idbDelete hreq hptr

/-- A save of an account, which takes a lock off only under a device key. -/
theorem keepsFrom_save {r : KeyRecord} {kind : Option AccountKind}
    (h : r.phase = .deviceKey → ∃ seed kind, req i = .savePhase1 r.pubkey seed kind) :
    KeepsFrom req i home record published (save r kind) := by
  refine keepsFrom_getAccountRecord fun previous => ?_
  refine keepsFrom_bind (keepsFrom_idbPut fun d w steps _ _ => ?_) fun _ _ _ _ => ?_
  · exact .put fun _ _ _ => h
  exact keepsFrom_ite (fun _ => keepsFrom_adoptHomeIfUnset) fun _ => keepsFrom_pure

theorem keepsFrom_call : KeepsFrom req i home record published (req i).call := by
  cases hreq : req i with
  | savePhase1 pubkey seed kind =>
    refine keepsFrom_question (fun _ _ => rfl) (fun _ _ _ _ _ => safe_refl) fun wrapped => ?_
    exact keepsFrom_orThrow fun wrapped => keepsFrom_save fun _ => ⟨seed, kind, hreq⟩
  | savePhase2 pubkey seed password params kind =>
    refine keepsFrom_bind ?_ fun _ _ _ _ => keepsFrom_pure
    refine keepsFrom_question (fun _ _ => rfl) (fun _ _ _ _ _ => safe_refl) fun locked => ?_
    refine keepsFrom_orThrow fun locked => keepsFrom_bind (keepsFrom_save nofun) fun _ _ _ _ => ?_
    exact keepsFrom_pure
  | setAccountKind pubkey kind => exact keepsFrom_setAccountKind (by rw [hreq]; rfl)
  | pinKindIfMissing pubkey kind =>
    exact keepsFrom_bind (keepsFrom_pinKindIfMissing (by rw [hreq]; rfl)) fun _ _ _ _ => keepsFrom_pure
  | markPublished pubkey => exact keepsFrom_markPublished hreq
  | setActive pubkey => exact keepsFrom_setActive
  | removeAccount pubkey force => exact keepsFrom_removeAccount ⟨force, hreq⟩

/-! ## Whole runs -/

/-- Calls of these requests. -/
abbrev crowd (s : Store) (req : ι → Request) : Crowd ι Ask.Answer String Unit (Tracked ι Store Progress) :=
  started s .start fun i => (req i).call

/-- Nothing else touches the store. -/
def Untouched (_ _ : Store) : Prop := False

variable {met : Condition ι Ask Chance Store Progress}
  {y z : Crowd ι Ask.Answer String Unit (Tracked ι Store Progress)}

/-- A move is a step of one of the calls. -/
theorem moves_recorded (h : Moves (surroundings.Steps met) (Stirs Untouched) y z) :
    ∃ i, (y.world.shared, z.world.shared) ∈ (z.world.calls i).steps := by
  cases h with
  | @answer i q k a w w' prog hask hstep =>
    obtain ⟨d, -, hmeet⟩ := hstep
    obtain rfl : (surroundings.meet i d w q).2 = w' := congrArg Prod.snd hmeet
    refine ⟨i, ?_⟩
    dsimp only
    rw [meet_calls_self]
    exact List.mem_append_right _ (List.mem_singleton_self _)
  | stir hstir =>
    obtain ⟨s, hs, -⟩ := hstir
    exact hs.elim

theorem allSafe_leads {s : Store}
    (hy : Leads (surroundings.Steps (Careful req)) (Stirs Untouched) (crowd s req) y) : AllSafe req y.world := by
  have hstart : AllSafe req (⟨s, fun _ => .start⟩ : Tracked ι Store Progress) :=
    fun _ _ hx => absurd hx List.not_mem_nil
  have hcalls : ∀ i, Keeps surroundings (Careful req) (AllSafe req) i .start (req i).call fun _ _ => True :=
    fun i => keepsFrom_call []
  exact (leads_keeps hstart (fun _ _ _ => nofun) hcalls hy).1

/-- **The records survive each other** in every run in which no write undoes what has been written since
its call has read: each step is safe, and what is published stays so. -/
theorem keystore_kept {s : Store}
    (hy : Leads (surroundings.Steps (Careful req)) (Stirs Untouched) (crowd s req) y) :
    AllSafe req y.world ∧ ∀ z, Leads (surroundings.Steps (Careful req)) (Stirs Untouched) y z →
      ∀ pubkey ∈ y.world.shared.published.getD [], pubkey ∈ z.world.shared.published.getD [] := by
  refine ⟨allSafe_leads hy, fun z hz pubkey hpublished => ?_⟩
  induction hz with
  | refl => exact hpublished
  | tail hz hmove ih =>
    obtain ⟨i, hstep⟩ := moves_recorded hmove
    exact (allSafe_leads ((hy.trans hz).tail hmove) i _ hstep).published pubkey ih

end

namespace Demo

local instance inhabited : NeZero 2 := ⟨by decide⟩

/-- The platform's cryptography, and transactions that are not rejected. -/
def done : Chance := ⟨none, .ok ⟨[1], [2], 3⟩, .ok ⟨[4], [5], [6], 7⟩⟩

def record (phase : Phase) : KeyRecord := ⟨"G", phase, [0], [0], none, none, none, some .user⟩

/-- The account "G" is held under a device key, and "H" is active. -/
def held : Store := ⟨some "H", none, Function.update (fun _ => none) "G" (some (record .deviceKey))⟩

/-- A check of the steps of a run. -/
def careful (req : Fin 2 → Request) (i : Fin 2) (_ : Chance) (w : Tracked (Fin 2) Store Progress) : Ask → Bool
  | .idbPut (.account record) => !(req i).writesKind ||
    (w.shared.accounts record.pubkey).map KeyRecord.phase ≠ some .locked
  | .idbPut (.published _) => w.shared.published = none
  | .idbDelete (.account pubkey) => w.shared.home ≠ some pubkey
  | _ => true

theorem careful_of_check {req : Fin 2 → Request} {i : Fin 2} {d : Chance} {w : Tracked (Fin 2) Store Progress}
    {q : Ask} (h : careful req i d w q = true) : Careful req i d w q where
  kind record r r' hq hreq hr hphase := by
    subst hq
    simp [careful, hreq, hr, hphase] at h
  removed pubkey hq hhome := by
    subst hq
    simp [careful, hhome] at h
  marked pubkeys own other hq _ hother := by
    subst hq
    have hnone : w.shared.published = none := of_decide_eq_true h
    rw [hnone] at hother
    cases hother

def lock : Request := .savePhase2 "G" [0] "password" ⟨48, 2, 1⟩ none

/-- The account is locked and published, one after the other. -/
def inTurn (i : Fin 2) : Request := if i = 0 then lock else .markPublished "G"

abbrev after (req : Fin 2 → Request) (is : List (Fin 2)) :
    Crowd (Fin 2) Ask.Answer String Unit (Tracked (Fin 2) Store Progress) :=
  (crowd held req).play surroundings.meet (is.map (·, done))

/-- The kind is written by a call that has read the record before it was locked. -/
def unlocking (i : Fin 2) : Request := if i = 0 then .setAccountKind "G" .user else lock

/-- The account is made active after the pointer was read. -/
def removing (i : Fin 2) : Request := if i = 0 then .removeAccount "G" true else .setActive "G"

/-- Two addresses are published at once. -/
def marking (i : Fin 2) : Request := if i = 0 then .markPublished "G" else .markPublished "H"

/-- A step of the first call. -/
abbrev Steps (req : Fin 2 → Request) (is : List (Fin 2)) (P : Store → Store → Prop) : Prop :=
  ∃ x ∈ ((after req is).world.calls 0).steps, P x.1 x.2

theorem runs : ((crowd held inTurn).fairly surroundings.meet (careful inTurn)
      ([0, 0, 0, 0, 1, 1].map (·, done)) = true ∧
      ((after inTurn [0, 0, 0, 0, 1, 1]).world.shared.accounts "G").map KeyRecord.phase = some .locked ∧
      (after inTurn [0, 0, 0, 0, 1, 1]).world.shared.published = some ["G"]) ∧
    (Steps unlocking [0, 1, 1, 1, 1, 0] fun s s' =>
      (s.accounts "G").map KeyRecord.phase = some .locked ∧
        (s'.accounts "G").map KeyRecord.phase = some .deviceKey) ∧
    (Steps removing [0, 1, 0] fun s s' =>
      s.home = some "G" ∧ s.accounts "G" ≠ none ∧ s'.accounts "G" = none) ∧
    (Steps marking [0, 1, 1, 0] fun s s' => s.published = some ["H"] ∧ s'.published = some ["G"]) := by
  decide +kernel

theorem leads_after {req : Fin 2 → Request} {is : List (Fin 2)} :
    Leads (surroundings.Steps fun _ _ _ _ => True) (Stirs Untouched) (crowd held req) (after req is) :=
  leads_meet (fun _ _ _ _ _ => trivial) fairly_true

end Demo

/-- An account is locked and published. -/
theorem keystore_kept_in_turn :
    (Demo.after Demo.inTurn [0, 0, 0, 0, 1, 1]).world.shared.published = some ["G"] ∧
      AllSafe Demo.inTurn (Demo.after Demo.inTurn [0, 0, 0, 0, 1, 1]).world :=
  ⟨Demo.runs.1.2.2, (keystore_kept (leads_meet (fun _ _ _ _ => Demo.careful_of_check) Demo.runs.1.1)).1⟩

/-- **The lock is taken off** by a write of the account's kind, the record of which was read before. A
removal that has read the pointer before deletes the account that is active, and of two addresses that
are published at once one is lost. -/
theorem kind_write_unlocks :
    (¬∀ (s : Store) (req : Fin 2 → Request) y,
      Leads (surroundings.Steps fun _ _ _ _ => True) (Stirs Untouched) (crowd s req) y →
        ∀ i, ∀ x ∈ (y.world.calls i).steps, ∀ pubkey r r', x.1.accounts pubkey = some r → r.phase = .locked →
          x.2.accounts pubkey = some r' → r'.phase = .deviceKey →
            ∃ seed kind, req i = .savePhase1 pubkey seed kind) ∧
    (¬∀ (s : Store) (req : Fin 2 → Request) y,
      Leads (surroundings.Steps fun _ _ _ _ => True) (Stirs Untouched) (crowd s req) y →
        ∀ i, ∀ x ∈ (y.world.calls i).steps, ∀ pubkey, x.1.accounts pubkey ≠ none →
          x.2.accounts pubkey = none → x.1.home ≠ some pubkey) ∧
    ¬∀ (s : Store) (req : Fin 2 → Request) y,
      Leads (surroundings.Steps fun _ _ _ _ => True) (Stirs Untouched) (crowd s req) y →
        ∀ i, ∀ x ∈ (y.world.calls i).steps, ∀ pubkey ∈ x.1.published.getD [],
          pubkey ∈ x.2.published.getD [] := by
  obtain ⟨-, ⟨x, hx, hlocked, hdevice⟩, ⟨x', hx', hhome, hsome, hnone⟩, x'', hx'', hbefore, hafter⟩ := Demo.runs
  refine ⟨fun hall => ?_, fun hall => ?_, fun hall => ?_⟩
  · obtain ⟨r, hr, hphase⟩ := Option.map_eq_some_iff.mp hlocked
    obtain ⟨r', hr', hphase'⟩ := Option.map_eq_some_iff.mp hdevice
    obtain ⟨seed, kind, hreq⟩ := hall _ _ _ Demo.leads_after 0 x hx "G" r r' hr hphase hr' hphase'
    cases hreq
  · exact hall _ _ _ Demo.leads_after 0 x' hx' "G" hsome hnone hhome
  · have hmem := hall _ _ _ Demo.leads_after 0 x'' hx'' "H" (by rw [hbefore]; exact List.mem_singleton_self _)
    rw [hafter] at hmem
    revert hmem
    decide

end Lumenia.Web.Keystore
