import Lumenia.Contracts.LumenDropReading
import Lumenia.Web.Claim

/-!
# What the app says of a link, and what the contract does

`poolStatusOf` and `readClaimState` decide on a record by formulas of their own. On the records of
every reachable world, with the device's clock at the ledger's time, they agree with the exits of the
contract.
-/

namespace Lumenia.Web.Claim

open Soroban Dialogue LumenDrop

/-! ## Pools -/

def V2LinkKind.tag : V2LinkKind → UInt8
  | single => tagSingle
  | group => tagGroup

/-- The exit that a claim of this kind asks for. -/
def V2LinkKind.exit (link : BytesN 32) (payout : String) (sig : BytesN 64) : V2LinkKind → Exit String
  | single => .claim link payout sig
  | group => .claimShare link payout sig

section

variable {G : Governance String}

/-- A claim at the time `t` that only the record can stand against: the link's key has signed it, the
payout has no share yet, and the asset contract lets it be paid. -/
structure Claimant (env : Env String) (w : LumenDrop.World G) (link : BytesN 32) (kind : V2LinkKind)
    (t : ℕ) (c : Ctx String) (payout : String) (sig : BytesN 64) : Prop where
  time : c.timestamp = t
  pays : AssetPays env c w
  signed : env.ed25519Verify link (message env kind.tag link payout) sig = true
  new : kind = .group → w.storage.lookup (DataKey.poolClaimed link payout) = none

/-- The sender takes a pool back at the time `t`. -/
structure TakeBack (env : Env String) (w : LumenDrop.World G) (p : Pool String) (t : ℕ)
    (c : Ctx String) : Prop where
  time : c.timestamp = t
  pays : AssetPays env c w
  signed : c.authorized p.sender = true

variable {env : Env String} {w : LumenDrop.World G} {link : BytesN 32} {p : Pool String} {t : ℕ}
  {c : Ctx String} {payout : String} {sig : BytesN 64}

theorem poolStatusOf_claimant (h : Reachable env w) (hp : getPool w link = some p)
    (hc : Claimant env w link .group t c payout sig) :
    (poolStatusOf p t = .open ↔ Succeeds env c w (.claimShare link payout sig)) ∧
      (poolStatusOf p t = .full ↔
        t < p.expiry ∧ RefusedAsEmpty env c w (.claimShare link payout sig)) := by
  have hempty := empty_iff (h.sound.pools hp)
  rw [h.claimShare_iff hc.pays hp (hc.new rfl) hc.signed, h.claimShare_empty_iff hp, hc.time]
  simp only [poolStatusOf, hempty]
  constructor
  · split_ifs <;> simp <;> omega
  · split_ifs <;> simp <;> omega

theorem poolStatusOf_takeBack (h : Reachable env w) (hp : getPool w link = some p)
    (hc : TakeBack env w p t c) :
    (poolStatusOf p t = .expired ↔ Succeeds env c w (.reclaimPool link)) ∧
      (poolStatusOf p t = .closed ↔ RefusedAsEmpty env c w (.reclaimPool link)) := by
  rw [h.reclaimPool_iff hc.pays hp hc.signed, h.reclaimPool_empty_iff hp hc.signed, hc.time]
  unfold poolStatusOf
  constructor
  · split_ifs <;> simp <;> omega
  · split_ifs <;> simp <;> omega

end

/-! ## Reading the escrows -/

section

variable {G : Governance String} (worlds : String → LumenDrop.World G) (link : BytesN 32)

/-- What an escrow holds under the link. -/
def recordOf (contract : String) : (view : View) → Option (Record view)
  | .getDrop => getDrop (worlds contract) link
  | .getPool => getPool (worlds contract) link

/-- What came of asking one escrow: whether it holds the record, where it answered. -/
structure Reading where
  view : View
  contract : String
  holds : Option Bool

/-- The escrows as they stand at one moment, which answer or do not. -/
inductive Reads (t : ℕ) : List Reading → (q : Ask) → q.Answer → List Reading → Prop
  | now {h : List Reading} {ms : ℕ} (hms : ms / 1000 = t) : Reads t h .now ms h
  | record {h : List Reading} {contract : String} {view : View} :
    Reads t h (.readView contract view) (.ok (recordOf worlds link contract view))
      (h ++ [⟨view, contract, some (recordOf worlds link contract view).isSome⟩])
  | unread {h : List Reading} {contract message : String} {view : View} :
    Reads t h (.readView contract view) (.error message) (h ++ [⟨view, contract, none⟩])

/-- The first of these pairs whose escrow holds the record. -/
def firstHolder (asked : List (View × String)) : Option (View × String) :=
  asked.find? fun vc => (recordOf worlds link vc.2 vc.1).isSome

end

section

variable {G : Governance String} {worlds : String → LumenDrop.World G} {link : BytesN 32} {t : ℕ}
  {h : List Reading} {none' : V2LinkKind}

/-- One escrow has not answered. -/
def Gap (h : List Reading) : Prop := ∃ e ∈ h, e.holds = none

/-- What the search ends with. -/
inductive Searched (worlds : String → LumenDrop.World G) (link : BytesN 32) (t : ℕ)
    (none' : V2LinkKind) (asked : List (View × String)) :
    Except Thrown (ClaimState × V2LinkKind) → List Reading → Prop
  | found {view : View} {contract : String} {record : Record view} {h : List Reading}
    (hrecord : recordOf worlds link contract view = some record)
    (hread : ⟨view, contract, some true⟩ ∈ h)
    (hfirst : ¬Gap h → firstHolder worlds link asked = some (view, contract)) :
    Searched worlds link t none' asked (.ok (stateOf t view record, kindOf view)) h
  | absent {h : List Reading} (hgap : ¬Gap h) (hnone : ∀ e ∈ h, e.holds ≠ some true)
    (hall : ∀ vc ∈ asked, recordOf worlds link vc.2 vc.1 = none) :
    Searched worlds link t none' asked (.ok (.noSuchDrop, none')) h
  | unread {message : String} {h : List Reading} (hgap : Gap h)
    (hnone : ∀ e ∈ h, e.holds ≠ some true) :
    Searched worlds link t none' asked (.error (.error message)) h

theorem gap_concat {e : Reading} : Gap (h ++ [e]) ↔ Gap h ∨ e.holds = none := by
  simp [Gap, or_and_right, exists_or]

/-- The first escrow had no record, or did not answer. -/
theorem Searched.cons {view : View} {contract : String} {asked : List (View × String)}
    {r : Except Thrown (ClaimState × V2LinkKind)}
    (hno : ¬Gap h → recordOf worlds link contract view = none)
    (hs : Searched worlds link t none' asked r h) :
    Searched worlds link t none' ((view, contract) :: asked) r h := by
  cases hs with
  | found hrecord hread hfirst =>
    refine .found hrecord hread fun hgap => ?_
    rw [firstHolder, List.find?_cons_of_neg (by simp [hno hgap])]
    exact hfirst hgap
  | absent hgap hnone hall =>
    refine .absent hgap hnone fun vc hvc => ?_
    rcases List.mem_cons.mp hvc with rfl | hrest
    · exact hno hgap
    · exact hall vc hrest
  | unread hgap hnone => exact .unread hgap hnone

theorem wp_searchRecord {asked : List (View × String)} {unread : Bool}
    (hunread : unread = true ↔ Gap h) (hnone : ∀ e ∈ h, e.holds ≠ some true) :
    (searchRecord t none' asked unread).wp (Reads worlds link t)
      (fun r h' => (Gap h → Gap h') ∧ Searched worlds link t none' asked r h') h := by
  induction asked generalizing unread h with
  | nil =>
    rw [searchRecord]
    split
    · next hyes => exact ⟨id, .unread (hunread.mp hyes) hnone⟩
    · next hno => exact ⟨id, .absent (fun hgap => hno (hunread.mpr hgap)) hnone nofun⟩
  | cons vc rest ih =>
    obtain ⟨view, contract⟩ := vc
    rw [searchRecord, wp_bind, wp_question]
    intro a h' hreads
    simp only [onValue_ok]
    cases hreads with
    | unread =>
      have hgap : Gap (h ++ [(⟨view, contract, none⟩ : Reading)]) := gap_concat.mpr (.inr rfl)
      refine wp_mono ?_ (ih (iff_of_true rfl hgap) ?_)
      · rintro r h' ⟨hmono, hs⟩
        exact ⟨fun _ => hmono hgap, hs.cons fun hno => absurd (hmono hgap) hno⟩
      · simpa [or_imp, forall_and] using hnone
    | record =>
      cases hrecord : recordOf worlds link contract view with
      | none =>
        refine wp_mono ?_ (ih (h := h ++ [⟨view, contract, some false⟩]) ?_ ?_)
        · rintro r h' ⟨hmono, hs⟩
          exact ⟨fun hgap => hmono (gap_concat.mpr (.inl hgap)), hs.cons fun _ => hrecord⟩
        · rw [hunread, gap_concat]
          simp
        · simpa [or_imp, forall_and] using hnone
      | some record =>
        refine ⟨fun hgap => gap_concat.mpr (.inl hgap), .found hrecord ?_ fun _ => ?_⟩
        · simp
        · simp [firstHolder, hrecord]

theorem wp_readClaimState {net : NetworkConfig} {groupHint : Bool} :
    (readClaimState net groupHint).wp (Reads worlds link t)
      (Searched worlds link t (if groupHint then .group else .single)
        ((views groupHint).flatMap fun view => (dropContracts net).map fun c => (view, c))) [] := by
  rw [readClaimState, wp_bind, wp_question]
  intro ms h' hreads
  cases hreads with
  | now hms =>
    rw [onValue_ok, hms]
    exact wp_mono (fun _ _ => And.right) (wp_searchRecord (by simp [Gap]) nofun)

variable (worlds link) in
/-- The escrow a claim of this kind goes to when all of them answer. -/
def holderOf (net : NetworkConfig) (kind : V2LinkKind) : String :=
  ((dropContracts net).find? fun c => (recordOf worlds link c kind.view).isSome).getD net.contract

theorem wp_searchContract {net : NetworkConfig} {kind : V2LinkKind} {contracts : List String} :
    (searchContract net kind contracts).wp (Reads worlds link t)
      (fun r h' => (Gap h → Gap h') ∧ (¬Gap h' → r = .ok
        ((contracts.find? fun c => (recordOf worlds link c kind.view).isSome).getD net.contract)))
      h := by
  induction contracts generalizing h with
  | nil => exact ⟨id, fun _ => rfl⟩
  | cons contract rest ih =>
    rw [searchContract, wp_bind, wp_question]
    intro a h' hreads
    simp only [onValue_ok]
    cases hreads with
    | unread =>
      refine wp_mono ?_ ih
      rintro r h' ⟨hmono, -⟩
      have hgap : Gap h' := hmono (gap_concat.mpr (.inr rfl))
      exact ⟨fun _ => hgap, fun hno => absurd hgap hno⟩
    | record =>
      cases hrecord : recordOf worlds link contract kind.view with
      | none =>
        refine wp_mono ?_ ih
        rintro r h' ⟨hmono, hr⟩
        refine ⟨fun hgap => hmono (gap_concat.mpr (.inl hgap)), fun hno => ?_⟩
        rw [List.find?_cons_of_neg (by simp [hrecord])]
        exact hr hno
      | some record =>
        refine ⟨fun hgap => gap_concat.mpr (.inl hgap), fun _ => ?_⟩
        rw [List.find?_cons_of_pos (by simp [hrecord])]
        rfl

theorem wp_resolveDropContract {net : NetworkConfig} {kind : V2LinkKind} :
    (resolveDropContract net kind).wp (Reads worlds link t)
      (fun r h' => ¬Gap h' → r = .ok (holderOf worlds link net kind)) h := by
  unfold resolveDropContract
  split
  · next hone =>
    intro _
    have hnil : net.legacyContracts.filter (· ≠ net.contract) = [] := by
      simpa [dropContracts] using hone
    rw [holderOf, dropContracts, hnil, List.find?_singleton]
    split <;> rfl
  · exact wp_mono (fun _ _ => And.right) wp_searchContract

/-- The search meets the record at the escrow the claim goes to. -/
theorem holderOf_firstHolder {net : NetworkConfig} {groupHint : Bool} {view : View}
    {contract : String}
    (h : firstHolder worlds link ((views groupHint).flatMap fun view =>
      (dropContracts net).map fun c => (view, c)) = some (view, contract)) :
    holderOf worlds link net (kindOf view) = contract := by
  rw [firstHolder, List.find?_flatMap, List.findSome?_eq_some_iff] at h
  obtain ⟨_, view', _, -, hfind, -⟩ := h
  rw [List.find?_map, Option.map_eq_some_iff] at hfind
  obtain ⟨c, hc, heq⟩ := hfind
  obtain ⟨rfl, rfl⟩ := Prod.mk.inj heq
  have hview : (kindOf view').view = view' := by cases view' <;> rfl
  rw [holderOf, hview]
  exact congrArg (Option.getD · net.contract) hc

/-! ## The answer for a link -/

variable {env : String → Env String}

/-- What a record says of a claim is what becomes of the claim. -/
theorem stateOf_claimant {contract : String} {view : View} {record : Record view} {c : Ctx String}
    {payout : String} {sig : BytesN 64} (hworld : Reachable (env contract) (worlds contract))
    (hrecord : recordOf worlds link contract view = some record)
    (hc : Claimant (env contract) (worlds contract) link (kindOf view) t c payout sig) :
    stateOf t view record = .claimable ↔
      Succeeds (env contract) c (worlds contract) ((kindOf view).exit link payout sig) := by
  cases view with
  | getDrop =>
    refine Iff.trans ?_ (hworld.claim_iff hc.pays hrecord hc.signed).symm
    simp [stateOf]
  | getPool =>
    refine Iff.trans ?_ (hworld.claimShare_iff hc.pays hrecord (hc.new rfl) hc.signed).symm
    rw [hc.time]
    simp only [stateOf, exhausted_iff (hworld.sound.pools hrecord)]
    split_ifs <;> simp <;> omega

/-- Without a record there is nothing to claim. -/
theorem not_succeeds_of_no_record {contract : String} {kind : V2LinkKind} {c : Ctx String}
    {payout : String} {sig : BytesN 64} (hworld : Reachable (env contract) (worlds contract))
    (hnone : recordOf worlds link contract kind.view = none)
    (hpays : AssetPays (env contract) c (worlds contract)) :
    ¬Succeeds (env contract) c (worlds contract) (kind.exit link payout sig) := by
  cases kind with
  | single => exact (hworld.not_succeeds hpays).1 hnone
  | group => exact (hworld.not_succeeds hpays).2 hnone

theorem holderOf_mem {net : NetworkConfig} {kind : V2LinkKind} :
    holderOf worlds link net kind ∈ dropContracts net := by
  rw [holderOf]
  cases hfind : (dropContracts net).find? fun c => (recordOf worlds link c kind.view).isSome with
  | none => exact List.mem_cons_self
  | some contract => exact List.mem_of_find?_eq_some hfind

/-- What a run of `readClaimState` may answer. -/
structure Agrees (env : String → Env String) (worlds : String → LumenDrop.World G)
    (link : BytesN 32) (t : ℕ) (net : NetworkConfig) (groupHint : Bool)
    (r : Except Thrown (ClaimState × V2LinkKind)) (h : List Reading) : Prop where
  answers : ¬Gap h → ∃ state kind, r = .ok (state, kind)
  /-- The claim goes to the escrow that `resolveDropContract` finds. -/
  claimable : ¬Gap h → ∀ {state kind contract h'}, r = .ok (state, kind) →
    Runs (Reads worlds link t) (resolveDropContract net kind) [] (.ok contract) h' → ¬Gap h' →
    ∀ {c payout sig}, Claimant (env contract) (worlds contract) link kind t c payout sig →
      (state = .claimable ↔
        Succeeds (env contract) c (worlds contract) (kind.exit link payout sig))
  listed : ∀ {kind}, r = .ok (.noSuchDrop, kind) → ∀ contract ∈ dropContracts net,
    ∀ view ∈ views groupHint, recordOf worlds link contract view = none
  throws : (∃ e, r = .error e) ↔ Gap h ∧ ∀ e ∈ h, e.holds ≠ some true

theorem stateOf_ne_noSuchDrop {view : View} {record : Record view} :
    stateOf t view record ≠ .noSuchDrop := by
  cases view <;> simp only [stateOf] <;> split_ifs <;> nofun

theorem Searched.agrees {net : NetworkConfig} {groupHint : Bool}
    {r : Except Thrown (ClaimState × V2LinkKind)}
    (hworlds : ∀ contract, Reachable (env contract) (worlds contract))
    (hs : Searched worlds link t (if groupHint then .group else .single)
      ((views groupHint).flatMap fun view => (dropContracts net).map fun c => (view, c)) r h) :
    Agrees env worlds link t net groupHint r h := by
  cases hs with
  | @found view contract record _ hrecord hread hfirst =>
    refine ⟨fun _ => ⟨_, _, rfl⟩, fun hno _ _ _ _ hr hrun hno' _ _ _ hc => ?_,
      fun hr => ?_, ⟨nofun, fun hall => absurd rfl (hall.2 _ hread)⟩⟩
    · cases hr
      have hcontract := hrun.sound wp_resolveDropContract hno'
      rw [holderOf_firstHolder (hfirst hno)] at hcontract
      cases hcontract
      exact stateOf_claimant (hworlds contract) hrecord hc
    · exact absurd (congrArg Prod.fst (Except.ok.inj hr)) stateOf_ne_noSuchDrop
  | absent hgap hnone hall =>
    have hlisted : ∀ contract ∈ dropContracts net, ∀ view ∈ views groupHint,
        recordOf worlds link contract view = none := by
      intro contract hcontract view hview
      exact hall (view, contract)
        (List.mem_flatMap.mpr ⟨view, hview, List.mem_map.mpr ⟨contract, hcontract, rfl⟩⟩)
    refine ⟨fun _ => ⟨_, _, rfl⟩, fun _ _ kind contract _ hr hrun hno' _ _ _ hc => ?_,
      fun _ => hlisted, ⟨nofun, fun hall => absurd hall.1 hgap⟩⟩
    cases hr
    have hcontract := hrun.sound wp_resolveDropContract hno'
    cases hcontract
    refine iff_of_false nofun (not_succeeds_of_no_record (hworlds _)
      (hlisted _ holderOf_mem _ ?_) hc.pays)
    cases groupHint <;> decide
  | unread hgap hnone =>
    exact ⟨fun hno => absurd hgap hno, fun hno => absurd hgap hno, nofun,
      ⟨fun _ => ⟨hgap, hnone⟩, fun _ => ⟨_, rfl⟩⟩⟩

/-- `poolStatusOf` tells, of every record that the contract can come to hold, which of its exits
succeed; and `readClaimState` tells of every link whether its claim does. -/
theorem link_state_agrees (hworlds : ∀ contract, Reachable (env contract) (worlds contract)) :
    (∀ contract p, getPool (worlds contract) link = some p →
      (∀ c payout sig, Claimant (env contract) (worlds contract) link .group t c payout sig →
        (poolStatusOf p t = .open ↔
          Succeeds (env contract) c (worlds contract) (.claimShare link payout sig)) ∧
        (poolStatusOf p t = .full ↔ t < p.expiry ∧
          RefusedAsEmpty (env contract) c (worlds contract) (.claimShare link payout sig))) ∧
      ∀ c, TakeBack (env contract) (worlds contract) p t c →
        (poolStatusOf p t = .expired ↔
          Succeeds (env contract) c (worlds contract) (.reclaimPool link)) ∧
        (poolStatusOf p t = .closed ↔
          RefusedAsEmpty (env contract) c (worlds contract) (.reclaimPool link))) ∧
    ∀ net groupHint r h, Runs (Reads worlds link t) (readClaimState net groupHint) [] r h →
      Agrees env worlds link t net groupHint r h := by
  refine ⟨fun contract p hp => ⟨fun c payout sig hc => ?_, fun c hc => ?_⟩,
    fun net groupHint r h hrun => ?_⟩
  · exact poolStatusOf_claimant (hworlds contract) hp hc
  · exact poolStatusOf_takeBack (hworlds contract) hp hc
  · exact (hrun.sound wp_readClaimState).agrees hworlds

end

namespace Demo

open Soroban.Demo (link sig five hundred)

/-- An address is written in its characters, ended by a zero. -/
def escrowEnv (contract : String) : Env String where
  networkId := Vector.replicate 32 1
  contract := contract
  toXdr address := address.toList.map (fun c => UInt8.ofNat c.toNat) ++ [0]
  ed25519Verify _ _ s := s == sig
  sha256 m := Vector.replicate 32 (m.foldl (· + ·) 0)

def signedBy (account : String) (timestamp : ℕ) : Ctx String where
  timestamp := timestamp
  authorized a := a == account
  refuses _ _ _ _ := false

def opened : Input String :=
  .call (signedBy "S" 0) (.createDrop "S" link five ⟨4, by decide⟩ hundred)

/-- An owner and a pause flag; the owner does not change. -/
def governance : Governance String where
  State := String × Bool
  setOwner a := (a, false)
  onlyOwner auth s := auth s.1
  paused s := s.2
  pause s := if s.2 then none else some (s.1, true)
  unpause s := if s.2 then some (s.1, false) else none
  transferOwnership _ _ _ _ := none
  acceptOwnership _ _ := none
  renounceOwnership _ _ := none

/-- The older escrow holds a pool, the other one nothing. -/
def escrows (contract : String) : LumenDrop.World governance :=
  (ledger (escrowEnv contract) "T" "O" fun a => if a = "S" then 10 else 0).final
    (if contract = "E1" then [opened] else [])

def net : NetworkConfig := ⟨"E2", ["E1"]⟩

theorem escrows_reachable (contract : String) :
    Reachable (escrowEnv contract) (escrows contract) :=
  ⟨"T", "O", _, _, rfl⟩

def asked (views : List (View × String × Option Bool)) : List Reading :=
  views.map fun e => ⟨e.1, e.2.1, e.2.2⟩

theorem run_read : Runs (Reads escrows link 10) (readClaimState net false) []
    (.ok (.claimable, .group)) (asked [(.getDrop, "E2", some false), (.getDrop, "E1", some false),
      (.getPool, "E2", some false), (.getPool, "E1", some true)]) :=
  .ask 10000 (.now (by decide)) <| .ask _ .record <| .ask _ .record <| .ask _ .record <|
    .ask _ .record .ret

theorem run_resolve : Runs (Reads escrows link 10) (resolveDropContract net .group) [] (.ok "E1")
    (asked [(.getPool, "E2", some false), (.getPool, "E1", some true)]) :=
  .ask _ .record <| .ask _ .record .ret

theorem claimant : Claimant (escrowEnv "E1") (escrows "E1") link .group 10 (signedBy "P" 10) "P" sig :=
  ⟨rfl, fun _ _ _ => rfl, by decide, fun _ => by decide⟩

end Demo

open Demo Soroban.Demo in
theorem link_state_agrees_pool :
    Succeeds (escrowEnv "E1") (Demo.signedBy "P" 10) (escrows "E1") (.claimShare link "P" sig) := by
  have hagrees := (link_state_agrees escrows_reachable).2 Demo.net false _ _ run_read
  exact (hagrees.claimable (by simp [Gap, asked]) rfl run_resolve (by simp [Gap, asked])
    claimant).mp rfl

end Lumenia.Web.Claim
