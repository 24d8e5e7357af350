import Lumenia.Sponsor.IdentityLogic
import Mathlib.Order.Basic

/-!
# Rows and indices

Any number of calls that connect and disconnect identities, against one store, a command of theirs at
a time. An index never holds more than twelve links. The row of an identity and the index of the
account that it leads to are written one after the other; `links_consistent` says when the two agree
again, and when no identity is taken from one account to another: where a call writes over nothing that it
has not seen, and no identity moves between networks. `index_left_behind`: an account that connects
an identity again on another network leaves it listed on the first.
-/

namespace Lumenia.Sponsor.Identity.Linking

open Dialogue Proofs

/-! ## Where identities lead -/

abbrev Place := NetworkId × String

def placeOf (row : IdentityRow) : Place := (row.network, row.address)

/-- Where the identity leads. -/
def place (s : Store) (id : String) : Option Place :=
  (s.cells.get s.now (.identity id)).map placeOf

/-- What is listed for an account on a network. -/
def index (s : Store) (k : Place) : List LinkSummary :=
  (s.cells.get s.now (.of_ k.1 k.2)).getD []

/-- An index as the service writes it. -/
structure Neat (links : List LinkSummary) : Prop where
  bound : links.length ≤ maxLinksPerAccount
  nodup : (links.map (·.id)).Nodup

/-- Rows and indices do not expire, and each index is neat. -/
structure Tidy (s : Store) : Prop where
  row : ∀ id cell, s.cells (.identity id) = some cell → cell.2 = none
  list : ∀ network address cell, s.cells (.of_ network address) = some cell → cell.2 = none
  neat : ∀ k, Neat (index s k)

/-- An identity is listed exactly where it leads. -/
def Consistent (s : Store) : Prop :=
  ∀ id k, listed (index s k) id = true ↔ place s id = some k

/-! ## Calls side by side -/

inductive Request
  | attach (resolved : ResolvedIdentity) (address : String) (network : NetworkId)
    (box : Option Json) (passkeyProof : Option String) (accountProof : Option AccountProof)
  | detach (resolved : ResolvedIdentity) (network : NetworkId) (accountProof : Option AccountProof)
  | detachProvider (address : String) (network : NetworkId) (provider : Provider)

def Request.call (env : Env) : Request → Call Unit
  | attach resolved address network box passkeyProof accountProof => do
    let _ ← attachIdentity env resolved address network box passkeyProof accountProof
    return ()
  | detach resolved network accountProof => do
    let _ ← detachIdentity env resolved network accountProof
    return ()
  | detachProvider address network provider => do
    let _ ← detachProviderByAccount env address network provider
    return ()

/-- What a call goes by, and what it has done. -/
structure Progress where
  /-- Where identities lead, as it has last read or left them. -/
  knows : String → Option (Option Place)
  /-- The index that it has read. -/
  links : Option (Place × List LinkSummary)
  /-- The rows it has written or deleted, with where they lead or led, until it writes an index. -/
  pending : List (String × Place)
  /-- The identities that it has taken from one account to another. -/
  repoints : List String

namespace Progress

def initial : Progress := ⟨fun _ => none, none, [], []⟩

def learn (p : Progress) (id : String) (place : Option Place) : Progress :=
  { p with knows := Function.update p.knows id (some place) }

/-- A command of the call is executed. -/
def did (p : Progress) (s : Store) : Command → Progress
  | .get (.identity id) => p.learn id (place s id)
  | .get (.of_ network address) =>
    { p with links := some ((network, address), index s (network, address)) }
  | .set (.identity id) row _ =>
    { p.learn id (some (placeOf row)) with
      pending := (id, placeOf row) :: p.pending
      repoints := if (place s id).any (·.2 ≠ row.address) then id :: p.repoints else p.repoints }
  | .del (.identity id) =>
    { p.learn id none with
      pending := match p.knows id with
        | some (some k) => (id, k) :: p.pending
        | _ => p.pending }
  | .set (.of_ ..) .. | .del (.of_ ..) => { p with pending := [] }
  | _ => p

end Progress

/-- A command is executed, also if its answer is lost. -/
def Executed (d : Chance) : Prop := d.fate.executes = true

/-- An answer has come, and says that the command is not executed. -/
def Refused (d : Chance) : Prop := ∃ message, d.fate = .refused message

/-- The store, once it has executed the command. -/
def after (s : Store) (c : Command) : Store := { s with cells := (s.cells.exec s.now c).2 }

def nothing : Store := ⟨0, .empty, []⟩

/-- A call whose command is refused goes on as if nothing were stored, and as if the command had been
executed. -/
def next (p : Progress) (d : Chance) (s : Store) : Ask → Progress
  | .run c =>
    match d.fate with
    | .done | .lost _ => p.did s c
    | .failed _ => p
    | .refused _ => p.did nothing c
  | _ => p

def tracking : Surroundings Ask.Answer Chance Store Progress := ⟨react, next⟩

section

variable {ι : Type}

abbrev Scene (ι : Type) := Tracked ι Store Progress

abbrev State (ι : Type) := Crowd ι Ask.Answer String Unit (Scene ι)

/-- An index is as the call has read it, and the rows that the call has changed, or takes off or puts on
the index, are as it has read or left them. -/
def Timely (w : Scene ι) (i : ι) (k : Place) (links : List LinkSummary) : Prop :=
  (w.calls i).links = some (k, index w.shared k) ∧
  ∀ id, (id, k) ∈ (w.calls i).pending ∨ listed (index w.shared k) id ≠ listed links id →
    ∀ q, (w.calls i).knows id = some q → place w.shared id = q

/-- A row that is written or deleted is as the call has read it; it is one of the network of the new
row, or of the index that the call has read. -/
def CommandCareful (w : Scene ι) (i : ι) : Command → Prop
  | .set (.identity id) row _ => (w.calls i).knows id = some (place w.shared id) ∧
    ∀ k, place w.shared id = some k → k.1 = row.network
  | .del (.identity id) => (w.calls i).knows id = some (place w.shared id) ∧
    ∀ k e, place w.shared id = some k → (w.calls i).links = some e → k.1 = e.1.1
  | .set (.of_ network address) links _ => Timely w i (network, address) links
  | .del (.of_ network address) => Timely w i (network, address) []
  | _ => True

/-- A row or an index is written or deleted. -/
def Changes : Command → Prop
  | .set (.identity _) .. | .set (.of_ ..) .. | .del (.identity _) | .del (.of_ ..) => True
  | _ => False

/-- Commands that are executed are careful, and those that are refused would change nothing. -/
def Careful : Condition ι Ask Chance Store Progress
  | i, d, w, .run c => (Executed d → CommandCareful w i c) ∧ (Refused d → ¬Changes c)
  | _, _, _, _ => True

variable (env : Env) (requests : ι → Request) (s : Store)

def Run [DecidableEq ι] (met : Condition ι Ask Chance Store Progress) (x : State ι) : Prop :=
  Leads (tracking.Steps met) (Stirs Store.Passes)
    (started s .initial fun i => (requests i).call env) x

/-- No call is midway: each has not begun or has ended, and one that has thrown has not done so between
a row and its index. -/
def Quiet (x : State ι) : Prop :=
  ∀ i, x.prog i = (requests i).call env ∨ x.prog i = .ret (.ok ()) ∨
    ∃ e, x.prog i = .ret (.error e) ∧ (x.world.calls i).pending = []

/-! ## What is kept -/

structure Sound (met : Condition ι Ask Chance Store Progress) (w : Scene ι) : Prop where
  tidy : Tidy w.shared
  settled : met ≤ Careful → ∀ id k, (∀ i, (id, k) ∉ (w.calls i).pending) →
    (listed (index w.shared k) id = true ↔ place w.shared id = some k)
  kept : met ≤ Careful → ∀ i, (w.calls i).repoints = []

variable {met : Condition ι Ask Chance Store Progress} {w : Scene ι} {i : ι} {d : Chance} {p : Progress}
  {s} {s' : Store} {id : String} {k : Place} {c : Command}

theorem sound_started (hs : Tidy s) (hconsistent : Consistent s) :
    Sound met (⟨s, fun _ => .initial⟩ : Scene ι) where
  tidy := hs
  settled _ id k _ := hconsistent id k
  kept _ _ := rfl

theorem Sound.consistent (h : Sound met w) (hmet : met ≤ Careful)
    (hquiet : ∀ i, (w.calls i).pending = []) : Consistent w.shared := by
  intro id k
  apply h.settled hmet id k
  intro i hi
  rw [hquiet i] at hi
  cases hi

/-! ### Stores -/

theorem place_congr (hnow : s'.now = s.now)
    (h : s'.cells (.identity id) = s.cells (.identity id)) : place s' id = place s id := by
  rw [place, place, hnow, Cells.get_congr h]

theorem index_congr (hnow : s'.now = s.now)
    (h : s'.cells (.of_ k.1 k.2) = s.cells (.of_ k.1 k.2)) : index s' k = index s k := by
  rw [index, index, hnow, Cells.get_congr h]

theorem place_after (h : c.key ≠ .identity id) : place (after s c) id = place s id :=
  place_congr rfl (Cells.exec_of_ne (Ne.symm h))

theorem index_after (h : c.key ≠ .of_ k.1 k.2) : index (after s c) k = index s k :=
  index_congr rfl (Cells.exec_of_ne (Ne.symm h))

/-- A value without an expiry is there at any time. -/
theorem get_lasting {now now' : ℕ} {key : Key} (h : ∀ cell, s.cells key = some cell → cell.2 = none) :
    s.cells.get now key = s.cells.get now' key := by
  cases hcell : s.cells key with
  | none => simp [Cells.get, hcell]
  | some cell =>
    obtain ⟨v, expiry⟩ := cell
    have hnone : expiry = none := h _ hcell
    subst hnone
    rw [Cells.get_of_cell hcell, Cells.get_of_cell hcell]

theorem Tidy.place_passes (h : Tidy s) (hpass : s.Passes s') : place s' id = place s id := by
  rw [hpass.2]
  exact congrArg (Option.map placeOf) (get_lasting (h.row id))

theorem Tidy.index_passes (h : Tidy s) (hpass : s.Passes s') : index s' k = index s k := by
  rw [hpass.2]
  exact congrArg (·.getD []) (get_lasting (h.list k.1 k.2))

theorem Tidy.passes (h : Tidy s) (hpass : s.Passes s') : Tidy s' where
  row id cell hcell := by
    rw [hpass.2] at hcell
    exact h.row id cell hcell
  list network address cell hcell := by
    rw [hpass.2] at hcell
    exact h.list network address cell hcell
  neat k := h.index_passes hpass ▸ h.neat k

theorem Sound.passes (h : Sound met w) (hpass : w.shared.Passes s') :
    Sound met { w with shared := s' } where
  tidy := h.tidy.passes hpass
  settled hmet id k hnot := by
    have hsame := h.settled hmet id k hnot
    rwa [← h.tidy.index_passes hpass, ← h.tidy.place_passes hpass] at hsame
  kept := h.kept

theorem lasting_set {key key' : Key} {v : key.Entry}
    (h : ∀ cell, s.cells key' = some cell → cell.2 = none) (cell : key'.Entry × Option ℕ)
    (hcell : (after s (.set key v none)).cells key' = some cell) : cell.2 = none := by
  by_cases hkey : key' = key
  · subst hkey
    have hself : (after s (.set key' v none)).cells key' = some (v, none) := Cells.set_self
    rw [hself] at hcell
    cases hcell
    rfl
  · have hsame : (after s (.set key v none)).cells key' = s.cells key' := Cells.set_of_ne hkey
    exact h cell (hsame ▸ hcell)

theorem lasting_del {key key' : Key} (h : ∀ cell, s.cells key' = some cell → cell.2 = none)
    (cell : key'.Entry × Option ℕ) (hcell : (after s (.del key)).cells key' = some cell) :
    cell.2 = none := by
  by_cases hkey : key' = key
  · subst hkey
    have hself : (after s (.del key')).cells key' = none := Cells.del_self
    rw [hself] at hcell
    cases hcell
  · have hsame : (after s (.del key)).cells key' = s.cells key' := Cells.del_of_ne hkey
    exact h cell (hsame ▸ hcell)

theorem place_set {row : IdentityRow} :
    place (after s (.set (.identity id) row none)) id = some (placeOf row) := by
  have hget : (after s (.set (.identity id) row none)).cells.get s.now (.identity id) = some row :=
    Cells.get_set_self
  exact congrArg (Option.map placeOf) hget

theorem place_del : place (after s (.del (.identity id))) id = none := by
  have hget : (after s (.del (.identity id))).cells.get s.now (.identity id) = none :=
    Cells.get_del_self
  exact congrArg (Option.map placeOf) hget

/-- The command that leaves these links listed. -/
def writes (k : Place) (links : List LinkSummary) : Command :=
  if links = [] then .del (.of_ k.1 k.2) else .set (.of_ k.1 k.2) links none

theorem index_writes {links : List LinkSummary} : index (after s (writes k links)) k = links := by
  unfold writes
  split
  · next hnil =>
    have hget : (after s (.del (.of_ k.1 k.2))).cells.get s.now (.of_ k.1 k.2) = none :=
      Cells.get_del_self
    rw [hnil]
    exact congrArg (fun found => Option.getD found []) hget
  · have hget : (after s (.set (.of_ k.1 k.2) links none)).cells.get s.now (.of_ k.1 k.2) =
        some links := Cells.get_set_self
    exact congrArg (fun found => Option.getD found []) hget

theorem key_writes {links : List LinkSummary} : (writes k links).key = .of_ k.1 k.2 := by
  unfold writes
  split <;> rfl

theorem index_writes_ne {k' : Place} {links : List LinkSummary} (hk : k' ≠ k) :
    index (after s (writes k links)) k' = index s k' := by
  apply index_after
  intro hkey
  apply hk
  rw [key_writes] at hkey
  injection hkey with hnetwork haddress
  exact (Prod.ext hnetwork haddress).symm

theorem place_writes {links : List LinkSummary} : place (after s (writes k links)) id = place s id := by
  apply place_after
  intro hkey
  rw [key_writes] at hkey
  cases hkey

theorem Tidy.set_row (h : Tidy s) {row : IdentityRow} : Tidy (after s (.set (.identity id) row none)) where
  row id' := lasting_set (h.row id')
  list network address := lasting_set (h.list network address)
  neat k := by
    have hsame : index (after s (.set (.identity id) row none)) k = index s k :=
      index_after fun hkey => by cases hkey
    rw [hsame]
    exact h.neat k

theorem Tidy.del_row (h : Tidy s) : Tidy (after s (.del (.identity id))) where
  row id' := lasting_del (h.row id')
  list network address := lasting_del (h.list network address)
  neat k := by
    have hsame : index (after s (.del (.identity id))) k = index s k :=
      index_after fun hkey => by cases hkey
    rw [hsame]
    exact h.neat k

theorem Tidy.write (h : Tidy s) {links : List LinkSummary} (hneat : Neat links) :
    Tidy (after s (writes k links)) where
  row id' := by
    unfold writes
    split
    · exact lasting_del (h.row id')
    · exact lasting_set (h.row id')
  list network address := by
    unfold writes
    split
    · exact lasting_del (h.list network address)
    · exact lasting_set (h.list network address)
  neat k' := by
    by_cases hk : k' = k
    · subst hk
      rw [index_writes]
      exact hneat
    · rw [index_writes_ne hk]
      exact h.neat k'

/-! ### Steps -/

variable [DecidableEq ι]

/-- The command of the call is executed. -/
def scene (w : Scene ι) (i : ι) (c : Command) : Scene ι :=
  ⟨after w.shared c, Function.update w.calls i ((w.calls i).did w.shared c)⟩

/-- The command of the call is refused. -/
def unheard (w : Scene ι) (i : ι) (c : Command) : Scene ι :=
  ⟨w.shared, Function.update w.calls i ((w.calls i).did nothing c)⟩

theorem Sound.run (h : Sound met w) (hdid : Executed d → Sound met (scene w i c))
    (hrefused : Refused d → Sound met (unheard w i c)) :
    Sound met (tracking.meet i d w (.run c)).2 := by
  cases hfate : d.fate with
  | done =>
    have hmeet : (tracking.meet i d w (.run c)).2 = scene w i c := by
      simp [Surroundings.meet, tracking, react, next, hfate, Cells.Delivery.exec, scene, after]
    rw [hmeet]
    exact hdid (by rw [Executed, hfate]; rfl)
  | lost message =>
    have hmeet : (tracking.meet i d w (.run c)).2 = scene w i c := by
      simp [Surroundings.meet, tracking, react, next, hfate, Cells.Delivery.exec, scene, after]
    rw [hmeet]
    exact hdid (by rw [Executed, hfate]; rfl)
  | failed message =>
    have hmeet : (tracking.meet i d w (.run c)).2 = w := by
      simp [Surroundings.meet, tracking, react, next, hfate, Cells.Delivery.exec]
    rw [hmeet]
    exact h
  | refused message =>
    have hmeet : (tracking.meet i d w (.run c)).2 = unheard w i c := by
      simp [Surroundings.meet, tracking, react, next, hfate, Cells.Delivery.exec, unheard]
    rw [hmeet]
    exact hrefused ⟨message, hfate⟩

@[simp] theorem scene_calls_self : (scene w i c).calls i = (w.calls i).did w.shared c :=
  Function.update_self ..

@[simp] theorem scene_calls_ne {j : ι} (h : j ≠ i) : (scene w i c).calls j = w.calls j :=
  Function.update_of_ne h ..

/-- A command that leaves rows and indices as they are. -/
theorem Sound.look (h : Sound met w) (htidy : Tidy (after w.shared c))
    (hplace : ∀ id, place (after w.shared c) id = place w.shared id)
    (hindex : ∀ k, index (after w.shared c) k = index w.shared k)
    (hpending : ((w.calls i).did w.shared c).pending = (w.calls i).pending)
    (hrepoints : ((w.calls i).did w.shared c).repoints = (w.calls i).repoints) :
    Sound met (scene w i c) where
  tidy := htidy
  settled hmet id k hnot := by
    change listed (index (after w.shared c) k) id = true ↔ place (after w.shared c) id = some k
    rw [hindex, hplace]
    apply h.settled hmet id k
    intro j hj
    apply hnot j
    by_cases hji : j = i
    · subst hji
      rwa [scene_calls_self, hpending]
    · rwa [scene_calls_ne hji]
  kept hmet j := by
    by_cases hji : j = i
    · subst hji
      rw [scene_calls_self, hrepoints]
      exact h.kept hmet j
    · rw [scene_calls_ne hji]
      exact h.kept hmet j

theorem Sound.get (h : Sound met w) {key : Key} : Sound met (scene w i (.get key)) := by
  refine h.look h.tidy (fun _ => rfl) (fun _ => rfl) ?_ ?_
  all_goals cases key <;> rfl

/-- Neither a row nor an index, nor a random text. -/
def Apart : Ask → Prop
  | .run c => ∀ id network address, c.key ≠ .identity id ∧ c.key ≠ .of_ network address
  | .randomHex _ => False
  | _ => True

theorem did_apart (hc : Apart (.run c)) : p.did s c = p := by
  cases c with
  | get key => cases key with
    | identity id => exact absurd rfl (hc id .testnet "").1
    | of_ network address => exact absurd rfl (hc "" network address).2
    | _ => rfl
  | set key v ttl => cases key with
    | identity id => exact absurd rfl (hc id .testnet "").1
    | of_ network address => exact absurd rfl (hc "" network address).2
    | _ => rfl
  | setNx key v ttl => rfl
  | del key => cases key with
    | identity id => exact absurd rfl (hc id .testnet "").1
    | of_ network address => exact absurd rfl (hc "" network address).2
    | _ => rfl

/-- A call that has changed nothing by a refused command owes nothing. -/
theorem Sound.unheard (h : Sound met w) (hc : met ≤ Careful → ¬Changes c) :
    Sound met (unheard w i c) := by
  have hsame (hle : met ≤ Careful) : ((w.calls i).did nothing c).pending = (w.calls i).pending ∧
      ((w.calls i).did nothing c).repoints = (w.calls i).repoints := by
    cases c with
    | get key => cases key <;> exact ⟨rfl, rfl⟩
    | setNx key v ttl => exact ⟨rfl, rfl⟩
    | set key v ttl =>
      cases key with
      | identity id => exact absurd trivial (hc hle)
      | of_ network address => exact absurd trivial (hc hle)
      | _ => exact ⟨rfl, rfl⟩
    | del key =>
      cases key with
      | identity id => exact absurd trivial (hc hle)
      | of_ network address => exact absurd trivial (hc hle)
      | _ => exact ⟨rfl, rfl⟩
  have hcalls (hle : met ≤ Careful) (j : ι) :
      ((Linking.unheard w i c).calls j).pending = (w.calls j).pending ∧
      ((Linking.unheard w i c).calls j).repoints = (w.calls j).repoints := by
    by_cases hji : j = i
    · subst hji
      have hself : (Linking.unheard w j c).calls j = (w.calls j).did nothing c :=
        Function.update_self ..
      rw [hself]
      exact hsame hle
    · have hne : (Linking.unheard w i c).calls j = w.calls j := Function.update_of_ne hji ..
      rw [hne]
      exact ⟨rfl, rfl⟩
  exact ⟨h.tidy, fun hle id k hnot => h.settled hle id k fun j hj => hnot j ((hcalls hle j).1 ▸ hj),
    fun hle j => (hcalls hle j).2.trans (h.kept hle j)⟩

theorem not_changes_of_apart (hc : Apart (.run c)) : ¬Changes c := by
  intro hchanges
  cases c with
  | get key => exact hchanges
  | setNx key v ttl => exact hchanges
  | set key v ttl =>
    cases key with
    | identity id => exact (hc id .testnet "").1 rfl
    | of_ network address => exact (hc "" network address).2 rfl
    | _ => exact hchanges
  | del key =>
    cases key with
    | identity id => exact (hc id .testnet "").1 rfl
    | of_ network address => exact (hc "" network address).2 rfl
    | _ => exact hchanges

theorem Sound.apart (h : Sound met w) (hc : Apart (.run c)) : Sound met (scene w i c) := by
  have hrow (id : String) : (after w.shared c).cells (.identity id) = w.shared.cells (.identity id) :=
    Cells.exec_of_ne (hc id .testnet "").1.symm
  have hlist (network : NetworkId) (address : String) :
      (after w.shared c).cells (.of_ network address) = w.shared.cells (.of_ network address) :=
    Cells.exec_of_ne (hc "" network address).2.symm
  have hindex (k : Place) : index (after w.shared c) k = index w.shared k :=
    index_congr rfl (hlist k.1 k.2)
  refine h.look ⟨fun id => hrow id ▸ h.tidy.row id, fun n a => hlist n a ▸ h.tidy.list n a, fun k => ?_⟩
    (fun id => place_congr rfl (hrow id)) hindex ?_ ?_
  · rw [hindex]
    exact h.tidy.neat k
  · rw [did_apart hc]
  · rw [did_apart hc]

theorem Sound.meet_apart (h : Sound met w) {q : Ask} (hq : Apart q) :
    Sound met (tracking.meet i d w q).2 := by
  match q, hq with
  | .run c, hc => exact h.run (fun _ => h.apart hc) fun _ => h.unheard fun _ => not_changes_of_apart hc
  | .now, _ | .handles _, _ | .verifyOtp .., _ | .ownerHash _, _ | .enforceRateLimit, _
  | .exchange .., _ | .readUser .., _ =>
    have hmeet (q : Ask) (hreact : (react d w.shared q).2 = w.shared)
        (hnext : next (w.calls i) d w.shared q = w.calls i) : (tracking.meet i d w q).2 = w := by
      simp [Surroundings.meet, tracking, hreact, hnext]
    rw [hmeet _ rfl rfl]
    exact h

/-- A row is written for the account that the identity leads to as far as the call knows. -/
theorem Sound.set_row (h : Sound met w) {row : IdentityRow}
    (hown : ∀ q, (w.calls i).knows id = some (some q) → q.2 = row.address)
    (hcareful : met ≤ Careful → CommandCareful w i (.set (.identity id) row none)) :
    Sound met (scene w i (.set (.identity id) row none)) := by
  have howner (hmet : met ≤ Careful) {q : Place} (hq : place w.shared id = some q) :
      q = placeOf row := by
    obtain ⟨hknows, hnetwork⟩ := hcareful hmet
    exact Prod.ext (hnetwork q hq) (hown q (hknows.trans (congrArg some hq)))
  refine ⟨h.tidy.set_row, fun hmet id' k hnot => ?_, fun hmet j => ?_⟩
  · have hindex : index (after w.shared (.set (.identity id) row none)) k = index w.shared k :=
      index_after fun hkey => by cases hkey
    have hbefore : ∀ j, (id', k) ∉ (w.calls j).pending := by
      intro j hj
      apply hnot j
      by_cases hji : j = i
      · subst hji
        rw [scene_calls_self]
        exact List.mem_cons_of_mem _ hj
      · rwa [scene_calls_ne hji]
    change listed (index (after w.shared _) k) id' = true ↔ place (after w.shared _) id' = some k
    rw [hindex, h.settled hmet id' k hbefore]
    by_cases hid : id' = id
    · subst hid
      have hk : k ≠ placeOf row := by
        rintro rfl
        apply hnot i
        rw [scene_calls_self]
        exact List.mem_cons_self
      rw [place_set]
      constructor
      · exact fun hq => absurd (howner hmet hq) hk
      · exact fun hq => absurd (Option.some.inj hq).symm hk
    · have hplace : place (after w.shared (.set (.identity id) row none)) id' = place w.shared id' :=
        place_after fun hkey => hid (Key.identity.inj hkey).symm
      rw [hplace]
  · by_cases hji : j = i
    · subst hji
      rw [scene_calls_self]
      have hsame : (place w.shared id).any (·.2 ≠ row.address) = false := by
        cases hq : place w.shared id with
        | none => rfl
        | some q => simp [howner hmet hq, placeOf]
      simp only [Progress.did, hsame]
      exact h.kept hmet j
    · rw [scene_calls_ne hji]
      exact h.kept hmet j

theorem Sound.del_row (h : Sound met w)
    (hcareful : met ≤ Careful → CommandCareful w i (.del (.identity id))) :
    Sound met (scene w i (.del (.identity id))) := by
  refine ⟨h.tidy.del_row, fun hmet id' k hnot => ?_, fun hmet j => ?_⟩
  · have hindex : index (after w.shared (.del (.identity id))) k = index w.shared k :=
      index_after fun hkey => by cases hkey
    have hbefore : ∀ j, (id', k) ∉ (w.calls j).pending := by
      intro j hj
      apply hnot j
      by_cases hji : j = i
      · subst hji
        rw [scene_calls_self]
        simp only [Progress.did]
        split
        · exact List.mem_cons_of_mem _ hj
        · exact hj
      · rwa [scene_calls_ne hji]
    change listed (index (after w.shared _) k) id' = true ↔ place (after w.shared _) id' = some k
    rw [hindex, h.settled hmet id' k hbefore]
    by_cases hid : id' = id
    · subst hid
      rw [place_del]
      refine ⟨fun hq => absurd ?_ (hnot i), fun hq => by cases hq⟩
      have hknows : (w.calls i).knows id' = some (some k) := (hcareful hmet).1.trans (congrArg some hq)
      rw [scene_calls_self]
      simp only [Progress.did, hknows]
      exact List.mem_cons_self
    · have hplace : place (after w.shared (.del (.identity id))) id' = place w.shared id' :=
        place_after fun hkey => hid (Key.identity.inj hkey).symm
      rw [hplace]
  · by_cases hji : j = i
    · subst hji
      rw [scene_calls_self]
      exact h.kept hmet j
    · rw [scene_calls_ne hji]
      exact h.kept hmet j

/-- What a call that has read the links `l` goes by when it writes others. -/
structure Progress.Fits (p : Progress) (k : Place) (l links : List LinkSummary) : Prop where
  read : p.links = some (k, l)
  here : ∀ e ∈ p.pending, e.2 = k
  known : ∀ id, (id, k) ∈ p.pending ∨ listed l id ≠ listed links id →
    ∃ q, p.knows id = some q ∧ (q = some k ↔ listed links id = true)

theorem did_writes {links : List LinkSummary} : p.did s (writes k links) = { p with pending := [] } := by
  unfold writes
  split <;> rfl

/-- An index is written that fits what the call knows. -/
theorem Sound.write (h : Sound met w) {l links : List LinkSummary} (hneat : Neat links)
    (hfits : met ≤ Careful → (w.calls i).Fits k l links)
    (hcareful : met ≤ Careful → Timely w i k links) : Sound met (scene w i (writes k links)) := by
  refine ⟨h.tidy.write hneat, fun hmet id k' hnot => ?_, fun hmet j => ?_⟩
  · obtain ⟨hread, htimely⟩ := hcareful hmet
    obtain ⟨hlinks, hhere, hknown⟩ := hfits hmet
    have hl : index w.shared k = l :=
      (Prod.mk.inj (Option.some.inj (hread.symm.trans hlinks))).2
    have hbefore (hmine : (id, k') ∉ (w.calls i).pending) (j : ι) : (id, k') ∉ (w.calls j).pending := by
      by_cases hji : j = i
      · rwa [hji]
      · have hj := hnot j
        rwa [scene_calls_ne hji] at hj
    change listed (index (after w.shared _) k') id = true ↔ place (after w.shared _) id = some k'
    rw [place_writes]
    by_cases hk : k' = k
    · subst hk
      rw [index_writes]
      by_cases hchanged : (id, k') ∈ (w.calls i).pending ∨ listed l id ≠ listed links id
      · obtain ⟨q, hq, hiff⟩ := hknown id hchanged
        rw [htimely id (hl ▸ hchanged) q hq]
        exact hiff.symm
      · obtain ⟨hmine, hsame⟩ := not_or.mp hchanged
        rw [← not_not.mp hsame, ← hl]
        exact h.settled hmet id k' (hbefore hmine)
    · rw [index_writes_ne hk]
      exact h.settled hmet id k' (hbefore fun hmem => hk (hhere _ hmem))
  · by_cases hji : j = i
    · subst hji
      rw [scene_calls_self, did_writes]
      exact h.kept hmet j
    · rw [scene_calls_ne hji]
      exact h.kept hmet j

/-! ## Calls -/

abbrev KeepsLinks (met : Condition ι Ask Chance Store Progress) (i : ι) (p : Progress) {α : Type}
    (call : Call α) (N : Except String α → Progress → Prop) : Prop :=
  Keeps tracking met (Sound met) i p call N

/-- What a value comes with. -/
def ends {α : Type} (N : α → Progress → Prop) (r : Except String α) (p : Progress) : Prop :=
  ∀ a, r = .ok a → N a p

variable {α β : Type}

theorem ends_ret {N : α → Progress → Prop} {a : α} (h : N a p) :
    KeepsLinks met i p (.ret (.ok a)) (ends N) :=
  .ret fun a' ha => by
    cases ha
    exact h

theorem ends_bind {call : Call α} {f : α → Call β} {M : α → Progress → Prop}
    {N : β → Progress → Prop} (h : KeepsLinks met i p call (ends M))
    (hf : ∀ a p', M a p' → KeepsLinks met i p' (f a) (ends N)) :
    KeepsLinks met i p (call >>= f) (ends N) :=
  Keeps.bind h (fun a p' ha => hf a p' (ha a rfl)) fun e p' _ b hb => by cases hb

/-- A part of a call that is about neither rows nor indices. -/
theorem apart_keeps {call : Call α} (hcall : call.Asks Apart) :
    KeepsLinks met i p call (ends fun _ p' => p' = p) := by
  have hkeeps : KeepsLinks met i p call fun _ p' => p' = p := by
    refine keeps_of_asks hcall rfl (fun q hq d w hw _ => hw.meet_apart hq) fun q hq p' d s hp' => ?_
    subst hp'
    match q, hq with
    | .run c, hc =>
      simp only [tracking, next, did_apart hc]
      split <;> rfl
    | .now, _ | .handles _, _ | .verifyOtp .., _ | .ownerHash _, _ | .enforceRateLimit, _
    | .exchange .., _ | .readUser .., _ => rfl
  exact hkeeps.mono fun _ _ hp' _ _ => hp'

/-- An entry is the store's answer to the command, or an error, and the store is as it was. -/
theorem entry_keeps {N : Except String c.Answer → Progress → Prop}
    (hinv : ∀ w, Sound met w → w.calls i = p →
      (met ≤ Careful → CommandCareful w i c) → Sound met (scene w i c))
    (hdone : ∀ w, Sound met w → w.calls i = p → (met ≤ Careful → CommandCareful w i c) →
      N (.ok (w.shared.cells.exec w.shared.now c).1) (p.did w.shared c))
    (hrefused : ∀ message, (met ≤ Careful → ¬Changes c) → N (.error message) (p.did nothing c)) :
    KeepsLinks met i p (entry c) (ends N) := by
  have hcareful {d : Chance} {w : Scene ι} (hmet : met i d w (.run c)) (hle : met ≤ Careful) :
      Careful i d w (.run c) := hle i d w (.run c) hmet
  refine keeps_run (fun d w hw hp hmet => ?_) fun d w hw hp hmet a ha => ?_
  · refine hw.run (fun hexecuted => ?_) fun hrefused => ?_
    · exact hinv w hw hp fun hle => (hcareful hmet hle).1 hexecuted
    · exact hw.unheard fun hle => (hcareful hmet hle).2 hrefused
  · cases hfate : d.fate with
    | done =>
      rw [hfate] at ha
      cases ha
      have hnext : next p d w.shared (.run c) = p.did w.shared c := by rw [next, hfate]
      rw [hnext]
      exact hdone w hw hp fun hle => (hcareful hmet hle).1 (by rw [Executed, hfate]; rfl)
    | lost message =>
      rw [hfate] at ha
      cases ha
    | failed message =>
      rw [hfate] at ha
      cases ha
    | refused message =>
      rw [hfate] at ha
      cases ha
      have hnext : next p d w.shared (.run c) = p.did nothing c := by rw [next, hfate]
      rw [hnext]
      exact hrefused message fun hle => (hcareful hmet hle).2 ⟨message, hfate⟩

theorem tidy_nothing : Tidy nothing where
  row := nofun
  list := nofun
  neat _ := ⟨Nat.zero_le _, .nil⟩

theorem kvGet_keeps {key : Key} {N : Option key.Entry → Progress → Prop}
    (hN : ∀ s, Tidy s → N (s.cells.get s.now key) (p.did s (.get key))) :
    KeepsLinks met i p (kvGet key) (ends N) := by
  refine ends_bind (M := fun first p' => N first.toOption.join p') ?_ fun first p' hp' => ends_ret hp'
  exact entry_keeps (fun _ hw _ _ => hw.get) (fun w hw _ _ => hN w.shared hw.tidy)
    fun _ _ => hN nothing tidy_nothing

/-- A call that changes a row or an index goes on as if it had done so, with care if all are careful. -/
theorem change_keeps {N : Progress → Prop} (hc : Changes c)
    (hinv : ∀ w, Sound met w → w.calls i = p →
      (met ≤ Careful → CommandCareful w i c) → Sound met (scene w i c))
    (hN : ∀ s, (met ≤ Careful → ∃ w : Scene ι, w.calls i = p ∧ CommandCareful w i c) →
      N (p.did s c)) :
    KeepsLinks met i p (entry c >>= fun _ => .ret (.ok ())) (ends fun _ => N) := by
  refine ends_bind (M := fun _ => N) ?_ fun first p' hp' => ends_ret hp'
  refine entry_keeps hinv (fun w _ hp hcareful => ?_) fun _ hnot => ?_
  · exact hN w.shared fun hle => ⟨w, hp, hcareful hle⟩
  · exact hN nothing fun hle => absurd hc (hnot hle)

theorem readRow_keeps : KeepsLinks met i p (readRow id)
    (ends fun found p' => p' = p.learn id (found.map placeOf)) :=
  kvGet_keeps fun _ _ => rfl

theorem readLinks_keeps {network : NetworkId} {address : String} :
    KeepsLinks met i p (readLinks network address)
      (ends fun links p' => p' = { p with links := some ((network, address), links) } ∧
        Neat links) := by
  refine ends_bind (M := fun found p' => p' = { p with links := some ((network, address), found.getD []) } ∧
    Neat (found.getD [])) ?_ fun found p' hp' => ends_ret hp'
  exact kvGet_keeps fun s hs => ⟨rfl, hs.neat (network, address)⟩

theorem setRow_keeps {row : IdentityRow} {json : String}
    (hown : ∀ q, p.knows id = some (some q) → q.2 = row.address) :
    KeepsLinks met i p (kvSet (.identity id) row json none) (ends fun _ p' =>
      p'.knows = Function.update p.knows id (some (some (placeOf row))) ∧ p'.links = p.links ∧
      p'.pending = (id, placeOf row) :: p.pending) := by
  refine .ite (fun _ => .ret fun a ha => by cases ha) fun _ => change_keeps trivial ?_ fun _ _ => ?_
  · exact fun w hw hp hcareful => hw.set_row (hp ▸ hown) hcareful
  · exact ⟨rfl, rfl, rfl⟩

theorem delRow_keeps : KeepsLinks met i p (kvDel (.identity id)) (ends fun _ p' =>
    p' = p.did ⟨0, .empty, []⟩ (.del (.identity id)) ∧
    (met ≤ Careful → ∀ k e, p.knows id = some (some k) → p.links = some e → k.1 = e.1.1)) := by
  refine change_keeps trivial (fun w hw _ hcareful => hw.del_row hcareful) fun s hcareful => ⟨rfl, ?_⟩
  intro hle k e hk he
  obtain ⟨w, hp, hknows, hnetwork⟩ := hcareful hle
  rw [hp] at hknows hnetwork
  exact hnetwork k e (Option.some.inj (hknows.symm.trans hk)) he

theorem writeLinks_keeps {env : Env} {network : NetworkId} {address : String}
    {l links : List LinkSummary} (hneat : Neat links)
    (hfits : met ≤ Careful → p.Fits (network, address) l links) :
    KeepsLinks met i p (writeLinks env network address links) (ends fun _ p' => p'.pending = []) := by
  have hwrite (w : Scene ι) (hw : Sound met w) (hp : w.calls i = p)
      (hcareful : met ≤ Careful → Timely w i (network, address) links) :
      Sound met (scene w i (writes (network, address) links)) :=
    hw.write hneat (fun hle => hp ▸ hfits hle) hcareful
  refine .ite (fun hnil => ?_) fun hcons => .ite (fun _ => .ret fun a ha => by cases ha) fun _ => ?_
  · subst hnil
    have hwrites : writes (network, address) [] = .del (.of_ network address) := if_pos rfl
    rw [hwrites] at hwrite
    exact change_keeps trivial hwrite fun _ _ => rfl
  · have hwrites : writes (network, address) links = .set (.of_ network address) links none :=
      if_neg hcons
    rw [hwrites] at hwrite
    exact change_keeps trivial hwrite fun _ _ => rfl

/-! ### Connecting -/

theorem asks_apart_verify {env : Env} {input : ProofInput} :
    (verifyHandleProof deps env.toProofEnv input).Asks Apart := by
  apply asks_verifyHandleProof (asks_question trivial)
  intro _
  apply asks_kvSetNx
  intro _ _
  exact fun _ _ _ => ⟨by simp [Cells.Command.key], by simp [Cells.Command.key]⟩

theorem listed_append {links : List LinkSummary} {link : LinkSummary} :
    listed (links ++ [link]) id = true ↔ listed links id = true ∨ link.id = id := by
  simp [listed]

theorem Neat.append {links : List LinkSummary} {link : LinkSummary} (h : Neat links)
    (hnew : listed links link.id = false) (hlength : links.length < maxLinksPerAccount) :
    Neat (links ++ [link]) where
  bound := by
    rw [List.length_append, List.length_singleton]
    exact hlength
  nodup := by
    rw [List.map_append, List.nodup_append]
    refine ⟨h.nodup, List.nodup_singleton _, fun a ha b hb => ?_⟩
    obtain ⟨l, hl, rfl⟩ := List.mem_map.mp ha
    obtain rfl := List.mem_singleton.mp hb
    rw [listed, List.any_eq_false] at hnew
    simpa using hnew l hl

theorem Neat.filter {links : List LinkSummary} (h : Neat links) (f : LinkSummary → Bool) :
    Neat (links.filter f) where
  bound := (List.length_filter_le f links).trans h.bound
  nodup := h.nodup.sublist (List.filter_sublist.map _)

variable {env : Env} {resolved : ResolvedIdentity} {address : String} {network : NetworkId}

theorem fileRow_keeps {box : Option Json} {passkeyProof : Option String}
    {existing : Option IdentityRow} (hown : ∀ row ∈ existing, row.address = address) :
    KeepsLinks met i (Progress.initial.learn resolved.id (existing.map placeOf))
      (fileRow env resolved address network box passkeyProof existing)
      (ends fun _ p' => p'.pending = []) := by
  refine ends_bind readLinks_keeps fun links p₁ ⟨hp₁, hneat⟩ => .ite (fun _ => ?_) fun hroom => ?_
  · subst hp₁
    exact ends_ret rfl
  · apply ends_bind (apart_keeps (asks_createdAtOf trivial))
    intro createdAt p₂ hp₂
    apply ends_bind (apart_keeps asks_orThrow)
    intro box p₃ hp₃
    subst hp₃ hp₂ hp₁
    refine ends_bind (setRow_keeps fun q hq => ?_) fun _ p₄ ⟨hknows, hlinks, hpending⟩ => ?_
    · simp only [Progress.learn, Function.update_self, Option.some.injEq, Option.map_eq_some_iff] at hq
      obtain ⟨row, hrow, rfl⟩ := hq
      exact hown row hrow
    · refine ends_bind (writeLinks_keeps (l := links) ?_ fun _ => ⟨hlinks, fun e he => ?_, fun id hid => ?_⟩)
        fun _ p₅ hp₅ => ends_ret hp₅
      · split
        · exact hneat
        · next hnew =>
          rw [Bool.not_eq_true] at hnew
          exact hneat.append hnew (not_le.mp fun hle => hroom ⟨hnew, hle⟩)
      · rw [hpending] at he
        obtain rfl := List.mem_singleton.mp he
        rfl
      · have hmine : id = resolved.id := by
          rcases hid with hmem | hchanged
          · rw [hpending] at hmem
            exact (Prod.mk.inj (List.mem_singleton.mp hmem)).1
          · split at hchanged
            · exact absurd rfl hchanged
            · by_contra hne
              refine hchanged (Bool.eq_iff_iff.mpr ?_)
              rw [listed_append]
              exact (or_iff_left fun heq => hne heq.symm).symm
        subst hmine
        refine ⟨some (network, address), ?_, iff_of_true rfl ?_⟩
        · rw [hknows, Function.update_self]
          rfl
        · split
          · next hlisted => exact hlisted
          · exact listed_append.mpr (.inr rfl)

theorem attachIdentity_keeps {box : Option Json} {passkeyProof : Option String}
    {accountProof : Option AccountProof} : KeepsLinks met i .initial
      (attachIdentity env resolved address network box passkeyProof accountProof)
      (ends fun _ p' => p'.pending = []) := by
  unfold attachIdentity
  refine .ite (fun _ => ends_ret rfl) fun _ => ?_
  cases accountProof with
  | none => exact ends_ret rfl
  | some accountProof =>
    apply ends_bind (apart_keeps asks_apart_verify)
    intro signed p₁ hp₁
    subst hp₁
    cases signed with
    | error reason => exact ends_ret rfl
    | ok u =>
      apply ends_bind readRow_keeps
      intro existing p₂ hp₂
      subst hp₂
      cases hother : existing.filter (·.address ≠ address) with
      | some other =>
        apply ends_bind (apart_keeps (asks_handleOf fun _ => trivial))
        intro handle p₃ hp₃
        subst hp₃
        exact ends_ret rfl
      | none =>
        apply fileRow_keeps
        intro row hrow
        obtain rfl := Option.mem_def.mp hrow
        simpa [Option.filter] using hother

/-! ### Disconnecting -/

theorem listed_filter {links : List LinkSummary} {f : LinkSummary → Bool} :
    listed (links.filter f) id = true ↔ ∃ link ∈ links, f link = true ∧ link.id = id := by
  simp [listed]

theorem detachIdentity_keeps {accountProof : Option AccountProof} : KeepsLinks met i .initial
    (detachIdentity env resolved network accountProof) (ends fun _ p' => p'.pending = []) := by
  apply ends_bind readRow_keeps
  intro row p₁ hp₁
  subst hp₁
  cases row with
  | none => exact ends_ret rfl
  | some row =>
    cases accountProof with
    | none => exact ends_ret rfl
    | some accountProof =>
      apply ends_bind (apart_keeps asks_apart_verify)
      intro signed p₂ hp₂
      subst hp₂
      cases signed with
      | error reason => exact ends_ret rfl
      | ok u =>
        refine ends_bind delRow_keeps fun _ p₃ ⟨hp₃, _⟩ => ?_
        have hknows : p₃.knows resolved.id = some none := by simp [hp₃, Progress.did, Progress.learn]
        have hpending : p₃.pending = [(resolved.id, placeOf row)] := by
          simp [hp₃, Progress.did, Progress.learn, Progress.initial]
        refine ends_bind readLinks_keeps fun links p₄ ⟨hp₄, hneat⟩ => ?_
        subst hp₄
        refine ends_bind (writeLinks_keeps (l := links) (hneat.filter _) fun _ =>
          ⟨rfl, fun e he => ?_, fun id hid => ?_⟩) fun _ p₅ hp₅ => ends_ret hp₅
        · change e ∈ p₃.pending at he
          rw [hpending] at he
          obtain rfl := List.mem_singleton.mp he
          rfl
        · have hmine : id = resolved.id := by
            rcases hid with hmem | hchanged
            · change (id, _) ∈ p₃.pending at hmem
              rw [hpending] at hmem
              exact (Prod.mk.inj (List.mem_singleton.mp hmem)).1
            · by_contra hne
              refine hchanged (Bool.eq_iff_iff.mpr ?_)
              rw [listed_filter]
              simp only [listed, List.any_eq_true, decide_eq_true_eq]
              exact exists_congr fun link => and_congr_right fun _ =>
                ⟨fun heq => ⟨fun h => hne (heq.symm.trans h), heq⟩, And.right⟩
          subst hmine
          refine ⟨none, hknows, iff_of_false nofun fun hlisted => ?_⟩
          obtain ⟨link, -, hne, heq⟩ := listed_filter.mp hlisted
          simp [heq] at hne

/-- What is known of the rows of the links that have been gone through. -/
structure Swept (k : Place) (links : List LinkSummary) (p p' : Progress) : Prop where
  read : p'.links = p.links
  pending : ∀ e ∈ p'.pending, e ∈ p.pending ∨ e.1 ∈ links.map (·.id)
  known : ∀ id ∈ links.map (·.id), ∃ q, p'.knows id = some q ∧ q ≠ some k
  other : ∀ id ∉ links.map (·.id), p'.knows id = p.knows id

theorem Swept.cons {p₁ p' : Progress} {link : LinkSummary} {links : List LinkSummary}
    (h : Swept k links p₁ p') (hread : p₁.links = p.links)
    (hpending : ∀ e ∈ p₁.pending, e ∈ p.pending ∨ e.1 = link.id)
    (hknown : ∃ q, p₁.knows link.id = some q ∧ q ≠ some k)
    (hother : ∀ id ≠ link.id, p₁.knows id = p.knows id) : Swept k (link :: links) p p' where
  read := h.read.trans hread
  pending e he := by
    rw [List.map_cons, List.mem_cons]
    rcases h.pending e he with hmem | hmem
    · exact (hpending e hmem).imp_right .inl
    · exact .inr (.inr hmem)
  known id hid := by
    by_cases hmem : id ∈ links.map (·.id)
    · exact h.known id hmem
    · rw [List.map_cons, List.mem_cons] at hid
      obtain rfl := hid.resolve_right hmem
      obtain ⟨q, hq, hne⟩ := hknown
      exact ⟨q, (h.other _ hmem).trans hq, hne⟩
  other id hid := by
    rw [List.map_cons, List.mem_cons, not_or] at hid
    exact (h.other id hid.2).trans (hother id hid.1)

theorem deleteRows_keeps {l : List LinkSummary} (doomed : List LinkSummary)
    (hread : p.links = some ((network, address), l)) :
    KeepsLinks met i p (deleteRows address doomed) (ends fun _ p' =>
      Swept (network, address) doomed p p' ∧
      (met ≤ Careful → (∀ e ∈ p.pending, e.2 = (network, address)) →
        ∀ e ∈ p'.pending, e.2 = (network, address))) := by
  induction doomed generalizing p with
  | nil =>
    exact ends_ret ⟨⟨rfl, fun e he => .inl he, fun id hid => absurd hid List.not_mem_nil, fun _ _ => rfl⟩,
      fun _ h => h⟩
  | cons link links ih =>
    apply ends_bind readRow_keeps
    intro row p₁ hp₁
    have hlinks : p₁.links = some ((network, address), l) := by rw [hp₁]; exact hread
    have hknows : p₁.knows link.id = some (row.map placeOf) := by simp [hp₁, Progress.learn]
    have hother (id : String) (hid : id ≠ link.id) : p₁.knows id = p.knows id := by
      simp [hp₁, Progress.learn, Function.update_of_ne hid]
    have hpending : p₁.pending = p.pending := by rw [hp₁]; rfl
    cases hmine : row.filter (·.address = address) with
    | none =>
      refine (ih hlinks).mono fun r p' hr a ha => ?_
      obtain ⟨hswept, hhere⟩ := hr a ha
      refine ⟨hswept.cons (hlinks.trans hread.symm) (fun e he => .inl (hpending ▸ he))
        ⟨_, hknows, fun heq => ?_⟩ hother, hpending ▸ hhere⟩
      obtain ⟨row', rfl, hplace⟩ := Option.map_eq_some_iff.mp heq
      have haddress : row'.address = address := (Prod.mk.inj hplace).2
      simp [Option.filter, haddress] at hmine
    | some row' =>
      obtain ⟨rfl, haddress⟩ := Option.filter_eq_some_iff.mp hmine
      refine ends_bind delRow_keeps fun _ p₂ ⟨hp₂, hnetwork⟩ => ?_
      have hpending₂ : p₂.pending = (link.id, placeOf row') :: p.pending := by
        simp [hp₂, Progress.did, Progress.learn, hknows, hpending]
      have hlinks₂ : p₂.links = some ((network, address), l) := by
        rw [hp₂]
        exact hlinks
      have hknows₂ : p₂.knows link.id = some none := by simp [hp₂, Progress.did, Progress.learn]
      refine (ih hlinks₂).mono fun r p' hr a ha => ?_
      obtain ⟨hswept, hhere⟩ := hr a ha
      refine ⟨hswept.cons (hlinks₂.trans hread.symm) (fun e he => ?_) ⟨_, hknows₂, nofun⟩ fun id hid => ?_,
        fun hle hp => hhere hle fun e he => ?_⟩
      · rw [hpending₂] at he
        rcases List.mem_cons.mp he with rfl | he
        · exact .inr rfl
        · exact .inl he
      · rw [← hother id hid]
        simp [hp₂, Progress.did, Progress.learn, Function.update_of_ne hid]
      · rw [hpending₂] at he
        rcases List.mem_cons.mp he with rfl | he
        · exact Prod.ext (hnetwork hle _ _ hknows hlinks) (of_decide_eq_true haddress)
        · exact hp e he

theorem detachProviderByAccount_keeps {provider : Provider} : KeepsLinks met i .initial
    (detachProviderByAccount env address network provider) (ends fun _ p' => p'.pending = []) := by
  refine ends_bind readLinks_keeps fun links p₁ ⟨hp₁, hneat⟩ => ?_
  have hread : p₁.links = some ((network, address), links) := by rw [hp₁]
  refine ends_bind (deleteRows_keeps _ hread) fun _ p₂ ⟨hswept, hhere⟩ => ?_
  -- A link of the provider is the only one with its id.
  have hgone (id : String) (hid : id ∈ (links.filter (·.provider = provider)).map (·.id)) :
      ¬listed (links.filter (·.provider ≠ provider)) id = true := by
    intro hlisted
    obtain ⟨link, hlink, hprovider, hid'⟩ := listed_filter.mp hlisted
    obtain ⟨link', hlink', rfl⟩ := List.mem_map.mp hid
    obtain ⟨hmem, hprovider'⟩ := List.mem_filter.mp hlink'
    have hsame : link = link' := List.inj_on_of_nodup_map hneat.nodup hlink hmem hid'
    subst hsame
    simp at hprovider hprovider'
    exact hprovider hprovider'
  refine ends_bind (writeLinks_keeps (l := links) (hneat.filter _) fun hle =>
    ⟨hswept.read.trans hread, ?_, fun id hid => ?_⟩) fun _ p₃ hp₃ => ends_ret hp₃
  · apply hhere hle
    intro e he
    rw [hp₁] at he
    cases he
  · have hdoomed : id ∈ (links.filter (·.provider = provider)).map (·.id) := by
      rcases hid with hmem | hchanged
      · rcases hswept.pending _ hmem with hbefore | hid
        · rw [hp₁] at hbefore
          cases hbefore
        · exact hid
      · by_contra hnot
        refine hchanged (Bool.eq_iff_iff.mpr ?_)
        rw [listed_filter]
        simp only [listed, List.any_eq_true, decide_eq_true_eq]
        refine exists_congr fun link => and_congr_right fun hlink =>
          ⟨fun heq => ⟨fun h => hnot ?_, heq⟩, And.right⟩
        exact List.mem_map.mpr ⟨link, List.mem_filter.mpr ⟨hlink, by simpa using h⟩, heq⟩
    obtain ⟨q, hq, hne⟩ := hswept.known id hdoomed
    exact ⟨q, hq, iff_of_false hne (hgone id hdoomed)⟩

theorem call_keeps (request : Request) :
    KeepsLinks met i .initial (request.call env) (ends fun _ p' => p'.pending = []) := by
  cases request with
  | attach resolved address network box passkeyProof accountProof =>
    exact ends_bind attachIdentity_keeps fun _ _ hp => ends_ret hp
  | detach resolved network accountProof =>
    exact ends_bind detachIdentity_keeps fun _ _ hp => ends_ret hp
  | detachProvider address network provider =>
    exact ends_bind detachProviderByAccount_keeps fun _ _ hp => ends_ret hp

/-! ## Over a whole run -/

variable {requests : ι → Request} {x : State ι}

/-- **Indices are bounded**, in every run. -/
theorem index_bounded (hs : Tidy s) (hconsistent : Consistent s) (hrun : Run env requests s met x)
    (k : Place) : (index x.world.shared k).length ≤ maxLinksPerAccount := by
  obtain ⟨hsound, -⟩ := leads_keeps (sound_started hs hconsistent) (fun _ _ h => h.passes)
    (fun i => call_keeps (requests i)) hrun
  exact (hsound.tidy.neat k).bound

/-- **Rows and indices agree** between the calls of a run whose rows and indices are written in good
order; and no identity is taken from an account to another. -/
theorem links_consistent (hs : Tidy s) (hconsistent : Consistent s)
    (hrun : Run env requests s Careful x) :
    (Quiet env requests x → Consistent x.world.shared) ∧
    (∀ i, (x.world.calls i).repoints = []) ∧
    ∀ k, (index x.world.shared k).length ≤ maxLinksPerAccount := by
  obtain ⟨hsound, hbegin, hended⟩ := leads_keeps (sound_started hs hconsistent)
    (fun _ _ h => h.passes) (fun i => call_keeps (requests i)) hrun
  refine ⟨fun hquiet => hsound.consistent le_rfl fun i => ?_, hsound.kept le_rfl,
    index_bounded hs hconsistent hrun⟩
  rcases hquiet i with hi | hi | ⟨e, -, hpending⟩
  · rw [hbegin i hi]
    rfl
  · exact hended i _ hi () rfl
  · exact hpending

end

namespace Demo

local instance inhabited : NeZero 2 := ⟨by decide⟩

def account : String := "GAAAAAAAAAAAAAAAAAAAAAAAAAAAAAAAAAAAAAAAAAAAAAAAAAAAAWHF"

theorem plain_thousand : ':' ∉ "1000".toList := by decide

def second : Number := ⟨"1000", plain_thousand⟩

/-- Nothing is hashed, and a signature is the text that was signed. -/
def env : Env where
  sha256Hex s := s
  finite _ := some 1000
  verifies _ message proof := message == proof
  toLowerCase s := s
  federationDomain := "getlumenia.com"
  toLowerCase_name _ _ := rfl
  validateBox _ := .error "not a box"
  quote s := "\"" ++ s ++ "\""
  oauthConfig _ := false
  publicUrl := ""
  webUrl := ""

/-- The account connects an identity. -/
def attach (network : NetworkId) : Request :=
  .attach ⟨.email, "somebody", none⟩ account network none none
    (some ⟨second, "00000000", handleProofMessage .links "attach" account second "00000000" network⟩)

def empty : Store := ⟨1000000, .empty, []⟩

theorem tidy_empty : Tidy empty := tidy_nothing.passes ⟨Nat.zero_le _, rfl⟩

/-- The identity is connected on one network. -/
def connected : Store :=
  after (after empty (.set (.identity "somebody") ⟨.email, account, .testnet, 0, none, none⟩ none))
    (writes (.testnet, account) [⟨.email, "somebody", 0⟩])

theorem tidy_connected : Tidy connected :=
  tidy_empty.set_row.write ⟨by decide, List.nodup_singleton _⟩

theorem consistent_connected : Consistent connected := by
  intro id k
  have hplace : place connected id =
      place (after empty (.set (.identity "somebody") ⟨.email, account, .testnet, 0, none, none⟩ none)) id :=
    place_writes
  rw [hplace]
  by_cases hk : k = (.testnet, account)
  · subst hk
    have hindex : index connected (.testnet, account) = [⟨.email, "somebody", 0⟩] := index_writes
    rw [hindex]
    by_cases hid : id = "somebody"
    · subst hid
      exact iff_of_true (by decide) place_set
    · have hnone : place (after empty (.set (.identity "somebody") ⟨.email, account, .testnet, 0, none, none⟩
          none)) id = none := place_after fun hkey => hid (Key.identity.inj hkey).symm
      rw [hnone]
      exact iff_of_false (by simp [listed, Ne.symm hid]) nofun
  · have hindex : index connected k = [] := index_writes_ne hk
    rw [hindex]
    apply iff_of_false nofun
    intro hhere
    by_cases hid : id = "somebody"
    · subst hid
      exact hk (Option.some.inj (hhere.symm.trans place_set))
    · have hnone : place (after empty (.set (.identity "somebody") ⟨.email, account, .testnet, 0, none, none⟩
          none)) id = none := place_after fun hkey => hid (Key.identity.inj hkey).symm
      rw [hnone] at hhere
      cases hhere

/-- An identity is connected, and then all of its provider are disconnected. -/
def forth (i : Fin 2) : Request :=
  if i = 0 then attach .testnet else .detachProvider account .testnet .email

/-- An identity is connected on another network. -/
def moved (i : Fin 2) : Request :=
  if i = 0 then attach .mainnet else .detachProvider account .testnet .passkey

/-- One call after the other. -/
def inTurn : List (Fin 2 × Chance) :=
  List.replicate 7 (0, .plain "" "") ++ List.replicate 4 (1, .plain "" "")

@[irreducible] def played (s : Store) (requests : Fin 2 → Request) : State (Fin 2) :=
  (started s .initial fun i => (requests i).call env).play tracking.meet inTurn

def careful (i : Fin 2) (w : Scene (Fin 2)) : Ask → Bool
  | .run (.set (.identity id) row _) =>
    (w.calls i).knows id = some (place w.shared id) &&
      (place w.shared id).all (·.1 = row.network)
  | .run (.del (.identity id)) =>
    (w.calls i).knows id = some (place w.shared id) &&
      (place w.shared id).all fun k => (w.calls i).links.all fun e => k.1 = e.1.1
  | .run (.set (.of_ network address) links _) => timely i w (network, address) links
  | .run (.del (.of_ network address)) => timely i w (network, address) []
  | _ => true
where
  timely (i : Fin 2) (w : Scene (Fin 2)) (k : Place) (links : List LinkSummary) : Bool :=
    (w.calls i).links = some (k, index w.shared k) &&
      ((w.calls i).pending.map Prod.fst ++ (index w.shared k ++ links).map (·.id)).all
        fun id => ((w.calls i).knows id).all (place w.shared id = ·)

theorem timely_of_check {i : Fin 2} {w : Scene (Fin 2)} {k : Place} {links : List LinkSummary}
    (h : careful.timely i w k links = true) : Timely w i k links := by
  simp only [careful.timely, Bool.and_eq_true, decide_eq_true_eq, List.all_eq_true] at h
  refine ⟨h.1, fun id hid q hq => ?_⟩
  have hmem : id ∈ (w.calls i).pending.map Prod.fst ++ (index w.shared k ++ links).map (·.id) := by
    rw [List.mem_append, List.map_append, List.mem_append]
    rcases hid with hpending | hchanged
    · exact .inl (List.mem_map.mpr ⟨_, hpending, rfl⟩)
    · by_contra hnot
      simp only [not_or, List.mem_map, not_exists, not_and] at hnot
      refine hchanged (Bool.eq_iff_iff.mpr ?_)
      simp only [listed, List.any_eq_true, decide_eq_true_eq]
      exact iff_of_false (fun ⟨l, hl, hid⟩ => hnot.2.1 l hl hid) fun ⟨l, hl, hid⟩ => hnot.2.2 l hl hid
  have hall := h.2 id hmem
  rw [hq] at hall
  simpa using hall

theorem careful_of_check {i : Fin 2} {w : Scene (Fin 2)} {c : Command}
    (h : careful i w (.run c) = true) : CommandCareful w i c := by
  unfold CommandCareful
  split
  · simp only [careful, Bool.and_eq_true, decide_eq_true_eq, Option.all_eq_true] at h
    exact ⟨h.1, fun k hk => h.2 k hk⟩
  · simp only [careful, Bool.and_eq_true, decide_eq_true_eq, Option.all_eq_true] at h
    exact ⟨h.1, fun k e hk he => h.2 k hk e he⟩
  · exact timely_of_check h
  · exact timely_of_check h
  · trivial

def ended (x : State (Fin 2)) : Bool := decide (∀ i, (x.prog i).result = some (.ok ()))

theorem quiet_of_ended {requests : Fin 2 → Request} {x : State (Fin 2)} (h : ended x = true) :
    Quiet env requests x := fun i => .inr (.inl (eq_ret_of_result (of_decide_eq_true h i)))

theorem forth_ends :
    (started empty .initial fun i => (forth i).call env).fairly tracking.meet
      (fun i d w q => decide (d.fate = .done) && careful i w q) inTurn = true ∧
    ended (played empty forth) = true ∧ place (played empty forth).world.shared "somebody" = none := by
  unfold played
  decide +kernel

theorem moved_ends : ended (played connected moved) = true ∧
    listed (index (played connected moved).world.shared (.testnet, account)) "somebody" = true ∧
    place (played connected moved).world.shared "somebody" = some (.mainnet, account) := by
  unfold played
  decide +kernel

theorem run_forth : Run env forth empty Careful (played empty forth) := by
  unfold played
  refine leads_meet (fun i d w q h => ?_) forth_ends.1
  rw [Bool.and_eq_true, decide_eq_true_eq] at h
  cases q with
  | run c =>
    refine ⟨fun _ => careful_of_check h.2, fun ⟨message, hrefused⟩ => ?_⟩
    rw [h.1] at hrefused
    cases hrefused
  | _ => trivial

theorem run_moved : Run env moved connected (fun _ _ _ _ => True) (played connected moved) := by
  unfold played
  exact leads_meet (fun _ _ _ _ _ => trivial) fairly_true

end Demo

/-- An identity that is connected and then disconnected leads nowhere, and is listed nowhere. -/
theorem links_consistent_in_turn : Consistent (Demo.played Demo.empty Demo.forth).world.shared ∧
    place (Demo.played Demo.empty Demo.forth).world.shared "somebody" = none := by
  obtain ⟨-, hended, hplace⟩ := Demo.forth_ends
  have hconsistent := (links_consistent Demo.tidy_empty (fun _ _ => ⟨nofun, nofun⟩) Demo.run_forth).1
  exact ⟨hconsistent (Demo.quiet_of_ended hended), hplace⟩

/-- An identity that its account connects again on another network stays listed on the first. -/
theorem index_left_behind : ¬∀ (env : Env) (requests : Fin 2 → Request) (s : Store) x, Tidy s →
    Consistent s → Run env requests s (fun _ _ _ _ => True) x →
    (Quiet env requests x → Consistent x.world.shared) ∧
    (∀ i, (x.world.calls i).repoints = []) ∧
    ∀ k, (index x.world.shared k).length ≤ maxLinksPerAccount := by
  intro h
  obtain ⟨hended, hlisted, hplace⟩ := Demo.moved_ends
  have hall := h _ _ _ _ Demo.tidy_connected Demo.consistent_connected Demo.run_moved
  have hfirst := (hall.1 (Demo.quiet_of_ended hended) "somebody" (.testnet, Demo.account)).mp hlisted
  rw [hplace] at hfirst
  cases hfirst

end Lumenia.Sponsor.Identity.Linking
