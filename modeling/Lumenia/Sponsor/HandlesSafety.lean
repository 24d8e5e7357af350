import Lumenia.Sponsor.Handles
import Lumenia.Sponsor.ProofsSafety

/-!
# The registry of handles

Any number of claims and releases against one store, a command of theirs at a time, with the keys
expiring by its clock. `registry_unique`: while a call writes a record only over what it has read, an
account has one live name at most, the skeleton of a live name is held for it without an expiry, and
no call deletes or writes over what the name of another account relies on. `skeleton_given_back`: of two claims of one
name, the one that took its skeleton gives that back although the other has got the name.
-/

namespace Lumenia.Sponsor.Handles

open Dialogue Proofs

/-! ## Live names -/

structure Store where
  now : ℕ
  cells : Cells Key.Entry

namespace Store

variable (s : Store)

/-- Whose name this is, unless it has been released. -/
def owner (name : String) : Option String :=
  ((s.cells.get s.now (.name name)).filter (·.releasedUntil.isNone)).map (·.pubkey)

/-- A live name of the account relies on its record, its skeleton and the pointer of the account. -/
def Relies (q : String) (key : Key) : Prop :=
  ∃ name, s.owner name = some q ∧ (key = .name name ∨ key = .skel (skeleton name) ∨ key = .of_ q)

/-- What the registry is for. -/
structure Unique : Prop where
  one : ∀ n m q, s.owner n = some q → s.owner m = some q → n = m
  held : ∀ n q, s.owner n = some q → s.cells (.skel (skeleton n)) = some (n, none)
  apart : ∀ n m q r, s.owner n = some q → s.owner m = some r → skeleton n = skeleton m → n = m

/-- Every account with a live name has a pointer, too. -/
structure Registered : Prop extends Unique s where
  pointed : ∀ n q, s.owner n = some q → ∃ m, s.cells (.of_ q) = some (m, none)

/-- The key whose value a command deletes, or the record that it writes over. -/
def displaced : Command → Option Key
  | .del key => some key
  | .set (.name name) _ _ =>
    if (s.cells.get s.now (.name name)).isSome then some (.name name) else none
  | _ => none

variable {s} {s' : Store} {name q : String}

theorem owner_eq_some : s.owner name = some q ↔
    ∃ rec, s.cells.get s.now (.name name) = some rec ∧ rec.releasedUntil = none ∧ rec.pubkey = q := by
  simp [owner, Option.filter_eq_some_iff, and_assoc]

theorem owner_congr (hnow : s'.now = s.now) (hcell : s'.cells (.name name) = s.cells (.name name)) :
    s'.owner name = s.owner name := by
  rw [owner, owner, hnow, Cells.get_congr hcell]

theorem owner_of_le (hle : s.now ≤ s'.now) (hcells : s'.cells = s.cells)
    (h : s'.owner name = some q) : s.owner name = some q := by
  obtain ⟨rec, hget, hlive⟩ := owner_eq_some.mp h
  exact owner_eq_some.mpr ⟨rec, Cells.get_of_le hle (hcells ▸ hget), hlive⟩

theorem Relies.owner (h : s.Relies q (.name name)) : s.owner name = some q := by
  obtain ⟨m, hm, hname | hskel | hof⟩ := h
  · exact Key.name.inj hname ▸ hm
  · cases hskel
  · cases hof

theorem registered_empty {now : ℕ} : Registered ⟨now, .empty⟩ where
  one := nofun
  held := nofun
  apart := nofun
  pointed := nofun

end Store

/-! ## Calls side by side -/

/-- How far a call has come with its writes. -/
structure Progress where
  /-- What its last read of a record found. -/
  seen : Option HandleRecord
  /-- Whom it has found the skeleton held for, or has taken it for. -/
  holder : Option String
  /-- The name and the account of the record that it has written, and not yet the pointer. -/
  claiming : Option (String × String)
  /-- The skeleton that it may yet give back, or set an expiry for. -/
  minding : Option String
  /-- The account whose pointer it has yet to delete. -/
  dropping : Option String

namespace Progress

def initial : Progress := ⟨none, none, none, none, none⟩

/-- The call has read a record that is not a tombstone. -/
def SeenLive (p : Progress) : Prop := p.seen.any (·.releasedUntil.isNone) = true

instance (p : Progress) : Decidable p.SeenLive := inferInstanceAs (Decidable (_ = true))

/-- The call has written the record: a claim, a move to another network, or a tombstone. -/
def wrote (p : Progress) (name : String) (rec : HandleRecord) : Progress :=
  if rec.releasedUntil.isSome then
    { p with minding := some (skeleton name), dropping := some rec.pubkey }
  else if p.SeenLive then p
  else { p with claiming := some (name, rec.pubkey) }

/-- The store has executed the command of the call, with this answer. -/
def next (p : Progress) : (c : Command) → c.Answer → Progress
  | .get (.name _), found => { p with seen := found }
  | .get (.skel _), found => { p with holder := found }
  | .set (.name name) rec _, _ => p.wrote name rec
  | .setNx (.name name) rec _, taken => if taken then p.wrote name rec else p
  | .setNx (.skel skel) name _, taken =>
    if taken then { p with holder := some name, minding := some skel } else p
  | .setNx (.of_ _) _ _, taken => if taken then { p with claiming := none, minding := none } else p
  | .set (.skel _) _ _, _ => { p with minding := none }
  | .del (.name _), _ => { p with claiming := none }
  | .del (.skel _), _ => { p with minding := none }
  | .del (.of_ _), _ => { p with dropping := none }
  | _, _ => p

/-- The call is cut off before it has come to its end. -/
def cutOff (p : Progress) : Progress := { p with minding := none, dropping := none }

/-- The store has refused the command of the call, in an answer that has come: the call goes on as if
the key were empty, or as if it had stored or deleted it; after `SET … NX` it throws. -/
def refused (p : Progress) : Command → Progress
  | .get key => p.next (.get key) none
  | .set key v ttl => p.next (.set key v ttl) ()
  | .setNx .. => p.cutOff
  | .del key => p.next (.del key) ()

end Progress

/-- A call has deleted a key, or written over a record, in this store. -/
structure Removal (ι : Type) where
  call : ι
  key : Key
  store : Store

structure World (ι : Type) extends Store where
  calls : ι → Progress
  removals : List (Removal ι)

namespace World

variable {ι : Type} [DecidableEq ι]

/-- The store executes a command of the call. -/
def after (w : World ι) (i : ι) (c : Command) : World ι where
  now := w.now
  cells := (w.cells.exec w.now c).2
  calls := Function.update w.calls i ((w.calls i).next c (w.cells.exec w.now c).1)
  removals := w.removals ++ (w.displaced c).toList.map (⟨i, ·, w.toStore⟩)

/-- The call has come this far. -/
def put (w : World ι) (i : ι) (p : Progress) : World ι :=
  { w with calls := Function.update w.calls i p }

/-- The answer to a command, and the world it leaves. -/
def meets (w : World ι) (i : ι) (c : Command) :
    Cells.Delivery → Except String (Except String c.Answer) × World ι
  | .done => (.ok (.ok (w.cells.exec w.now c).1), w.after i c)
  | .lost message => (.error message, (w.after i c).put i ((w.after i c).calls i).cutOff)
  | .failed message => (.error message, w.put i (w.calls i).cutOff)
  | .refused message => (.ok (.error message), w.put i ((w.calls i).refused c))

end World

section

variable {ι : Type}

/-- Time goes by. -/
def Passes (w w' : World ι) : Prop := w.now ≤ w'.now ∧ w' = { w with now := w'.now }

/-- What is asked of the steps of a run: of the call, the world before, the command and its delivery. -/
abbrev Condition (ι : Type) := ι → World ι → Command → Cells.Delivery → Prop

inductive Steps [DecidableEq ι] (met : Condition ι) (i : ι) :
    World ι → (q : Ask) → q.Answer → World ι → Prop
  | run {w : World ι} {c : Command} {delivery : Cells.Delivery} (h : met i w c delivery) :
    Steps met i w (.run c) (w.meets i c delivery).1 (w.meets i c delivery).2
  | now {w : World ι} : Steps met i w .now w.now w

inductive Request
  | claim (input : ProofInput)
  | release (input : ProofInput)

def Request.account : Request → String
  | claim input | release input => input.pubkey

def Request.call (env : Env) : Request → Call Unit
  | claim input => do
    let _ ← claimHandle env input
    return ()
  | release input => do
    let _ ← releaseHandle env input
    return ()

abbrev State (ι : Type) := Crowd ι Ask.Answer String Unit (World ι)

variable (env : Env) (requests : ι → Request) (s : Store)

def opening : State ι := ⟨⟨s, fun _ => .initial, []⟩, fun i => (requests i).call env⟩

def Run [DecidableEq ι] (met : Condition ι) (x : State ι) : Prop :=
  Leads (Steps met) Passes (opening env requests s) x

/-- No call is midway: none has begun without having ended. -/
def Quiet (x : State ι) : Prop :=
  ∀ i, x.prog i = (requests i).call env ∨ ∃ r, x.prog i = .ret r

/-! ## Good order -/

/-- Some call has written the record of the name for the account, and not yet its pointer. -/
def Claimed (w : World ι) (name q : String) : Prop := ∃ i, (w.calls i).claiming = some (name, q)

/-- The record of the name is as the call has read it, or its expiry has come since. -/
def AsRead (w : World ι) (i : ι) (name : String) : Prop :=
  w.cells.get w.now (.name name) = (w.calls i).seen ∨ w.cells.get w.now (.name name) = none

/-- No other call stands between the reads of the call and this record. What is live is written over
as it was read, and no claim of the name has yet to write its pointer when the name is released. A
claim of a name that is not live writes while the skeleton is held as the call has found it, without
an expiry, and while no other call has yet to write its pointer to the name, or may yet give the
skeleton back or set an expiry for it. -/
def Undisturbed (w : World ι) (i : ι) (name : String) (rec : HandleRecord) : Prop :=
  if (w.calls i).SeenLive then
    w.cells.get w.now (.name name) = (w.calls i).seen ∧
    (rec.releasedUntil.isSome → ∀ q, ¬Claimed w name q)
  else
    AsRead w i name ∧ w.cells (.skel (skeleton name)) = (w.calls i).holder.map (·, none) ∧
    ∀ j, j ≠ i → (w.calls j).minding ≠ some (skeleton name) ∧
      ∀ q, (w.calls j).claiming ≠ some (name, q)

/-- A record is written undisturbed, and a claim takes no pointer that a release has yet to delete. -/
def CommandCareful (w : World ι) (i : ι) : Command → Prop
  | .set (.name name) rec _ => Undisturbed w i name rec
  | .setNx (.name name) rec _ => w.cells.get w.now (.name name) = none → Undisturbed w i name rec
  | .setNx (.of_ q) _ _ => w.cells.get w.now (.of_ q) = none → ∀ j, (w.calls j).dropping ≠ some q
  | _ => True

/-- The call can do without the command: it is no write of a record but a move to another network,
and no deletion of one. -/
def Dispensable (p : Progress) : Command → Prop
  | .set (.name _) rec _ => rec.releasedUntil = none ∧ p.SeenLive
  | .del (.name _) => False
  | _ => True

/-- Commands that are executed are careful, those that are refused are dispensable, and no call breaks
off between the record and the pointer. -/
def Careful [DecidableEq ι] : Condition ι
  | i, w, c, .done => CommandCareful w i c
  | i, w, c, .lost _ => CommandCareful w i c ∧ ((w.after i c).calls i).claiming = none
  | i, w, _, .failed _ => (w.calls i).claiming = none
  | i, w, .setNx .., .refused _ => (w.calls i).claiming = none
  | i, w, c, .refused _ => Dispensable (w.calls i) c

/-! ## What is kept -/

/-- A call has taken away nothing that the name of another account relies on. -/
def Removal.Harmless (requests : ι → Request) (r : Removal ι) : Prop :=
  ∀ q, q ≠ (requests r.call).account → ¬r.store.Relies q r.key

structure Sound (requests : ι → Request) (w : World ι) : Prop where
  held : ∀ n q, w.owner n = some q → w.cells (.skel (skeleton n)) = some (n, none)
  pointed : ∀ n q, w.owner n = some q → Claimed w n q ∨ ∃ m, w.cells (.of_ q) = some (m, none)
  one : ∀ n m q, w.owner n = some q → w.owner m = some q → ¬Claimed w n q → ¬Claimed w m q → n = m
  /-- The skeleton a call may yet give back is relied on by the call alone. -/
  minded : ∀ i s, (w.calls i).minding = some s → ∀ m q, w.owner m = some q → skeleton m = s →
    (w.calls i).claiming = some (m, q)
  /-- A name that is being claimed is no other account's. -/
  own : ∀ i n p, (w.calls i).claiming = some (n, p) → ∀ q, w.owner n = some q → q = p
  /-- No settled name is left without its pointer. -/
  dropped : ∀ i p, (w.calls i).dropping = some p → ∀ m, w.owner m = some p → Claimed w m p
  harmless : ∀ r ∈ w.removals, r.Harmless requests

variable {requests} {w w' : World ι} {i : ι}

/-- Between calls the registry is in order. -/
theorem Sound.unique (h : Sound requests w) (hquiet : ∀ i, (w.calls i).claiming = none) :
    Store.Unique w.toStore where
  one n m q hn hm := by
    have hclaimed (k : String) : ¬Claimed w k q := fun ⟨i, hi⟩ => by
      rw [hquiet i] at hi
      cases hi
    exact h.one n m q hn hm (hclaimed n) (hclaimed m)
  held := h.held
  apart n m q r hn hm hsame := by
    have hcells := (h.held n q hn).symm.trans (hsame ▸ h.held m r hm)
    exact (Prod.mk.inj (Option.some.inj hcells)).1

theorem sound_opening (env : Env) (hs : s.Registered) :
    Sound requests (opening env requests s).world where
  held := hs.held
  pointed n q hn := .inr (hs.pointed n q hn)
  one n m q hn hm _ _ := hs.one n m q hn hm
  minded := nofun
  own := nofun
  dropped := nofun
  harmless := nofun

/-- What keeps the registry in order: no name becomes live, and none loses what it relies on. -/
structure Shrinks (requests : ι → Request) (w w' : World ι) : Prop where
  owner : ∀ m q, w'.owner m = some q → w.owner m = some q
  held : ∀ m q, w'.owner m = some q →
    w'.cells (.skel (skeleton m)) = w.cells (.skel (skeleton m))
  pointed : ∀ m q, w'.owner m = some q → (∃ m', w.cells (.of_ q) = some (m', none)) →
    Claimed w m q ∨ ∃ m', w'.cells (.of_ q) = some (m', none)
  claiming : ∀ j n p, (w'.calls j).claiming = some (n, p) → (w.calls j).claiming = some (n, p)
  claimed : ∀ j m q, w'.owner m = some q → (w.calls j).claiming = some (m, q) →
    (w'.calls j).claiming = some (m, q)
  minding : ∀ j s, (w'.calls j).minding = some s → (w.calls j).minding = some s ∨
    ∀ m q, w'.owner m = some q → skeleton m ≠ s
  dropping : ∀ j p, (w'.calls j).dropping = some p → (w.calls j).dropping = some p ∨
    ∀ m, w'.owner m = some p → Claimed w m p
  removals : ∀ r ∈ w'.removals, r ∈ w.removals ∨ r.Harmless requests

theorem Sound.shrink (h : Sound requests w) (hw : Shrinks requests w w') : Sound requests w' where
  held n q hn := (hw.held n q hn).trans (h.held n q (hw.owner n q hn))
  pointed n q hn := by
    have hstays : Claimed w n q → Claimed w' n q := fun ⟨j, hj⟩ => ⟨j, hw.claimed j n q hn hj⟩
    rcases h.pointed n q (hw.owner n q hn) with hclaimed | hpointed
    · exact .inl (hstays hclaimed)
    · exact (hw.pointed n q hn hpointed).imp_left hstays
  one n m q hn hm hn' hm' := by
    refine h.one n m q (hw.owner n q hn) (hw.owner m q hm) ?_ ?_
    · exact fun ⟨j, hj⟩ => hn' ⟨j, hw.claimed j n q hn hj⟩
    · exact fun ⟨j, hj⟩ => hm' ⟨j, hw.claimed j m q hm hj⟩
  minded j s hj m q hm hs := by
    rcases hw.minding j s hj with hj' | hnone
    · exact hw.claimed j m q hm (h.minded j s hj' m q (hw.owner m q hm) hs)
    · exact absurd hs (hnone m q hm)
  own j n p hj q hn := h.own j n p (hw.claiming j n p hj) q (hw.owner n q hn)
  dropped j p hj m hm := by
    have hclaimed : Claimed w m p := by
      rcases hw.dropping j p hj with hj' | hall
      · exact h.dropped j p hj' m (hw.owner m p hm)
      · exact hall m hm
    obtain ⟨k, hk⟩ := hclaimed
    exact ⟨k, hw.claimed k m p hm hk⟩
  harmless r hr := by
    rcases hw.removals r hr with hr' | hr'
    · exact h.harmless r hr'
    · exact hr'

/-- No live name relies on the skeleton that a call may yet give back, once it claims none. -/
theorem Sound.not_relied (h : Sound requests w) {s : String}
    (hminding : (w.calls i).minding = some s) (hclaiming : (w.calls i).claiming = none) {m q : String}
    (hm : w.owner m = some q) : skeleton m ≠ s := by
  intro hs
  have hclaimed := h.minded i s hminding m q hm hs
  rw [hclaiming] at hclaimed
  cases hclaimed

/-! ## Commands -/

variable [DecidableEq ι] {c : Command}

@[simp] theorem after_calls_self : (w.after i c).calls i =
    (w.calls i).next c (w.cells.exec w.now c).1 := Function.update_self ..

@[simp] theorem after_calls_ne {j : ι} (h : j ≠ i) : (w.after i c).calls j = w.calls j :=
  Function.update_of_ne h ..

theorem after_set_cells {key : Key} {v : key.Entry} {ttl : Option ℕ} :
    (w.after i (.set key v ttl)).cells = w.cells.set key v (ttl.map (w.now + ·)) := rfl

theorem after_del_cells {key : Key} : (w.after i (.del key)).cells = w.cells.del key := rfl

@[simp] theorem put_calls_self {p : Progress} : (w.put i p).calls i = p := Function.update_self ..

@[simp] theorem put_calls_ne {p : Progress} {j : ι} (h : j ≠ i) : (w.put i p).calls j = w.calls j :=
  Function.update_of_ne h ..

/-- What a command of the call has to be for the registry to shrink: only what the call itself is
about loses what it relies on. -/
structure Tame (requests : ι → Request) (w : World ι) (i : ι) (c : Command) : Prop where
  owner : ∀ m q, (w.after i c).owner m = some q → w.owner m = some q
  held : ∀ m q, (w.after i c).owner m = some q →
    (w.after i c).cells (.skel (skeleton m)) = w.cells (.skel (skeleton m))
  pointed : ∀ m q, (w.after i c).owner m = some q → (∃ m', w.cells (.of_ q) = some (m', none)) →
    Claimed w m q ∨ ∃ m', (w.after i c).cells (.of_ q) = some (m', none)
  claiming : ∀ n p, ((w.after i c).calls i).claiming = some (n, p) →
    (w.calls i).claiming = some (n, p)
  claimed : ∀ m q, (w.after i c).owner m = some q → (w.calls i).claiming = some (m, q) →
    ((w.after i c).calls i).claiming = some (m, q)
  minding : ∀ s, ((w.after i c).calls i).minding = some s → (w.calls i).minding = some s ∨
    ∀ m q, (w.after i c).owner m = some q → skeleton m ≠ s
  dropping : ∀ p, ((w.after i c).calls i).dropping = some p → (w.calls i).dropping = some p ∨
    ∀ m, (w.after i c).owner m = some p → Claimed w m p
  removal : ∀ key, w.displaced c = some key → Removal.Harmless requests ⟨i, key, w.toStore⟩

theorem mem_removals_after {r : Removal ι} (h : r ∈ (w.after i c).removals) :
    r ∈ w.removals ∨ ∃ key, w.displaced c = some key ∧ r = ⟨i, key, w.toStore⟩ := by
  rcases List.mem_append.mp h with h | h
  · exact .inl h
  · obtain ⟨key, hkey, rfl⟩ := List.mem_map.mp h
    exact .inr ⟨key, Option.mem_toList.mp hkey, rfl⟩

theorem Sound.tame (h : Sound requests w) (hc : Tame requests w i c) :
    Sound requests (w.after i c) := by
  refine h.shrink ⟨hc.owner, hc.held, hc.pointed, fun j n p => ?_, fun j m q hm => ?_, fun j s => ?_,
    fun j p => ?_, fun r hr => ?_⟩
  · by_cases hj : j = i
    · subst hj
      exact hc.claiming n p
    · rw [after_calls_ne hj]
      exact id
  · by_cases hj : j = i
    · subst hj
      exact hc.claimed m q hm
    · rw [after_calls_ne hj]
      exact id
  · by_cases hj : j = i
    · subst hj
      exact hc.minding s
    · rw [after_calls_ne hj]
      exact .inl
  · by_cases hj : j = i
    · subst hj
      exact hc.dropping p
    · rw [after_calls_ne hj]
      exact .inl
  · rcases mem_removals_after hr with hr | ⟨key, hkey, rfl⟩
    · exact .inl hr
    · exact .inr (hc.removal key hkey)

/-- A call that still claims the same, and has less to give back or to delete. -/
theorem Sound.put (h : Sound requests w) {p : Progress}
    (hclaiming : p.claiming = (w.calls i).claiming)
    (hminding : ∀ s, p.minding = some s → (w.calls i).minding = some s)
    (hdropping : ∀ q, p.dropping = some q → (w.calls i).dropping = some q) :
    Sound requests (w.put i p) := by
  have hsame (j : ι) : ((w.put i p).calls j).claiming = (w.calls j).claiming := by
    by_cases hj : j = i
    · subst hj
      rw [put_calls_self, hclaiming]
    · rw [put_calls_ne hj]
  refine h.shrink ⟨fun m q => id, fun m q _ => rfl, fun m q _ => .inr, fun j n q => ?_,
    fun j m q _ => ?_, fun j s hj => .inl ?_, fun j q hj => .inl ?_, fun r => .inl⟩
  · rw [hsame]
    exact id
  · rw [hsame]
    exact id
  · by_cases hji : j = i
    · subst hji
      rw [put_calls_self] at hj
      exact hminding s hj
    · exact put_calls_ne hji ▸ hj
  · by_cases hji : j = i
    · subst hji
      rw [put_calls_self] at hj
      exact hdropping q hj
    · exact put_calls_ne hji ▸ hj

theorem Sound.cutOff (h : Sound requests w) : Sound requests (w.put i (w.calls i).cutOff) :=
  h.put rfl nofun nofun

/-- A call goes on without a command that it can do without. -/
theorem Sound.refused (h : Sound requests w) (hc : Dispensable (w.calls i) c) :
    Sound requests (w.put i ((w.calls i).refused c)) := by
  cases c with
  | setNx key v ttl => exact h.cutOff
  | get key => cases key <;> exact h.put rfl (fun _ => id) fun _ => id
  | set key v ttl =>
    cases key with
    | name n =>
      obtain ⟨hlive, hseen⟩ := hc
      have hsame : (w.calls i).refused (.set (.name n) v ttl) = w.calls i := by
        rw [Progress.refused, Progress.next, Progress.wrote, if_neg (by simp [hlive]), if_pos hseen]
      rw [hsame]
      exact h.put rfl (fun _ => id) fun _ => id
    | skel s => exact h.put rfl nofun fun _ => id
    | of_ q => exact h.put rfl (fun _ => id) fun _ => id
    | ofLegacy network q => exact h.put rfl (fun _ => id) fun _ => id
    | proof hash => exact h.put rfl (fun _ => id) fun _ => id
  | del key =>
    cases key with
    | name n => exact hc.elim
    | skel s => exact h.put rfl nofun fun _ => id
    | of_ q => exact h.put rfl (fun _ => id) nofun
    | ofLegacy network q => exact h.put rfl (fun _ => id) fun _ => id
    | proof hash => exact h.put rfl (fun _ => id) fun _ => id

/-- A command that stores no name, no skeleton and no pointer, and that the call is not about. -/
theorem tame_of_same (hname : ∀ m, (w.after i c).cells (.name m) = w.cells (.name m))
    (hskel : ∀ s, (w.after i c).cells (.skel s) = w.cells (.skel s))
    (hof : ∀ q m', w.cells (.of_ q) = some (m', none) →
      ∃ m', (w.after i c).cells (.of_ q) = some (m', none))
    (hclaiming : ((w.after i c).calls i).claiming = (w.calls i).claiming)
    (hminding : ((w.after i c).calls i).minding = (w.calls i).minding)
    (hdropping : ((w.after i c).calls i).dropping = (w.calls i).dropping)
    (hremoval : ∀ key, w.displaced c = some key → Removal.Harmless requests ⟨i, key, w.toStore⟩) :
    Tame requests w i c where
  owner m q := by
    have hsame : (w.after i c).owner m = w.owner m := Store.owner_congr rfl (hname m)
    rw [hsame]
    exact id
  held m q _ := hskel _
  pointed m q _ := fun ⟨m', hm'⟩ => .inr (hof q m' hm')
  claiming n p := by
    rw [hclaiming]
    exact id
  claimed m q _ := by
    rw [hclaiming]
    exact id
  minding s := by
    rw [hminding]
    exact .inl
  dropping p := by
    rw [hdropping]
    exact .inl
  removal := hremoval

attribute [local simp] Progress.next in
theorem tame_get {key : Key} : Tame requests w i (.get key) := by
  refine tame_of_same (fun m => rfl) (fun s => rfl) (fun q m' h => ⟨m', h⟩) ?_ ?_ ?_
    fun _ hkey => by cases hkey
  all_goals cases key <;> simp

theorem tame_setNx_of_some {key : Key} {v v' : key.Entry} {ttl : Option ℕ}
    (h : w.cells.get w.now key = some v') : Tame requests w i (.setNx key v ttl) := by
  have hcells : (w.after i (.setNx key v ttl)).cells = w.cells :=
    congrArg Prod.snd (Cells.exec_setNx_of_some h)
  refine tame_of_same (fun m => by rw [hcells]) (fun s => by rw [hcells])
    (fun q m' hm => ⟨m', by rwa [hcells]⟩) ?_ ?_ ?_ fun _ hkey => by cases hkey
  all_goals cases key <;> simp [Progress.next, Cells.exec_setNx_of_some h]

theorem tame_setNx_proof {hash : String} {ttl : Option ℕ} :
    Tame requests w i (.setNx (.proof hash) () ttl) := by
  cases hget : w.cells.get w.now (.proof hash) with
  | some v => exact tame_setNx_of_some hget
  | none =>
    have hcells : (w.after i (.setNx (.proof hash) () ttl)).cells =
        w.cells.set (.proof hash) () (ttl.map (w.now + ·)) :=
      congrArg Prod.snd (Cells.exec_setNx_of_none hget)
    refine tame_of_same (fun m => ?_) (fun s => ?_) (fun q m' hm => ⟨m', ?_⟩) ?_ ?_ ?_
      fun _ hkey => by cases hkey
    · simp [hcells]
    · simp [hcells]
    · simpa [hcells] using hm
    all_goals simp [Progress.next]

theorem tame_set_of {q n : String} : Tame requests w i (.set (.of_ q) n none) := by
  refine tame_of_same (fun m => ?_) (fun s => ?_) (fun q' m' hm => ?_) ?_ ?_ ?_
    fun _ hkey => by cases hkey
  · simp [after_set_cells]
  · simp [after_set_cells]
  · rw [after_set_cells]
    by_cases hq : q' = q
    · subst hq
      exact ⟨n, Cells.set_self⟩
    · exact ⟨m', (Cells.set_of_ne fun heq => hq (Key.of_.inj heq)).trans hm⟩
  all_goals simp [Progress.next]

theorem tame_del_ofLegacy {network : NetworkId} {q : String} :
    Tame requests w i (.del (.ofLegacy network q)) := by
  refine tame_of_same (fun m => ?_) (fun s => ?_) (fun q' m' hm => ⟨m', ?_⟩) ?_ ?_ ?_ fun key hkey => ?_
  · simp [after_del_cells]
  · simp [after_del_cells]
  · simpa [after_del_cells] using hm
  · simp [Progress.next]
  · simp [Progress.next]
  · simp [Progress.next]
  · rintro q' - ⟨name, -, hrelies⟩
    cases hkey
    rcases hrelies with h | h | h <;> cases h

/-- A skeleton that is free is no live name's. -/
theorem Sound.tame_setNx_skel (h : Sound requests w) {s n : String} :
    Tame requests w i (.setNx (.skel s) n none) := by
  cases hget : w.cells.get w.now (.skel s) with
  | some v => exact tame_setNx_of_some hget
  | none =>
    have hcells : (w.after i (.setNx (.skel s) n none)).cells = w.cells.set (.skel s) n none :=
      congrArg Prod.snd (Cells.exec_setNx_of_none hget)
    have howner (m : String) : (w.after i (.setNx (.skel s) n none)).owner m = w.owner m :=
      Store.owner_congr rfl (by simp [hcells])
    have hfree (m q : String) (hm : w.owner m = some q) : skeleton m ≠ s := by
      intro heq
      have hheld : w.cells.get w.now (.skel (skeleton m)) = some m :=
        Cells.get_of_cell (h.held m q hm)
      rw [heq, hget] at hheld
      cases hheld
    have hnext : ((w.after i (.setNx (.skel s) n none)).calls i) =
        { w.calls i with holder := some n, minding := some s } := by
      simp [Progress.next, Cells.exec_setNx_of_none hget]
    refine ⟨fun m q hm => howner m ▸ hm, fun m q hm => ?_, fun m q _ hq => .inr ?_, ?_, ?_,
      fun s' hs => ?_, ?_, fun _ hkey => by cases hkey⟩
    · rw [hcells]
      exact Cells.set_of_ne fun heq => hfree m q (howner m ▸ hm) (Key.skel.inj heq)
    · simpa [hcells] using hq
    · rw [hnext]
      exact fun _ _ => id
    · rw [hnext]
      exact fun _ _ _ => id
    · rw [hnext] at hs
      obtain rfl := Option.some.inj hs
      exact .inr fun m q hm => hfree m q (howner m ▸ hm)
    · rw [hnext]
      exact fun _ => .inl

theorem Sound.tame_set_skel (h : Sound requests w) {s n : String} {ttl : Option ℕ}
    (hminding : (w.calls i).minding = some s) (hclaiming : (w.calls i).claiming = none) :
    Tame requests w i (.set (.skel s) n ttl) := by
  have howner (m : String) : (w.after i (.set (.skel s) n ttl)).owner m = w.owner m :=
    Store.owner_congr rfl (by simp [after_set_cells])
  refine ⟨fun m q hm => howner m ▸ hm, fun m q hm => ?_, fun m q _ hq => .inr ?_, ?_, ?_, ?_, ?_,
    fun _ hkey => by cases hkey⟩
  · rw [after_set_cells]
    exact Cells.set_of_ne fun heq =>
      h.not_relied hminding hclaiming (howner m ▸ hm) (Key.skel.inj heq)
  · simpa [after_set_cells] using hq
  · simp [Progress.next]
  · simp [Progress.next]
  · simp [Progress.next]
  · exact fun p hp => .inl (by simpa [Progress.next] using hp)

theorem Sound.tame_del_skel (h : Sound requests w) {s : String}
    (hminding : (w.calls i).minding = some s) (hclaiming : (w.calls i).claiming = none) :
    Tame requests w i (.del (.skel s)) := by
  have howner (m : String) : (w.after i (.del (.skel s))).owner m = w.owner m :=
    Store.owner_congr rfl (by simp [after_del_cells])
  refine ⟨fun m q hm => howner m ▸ hm, fun m q hm => ?_, fun m q _ hq => .inr ?_, ?_, ?_, ?_, ?_,
    fun key hkey => ?_⟩
  · rw [after_del_cells]
    exact Cells.del_of_ne fun heq =>
      h.not_relied hminding hclaiming (howner m ▸ hm) (Key.skel.inj heq)
  · simpa [after_del_cells] using hq
  · simp [Progress.next]
  · simp [Progress.next]
  · simp [Progress.next]
  · exact fun p hp => .inl (by simpa [Progress.next] using hp)
  · rintro q - ⟨m, hm, hrelies⟩
    cases hkey
    rcases hrelies with heq | heq | heq
    · cases heq
    · exact h.not_relied hminding hclaiming hm (Key.skel.inj heq).symm
    · cases heq

/-- A claim takes back the record that it has written. -/
theorem Sound.tame_del_name (h : Sound requests w) {n : String}
    (hclaiming : (w.calls i).claiming = some (n, (requests i).account)) :
    Tame requests w i (.del (.name n)) := by
  have hnone : (w.after i (.del (.name n))).owner n = none := by
    simp [Store.owner, after_del_cells]
  have hne {m q : String} (hm : (w.after i (.del (.name n))).owner m = some q) : m ≠ n := by
    rintro rfl
    rw [hnone] at hm
    cases hm
  have howner {m q : String} (hm : (w.after i (.del (.name n))).owner m = some q) :
      w.owner m = some q := by
    have hcell : (w.after i (.del (.name n))).cells (.name m) = w.cells (.name m) := by
      rw [after_del_cells]
      exact Cells.del_of_ne fun heq => hne hm (Key.name.inj heq)
    have hsame : (w.after i (.del (.name n))).owner m = w.owner m := Store.owner_congr rfl hcell
    rwa [hsame] at hm
  refine ⟨fun m q => howner, fun m q _ => ?_, fun m q _ hq => .inr ?_, ?_, fun m q hm hc => ?_, ?_, ?_,
    fun key hkey => ?_⟩
  · simp [after_del_cells]
  · simpa [after_del_cells] using hq
  · simp [Progress.next]
  · rw [hclaiming] at hc
    cases hc
    exact absurd rfl (hne hm)
  · exact fun s hs => .inl (by simpa [Progress.next] using hs)
  · exact fun p hp => .inl (by simpa [Progress.next] using hp)
  · obtain rfl := Option.some.inj hkey
    intro q hq hrelies
    exact hq (h.own i n _ hclaiming q hrelies.owner)

/-- A release deletes the pointer of its account. -/
theorem Sound.tame_del_of (h : Sound requests w)
    (hdropping : (w.calls i).dropping = some (requests i).account) :
    Tame requests w i (.del (.of_ (requests i).account)) := by
  have howner (m : String) : (w.after i (.del (.of_ (requests i).account))).owner m = w.owner m :=
    Store.owner_congr rfl (by simp [after_del_cells])
  refine ⟨fun m q hm => howner m ▸ hm, fun m q _ => ?_, fun m q hm hq => ?_, ?_, ?_, ?_, ?_,
    fun key hkey => ?_⟩
  · simp [after_del_cells]
  · by_cases heq : q = (requests i).account
    · subst heq
      exact .inl (h.dropped i _ hdropping m (howner m ▸ hm))
    · refine .inr (hq.imp fun m' hm' => ?_)
      rw [after_del_cells]
      exact (Cells.del_of_ne fun hkey => heq (Key.of_.inj hkey)).trans hm'
  · simp [Progress.next]
  · simp [Progress.next]
  · exact fun s hs => .inl (by simpa [Progress.next] using hs)
  · simp [Progress.next]
  · rintro q hq ⟨m, hm, hrelies⟩
    cases hkey
    rcases hrelies with heq | heq | heq
    · cases heq
    · cases heq
    · exact hq (Key.of_.inj heq).symm

/-! ### Records -/

section

variable {n : String} {rec : HandleRecord} {ttl : Option ℕ}

theorem after_setNx_name (h : w.cells.get w.now (.name n) = none) :
    w.after i (.setNx (.name n) rec ttl) = w.after i (.set (.name n) rec ttl) := by
  have hexec : w.cells.exec w.now (.setNx (.name n) rec ttl) =
      (true, w.cells.set (.name n) rec (ttl.map (w.now + ·))) := Cells.exec_setNx_of_none h
  have hcells : (w.cells.exec w.now (.setNx (.name n) rec ttl)).2 =
      (w.cells.exec w.now (.set (.name n) rec ttl)).2 := congrArg Prod.snd hexec
  have hnext : (w.calls i).next (.setNx (.name n) rec ttl)
      (w.cells.exec w.now (.setNx (.name n) rec ttl)).1 =
      (w.calls i).next (.set (.name n) rec ttl) (w.cells.exec w.now (.set (.name n) rec ttl)).1 := by
    rw [congrArg Prod.fst hexec]
    rfl
  have hdisplaced : w.displaced (.set (.name n) rec ttl) = none := by simp [Store.displaced, h]
  simp only [World.after, hcells, hnext, hdisplaced]
  rfl

theorem owner_after_ne {m : String} (h : m ≠ n) :
    (w.after i (.set (.name n) rec ttl)).owner m = w.owner m :=
  Store.owner_congr rfl (Cells.set_of_ne fun heq => h (Key.name.inj heq))

theorem owner_after_live (hlive : rec.releasedUntil = none) :
    (w.after i (.set (.name n) rec none)).owner n = some rec.pubkey :=
  Store.owner_eq_some.mpr ⟨rec, Cells.get_set_self, hlive, rfl⟩

theorem owner_after_released (hreleased : rec.releasedUntil.isSome) :
    (w.after i (.set (.name n) rec ttl)).owner n = none := by
  apply Option.eq_none_iff_forall_ne_some.mpr
  intro q hq
  obtain ⟨rec', hget, hlive, -⟩ := Store.owner_eq_some.mp hq
  obtain ⟨expiry, hcell, -⟩ := Cells.get_eq_some.mp hget
  have hself : (w.after i (.set (.name n) rec ttl)).cells (.name n) =
      some (rec, ttl.map (w.now + ·)) := Cells.set_self
  rw [hself] at hcell
  cases hcell
  rw [hlive] at hreleased
  cases hreleased

theorem next_set_name : (w.after i (.set (.name n) rec ttl)).calls i = (w.calls i).wrote n rec := by
  simp [Progress.next]

theorem skel_after_name {s : String} :
    (w.after i (.set (.name n) rec ttl)).cells (.skel s) = w.cells (.skel s) := by
  simp [after_set_cells]

theorem of_after_name {q : String} :
    (w.after i (.set (.name n) rec ttl)).cells (.of_ q) = w.cells (.of_ q) := by
  simp [after_set_cells]

omit [DecidableEq ι] in
/-- What is written over is as its call has read it: a name of the account. -/
theorem owner_of_undisturbed {rec₀ : HandleRecord} (hseen : (w.calls i).seen = some rec₀)
    (hlive : rec₀.releasedUntil = none) (h : Undisturbed w i n rec) :
    w.owner n = some rec₀.pubkey ∧ (rec.releasedUntil.isSome → ∀ q, ¬Claimed w n q) := by
  have hseenLive : (w.calls i).SeenLive := by simp [Progress.SeenLive, hseen, hlive]
  rw [Undisturbed, if_pos hseenLive] at h
  obtain ⟨hget, hclaimed⟩ := h
  exact ⟨Store.owner_eq_some.mpr ⟨rec₀, hget.trans hseen, hlive, rfl⟩, hclaimed⟩

omit [DecidableEq ι] in
/-- A record of the account is its own to write over. -/
theorem harmless_of_owner (howner : ∀ q, w.owner n = some q → q = (requests i).account) {key : Key}
    (hkey : w.displaced (.set (.name n) rec ttl) = some key) :
    Removal.Harmless requests ⟨i, key, w.toStore⟩ := by
  have hname : key = .name n := by
    rw [Store.displaced] at hkey
    split at hkey
    · exact (Option.some.inj hkey).symm
    · cases hkey
  subst hname
  intro q hq hrelies
  exact hq (howner q hrelies.owner)

/-- A name is moved to another network. -/
theorem tame_rehome {rec₀ : HandleRecord} (hseen : (w.calls i).seen = some rec₀)
    (hlive₀ : rec₀.releasedUntil = none) (haccount : (requests i).account = rec₀.pubkey)
    (hlive : rec.releasedUntil = none) (hpubkey : rec.pubkey = rec₀.pubkey)
    (h : Undisturbed w i n rec) : Tame requests w i (.set (.name n) rec none) := by
  obtain ⟨howns, -⟩ := owner_of_undisturbed hseen hlive₀ h
  have howner (m : String) : (w.after i (.set (.name n) rec none)).owner m = w.owner m := by
    by_cases hm : m = n
    · subst hm
      rw [owner_after_live hlive, howns, hpubkey]
    · exact owner_after_ne hm
  have hnext : (w.after i (.set (.name n) rec none)).calls i = w.calls i := by
    have hseenLive : (w.calls i).SeenLive := by simp [Progress.SeenLive, hseen, hlive₀]
    rw [next_set_name, Progress.wrote, if_neg (by simp [hlive]), if_pos hseenLive]
  refine ⟨fun m q hm => howner m ▸ hm, fun m q _ => skel_after_name, fun m q _ hq => .inr ?_, ?_, ?_, ?_,
    ?_, fun key => harmless_of_owner fun q hq => ?_⟩
  · exact hq.imp fun m' hm' => of_after_name.trans hm'
  · exact fun _ _ h => hnext ▸ h
  · exact fun _ _ _ h => hnext ▸ h
  · exact fun _ h => .inl (hnext ▸ h)
  · exact fun _ h => .inl (hnext ▸ h)
  · rw [howns] at hq
    rw [haccount, Option.some.inj hq]

theorem Sound.tame_release (hsound : Sound requests w) {rec₀ : HandleRecord}
    (hseen : (w.calls i).seen = some rec₀) (hlive₀ : rec₀.releasedUntil = none)
    (haccount : (requests i).account = rec₀.pubkey) (hreleased : rec.releasedUntil.isSome)
    (hpubkey : rec.pubkey = rec₀.pubkey) (h : Undisturbed w i n rec) :
    Tame requests w i (.set (.name n) rec ttl) := by
  obtain ⟨howns, hunclaimed⟩ := owner_of_undisturbed hseen hlive₀ h
  rw [← hpubkey] at howns
  have hne {m q : String} (hm : (w.after i (.set (.name n) rec ttl)).owner m = some q) : m ≠ n := by
    rintro rfl
    rw [owner_after_released hreleased] at hm
    cases hm
  have howner {m q : String} (hm : (w.after i (.set (.name n) rec ttl)).owner m = some q) :
      w.owner m = some q := (owner_after_ne (hne hm)).symm.trans hm
  have hnext : (w.after i (.set (.name n) rec ttl)).calls i =
      { w.calls i with minding := some (skeleton n), dropping := some rec.pubkey } := by
    rw [next_set_name, Progress.wrote, if_pos hreleased]
  refine ⟨fun m q => howner, fun m q _ => skel_after_name, fun m q _ hq => .inr ?_, ?_, ?_,
    fun s hs => .inr fun m q hm hfolds => ?_, fun p hp => .inr fun m hm => ?_,
    fun key => harmless_of_owner fun q hq => ?_⟩
  · exact hq.imp fun m' hm' => of_after_name.trans hm'
  · rw [hnext]
    exact fun _ _ => id
  · rw [hnext]
    exact fun _ _ _ => id
  · -- Both names' skeletons are held, so they are one name.
    rw [hnext] at hs
    obtain rfl := Option.some.inj hs
    have hcells := (hsound.held m q (howner hm)).symm.trans (hfolds ▸ hsound.held n _ howns)
    exact hne hm (Prod.mk.inj (Option.some.inj hcells)).1
  · rw [hnext] at hp
    obtain rfl := Option.some.inj hp
    by_contra hm'
    exact hne hm (hsound.one m n _ (howner hm) howns hm' (hunclaimed hreleased _))
  · rw [howns] at hq
    rw [haccount, ← hpubkey, Option.some.inj hq]

/-- A claim writes its record. -/
theorem Sound.claim (h : Sound requests w) (hlive : rec.releasedUntil = none)
    (hseen : ¬(w.calls i).SeenLive) (hholder : (w.calls i).holder = some n)
    (hclaiming : (w.calls i).claiming = none) (hundisturbed : Undisturbed w i n rec) :
    Sound requests (w.after i (.set (.name n) rec none)) := by
  rw [Undisturbed, if_neg hseen, hholder, Option.map_some] at hundisturbed
  obtain ⟨hread, hskel, hothers⟩ := hundisturbed
  have hnobody : w.owner n = none := by
    rw [Store.owner]
    rcases hread with hget | hget
    · rw [hget]
      cases hrec : (w.calls i).seen with
      | none => rfl
      | some rec₀ =>
        have hreleased : rec₀.releasedUntil.isNone = false := Bool.eq_false_iff.mpr fun hlive =>
          hseen (by rw [Progress.SeenLive, hrec]; exact hlive)
        simp [Option.filter, hreleased]
    · rw [hget]
      rfl
  have hnext : (w.after i (.set (.name n) rec none)).calls i =
      { w.calls i with claiming := some (n, rec.pubkey) } := by
    rw [next_set_name, Progress.wrote, if_neg (by simp [hlive]), if_neg hseen]
  have hmine : Claimed (w.after i (.set (.name n) rec none)) n rec.pubkey := ⟨i, by rw [hnext]⟩
  have hstays (j : ι) {e : String × String} (hj : (w.calls j).claiming = some e) :
      ((w.after i (.set (.name n) rec none)).calls j).claiming = some e := by
    by_cases hji : j = i
    · subst hji
      rw [hclaiming] at hj
      cases hj
    · rwa [after_calls_ne hji]
  have hclaimed {m q : String} : Claimed w m q → Claimed (w.after i (.set (.name n) rec none)) m q :=
    fun ⟨j, hj⟩ => ⟨j, hstays j hj⟩
  have hown {q : String} (hn : (w.after i (.set (.name n) rec none)).owner n = some q) :
      rec.pubkey = q := Option.some.inj ((owner_after_live hlive).symm.trans hn)
  refine ⟨fun m q hm => ?_, fun m q hm => ?_, fun m m' q hm hm' hnot hnot' => ?_,
    fun j s hj m q hm hs => ?_, fun j m p hj q hm => ?_, fun j p hj m hm => ?_, fun r hr => ?_⟩
  · rw [skel_after_name]
    by_cases hmn : m = n
    · rwa [hmn]
    · exact h.held m q ((owner_after_ne hmn).symm.trans hm)
  · by_cases hmn : m = n
    · subst hmn
      exact .inl (hown hm ▸ hmine)
    · rcases h.pointed m q ((owner_after_ne hmn).symm.trans hm) with hm' | hm'
      · exact .inl (hclaimed hm')
      · exact .inr (hm'.imp fun m' heq => of_after_name.trans heq)
  · have hne {k : String} (hk : (w.after i (.set (.name n) rec none)).owner k = some q)
        (hnk : ¬Claimed (w.after i (.set (.name n) rec none)) k q) : k ≠ n := by
      rintro rfl
      exact hnk (hown hk ▸ hmine)
    exact h.one m m' q ((owner_after_ne (hne hm hnot)).symm.trans hm)
      ((owner_after_ne (hne hm' hnot')).symm.trans hm')
      (fun hc => hnot (hclaimed hc)) fun hc => hnot' (hclaimed hc)
  · by_cases hji : j = i
    · subst hji
      rw [hnext] at hj ⊢
      by_cases hmn : m = n
      · subst hmn
        rw [hown hm]
      · exact absurd hs (h.not_relied hj hclaiming ((owner_after_ne hmn).symm.trans hm))
    · rw [after_calls_ne hji] at hj ⊢
      by_cases hmn : m = n
      · subst hmn
        exact absurd (hs ▸ hj) (hothers j hji).1
      · exact h.minded j s hj m q ((owner_after_ne hmn).symm.trans hm) hs
  · by_cases hji : j = i
    · subst hji
      rw [hnext] at hj
      cases hj
      exact (hown hm).symm
    · rw [after_calls_ne hji] at hj
      by_cases hmn : m = n
      · subst hmn
        exact absurd hj ((hothers j hji).2 p)
      · exact h.own j m p hj q ((owner_after_ne hmn).symm.trans hm)
  · have hj' : (w.calls j).dropping = some p := by
      by_cases hji : j = i
      · subst hji
        rwa [hnext] at hj
      · rwa [after_calls_ne hji] at hj
    by_cases hmn : m = n
    · subst hmn
      exact hown hm ▸ hmine
    · exact hclaimed (h.dropped j p hj' m ((owner_after_ne hmn).symm.trans hm))
  · rcases mem_removals_after hr with hr | ⟨key, hkey, rfl⟩
    · exact h.harmless r hr
    · refine harmless_of_owner (fun q hq => ?_) hkey
      rw [hnobody] at hq
      cases hq

/-- A claim writes its pointer, the account having none. -/
theorem Sound.settle (h : Sound requests w) {q : String}
    (hclaiming : (w.calls i).claiming = some (n, q)) (hfree : w.cells.get w.now (.of_ q) = none)
    (hdropping : ∀ j, (w.calls j).dropping ≠ some q) :
    Sound requests (w.after i (.setNx (.of_ q) n none)) := by
  have hcells : (w.after i (.setNx (.of_ q) n none)).cells = w.cells.set (.of_ q) n none :=
    congrArg Prod.snd (Cells.exec_setNx_of_none hfree)
  have hnext : (w.after i (.setNx (.of_ q) n none)).calls i =
      { w.calls i with claiming := none, minding := none } := by
    simp [Progress.next, Cells.exec_setNx_of_none hfree]
  have howner (m : String) : (w.after i (.setNx (.of_ q) n none)).owner m = w.owner m :=
    Store.owner_congr rfl (by simp [hcells])
  have hunsettled {m : String} (hm : w.owner m = some q) : Claimed w m q := by
    refine (h.pointed m q hm).resolve_right ?_
    rintro ⟨m', hm'⟩
    rw [Cells.get_of_cell hm'] at hfree
    cases hfree
  have hstays {m p : String} (hne : (m, p) ≠ (n, q)) (hc : Claimed w m p) :
      Claimed (w.after i (.setNx (.of_ q) n none)) m p := by
    obtain ⟨j, hj⟩ := hc
    have hji : j ≠ i := by
      rintro rfl
      exact hne (Option.some.inj (hj.symm.trans hclaiming))
    exact ⟨j, by rwa [after_calls_ne hji]⟩
  have hfrom (j : ι) {m p : String} (hj : ((w.after i (.setNx (.of_ q) n none)).calls j).claiming =
      some (m, p)) : (w.calls j).claiming = some (m, p) := by
    by_cases hji : j = i
    · subst hji
      rw [hnext] at hj
      cases hj
    · rwa [after_calls_ne hji] at hj
  refine ⟨fun m p hm => ?_, fun m p hm => ?_, fun m m' p hm hm' hnot hnot' => ?_,
    fun j s hj m p hm hs => ?_, fun j m p hj p' hm => ?_, fun j p hj m hm => ?_, fun r hr => ?_⟩
  · simpa [hcells] using h.held m p (howner m ▸ hm)
  · by_cases hp : p = q
    · subst hp
      exact .inr ⟨n, hcells ▸ Cells.set_self⟩
    · rcases h.pointed m p (howner m ▸ hm) with hc | hm'
      · exact .inl (hstays (fun heq => hp (Prod.mk.inj heq).2) hc)
      · refine .inr (hm'.imp fun m' heq => ?_)
        rw [hcells]
        exact (Cells.set_of_ne fun hkey => hp (Key.of_.inj hkey)).trans heq
  · rw [howner] at hm hm'
    by_cases hp : p = q
    · subst hp
      have heq {k : String} (hk : w.owner k = some p)
          (hnk : ¬Claimed (w.after i (.setNx (.of_ p) n none)) k p) : k = n := by
        by_contra hne
        exact hnk (hstays (fun hkn => hne (Prod.mk.inj hkn).1) (hunsettled hk))
      rw [heq hm hnot, heq hm' hnot']
    · refine h.one m m' p hm hm' (fun hc => hnot ?_) fun hc => hnot' ?_
      · exact hstays (fun heq => hp (Prod.mk.inj heq).2) hc
      · exact hstays (fun heq => hp (Prod.mk.inj heq).2) hc
  · have hji : j ≠ i := by
      rintro rfl
      rw [hnext] at hj
      cases hj
    rw [after_calls_ne hji] at hj ⊢
    exact h.minded j s hj m p (howner m ▸ hm) hs
  · exact h.own j m p (hfrom j hj) p' (howner m ▸ hm)
  · have hj' : (w.calls j).dropping = some p := by
      by_cases hji : j = i
      · subst hji
        rwa [hnext] at hj
      · rwa [after_calls_ne hji] at hj
    have hp : p ≠ q := by
      rintro rfl
      exact hdropping j hj'
    exact hstays (fun heq => hp (Prod.mk.inj heq).2) (h.dropped j p hj' m (howner m ▸ hm))
  · rcases mem_removals_after hr with hr | ⟨key, hkey, -⟩
    · exact h.harmless r hr
    · cases hkey

end

/-! ## Calls -/

def terms (requests : ι → Request) : Terms ι (World ι) where
  inv := Sound requests
  rely i w w' := w'.calls i = w.calls i
  refl _ _ := rfl
  trans _ _ _ _ h h' := h'.trans h

def Own (i : ι) (p : Progress) (w : World ι) : Prop := w.calls i = p

/-- A value comes with the progress `N`, and a call that throws claims nothing. -/
def ends {α : Type} (i : ι) (N : α → Progress) : Except String α → World ι → Prop
  | .ok a, w => w.calls i = N a
  | .error _, w => (w.calls i).claiming = none

def Settled {α : Type} (i : ι) (_ : Except String α) (w : World ι) : Prop :=
  (w.calls i).claiming = none

/-- The calls of a careful run. -/
abbrev Keeps (requests : ι → Request) (i : ι) (p : Progress) {α : Type} (call : Call α)
    (post : Except String α → World ι → Prop) : Prop :=
  (terms requests).Triple (Steps Careful) i (Own i p) call post

variable {p : Progress} {α β : Type}

omit [DecidableEq ι] in
theorem stable_own : (terms requests).Stable i (Own i p) := fun _ _ hrely _ hw => hrely.trans hw

omit [DecidableEq ι] in
theorem stable_ends {N : α → Progress} {r : Except String α} :
    (terms requests).Stable i (ends i N r) := by
  intro w w' hrely _ hw
  have hsame : w'.calls i = w.calls i := hrely
  cases r with
  | ok a => exact hsame.trans hw
  | error e => exact (congrArg Progress.claiming hsame).trans hw

theorem keeps_ret {N : α → Progress} {a : α} (h : p = N a) :
    Keeps requests i p (.ret (.ok a)) (ends i N) :=
  .ret stable_own fun _ _ hw => Eq.trans hw h

theorem settled_ret {r : Except String α} (h : p.claiming = none) :
    Keeps requests i p (.ret r) (Settled i) := by
  refine .ret stable_own fun w _ hw => ?_
  rw [Settled, hw]
  exact h

omit [DecidableEq ι] in
theorem stable_settled {r : Except String α} : (terms requests).Stable i (Settled i r) :=
  fun _ _ hrely _ hw => (congrArg Progress.claiming hrely).trans hw

/-- A call is over when its part is. -/
theorem settled_bind {call : Call α} {b : β} (h : Keeps requests i p call (Settled i)) :
    Keeps requests i p (call >>= fun _ => .ret (.ok b)) (Settled i) := by
  refine Terms.Triple.bind h (fun a => ?_) (fun _ => stable_settled) fun e w _ => id
  exact .ret stable_settled fun _ _ => id

theorem keeps_bind {call : Call α} {f : α → Call β} {N : α → Progress}
    {post : Except String β → World ι → Prop} (h : Keeps requests i p call (ends i N))
    (herror : ∀ e w, (w.calls i).claiming = none → post (.error e) w)
    (hf : ∀ a, Keeps requests i (N a) (f a) post) : Keeps requests i p (call >>= f) post :=
  Terms.Triple.bind h hf (fun _ => stable_ends) fun e w _ hw => herror e w hw

/-- What the call has come to once it hears of its command. -/
def Heard (i : ι) (p : Progress) (c : Command) :
    Except String (Except String c.Answer) → World ι → Prop
  | .ok (.ok a), w => w.calls i = p.next c a
  | .ok (.error _), w =>
    w.calls i = p.refused c ∧ ∀ key v ttl, c = .setNx key v ttl → p.claiming = none
  | .error _, w => (w.calls i).claiming = none

omit [DecidableEq ι] in
theorem stable_heard {c : Command} {r : Except String (Except String c.Answer)} :
    (terms requests).Stable i (Heard i p c r) := by
  intro w w' hrely _ hw
  have hsame : w'.calls i = w.calls i := hrely
  cases r with
  | error e => exact (congrArg Progress.claiming hsame).trans hw
  | ok first =>
    cases first with
    | ok a => exact hsame.trans hw
    | error m => exact ⟨hsame.trans hw.1, hw.2⟩

theorem heard_of_refused {message : String} (hown : w.calls i = p)
    (h : Careful i w c (.refused message)) :
    Dispensable p c ∧ Heard i p c (.ok (.error message)) (w.put i (p.refused c)) := by
  subst hown
  cases c with
  | setNx key v ttl => exact ⟨trivial, put_calls_self, fun _ _ _ _ => h⟩
  | get key => exact ⟨h, put_calls_self, nofun⟩
  | set key v ttl => exact ⟨h, put_calls_self, nofun⟩
  | del key => exact ⟨h, put_calls_self, nofun⟩

/-- A command that keeps the registry in order. -/
theorem entry_keeps (h : ∀ w, Sound requests w → w.calls i = p → CommandCareful w i c →
      Sound requests (w.after i c)) : Keeps requests i p (entry c) (Heard i p c) := by
  refine .ask (N := Heard i p c) stable_own ?_ fun a => ?_
  · intro w a w' hsound hown hstep
    cases hstep with
    | @run _ delivery hcareful =>
      cases delivery with
      | done =>
        refine ⟨h w hsound hown hcareful, fun j hj => after_calls_ne hj, ?_⟩
        have hself := after_calls_self (w := w) (i := i) (c := c)
        rw [hown] at hself
        exact hself
      | lost m =>
        refine ⟨(h w hsound hown hcareful.1).cutOff, fun j hj => ?_, ?_⟩
        · exact (put_calls_ne hj).trans (after_calls_ne hj)
        · simpa [Heard, World.meets, Progress.cutOff] using hcareful.2
      | failed m =>
        refine ⟨hsound.cutOff, fun j hj => put_calls_ne hj, ?_⟩
        simpa [Heard, World.meets, Progress.cutOff, Careful] using hcareful
      | refused m =>
        have hown' : w.calls i = p := hown
        obtain ⟨hdispensable, hheard⟩ := heard_of_refused hown' hcareful
        rw [← hown'] at hdispensable hheard
        refine ⟨hsound.refused hdispensable, fun j hj => put_calls_ne hj, ?_⟩
        exact hown' ▸ hheard
  · cases a with
    | ok first => exact .ret stable_heard fun _ _ => id
    | error e => exact .ret stable_heard fun _ _ => id

section

variable {key : Key} {v : key.Entry} {ttlSec : Option ℕ}

theorem kvGet_keeps :
    Keeps requests i p (kvGet key) (ends i fun found => p.next (.get key) found) := by
  refine Terms.Triple.bind (entry_keeps fun _ hsound _ _ => hsound.tame tame_get) (fun first => ?_)
    (fun _ => stable_heard) fun e w _ => id
  refine .ret stable_heard fun w _ hw => ?_
  cases first with
  | ok found => exact hw
  | error m => exact hw.1

theorem kvSet_keeps (h : ∀ w, Sound requests w → w.calls i = p →
      CommandCareful w i (.set key v (ttlSec.map (· * 1000))) →
      Sound requests (w.after i (.set key v (ttlSec.map (· * 1000))))) :
    Keeps requests i p (kvSet key v ttlSec) (ends i fun _ => p.next (.set key v none) ()) := by
  refine Terms.Triple.bind (entry_keeps h) (fun first => ?_) (fun _ => stable_heard) fun e w _ => id
  refine .ret stable_heard fun w _ hw => ?_
  cases first with
  | ok u => cases key <;> exact hw
  | error m => cases key <;> exact hw.1

theorem kvDel_keeps (h : ∀ w, Sound requests w → w.calls i = p → Sound requests (w.after i (.del key))) :
    Keeps requests i p (kvDel key) (ends i fun _ => p.next (.del key) ()) := by
  refine Terms.Triple.bind (entry_keeps fun w hsound hw _ => h w hsound hw) (fun first => ?_)
    (fun _ => stable_heard) fun e w _ => id
  refine .ret stable_heard fun w _ hw => ?_
  cases first with
  | ok u => exact hw
  | error m => exact hw.1

theorem kvSetNx_keeps (h : ∀ w, Sound requests w → w.calls i = p →
      CommandCareful w i (.setNx key v (ttlSec.map (· * 1000))) →
      Sound requests (w.after i (.setNx key v (ttlSec.map (· * 1000))))) :
    Keeps requests i p (kvSetNx key v ttlSec) (ends i fun took => p.next (.setNx key v none) took) := by
  refine Terms.Triple.bind (entry_keeps h) (fun first => ?_) (fun _ => stable_heard) fun e w _ => id
  cases first with
  | ok took =>
    refine .ret stable_heard fun w _ hw => ?_
    cases key <;> exact hw
  | error m =>
    refine .ret stable_heard fun w _ hw => ?_
    rw [ends, hw.1]
    exact hw.2 _ _ _ rfl

end

theorem now_keeps : Keeps requests i p (ask .now) (ends i fun _ => p) := by
  refine .ask (N := fun _ => Own i p) stable_own (fun w a w' hsound hown hstep => ?_) fun a => ?_
  · cases hstep
    exact ⟨hsound, fun j _ => rfl, hown⟩
  · exact keeps_ret rfl

theorem kvSet_of_keeps {q n : String} :
    Keeps requests i p (kvSet (.of_ q) n none) (ends i fun _ => p) :=
  kvSet_keeps fun _ hsound _ _ => hsound.tame tame_set_of

theorem verifyHandleProof_keeps {env : ProofEnv} {input : ProofInput} :
    Keeps requests i p (verifyHandleProof deps env input) (ends i fun _ => p) := by
  unfold verifyHandleProof
  split
  · exact keeps_ret rfl
  · apply keeps_bind now_keeps (fun _ _ => id)
    intro now
    split
    · exact keeps_ret rfl
    · split
      · exact keeps_ret rfl
      · split
        · exact keeps_ret rfl
        · have hproof : Keeps requests i p (deps.kvSetNx (env.sha256Hex input.message)
              Recovery.proofMemorySec) (ends i fun _ => p) :=
            kvSetNx_keeps fun _ hsound _ _ => hsound.tame tame_setNx_proof
          exact keeps_bind hproof (fun _ _ => id) fun fresh => keeps_ret rfl

theorem healLegacy_keeps {q : String} {networks : List NetworkId} :
    Keeps requests i p (healLegacy q networks) (ends i fun _ => p) := by
  induction networks with
  | nil => exact keeps_ret rfl
  | cons network networks ih =>
    apply keeps_bind kvGet_keeps (fun _ _ => id)
    intro legacy
    cases legacy with
    | none => exact ih
    | some name => exact keeps_bind kvSet_of_keeps (fun _ _ => id) fun _ => keeps_ret rfl

theorem handleOf_keeps {q : String} : Keeps requests i p (handleOf q) (ends i fun _ => p) := by
  unfold handleOf
  split
  · exact keeps_ret rfl
  · apply keeps_bind kvGet_keeps (fun _ _ => id)
    intro current
    cases current with
    | none => exact healLegacy_keeps
    | some name => exact keeps_ret rfl

/-! ### A claim -/

section

variable {name skel : String} {rec : HandleRecord} {seen : Option HandleRecord}

/-- A claim with the record that it has read, on the way to its own. -/
def onTheWay (seen : Option HandleRecord) (holder : Option String) (skel : String) (took : Bool) :
    Progress :=
  ⟨seen, holder, none, if took then some skel else none, none⟩

theorem kvSetNx_skel_keeps : Keeps requests i ⟨seen, none, none, none, none⟩
    (kvSetNx (.skel skel) name none)
    (ends i fun took => onTheWay seen (if took then some name else none) skel took) := by
  apply Terms.Triple.mono (kvSetNx_keeps fun _ hsound _ _ => hsound.tame hsound.tame_setNx_skel)
  intro r w _ hw
  cases r with
  | error e => exact hw
  | ok took => cases took <;> exact hw

/-- The claim knows whom the skeleton is held for. -/
theorem skelHolder_keeps {took : Bool} :
    Keeps requests i (onTheWay seen (if took then some name else none) (skeleton name) took)
      (skelHolder name took) (ends i fun holder => onTheWay seen holder (skeleton name) took) := by
  cases took with
  | true => exact keeps_ret rfl
  | false => exact kvGet_keeps

/-- A claim that has given back its record gives back the skeleton that it took. -/
theorem giveSkelBack_keeps {took : Bool} {holder : Option String} :
    Keeps requests i (onTheWay seen holder (skeleton name) took) (giveSkelBack name took)
      (ends i fun _ => onTheWay seen holder (skeleton name) false) := by
  cases took with
  | false => exact keeps_ret rfl
  | true =>
    refine kvDel_keeps fun w hsound hw => hsound.tame (hsound.tame_del_skel ?_ ?_)
    · rw [hw]
      rfl
    · rw [hw]
      rfl

theorem wrote_claim (hlive : rec.releasedUntil = none) (hseen : ¬p.SeenLive) :
    p.wrote name rec = { p with claiming := some (name, rec.pubkey) } := by
  rw [Progress.wrote, if_neg (by simp [hlive]), if_neg hseen]

theorem takeName_keeps {replaces : Bool} (hlive : rec.releasedUntil = none) (hseen : ¬p.SeenLive)
    (hholder : p.holder = some name) (hp : p.claiming = none) :
    Keeps requests i p (takeName name rec replaces)
      (ends i fun took => if took then { p with claiming := some (name, rec.pubkey) } else p) := by
  cases replaces with
  | true =>
    refine keeps_bind (N := fun _ => p.wrote name rec) ?_ (fun _ _ => id) fun _ => keeps_ret ?_
    · refine kvSet_keeps fun w hsound hw hcareful => hsound.claim hlive ?_ ?_ ?_ hcareful
      · rwa [hw]
      · rwa [hw]
      · rwa [hw]
    · exact wrote_claim hlive hseen
  | false =>
    refine Terms.Triple.mono (kvSetNx_keeps fun w hsound hw hcareful => ?_) fun r w _ hw => ?_
    · cases hget : w.cells.get w.now (.name name) with
      | some v => exact hsound.tame (tame_setNx_of_some hget)
      | none =>
        have hafter : w.after i (.setNx (.name name) rec none) = w.after i (.set (.name name) rec none) :=
          after_setNx_name hget
        rw [Option.map_none, hafter]
        refine hsound.claim hlive ?_ ?_ ?_ (hcareful hget)
        · rwa [hw]
        · rwa [hw]
        · rwa [hw]
    · cases r with
      | error e => exact hw
      | ok took =>
        cases took with
        | false => exact hw
        | true => exact Eq.trans hw (wrote_claim hlive hseen)

theorem kvSetNx_of_keeps {q : String} (hclaiming : p.claiming = some (name, q)) :
    Keeps requests i p (kvSetNx (.of_ q) name none)
      (ends i fun took => if took then { p with claiming := none, minding := none } else p) := by
  refine Terms.Triple.mono (kvSetNx_keeps fun w hsound hw hcareful => ?_) fun r w _ hw => ?_
  · cases hget : w.cells.get w.now (.of_ q) with
    | some v => exact hsound.tame (tame_setNx_of_some hget)
    | none => exact hsound.settle (by rwa [hw]) hget (hcareful hget)
  · cases r with
    | error e => exact hw
    | ok took => cases took <;> exact hw

theorem kvDel_name_keeps (hclaiming : p.claiming = some (name, (requests i).account)) :
    Keeps requests i p (kvDel (.name name)) (ends i fun _ => { p with claiming := none }) :=
  kvDel_keeps fun w hsound hw => hsound.tame (hsound.tame_del_name (by rwa [hw]))

theorem register_keeps {input : ProofInput} {replaces : Bool}
    (haccount : (requests i).account = input.pubkey)
    (hseen : seen.any (·.releasedUntil.isNone) = false) :
    Keeps requests i ⟨seen, none, none, none, none⟩ (register input name replaces) (Settled i) := by
  apply keeps_bind kvSetNx_skel_keeps (fun _ _ => id)
  intro tookSkel
  refine keeps_bind skelHolder_keeps (fun _ _ => id) fun holder => .ite (fun _ => ?_) fun hholder => ?_
  · exact settled_ret rfl
  · rw [ne_eq, not_not] at hholder
    have hnot : ¬(onTheWay seen holder (skeleton name) tookSkel).SeenLive := by
      simp [Progress.SeenLive, onTheWay, hseen]
    apply keeps_bind now_keeps (fun _ _ => id)
    intro now
    apply keeps_bind (takeName_keeps rfl hnot hholder rfl) (fun _ _ => id)
    intro tookName
    cases tookName with
    | false =>
      exact keeps_bind giveSkelBack_keeps (fun _ _ => id) fun _ => settled_ret rfl
    | true =>
      apply keeps_bind (kvSetNx_of_keeps rfl) (fun _ _ => id)
      intro tookOf
      cases tookOf with
      | true => exact settled_ret rfl
      | false =>
        apply keeps_bind (kvDel_name_keeps (by rw [haccount]; rfl)) (fun _ _ => id)
        intro _
        exact keeps_bind giveSkelBack_keeps (fun _ _ => id) fun _ => settled_ret rfl

theorem claimFree_keeps {input : ProofInput} {replaces : Bool}
    (haccount : (requests i).account = input.pubkey)
    (hseen : seen.any (·.releasedUntil.isNone) = false) :
    Keeps requests i ⟨seen, none, none, none, none⟩ (claimFree input name replaces) (Settled i) := by
  apply keeps_bind handleOf_keeps (fun _ _ => id)
  intro already
  cases already.filter (· ≠ name) with
  | some other => exact settled_ret rfl
  | none => exact register_keeps haccount hseen

/-- A call that has read the record and done nothing else. -/
def readOnly (rec : HandleRecord) : Progress := ⟨some rec, none, none, none, none⟩

theorem rehome_keeps {input : ProofInput} (hlive : rec.releasedUntil = none)
    (haccount : (requests i).account = rec.pubkey) :
    Keeps requests i (readOnly rec) (rehome input name rec) (ends i fun _ => readOnly rec) := by
  have hseen : (readOnly rec).SeenLive := by simp [Progress.SeenLive, readOnly, hlive]
  refine .ite (fun _ => keeps_ret rfl) fun _ => ?_
  refine Terms.Triple.mono (kvSet_keeps fun w hsound hw hcareful => ?_) fun r w _ hw => ?_
  · exact hsound.tame (tame_rehome (by rw [hw]; rfl) hlive haccount hlive rfl hcareful)
  · cases r with
    | error e => exact hw
    | ok u =>
      have hsame : (readOnly rec).wrote name { rec with network := input.network } = readOnly rec := by
        rw [Progress.wrote, if_neg (by simp [hlive]), if_pos hseen]
      exact Eq.trans hw hsame

theorem claimHandle_keeps {env : Env} {input : ProofInput}
    (haccount : (requests i).account = input.pubkey) :
    Keeps requests i .initial (claimHandle env input) (Settled i) := by
  unfold claimHandle
  dsimp only
  cases validateHandleShape (normalizeHandle env input.name) with
  | error reason => exact settled_ret rfl
  | ok u =>
    apply keeps_bind verifyHandleProof_keeps (fun _ _ => id)
    intro proofOk
    cases proofOk with
    | error reason => exact settled_ret rfl
    | ok u =>
      apply keeps_bind kvGet_keeps (fun _ _ => id)
      intro existing
      cases existing with
      | none => exact claimFree_keeps haccount rfl
      | some existing =>
        cases hreleased : existing.releasedUntil with
        | some until_ =>
          have hseen : (some existing).any (·.releasedUntil.isNone) = false := by
            simp [hreleased]
          simp only [hreleased]
          refine keeps_bind now_keeps (fun _ _ => id) fun now => .ite (fun _ => ?_) fun _ => ?_
          · exact settled_ret rfl
          · exact claimFree_keeps haccount hseen
        | none =>
          simp only [hreleased]
          refine .ite (fun _ => settled_ret rfl) fun howner => ?_
          have hmine : (requests i).account = existing.pubkey := haccount.trans (not_not.mp howner).symm
          apply keeps_bind (rehome_keeps hreleased hmine) (fun _ _ => id)
          intro _
          exact keeps_bind kvSet_of_keeps (fun _ _ => id) fun _ => settled_ret rfl

/-! ### A release -/

theorem tombstone_keeps (hlive : rec.releasedUntil = none)
    (haccount : (requests i).account = rec.pubkey) :
    Keeps requests i (readOnly rec) (tombstone name rec) (Settled i) := by
  apply keeps_bind now_keeps (fun _ _ => id)
  intro now
  refine keeps_bind
    (N := fun _ => { readOnly rec with minding := some (skeleton name), dropping := some rec.pubkey }) ?_
    (fun _ _ => id) fun _ => ?_
  · exact kvSet_keeps fun w hsound hw hcareful =>
      hsound.tame (hsound.tame_release (by rw [hw]; rfl) hlive haccount rfl rfl hcareful)
  · refine keeps_bind (N := fun _ => { readOnly rec with dropping := some rec.pubkey }) ?_
      (fun _ _ => id) fun _ => ?_
    · exact kvSet_keeps fun w hsound hw _ =>
        hsound.tame (hsound.tame_set_skel (by rw [hw]) (by rw [hw]; rfl))
    · refine keeps_bind (N := fun _ => readOnly rec) ?_ (fun _ _ => id) fun _ => ?_
      · rw [← haccount]
        exact kvDel_keeps fun w hsound hw => hsound.tame (hsound.tame_del_of (by rw [hw]))
      · apply Terms.Triple.mono (kvDel_keeps fun w hsound _ => hsound.tame tame_del_ofLegacy)
        intro r w _ hw
        cases r with
        | ok u => exact congrArg Progress.claiming hw
        | error e => exact hw

theorem releaseHandle_keeps {env : Env} {input : ProofInput}
    (haccount : (requests i).account = input.pubkey) :
    Keeps requests i .initial (releaseHandle env input) (Settled i) := by
  unfold releaseHandle
  dsimp only
  cases validateHandleShape (normalizeHandle env input.name) with
  | error reason => exact settled_ret rfl
  | ok u =>
    apply keeps_bind kvGet_keeps (fun _ _ => id)
    intro found
    cases hfound : found.filter (·.releasedUntil.isNone) with
    | none => exact settled_ret rfl
    | some rec =>
      obtain ⟨rfl, hlive⟩ := Option.filter_eq_some_iff.mp hfound
      refine .ite (fun _ => settled_ret rfl) fun howner => ?_
      apply keeps_bind verifyHandleProof_keeps (fun _ _ => id)
      intro proofOk
      cases proofOk with
      | error reason => exact settled_ret rfl
      | ok u =>
        have hrec : (requests i).account = rec.pubkey := haccount.trans (not_not.mp howner).symm
        exact settled_bind (tombstone_keeps (by simpa using hlive) hrec)

end

/-! ## Over a whole run -/

theorem call_keeps {env : Env} :
    Keeps requests i .initial ((requests i).call env) (Settled i) := by
  cases hrequest : requests i with
  | claim input => exact settled_bind (claimHandle_keeps (by rw [hrequest]; rfl))
  | release input => exact settled_bind (releaseHandle_keeps (by rw [hrequest]; rfl))

theorem kept_opening {env : Env} (hs : s.Registered) :
    (terms requests).Kept (Steps Careful) (fun i => Settled i) (opening env requests s) :=
  ⟨sound_opening s env hs, fun _ => call_keeps.keeps (sound_opening s env hs) rfl⟩

omit [DecidableEq ι] in
theorem Sound.passes (h : Sound requests w) (hpass : Passes w w') :
    Sound requests w' ∧ ∀ i, (terms requests).rely i w w' := by
  obtain ⟨hle, heq⟩ := hpass
  have hcells : w'.cells = w.cells := by rw [heq]
  have hcalls : w'.calls = w.calls := by rw [heq]
  have hremovals : w'.removals = w.removals := by rw [heq]
  have howner (m q : String) (hm : w'.owner m = some q) : w.owner m = some q :=
    Store.owner_of_le hle hcells hm
  refine ⟨h.shrink ⟨howner, ?_, ?_, ?_, ?_, ?_, ?_, ?_⟩, fun i => congrFun hcalls i⟩
  · exact fun m q _ => congrFun hcells _
  · exact fun m q _ hq => .inr (hcells ▸ hq)
  · exact fun j n p => hcalls ▸ id
  · exact fun j m q _ => hcalls ▸ id
  · exact fun j s hj => .inl (hcalls ▸ hj)
  · exact fun j p hj => .inl (hcalls ▸ hj)
  · exact fun r hr => .inl (hremovals ▸ hr)

variable {env : Env} {x : State ι} {s}

/-- **Names are unique**, in every state between calls of a run in which no other call comes between the
reads of a call and its record, and at no time has a call deleted or written over what the name of
another account relies on. -/
theorem registry_unique (hs : s.Registered) (hrun : Run env requests s Careful x) :
    (Quiet env requests x → Store.Unique x.world.toStore) ∧
    ∀ r ∈ x.world.removals, r.Harmless requests := by
  have hpasses : ∀ w w' : World ι, Sound requests w → Passes w w' →
      Sound requests w' ∧ ∀ i, (terms requests).rely i w w' := fun _ _ h hpass => h.passes hpass
  have hend := Terms.sound (T := terms requests) hpasses (kept_opening s hs) hrun
  refine ⟨fun hquiet => hend.inv.unique fun i => ?_, hend.inv.harmless⟩
  rcases hquiet i with hbegin | ⟨r, hret⟩
  · have hstill := Terms.Kept.still hpasses (kept_opening s hs) hrun hbegin
    exact congrArg Progress.claiming hstill
  · exact hend.ended hret

end

namespace Demo

local instance inhabited : NeZero 2 := ⟨by decide⟩

def alice : String := "GAAAAAAAAAAAAAAAAAAAAAAAAAAAAAAAAAAAAAAAAAAAAAAAAAAAAWHF"

def bob : String := "GAAQCAIBAEAQCAIBAEAQCAIBAEAQCAIBAEAQCAIBAEAQCAIBAEAQDZ7H"

/-- The domain of the deployment; the names are in lower case already. -/
def env : Env where
  toProofEnv := Proofs.Demo.env
  toLowerCase s := s
  federationDomain := "getlumenia.com"
  toLowerCase_name _ _ := rfl

def claimOf (pubkey : String) : ProofInput where
  action := .claim
  name := "meric"
  pubkey := pubkey
  ts := Proofs.Demo.second
  nonce := "00000000"
  network := .testnet
  proof := handleProofMessage .claim "meric" pubkey Proofs.Demo.second "00000000" .testnet

def requests (i : Fin 2) : Request := .claim (claimOf (if i = 0 then alice else bob))

def start : State (Fin 2) := opening env requests ⟨1000000, .empty⟩

/-- The store answers. -/
def react (i : Fin 2) (_ : Unit) (w : World (Fin 2)) : (q : Ask) → q.Answer × World (Fin 2)
  | .run c => w.meets i c .done
  | .now => (w.now, w)

def steps (i : Fin 2) (n : ℕ) : List (Fin 2 × Unit) := List.replicate n (i, ())

/-- What the steps of a claim are checked for. -/
def careful (i : Fin 2) (w : World (Fin 2)) : Ask → Bool
  | .run (.set (.name _) _ _) => false
  | .run (.setNx (.name name) rec _) =>
    rec.releasedUntil.isNone && !(w.calls i).SeenLive &&
    decide (w.cells (.skel (skeleton name)) = (w.calls i).holder.map (·, none)) &&
    decide (∀ j, j ≠ i → (w.calls j).minding ≠ some (skeleton name) ∧
      (w.calls j).claiming.all (·.1 ≠ name) = true)
  | .run (.setNx (.of_ q) _ _) => decide (∀ j, (w.calls j).dropping ≠ some q)
  | _ => true

theorem careful_of_check {i : Fin 2} {w : World (Fin 2)} {c : Command}
    (h : careful i w (.run c) = true) : Careful i w c .done := by
  change CommandCareful w i c
  unfold CommandCareful
  split
  · cases h
  · intro hfree
    simp only [careful, Bool.and_eq_true, Bool.not_eq_true', decide_eq_true_eq, decide_eq_false_iff_not,
      Option.isNone_iff_eq_none] at h
    obtain ⟨⟨⟨hlive, hseen⟩, hskel⟩, hothers⟩ := h
    rw [Undisturbed, if_neg hseen]
    refine ⟨.inr hfree, hskel, fun j hj => ⟨(hothers j hj).1, fun q hq => ?_⟩⟩
    have hall := (hothers j hj).2
    rw [hq] at hall
    simp at hall
  · exact fun _ => by simpa [careful] using h
  · trivial

def fairly (ok : Fin 2 → World (Fin 2) → Ask → Bool) (x : State (Fin 2))
    (schedule : List (Fin 2 × Unit)) : Bool :=
  x.fairly react (fun i _ w q => ok i w q) schedule

theorem leads_steps {met : Condition (Fin 2)} {ok : Fin 2 → World (Fin 2) → Ask → Bool}
    (hok : ∀ {i w c}, ok i w (.run c) = true → met i w c .done) {x : State (Fin 2)}
    {schedule : List (Fin 2 × Unit)} (h : fairly ok x schedule = true) :
    Leads (Steps met) Passes x (x.play react schedule) := by
  refine leads_play (fun i d w q hd => ?_) h
  cases q with
  | run c => exact .run (hok hd)
  | now => exact .now

/-- One after the other. -/
def inTurn : State (Fin 2) := start.play react (steps 0 10 ++ steps 1 3)

/-- Both have found the name free, and the first has taken its skeleton. -/
def crossed : State (Fin 2) := start.play react (steps 0 7 ++ steps 1 11 ++ steps 0 3)

def ended (x : State (Fin 2)) : Bool := decide (∀ i, (x.prog i).result.isSome)

theorem quiet_of_ended {x : State (Fin 2)} (h : ended x = true) : Quiet env requests x := by
  intro i
  obtain ⟨r, hr⟩ := Option.isSome_iff_exists.mp (of_decide_eq_true h i)
  exact .inr ⟨r, eq_ret_of_result hr⟩

theorem inTurn_ends : fairly careful start (steps 0 10 ++ steps 1 3) = true ∧ ended inTurn = true ∧
    inTurn.world.owner "meric" = some alice := by
  decide +kernel

theorem crossed_ends :
    fairly (fun _ _ _ => true) start (steps 0 7 ++ steps 1 11 ++ steps 0 3) = true ∧
    ended crossed = true ∧ crossed.world.owner "meric" = some bob ∧
    crossed.world.cells (.skel (skeleton "meric")) = none := by
  decide +kernel

theorem run_inTurn : Run env requests ⟨1000000, .empty⟩ Careful inTurn :=
  leads_steps careful_of_check inTurn_ends.1

theorem run_crossed : Run env requests ⟨1000000, .empty⟩ (fun _ _ _ _ => True) crossed :=
  leads_steps (fun _ => trivial) crossed_ends.1

end Demo

/-- Of two claims of a name one after the other, the first gets it. -/
theorem registry_unique_in_turn : Store.Unique Demo.inTurn.world.toStore ∧
    Demo.inTurn.world.owner "meric" = some Demo.alice := by
  obtain ⟨-, hended, howner⟩ := Demo.inTurn_ends
  exact ⟨(registry_unique Store.registered_empty Demo.run_inTurn).1 (Demo.quiet_of_ended hended), howner⟩

/-- The second claim gets the name, and the first gives back the skeleton of it. -/
theorem skeleton_given_back : ¬∀ (env : Env) (requests : Fin 2 → Request) (s : Store) x,
    s.Registered → Run env requests s (fun _ _ _ _ => True) x →
    (Quiet env requests x → Store.Unique x.world.toStore) ∧
    ∀ r ∈ x.world.removals, r.Harmless requests := by
  intro h
  obtain ⟨-, hended, howner, hskel⟩ := Demo.crossed_ends
  have hunique := (h _ _ _ _ Store.registered_empty Demo.run_crossed).1 (Demo.quiet_of_ended hended)
  have hheld := hunique.held "meric" Demo.bob howner
  rw [hskel] at hheld
  cases hheld

end Lumenia.Sponsor.Handles
