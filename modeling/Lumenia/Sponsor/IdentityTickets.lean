import Lumenia.Sponsor.IdentityLogic

/-!
# OAuth states and tickets

Any number of requests over identity links against one store. A request uses a state or a ticket by
two commands, a GET that finds it and a DEL. `used_once`: while nobody reads such a key that another
request has found and not yet deleted, each is used by one request at most. `used_twice`: two
requests that read it before either deletes it use it both.
-/

namespace Lumenia.Sponsor.Identity.OneTime

open Dialogue Proofs

/-! ## Requests side by side -/

inductive Request
  | identity (network : NetworkId) (proof : IdentityProof) (operation : Operation)
  | detachMine (network : NetworkId) (pubkey provider : String) (accountProof : AccountProof)
  | links (network : NetworkId) (pubkey : String) (accountProof : AccountProof)
  | callback (provider : String) (code state : Option String)
  | start (network : NetworkId) (provider : String) (address : Option String)

def Request.call (env : Env) : Request → Call Reply
  | identity network proof operation => identityRoute env network proof operation
  | detachMine network pubkey provider accountProof =>
    identityDetachMine env network pubkey provider accountProof
  | links network pubkey accountProof => identityLinks env network pubkey accountProof
  | callback provider code state => oauthCallback env provider code state
  | start network provider address => identityStart env network provider address

/-- What a request has done with one-time keys. -/
structure Usage where
  /-- The random texts it has drawn, and stored nothing under yet. -/
  fresh : List String
  /-- The key it has found by a GET, until its DEL. -/
  held : Option Key
  /-- The keys it has found, and whose DEL has been refused. -/
  left : List Key
  /-- The keys it has found, and then deleted as far as it can tell. -/
  used : List Key
  deriving DecidableEq

namespace Usage

def initial : Usage := ⟨[], none, [], []⟩

/-- It has found the key and has not deleted it. -/
def Holds (u : Usage) (key : Key) : Prop := u.held = some key ∨ key ∈ u.left

instance (u : Usage) (key : Key) : Decidable (u.Holds key) := inferInstanceAs (Decidable (_ ∨ _))

/-- A command of the request is met so. -/
def command (u : Usage) (d : Chance) (s : Store) : Command → Usage
  | .get key =>
    if d.fate = .done ∧ key.code.isSome ∧ (s.cells.get s.now key).isSome then
      { u with held := some key }
    else u
  | .set key _ _ => { u with fresh := u.fresh.filter fun code => key.code ≠ some code }
  | .setNx .. => u
  | .del key =>
    if u.held = some key then
      match d.fate with
      | .done => { u with held := none, used := key :: u.used }
      | .refused _ => { u with held := none, left := key :: u.left, used := key :: u.used }
      | .lost _ | .failed _ => { u with held := none }
    else u

def next (u : Usage) (d : Chance) (s : Store) : Ask → Usage
  | .run c => u.command d s c
  | .randomHex _ => { u with fresh := d.randomHex :: u.fresh }
  | _ => u

end Usage

def usage : Surroundings Ask.Answer Chance Store Usage := ⟨react, Usage.next⟩

section

variable {ι : Type}

abbrev Scene (ι : Type) := Tracked ι Store Usage

abbrev Requests (ι : Type) := Crowd ι Ask.Answer String Reply (Scene ι)

/-- Random texts are never the same. -/
def Fair : Condition ι Ask Chance Store Usage := fun _ d w q => d.Fair w.shared q

/-- Nobody reads a key that another request has found and not yet deleted. -/
def Alone (i : ι) (d : Chance) (w : Scene ι) (q : Ask) : Prop :=
  ∀ key, (usage.next (w.calls i) d w.shared q).held = some key →
    ∀ j, j ≠ i → ¬(w.calls j).Holds key

def FairAndAlone : Condition ι Ask Chance Store Usage := fun i d w q => Fair i d w q ∧ Alone i d w q

/-- The codes in the store were drawn. -/
def Drawn (s : Store) : Prop :=
  ∀ key code, key.code = some code → s.cells key ≠ none → code ∈ s.drawn

def Run [DecidableEq ι] (env : Env) (requests : ι → Request) (s : Store)
    (met : Condition ι Ask Chance Store Usage) (x : Requests ι) : Prop :=
  Leads (usage.Steps met) (Stirs Store.Passes)
    (started s .initial fun i => (requests i).call env) x

/-- The request has found the key, and gone on as if it had deleted it. -/
def Uses (x : Requests ι) (i : ι) (key : Key) : Prop := key ∈ (x.world.calls i).used

instance (x : Requests ι) (i : ι) (key : Key) : Decidable (Uses x i key) :=
  inferInstanceAs (Decidable (_ ∈ _))

/-- A reply that says of a request that its state, or its ticket, has been accepted. -/
def Accepting : Request → Reply → Key → Prop
  | .callback _ _ state, .redirect _, key => ∃ code, state = some code ∧ key = .state code
  | .identity _ (.ticket code) _, reply, key =>
    (match reply with
      | .checked _ | .fetched _ | .attached .. | .detached => True
      | _ => False) ∧ key = .ticket code
  | _, _, _ => False

/-! ## What is kept -/

/-- There is something left of a one-time key, in the store or with a request. -/
def Known (w : Scene ι) (key : Key) : Prop :=
  w.shared.cells key ≠ none ∨ ∃ i, (w.calls i).held = some key ∨ key ∈ (w.calls i).used

structure Sound (w : Scene ι) : Prop where
  known : ∀ key code, key.code = some code → Known w key →
    code ∈ w.shared.drawn ∧ ∀ i, code ∉ (w.calls i).fresh
  fresh : ∀ i code, code ∈ (w.calls i).fresh →
    code ∈ w.shared.drawn ∧ ∀ j, code ∈ (w.calls j).fresh → j = i
  held : ∀ i j key, (w.calls i).held = some key → (w.calls j).held = some key → i = j
  coded : ∀ i key, (w.calls i).held = some key → key.code.isSome
  used : ∀ i key, key ∈ (w.calls i).used → key.code.isSome ∧
    (w.shared.cells key = none ∨ key ∈ (w.calls i).left) ∧
    ∀ j, ((w.calls j).held = some key → j = i) ∧ (key ∈ (w.calls j).used → j = i)

variable {w : Scene ι} {i : ι} {d : Chance} {s : Store} {key : Key}

theorem sound_started (hs : Drawn s) : Sound (⟨s, fun _ => .initial⟩ : Scene ι) where
  known key code hcode hknown := by
    rcases hknown with hcell | ⟨i, hheld | hused⟩
    · exact ⟨hs key code hcode hcell, fun i => List.not_mem_nil⟩
    · cases hheld
    · cases hused
  fresh i code h := absurd h List.not_mem_nil
  held i j key h := by cases h
  coded i key h := by cases h
  used i key h := absurd h List.not_mem_nil

/-- Less is stored and held, and nothing has been used. -/
theorem Sound.shrink {w' : Scene ι} (h : Sound w) (hdrawn : w'.shared.drawn = w.shared.drawn)
    (hcells : ∀ key, key.code.isSome → w.shared.cells key = none → w'.shared.cells key = none)
    (hfresh : ∀ i code, code ∈ (w'.calls i).fresh → code ∈ (w.calls i).fresh)
    (hheld : ∀ i key, (w'.calls i).held = some key → (w.calls i).held = some key)
    (hleft : ∀ i, (w'.calls i).left = (w.calls i).left)
    (hused : ∀ i, (w'.calls i).used = (w.calls i).used) : Sound w' where
  known key code hcode hknown := by
    have hbefore : Known w key := by
      rcases hknown with hcell | ⟨i, hi | hi⟩
      · exact .inl fun hnone => hcell (hcells key (by rw [hcode]; rfl) hnone)
      · exact .inr ⟨i, .inl (hheld i key hi)⟩
      · exact .inr ⟨i, .inr (hused i ▸ hi)⟩
    obtain ⟨hin, hnone⟩ := h.known key code hcode hbefore
    exact ⟨hdrawn ▸ hin, fun i hi => hnone i (hfresh i code hi)⟩
  fresh i code hi := by
    obtain ⟨hin, hone⟩ := h.fresh i code (hfresh i code hi)
    exact ⟨hdrawn ▸ hin, fun j hj => hone j (hfresh j code hj)⟩
  held i j key hi hj := h.held i j key (hheld i key hi) (hheld j key hj)
  coded i key hi := h.coded i key (hheld i key hi)
  used i key hi := by
    obtain ⟨hcode, hgone, hone⟩ := h.used i key (hused i ▸ hi)
    refine ⟨hcode, hleft i ▸ hgone.imp_left (hcells key hcode), fun j => ⟨fun hj => ?_, fun hj => ?_⟩⟩
    · exact (hone j).1 (hheld j key hj)
    · exact (hone j).2 (hused j ▸ hj)

variable [DecidableEq ι]

/-- What holds of the other calls, and of the call that has been answered. -/
theorem forall_meet {C : ι → Usage → Prop} {q : Ask} (hi : C i (usage.next (w.calls i) d w.shared q))
    (h : ∀ j, C j (w.calls j)) (j : ι) : C j ((usage.meet i d w q).2.calls j) := by
  by_cases hj : j = i
  · subst hj
    rw [meet_calls_self]
    exact hi
  · rw [meet_calls_ne hj]
    exact h j

/-- A part of its usage that an answer leaves to the request, it leaves to all. -/
theorem same_meet {α : Type} {F : Usage → α} {q : Ask}
    (h : F (usage.next (w.calls i) d w.shared q) = F (w.calls i)) (j : ι) :
    F ((usage.meet i d w q).2.calls j) = F (w.calls j) :=
  forall_meet (C := fun j u => F u = F (w.calls j)) h (fun _ => rfl) j

/-- A question that stores nothing under a one-time key, and by which the request holds and has used
no more. -/
theorem Sound.idle (h : Sound w) {q : Ask} (hdrawn : (react d w.shared q).2.drawn = w.shared.drawn)
    (hcells : ∀ key, key.code.isSome → w.shared.cells key = none →
      (react d w.shared q).2.cells key = none)
    (hfresh : ∀ code ∈ ((w.calls i).next d w.shared q).fresh, code ∈ (w.calls i).fresh)
    (hheld : ∀ key, ((w.calls i).next d w.shared q).held = some key → (w.calls i).held = some key)
    (hleft : ((w.calls i).next d w.shared q).left = (w.calls i).left)
    (hused : ((w.calls i).next d w.shared q).used = (w.calls i).used) :
    Sound (usage.meet i d w q).2 :=
  h.shrink hdrawn hcells
    (forall_meet (C := fun j u => ∀ code, code ∈ u.fresh → code ∈ (w.calls j).fresh) hfresh
      fun _ _ => id)
    (forall_meet (C := fun j u => ∀ key, u.held = some key → (w.calls j).held = some key) hheld
      fun _ _ => id)
    (same_meet hleft) (same_meet hused)

/-- A request finds a key that nobody else has found and not yet deleted. -/
theorem Sound.get (h : Sound w) (halone : Alone i d w (.run (.get key))) :
    Sound (usage.meet i d w (.run (.get key))).2 := by
  have hcells : (react d w.shared (.run (.get key))).2.cells = w.shared.cells := by simp
  by_cases hfound : d.fate = .done ∧ key.code.isSome ∧ (w.shared.cells.get w.shared.now key).isSome
  · have hnext : usage.next (w.calls i) d w.shared (.run (.get key)) =
        { w.calls i with held := some key } := if_pos hfound
    have hcell : w.shared.cells key ≠ none := by
      intro hnone
      simp [Cells.get, hnone] at hfound
    have hothers {j : ι} (hj : (w.calls j).Holds key) : j = i := by
      by_contra hji
      exact halone key (by rw [hnext]) j hji hj
    have hfresh := same_meet (F := Usage.fresh) (i := i) (d := d) (w := w) (q := .run (.get key))
      (by rw [hnext])
    have hleft := same_meet (F := Usage.left) (i := i) (d := d) (w := w) (q := .run (.get key))
      (by rw [hnext])
    have hused := same_meet (F := Usage.used) (i := i) (d := d) (w := w) (q := .run (.get key))
      (by rw [hnext])
    have hheld : ∀ j key', ((usage.meet i d w (.run (.get key))).2.calls j).held = some key' →
        (w.calls j).held = some key' ∨ j = i ∧ key' = key := by
      refine forall_meet (C := fun j u => ∀ key', u.held = some key' →
        (w.calls j).held = some key' ∨ j = i ∧ key' = key) (fun key' hkey' => ?_) fun _ _ => .inl
      have hheld := (congrArg Usage.held hnext).symm.trans hkey'
      exact .inr ⟨rfl, (Option.some.inj hheld).symm⟩
    refine ⟨fun key' code hcode hknown => ?_, fun j code hj => ?_, fun j j' key' hj hj' => ?_,
      fun j key' hj => ?_, fun j key' hj => ?_⟩
    · have hbefore : Known w key' := by
        rcases hknown with hcell' | ⟨j, hj | hj⟩
        · exact .inl fun hnone => hcell' (congrFun hcells key' ▸ hnone)
        · rcases hheld j key' hj with hj | ⟨-, rfl⟩
          · exact .inr ⟨j, .inl hj⟩
          · exact .inl hcell
        · exact .inr ⟨j, .inr (hused j ▸ hj)⟩
      obtain ⟨hin, hnone⟩ := h.known key' code hcode hbefore
      exact ⟨hin, fun j => by rw [hfresh]; exact hnone j⟩
    · rw [hfresh] at hj
      obtain ⟨hin, hone⟩ := h.fresh j code hj
      exact ⟨hin, fun j' hj' => hone j' (hfresh j' ▸ hj')⟩
    · rcases hheld j key' hj with hj₁ | ⟨hji, hkey⟩
      · rcases hheld j' key' hj' with hj₂ | ⟨hji', hkey⟩
        · exact h.held j j' key' hj₁ hj₂
        · exact (hothers (.inl (hkey ▸ hj₁))).trans hji'.symm
      · rcases hheld j' key' hj' with hj₂ | ⟨hji', -⟩
        · exact hji.trans (hothers (.inl (hkey ▸ hj₂))).symm
        · exact hji.trans hji'.symm
    · rcases hheld j key' hj with hj₁ | ⟨-, rfl⟩
      · exact h.coded j key' hj₁
      · exact hfound.2.1
    · rw [hused] at hj
      obtain ⟨hcode, hgone, hone⟩ := h.used j key' hj
      refine ⟨hcode, ?_, fun j' => ⟨fun hj' => ?_, fun hj' => (hone j').2 (hused j' ▸ hj')⟩⟩
      · rw [hleft]
        exact hgone.imp_left fun hnone => (congrFun hcells key').trans hnone
      · rcases hheld j' key' hj' with hj' | ⟨rfl, rfl⟩
        · exact (hone j').1 hj'
        · rcases hgone with hnone | hleft'
          · exact absurd hnone hcell
          · exact (hothers (.inr hleft')).symm
  · have hnext : (w.calls i).next d w.shared (.run (.get key)) = w.calls i := if_neg hfound
    refine h.idle rfl (fun key' _ hnone => (congrFun hcells key').trans hnone) ?_ ?_ ?_ ?_
    all_goals simp [hnext]

theorem Sound.randomHex (h : Sound w) {bytes : ℕ} (hfair : d.Fair w.shared (.randomHex bytes)) :
    Sound (usage.meet i d w (.randomHex bytes)).2 := by
  have hnew : d.randomHex ∉ w.shared.drawn := hfair
  have hheld := same_meet (F := Usage.held) (i := i) (d := d) (w := w) (q := .randomHex bytes) rfl
  have hleft := same_meet (F := Usage.left) (i := i) (d := d) (w := w) (q := .randomHex bytes) rfl
  have hused := same_meet (F := Usage.used) (i := i) (d := d) (w := w) (q := .randomHex bytes) rfl
  have hfresh : ∀ j code, code ∈ ((usage.meet i d w (.randomHex bytes)).2.calls j).fresh →
      code ∈ (w.calls j).fresh ∨ j = i ∧ code = d.randomHex := by
    refine forall_meet (C := fun j u => ∀ code, code ∈ u.fresh →
      code ∈ (w.calls j).fresh ∨ j = i ∧ code = d.randomHex) (fun code hcode => ?_) fun _ _ => .inl
    rcases List.mem_cons.mp hcode with rfl | hcode
    · exact .inr ⟨rfl, rfl⟩
    · exact .inl hcode
  refine ⟨fun key code hcode hknown => ?_, fun j code hj => ?_, fun j j' key hj hj' => ?_,
    fun j key hj => ?_, fun j key hj => ?_⟩
  · have hbefore : Known w key := by
      rcases hknown with hcell | ⟨j, hj | hj⟩
      · exact .inl hcell
      · exact .inr ⟨j, .inl (hheld j ▸ hj)⟩
      · exact .inr ⟨j, .inr (hused j ▸ hj)⟩
    obtain ⟨hin, hnone⟩ := h.known key code hcode hbefore
    refine ⟨List.mem_cons_of_mem _ hin, fun j hj => ?_⟩
    rcases hfresh j code hj with hj | ⟨-, rfl⟩
    · exact hnone j hj
    · exact hnew hin
  · rcases hfresh j code hj with hj | ⟨rfl, rfl⟩
    · obtain ⟨hin, hone⟩ := h.fresh j code hj
      refine ⟨List.mem_cons_of_mem _ hin, fun j' hj' => ?_⟩
      rcases hfresh j' code hj' with hj' | ⟨-, rfl⟩
      · exact hone j' hj'
      · exact absurd hin hnew
    · refine ⟨List.mem_cons_self, fun j' hj' => ?_⟩
      rcases hfresh j' _ hj' with hj' | ⟨rfl, -⟩
      · exact absurd (h.fresh j' _ hj').1 hnew
      · rfl
  · exact h.held j j' key (hheld j ▸ hj) (hheld j' ▸ hj')
  · exact h.coded j key (hheld j ▸ hj)
  · rw [hused] at hj
    obtain ⟨hcode, hgone, hone⟩ := h.used j key hj
    rw [← hleft] at hgone
    refine ⟨hcode, hgone, fun j' => ⟨fun hj' => ?_, fun hj' => ?_⟩⟩
    · exact (hone j').1 (hheld j' ▸ hj')
    · exact (hone j').2 (hused j' ▸ hj')

/-- A request goes on as if it had deleted the key that it has found: it has used it. -/
theorem Sound.use (h : Sound w) {left : List Key} (hkey : (w.calls i).held = some key)
    (hnext : usage.next (w.calls i) d w.shared (.run (.del key)) =
      { w.calls i with held := none, left := left, used := key :: (w.calls i).used })
    (hcell : ∀ key', w.shared.cells key' = none →
      (usage.meet i d w (.run (.del key))).2.shared.cells key' = none)
    (hgone : (usage.meet i d w (.run (.del key))).2.shared.cells key = none ∨ key ∈ left)
    (hmore : (w.calls i).left ⊆ left) : Sound (usage.meet i d w (.run (.del key))).2 := by
  have hfresh := same_meet (F := Usage.fresh) (i := i) (d := d) (w := w) (q := .run (.del key))
    (by rw [hnext])
  have hleft : ∀ j, (w.calls j).left ⊆ ((usage.meet i d w (.run (.del key))).2.calls j).left :=
    forall_meet (C := fun j u => (w.calls j).left ⊆ u.left) (by rw [hnext]; exact hmore)
      fun _ _ => id
  have hheld : ∀ j key', ((usage.meet i d w (.run (.del key))).2.calls j).held = some key' →
      (w.calls j).held = some key' ∧ key' ≠ key := by
    intro j key' hj
    by_cases hji : j = i
    · subst hji
      rw [meet_calls_self, hnext] at hj
      cases hj
    · rw [meet_calls_ne hji] at hj
      exact ⟨hj, fun heq => hji (h.held j i key (heq ▸ hj) hkey)⟩
  have hused : ∀ j key', key' ∈ ((usage.meet i d w (.run (.del key))).2.calls j).used →
      key' ∈ (w.calls j).used ∨ j = i ∧ key' = key := by
    refine forall_meet (C := fun j u => ∀ key', key' ∈ u.used →
      key' ∈ (w.calls j).used ∨ j = i ∧ key' = key) (fun key' hmem => ?_) fun _ _ => .inl
    rw [hnext] at hmem
    rcases List.mem_cons.mp hmem with rfl | hmem
    · exact .inr ⟨rfl, rfl⟩
    · exact .inl hmem
  refine ⟨fun key' code hcode hknown => ?_, fun j code hj => ?_, fun j j' key' hj hj' => ?_,
    fun j key' hj => ?_, fun j key' hj => ?_⟩
  · have hbefore : Known w key' := by
      rcases hknown with hcell' | ⟨j, hj | hj⟩
      · exact .inl fun hnone => hcell' (hcell key' hnone)
      · exact .inr ⟨j, .inl (hheld j key' hj).1⟩
      · rcases hused j key' hj with hj | ⟨-, rfl⟩
        · exact .inr ⟨j, .inr hj⟩
        · exact .inr ⟨i, .inl hkey⟩
    obtain ⟨hin, hnone⟩ := h.known key' code hcode hbefore
    exact ⟨hin, fun j hj => hnone j (hfresh j ▸ hj)⟩
  · obtain ⟨hin, hone⟩ := h.fresh j code (hfresh j ▸ hj)
    exact ⟨hin, fun j' hj' => hone j' (hfresh j' ▸ hj')⟩
  · exact h.held j j' key' (hheld j key' hj).1 (hheld j' key' hj').1
  · exact h.coded j key' (hheld j key' hj).1
  · rcases hused j key' hj with hj | ⟨rfl, rfl⟩
    · obtain ⟨hcode, hgone', hone⟩ := h.used j key' hj
      refine ⟨hcode, ?_, fun j' => ⟨fun hj' => (hone j').1 (hheld j' key' hj').1, fun hj' => ?_⟩⟩
      · exact hgone'.imp (hcell key') fun hmem => hleft j hmem
      · rcases hused j' key' hj' with hj' | ⟨rfl, rfl⟩
        · exact (hone j').2 hj'
        · exact (hone j').1 hkey
    · refine ⟨h.coded j key' hkey, ?_, fun j' => ⟨fun hj' => ?_, fun hj' => ?_⟩⟩
      · rw [meet_calls_self, hnext]
        exact hgone
      · exact absurd rfl (hheld j' key' hj').2
      · rcases hused j' key' hj' with hj' | ⟨rfl, -⟩
        · exact ((h.used j' key' hj').2.2 j).1 hkey ▸ rfl
        · rfl

theorem Sound.del (h : Sound w) : Sound (usage.meet i d w (.run (.del key))).2 := by
  have hcell : ∀ key', w.shared.cells key' = none →
      (react d w.shared (.run (.del key))).2.cells key' = none := by
    intro key' hnone
    rw [react_run_cells, Cells.Delivery.exec_cells]
    split
    · by_cases heq : key' = key
      · subst heq
        exact Cells.del_self
      · exact (Cells.del_of_ne heq).trans hnone
    · exact hnone
  by_cases hkey : (w.calls i).held = some key
  · cases hfate : d.fate with
    | done =>
      have hdeleted : (react d w.shared (.run (.del key))).2.cells key = none := by
        rw [react_run_cells, Cells.Delivery.exec_cells, hfate]
        exact Cells.del_self
      exact h.use hkey (by simp [usage, Usage.next, Usage.command, hkey, hfate]) hcell (.inl hdeleted)
        fun _ => id
    | refused message =>
      exact h.use hkey (by simp [usage, Usage.next, Usage.command, hkey, hfate]) hcell
        (.inr List.mem_cons_self) fun _ => List.mem_cons_of_mem _
    | lost message =>
      refine h.idle rfl (fun key' _ => hcell key') ?_ ?_ ?_ ?_
      all_goals simp [Usage.next, Usage.command, hfate, hkey]
    | failed message =>
      refine h.idle rfl (fun key' _ => hcell key') ?_ ?_ ?_ ?_
      all_goals simp [Usage.next, Usage.command, hfate, hkey]
  · refine h.idle rfl (fun key' _ => hcell key') ?_ ?_ ?_ ?_
    all_goals simp [Usage.next, Usage.command, hkey]

/-- A request stores something under a code that it has drawn. -/
theorem Sound.set (h : Sound w) {value : key.Entry} {ttl : Option ℕ} {code : String}
    (hcode : key.code = some code) (hmine : code ∈ (w.calls i).fresh) :
    Sound (usage.meet i d w (.run (.set key value ttl))).2 := by
  have hnext : usage.next (w.calls i) d w.shared (.run (.set key value ttl)) =
      { w.calls i with fresh := (w.calls i).fresh.filter fun c => key.code ≠ some c } := rfl
  have hheld := same_meet (F := Usage.held) (i := i) (d := d) (w := w)
    (q := .run (.set key value ttl)) rfl
  have hleft := same_meet (F := Usage.left) (i := i) (d := d) (w := w)
    (q := .run (.set key value ttl)) rfl
  have hused := same_meet (F := Usage.used) (i := i) (d := d) (w := w)
    (q := .run (.set key value ttl)) rfl
  have hfresh : ∀ j c, c ∈ ((usage.meet i d w (.run (.set key value ttl))).2.calls j).fresh →
      c ∈ (w.calls j).fresh ∧ c ≠ code := by
    intro j c hc
    by_cases hji : j = i
    · subst hji
      rw [meet_calls_self, hnext] at hc
      obtain ⟨hmem, hne⟩ := List.mem_filter.mp hc
      refine ⟨hmem, fun heq => ?_⟩
      rw [hcode, heq] at hne
      simp at hne
    · rw [meet_calls_ne hji] at hc
      exact ⟨hc, fun heq => hji ((h.fresh i code hmine).2 j (heq ▸ hc))⟩
  have hunknown : ¬Known w key := fun hknown => (h.known key code hcode hknown).2 i hmine
  have hcell {key' : Key} (hne : key' ≠ key) :
      (usage.meet i d w (.run (.set key value ttl))).2.shared.cells key' = w.shared.cells key' :=
    Cells.Delivery.exec_of_ne hne
  refine ⟨fun key' c hc hknown => ?_, fun j c hj => ?_, fun j j' key' hj hj' => ?_,
    fun j key' hj => ?_, fun j key' hj => ?_⟩
  · by_cases heq : key' = key
    · subst heq
      obtain rfl := Option.some.inj (hcode.symm.trans hc)
      exact ⟨(h.fresh i code hmine).1, fun j hj => (hfresh j code hj).2 rfl⟩
    · have hbefore : Known w key' := by
        rcases hknown with hcell' | ⟨j, hj | hj⟩
        · exact .inl (hcell heq ▸ hcell')
        · exact .inr ⟨j, .inl (hheld j ▸ hj)⟩
        · exact .inr ⟨j, .inr (hused j ▸ hj)⟩
      obtain ⟨hin, hnone⟩ := h.known key' c hc hbefore
      exact ⟨hin, fun j hj => hnone j (hfresh j c hj).1⟩
  · obtain ⟨hin, hone⟩ := h.fresh j c (hfresh j c hj).1
    exact ⟨hin, fun j' hj' => hone j' (hfresh j' c hj').1⟩
  · exact h.held j j' key' (hheld j ▸ hj) (hheld j' ▸ hj')
  · exact h.coded j key' (hheld j ▸ hj)
  · rw [hused] at hj
    obtain ⟨hcoded, hgone, hone⟩ := h.used j key' hj
    have hne : key' ≠ key := by
      intro heq
      exact hunknown (.inr ⟨j, .inr (heq ▸ hj)⟩)
    rw [← hleft] at hgone
    refine ⟨hcoded, hgone.imp_left (hcell hne).trans, fun j' => ⟨fun hj' => ?_, fun hj' => ?_⟩⟩
    · exact (hone j').1 (hheld j' ▸ hj')
    · exact (hone j').2 (hused j' ▸ hj')

/-! ## Questions -/

/-- Nothing is stored under a one-time key. -/
def Plain : Ask → Prop
  | .run (.set key ..) | .run (.setNx key ..) => key.code = none
  | _ => True

omit [DecidableEq ι] in
theorem plain_of_ordinary (q : Ask) (h : q.Ordinary) : Plain q := by
  match q, h with
  | .run (.get _), _ | .run (.del _), _ => trivial
  | .run (.set ..), h => exact h
  | .now, _ | .handles _, _ | .randomHex _, _ | .verifyOtp .., _ | .ownerHash _, _
  | .enforceRateLimit, _ | .exchange .., _ | .readUser .., _ => trivial

omit [DecidableEq ι] in
/-- A command on another key leaves the one-time keys as they are. -/
theorem cells_plain {c : Command} (hc : c.key.code = none) {key : Key} (hkey : key.code.isSome) :
    (react d s (.run c)).2.cells key = s.cells key := by
  apply Cells.Delivery.exec_of_ne
  intro heq
  rw [heq, hc] at hkey
  cases hkey

theorem Sound.plain (h : Sound w) {q : Ask} (hq : Plain q) (hmet : FairAndAlone i d w q) :
    Sound (usage.meet i d w q).2 := by
  match q, hq with
  | .run (.get key), _ => exact h.get hmet.2
  | .run (.set key value ttl), hkey =>
    have hcells (key' : Key) (hkey' : key'.code.isSome) := cells_plain (d := d) (s := w.shared)
      (c := .set key value ttl) hkey hkey'
    refine h.idle rfl (fun key' hkey' hnone => (hcells key' hkey').trans hnone) (fun code hmem => ?_)
      (fun _ => id) rfl rfl
    exact (List.mem_filter.mp hmem).1
  | .run (.setNx key value ttl), hkey =>
    have hcells (key' : Key) (hkey' : key'.code.isSome) := cells_plain (d := d) (s := w.shared)
      (c := .setNx key value ttl) hkey hkey'
    exact h.idle rfl (fun key' hkey' hnone => (hcells key' hkey').trans hnone) (fun _ => id)
      (fun _ => id) rfl rfl
  | .run (.del key), _ => exact h.del
  | .randomHex bytes, _ => exact h.randomHex hmet.1
  | .now, _ | .handles _, _ | .verifyOtp .., _ | .ownerHash _, _ | .enforceRateLimit, _
  | .exchange .., _ | .readUser .., _ =>
    exact h.idle rfl (fun _ _ => id) (fun _ => id) (fun _ => id) rfl rfl

omit [DecidableEq ι] in
/-- What has been used has been used for good. -/
theorem used_next {u : Usage} {q : Ask} : u.used ⊆ (u.next d s q).used := by
  intro key hkey
  match q with
  | .run (.get key') =>
    simp only [Usage.next, Usage.command]
    split <;> exact hkey
  | .run (.del key') =>
    simp only [Usage.next, Usage.command]
    split
    · cases d.fate with
      | done => exact List.mem_cons_of_mem _ hkey
      | refused message => exact List.mem_cons_of_mem _ hkey
      | lost message => exact hkey
      | failed message => exact hkey
    · exact hkey
  | .run (.set ..) | .run (.setNx ..) | .now | .handles _ | .randomHex _ | .verifyOtp ..
  | .ownerHash _ | .enforceRateLimit | .exchange .. | .readUser .. => exact hkey

/-! ## Calls -/

abbrev KeepsOnce (i : ι) (u : Usage) {α : Type} (call : Call α) (N : Except String α → Usage → Prop) :
    Prop :=
  Keeps usage FairAndAlone Sound i u call N

variable {u : Usage} {α : Type}

theorem plain_keeps {call : Call α} (hcall : call.Asks Plain) :
    KeepsOnce i u call fun _ u' => u.used ⊆ u'.used :=
  keeps_of_asks hcall (fun _ => id) (fun _ hq _ _ hw hmet => hw.plain hq hmet)
    fun _ _ _ _ _ hu _ hkey => used_next (hu hkey)

/-- A request that has found a one-time key holds it. -/
theorem kvGet_keeps (hcode : key.code.isSome) :
    KeepsOnce i u (kvGet key) fun r u' => ∀ v, r = .ok (some v) → u'.held = some key := by
  have hentry : KeepsOnce i u (entry (.get key)) fun r u' =>
      ∀ v, r = .ok (.ok (some v)) → u'.held = some key := by
    apply keeps_run (fun d w hw _ hmet => hw.get hmet.2)
    intro d w _ _ _ v hv
    cases hfate : d.fate with
    | done =>
      rw [hfate] at hv
      have hfound : w.shared.cells.get w.shared.now key = some v := Except.ok.inj (Except.ok.inj hv)
      simp [Usage.next, Usage.command, hfate, hcode, hfound]
    | lost message =>
      rw [hfate] at hv
      cases hv
    | failed message =>
      rw [hfate] at hv
      cases hv
    | refused message =>
      rw [hfate] at hv
      cases hv
  refine hentry.bind (fun first u₁ h₁ => .ret fun v hv => ?_) fun e _ _ v hv => by cases hv
  cases first with
  | ok found =>
    have hfound : found = some v := Except.ok.inj hv
    exact h₁ v (by rw [hfound])
  | error message => cases hv

theorem kvDel_keeps (hheld : u.held = some key) :
    KeepsOnce i u (kvDel key) fun r u' => r = .ok () → key ∈ u'.used := by
  have hentry : KeepsOnce i u (entry (.del key)) fun r u' => ∀ first, r = .ok first → key ∈ u'.used := by
    apply keeps_run (fun d w hw _ _ => hw.del)
    intro d w _ _ _ first hr
    cases hfate : d.fate with
    | done => simp [Usage.next, Usage.command, hfate, hheld]
    | refused message => simp [Usage.next, Usage.command, hfate, hheld]
    | lost message =>
      rw [hfate] at hr
      cases hr
    | failed message =>
      rw [hfate] at hr
      cases hr
  exact hentry.bind (fun first u₁ h₁ => .ret fun _ => h₁ first rfl) fun e _ _ hr => by cases hr

theorem kvSet_keeps {code json : String} {value : key.Entry} {ttlSec : Option ℕ}
    (hcode : key.code = some code) (hfresh : code ∈ u.fresh) :
    KeepsOnce i u (kvSet key value json ttlSec) fun _ u' => u.used ⊆ u'.used := by
  have hentry : KeepsOnce i u (entry (.set key value (ttlSec.map (· * 1000))))
      fun _ u' => u.used ⊆ u'.used :=
    keeps_run (fun d w hw hu _ => hw.set hcode (hu ▸ hfresh)) fun d w _ _ _ _ => id
  exact .ite (fun _ => .ret fun _ => id) fun _ =>
    hentry.bind (fun _ u₁ h₁ => .ret h₁) fun _ _ => id

theorem randomHex_keeps {bytes : ℕ} : KeepsOnce i u (ask (.randomHex bytes)) fun r u' =>
    (∀ code, r = .ok code → code ∈ u'.fresh) ∧ u.fresh ⊆ u'.fresh ∧ u.used ⊆ u'.used := by
  refine .ask (fun d w hw _ hmet => hw.randomHex hmet.1) fun d w _ _ _ => .ret ⟨?_, ?_, fun _ => id⟩
  · rintro _ ⟨⟩
    exact List.mem_cons_self
  · exact fun _ hcode => List.mem_cons_of_mem _ hcode

/-- A sequence of parts in which nothing is forgotten. -/
theorem grow_bind {β : Type} {call : Call α} {f : α → Call β}
    (h : KeepsOnce i u call fun _ u' => u.used ⊆ u'.used)
    (hf : ∀ a u', KeepsOnce i u' (f a) fun _ u'' => u'.used ⊆ u''.used) :
    KeepsOnce i u (call >>= f) fun _ u' => u.used ⊆ u'.used := by
  refine h.bind (fun a u₁ h₁ => ?_) fun _ _ => id
  exact (hf a u₁).mono fun _ u₂ h₂ => List.Subset.trans h₁ h₂

theorem question_keeps {q : Ask} (hq : Plain q) :
    KeepsOnce i u (ask q) fun _ u' => u.used ⊆ u'.used :=
  plain_keeps (asks_question hq)

/-- A ticket that stands for something has been used. -/
theorem consumeTicket_keeps {ticket : String} : KeepsOnce i u (consumeTicket ticket)
    fun r u' => ∀ t, r = .ok (some t) → .ticket ticket ∈ u'.used := by
  refine .ite (fun _ => .ret fun t ht => by cases ht) fun _ => ?_
  refine (kvGet_keeps rfl).bind (fun found u₁ hfound => ?_) fun e _ _ t ht => by cases ht
  cases found with
  | none => exact .ret fun t ht => by cases ht
  | some t =>
    refine (kvDel_keeps (hfound t rfl)).bind (fun a u₂ hdel => ?_) fun e _ _ t ht => by cases ht
    exact .ret fun _ _ => hdel rfl

theorem resolveProof_keeps {env : Env} {ticket : String} : KeepsOnce i u
    (resolveProof env (.ticket ticket))
    fun r u' => ∀ resolved, r = .ok (some resolved) → .ticket ticket ∈ u'.used := by
  refine consumeTicket_keeps.bind (fun t u₁ ht => ?_) fun e _ _ resolved h => by cases h
  cases t with
  | none => exact .ret fun resolved h => by cases h
  | some t =>
    refine (plain_keeps asks_orThrow).bind (fun id u₂ hgrows => ?_) fun e _ _ resolved h => by cases h
    exact .ret fun _ _ => hgrows (ht t rfl)

theorem mintTicket_keeps {env : Env} {provider : OAuthProvider} {code : String} {state : OAuthState} :
    KeepsOnce i u (mintTicket env provider code state) fun _ u' => u.used ⊆ u'.used := by
  refine grow_bind (question_keeps trivial) fun token u₁ => ?_
  apply grow_bind (plain_keeps asks_orThrow)
  intro token u₂
  cases token with
  | none => exact .ret fun _ => id
  | some token =>
    refine grow_bind (question_keeps trivial) fun user u₃ => ?_
    apply grow_bind (plain_keeps asks_orThrow)
    intro user u₄
    cases user with
    | none => exact .ret fun _ => id
    | some user =>
      refine randomHex_keeps.bind (fun ticket u₅ ⟨hfresh, _, hused⟩ => ?_) fun _ _ h => h.2.2
      let value : OAuthTicket := ⟨provider, user.1, user.2, state.address, state.network⟩
      have hset : KeepsOnce i u₅
          (kvSet (.ticket ticket) value (value.json env) (some ticketTtlSec))
          fun _ u' => u₅.used ⊆ u'.used := kvSet_keeps rfl (hfresh ticket rfl)
      refine hset.bind (fun _ u₆ h₆ => ?_) fun _ _ h => List.Subset.trans hused h
      exact .ret (List.Subset.trans hused h₆)

/-- A callback that is redirected has used its state. -/
theorem finishOAuth_keeps {env : Env} {provider : String} {code state : Option String} :
    KeepsOnce i u (finishOAuth env provider code state)
      fun r u' => ∀ url, r = .ok (.ok url) → ∃ st, state = some st ∧ .state st ∈ u'.used := by
  unfold finishOAuth
  cases oauthProviders.find? (·.text = provider) with
  | none => exact .ret fun url h => by cases h
  | some p =>
    refine .ite (fun _ => .ret fun url h => by cases h) fun _ => ?_
    cases code.filter (· ≠ "") with
    | none => exact .ret fun url h => by cases h
    | some code =>
      cases hstate : state.filter (· ≠ "") with
      | none => exact .ret fun url h => by cases h
      | some st =>
        have hsome : state = some st := (Option.filter_eq_some_iff.mp hstate).1
        refine (kvGet_keeps rfl).bind (fun found u₁ hfound => ?_) fun _ _ _ url h => by cases h
        cases found with
        | none => exact .ret fun url h => by cases h
        | some parsed =>
          refine (kvDel_keeps (hfound parsed rfl)).bind (fun _ u₂ hdel => ?_)
            fun _ _ _ url h => by cases h
          refine .ite (fun _ => .ret fun url h => by cases h) fun _ => ?_
          exact mintTicket_keeps.mono fun _ u₃ hgrows _ _ => ⟨st, hsome, hgrows (hdel rfl)⟩

theorem startOAuth_keeps {env : Env} {provider : OAuthProvider} {address : Option String}
    {network : NetworkId} : KeepsOnce i u (startOAuth env provider address network)
      fun _ _ => True := by
  refine .ite (fun _ => .ret trivial) fun _ => .ite (fun _ => .ret trivial) fun _ => ?_
  refine randomHex_keeps.bind (fun state u₁ h₁ => ?_) fun _ _ _ => trivial
  have hverifier : KeepsOnce i u₁ (freshVerifier provider) fun _ u' => u₁.fresh ⊆ u'.fresh := by
    exact .ite (fun _ => randomHex_keeps.mono fun r u₂ h => h.2.1) fun _ => .ret fun _ => id
  refine hverifier.bind (fun verifier u₂ h₂ => ?_) fun _ _ _ => trivial
  refine (kvSet_keeps rfl (h₂ (h₁.1 state rfl))).bind (fun _ u₃ _ => ?_) fun _ _ _ => trivial
  exact .ret trivial

/-- What a reply says of the request, and has to be made good. -/
def Honest (request : Request) (r : Except String Reply) (u : Usage) : Prop :=
  ∀ reply key, r = .ok reply → Accepting request reply key → key ∈ u.used

omit [DecidableEq ι] in
theorem honest_of_modest {request : Request} {r : Except String Reply}
    (h : ∀ reply key, ¬Accepting request reply key) : Honest request r u :=
  fun reply key _ haccepting => absurd haccepting (h reply key)

theorem plain_honest {request : Request} {call : Call Reply} (hcall : call.Asks Plain)
    (h : ∀ reply key, ¬Accepting request reply key) : KeepsOnce i u call (Honest request) :=
  (plain_keeps hcall).mono fun _ _ _ => honest_of_modest h

theorem ticketRoute_keeps {env : Env} {network : NetworkId} {code : String} {operation : Operation} :
    KeepsOnce i u (identityRoute env network (.ticket code) operation)
      (Honest (.identity network (.ticket code) operation)) := by
  refine Keeps.bind (question_keeps (q := .enforceRateLimit) trivial) (fun limited u₁ _ => ?_)
    fun _ _ _ reply key h => by cases h
  cases limited with
  | some reason =>
    refine .ret fun reply key h haccepting => ?_
    cases h
    exact absurd haccepting.1 id
  | none =>
    refine resolveProof_keeps.bind (fun resolved u₂ h₂ => ?_) fun _ _ _ reply key h => by cases h
    cases resolved with
    | none =>
      refine .ret fun reply key h haccepting => ?_
      cases h
      exact absurd haccepting.1 id
    | some resolved =>
      have hoperate : KeepsOnce i u₂ (operate env network resolved operation)
          fun _ u' => u₂.used ⊆ u'.used :=
        plain_keeps (asks_operate plain_of_ordinary fun _ _ => rfl)
      apply hoperate.mono
      intro r u₃ h₃ reply key _ haccepting
      rw [haccepting.2]
      exact h₃ (h₂ resolved rfl)

theorem oauthCallback_keeps {env : Env} {provider : String} {code state : Option String} :
    KeepsOnce i u (oauthCallback env provider code state) (Honest (.callback provider code state)) := by
  refine finishOAuth_keeps.bind (fun done u₁ h₁ => ?_) fun _ _ _ reply key h => by cases h
  cases done with
  | error reason =>
    refine .ret fun reply key h haccepting => ?_
    cases h
    exact absurd haccepting id
  | ok url =>
    refine .ret fun reply key h haccepting => ?_
    cases h
    obtain ⟨st, rfl, rfl⟩ := haccepting
    obtain ⟨st', heq, hused⟩ := h₁ url rfl
    cases heq
    exact hused

theorem call_keeps {env : Env} (request : Request) :
    KeepsOnce i u (request.call env) (Honest request) := by
  cases request with
  | identity network proof operation =>
    cases proof with
    | ticket code => exact ticketRoute_keeps
    | passkey id proof =>
      refine plain_honest (asks_rateLimited plain_of_ordinary ?_) fun _ _ => not_false
      refine (asks_resolveProof plain_of_ordinary).bind fun resolved => ?_
      cases resolved with
      | none => exact asks_pure
      | some resolved => exact asks_operate plain_of_ordinary fun _ _ => rfl
    | email email code =>
      refine plain_honest (asks_rateLimited plain_of_ordinary ?_) fun _ _ => not_false
      refine (asks_resolveProof plain_of_ordinary).bind fun resolved => ?_
      cases resolved with
      | none => exact asks_pure
      | some resolved => exact asks_operate plain_of_ordinary fun _ _ => rfl
  | detachMine network pubkey provider accountProof =>
    exact plain_honest (asks_identityDetachMine plain_of_ordinary fun _ _ _ => rfl)
      fun _ _ => not_false
  | links network pubkey accountProof =>
    exact plain_honest (asks_identityLinks plain_of_ordinary fun _ _ _ => rfl) fun _ _ => not_false
  | callback provider code state => exact oauthCallback_keeps
  | start network provider address =>
    have hno (r : Except String Reply) (u : Usage) :
        Honest (.start network provider address) r u := honest_of_modest fun _ _ => not_false
    change KeepsOnce i u (identityStart env network provider address) _
    unfold identityStart
    cases oauthProviders.find? (·.text = provider) with
    | none => exact .ret (hno _ _)
    | some p =>
      refine Keeps.bind (question_keeps (q := .enforceRateLimit) trivial) (fun limited u₁ _ => ?_)
        fun _ _ _ => hno _ _
      cases limited with
      | some reason => exact .ret (hno _ _)
      | none =>
        refine startOAuth_keeps.bind (fun started u₂ _ => ?_) fun _ _ _ => hno _ _
        cases started with
        | error reason => exact .ret (hno _ _)
        | ok state => exact .ret (hno _ _)

/-! ## Over a whole run -/

variable {env : Env} {requests : ι → Request} {x : Requests ι}

omit [DecidableEq ι] in
theorem Sound.passes {s' : Store} (h : Sound w) (hpass : w.shared.Passes s') :
    Sound { w with shared := s' } := by
  obtain ⟨-, heq⟩ := hpass
  rw [heq]
  exact h.shrink rfl (fun _ _ => id) (fun _ _ => id) (fun _ _ => id) (fun _ => rfl) fun _ => rfl

/-- **A state or a ticket is used once**, in every run in which nobody reads one that another request
has found and not yet deleted; and a request whose reply says so has used its own. -/
theorem used_once (hs : Drawn s) (hrun : Run env requests s FairAndAlone x) :
    (∀ key i j, Uses x i key → Uses x j key → i = j) ∧
    ∀ i reply key, x.prog i = .ret (.ok reply) → Accepting (requests i) reply key → Uses x i key := by
  obtain ⟨hsound, -, hended⟩ := leads_keeps (sound_started hs) (fun _ _ h => h.passes)
    (fun i => call_keeps (requests i)) hrun
  refine ⟨fun key i j hi hj => ?_, fun i reply key hreply => ?_⟩
  · exact (((hsound.used i key hi).2.2 j).2 hj).symm
  · exact hended i _ hreply reply key rfl

end

namespace Demo

/-- No text is changed, hashed or quoted, and no proof is good. -/
def env : Env where
  sha256Hex s := s
  finite _ := none
  verifies _ _ _ := false
  toLowerCase s := s
  federationDomain := "getlumenia.com"
  toLowerCase_name _ _ := rfl
  validateBox _ := .error "not a box"
  quote s := s
  oauthConfig _ := true
  publicUrl := "https://sponsor.getlumenia.com"
  webUrl := "https://getlumenia.com"

def code : String := "00000000000000000000000000000000"

def oauthState : OAuthState := ⟨.google, "verifier", none, .testnet⟩

def oauthTicket : OAuthTicket := ⟨.google, "somebody", none, none, .testnet⟩

/-- A round trip has begun, and another has come back. -/
def store : Store where
  now := 0
  cells := (Cells.empty.set (.state code) oauthState none).set (.ticket code) oauthTicket none
  drawn := [code]

theorem drawn_store : Drawn store := by
  intro key c hcode hcell
  by_cases hticket : key = .ticket code
  · subst hticket
    cases hcode
    exact List.mem_singleton_self _
  · by_cases hstate : key = .state code
    · subst hstate
      cases hcode
      exact List.mem_singleton_self _
    · simp [store, Cells.set_of_ne hticket, Cells.set_of_ne hstate, Cells.empty] at hcell

/-- Two callbacks with the state, and two requests with the ticket. -/
def requests (i : Fin 4) : Request :=
  if i < 2 then .callback "google" (some "code") (some code)
  else .identity .testnet (.ticket code) .check

def start : Requests (Fin 4) := started store .initial fun i => (requests i).call env

def steps (i : Fin 4) (n : ℕ) : List (Fin 4 × Chance) :=
  List.replicate n (i, .plain (if i = 0 then "first" else "second") "somebody")

def fair (d : Chance) (w : Scene (Fin 4)) : Ask → Bool
  | .randomHex _ => !w.shared.drawn.contains d.randomHex
  | _ => true

/-- Nobody holds the key that the request comes to hold. -/
def alone (i : Fin 4) (d : Chance) (w : Scene (Fin 4)) (q : Ask) : Bool :=
  (usage.next (w.calls i) d w.shared q).held.all fun key => ∀ j, j ≠ i → ¬(w.calls j).Holds key

theorem fair_of_check {d : Chance} {w : Scene (Fin 4)} {q : Ask} (h : fair d w q = true) :
    d.Fair w.shared q := by
  cases q with
  | randomHex bytes => simpa [fair, Chance.Fair] using h
  | _ => trivial

theorem alone_of_check {i : Fin 4} {d : Chance} {w : Scene (Fin 4)} {q : Ask}
    (h : alone i d w q = true) : Alone i d w q := by
  intro key hkey
  simpa [alone, hkey] using h

def inTurn : List (Fin 4 × Chance) := steps 0 6 ++ steps 1 1 ++ steps 2 4 ++ steps 3 2

def crossed : List (Fin 4 × Chance) :=
  steps 0 1 ++ steps 1 6 ++ steps 0 5 ++ steps 2 2 ++ steps 3 4 ++ steps 2 2

theorem inTurn_uses :
    start.fairly usage.meet (fun i d w q => fair d w q && alone i d w q) inTurn = true ∧
    Uses (start.play usage.meet inTurn) 0 (.state code) ∧
    Uses (start.play usage.meet inTurn) 2 (.ticket code) := by
  decide +kernel

theorem crossed_uses : start.fairly usage.meet (fun _ d w q => fair d w q) crossed = true ∧
    (∀ i < 2, Uses (start.play usage.meet crossed) i (.state code)) ∧
    ∀ i ≥ 2, Uses (start.play usage.meet crossed) i (.ticket code) := by
  decide +kernel

theorem run_inTurn : Run env requests store FairAndAlone (start.play usage.meet inTurn) := by
  refine leads_meet (fun i d w q h => ?_) inTurn_uses.1
  rw [Bool.and_eq_true] at h
  exact ⟨fair_of_check h.1, alone_of_check h.2⟩

theorem run_crossed : Run env requests store Fair (start.play usage.meet crossed) :=
  leads_meet (fun _ _ _ _ => fair_of_check) crossed_uses.1

end Demo

/-- Of two callbacks with one state, one after the other, the first alone uses it. -/
theorem used_once_in_turn : Uses (Demo.start.play usage.meet Demo.inTurn) 0 (.state Demo.code) ∧
    ∀ j, Uses (Demo.start.play usage.meet Demo.inTurn) j (.state Demo.code) → 0 = j := by
  have huses := Demo.inTurn_uses.2.1
  exact ⟨huses, fun j hj => (used_once Demo.drawn_store Demo.run_inTurn).1 _ 0 j huses hj⟩

/-- Two callbacks that have both read a state use it both. -/
theorem used_twice : ¬∀ (env : Env) (requests : Fin 4 → Request) (s : Store) x, Drawn s →
    Run env requests s Fair x → ∀ key i j, Uses x i key → Uses x j key → i = j := by
  intro h
  have huses := Demo.crossed_uses.2.1
  have hsame := h _ _ _ _ Demo.drawn_store Demo.run_crossed _ 0 1 (huses 0 (by decide))
    (huses 1 (by decide))
  cases hsame

end Lumenia.Sponsor.Identity.OneTime
