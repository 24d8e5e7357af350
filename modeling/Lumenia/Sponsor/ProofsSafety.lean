import Lumenia.Sponsor.Proofs
import Lumenia.Theory.Cells
import Lumenia.Theory.Chronicle
import Lumenia.Theory.Parallel
import Mathlib.Tactic.Linarith

/-!
# A proof is accepted once

Any number of checks against one clock and one store, which also expires its keys by that clock. A
proof is remembered for a minute longer than its timestamp can be accepted, so a check that reaches
the store within 59 seconds of reading the clock meets the memory of an earlier one
(`accepted_once`). A check that is held up longer does not (`accepted_twice`).
-/

namespace Lumenia.Sponsor.Proofs

open Recovery (proofMemorySec proofSkewSec)
open Dialogue

inductive Ask
  | now
  /-- The pipeline of one `SET … NX EX`, under `lumenia:handle-proof:`. -/
  | setNx (hash : String) (ttlSec : ℕ)

/-- Whether the key was taken, or what was thrown. -/
abbrev Ask.Answer : Ask → Type
  | now => ℕ
  | setNx .. => Except String Bool

/-- A check. -/
abbrev Check := Dialogue Ask.Answer String

abbrev ask (q : Ask) : Check q.Answer := question q

/-- Wait for an answer, and throw where there is none. -/
def orThrow {α : Type} : Except String α → Check α
  | .ok a => pure a
  | .error message => throw message

def deps : ProofDeps Ask.Answer String where
  now := ask .now
  kvSetNx hash ttlSec := do
    let taken ← ask (.setNx hash ttlSec)
    orThrow taken

/-! ## The clock and the store -/

/-- The key of a hash was taken by a check, at a time. -/
structure Taking (ι : Type) where
  check : ι
  hash : String
  time : ℕ

/-- In milliseconds. -/
structure World (ι : Type) where
  now : ℕ
  memory : Cells fun _ : String => Unit
  /-- The clock as a check has read it. -/
  read : ι → Option ℕ
  takings : List (Taking ι)

namespace World

variable {ι : Type}

def empty : World ι := ⟨0, .empty, fun _ => none, []⟩

/-- The store executes `SET … NX EX`: whether the key was taken, and what is left. -/
def take (w : World ι) (i : ι) (hash : String) (ttlSec : ℕ) : Bool × World ι :=
  match w.memory.setNx w.now hash () (some (w.now + ttlSec * 1000)) with
  | (true, memory) => (true, { w with memory, takings := w.takings ++ [⟨i, hash, w.now⟩] })
  | (false, memory) => (false, { w with memory })

end World

section

variable {ι : Type}

/-- Time goes by. -/
def Passes (w w' : World ι) : Prop := w.now ≤ w'.now ∧ w' = { w with now := w'.now }

/-- What is asked of the steps of a run: of the check, the world before and the question. -/
abbrev Condition (ι : Type) := ι → World ι → Ask → Prop

/-- A check reaches the store within 59 seconds of reading the clock. -/
def Prompt : Condition ι
  | _, _, .now => True
  | i, w, .setNx .. => ∀ t ∈ w.read i, w.now ≤ t + 59000

/-- What becomes of the question of a check. A command that goes wrong may have been executed, and an
answer without the store's result is no. -/
inductive Steps [DecidableEq ι] (met : Condition ι) (i : ι) :
    World ι → (q : Ask) → q.Answer → World ι → Prop
  | now {w : World ι} (h : met i w .now) :
    Steps met i w .now w.now { w with read := Function.update w.read i (some w.now) }
  | setNx {w : World ι} {hash : String} {ttlSec : ℕ} (h : met i w (.setNx hash ttlSec)) :
    Steps met i w (.setNx hash ttlSec) (.ok (w.take i hash ttlSec).1) (w.take i hash ttlSec).2
  | unrecorded {w : World ι} {hash : String} {ttlSec : ℕ} {a : Except String Bool}
    (h : met i w (.setNx hash ttlSec)) (ha : a ≠ .ok true) : Steps met i w (.setNx hash ttlSec) a w
  | unanswered {w : World ι} {hash : String} {ttlSec : ℕ} {a : Except String Bool}
    (h : met i w (.setNx hash ttlSec)) (ha : a ≠ .ok true) :
    Steps met i w (.setNx hash ttlSec) a (w.take i hash ttlSec).2

variable (env : ProofEnv) (inputs : ι → ProofInput) (met : Condition ι)

abbrev State (ι : Type) := Crowd ι Ask.Answer String (Except String Unit) (World ι)

def opening : State ι := ⟨.empty, fun i => verifyHandleProof deps env (inputs i)⟩

/-- A run of the checks of these inputs, each step of which meets the condition. -/
def Run [DecidableEq ι] (x : State ι) : Prop :=
  Leads (Steps met) Passes (opening env inputs) x

/-- The check has let its proof through. -/
def Accepted (x : State ι) (i : ι) : Prop := x.prog i = .ret (.ok (.ok ()))

/-! ## What is remembered -/

/-- What a check owes that has taken a key: it had read a clock its timestamp was timely for. -/
structure Due (e : Taking ι) (w : World ι) : Prop where
  hash : e.hash = env.sha256Hex (inputs e.check).message
  remembered : ∃ t, w.memory e.hash = some ((), some t) ∧ e.time + 660000 ≤ t
  timely : ∃ r, r ≤ e.time ∧ env.timely (r / 1000) (inputs e.check).ts = true ∧
    (met ≤ Prompt → e.time ≤ r + 59000)

/-- A key is taken again only when it has expired. -/
def Apart (before : List (Taking ι)) (e : Taking ι) : Prop :=
  ∀ e' ∈ before, e'.hash = e.hash → e'.time + 660000 ≤ e.time

structure Sound (w : World ι) : Prop where
  due : ∀ e ∈ w.takings, Due env inputs met e w
  apart : Lawful Apart w.takings

/-- What the others may do to the surroundings of a check. -/
structure Others (i : ι) (w w' : World ι) : Prop where
  now : w.now ≤ w'.now
  read : w'.read i = w.read i
  takings : w.takings ⊆ w'.takings

def terms : Terms ι (World ι) where
  inv := Sound env inputs met
  rely := Others
  refl _ _ := ⟨le_rfl, rfl, fun _ => id⟩
  trans _ _ _ _ h h' :=
    ⟨h.now.trans h'.now, h'.read.trans h.read, fun _ he => h'.takings (h.takings he)⟩

/-- The check has read a clock that its timestamp is timely for. -/
def Checked (i : ι) (w : World ι) : Prop :=
  ∃ r, w.read i = some r ∧ r ≤ w.now ∧ env.timely (r / 1000) (inputs i).ts = true

variable {env inputs met} {i : ι} {w w' : World ι} {hash : String}

theorem sound_empty : Sound env inputs met (.empty : World ι) := ⟨nofun, lawful_nil⟩

theorem Sound.passes (h : Sound env inputs met w) (hpass : Passes w w') :
    Sound env inputs met w' ∧ ∀ i, Others i w w' := by
  obtain ⟨hle, heq⟩ := hpass
  rw [heq]
  refine ⟨⟨fun e he => ?_, h.apart⟩, fun i => ⟨hle, rfl, fun _ => id⟩⟩
  exact ⟨(h.due e he).hash, (h.due e he).remembered, (h.due e he).timely⟩

theorem World.take_of_some (h : w.memory.get w.now hash = some ()) :
    w.take i hash proofMemorySec = (false, w) := by
  rw [take, Cells.setNx_of_some h]

theorem World.take_of_none (h : w.memory.get w.now hash = none) :
    w.take i hash proofMemorySec = (true, { w with
      memory := w.memory.set hash () (some (w.now + 660000))
      takings := w.takings ++ [⟨i, hash, w.now⟩] }) := by
  rw [take, Cells.setNx_of_none h]
  rfl

/-- A key that is free was taken eleven minutes ago, if it ever was. -/
theorem Due.expired {e : Taking ι} (h : Due env inputs met e w) (hfree : w.memory.get w.now e.hash = none) :
    e.time + 660000 ≤ w.now := by
  obtain ⟨t, hcell, ht⟩ := h.remembered
  by_contra hlive
  have hget : w.memory.get w.now e.hash = some () :=
    Cells.get_eq_some.mpr ⟨some t, hcell, fun t' ht' => by
      cases ht'
      omega⟩
  exact absurd (hfree.symm.trans hget) nofun

theorem others_take {j : ι} : Others j w (w.take i hash proofMemorySec).2 := by
  cases hget : w.memory.get w.now hash with
  | none =>
    rw [World.take_of_none hget]
    exact ⟨le_rfl, rfl, fun _ he => List.mem_append_left _ he⟩
  | some u =>
    rw [World.take_of_some hget]
    exact ⟨le_rfl, rfl, fun _ => id⟩

theorem Sound.take (h : Sound env inputs met w) (hchecked : Checked env inputs i w)
    (hmet : met i w (.setNx (env.sha256Hex (inputs i).message) proofMemorySec)) :
    Sound env inputs met (w.take i (env.sha256Hex (inputs i).message) proofMemorySec).2 := by
  cases hget : w.memory.get w.now (env.sha256Hex (inputs i).message) with
  | some u =>
    rw [World.take_of_some hget]
    exact h
  | none =>
    rw [World.take_of_none hget]
    refine ⟨fun e he => ?_, h.apart.concat fun e he hhash => (h.due e he).expired (hhash ▸ hget)⟩
    rcases List.mem_append.mp he with he | he
    · obtain ⟨hhash, ⟨t, hcell, ht⟩, htimely⟩ := h.due e he
      refine ⟨hhash, ?_, htimely⟩
      by_cases hsame : e.hash = env.sha256Hex (inputs i).message
      · have hexpired := (h.due e he).expired (hsame ▸ hget)
        refine ⟨w.now + 660000, ?_, by omega⟩
        rw [hsame]
        exact Cells.set_self
      · exact ⟨t, (Cells.set_of_ne hsame).trans hcell, ht⟩
    · obtain rfl := List.mem_singleton.mp he
      obtain ⟨r, hread, hr, htimely⟩ := hchecked
      exact ⟨rfl, ⟨_, Cells.set_self, le_rfl⟩, r, hr, htimely, fun hle => hle _ _ _ hmet r hread⟩

/-- A check that was told so has taken the key. -/
theorem mem_takings_of_taken (h : (w.take i hash proofMemorySec).1 = true) :
    ∃ t, ⟨i, hash, t⟩ ∈ (w.take i hash proofMemorySec).2.takings := by
  cases hget : w.memory.get w.now hash with
  | none =>
    rw [World.take_of_none hget]
    exact ⟨w.now, List.mem_append_right _ (List.mem_singleton.mpr rfl)⟩
  | some u =>
    rw [World.take_of_some hget] at h
    cases h

/-! ## A check -/

/-- The key of the check's message has been taken by it. -/
def Took (env : ProofEnv) (inputs : ι → ProofInput) (i : ι) (w : World ι) : Prop :=
  ∃ t, ⟨i, env.sha256Hex (inputs i).message, t⟩ ∈ w.takings

theorem stable_took : (terms env inputs met).Stable i (Took env inputs i) :=
  fun _ _ hrely _ ⟨t, ht⟩ => ⟨t, hrely.takings ht⟩

theorem stable_checked : (terms env inputs met).Stable i (Checked env inputs i) :=
  fun _ _ hrely _ ⟨r, hread, hr, htimely⟩ => ⟨r, hrely.read.trans hread, hr.trans hrely.now, htimely⟩

theorem stable_true : (terms env inputs met).Stable i fun _ => True := fun _ _ _ _ => id

/-- The command of a check whose timestamp is timely. -/
theorem kvSetNx_keeps [DecidableEq ι] :
    (terms env inputs met).Triple (Steps met) i (Checked env inputs i)
      (deps.kvSetNx (env.sha256Hex (inputs i).message) proofMemorySec)
      fun r w => r = .ok true → Took env inputs i w := by
  refine .ask (N := fun a w => a = .ok true → Took env inputs i w) stable_checked ?_ fun a => ?_
  · intro w a w' hsound hchecked hstep
    cases hstep with
    | setNx hprompt =>
      refine ⟨hsound.take hchecked hprompt, fun j _ => others_take, fun htaken => ?_⟩
      exact mem_takings_of_taken (Except.ok.inj htaken)
    | unrecorded _ ha => exact ⟨hsound, fun j _ => (terms env inputs met).refl j w, (absurd · ha)⟩
    | unanswered hprompt ha =>
      exact ⟨hsound.take hchecked hprompt, fun j _ => others_take, (absurd · ha)⟩
  · have hstable : (terms env inputs met).Stable i fun w => a = .ok true → Took env inputs i w :=
      fun w w' hrely hinv hw htaken => stable_took w w' hrely hinv (hw htaken)
    cases a with
    | ok fresh => exact .ret hstable fun w _ hw => hw
    | error m => exact .ret hstable fun w _ _ => nofun

/-- A check that lets its proof through has taken the key of the message. -/
theorem verifyHandleProof_keeps [DecidableEq ι] :
    (terms env inputs met).Triple (Steps met) i (fun _ => True)
      (verifyHandleProof deps env (inputs i))
      fun r w => r = .ok (.ok ()) → Took env inputs i w ∧ (inputs i).WellFormed := by
  unfold verifyHandleProof
  split
  · exact .ret stable_true fun w _ _ => nofun
  · next hpubkey =>
    refine .ask (N := fun now w => w.read i = some now ∧ now ≤ w.now) stable_true ?_ fun now => ?_
    · intro w a w' hsound _ hstep
      cases hstep
      refine ⟨⟨fun e he => ?_, hsound.apart⟩, fun j hj => ⟨le_rfl, ?_, fun _ => id⟩, by simp⟩
      · exact ⟨(hsound.due e he).hash, (hsound.due e he).remembered, (hsound.due e he).timely⟩
      · exact Function.update_of_ne hj ..
    · have hstable : (terms env inputs met).Stable i fun w => w.read i = some now ∧ now ≤ w.now :=
        fun w w' hrely _ hw => ⟨hrely.read.trans hw.1, hw.2.trans hrely.now⟩
      change Terms.Triple _ _ _ _ (ite _ _ _) _
      split
      · exact .ret hstable fun w _ _ => nofun
      · next htimely =>
        split
        · exact .ret hstable fun w _ _ => nofun
        · next hnonce =>
          split
          · exact .ret hstable fun w _ _ => nofun
          · refine Terms.Triple.bind (kvSetNx_keeps.weaken fun w _ hw => ?_) (fun fresh => ?_) ?_ ?_
            · exact ⟨now, hw.1, hw.2, by simpa using htimely⟩
            · refine .ret (fun w w' hrely hinv hw htaken => ?_) fun w _ hw hok => ?_
              · exact stable_took w w' hrely hinv (hw htaken)
              · cases fresh with
                | true => exact ⟨hw rfl, by simpa using hpubkey, by simpa using hnonce⟩
                | false => cases hok
            · exact fun e w w' _ _ _ => nofun
            · exact fun e w _ _ => nofun

/-! ## Over a whole run -/

theorem ProofEnv.timely_iff {sec : ℕ} {ts : Number} : env.timely sec ts = true ↔
    ∃ t, env.finite ts = some t ∧ sec ≤ t + 300 ∧ t ≤ sec + 300 := by
  simp [timely, proofSkewSec, Option.any_eq_true, add_comm]

/-- Two clocks one timestamp is timely for are at most ten minutes apart. -/
theorem le_of_timely {sec sec' : ℕ} {ts : Number} (h : env.timely sec ts = true)
    (h' : env.timely sec' ts = true) : sec' ≤ sec + 600 := by
  obtain ⟨t, ht, -, hle⟩ := ProofEnv.timely_iff.mp h
  obtain ⟨t', ht', hle', -⟩ := ProofEnv.timely_iff.mp h'
  obtain rfl := Option.some.inj (ht.symm.trans ht')
  have hsum : (sec' : Rat) ≤ ((sec + 600 : ℕ) : Rat) := by
    push_cast
    linarith
  exact_mod_cast hsum

/-- The memory of one check outlasts the timestamp of another with the same one. -/
theorem not_expired (hmet : met ≤ Prompt) {e e' : Taking ι} (h : Due env inputs met e w)
    (h' : Due env inputs met e' w) (hts : (inputs e.check).ts = (inputs e'.check).ts) :
    ¬e.time + 660000 ≤ e'.time := by
  obtain ⟨r, hr, htimely, -⟩ := h.timely
  obtain ⟨r', hr', htimely', hprompt⟩ := h'.timely
  have hle := le_of_timely htimely (hts ▸ htimely')
  have hlate := hprompt hmet
  omega

theorem kept_opening [DecidableEq ι] : (terms env inputs met).Kept (Steps met)
    (fun i r w => r = .ok (.ok ()) → Took env inputs i w ∧ (inputs i).WellFormed)
    (opening env inputs) :=
  ⟨sound_empty, fun _ => verifyHandleProof_keeps.keeps sound_empty trivial⟩

variable [DecidableEq ι] {x : State ι}

theorem Run.kept (hrun : Run env inputs met x) : (terms env inputs met).Kept (Steps met)
    (fun i r w => r = .ok (.ok ()) → Took env inputs i w ∧ (inputs i).WellFormed) x :=
  Terms.sound (fun _ _ hsound hpass => Sound.passes hsound hpass) kept_opening hrun

/-- **A proof is accepted once**, in every run where a check reaches the store within 59 seconds of
reading the clock. In every run a check lets through only a proof that it has recorded. -/
theorem accepted_once (hrun : Run env inputs met x) :
    (∀ i, Accepted x i → Took env inputs i x.world) ∧
    (met ≤ Prompt → ∀ i j, Accepted x i → Accepted x j →
      (inputs i).message = (inputs j).message → i = j) := by
  have hend := hrun.kept
  refine ⟨fun i hi => (hend.ended hi rfl).1, fun hmet i j hi hj hmessage => ?_⟩
  obtain ⟨⟨t, ht⟩, hwell⟩ := hend.ended hi rfl
  obtain ⟨⟨t', ht'⟩, hwell'⟩ := hend.ended hj rfl
  obtain ⟨-, -, -, hts, -, -⟩ := message_inj hwell hwell' hmessage
  have hhash : env.sha256Hex (inputs i).message = env.sha256Hex (inputs j).message :=
    congrArg _ hmessage
  have hdue := hend.inv.due _ ht
  have hdue' := hend.inv.due _ ht'
  by_contra hne
  rcases hend.inv.apart.order ht ht' fun heq => hne (congrArg Taking.check heq) with
    ⟨before, hmem, hapart⟩ | ⟨before, hmem, hapart⟩
  · exact not_expired hmet hdue hdue' hts (hapart _ hmem hhash)
  · exact not_expired hmet hdue' hdue hts.symm (hapart _ hmem hhash.symm)

end

namespace Demo

def alice : String := "GAAAAAAAAAAAAAAAAAAAAAAAAAAAAAAAAAAAAAAAAAAAAAAAAAAAAWHF"

def second : Number := ⟨"1000", by decide⟩

/-- Nothing is hashed, and a signature is the text that was signed. -/
def env : ProofEnv where
  sha256Hex s := s
  finite ts := if ts = second then some 1000 else none
  verifies _ message proof := message == proof

def signed : ProofInput where
  action := .claim
  name := "meric"
  pubkey := alice
  ts := second
  nonce := "00000000"
  network := .testnet
  proof := handleProofMessage .claim "meric" alice second "00000000" .testnet

/-- Whoever asks presents the same proof. -/
def inputs (_ : ℕ) : ProofInput := signed

/-- The store answers. -/
def react (i : ℕ) (_ : Unit) (w : World ℕ) : (q : Ask) → q.Answer × World ℕ
  | .now => (w.now, { w with read := Function.update w.read i (some w.now) })
  | .setNx hash ttlSec => (.ok (w.take i hash ttlSec).1, (w.take i hash ttlSec).2)

theorem steps_react {met : Condition ℕ} {i : ℕ} (d : Unit) {w : World ℕ} {q : Ask} (h : met i w q) :
    Steps met i w q (react i d w q).1 (react i d w q).2 := by
  cases q with
  | now => exact .now h
  | setNx hash ttlSec => exact .setNx h

def prompt (i : ℕ) (w : World ℕ) : Ask → Bool
  | .now => true
  | .setNx .. => (w.read i).all fun t => w.now ≤ t + 59000

theorem prompt_of_check {i : ℕ} {w : World ℕ} {q : Ask} (h : prompt i w q = true) :
    Prompt i w q := by
  cases q with
  | now => trivial
  | setNx hash ttlSec => simpa [prompt, Prompt, Option.all_eq_true] using h

def fairly (ok : ℕ → World ℕ → Ask → Bool) (x : State ℕ) (schedule : List (ℕ × Unit)) : Bool :=
  x.fairly react (fun i _ w q => ok i w q) schedule

theorem leads_steps {met : Condition ℕ} {ok : ℕ → World ℕ → Ask → Bool}
    (hok : ∀ {i w q}, ok i w q = true → met i w q) {x : State ℕ} {schedule : List (ℕ × Unit)}
    (h : fairly ok x schedule = true) : Leads (Steps met) Passes x (x.play react schedule) := by
  have hstep (i : ℕ) (d : Unit) (w : World ℕ) (q : Ask) (hd : ok i w q = true) :
      Steps met i w q (react i d w q).1 (react i d w q).2 := steps_react d (hok hd)
  exact leads_play hstep h

def at_ (now : ℕ) (x : State ℕ) : State ℕ := { x with world := { x.world with now := now } }

theorem leads_at {met : Condition ℕ} {now : ℕ} {x : State ℕ} (h : x.world.now ≤ now) :
    Leads (Steps met) Passes x (at_ now x) :=
  .single (.stir ⟨h, rfl⟩)

def start : State ℕ := at_ 700000 (opening env inputs)

/-- One after the other. -/
def inTurn : State ℕ := start.play react [(0, ()), (0, ()), (1, ()), (1, ())]

/-- The second has read the clock in time, and reaches the store when the memory of the first has
expired. -/
def waiting : State ℕ := (at_ 1300999 (start.play react [(0, ()), (0, ())])).play react [(1, ())]

def late : State ℕ := (at_ 1360000 waiting).play react [(1, ())]

theorem run_start {met : Condition ℕ} : Run env inputs met start := leads_at (Nat.zero_le _)

/-- The steps of the two runs, and what the checks have come to. -/
theorem ends :
    (fairly prompt start [(0, ()), (0, ()), (1, ()), (1, ())] = true ∧
      (inTurn.prog 0).result = some (.ok (.ok ()))) ∧
    (fairly (fun _ _ _ => true) start [(0, ()), (0, ())] = true ∧
      (start.play react [(0, ()), (0, ())]).world.now ≤ 1300999 ∧
      fairly (fun _ _ _ => true) (at_ 1300999 (start.play react [(0, ()), (0, ())])) [(1, ())] = true ∧
      waiting.world.now ≤ 1360000 ∧
      fairly (fun _ _ _ => true) (at_ 1360000 waiting) [(1, ())] = true) ∧
    (late.prog 0).result = some (.ok (.ok ())) ∧ (late.prog 1).result = some (.ok (.ok ())) := by
  decide +kernel

theorem run_inTurn : Run env inputs Prompt inTurn :=
  run_start.trans (leads_steps prompt_of_check ends.1.1)

theorem run_late : Run env inputs (fun _ _ _ => True) late := by
  obtain ⟨hfirst, hread, hclock, hwait, hsecond⟩ := ends.2.1
  exact run_start.trans ((leads_steps (fun _ => trivial) hfirst).trans ((leads_at hread).trans
    ((leads_steps (fun _ => trivial) hclock).trans ((leads_at hwait).trans
      (leads_steps (fun _ => trivial) hsecond)))))

end Demo

/-- Only the first of two checks lets the proof through. -/
theorem accepted_once_in_turn : Accepted Demo.inTurn 0 ∧ ¬Accepted Demo.inTurn 1 := by
  have hfirst : Accepted Demo.inTurn 0 := eq_ret_of_result Demo.ends.1.2
  refine ⟨hfirst, fun hsecond => ?_⟩
  have hsame := (accepted_once Demo.run_inTurn).2 le_rfl 0 1 hfirst hsecond rfl
  exact absurd hsame (by decide)

theorem accepted_twice : ¬∀ (env : ProofEnv) (inputs : ℕ → ProofInput) x,
    Run env inputs (fun _ _ _ => True) x → ∀ i j, Accepted x i → Accepted x j →
      (inputs i).message = (inputs j).message → i = j := by
  intro h
  have hsame := h _ _ _ Demo.run_late 0 1 (eq_ret_of_result Demo.ends.2.2.1)
    (eq_ret_of_result Demo.ends.2.2.2) rfl
  exact absurd hsame (by decide)

end Lumenia.Sponsor.Proofs
