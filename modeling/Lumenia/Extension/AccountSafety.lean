import Lumenia.Extension.Account
import Lumenia.Theory.Calls
import Mathlib.Algebra.GroupWithZero.Nat

/-!
# A session signs for its account while it is unlocked

Any number of calls of the extension's worker, one storage operation after another, cut off anywhere, with
alarms that come late or never. Whatever is mixed by that, a signer is of the account that is asked for and
the key of the links of the account that was read, and the deadline that was read with it had not passed
(`session_kept`). A touch writes its deadline after it has read the session: where the session has expired
in between, the write makes it usable again (`touch_revives`).
-/

namespace Lumenia.Extension.Account

open Dialogue

variable {Seed : Type}

/-! ## The calls -/

inductive Request
  | unlock (password : String)
  /-- Also what the alarm does. -/
  | lock
  | touch
  | isUnlockedNow
  | signerFor (pubkey : String)
  | linksKeyForSession
  | createAccount (password : String)
  | restoreSubmitPassword (password : String)
  | backupUseExisting (password : String)
  | forget
  deriving DecidableEq

inductive Outcome (Seed : Type)
  | signer (seed : Seed)
  | linksKey (seed : Seed)
  | done

namespace Request

def call (publicKeyOf : Seed → String) : Request → Call Seed (Outcome Seed)
  | unlock password => do
    let _ ← Account.unlock publicKeyOf password
    return .done
  | lock => do
    Account.lock
    return .done
  | touch => do
    Account.touch
    return .done
  | isUnlockedNow => do
    let _ ← Account.isUnlockedNow
    return .done
  | signerFor pubkey => do
    let signer ← Account.signerFor publicKeyOf pubkey
    return .signer signer
  | linksKeyForSession => do
    let key ← Account.linksKeyForSession publicKeyOf
    return .linksKey key
  | createAccount password => do
    let _ ← Account.createAccount publicKeyOf password
    return .done
  | restoreSubmitPassword password => do
    Account.restoreSubmitPassword publicKeyOf password
    return .done
  | backupUseExisting password => do
    Account.backupUseExisting publicKeyOf password
    return .done
  | forget => do
    Account.forget
    return .done

/-- An unlock, a creation or a restore. -/
def starts : Request → Bool
  | unlock _ | createAccount _ | restoreSubmitPassword _ | backupUseExisting _ => true
  | _ => false

end Request

/-- A deadline that was written: by the start of a session, or by a touch, with the deadline it had read and
its time. -/
structure Deadline where
  lockAt : ℕ
  touched : Option (Option ℕ × ℕ)

/-- The session that was touched had not expired. -/
def Deadline.Proper (d : Deadline) : Prop := ∀ read now, d.touched = some (read, now) → ∃ lockAt, read = some lockAt ∧ now < lockAt

/-- What a call has read last, the deadlines it has written, and its steps. -/
structure Progress (Seed : Type) where
  pubkey : Option String
  lockAt : Option ℕ
  /-- When the deadline was read. -/
  readAt : ℕ
  clock : ℕ
  deadlines : List Deadline
  steps : List (Browser Seed × Browser Seed)

namespace Progress

def start : Progress Seed := ⟨none, none, 0, 0, [], []⟩

def reads (p : Progress Seed) (b : Browser Seed) : Ask Seed → Progress Seed
  | .getUnlockedPubkey => { p with pubkey := b.unlockedPubkey }
  | .getLockAt => { p with lockAt := b.lockAt, readAt := b.now }
  | .clock => { p with clock := b.now }
  | .setSession _ _ lockAt => { p with deadlines := p.deadlines ++ [⟨lockAt, none⟩] }
  | .setLockAt lockAt => { p with deadlines := p.deadlines ++ [⟨lockAt, some (p.lockAt, p.clock)⟩] }
  | _ => p

def next (p : Progress Seed) (d : Chance Seed) (b : Browser Seed) (q : Ask Seed) : Progress Seed :=
  { p.reads b q with steps := p.steps ++ [(b, (react d b q).2)] }

end Progress

def surroundings : Surroundings (@Ask.Answer Seed) (Chance Seed) (Browser Seed) (Progress Seed) :=
  ⟨react, Progress.next⟩

/-- Time passes, and never goes back, or the browser is closed, which clears its session storage. -/
def Passes (b b' : Browser Seed) : Prop :=
  b.now ≤ b'.now ∧ (b' = { b with now := b'.now } ∨ b' = ⟨none, none, none, b'.now⟩)

/-- Something is there to sign with. -/
def Usable (b : Browser Seed) : Prop :=
  b.seed ≠ none ∧ b.unlockedPubkey ≠ none ∧ ∃ lockAt, b.lockAt = some lockAt ∧ b.now < lockAt

variable {ι : Type}

/-- A deadline is written while there is no session, or one that has not expired; or it has passed itself. -/
def Careful (_ : ι) (_ : Chance Seed) (w : Tracked ι (Browser Seed) (Progress Seed)) (q : Ask Seed) : Prop :=
  ∀ lockAt, q = .setLockAt lockAt → w.shared.unlockedPubkey = none ∨
    (∃ stored, w.shared.lockAt = some stored ∧ w.shared.now < stored) ∨ lockAt ≤ w.shared.now

/-! ## What holds throughout -/

/-- Some call has written this deadline. -/
def Written (w : Tracked ι (Browser Seed) (Progress Seed)) (lockAt : ℕ) : Prop :=
  ∃ i, ∃ d ∈ (w.calls i).deadlines, d.lockAt = lockAt

structure Inv (w : Tracked ι (Browser Seed) (Progress Seed)) : Prop where
  proper : ∀ i, ∀ d ∈ (w.calls i).deadlines, d.Proper
  stored : ∀ lockAt, w.shared.lockAt = some lockAt → Written w lockAt
  read : ∀ i lockAt, (w.calls i).lockAt = some lockAt → Written w lockAt
  past : ∀ i, (w.calls i).readAt ≤ w.shared.now

/-- Every step that was made leaves what was not usable so, unless its call starts a session. -/
def Kept (req : ι → Request) (w : Tracked ι (Browser Seed) (Progress Seed)) : Prop :=
  ∀ i, ∀ x ∈ (w.calls i).steps, ¬Usable x.1 → Usable x.2 → (req i).starts = true

/-- What holds in a run, and what does where its steps are careful. -/
def Good (met : Condition ι (Ask Seed) (Chance Seed) (Browser Seed) (Progress Seed)) (req : ι → Request)
    (w : Tracked ι (Browser Seed) (Progress Seed)) : Prop :=
  Inv w ∧ ((∀ i d w q, met i d w q → Careful i d w q) → Kept req w)

section

variable [DecidableEq ι] {req : ι → Request} {i : ι} {w : Tracked ι (Browser Seed) (Progress Seed)}
  {met : Condition ι (Ask Seed) (Chance Seed) (Browser Seed) (Progress Seed)} {d : Chance Seed} {q : Ask Seed}
  {p : Progress Seed} {b b' : Browser Seed} {α : Type}

omit [DecidableEq ι] in
theorem isUnlocked_iff {s : SessionView} {now : ℕ} : isUnlocked s now = true ↔
    ∃ pubkey lockAt, s = ⟨some pubkey, some lockAt⟩ ∧ pubkey ≠ "" ∧ now < lockAt := by
  obtain ⟨_ | pubkey, _ | lockAt⟩ := s
  · simp [isUnlocked]
  · simp [isUnlocked]
  · simp [isUnlocked]
  · rw [isUnlocked, Bool.and_eq_true, decide_eq_true_iff, decide_eq_true_iff]
    constructor
    · exact fun h => ⟨pubkey, lockAt, rfl, h⟩
    · rintro ⟨_, _, heq, h⟩
      cases heq
      exact h

/-! ### One step -/

/-- Nothing but a write of a deadline makes a session usable. -/
theorem usable_of_react (hset : ∀ seed pubkey lockAt, q ≠ .setSession seed pubkey lockAt)
    (hmove : ∀ lockAt, q ≠ .setLockAt lockAt) (h : Usable (react d b q).2) : Usable b := by
  cases q with
  | setSession seed pubkey lockAt => exact absurd rfl (hset seed pubkey lockAt)
  | setLockAt lockAt => exact absurd rfl (hmove lockAt)
  | removeSession => exact absurd rfl h.1
  | _ => exact h

theorem now_react : (react d b q).2.now = b.now := by
  cases q <;> rfl

/-- A deadline that is there has been there before, or has been written. -/
theorem lockAt_react {lockAt : ℕ} (h : (react d b q).2.lockAt = some lockAt) :
    b.lockAt = some lockAt ∨ ∃ e ∈ (p.next d b q).deadlines, e.lockAt = lockAt := by
  cases q with
  | setSession seed pubkey l =>
    obtain rfl := Option.some.inj h
    exact .inr ⟨_, List.mem_append_right _ (List.mem_singleton_self _), rfl⟩
  | setLockAt l =>
    obtain rfl := Option.some.inj h
    exact .inr ⟨_, List.mem_append_right _ (List.mem_singleton_self _), rfl⟩
  | removeSession => cases h
  | _ => exact .inl h

theorem mem_deadlines_next {e : Deadline} (h : e ∈ p.deadlines) : e ∈ (p.next d b q).deadlines := by
  cases q with
  | setSession => exact List.mem_append_left _ h
  | setLockAt => exact List.mem_append_left _ h
  | _ => exact h

/-- What is written is the start of a session, or comes from a touch. -/
theorem deadlines_next {e : Deadline} (h : e ∈ (p.next d b q).deadlines) :
    e ∈ p.deadlines ∨ e.touched = none ∨ ∃ lockAt, q = .setLockAt lockAt ∧ e.touched = some (p.lockAt, p.clock) := by
  cases q with
  | setSession seed pubkey lockAt =>
    rcases List.mem_append.mp h with h | h
    · exact .inl h
    · rw [List.mem_singleton.mp h]
      exact .inr (.inl rfl)
  | setLockAt lockAt =>
    rcases List.mem_append.mp h with h | h
    · exact .inl h
    · rw [List.mem_singleton.mp h]
      exact .inr (.inr ⟨lockAt, rfl, rfl⟩)
  | _ => exact .inl h

theorem lockAt_next {lockAt : ℕ} (h : (p.next d b q).lockAt = some lockAt) :
    p.lockAt = some lockAt ∨ b.lockAt = some lockAt := by
  cases q with
  | getLockAt => exact .inr h
  | _ => exact .inl h

theorem readAt_next (h : p.readAt ≤ b.now) : (p.next d b q).readAt ≤ b.now := by
  cases q with
  | getLockAt => exact Nat.le_refl _
  | _ => exact h

theorem Written.meet {lockAt : ℕ} (h : Written w lockAt) : Written (surroundings.meet i d w q).2 lockAt := by
  obtain ⟨j, e, he, heq⟩ := h
  refine ⟨j, e, ?_, heq⟩
  rcases eq_or_ne j i with rfl | hne
  · rw [meet_calls_self]
    exact mem_deadlines_next he
  · rwa [meet_calls_ne hne]

/-- A deadline is moved only by a touch that has found its session unexpired. -/
theorem Inv.meet (h : Inv w)
    (htouch : ∀ lockAt, q = .setLockAt lockAt →
      ∃ read, (w.calls i).lockAt = some read ∧ (w.calls i).clock < read) :
    Inv (surroundings.meet i d w q).2 where
  proper j e he := by
    rcases eq_or_ne j i with rfl | hne
    · rw [meet_calls_self] at he
      rcases deadlines_next he with he | hstart | ⟨lockAt, hq, htouched⟩
      · exact h.proper j e he
      · intro read now heq
        rw [hstart] at heq
        cases heq
      · intro read now heq
        rw [htouched] at heq
        cases heq
        exact htouch lockAt hq
    · rw [meet_calls_ne hne] at he
      exact h.proper j e he
  stored lockAt hlock := by
    rcases lockAt_react (p := w.calls i) hlock with hlock | ⟨e, he, heq⟩
    · exact (h.stored lockAt hlock).meet
    · exact ⟨i, e, by rwa [meet_calls_self], heq⟩
  read j lockAt hread := by
    rcases eq_or_ne j i with rfl | hne
    · rw [meet_calls_self] at hread
      rcases lockAt_next hread with hread | hread
      · exact (h.read j lockAt hread).meet
      · exact (h.stored lockAt hread).meet
    · rw [meet_calls_ne hne] at hread
      exact (h.read j lockAt hread).meet
  past j := by
    rw [meet_shared, show surroundings.react d w.shared q = react d w.shared q from rfl, now_react]
    rcases eq_or_ne j i with rfl | hne
    · rw [meet_calls_self]
      exact readAt_next (h.past j)
    · rw [meet_calls_ne hne]
      exact h.past j

theorem Kept.meet (h : Kept req w) (hcareful : Careful i d w q)
    (hstart : ∀ seed pubkey lockAt, q = .setSession seed pubkey lockAt → (req i).starts = true) :
    Kept req (surroundings.meet i d w q).2 := by
  intro j x hx hnot husable
  rcases eq_or_ne j i with rfl | hne
  · rw [meet_calls_self] at hx
    rcases List.mem_append.mp hx with hx | hx
    · exact h j x hx hnot husable
    · rw [List.mem_singleton.mp hx] at hnot husable
      by_cases hset : ∃ seed pubkey lockAt, q = .setSession seed pubkey lockAt
      · obtain ⟨seed, pubkey, lockAt, hq⟩ := hset
        exact hstart seed pubkey lockAt hq
      · by_cases hmove : ∃ lockAt, q = .setLockAt lockAt
        · obtain ⟨lockAt, rfl⟩ := hmove
          obtain ⟨hseed, hpubkey, stored, heq, hlt⟩ := husable
          obtain rfl := Option.some.inj heq
          rcases hcareful lockAt rfl with hnone | hthere | hpassed
          · exact absurd hnone hpubkey
          · exact absurd ⟨hseed, hpubkey, hthere⟩ hnot
          · exact absurd hlt (Nat.not_lt.mpr hpassed)
        · exact absurd (usable_of_react (fun seed pubkey lockAt hq => hset ⟨seed, pubkey, lockAt, hq⟩)
            (fun lockAt hq => hmove ⟨lockAt, hq⟩) husable) hnot
  · rw [meet_calls_ne hne] at hx
    exact h j x hx hnot husable

theorem Good.meet (h : Good met req w) (hmet : met i d w q)
    (hstart : ∀ seed pubkey lockAt, q = .setSession seed pubkey lockAt → (req i).starts = true)
    (htouch : ∀ lockAt, q = .setLockAt lockAt →
      ∃ read, (w.calls i).lockAt = some read ∧ (w.calls i).clock < read) :
    Good met req (surroundings.meet i d w q).2 :=
  ⟨h.1.meet htouch, fun hall => (h.2 hall).meet (hall i d w q hmet) hstart⟩

theorem not_usable_passes (h : Passes b b') (hnot : ¬Usable b) : ¬Usable b' := by
  obtain ⟨hle, hsame | hclosed⟩ := h
  · rintro ⟨hseed, hpubkey, lockAt, hlock, hlt⟩
    rw [hsame] at hseed hpubkey hlock
    exact hnot ⟨hseed, hpubkey, lockAt, hlock, Nat.lt_of_le_of_lt hle hlt⟩
  · rw [hclosed]
    exact fun husable => husable.1 rfl

omit [DecidableEq ι] in
theorem Good.passes (h : Good met req w) (hpass : Passes w.shared b) : Good met req { w with shared := b } := by
  refine ⟨⟨h.1.proper, fun lockAt hlock => ?_, h.1.read, fun i => Nat.le_trans (h.1.past i) hpass.1⟩, h.2⟩
  obtain ⟨-, hsame | hclosed⟩ := hpass
  · dsimp only at hlock
    rw [hsame] at hlock
    exact h.1.stored lockAt hlock
  · dsimp only at hlock
    rw [hclosed] at hlock
    cases hlock

/-! ## The calls keep it -/

variable {publicKeyOf : Seed → String} {N : Except ExtError α → Progress Seed → Prop}

/-- One question, by which no deadline is written. -/
theorem keeps_question {f : q.Answer → Call Seed α}
    (hset : ∀ seed pubkey lockAt, q = .setSession seed pubkey lockAt → (req i).starts = true)
    (hmove : ∀ lockAt, q ≠ .setLockAt lockAt)
    (hf : ∀ d b, p.readAt ≤ b.now → Keeps surroundings met (Good met req) i (p.next d b q) (f (react d b q).1) N) :
    Keeps surroundings met (Good met req) i p (question q >>= f) N := by
  refine .ask (fun d w h _ hmet => h.meet hmet hset fun lockAt hq => absurd hq (hmove lockAt)) fun d w h hp _ => ?_
  apply hf d w.shared
  rw [← hp]
  exact h.1.past i

/-- What a call keeps from wherever it is. -/
abbrev KeepsAll (met : Condition ι (Ask Seed) (Chance Seed) (Browser Seed) (Progress Seed)) (req : ι → Request) (i : ι)
    (call : Call Seed α) : Prop :=
  ∀ p, Keeps surroundings met (Good met req) i p call fun _ _ => True

theorem keepsAll_pure {a : α} : KeepsAll met req i (pure a : Call Seed α) := fun _ => .ret trivial

theorem keepsAll_throw {e : ExtError} : KeepsAll met req i (throw e : Call Seed α) := fun _ => .ret trivial

theorem keepsAll_ite {c : Prop} [Decidable c] {call call' : Call Seed α} (h : KeepsAll met req i call)
    (h' : KeepsAll met req i call') : KeepsAll met req i (if c then call else call') :=
  fun p => .ite (fun _ => h p) fun _ => h' p

theorem keepsAll_bind {β : Type} {call : Call Seed β} {f : β → Call Seed α} (h : KeepsAll met req i call)
    (hf : ∀ b, KeepsAll met req i (f b)) : KeepsAll met req i (call >>= f) :=
  fun p => (h p).bind (fun b p' _ => hf b p') fun _ _ _ => trivial

theorem keepsAll_question {f : q.Answer → Call Seed α}
    (hset : ∀ seed pubkey lockAt, q = .setSession seed pubkey lockAt → (req i).starts = true)
    (hmove : ∀ lockAt, q ≠ .setLockAt lockAt) (hf : ∀ a, KeepsAll met req i (f a)) :
    KeepsAll met req i (question q >>= f) :=
  fun _ => keeps_question hset hmove fun _ _ _ => hf _ _

theorem keepsAll_last (hset : ∀ seed pubkey lockAt, q = .setSession seed pubkey lockAt → (req i).starts = true)
    (hmove : ∀ lockAt, q ≠ .setLockAt lockAt) : KeepsAll met req i (question q : Call Seed q.Answer) :=
  fun _ => .ask (fun _ _ h _ hmet => h.meet hmet hset fun lockAt hq => absurd hq (hmove lockAt)) fun _ _ _ _ _ =>
    .ret trivial

theorem keepsAll_orThrow {r : Except ExtError α} : KeepsAll met req i (orThrow r : Call Seed α) := by
  cases r with
  | ok a => exact keepsAll_pure
  | error e => exact keepsAll_throw

/-! ### The session -/

/-- A view is what has been read, or locked. -/
theorem keeps_sessionView {f : SessionView → Call Seed α}
    (hf : ∀ view p', view = LOCKED ∨ view = ⟨p'.pubkey, p'.lockAt⟩ →
      Keeps surroundings met (Good met req) i p' (f view) N) :
    Keeps surroundings met (Good met req) i p (sessionView >>= f) N := by
  apply keeps_question (q := .getUnlockedPubkey) nofun nofun
  intro d b _
  apply keeps_question (q := .getLockAt) nofun nofun
  intro d' b' _
  change Keeps _ _ _ i _ ((if b.unlockedPubkey = none ∨ b.unlockedPubkey = some "" ∨ b'.lockAt = none
    then pure LOCKED else pure ⟨b.unlockedPubkey, b'.lockAt⟩ : Call Seed SessionView) >>= f) N
  split
  · exact hf _ _ (.inl rfl)
  · exact hf _ _ (.inr rfl)

theorem keepsAll_sessionView {f : SessionView → Call Seed α} (hf : ∀ view, KeepsAll met req i (f view)) :
    KeepsAll met req i (sessionView >>= f) :=
  fun _ => keeps_sessionView fun view p' _ => hf view p'

theorem keepsAll_startSession {pubkey : String} {seed : Seed} (hstart : (req i).starts = true) :
    KeepsAll met req i (startSession pubkey seed) := by
  refine keepsAll_question nofun nofun fun autolockMin => ?_
  refine keepsAll_question nofun nofun fun now => ?_
  refine keepsAll_question (fun _ _ _ _ => hstart) nofun fun _ => ?_
  exact keepsAll_question nofun nofun fun _ => keepsAll_pure

theorem keepsAll_lock : KeepsAll met req i (lock : Call Seed Unit) :=
  keepsAll_question nofun nofun fun _ => keepsAll_last nofun nofun

theorem keepsAll_isUnlockedNow : KeepsAll met req i (isUnlockedNow : Call Seed (Option ℕ)) := by
  refine keepsAll_sessionView fun view => keepsAll_question nofun nofun fun now => ?_
  refine keepsAll_ite keepsAll_pure (keepsAll_ite ?_ ?_)
  · exact keepsAll_bind keepsAll_lock fun _ => keepsAll_pure
  · refine keepsAll_question nofun nofun fun seed => keepsAll_ite ?_ keepsAll_pure
    exact keepsAll_bind keepsAll_lock fun _ => keepsAll_pure

/-- A touch writes only where the session it has read had not expired. -/
theorem keepsAll_touch : KeepsAll met req i (touch : Call Seed Unit) := by
  refine fun p => keeps_sessionView fun view p' hview => .ite (fun _ => .ret trivial) fun hpubkey => ?_
  apply keeps_question (q := .autolockMin) nofun nofun
  intro d b _
  apply keeps_question (q := .clock) nofun nofun
  intro d' b' _
  rw [reduce]
  split
  · exact keepsAll_lock _
  · rename_i lockAt hlock
    split at hlock
    · rename_i hunlocked
      obtain ⟨pubkey, read, rfl, -, hlt⟩ := isUnlocked_iff.mp hunlocked
      have hread : p'.lockAt = some read := by
        rcases hview with hlocked | hsame
        · cases hlocked
        · exact (congrArg SessionView.lockAt hsame).symm
      refine .ask (fun d'' w h hp hmet => h.meet hmet nofun fun _ _ => ?_) fun _ _ _ _ _ => ?_
      · rw [hp]
        exact ⟨read, hread, hlt⟩
      · exact keepsAll_last (q := .alarm (some lockAt)) nofun nofun _
    · cases hlock

/-! ### Signing -/

/-- The call has read that the session is of this account, and a deadline that had not passed. -/
structure Read (p : Progress Seed) (pubkey : String) : Prop where
  named : p.pubkey = some pubkey
  unlocked : ∃ lockAt, p.lockAt = some lockAt ∧ p.readAt < lockAt

/-- A seed is handed out only after that, and only that of the account. -/
abbrev Hands (publicKeyOf : Seed → String) (pubkey : String) (r : Except ExtError Seed) (p : Progress Seed) : Prop :=
  ∀ seed, r = .ok seed → publicKeyOf seed = pubkey ∧ Read p pubkey

theorem keeps_locked {pubkey : String} :
    Keeps surroundings met (Good met req) i p locked (Hands publicKeyOf pubkey) := by
  refine Keeps.bind (keepsAll_lock p) (fun _ _ _ => ?_) fun _ _ _ => nofun
  exact .ret nofun

theorem keeps_seedFor {pubkey : String} (h : Read p pubkey) :
    Keeps surroundings met (Good met req) i p (seedFor publicKeyOf pubkey) (Hands publicKeyOf pubkey) := by
  apply keeps_question (q := .getSeed) nofun nofun
  intro d b _
  split
  · exact keeps_locked
  · refine .ite (fun hown => .ret fun seed hseed => ?_) fun _ => .ret nofun
    obtain rfl := Except.ok.inj hseed
    exact ⟨hown, h.named, h.unlocked⟩

/-- The clock is looked at after the session has been read. -/
theorem keeps_canSign {view : SessionView} {pubkey : String} (hview : view = LOCKED ∨ view = ⟨p.pubkey, p.lockAt⟩) :
    Keeps surroundings met (Good met req) i p
      (question Ask.clock >>= fun now => if canSign view now pubkey then seedFor publicKeyOf pubkey else locked)
      (Hands publicKeyOf pubkey) := by
  refine keeps_question (q := .clock) nofun nofun fun d b hpast => .ite (fun hcan => ?_) fun _ => keeps_locked
  rw [canSign, Bool.and_eq_true, decide_eq_true_iff] at hcan
  obtain ⟨named, lockAt, rfl, -, hlt⟩ := isUnlocked_iff.mp hcan.1
  rcases hview with hlocked | hsame
  · cases hlocked
  · refine keeps_seedFor ⟨?_, lockAt, ?_, Nat.lt_of_le_of_lt hpast hlt⟩
    · exact (congrArg SessionView.pubkey hsame).symm.trans hcan.2
    · exact (congrArg SessionView.lockAt hsame).symm

theorem keeps_signerFor {pubkey : String} :
    Keeps surroundings met (Good met req) i p (signerFor publicKeyOf pubkey) (Hands publicKeyOf pubkey) :=
  keeps_sessionView fun _ _ => keeps_canSign

theorem keeps_linksKeyForSession :
    Keeps surroundings met (Good met req) i p (linksKeyForSession publicKeyOf)
      fun r p => ∃ pubkey, Hands publicKeyOf pubkey r p := by
  apply keeps_sessionView
  intro view p' hview
  split
  · exact keeps_locked.mono fun r p h => ⟨"", h⟩
  · exact (keeps_canSign hview).mono fun r p h => ⟨_, h⟩

/-! ### Arriving and leaving -/

theorem keepsAll_outcome {call : Call Seed α} (h : KeepsAll met req i call) :
    KeepsAll met req i (call.outcome : Call Seed (Except ExtError α)) :=
  fun p => (h p).andThen fun _ _ _ => .ret trivial

theorem keepsAll_unlock {password : String} (hstart : (req i).starts = true) :
    KeepsAll met req i (unlock publicKeyOf password) := by
  refine keepsAll_question nofun nofun fun acct => ?_
  cases acct with
  | none => exact keepsAll_throw
  | some acct =>
    refine keepsAll_ite keepsAll_throw (keepsAll_question nofun nofun fun seed => ?_)
    cases seed with
    | none => exact keepsAll_throw
    | some seed =>
      refine keepsAll_ite keepsAll_throw (keepsAll_question nofun nofun fun copied => ?_)
      exact keepsAll_bind keepsAll_orThrow fun _ => keepsAll_startSession hstart

theorem keepsAll_createAccount {password : String} (hstart : (req i).starts = true) :
    KeepsAll met req i (createAccount publicKeyOf password) := by
  refine keepsAll_question nofun nofun fun made => keepsAll_bind keepsAll_orThrow fun seed => ?_
  exact keepsAll_bind (keepsAll_startSession hstart) fun _ => keepsAll_pure

theorem keepsAll_requireConfirmedBackup {pubkey : String} :
    KeepsAll met req i (requireConfirmedBackup publicKeyOf pubkey) := by
  refine keepsAll_question nofun nofun fun record => ?_
  rcases record with _ | ⟨_ | email, bound⟩
  · exact keepsAll_throw
  · exact keepsAll_ite keepsAll_pure keepsAll_throw
  · refine keepsAll_ite keepsAll_pure (keepsAll_bind keepsAll_isUnlockedNow fun lockAt => ?_)
    apply keepsAll_ite keepsAll_throw
    apply keepsAll_bind (keepsAll_outcome fun p => keeps_signerFor.mono fun _ _ _ => trivial)
    intro signer
    cases signer with
    | error e => exact keepsAll_throw
    | ok signer => exact keepsAll_question nofun nofun fun mine => keepsAll_ite keepsAll_pure keepsAll_throw

theorem keepsAll_leaveHeldAccount : KeepsAll met req i (leaveHeldAccount : Call Seed Unit) :=
  keepsAll_bind keepsAll_lock fun _ => keepsAll_question nofun nofun fun _ => keepsAll_orThrow

theorem keepsAll_bringHere {password : String} {seed : Seed} (hstart : (req i).starts = true) :
    KeepsAll met req i (bringHere publicKeyOf password seed) := by
  refine keepsAll_question nofun nofun fun saved => keepsAll_bind keepsAll_orThrow fun _ => ?_
  exact keepsAll_bind (keepsAll_startSession hstart) fun _ => keepsAll_pure

theorem keepsAll_restoreSubmitPassword {password : String} (hstart : (req i).starts = true) :
    KeepsAll met req i (restoreSubmitPassword publicKeyOf password) := by
  refine keepsAll_question nofun nofun fun restoring => keepsAll_bind keepsAll_orThrow fun switchFrom => ?_
  cases switchFrom with
  | none =>
    refine keepsAll_question nofun nofun fun opened => keepsAll_bind keepsAll_orThrow fun seed => ?_
    exact keepsAll_bringHere hstart
  | some held =>
    apply keepsAll_bind keepsAll_requireConfirmedBackup
    intro _
    refine keepsAll_question nofun nofun fun opened => keepsAll_bind keepsAll_orThrow fun seed => ?_
    refine keepsAll_ite keepsAll_pure (keepsAll_bind keepsAll_leaveHeldAccount fun _ => ?_)
    exact keepsAll_bringHere hstart

theorem keepsAll_backupUseExisting {password : String} (hstart : (req i).starts = true) :
    KeepsAll met req i (backupUseExisting publicKeyOf password) := by
  refine keepsAll_question nofun nofun fun conflict => keepsAll_bind keepsAll_orThrow fun held => ?_
  refine keepsAll_question nofun nofun fun opened => keepsAll_bind keepsAll_orThrow fun seed => ?_
  refine keepsAll_ite keepsAll_pure (keepsAll_question nofun nofun fun may => ?_)
  apply keepsAll_bind keepsAll_orThrow
  intro _
  apply keepsAll_bind keepsAll_leaveHeldAccount
  intro _
  exact keepsAll_bringHere hstart

theorem keepsAll_forget : KeepsAll met req i (forget : Call Seed Unit) := by
  refine keepsAll_bind keepsAll_lock fun _ => keepsAll_question nofun nofun fun forgotten => ?_
  exact keepsAll_bind keepsAll_orThrow fun _ => keepsAll_last nofun nofun

/-- What a call may come to. -/
def Ends (publicKeyOf : Seed → String) (request : Request) (r : Except ExtError (Outcome Seed)) (p : Progress Seed) :
    Prop :=
  (∀ seed, r = .ok (.signer seed) → ∃ pubkey, request = .signerFor pubkey ∧ publicKeyOf seed = pubkey ∧ Read p pubkey) ∧
    ∀ seed, r = .ok (.linksKey seed) → ∃ pubkey, publicKeyOf seed = pubkey ∧ Read p pubkey

/-- A call that hands nothing out. -/
theorem keeps_done {request : Request} {call : Call Seed α} (h : KeepsAll met req i call) :
    Keeps surroundings met (Good met req) i p (call >>= fun _ => (pure .done : Call Seed (Outcome Seed)))
      (Ends publicKeyOf request) :=
  (h p).bind (fun _ _ _ => .ret ⟨nofun, nofun⟩) fun _ _ _ => ⟨nofun, nofun⟩

theorem keeps_call {p : Progress Seed} :
    Keeps surroundings met (Good met req) i p ((req i).call publicKeyOf) (Ends publicKeyOf (req i)) := by
  cases hreq : req i with
  | unlock password => exact keeps_done (keepsAll_unlock (by rw [hreq]; rfl))
  | lock => exact keeps_done keepsAll_lock
  | touch => exact keeps_done keepsAll_touch
  | isUnlockedNow => exact keeps_done keepsAll_isUnlockedNow
  | signerFor pubkey =>
    refine keeps_signerFor.bind (fun signer p' h => .ret ⟨fun seed hseed => ?_, nofun⟩) fun _ _ _ => ⟨nofun, nofun⟩
    cases hseed
    exact ⟨pubkey, rfl, h signer rfl⟩
  | linksKeyForSession =>
    refine keeps_linksKeyForSession.bind (fun key p' h => .ret ⟨nofun, fun seed hseed => ?_⟩)
      fun _ _ _ => ⟨nofun, nofun⟩
    cases hseed
    obtain ⟨pubkey, hands⟩ := h
    exact ⟨pubkey, hands key rfl⟩
  | createAccount password => exact keeps_done (keepsAll_createAccount (by rw [hreq]; rfl))
  | restoreSubmitPassword password => exact keeps_done (keepsAll_restoreSubmitPassword (by rw [hreq]; rfl))
  | backupUseExisting password => exact keeps_done (keepsAll_backupUseExisting (by rw [hreq]; rfl))
  | forget => exact keeps_done keepsAll_forget

/-! ## Whole runs -/

/-- A browser that has been opened, and calls of these requests. -/
abbrev crowd (publicKeyOf : Seed → String) (now : ℕ) (req : ι → Request) :
    Crowd ι (@Ask.Answer Seed) ExtError (Outcome Seed) (Tracked ι (Browser Seed) (Progress Seed)) :=
  started ⟨none, none, none, now⟩ .start fun i => (req i).call publicKeyOf

abbrev Any : Condition ι (Ask Seed) (Chance Seed) (Browser Seed) (Progress Seed) := fun _ _ _ _ => True

variable {now : ℕ} {y z : Crowd ι (@Ask.Answer Seed) ExtError (Outcome Seed) (Tracked ι (Browser Seed) (Progress Seed))}

omit [DecidableEq ι] in
theorem good_start : Good met req (⟨⟨none, none, none, now⟩, fun _ => .start⟩ : Tracked ι (Browser Seed) (Progress Seed)) :=
  ⟨⟨nofun, nofun, nofun, fun _ => Nat.zero_le _⟩, fun _ => nofun⟩

theorem good_leads (hy : Leads (surroundings.Steps met) (Stirs Passes) (crowd publicKeyOf now req) y) :
    Good met req y.world ∧ ∀ i r, y.prog i = .ret r → Ends publicKeyOf (req i) r (y.world.calls i) := by
  have hrun := leads_keeps good_start (fun _ _ => Good.passes) (fun i => keeps_call) hy
  exact ⟨hrun.1, hrun.2.2⟩

/-- A seed that has been handed out is of this account. When its call read that the session is of the account
it had not passed the deadline that it read, which the start of a session has written, or a touch of one that
had not expired. -/
structure Allowed (publicKeyOf : Seed → String) (w : Tracked ι (Browser Seed) (Progress Seed)) (i : ι)
    (pubkey : String) (seed : Seed) : Prop where
  own : publicKeyOf seed = pubkey
  named : (w.calls i).pubkey = some pubkey
  unlocked : ∃ lockAt, (w.calls i).lockAt = some lockAt ∧ (w.calls i).readAt < lockAt ∧
    ∃ j, ∃ d ∈ (w.calls j).deadlines, d.lockAt = lockAt ∧ d.Proper

omit [DecidableEq ι] in
theorem allowed_of_read {seed : Seed} {pubkey : String} (h : Inv w) (hown : publicKeyOf seed = pubkey)
    (hread : Read (w.calls i) pubkey) : Allowed publicKeyOf w i pubkey seed := by
  obtain ⟨lockAt, hlock, hlt⟩ := hread.unlocked
  obtain ⟨j, d, hd, heq⟩ := h.read i lockAt hlock
  exact ⟨hown, hread.named, lockAt, hlock, hlt, j, d, hd, heq, h.proper j d hd⟩

/-- Nothing but a call that starts a session makes one usable. -/
theorem starts_of_usable (hy : Leads (surroundings.Steps Careful) (Stirs Passes) (crowd publicKeyOf now req) y)
    (hmove : Moves (surroundings.Steps Careful) (Stirs Passes) y z) (hnot : ¬Usable y.world.shared)
    (husable : Usable z.world.shared) :
    ∃ i, (req i).starts = true ∧ (y.world.shared, z.world.shared) ∈ (z.world.calls i).steps := by
  have hkept := (good_leads (hy.tail hmove)).1.2 fun _ _ _ _ => id
  cases hmove with
  | @answer i q k a w w' prog hask hstep =>
    obtain ⟨d, -, hmeet⟩ := hstep
    obtain rfl : (surroundings.meet i d w q).2 = w' := congrArg Prod.snd hmeet
    have hmem : (w.shared, (surroundings.meet i d w q).2.shared) ∈ ((surroundings.meet i d w q).2.calls i).steps := by
      rw [meet_calls_self]
      exact List.mem_append_right _ (List.mem_singleton_self _)
    exact ⟨i, hkept i _ hmem hnot husable, hmem⟩
  | stir hstir =>
    obtain ⟨b, hpass, rfl⟩ := hstir
    exact absurd husable (not_usable_passes hpass hnot)

/-- **A session signs for its account while it is unlocked.** In every run a signer is only of the account
that is asked for, and the key of the links of the account that the session names, each while the deadline had
not passed. In a run where no touch writes its deadline over one that has passed, a session is made usable by
an unlock, a creation or a restore only. The clock does not go back. -/
theorem session_kept :
    (Leads (surroundings.Steps Any) (Stirs Passes) (crowd publicKeyOf now req) y →
      (∀ i seed, y.prog i = .ret (.ok (.signer seed)) →
        ∃ pubkey, req i = .signerFor pubkey ∧ Allowed publicKeyOf y.world i pubkey seed) ∧
      ∀ i seed, y.prog i = .ret (.ok (.linksKey seed)) → ∃ pubkey, Allowed publicKeyOf y.world i pubkey seed) ∧
    (Leads (surroundings.Steps Careful) (Stirs Passes) (crowd publicKeyOf now req) y →
      ∀ z, Moves (surroundings.Steps Careful) (Stirs Passes) y z → ¬Usable y.world.shared → Usable z.world.shared →
        ∃ i, (req i).starts = true ∧ (y.world.shared, z.world.shared) ∈ (z.world.calls i).steps) := by
  refine ⟨fun hy => ?_, fun hy z hmove hnot husable => starts_of_usable hy hmove hnot husable⟩
  obtain ⟨hgood, hends⟩ := good_leads hy
  refine ⟨fun i seed hret => ?_, fun i seed hret => ?_⟩
  · obtain ⟨pubkey, hreq, hown, hread⟩ := (hends i _ hret).1 seed rfl
    exact ⟨pubkey, hreq, allowed_of_read hgood.1 hown hread⟩
  · obtain ⟨pubkey, hown, hread⟩ := (hends i _ hret).2 seed rfl
    exact ⟨pubkey, allowed_of_read hgood.1 hown hread⟩

end

namespace Demo

local instance inhabited : NeZero 3 := ⟨by decide⟩

abbrev Run := Crowd (Fin 3) (@Ask.Answer String) ExtError (Outcome String)
  (Tracked (Fin 3) (Browser String) (Progress String))

/-- The account "G", whose seed is its name. -/
def chance : Chance String :=
  ⟨15, some ⟨"G", 2⟩, some "G", .ok "G", .ok none, .ok "G", none, false, .ok ()⟩

def req (i : Fin 3) : Request :=
  if i = 0 then .unlock "password" else if i = 1 then .touch else .signerFor "G"

abbrev closed : Run := crowd id 0 req

abbrev plays (y : Run) (is : List (Fin 3)) : Run := y.play surroundings.meet (is.map (·, chance))

abbrev later (now : ℕ) (y : Run) : Run := ⟨{ y.world with shared := { y.world.shared with now := now } }, y.prog⟩

/-- Unlocked at the time 0, for 15 minutes. -/
abbrev unlocked : Run := plays closed (List.replicate 7 0)

/-- A signer is asked for in the tenth minute. -/
abbrev signed : Run := plays (later 600000 unlocked) (List.replicate 4 2)

/-- The session is touched in its last millisecond, and then it expires. -/
abbrev expired : Run := later 900000 (plays (later 899999 unlocked) (List.replicate 4 1))

abbrev revived : Run := expired.answered 1 (surroundings.meet 1 chance expired.world)

/-- Two unlocks, and a touch. -/
def again (i : Fin 3) : Request := if i = 1 then .touch else .unlock "password"

abbrev opened : Run := plays (crowd id 0 again) (List.replicate 7 0)

/-- Touched in the tenth minute. -/
abbrev touched : Run := plays (later 600000 opened) (List.replicate 5 1)

/-- It has expired 15 minutes later, and the second unlock comes to its write. -/
abbrev passed : Run := plays (later 1500000 touched) (List.replicate 5 2)

abbrev reopened : Run := passed.answered 2 (surroundings.meet 2 chance passed.world)

def careful (_ : Fin 3) (_ : Chance String) (w : Tracked (Fin 3) (Browser String) (Progress String)) :
    Ask String → Bool
  | .setLockAt lockAt =>
    w.shared.unlockedPubkey = none || w.shared.lockAt.any (w.shared.now < ·) || lockAt ≤ w.shared.now
  | _ => true

theorem careful_of_check {i : Fin 3} {d : Chance String}
    {w : Tracked (Fin 3) (Browser String) (Progress String)} {q : Ask String} (h : careful i d w q = true) :
    Careful i d w q := by
  rintro lockAt rfl
  simpa [careful, Option.any_eq_true, or_assoc] using h

theorem runs : unlocked.world.shared.now = 0 ∧
    (signed.prog 2).result.map (fun r => r.map fun o => match o with
      | .signer seed => seed
      | _ => "") = some (.ok "G") ∧
    (plays (later 899999 unlocked) (List.replicate 4 1)).world.shared.now = 899999 ∧
    (expired.prog 1).result.isNone = true ∧
    expired.world.shared = ⟨some "G", some "G", some 900000, 900000⟩ ∧
    revived.world.shared = ⟨some "G", some "G", some 1799999, 900000⟩ ∧
    ∀ x ∈ (revived.world.calls 0).steps, x.1.now = 0 := by
  decide +kernel

theorem leads_plays {y : Run} {is : List (Fin 3)} :
    Leads (surroundings.Steps Any) (Stirs Passes) y (plays y is) :=
  leads_meet (fun _ _ _ _ _ => trivial) fairly_true

theorem leads_later {met : Condition (Fin 3) (Ask String) (Chance String) (Browser String) (Progress String)}
    {y : Run} {now : ℕ} (h : y.world.shared.now ≤ now) :
    Leads (surroundings.Steps met) (Stirs Passes) y (later now y) :=
  .single (.stir ⟨_, ⟨h, .inl rfl⟩, rfl⟩)

theorem leads_signed : Leads (surroundings.Steps Any) (Stirs Passes) closed signed :=
  leads_plays.trans ((leads_later (by rw [runs.1]; decide)).trans leads_plays)

theorem leads_expired : Leads (surroundings.Steps Any) (Stirs Passes) closed expired := by
  refine leads_plays.trans ((leads_later ?_).trans (leads_plays.trans (leads_later ?_)))
  · rw [runs.1]
    decide
  · rw [runs.2.2.1]
    decide

theorem moves_answered {met : Condition (Fin 3) (Ask String) (Chance String) (Browser String) (Progress String)}
    {y : Run} {i : Fin 3} (hasks : (y.prog i).result.isNone = true)
    (hmet : ∀ q k, y.prog i = .ask q k → met i chance y.world q) :
    Moves (surroundings.Steps met) (Stirs Passes) y (y.answered i (surroundings.meet i chance y.world)) := by
  match hprog : y.prog i with
  | .ret r =>
    rw [hprog] at hasks
    cases hasks
  | .ask q k =>
    have hnext : y.answered i (surroundings.meet i chance y.world) = ⟨(surroundings.meet i chance y.world q).2,
        Function.update y.prog i (k (surroundings.meet i chance y.world q).1)⟩ := by
      rw [Crowd.answered, hprog]
    rw [hnext]
    exact .answer hprog ⟨chance, hmet q k hprog, rfl⟩

theorem moves_revived : Moves (surroundings.Steps Any) (Stirs Passes) expired revived :=
  moves_answered runs.2.2.2.1 fun _ _ _ => trivial

theorem runs_again :
    ((crowd id 0 again : Run).fairly surroundings.meet careful (List.replicate 7 (0, chance)) = true ∧
      opened.world.shared.now = 0) ∧
    ((later 600000 opened).fairly surroundings.meet careful (List.replicate 5 (1, chance)) = true ∧
      touched.world.shared = ⟨some "G", some "G", some 1500000, 600000⟩) ∧
    ((later 1500000 touched).fairly surroundings.meet careful (List.replicate 5 (2, chance)) = true ∧
      passed.world.shared = ⟨some "G", some "G", some 1500000, 1500000⟩) ∧
    (passed.fairly surroundings.meet careful [(2, chance)] = true ∧ (passed.prog 2).result.isNone = true ∧
      reopened.world.shared = ⟨some "G", some "G", some 2400000, 1500000⟩) := by
  decide +kernel

theorem leads_passed : Leads (surroundings.Steps Careful) (Stirs Passes) (crowd (id : String → String) 0 again) passed := by
  obtain ⟨⟨hopened, hnow⟩, ⟨htouched, hshared⟩, ⟨hover, -⟩, -⟩ := runs_again
  refine (leads_meet (fun _ _ _ _ => careful_of_check) hopened).trans ((leads_later ?_).trans
    ((leads_meet (fun _ _ _ _ => careful_of_check) htouched).trans ((leads_later ?_).trans
      (leads_meet (fun _ _ _ _ => careful_of_check) hover))))
  · exact hnow.trans_le (by decide)
  · exact (congrArg Browser.now hshared).trans_le (by decide)

theorem moves_reopened : Moves (surroundings.Steps Careful) (Stirs Passes) passed reopened := by
  obtain ⟨hfair, hasks, -⟩ := runs_again.2.2.2
  apply moves_answered hasks
  intro q k hprog
  apply careful_of_check
  simpa [Crowd.fairly, hprog] using hfair

end Demo

/-- The account is unlocked, and signs. Another time a touch keeps its session, which expires, and it takes an unlock
to make it usable. -/
theorem session_kept_signing :
    (∃ seed, Demo.signed.prog 2 = .ret (.ok (.signer seed)) ∧ Allowed id Demo.signed.world 2 "G" seed) ∧
    Demo.touched.world.shared.lockAt = some 1500000 ∧ ¬Usable Demo.passed.world.shared ∧
    ∃ i, (Demo.again i).starts = true ∧
      (Demo.passed.world.shared, Demo.reopened.world.shared) ∈ (Demo.reopened.world.calls i).steps := by
  obtain ⟨-, ⟨-, htouched⟩, ⟨-, hover⟩, -, -, hreopened⟩ := Demo.runs_again
  have hnot : ¬Usable Demo.passed.world.shared := by
    rw [hover]
    intro h
    obtain ⟨-, -, lockAt, heq, hlt⟩ := h
    obtain rfl := Option.some.inj heq
    exact absurd hlt (by decide)
  have husable : Usable Demo.reopened.world.shared := by
    rw [hreopened]
    exact ⟨nofun, nofun, _, rfl, by decide⟩
  refine ⟨?_, congrArg Browser.lockAt htouched, hnot,
    session_kept.2 Demo.leads_passed _ Demo.moves_reopened hnot husable⟩
  obtain ⟨r, hr, hout⟩ := Option.map_eq_some_iff.mp Demo.runs.2.1
  have hret := eq_ret_of_result hr
  cases r with
  | error e => cases hout
  | ok o =>
    cases o with
    | signer seed =>
      obtain ⟨pubkey, hreq, hallowed⟩ := (session_kept.1 Demo.leads_signed).1 2 seed hret
      cases hreq
      exact ⟨seed, hret, hallowed⟩
    | linksKey seed =>
      have hempty : "" = "G" := Except.ok.inj hout
      exact absurd hempty (by decide)
    | done =>
      have hempty : "" = "G" := Except.ok.inj hout
      exact absurd hempty (by decide)

/-- **A touch revives a session** that has expired since it was read. -/
theorem touch_revives : ¬∀ (req : Fin 3 → Request) y z,
    Leads (surroundings.Steps Any) (Stirs Passes) (crowd (id : String → String) 0 req) y →
      Moves (surroundings.Steps Any) (Stirs Passes) y z → ¬Usable y.world.shared → Usable z.world.shared →
        ∃ i, (req i).starts = true ∧ (y.world.shared, z.world.shared) ∈ (z.world.calls i).steps := by
  intro hall
  obtain ⟨-, -, -, -, hexpired, hrevived, hsteps⟩ := Demo.runs
  have hnot : ¬Usable Demo.expired.world.shared := by
    rw [hexpired]
    intro h
    obtain ⟨-, -, lockAt, heq, hlt⟩ := h
    obtain rfl := Option.some.inj heq
    exact absurd hlt (by decide)
  have husable : Usable Demo.revived.world.shared := by
    rw [hrevived]
    exact ⟨nofun, nofun, _, rfl, by decide⟩
  obtain ⟨i, hstart, hstep⟩ := hall Demo.req _ _ Demo.leads_expired Demo.moves_revived hnot husable
  have hfirst : ∀ i, (Demo.req i).starts = true → i = 0 := by decide
  obtain rfl := hfirst i hstart
  have hnow := hsteps _ hstep
  rw [hexpired] at hnow
  cases hnow

end Lumenia.Extension.Account
