import Lumenia.Web.BackupRecord

/-!
# What the records promise

The operations on the records in any order, and what the server has said. A record promises that its account
comes back (`isConfirmedBackup`), and the list beside it which other emails open it.
-/

namespace Lumenia.Web.Backup

/-! ## Operations -/

inductive Op
  | markBackedUp (pubkey : String) (email : Option String) (bound : Option Bool) (now : ℕ)
  | recordEmailChange (pubkey : String) (change : EmailChange) (now : ℕ)
  | forgetBackupRecord (pubkey : String)
  | forgetAllBackupRecords

/-- The one account the operation is for. -/
def Op.account : Op → Option String
  | .markBackedUp pubkey .. | .recordEmailChange pubkey .. | .forgetBackupRecord pubkey => some pubkey
  | .forgetAllBackupRecords => none

/-- An operation, and which of its writes take; nothing if the storage is blocked. -/
structure Input where
  op : Op
  written : Option Written

def Input.recordsTake (i : Input) : Bool := i.written.any Written.records

def Input.alsoTakes (i : Input) : Bool := i.written.any Written.also

/-- The last true-or-false answer for an account under an email, since the account was last forgotten. -/
abbrev Answers := String → Option String → Option Bool

def Answers.tell (a : Answers) (pubkey : String) (email : Option String) : Option Bool → Answers
  | none => a
  | some b => Function.update a pubkey (Function.update (a pubkey) email (some b))

def Answers.forget (a : Answers) (pubkey : String) : Answers := Function.update a pubkey fun _ => none

structure World where
  store : Storage
  /-- What was answered, whether its record could be written or not. -/
  heard : Answers
  /-- What was answered and written. -/
  recorded : Answers
  /-- What the server last said of an old email of an account. -/
  releases : String → String → Option Release

section

variable (toLowerCase : String → String)

def Op.run (w : Written) : Op → Storage → Storage
  | .markBackedUp pubkey email bound now, s => Backup.markBackedUp toLowerCase w pubkey email bound now s
  | .recordEmailChange pubkey change now, s => Backup.recordEmailChange toLowerCase w pubkey change now s
  | .forgetBackupRecord pubkey, s => Backup.forgetBackupRecord w pubkey s
  | .forgetAllBackupRecords, s => Backup.forgetAllBackupRecords w s

def Input.run (i : Input) (s : Storage) : Storage :=
  match i.written with
  | none => s
  | some w => i.op.run toLowerCase w s

/-- The email that a backup is marked for. -/
def emailMarked (s : Storage) (pubkey : String) (email : Option String) : Option String :=
  keepEmail (backupRecords s pubkey) (email.map (normalize toLowerCase))

def Op.answers (s : Storage) (a : Answers) : Op → Answers
  | .markBackedUp pubkey email bound _ => a.tell pubkey (emailMarked toLowerCase s pubkey email) bound
  | .recordEmailChange pubkey change _ =>
    a.tell pubkey (some (normalize toLowerCase change.newEmail)) change.bound
  | .forgetBackupRecord pubkey => a.forget pubkey
  | .forgetAllBackupRecords => fun _ _ => none

def Op.releases (r : String → String → Option Release) : Op → String → String → Option Release
  | .recordEmailChange pubkey change _ =>
    Function.update r pubkey
      (Function.update (r pubkey) (normalize toLowerCase change.oldEmail) (some change.release))
  | _ => r

/-- The operations on the storage that an old list is left in. -/
def history (legacy : Option Json) : Machine World Input Unit where
  init := ⟨⟨legacy, fun _ => none, fun _ => []⟩, fun _ _ => none, fun _ _ => none, fun _ _ => none⟩
  step w i :=
    ({ store := i.run toLowerCase w.store
       heard := i.op.answers toLowerCase w.store w.heard
       recorded := if i.recordsTake then i.op.answers toLowerCase w.store w.recorded else w.recorded
       releases := i.op.releases toLowerCase w.releases }, ())

end

/-! ## What is promised -/

/-- The record of the account is confirmed, and names the email. -/
def ConfirmedFor (s : Storage) (pubkey : String) (email : Option String) : Prop :=
  isConfirmedBackup s pubkey = true ∧ (backupRecords s pubkey).bind BackupRecord.email = email

/-- A confirmed record has the answer true. -/
def Vouched (s : Storage) (a : Answers) : Prop :=
  ∀ pubkey email, ConfirmedFor s pubkey email → a pubkey email = some true

/-- The recorded email is not listed as one of the others. -/
def Apart (s : Storage) : Prop :=
  ∀ pubkey, ∀ e ∈ (backupRecords s pubkey).bind BackupRecord.email, e ∉ alsoOpens s pubkey

/-- An old email that was released is not listed. -/
def Dropped (s : Storage) (releases : String → String → Option Release) : Prop :=
  ∀ pubkey, ∀ e ∈ alsoOpens s pubkey, releases pubkey e ≠ some .released

structure World.Good (w : World) : Prop where
  vouched : Vouched w.store w.heard
  apart : Apart w.store
  dropped : Dropped w.store w.releases

section

variable (toLowerCase : String → String) (s : Storage) (i : Input)

/-- A write of the records that fails takes nothing from a promise: neither false for a confirmed record,
nor a confirmed account that is forgotten. -/
def Heeded : Prop :=
  i.recordsTake = true ∨
    match i.op with
    | .markBackedUp pubkey email bound _ =>
      bound = some false → ¬ConfirmedFor s pubkey (emailMarked toLowerCase s pubkey email)
    | .recordEmailChange pubkey change _ =>
      change.bound = some false → ¬ConfirmedFor s pubkey (some (normalize toLowerCase change.newEmail))
    | .forgetBackupRecord pubkey => isConfirmedBackup s pubkey = false
    | .forgetAllBackupRecords => ∀ pubkey, isConfirmedBackup s pubkey = false

/-- No email becomes the recorded one that is listed, nor is the recorded one listed. -/
def KeepsApart : Prop :=
  match i.op with
  | .markBackedUp pubkey email _ _ =>
    i.recordsTake = true → ∀ e ∈ emailMarked toLowerCase s pubkey email, e ∉ alsoOpens s pubkey
  | .recordEmailChange pubkey change _ =>
    let oldNorm := normalize toLowerCase change.oldEmail
    let newNorm := normalize toLowerCase change.newEmail
    if i.recordsTake then i.alsoTakes = true ∨ newNorm ∉ alsoOpens s pubkey
    else i.alsoTakes = true → (backupRecords s pubkey).bind BackupRecord.email = some oldNorm →
      change.release = .released ∨ oldNorm = newNorm
  | _ => True

/-- The list of the others can be written where an email on it is released. -/
def Drops : Prop :=
  match i.op with
  | .recordEmailChange pubkey change _ =>
    change.release = .released → i.alsoTakes = true ∨ normalize toLowerCase change.oldEmail ∉ alsoOpens s pubkey
  | _ => True

structure Careful : Prop where
  heeded : Heeded toLowerCase s i
  apart : KeepsApart toLowerCase s i
  drops : Drops toLowerCase s i

end

/-! ## One step -/

variable {toLowerCase : String → String} {s s' : Storage} {a : Answers} {i : Input} {w : Written} {op : Op}
  {pubkey pubkey' : String} {email : Option String} {bound : Option Bool}
  {releases : String → String → Option Release}

theorem confirmedFor_iff : ConfirmedFor s pubkey email ↔
    pubkey ≠ "" ∧ ∃ r, backupRecords s pubkey = some r ∧ r.bound = some true ∧ r.email = email := by
  rw [ConfirmedFor, isConfirmedBackup, backupRecord]
  rcases eq_or_ne pubkey "" with hempty | hne
  · simp [hempty]
  · rw [if_neg hne]
    cases backupRecords s pubkey with
    | none => simp
    | some r => simp [hne]

theorem isConfirmedBackup_iff : isConfirmedBackup s pubkey = true ↔ ∃ email, ConfirmedFor s pubkey email :=
  ⟨fun h => ⟨_, h, rfl⟩, fun ⟨_, h⟩ => h.1⟩

theorem confirmedFor_congr (h : backupRecords s' pubkey = backupRecords s pubkey) :
    ConfirmedFor s' pubkey email ↔ ConfirmedFor s pubkey email := by
  rw [confirmedFor_iff, confirmedFor_iff, h]

/-- What is left of a record that is forgotten promises nothing. -/
theorem not_confirmedFor_of_blank (h : ∀ r ∈ backupRecords s pubkey, r = blank) :
    ¬ConfirmedFor s pubkey email := by
  intro hc
  obtain ⟨-, r, hr, hbound, -⟩ := confirmedFor_iff.mp hc
  rw [h r hr] at hbound
  cases hbound

theorem Answers.tell_of_ne {email' : Option String} (h : pubkey' ≠ pubkey ∨ email' ≠ email) :
    a.tell pubkey email bound pubkey' email' = a pubkey' email' := by
  cases bound with
  | none => rfl
  | some b =>
    rw [Answers.tell]
    rcases eq_or_ne pubkey' pubkey with rfl | hne
    · rw [Function.update_self, Function.update_of_ne (h.resolve_left fun hne => hne rfl)]
    · rw [Function.update_of_ne hne]

theorem Answers.tell_self : a.tell pubkey email bound pubkey email = bound.or (a pubkey email) := by
  cases bound with
  | none => rfl
  | some b => rw [Answers.tell, Function.update_self, Function.update_self, Option.some_or]

/-- An answer that is not written. -/
theorem Vouched.tell_iff (h : Vouched s a) :
    Vouched s (a.tell pubkey email bound) ↔ (bound = some false → ¬ConfirmedFor s pubkey email) := by
  constructor
  · rintro hafter rfl hc
    have htrue := hafter pubkey email hc
    rw [Answers.tell_self] at htrue
    cases htrue
  · intro hfalse pubkey' email' hc
    by_cases hsame : pubkey' = pubkey ∧ email' = email
    · obtain ⟨rfl, rfl⟩ := hsame
      rw [Answers.tell_self, h _ _ hc]
      rcases bound with _ | _ | _
      · rfl
      · exact absurd hc (hfalse rfl)
      · rfl
    · rw [Answers.tell_of_ne (not_and_or.mp hsame)]
      exact h _ _ hc

theorem Vouched.forget_iff (h : Vouched s a) :
    Vouched s (a.forget pubkey) ↔ isConfirmedBackup s pubkey = false := by
  rw [← Bool.not_eq_true, isConfirmedBackup_iff]
  constructor
  · rintro hafter ⟨email, hc⟩
    have htrue := hafter pubkey email hc
    rw [Answers.forget, Function.update_self] at htrue
    cases htrue
  · intro hnot pubkey' email hc
    rcases eq_or_ne pubkey' pubkey with rfl | hne
    · exact absurd ⟨email, hc⟩ hnot
    · rw [Answers.forget, Function.update_of_ne hne]
      exact h _ _ hc

theorem vouched_nothing : (Vouched s fun _ _ => none) ↔ ∀ pubkey, isConfirmedBackup s pubkey = false := by
  simp only [← Bool.not_eq_true, isConfirmedBackup_iff]
  constructor
  · rintro h pubkey ⟨email, hc⟩
    cases h pubkey email hc
  · intro h pubkey email hc
    exact absurd ⟨email, hc⟩ (h pubkey)

/-- A record that is written whole has the answer it is written with, or one of the same email. -/
theorem Vouched.update (h : Vouched s a) {r : BackupRecord}
    (hrecords : backupRecords s' = Function.update (backupRecords s) pubkey (some r))
    (hbound : r.bound = some true → bound = some true ∨
      bound = none ∧ ∃ r' ∈ backupRecords s pubkey, r'.bound = some true ∧ r'.email = r.email) :
    Vouched s' (a.tell pubkey r.email bound) := by
  intro pubkey' email' hc
  rcases eq_or_ne pubkey' pubkey with rfl | hne
  · obtain ⟨hname, r', hr', hconfirmed, rfl⟩ := confirmedFor_iff.mp hc
    rw [hrecords, Function.update_self] at hr'
    obtain rfl := Option.some.inj hr'
    rw [Answers.tell_self]
    rcases hbound hconfirmed with rfl | ⟨rfl, hbefore⟩
    · rfl
    · exact h _ _ (confirmedFor_iff.mpr ⟨hname, hbefore⟩)
  · rw [Answers.tell_of_ne (.inl hne)]
    exact h _ _ ((confirmedFor_congr (by rw [hrecords, Function.update_of_ne hne])).mp hc)

/-- An operation whose record is written. -/
theorem Vouched.run (h : Vouched s a) (hw : w.records = true) :
    Vouched (op.run toLowerCase w s) (op.answers toLowerCase s a) := by
  cases op with
  | markBackedUp pubkey email bound now =>
    refine h.update (markBackedUp_records hw) fun htrue => ?_
    rcases Option.or_eq_some_iff.mp htrue with htrue | ⟨hnone, hbefore⟩
    · exact .inl htrue
    · obtain ⟨r, hr, hsame⟩ := Option.bind_eq_some_iff.mp hbefore
      split at hsame
      · rename_i hemail
        exact .inr ⟨hnone, r, hr, hsame, hemail⟩
      · cases hsame
  | recordEmailChange pubkey change now =>
    refine h.update (recordEmailChange_records.trans (if_pos hw)) fun htrue => .inl htrue
  | forgetBackupRecord pubkey =>
    intro pubkey' email hc
    rcases eq_or_ne pubkey' pubkey with rfl | hne
    · exact absurd hc (not_confirmedFor_of_blank (forgetBackupRecord_self hw))
    · rw [Op.answers, Answers.forget, Function.update_of_ne hne]
      exact h _ _ ((confirmedFor_congr (forgetBackupRecord_of_ne hne)).mp hc)
  | forgetAllBackupRecords =>
    intro pubkey email hc
    exact absurd hc (not_confirmedFor_of_blank (forgetAllBackupRecords_written hw))

theorem Input.run_written (h : i.written = some w) : i.run toLowerCase s = i.op.run toLowerCase w s := by
  rw [Input.run, h]

/-- An operation whose record is not written leaves the records as they are. -/
theorem backupRecords_failed (h : i.recordsTake = false) :
    backupRecords (i.run toLowerCase s) = backupRecords s := by
  obtain ⟨op, _ | w⟩ := i
  · rfl
  · have hw : w.records = false := h
    cases op with
    | markBackedUp => exact congrArg backupRecords (markBackedUp_failed hw)
    | recordEmailChange =>
      refine recordEmailChange_records.trans (if_neg ?_)
      rw [hw]
      exact Bool.false_ne_true
    | forgetBackupRecord => exact forgetBackupRecord_failed hw
    | forgetAllBackupRecords => exact congrArg backupRecords (forgetAllBackupRecords_failed hw)

theorem vouched_congr (h : backupRecords s' = backupRecords s) : Vouched s' a ↔ Vouched s a :=
  forall₂_congr fun _ _ => imp_congr_left (confirmedFor_congr (congrFun h _))

theorem vouched_step (h : Vouched s a) :
    Vouched (i.run toLowerCase s) (i.op.answers toLowerCase s a) ↔ Heeded toLowerCase s i := by
  cases htake : i.recordsTake with
  | true =>
    obtain ⟨w, hwritten, hw⟩ := (Option.any_eq_true _ _).mp htake
    rw [Input.run_written hwritten]
    exact iff_of_true (h.run hw) (.inl htake)
  | false =>
    rw [vouched_congr (backupRecords_failed htake), Heeded, htake, or_iff_right Bool.false_ne_true]
    cases i.op with
    | markBackedUp => exact h.tell_iff
    | recordEmailChange => exact h.tell_iff
    | forgetBackupRecord => exact h.forget_iff
    | forgetAllBackupRecords => exact vouched_nothing

variable (toLowerCase s) in
/-- An operation on one account leaves the others as they are. -/
theorem run_of_ne (h : i.op.account = some pubkey) (hne : pubkey' ≠ pubkey) :
    backupRecords (i.run toLowerCase s) pubkey' = backupRecords s pubkey' ∧
      alsoOpens (i.run toLowerCase s) pubkey' = alsoOpens s pubkey' := by
  obtain ⟨op, _ | w⟩ := i
  · exact ⟨rfl, rfl⟩
  cases op with
  | markBackedUp =>
    obtain rfl := Option.some.inj h
    refine ⟨?_, congrFun alsoOpens_markBackedUp _⟩
    cases hw : w.records with
    | false => exact congrArg (backupRecords · pubkey') (markBackedUp_failed hw)
    | true => exact (congrFun (markBackedUp_records hw) _).trans (Function.update_of_ne hne ..)
  | recordEmailChange =>
    obtain rfl := Option.some.inj h
    constructor
    · refine (congrFun recordEmailChange_records _).trans ?_
      split
      · exact Function.update_of_ne hne ..
      · rfl
    · refine (congrFun alsoOpens_recordEmailChange _).trans ?_
      split
      · exact Function.update_of_ne hne ..
      · rfl
  | forgetBackupRecord =>
    obtain rfl := Option.some.inj h
    refine ⟨forgetBackupRecord_of_ne hne, (congrFun alsoOpens_forgetBackupRecord _).trans ?_⟩
    split
    · exact Function.update_of_ne hne ..
    · rfl
  | forgetAllBackupRecords => cases h

/-! ### The other emails -/

variable (pubkey) in
/-- Of an operation on one account only that account matters. -/
theorem apart_iff_of_account (h : Apart s) (haccount : i.op.account = some pubkey) :
    Apart (i.run toLowerCase s) ↔
      ∀ e ∈ (backupRecords (i.run toLowerCase s) pubkey).bind BackupRecord.email,
        e ∉ alsoOpens (i.run toLowerCase s) pubkey := by
  refine ⟨fun hafter => hafter pubkey, fun hself pubkey' => ?_⟩
  rcases eq_or_ne pubkey' pubkey with rfl | hne
  · exact hself
  · obtain ⟨hrecords, halso⟩ := run_of_ne toLowerCase s haccount hne
    rw [hrecords, halso]
    exact h pubkey'

variable (toLowerCase s) in
theorem run_recordEmailChange {change : EmailChange} {now : ℕ} (hop : i.op = .recordEmailChange pubkey change now) :
    backupRecords (i.run toLowerCase s) pubkey =
        (if i.recordsTake then some ⟨some (normalize toLowerCase change.newEmail), now, change.bound⟩
        else backupRecords s pubkey) ∧
      alsoOpens (i.run toLowerCase s) pubkey =
        if i.alsoTakes then alsoAfter toLowerCase s pubkey change else alsoOpens s pubkey := by
  obtain ⟨op, _ | w⟩ := i
  · exact ⟨rfl, rfl⟩
  · obtain rfl := hop
    constructor
    · refine (congrFun recordEmailChange_records _).trans ?_
      rw [apply_ite (fun f : String → Option BackupRecord => f pubkey), Function.update_self]
      rfl
    · refine (congrFun alsoOpens_recordEmailChange _).trans ?_
      rw [apply_ite (fun f : String → List String => f pubkey), Function.update_self]
      rfl

variable (toLowerCase s) in
theorem run_markBackedUp {now : ℕ} (hop : i.op = .markBackedUp pubkey email bound now) :
    (backupRecords (i.run toLowerCase s) pubkey).bind BackupRecord.email =
        (if i.recordsTake then emailMarked toLowerCase s pubkey email
        else (backupRecords s pubkey).bind BackupRecord.email) ∧
      alsoOpens (i.run toLowerCase s) = alsoOpens s := by
  obtain ⟨op, _ | w⟩ := i
  · exact ⟨rfl, rfl⟩
  · obtain rfl := hop
    refine ⟨?_, alsoOpens_markBackedUp⟩
    have hrun : Input.run toLowerCase ⟨.markBackedUp pubkey email bound now, some w⟩ s =
      markBackedUp toLowerCase w pubkey email bound now s := rfl
    have htake : Input.recordsTake ⟨.markBackedUp pubkey email bound now, some w⟩ = w.records := rfl
    rw [hrun, htake]
    cases hw : w.records with
    | false => rw [markBackedUp_failed hw, if_neg Bool.false_ne_true]
    | true =>
      rw [markBackedUp_records hw, Function.update_self, if_pos rfl]
      rfl

variable (toLowerCase s pubkey) in
/-- What is forgotten leaves nothing new behind. -/
theorem run_forget (hop : (∃ pubkey, i.op = .forgetBackupRecord pubkey) ∨ i.op = .forgetAllBackupRecords) :
    (∀ r ∈ backupRecords (i.run toLowerCase s) pubkey, r = blank ∨ r ∈ backupRecords s pubkey) ∧
      ∀ e ∈ alsoOpens (i.run toLowerCase s) pubkey, e ∈ alsoOpens s pubkey := by
  constructor
  · intro r hr
    cases htake : i.recordsTake with
    | false =>
      rw [backupRecords_failed htake] at hr
      exact .inr hr
    | true =>
      obtain ⟨w, hwritten, hw⟩ := (Option.any_eq_true _ _).mp htake
      rw [Input.run_written hwritten] at hr
      rcases hop with ⟨pubkey', hop⟩ | hop
      · rw [hop] at hr
        rcases eq_or_ne pubkey pubkey' with rfl | hne
        · exact .inl (forgetBackupRecord_self hw r hr)
        · exact .inr ((forgetBackupRecord_of_ne hne).symm ▸ hr)
      · rw [hop] at hr
        exact .inl (forgetAllBackupRecords_written hw r hr)
  · intro e he
    obtain ⟨op, _ | w⟩ := i
    · exact he
    rcases hop with ⟨pubkey', rfl⟩ | rfl
    · have hafter : e ∈ alsoOpens (forgetBackupRecord w pubkey' s) pubkey := he
      rw [alsoOpens_forgetBackupRecord] at hafter
      split at hafter
      · rcases eq_or_ne pubkey pubkey' with rfl | hne
        · rw [Function.update_self] at hafter
          cases hafter
        · rwa [Function.update_of_ne hne] at hafter
      · exact hafter
    · exact alsoOpens_forgetAllBackupRecords he

/-- What is forgotten keeps the lists apart. -/
theorem Apart.forget (h : Apart s)
    (hop : (∃ pubkey, i.op = .forgetBackupRecord pubkey) ∨ i.op = .forgetAllBackupRecords) :
    Apart (i.run toLowerCase s) := by
  intro pubkey e he hlisted
  obtain ⟨hrecords, halso⟩ := run_forget toLowerCase s pubkey hop
  obtain ⟨r, hr, hemail⟩ := Option.bind_eq_some_iff.mp he
  rcases hrecords r hr with rfl | hbefore
  · cases hemail
  · exact h pubkey e (Option.bind_eq_some_iff.mpr ⟨r, hbefore, hemail⟩) (halso e hlisted)

theorem apart_step (h : Apart s) : Apart (i.run toLowerCase s) ↔ KeepsApart toLowerCase s i := by
  cases hop : i.op with
  | markBackedUp pubkey email bound now =>
    obtain ⟨hrecords, halso⟩ := run_markBackedUp toLowerCase s hop
    rw [apart_iff_of_account pubkey h (by rw [hop]; rfl), KeepsApart, hop, hrecords, halso]
    cases i.recordsTake with
    | true => exact ⟨fun hnamed _ => hnamed, fun hnamed => hnamed rfl⟩
    | false => exact iff_of_true (h pubkey) nofun
  | recordEmailChange pubkey change now =>
    obtain ⟨hrecords, halso⟩ := run_recordEmailChange toLowerCase s hop
    rw [apart_iff_of_account pubkey h (by rw [hop]; rfl), KeepsApart, hop, hrecords, halso]
    cases i.recordsTake with
    | true =>
      simp only [if_true, Option.bind_some, Option.mem_some_iff, forall_eq']
      cases i.alsoTakes with
      | false => simp
      | true =>
        refine iff_of_true (fun hmem => ?_) (.inl rfl)
        rcases mem_alsoAfter.mp hmem with ⟨-, hne, -⟩ | ⟨heq, -, hne⟩
        · exact hne rfl
        · exact hne heq.symm
    | false =>
      simp only [Bool.false_eq_true, if_false]
      cases i.alsoTakes with
      | false => exact iff_of_true (h pubkey) nofun
      | true =>
        simp only [if_true, mem_alsoAfter, true_implies]
        constructor
        · intro hafter hold
          by_contra hmust
          obtain ⟨hrelease, hne⟩ := not_or.mp hmust
          exact hafter _ hold (.inr ⟨rfl, hrelease, hne⟩)
        · rintro hsafe e he (⟨hmem, -, -⟩ | ⟨rfl, hrelease, hne⟩)
          · exact h pubkey e he hmem
          · exact (hsafe he).elim hrelease hne
  | forgetBackupRecord pubkey =>
    rw [KeepsApart, hop]
    exact iff_of_true (h.forget (.inl ⟨pubkey, hop⟩)) trivial
  | forgetAllBackupRecords =>
    rw [KeepsApart, hop]
    exact iff_of_true (h.forget (.inr hop)) trivial

/-- Where the lists only shrink and nothing is heard of a release. -/
theorem Dropped.mono (h : Dropped s releases)
    (halso : ∀ pubkey, ∀ e ∈ alsoOpens s' pubkey, e ∈ alsoOpens s pubkey) : Dropped s' releases :=
  fun pubkey e he => h pubkey e (halso pubkey e he)

theorem dropped_step (h : Dropped s releases) :
    Dropped (i.run toLowerCase s) (i.op.releases toLowerCase releases) ↔ Drops toLowerCase s i := by
  cases hop : i.op with
  | markBackedUp pubkey email bound now =>
    rw [Drops, hop]
    refine iff_of_true (h.mono fun pubkey' e he => ?_) trivial
    rwa [(run_markBackedUp toLowerCase s hop).2] at he
  | forgetBackupRecord pubkey =>
    rw [Drops, hop]
    exact iff_of_true (h.mono fun _ => (run_forget toLowerCase s _ (.inl ⟨pubkey, hop⟩)).2) trivial
  | forgetAllBackupRecords =>
    rw [Drops, hop]
    exact iff_of_true (h.mono fun _ => (run_forget toLowerCase s _ (.inr hop)).2) trivial
  | recordEmailChange pubkey change now =>
    have halso := (run_recordEmailChange toLowerCase s hop).2
    rw [Drops, hop]
    have hreleases : ∀ e, Op.releases toLowerCase releases (.recordEmailChange pubkey change now) pubkey e =
        if e = normalize toLowerCase change.oldEmail then some change.release else releases pubkey e := by
      intro e
      rw [Op.releases, Function.update_self, Function.update_apply]
    constructor
    · intro hafter hrelease
      refine or_iff_not_imp_left.mpr fun hfailed hmem => ?_
      have hlisted := hafter pubkey (normalize toLowerCase change.oldEmail) (by rwa [halso, if_neg hfailed])
      rw [hreleases, if_pos rfl, hrelease] at hlisted
      exact hlisted rfl
    · intro hsafe pubkey' e he
      rcases eq_or_ne pubkey' pubkey with rfl | hne
      · rw [hreleases]
        rw [halso] at he
        split at he
        · rcases mem_alsoAfter.mp he with ⟨hmem, -, hne⟩ | ⟨rfl, hrelease, -⟩
          · rw [if_neg hne]
            exact h _ e hmem
          · rw [if_pos rfl]
            exact fun heq => hrelease (Option.some.inj heq)
        · rename_i hfailed
          split
          · rename_i heq
            subst heq
            exact fun hrelease => (hsafe (Option.some.inj hrelease)).elim hfailed fun hnot => hnot he
          · exact h _ e he
      · rw [(run_of_ne toLowerCase s (by rw [hop]; rfl) hne).2] at he
        rw [Op.releases, Function.update_of_ne hne]
        exact h _ e he

/-! ## Every history -/

variable {legacy : Option Json} {world : World}

theorem good_step (h : world.Good) :
    ((history toLowerCase legacy).step world i).1.Good ↔ Careful toLowerCase world.store i :=
  ⟨fun ⟨hvouched, hapart, hdropped⟩ =>
    ⟨(vouched_step h.vouched).mp hvouched, (apart_step h.apart).mp hapart, (dropped_step h.dropped).mp hdropped⟩,
    fun ⟨hheeded, hapart, hdrops⟩ =>
    ⟨(vouched_step h.vouched).mpr hheeded, (apart_step h.apart).mpr hapart, (dropped_step h.dropped).mpr hdrops⟩⟩

/-- Before anything is done only the old list is read, and it promises nothing. -/
theorem backupRecords_init : ∀ r ∈ backupRecords (history toLowerCase legacy).init.store pubkey, r = blank := by
  intro r hr
  rw [backupRecords_eq, Option.mem_def, history, Option.none_or] at hr
  split at hr
  · exact (Option.some.inj hr).symm
  · cases hr

theorem good_init : (history toLowerCase legacy).init.Good where
  vouched pubkey email hc := absurd hc (not_confirmedFor_of_blank backupRecords_init)
  apart pubkey e he := nofun
  dropped pubkey e he := by cases he

/-- What is written is vouched for, whatever fails. -/
theorem vouched_recorded (is : List Input) :
    Vouched ((history toLowerCase legacy).final is).store ((history toLowerCase legacy).final is).recorded := by
  refine Machine.invariant (P := fun _ (w : World) => Vouched w.store w.recorded) ?_ ?_ is
  · intro pubkey email hc
    exact absurd hc (not_confirmedFor_of_blank backupRecords_init)
  · intro _ w i h
    rw [history]
    dsimp only
    cases htake : i.recordsTake with
    | true =>
      obtain ⟨written, hwritten, hw⟩ := (Option.any_eq_true _ _).mp htake
      rw [Input.run_written hwritten, if_pos rfl]
      exact h.run hw
    | false =>
      rw [if_neg Bool.false_ne_true, vouched_congr (backupRecords_failed htake)]
      exact h

/-- **What a backup record promises.** A confirmed record always has the answer true as the last that was
written for its email, and an operation leaves the other accounts as they are. That it promises no more than
was heard, and that the list of the others has neither its own email nor one that was released, holds all
along a history exactly if each of its steps is careful. -/
theorem record_promises_iff (legacy : Option Json) (is : List Input) :
    let m := history toLowerCase legacy
    Vouched (m.final is).store (m.final is).recorded ∧
      (∀ i pubkey pubkey', i.op.account = some pubkey → pubkey' ≠ pubkey →
        let s := (m.final is).store
        let s' := (m.final (is ++ [i])).store
        backupRecord s' pubkey' = backupRecord s pubkey' ∧ alsoOpens s' pubkey' = alsoOpens s pubkey') ∧
      ((∀ is', is' <+: is → (m.final is').Good) ↔
        ∀ is' i, is' ++ [i] <+: is → Careful toLowerCase (m.final is').store i) := by
  refine ⟨vouched_recorded is, fun i pubkey pubkey' haccount hne => ?_,
    Machine.along_iff good_init good_step⟩
  obtain ⟨hrecords, halso⟩ := run_of_ne toLowerCase ((history toLowerCase legacy).final is).store haccount hne
  rw [Machine.final_concat]
  exact ⟨by rw [backupRecord, backupRecord, ← hrecords]; rfl, halso⟩

namespace Demo

def everything : Written := ⟨true, true, true⟩

/-- The email is changed, and the account is opened again with the old one. -/
def changedBack : List Input :=
  [⟨.recordEmailChange "GA" ⟨"a@example.com", "b@example.com", some true, .unknown⟩ 1, some everything⟩,
    ⟨.markBackedUp "GA" (some "a@example.com") (some true) 2, some everything⟩]

end Demo

/-- **A record that is marked again with an old email has that email as another one too.** -/
theorem listed_beside_itself :
    ¬((history Sponsor.toLowerCase none).final Demo.changedBack).Good := by
  intro h
  exact h.apart "GA" "a@example.com" (by decide +kernel) (by decide +kernel)

end Lumenia.Web.Backup
