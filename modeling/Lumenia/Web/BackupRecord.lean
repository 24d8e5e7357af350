import Lumenia.Sponsor.DayKeys
import Lumenia.Theory.Json
import Lumenia.Theory.Machine

/-!
# What a browser knows about each backup

`lib/backup-record.ts`. An entry of the storage is kept as what is read from it; the list of the first
version may hold any JSON, and each write may fail. Records are kept by addresses, so that no property
every object has is among their names.
-/

namespace Lumenia.Web.Backup

structure BackupRecord where
  email : Option String
  /-- `at` -/
  moment : ℕ
  bound : Option Bool
  deriving DecidableEq

/-- The three entries. -/
structure Storage where
  /-- `lumenia.backedup`: nothing if there is none, or no JSON. -/
  legacy : Option Json
  /-- `lumenia.backups` -/
  records : String → Option BackupRecord
  /-- `lumenia.backups.also` -/
  also : String → List String

/-- Which writes take. -/
structure Written where
  records : Bool
  legacy : Bool
  also : Bool

def legacyAccounts : Option Json → List String
  | some (.arr elements) => elements.filterMap Json.string?
  | _ => []

/-- Every account's record, the legacy list included. -/
def backupRecords (s : Storage) (pubkey : String) : Option BackupRecord :=
  (s.records pubkey).or (if pubkey ∈ legacyAccounts s.legacy then some ⟨none, 0, none⟩ else none)

def backupRecord (s : Storage) (pubkey : String) : Option BackupRecord :=
  if pubkey = "" then none else backupRecords s pubkey

def isConfirmedBackup (s : Storage) (pubkey : String) : Bool :=
  (backupRecord s pubkey).any (·.bound = some true)

def alsoOpens (s : Storage) (pubkey : String) : List String := s.also pubkey

def setAlsoOpens (w : Written) (pubkey : String) (emails : List String) (s : Storage) : Storage :=
  if w.also then { s with also := Function.update s.also pubkey emails } else s

/-- The email that the record names from then on. -/
def keepEmail (before : Option BackupRecord) (email : Option String) : Option String :=
  email.or (before.bind BackupRecord.email)

/-- What the server said, or said earlier of the same email. -/
def keepBound (before : Option BackupRecord) (email : Option String) (bound : Option Bool) : Option Bool :=
  bound.or (before.bind fun r => if r.email = email then r.bound else none)

inductive Release
  | released
  | notYours
  | unknown
  deriving DecidableEq

structure EmailChange where
  oldEmail : String
  newEmail : String
  bound : Option Bool
  release : Release

section

variable (toLowerCase : String → String)

def normalize (email : String) : String := toLowerCase (Sponsor.trim email)

def markBackedUp (w : Written) (pubkey : String) (email : Option String) (bound : Option Bool) (now : ℕ)
    (s : Storage) : Storage :=
  let before := backupRecords s pubkey
  let email := keepEmail before (email.map (normalize toLowerCase))
  if w.records then
    { s with
      records := Function.update (backupRecords s) pubkey (some ⟨email, now, keepBound before email bound⟩) }
  else s

/-- Written whole: the answer belongs to the new email. -/
def recordEmailChange (w : Written) (pubkey : String) (change : EmailChange) (now : ℕ) (s : Storage) :
    Storage :=
  let oldNorm := normalize toLowerCase change.oldEmail
  let newNorm := normalize toLowerCase change.newEmail
  let s :=
    if w.records then
      { s with
        records := Function.update (backupRecords s) pubkey (some ⟨some newNorm, now, change.bound⟩) }
    else s
  let also := (alsoOpens s pubkey).filter fun e => e ≠ newNorm ∧ e ≠ oldNorm
  setAlsoOpens w pubkey
    (if change.release ≠ .released ∧ oldNorm ≠ newNorm then also ++ [oldNorm] else also) s

end

/-- The legacy list without an account. -/
def withoutAccount (pubkey : String) : Option Json → Option Json
  | some (.arr elements) => some (.arr (elements.filter fun e => e.string? ≠ some pubkey))
  | legacy => legacy

/-- The two lists without an account; the old one is written only if the account is on it. -/
def forgetRecord (w : Written) (pubkey : String) (s : Storage) : Storage :=
  if w.records then
    let s := { s with records := Function.update (backupRecords s) pubkey none }
    if pubkey ∈ legacyAccounts s.legacy ∧ w.legacy = true then
      { s with legacy := withoutAccount pubkey s.legacy }
    else s
  else s

def forgetBackupRecord (w : Written) (pubkey : String) (s : Storage) : Storage :=
  setAlsoOpens w pubkey [] (forgetRecord w pubkey s)

def forgetAllBackupRecords (w : Written) (s : Storage) : Storage :=
  if w.records then
    let s := { s with records := fun _ => none }
    if w.legacy then
      let s := { s with legacy := none }
      if w.also then { s with also := fun _ => [] } else s
    else s
  else s

/-! ## What each operation leaves -/

variable {toLowerCase : String → String} {s : Storage} {w : Written} {pubkey pubkey' : String}
  {email : Option String} {bound : Option Bool} {now : ℕ} {change : EmailChange}

/-- An account of the old list, and nothing more. -/
def blank : BackupRecord := ⟨none, 0, none⟩

theorem backupRecords_eq :
    backupRecords s pubkey = (s.records pubkey).or (if pubkey ∈ legacyAccounts s.legacy then some blank else none) :=
  rfl

/-- The old list is folded in on every write, which changes nothing that is read. -/
theorem backupRecords_fold {s' : Storage} (hrecords : s'.records pubkey = backupRecords s pubkey)
    (hlegacy : pubkey ∈ legacyAccounts s'.legacy → pubkey ∈ legacyAccounts s.legacy) :
    backupRecords s' pubkey = backupRecords s pubkey := by
  rw [backupRecords_eq, hrecords, backupRecords_eq, Option.or_assoc]
  congr 1
  split_ifs with hold hlisted hlisted
  · rfl
  · rfl
  · exact absurd (hlegacy hlisted) hold
  · rfl

theorem backupRecords_update {record : BackupRecord} :
    backupRecords { s with records := Function.update (backupRecords s) pubkey (some record) } =
      Function.update (backupRecords s) pubkey (some record) := by
  funext pubkey'
  rcases eq_or_ne pubkey' pubkey with rfl | hne
  · rw [Function.update_self, backupRecords_eq]
    dsimp only
    rw [Function.update_self, Option.some_or]
  · rw [Function.update_of_ne hne]
    exact backupRecords_fold (Function.update_of_ne hne ..) id

theorem markBackedUp_records (h : w.records = true) :
    backupRecords (markBackedUp toLowerCase w pubkey email bound now s) =
      Function.update (backupRecords s) pubkey
        (let email := keepEmail (backupRecords s pubkey) (email.map (normalize toLowerCase))
        some ⟨email, now, keepBound (backupRecords s pubkey) email bound⟩) := by
  rw [markBackedUp, if_pos h]
  exact backupRecords_update

theorem markBackedUp_failed (h : w.records = false) :
    markBackedUp toLowerCase w pubkey email bound now s = s := by
  rw [markBackedUp, if_neg (by rw [h]; exact Bool.false_ne_true)]

@[simp] theorem alsoOpens_markBackedUp :
    alsoOpens (markBackedUp toLowerCase w pubkey email bound now s) = alsoOpens s := by
  rw [markBackedUp]
  split <;> rfl

@[simp] theorem backupRecords_setAlsoOpens {emails : List String} :
    backupRecords (setAlsoOpens w pubkey emails s) = backupRecords s := by
  rw [setAlsoOpens]
  split <;> rfl

theorem alsoOpens_setAlsoOpens {emails : List String} :
    alsoOpens (setAlsoOpens w pubkey emails s) =
      if w.also then Function.update (alsoOpens s) pubkey emails else alsoOpens s := by
  rw [setAlsoOpens]
  split <;> rfl

theorem recordEmailChange_records :
    backupRecords (recordEmailChange toLowerCase w pubkey change now s) =
      if w.records then
        Function.update (backupRecords s) pubkey
          (some ⟨some (normalize toLowerCase change.newEmail), now, change.bound⟩)
      else backupRecords s := by
  rw [recordEmailChange, backupRecords_setAlsoOpens]
  split
  · exact backupRecords_update
  · rfl

/-- The other emails after a change. -/
def alsoAfter (toLowerCase : String → String) (s : Storage) (pubkey : String) (change : EmailChange) :
    List String :=
  let oldNorm := normalize toLowerCase change.oldEmail
  let newNorm := normalize toLowerCase change.newEmail
  let also := (alsoOpens s pubkey).filter fun e => e ≠ newNorm ∧ e ≠ oldNorm
  if change.release ≠ .released ∧ oldNorm ≠ newNorm then also ++ [oldNorm] else also

theorem alsoOpens_recordEmailChange :
    alsoOpens (recordEmailChange toLowerCase w pubkey change now s) =
      if w.also then Function.update (alsoOpens s) pubkey (alsoAfter toLowerCase s pubkey change)
      else alsoOpens s := by
  rw [recordEmailChange, alsoOpens_setAlsoOpens]
  cases w.records <;> rfl

theorem mem_alsoAfter {e : String} :
    e ∈ alsoAfter toLowerCase s pubkey change ↔
      (e ∈ alsoOpens s pubkey ∧ e ≠ normalize toLowerCase change.newEmail ∧
          e ≠ normalize toLowerCase change.oldEmail) ∨
        e = normalize toLowerCase change.oldEmail ∧ change.release ≠ .released ∧
          normalize toLowerCase change.oldEmail ≠ normalize toLowerCase change.newEmail := by
  rw [alsoAfter]
  split
  · rename_i hkept
    rw [List.mem_append, List.mem_filter, List.mem_singleton, decide_eq_true_eq, and_iff_left hkept]
  · rename_i hdropped
    rw [List.mem_filter, decide_eq_true_eq]
    exact ⟨.inl, fun h => h.resolve_right fun h => hdropped h.2⟩

theorem mem_withoutAccount {legacy : Option Json} :
    pubkey' ∈ legacyAccounts (withoutAccount pubkey legacy) ↔
      pubkey' ≠ pubkey ∧ pubkey' ∈ legacyAccounts legacy := by
  rcases legacy with _ | (_ | _ | _ | _ | elements | _)
  case some.arr =>
    rw [withoutAccount, legacyAccounts, legacyAccounts, List.mem_filterMap, List.mem_filterMap]
    constructor
    · rintro ⟨j, hj, hread⟩
      obtain ⟨hmem, hne⟩ := List.mem_filter.mp hj
      refine ⟨?_, j, hmem, hread⟩
      rintro rfl
      exact of_decide_eq_true hne hread
    · rintro ⟨hne, j, hmem, hread⟩
      refine ⟨j, List.mem_filter.mpr ⟨hmem, decide_eq_true fun h => ?_⟩, hread⟩
      exact hne (Option.some.inj (hread.symm.trans h))
  all_goals exact ⟨fun h => (List.not_mem_nil h).elim, fun h => (List.not_mem_nil h.2).elim⟩

theorem forgetRecord_failed (h : w.records = false) : forgetRecord w pubkey s = s := by
  rw [forgetRecord, if_neg (by rw [h]; exact Bool.false_ne_true)]

variable (s pubkey) in
/-- What is left in the two lists. -/
theorem forgetRecord_written (h : w.records = true) :
    (forgetRecord w pubkey s).records = Function.update (backupRecords s) pubkey none ∧
      ((forgetRecord w pubkey s).legacy = s.legacy ∨
        (forgetRecord w pubkey s).legacy = withoutAccount pubkey s.legacy) := by
  rw [forgetRecord, if_pos h]
  dsimp only
  split
  · exact ⟨rfl, .inr rfl⟩
  · exact ⟨rfl, .inl rfl⟩

theorem alsoOpens_forgetRecord : alsoOpens (forgetRecord w pubkey s) = alsoOpens s := by
  rw [forgetRecord]
  split
  · dsimp only
    split <;> rfl
  · rfl

theorem alsoOpens_forgetBackupRecord :
    alsoOpens (forgetBackupRecord w pubkey s) =
      if w.also then Function.update (alsoOpens s) pubkey [] else alsoOpens s := by
  rw [forgetBackupRecord, alsoOpens_setAlsoOpens, alsoOpens_forgetRecord]

theorem forgetBackupRecord_failed (h : w.records = false) :
    backupRecords (forgetBackupRecord w pubkey s) = backupRecords s := by
  rw [forgetBackupRecord, backupRecords_setAlsoOpens, forgetRecord_failed h]

/-- At most what the old list has is left. -/
theorem forgetBackupRecord_self (h : w.records = true) :
    ∀ r ∈ backupRecords (forgetBackupRecord w pubkey s) pubkey, r = blank := by
  intro r hr
  rw [forgetBackupRecord, backupRecords_setAlsoOpens, backupRecords_eq, (forgetRecord_written s pubkey h).1,
    Function.update_self, Option.none_or, Option.mem_def] at hr
  split at hr
  · exact (Option.some.inj hr).symm
  · cases hr

theorem forgetBackupRecord_of_ne (hne : pubkey' ≠ pubkey) :
    backupRecords (forgetBackupRecord w pubkey s) pubkey' = backupRecords s pubkey' := by
  cases h : w.records with
  | false => rw [forgetBackupRecord_failed h]
  | true =>
    obtain ⟨hrecords, hlegacy⟩ := forgetRecord_written s pubkey h
    rw [forgetBackupRecord, backupRecords_setAlsoOpens]
    refine backupRecords_fold (by rw [hrecords, Function.update_of_ne hne]) fun hmem => ?_
    rcases hlegacy with hsame | hwithout
    · rwa [hsame] at hmem
    · rw [hwithout] at hmem
      exact (mem_withoutAccount.mp hmem).2

theorem forgetAllBackupRecords_failed (h : w.records = false) : forgetAllBackupRecords w s = s := by
  rw [forgetAllBackupRecords, if_neg (by rw [h]; exact Bool.false_ne_true)]

theorem forgetAllBackupRecords_written (h : w.records = true) :
    ∀ r ∈ backupRecords (forgetAllBackupRecords w s) pubkey, r = blank := by
  intro r hr
  have hnone : (forgetAllBackupRecords w s).records pubkey = none := by
    rw [forgetAllBackupRecords, if_pos h]
    dsimp only
    split
    · split <;> rfl
    · rfl
  rw [backupRecords_eq, hnone, Option.none_or, Option.mem_def] at hr
  split at hr
  · exact (Option.some.inj hr).symm
  · cases hr

/-- Nothing is added to a list of others. -/
theorem alsoOpens_forgetAllBackupRecords {e : String}
    (h : e ∈ alsoOpens (forgetAllBackupRecords w s) pubkey) : e ∈ alsoOpens s pubkey := by
  rw [forgetAllBackupRecords] at h
  dsimp only at h
  split at h
  · split at h
    · split at h
      · cases h
      · exact h
    · exact h
  · exact h

end Lumenia.Web.Backup
