import Mathlib.Order.Basic
import Mathlib.Data.Int.Notation
import Mathlib.Data.Nat.Notation

/-!
# The keys of a day

The key builders of `apps/sponsor/src/lib/caps.ts`, and why no two kinds of key can meet in the
store: a UTC date is spelled with ten characters whatever the date, so the parts of a key are found
again from its spelling.
-/

namespace Lumenia.Sponsor

/-! ## Strings and dates of the platform -/

/-- The characters `String.prototype.trim` takes off. -/
def isSpace (c : Char) : Bool :=
  c.toNat ∈ [0x9, 0xA, 0xB, 0xC, 0xD, 0x20, 0xA0, 0x1680, 0x2028, 0x2029, 0x202F, 0x205F, 0x3000,
    0xFEFF] || 0x2000 ≤ c.toNat && c.toNat ≤ 0x200A

@[irreducible] def trim (s : String) : String :=
  .ofList ((s.toList.dropWhile isSpace).reverse.dropWhile isSpace).reverse

/-- `toLowerCase`, on the Latin-1 text a request header can hold. -/
def toLowerCase (s : String) : String :=
  .ofList <| s.toList.map fun c =>
    if c.isUpper || 0xC0 ≤ c.toNat && c.toNat ≤ 0xDE && c.toNat ≠ 0xD7 then .ofNat (c.toNat + 32)
    else c

/-- `s.padStart(n, "0")` -/
def padStart (s : String) (n : ℕ) : String := .ofList (s.toList.leftpad n '0')

/-- `Date.now()`: milliseconds since the epoch, in the range a `Date` has. -/
abbrev Instant := { ms : ℤ // -8640000000000000 ≤ ms ∧ ms ≤ 8640000000000000 }

/-- Year, month and day of a day of the proleptic Gregorian calendar, counted from the epoch. -/
def civil (days : ℤ) : ℤ × ℕ × ℕ :=
  -- The calendar repeats every 400 years; years are taken to begin on the first of March.
  let z := days + 719468
  let dayOfEra := (z % 146097).toNat
  let yearOfEra := (dayOfEra - dayOfEra / 1460 + dayOfEra / 36524 - dayOfEra / 146096) / 365
  let dayOfYear := dayOfEra - (365 * yearOfEra + yearOfEra / 4 - yearOfEra / 100)
  let month := (5 * dayOfYear + 2) / 153
  let year := z / 146097 * 400 + yearOfEra
  let day := dayOfYear - (153 * month + 2) / 5 + 1
  if month < 10 then (year, month + 3, day) else (year + 1, month - 9, day)

/-- The date part of `toISOString`: four digits for the year, or a sign and six. -/
def isoDate (now : Instant) : String :=
  let (year, month, day) := civil (now.val / 86400000)
  (if 0 ≤ year ∧ year ≤ 9999 then padStart (toString year.toNat) 4
    else (if 0 ≤ year then "+" else "-") ++ padStart (toString year.natAbs) 6)
    ++ ("-" ++ padStart (toString month) 2 ++ ("-" ++ padStart (toString day) 2))

/-- The UTC date a counter belongs to, as every key here spells it. -/
def utcDay (now : Instant) : String := .ofList ((isoDate now).toList.take 10)

def Demo.noon : Instant := ⟨1790856000000, by decide⟩

example : utcDay Demo.noon = "2026-10-01" := by decide

theorem le_length_padStart {s : String} {n : ℕ} : n ≤ (padStart s n).length := by
  rw [padStart, String.length_ofList, List.leftpad, List.length_append, List.length_replicate]
  omega

theorem le_length_isoDate {now : Instant} : 10 ≤ (isoDate now).length := by
  unfold isoDate
  obtain ⟨year, month, day⟩ := civil (now.val / 86400000)
  have hyear := le_length_padStart (s := toString year.toNat) (n := 4)
  have hlong := le_length_padStart (s := toString year.natAbs) (n := 6)
  have hmonth := le_length_padStart (s := toString month) (n := 2)
  have hday := le_length_padStart (s := toString day) (n := 2)
  have hdash : "-".length = 1 := rfl
  simp only [String.length_append, hdash]
  split
  · omega
  · rw [String.length_append]
    omega

theorem length_utcDay {now : Instant} : (utcDay now).length = 10 := by
  rw [utcDay, String.length_ofList, List.length_take, String.length_toList]
  exact Nat.min_eq_left le_length_isoDate

/-! ## The keys -/

/-- The network the process serves, and whether it has a store (`kvConfigFromEnv`). -/
structure Env where
  network : String
  kv : Bool

def Demo.testnet : Env := ⟨"testnet", true⟩

/-- Collapse an address to the unit an operator controls: an IPv6 address to its /64. -/
def ipBucket (ip : String) : String :=
  if ':' ∉ ip.toList then ip
  else
    let addr := toLowerCase ((ip.splitOn "%").headD "")
    let (head, tail) := match addr.splitOn "::" with
      | head :: tail :: _ => (head, tail)
      | _ => (addr, "")
    let groups := fun s : String => (s.splitOn ":").filter (· ≠ "")
    let missing := 8 - (groups head).length - (groups tail).length
    let full := groups head ++ List.replicate missing "0" ++ groups tail
    ":".intercalate (full.take 4) ++ "::/64"

/-- The caller a source address stands for; a request without one shares a bucket. -/
def caller (source : String) : String :=
  ipBucket (if trim source ≠ "" then trim source else "unknown")

section

variable (env : Env) (now : Instant)

def dayKey : String := "caps:" ++ env.network ++ ":day:" ++ utcDay now

def senderDayKey (senderPublicKey : String) : String :=
  "caps:" ++ env.network ++ ":day:" ++ utcDay now ++ ":sender:" ++ senderPublicKey

def accountDayKey : String := "caps:" ++ env.network ++ ":accounts:" ++ utcDay now

def accountSourceDayKey (source : String) : String :=
  "caps:" ++ env.network ++ ":accounts:" ++ utcDay now ++ ":src:" ++ caller source

def accountPubkeyDayKey (recipientPublicKey : String) : String :=
  "caps:" ++ env.network ++ ":accounts:" ++ utcDay now ++ ":pk:" ++ recipientPublicKey

def accountRepeatDayKey (recipientPublicKey source : String) : String :=
  "caps:" ++ env.network ++ ":accounts:" ++ utcDay now ++ ":rep:" ++ recipientPublicKey ++ ":" ++
    caller source

end

/-! ## Keys of different kinds differ -/

variable {env : Env} {now now' : Instant} {p p' source s t : String}

/-- A date can be told from what follows it. -/
theorem utcDay_append_inj (h : utcDay now ++ s = utcDay now' ++ t) :
    utcDay now = utcDay now' ∧ s = t := by
  have hlist := congrArg String.toList h
  rw [String.toList_append, String.toList_append] at hlist
  have hlen : (utcDay now).toList.length = (utcDay now').toList.length := by
    rw [String.length_toList, String.length_toList, length_utcDay, length_utcDay]
  obtain ⟨hday, hrest⟩ := List.append_inj hlist hlen
  exact ⟨String.toList_inj.mp hday, String.toList_inj.mp hrest⟩

theorem append_left_inj' {a : String} : a ++ s = a ++ t ↔ s = t := by
  rw [← String.toList_inj, String.toList_append, String.toList_append, List.append_cancel_left_eq,
    String.toList_inj]

theorem dayKey_inj : dayKey env now = dayKey env now' ↔ utcDay now = utcDay now' := append_left_inj'

theorem senderDayKey_inj (h : senderDayKey env now p = senderDayKey env now' p') :
    utcDay now = utcDay now' ∧ p = p' := by
  unfold senderDayKey at h
  simp only [String.append_assoc, append_left_inj'] at h
  obtain ⟨hday, hrest⟩ := utcDay_append_inj h
  exact ⟨hday, append_left_inj'.mp hrest⟩

theorem dayKey_ne_senderDayKey : dayKey env now ≠ senderDayKey env now' p := by
  intro h
  have hlen := congrArg String.length h
  have hsender : ":sender:".length = 8 := rfl
  simp only [dayKey, senderDayKey, String.length_append, length_utcDay, hsender] at hlen
  omega

theorem accountDayKey_inj : accountDayKey env now = accountDayKey env now' ↔ utcDay now = utcDay now' :=
  append_left_inj'

/-- The marker of a recipient key. -/
def IsMarker (env : Env) (key : String) : Prop := ∃ now p, key = accountPubkeyDayKey env now p

theorem accountPubkeyDayKey_inj
    (h : accountPubkeyDayKey env now p = accountPubkeyDayKey env now' p') :
    utcDay now = utcDay now' ∧ p = p' := by
  unfold accountPubkeyDayKey at h
  simp only [String.append_assoc, append_left_inj'] at h
  obtain ⟨hday, hrest⟩ := utcDay_append_inj h
  exact ⟨hday, append_left_inj'.mp hrest⟩

theorem not_isMarker_accountDayKey : ¬IsMarker env (accountDayKey env now) := by
  rintro ⟨now', p, h⟩
  have hlen := congrArg String.length h
  have hpk : ":pk:".length = 4 := rfl
  simp only [accountDayKey, accountPubkeyDayKey, String.length_append, length_utcDay, hpk] at hlen
  omega

theorem not_isMarker_accountSourceDayKey : ¬IsMarker env (accountSourceDayKey env now source) := by
  rintro ⟨now', p, h⟩
  unfold accountSourceDayKey accountPubkeyDayKey at h
  simp only [String.append_assoc, append_left_inj'] at h
  have hrest := congrArg String.toList (utcDay_append_inj h).2
  simp [String.toList_append] at hrest

theorem not_isMarker_accountRepeatDayKey :
    ¬IsMarker env (accountRepeatDayKey env now p source) := by
  rintro ⟨now', p', h⟩
  unfold accountRepeatDayKey accountPubkeyDayKey at h
  simp only [String.append_assoc, append_left_inj'] at h
  have hrest := congrArg String.toList (utcDay_append_inj h).2
  simp [String.toList_append] at hrest

theorem accountDayKey_ne_accountSourceDayKey :
    accountDayKey env now ≠ accountSourceDayKey env now' source := by
  intro h
  have hlen := congrArg String.length h
  have hsrc : ":src:".length = 5 := rfl
  simp only [accountDayKey, accountSourceDayKey, String.length_append, length_utcDay, hsrc] at hlen
  omega

theorem accountDayKey_ne_accountRepeatDayKey :
    accountDayKey env now ≠ accountRepeatDayKey env now' p source := by
  intro h
  have hlen := congrArg String.length h
  have hrep : ":rep:".length = 5 := rfl
  simp only [accountDayKey, accountRepeatDayKey, String.length_append, length_utcDay, hrep] at hlen
  omega

theorem accountSourceDayKey_ne_accountRepeatDayKey :
    accountSourceDayKey env now s ≠ accountRepeatDayKey env now' p source := by
  intro h
  unfold accountSourceDayKey accountRepeatDayKey at h
  simp only [String.append_assoc, append_left_inj'] at h
  have hrest := congrArg String.toList (utcDay_append_inj h).2
  simp [String.toList_append] at hrest

end Lumenia.Sponsor
