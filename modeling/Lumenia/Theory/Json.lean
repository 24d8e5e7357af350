import Mathlib.Data.List.Basic
import Mathlib.Data.Nat.Basic

/-!
# JSON texts

`Json.parse` accepts the grammar of `JSON.parse`, and `Json.stringify` writes a flat object as
`JSON.stringify` does: `parse_stringify` reads it back. Strings are Unicode texts, so half of a
surrogate pair, which only an escape can write, is read as a replacement character.
-/

namespace Lumenia

/-- A number keeps its numeral; of two members with one name the last counts. -/
inductive Json
  | null
  | bool (b : Bool)
  | num (numeral : String)
  | str (s : String)
  | arr (elements : List Json)
  | obj (members : List (String × Json))

namespace Json

/-! ## Reading -/

def isWhitespace (c : Char) : Bool := c = ' ' || c = '\t' || c = '\n' || c = '\r'

def skipWhitespace (cs : List Char) : List Char := cs.dropWhile isWhitespace

def hexValue (c : Char) : Option ℕ :=
  if '0' ≤ c ∧ c ≤ '9' then some (c.toNat - 48)
  else if 'a' ≤ c ∧ c ≤ 'f' then some (c.toNat - 87)
  else if 'A' ≤ c ∧ c ≤ 'F' then some (c.toNat - 55)
  else none

/-- A part of a string: a character, or a half of a surrogate pair. -/
inductive Part
  | char (c : Char)
  | surrogate (unit : ℕ)

def Part.ofUnit (n : ℕ) : Part :=
  if 0xD800 ≤ n ∧ n ≤ 0xDFFF then surrogate n else char (Char.ofNat n)

def hexUnit (a b c d : Char) : Option ℕ := do
  return 4096 * (← hexValue a) + 256 * (← hexValue b) + 16 * (← hexValue c) + (← hexValue d)

def unescape : Char → Option Char
  | '"' => some '"'
  | '\\' => some '\\'
  | '/' => some '/'
  | 'b' => some (Char.ofNat 8)
  | 'f' => some (Char.ofNat 12)
  | 'n' => some '\n'
  | 'r' => some '\r'
  | 't' => some '\t'
  | _ => none

/-- The parts up to the closing quote, and what follows it. -/
def readParts : List Char → Option (List Part × List Char)
  | [] => none
  | '"' :: cs => some ([], cs)
  | '\\' :: 'u' :: a :: b :: c :: d :: cs => do
    let n ← hexUnit a b c d
    let (parts, rest) ← readParts cs
    return (.ofUnit n :: parts, rest)
  | '\\' :: c :: cs => do
    let c ← unescape c
    let (parts, rest) ← readParts cs
    return (.char c :: parts, rest)
  | c :: cs =>
    if c = '\\' ∨ c.toNat < 32 then none
    else do
      let (parts, rest) ← readParts cs
      return (.char c :: parts, rest)

/-- The two halves of a surrogate pair are one character. -/
def joinParts : List Part → List Char
  | [] => []
  | .char c :: parts => c :: joinParts parts
  | .surrogate high :: .surrogate low :: parts =>
    if high < 0xDC00 ∧ 0xDC00 ≤ low then
      Char.ofNat (0x10000 + (high - 0xD800) * 1024 + (low - 0xDC00)) :: joinParts parts
    else Char.ofNat 0xFFFD :: joinParts (.surrogate low :: parts)
  | .surrogate _ :: parts => Char.ofNat 0xFFFD :: joinParts parts

def readString (cs : List Char) : Option (String × List Char) :=
  (readParts cs).map fun (parts, rest) => (String.ofList (joinParts parts), rest)

/-- Nothing, or a fraction. -/
def readFraction : List Char → Option (List Char × List Char)
  | '.' :: cs =>
    let digits := cs.takeWhile Char.isDigit
    if digits = [] then none else some ('.' :: digits, cs.dropWhile Char.isDigit)
  | cs => some ([], cs)

/-- Nothing, or an exponent. -/
def readExponent : List Char → Option (List Char × List Char)
  | [] => some ([], [])
  | e :: cs =>
    if e = 'e' ∨ e = 'E' then
      let (sign, cs) := match cs with
        | '+' :: cs => (['+'], cs)
        | '-' :: cs => (['-'], cs)
        | cs => ([], cs)
      let digits := cs.takeWhile Char.isDigit
      if digits = [] then none else some (e :: sign ++ digits, cs.dropWhile Char.isDigit)
    else some ([], e :: cs)

/-- Digits, the first of them a zero only where it is alone. -/
def readWhole : List Char → Option (List Char × List Char)
  | '0' :: cs => some (['0'], cs)
  | cs =>
    let digits := cs.takeWhile Char.isDigit
    if digits = [] then none else some (digits, cs.dropWhile Char.isDigit)

def readNumber (cs : List Char) : Option (Json × List Char) := do
  let (sign, cs) := match cs with
    | '-' :: cs => (['-'], cs)
    | cs => ([], cs)
  let (whole, cs) ← readWhole cs
  let (fraction, cs) ← readFraction cs
  let (exponent, cs) ← readExponent cs
  return (.num (String.ofList (sign ++ whole ++ fraction ++ exponent)), cs)

/-- One of the three words, or a number. -/
def readScalar : List Char → Option (Json × List Char)
  | 't' :: 'r' :: 'u' :: 'e' :: cs => some (.bool true, cs)
  | 'f' :: 'a' :: 'l' :: 's' :: 'e' :: cs => some (.bool false, cs)
  | 'n' :: 'u' :: 'l' :: 'l' :: cs => some (.null, cs)
  | cs => readNumber cs

mutual

/-- One value, and what follows it. -/
def readValue : ℕ → List Char → Option (Json × List Char)
  | 0, _ => none
  | fuel + 1, cs =>
    match skipWhitespace cs with
    | '"' :: cs => (readString cs).map fun (s, rest) => (.str s, rest)
    | '[' :: cs =>
      match skipWhitespace cs with
      | ']' :: rest => some (.arr [], rest)
      | cs => (readElements fuel cs).map fun (elements, rest) => (.arr elements, rest)
    | '{' :: cs =>
      match skipWhitespace cs with
      | '}' :: rest => some (.obj [], rest)
      | cs => (readMembers fuel cs).map fun (members, rest) => (.obj members, rest)
    | cs => readScalar cs

def readElements : ℕ → List Char → Option (List Json × List Char)
  | 0, _ => none
  | fuel + 1, cs => do
    let (element, cs) ← readValue fuel cs
    match skipWhitespace cs with
    | ',' :: cs => (readElements fuel cs).map fun (elements, rest) => (element :: elements, rest)
    | ']' :: rest => some ([element], rest)
    | _ => none

def readMembers : ℕ → List Char → Option (List (String × Json) × List Char)
  | 0, _ => none
  | fuel + 1, cs =>
    match skipWhitespace cs with
    | '"' :: cs => do
      let (name, cs) ← readString cs
      match skipWhitespace cs with
      | ':' :: cs => do
        let (value, cs) ← readValue fuel cs
        match skipWhitespace cs with
        | ',' :: cs =>
          (readMembers fuel cs).map fun (members, rest) => ((name, value) :: members, rest)
        | '}' :: rest => some ([(name, value)], rest)
        | _ => none
      | _ => none
    | _ => none

end

/-- `JSON.parse`: at most two steps for each character. -/
def parse (text : String) : Option Json :=
  match readValue (2 * text.toList.length + 2) text.toList with
  | some (j, rest) => if skipWhitespace rest = [] then some j else none
  | none => none

/-- A property; reading one of `null` throws. -/
def property (name : String) : Json → Except Unit (Option Json)
  | null => .error ()
  | obj members => .ok ((members.reverse.find? fun m => m.1 = name).map Prod.snd)
  | _ => .ok none

def string? : Json → Option String
  | str s => some s
  | _ => none

/-! ## Writing -/

/-- The lower-case digit. -/
def hexDigit (n : ℕ) : Char := Char.ofNat (if n < 10 then 48 + n else 87 + n)

def escape (c : Char) : List Char :=
  if c = '"' then ['\\', '"']
  else if c = '\\' then ['\\', '\\']
  else if c = Char.ofNat 8 then ['\\', 'b']
  else if c = Char.ofNat 12 then ['\\', 'f']
  else if c = '\n' then ['\\', 'n']
  else if c = '\r' then ['\\', 'r']
  else if c = '\t' then ['\\', 't']
  else if c.toNat < 32 then ['\\', 'u', '0', '0', hexDigit (c.toNat / 16), hexDigit (c.toNat % 16)]
  else [c]

def quote (s : String) : List Char := '"' :: (s.toList.flatMap escape ++ ['"'])

/-- A member of a flat object. -/
inductive Scalar
  | str (s : String)
  | bool (b : Bool)
  | nat (n : ℕ)
  deriving DecidableEq

def Scalar.toJson : Scalar → Json
  | str s => .str s
  | bool b => .bool b
  | nat n => .num (toString n)

def Scalar.write : Scalar → List Char
  | str s => quote s
  | bool true => "true".toList
  | bool false => "false".toList
  | nat n => (toString n).toList

def writeMember (m : String × Scalar) : List Char := quote m.1 ++ ':' :: m.2.write

def writeMembers : List (String × Scalar) → List Char
  | [] => []
  | [m] => writeMember m
  | m :: ms => writeMember m ++ ',' :: writeMembers ms

/-- `JSON.stringify` of a flat object. -/
def stringify (members : List (String × Scalar)) : String :=
  String.ofList ('{' :: (writeMembers members ++ ['}']))

/-! ## The round trip -/

section

variable {s : String} {rest : List Char} {c : Char}

@[simp] theorem joinParts_chars {cs : List Char} : joinParts (cs.map .char) = cs := by
  induction cs with
  | nil => rfl
  | cons c cs ih => rw [List.map_cons, joinParts, ih]

theorem hexValue_hexDigit {n : ℕ} (h : n < 16) : hexValue (hexDigit n) = some n := by
  revert n
  decide

theorem hexUnit_control (h : c.toNat < 32) :
    hexUnit '0' '0' (hexDigit (c.toNat / 16)) (hexDigit (c.toNat % 16)) = some c.toNat := by
  have hzero : hexValue '0' = some 0 := rfl
  rw [hexUnit, hzero, hexValue_hexDigit (by omega), hexValue_hexDigit (by omega)]
  simp only [Option.bind_eq_bind, Option.bind_some, Option.pure_def]
  congr 1
  omega

theorem ofUnit_control (h : c.toNat < 32) : Part.ofUnit c.toNat = .char c := by
  rw [Part.ofUnit, if_neg (by omega), Char.ofNat_toNat]

/-- An escaped character is read back. -/
theorem readParts_escape :
    readParts (escape c ++ rest) = (readParts rest).map fun p => (.char c :: p.1, p.2) := by
  have hbind : ∀ c', (readParts rest >>= fun p => some (Part.char c' :: p.1, p.2)) =
      (readParts rest).map fun p => (.char c' :: p.1, p.2) := fun c' => Option.map_eq_bind.symm
  unfold escape
  split_ifs with hquote hback hb hf hn hr ht hcontrol
  · subst hquote
    exact hbind _
  · subst hback
    exact hbind _
  · subst hb
    exact hbind _
  · subst hf
    exact hbind _
  · subst hn
    exact hbind _
  · subst hr
    exact hbind _
  · subst ht
    exact hbind _
  · simp only [List.cons_append, List.nil_append, readParts, hexUnit_control hcontrol,
      Option.bind_eq_bind, Option.bind_some, ofUnit_control hcontrol]
    exact hbind _
  · have hplain : ¬(c = '\\' ∨ c.toNat < 32) := by
      rintro (h | h)
      · exact hback h
      · exact hcontrol h
    rw [List.singleton_append, readParts.eq_def]
    split
    · simp_all
    · simp_all
    · simp_all
    · simp_all
    · rename_i heq
      cases heq
      rw [if_neg hplain]
      exact hbind _

theorem readParts_quote {cs : List Char} :
    readParts (cs.flatMap escape ++ '"' :: rest) = some (cs.map .char, rest) := by
  induction cs with
  | nil => rfl
  | cons c cs ih =>
    rw [List.flatMap_cons, List.append_assoc, readParts_escape, ih]
    rfl

/-- A quoted text is read back. -/
theorem readString_quote :
    readString (s.toList.flatMap escape ++ '"' :: rest) = some (s, rest) := by
  simp only [readString, readParts_quote, Option.map_some, joinParts_chars, String.ofList_toList]

theorem toList_toString {n : ℕ} : (toString n).toList = Nat.toDigits 10 n := by
  rw [Nat.toString_eq_repr, Nat.repr, String.toList_ofList]

theorem ne_zero_of_head_toDigits {n : ℕ} (hn : 0 < n) (h : c ∈ (Nat.toDigits 10 n).head?) :
    c ≠ '0' := by
  induction n using Nat.strong_induction_on generalizing c with
  | _ n ih =>
    rw [Nat.toDigits_eq_if (by decide)] at h
    split at h
    · rename_i hlt
      have hdigits : ∀ m < 10, 0 < m → Nat.digitChar m ≠ '0' := by decide
      rw [List.head?_singleton, Option.mem_some_iff] at h
      rw [← h]
      exact hdigits n hlt hn
    · rename_i hle
      have hne : Nat.toDigits 10 (n / 10) ≠ [] := Nat.toDigits_ne_nil
      rw [List.head?_append_of_ne_nil _ hne] at h
      exact ih (n / 10) (by omega) (by omega) h

/-- What follows a value of an object. -/
def Ends (rest : List Char) : Prop := rest.head? = some ',' ∨ rest.head? = some '}'

theorem readWhole_toString {n : ℕ} (hrest : ∀ c ∈ rest.head?, c.isDigit = false) :
    readWhole ((toString n).toList ++ rest) = some ((toString n).toList, rest) := by
  have hdigits : ∀ c ∈ Nat.toDigits 10 n, c.isDigit = true := fun c hc =>
    Nat.isDigit_of_mem_toDigits (by decide) (by decide) hc
  have hne : Nat.toDigits 10 n ≠ [] := Nat.toDigits_ne_nil
  have htake : rest.takeWhile Char.isDigit = [] ∧ rest.dropWhile Char.isDigit = rest := by
    cases rest with
    | nil => exact ⟨rfl, rfl⟩
    | cons c cs =>
      have hc := hrest c rfl
      simp [hc]
  rw [toList_toString]
  rcases Nat.eq_zero_or_pos n with rfl | hn
  · rfl
  · obtain ⟨c, cs, heq⟩ := List.exists_cons_of_ne_nil hne
    have hzero : c ≠ '0' := ne_zero_of_head_toDigits hn (by rw [heq]; rfl)
    have hread : readWhole (c :: cs ++ rest) =
        if (c :: cs ++ rest).takeWhile Char.isDigit = [] then none
        else some ((c :: cs ++ rest).takeWhile Char.isDigit, (c :: cs ++ rest).dropWhile Char.isDigit) := by
      rw [List.cons_append, readWhole]
      intro cs' h
      exact hzero (List.cons.inj h).1
    rw [heq] at hdigits ⊢
    rw [hread, List.takeWhile_append_of_pos hdigits, List.dropWhile_append_of_pos hdigits, htake.1,
      htake.2, List.append_nil, if_neg (List.cons_ne_nil c cs)]

theorem readNumber_toString {n : ℕ} (hrest : Ends rest) :
    readNumber ((toString n).toList ++ rest) = some (.num (toString n), rest) := by
  have hsign : ∀ cs, (toString n).toList ++ rest ≠ '-' :: cs := by
    intro cs h
    obtain ⟨c, cs', heq⟩ := List.exists_cons_of_ne_nil (Nat.toDigits_ne_nil (b := 10) (n := n))
    have hdigit := Nat.isDigit_of_mem_toDigits (b := 10) (by decide) (by decide)
      (heq ▸ List.mem_cons_self : c ∈ Nat.toDigits 10 n)
    rw [toList_toString, heq] at h
    cases h
    cases hdigit
  obtain ⟨c, cs, rfl⟩ : ∃ c cs, rest = c :: cs := by
    cases rest with
    | nil => rcases hrest with h | h <;> cases h
    | cons c cs => exact ⟨c, cs, rfl⟩
  have hc : c = ',' ∨ c = '}' := by simpa [Ends] using hrest
  have hread : readWhole ((toString n).toList ++ c :: cs) = some ((toString n).toList, c :: cs) := by
    refine readWhole_toString ?_
    rintro _ ⟨⟩
    rcases hc with rfl | rfl <;> rfl
  have hexp : readFraction (c :: cs) = some ([], c :: cs) ∧ readExponent (c :: cs) = some ([], c :: cs) := by
    rcases hc with rfl | rfl <;> exact ⟨rfl, rfl⟩
  unfold readNumber
  split
  rename_i sign cs' heq
  split at heq
  · rename_i cs'' hminus
    exact absurd hminus (hsign _)
  · cases heq
    simp only [hread, hexp.1, hexp.2, Option.bind_eq_bind, Option.bind_some, Option.pure_def,
      List.nil_append, List.append_nil, String.ofList_toList]

variable {cs : List Char} {fuel : ℕ}

theorem skipWhitespace_cons (h : isWhitespace c = false) : skipWhitespace (c :: cs) = c :: cs := by
  simp [skipWhitespace, h]

theorem readValue_digit (h : c.isDigit = true) :
    readValue (fuel + 1) (c :: cs) = readNumber (c :: cs) := by
  have hne : ∀ d : Char, d.isDigit = false → c ≠ d := by
    rintro d hd rfl
    rw [h] at hd
    cases hd
  have hspace : isWhitespace c = false := by
    simp [isWhitespace, hne ' ' rfl, hne '\t' rfl, hne '\n' rfl, hne '\r' rfl]
  rw [readValue, skipWhitespace_cons hspace]
  split
  · rename_i heq
    exact absurd (List.cons.inj heq).1 (hne _ rfl)
  · rename_i heq
    exact absurd (List.cons.inj heq).1 (hne _ rfl)
  · rename_i heq
    exact absurd (List.cons.inj heq).1 (hne _ rfl)
  · rw [readScalar.eq_4]
    · exact fun cs' heq => hne _ rfl (List.cons.inj heq).1
    · exact fun cs' heq => hne _ rfl (List.cons.inj heq).1
    · exact fun cs' heq => hne _ rfl (List.cons.inj heq).1

theorem readValue_write {v : Scalar} (hrest : Ends rest) :
    readValue (fuel + 1) (v.write ++ rest) = some (v.toJson, rest) := by
  cases v with
  | str s =>
    rw [Scalar.write, quote, List.cons_append, List.append_assoc, List.singleton_append, readValue,
      skipWhitespace_cons rfl]
    change (readString _).map _ = _
    rw [readString_quote]
    rfl
  | bool b => cases b <;> rfl
  | nat n =>
    obtain ⟨c, cs, heq⟩ := List.exists_cons_of_ne_nil (Nat.toDigits_ne_nil (b := 10) (n := n))
    have hdigit := Nat.isDigit_of_mem_toDigits (b := 10) (by decide) (by decide)
      (heq ▸ List.mem_cons_self : c ∈ Nat.toDigits 10 n)
    have hread := readNumber_toString (n := n) hrest
    rw [toList_toString, heq, List.cons_append] at hread
    rw [Scalar.write, toList_toString, heq, List.cons_append, readValue_digit hdigit, hread]
    rfl

theorem skipWhitespace_ends (hrest : Ends rest) : skipWhitespace rest = rest := by
  cases rest with
  | nil => rfl
  | cons c cs =>
    rcases hrest with h | h <;> cases h <;> rfl

theorem readMembers_writeMember {m : String × Scalar} : Ends rest →
    readMembers (fuel + 2) (writeMember m ++ rest) =
      match rest with
      | ',' :: cs => (readMembers (fuel + 1) cs).map fun p => ((m.1, m.2.toJson) :: p.1, p.2)
      | '}' :: cs => some ([(m.1, m.2.toJson)], cs)
      | _ => none := by
  intro hrest
  rw [writeMember, quote, List.cons_append, List.cons_append, List.append_assoc, List.append_assoc,
    List.singleton_append, List.cons_append, readMembers, skipWhitespace_cons rfl]
  change (readString _ >>= _) = _
  rw [readString_quote, Option.bind_eq_bind, Option.bind_some]
  dsimp only
  rw [skipWhitespace_cons rfl]
  change (readValue _ _ >>= _) = _
  rw [readValue_write hrest, Option.bind_eq_bind, Option.bind_some]
  dsimp only
  rw [skipWhitespace_ends hrest]

theorem readMembers_writeMembers {ms : List (String × Scalar)} (hne : ms ≠ [])
    (hfuel : ms.length < fuel) :
    readMembers fuel (writeMembers ms ++ '}' :: rest) =
      some (ms.map fun m => (m.1, m.2.toJson), rest) := by
  induction ms generalizing fuel with
  | nil => exact absurd rfl hne
  | cons m ms ih =>
    rw [List.length_cons] at hfuel
    obtain ⟨fuel, rfl⟩ : ∃ k, fuel = k + 2 := ⟨fuel - 2, by omega⟩
    cases ms with
    | nil => exact readMembers_writeMember (.inr rfl)
    | cons m' ms =>
      rw [writeMembers.eq_3 _ _ (List.cons_ne_nil m' ms), List.append_assoc, List.cons_append,
        readMembers_writeMember (.inl rfl)]
      change (readMembers _ _).map _ = _
      rw [ih (List.cons_ne_nil m' ms) (by omega)]
      rfl

theorem length_writeMembers {ms : List (String × Scalar)} : ms.length ≤ (writeMembers ms).length := by
  induction ms with
  | nil => exact Nat.le_refl 0
  | cons m ms ih =>
    cases ms with
    | nil => simp [writeMembers, writeMember, quote]
    | cons m' ms =>
      simp only [writeMembers, List.length_append, List.length_cons] at ih ⊢
      omega

/-- **The round trip.** A flat object is read back, member by member. -/
theorem parse_stringify {ms : List (String × Scalar)} :
    parse (stringify ms) = some (.obj (ms.map fun m => (m.1, m.2.toJson))) := by
  have hread : ∀ fuel, ms.length + 1 < fuel →
      readValue fuel ('{' :: (writeMembers ms ++ ['}'])) =
        some (.obj (ms.map fun m => (m.1, m.2.toJson)), []) := by
    intro fuel hfuel
    obtain ⟨fuel, rfl⟩ : ∃ k, fuel = k + 1 := ⟨fuel - 1, by omega⟩
    cases ms with
    | nil => rfl
    | cons m ms =>
      have hquote : ∃ cs, writeMembers (m :: ms) ++ ['}'] = '"' :: cs := by
        cases ms <;> exact ⟨_, rfl⟩
      obtain ⟨cs, hcs⟩ := hquote
      have hmembers : readMembers fuel (writeMembers (m :: ms) ++ ['}']) =
          some ((m :: ms).map fun m => (m.1, m.2.toJson), []) :=
        readMembers_writeMembers (List.cons_ne_nil m ms) (by omega)
      rw [hcs] at hmembers ⊢
      rw [readValue, skipWhitespace_cons rfl]
      change (readMembers _ _).map _ = _
      rw [hmembers]
      rfl
  rw [parse, stringify, String.toList_ofList, hread _ ?_]
  · rfl
  · have hlen : ms.length ≤ (writeMembers ms).length := length_writeMembers
    simp only [List.length_cons, List.length_append]
    omega

end

end Json

end Lumenia
