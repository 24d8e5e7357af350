import Lumenia.Contracts.Host
import Lumenia.Stellar.Amount

/-!
# Dollars and stroops

The conversions between decimal texts and stroops of `apps/web/lib` (`lumendrop.ts`, `swap.ts` and
`horizon.ts`), and the pot of a group link. They read a decimal text exactly, and what they write is read
back as it was.
-/

namespace Lumenia.Web.Dollars

open Sponsor Stellar

/-! ## Integers as texts -/

/-- The base that a text of a `BigInt` names behind its leading zero. -/
def bigIntBase (c : Char) : Option ℕ :=
  if c = 'x' ∨ c = 'X' then some 16
  else if c = 'o' ∨ c = 'O' then some 8
  else if c = 'b' ∨ c = 'B' then some 2
  else none

/-- The digit that a letter stands for; 16 if none. -/
def hexValue (c : Char) : ℕ :=
  if c.isDigit then digitValue c
  else if 'a' ≤ c ∧ c ≤ 'f' then c.toNat - 'a'.toNat + 10
  else if 'A' ≤ c ∧ c ≤ 'F' then c.toNat - 'A'.toNat + 10
  else 16

/-- `BigInt(text)` -/
def bigInt (text : List Char) : Except String ℤ :=
  let cs := (trim (.ofList text)).toList
  let (negative, digits) := readSign cs
  let based := do
    let c ← cs[1]?
    let b ← bigIntBase c
    if cs[0]? = some '0' ∧ cs.drop 2 ≠ [] ∧ (cs.drop 2).all (hexValue · < b) then
      return ofDigits b ((cs.drop 2).map hexValue)
    else none
  if cs = [] then .ok 0
  else if digits ≠ [] ∧ digits.all Char.isDigit then
    .ok (if negative then -readDigits digits else readDigits digits)
  else
    match based with
    | some n => .ok n
    | none => .error ("Cannot convert " ++ .ofList text ++ " to a BigInt")

/-- `n.toString()` -/
def bigText (n : ℤ) : List Char :=
  (if n < 0 then ['-'] else []) ++ (numeral 10 n.natAbs).map digitChar

/-! ## Conversions -/

/-- `UNIT`, `SCALE`: one dollar. -/
def unit : ℤ := 10000000

/-- The first part of `split(".")`, and the second, which is empty where there is none. -/
def splitPoint (cs : List Char) : List Char × List Char :=
  (cs.takeWhile (· ≠ '.'), ((cs.dropWhile (· ≠ '.')).drop 1).takeWhile (· ≠ '.'))

/-- What is before the point, and seven places of what is behind it. -/
def stroopsOf (cs : List Char) : Except String ℤ := do
  let (whole, frac) := splitPoint cs
  let whole ← bigInt (if whole = [] then ['0'] else whole)
  let frac ← bigInt ((frac ++ List.replicate 7 '0').take 7)
  return whole * unit + frac

/-- Of `lumendrop.ts`. -/
def usdcStroops (amount : String) : Except String ℤ := stroopsOf (trim amount).toList

/-- Of `horizon.ts`. -/
def usdToStroops (dec : String) : Except String ℤ := stroopsOf dec.toList

/-- `/^\d+(\.\d{1,7})?$/` -/
def isAmount (raw : List Char) : Bool :=
  !(raw.takeWhile Char.isDigit).isEmpty &&
    match raw.dropWhile Char.isDigit with
    | [] => true
    | c :: frac => c = '.' ∧ frac.all Char.isDigit ∧ 1 ≤ frac.length ∧ frac.length ≤ 7

/-- Of `swap.ts`. -/
def toStroops (dec : String) : Except String ℤ :=
  let raw := trim dec
  if isAmount raw.toList then stroopsOf raw.toList
  else .error ("not an amount this app can read: " ++ if raw = "" then "(empty)" else raw)

/-- With seven places behind the point. -/
def decimalText (s : ℤ) : List Char :=
  bigText (s.tdiv unit) ++ '.' :: (bigText (s.tmod unit)).leftpad 7 '0'

/-- Of `swap.ts`. -/
def fromStroops (s : ℤ) : String := .ofList (decimalText s)

/-- Of `horizon.ts`. -/
def stroopsToUsd (s : ℤ) : String := .ofList (decimalText s)

/-- Of `lumendrop.ts`. -/
def stroopsToUsdc (s : ℤ) : String :=
  let neg := s < 0
  let a := if neg then -s else s
  .ofList ((if neg then ['-'] else []) ++ decimalText a)

/-- The pot of a group link. -/
def groupTotal (perShare : String) (slots : ℕ) : Except String String := do
  return stroopsToUsdc ((← usdcStroops perShare) * slots)

/-! ## Decimal texts -/

/-- A decimal text with at most seven places: some digits, and maybe a point and more digits. -/
structure Decimal where
  whole : List Char
  frac : Option (List Char)
  whole_digits : ∀ c ∈ whole, c.isDigit = true
  frac_digits : ∀ f ∈ frac, ∀ c ∈ f, c.isDigit = true
  places : ∀ f ∈ frac, f.length ≤ 7
  some_digit : whole ≠ [] ∨ ∃ f ∈ frac, f ≠ []

namespace Decimal

variable (d : Decimal)

def places_ : List Char := d.frac.getD []

def chars : List Char := d.whole ++ (d.frac.map ('.' :: ·)).getD []

def text : String := .ofList d.chars

/-- The number that it stands for. -/
def value : ℚ := readDigits d.whole + readDigits d.places_ / 10 ^ d.places_.length

/-- It has digits before the point, and behind it if there is one. -/
def Complete : Prop := d.whole ≠ [] ∧ ∀ f ∈ d.frac, f ≠ []

def stroops : ℕ := readDigits d.whole * 10 ^ 7 + readDigits d.places_ * 10 ^ (7 - d.places_.length)

end Decimal

/-! ## What is read -/

section

variable {c : Char} {cs ds frac : List Char} {n : ℕ} {d : Decimal}

theorem exists_digitChar (h : c.isDigit = true) : ∃ d < 10, c = digitChar d := by
  have hrange : 48 ≤ c.toNat ∧ c.toNat ≤ 57 := by
    rw [Char.isDigit, Bool.and_eq_true, decide_eq_true_iff, decide_eq_true_iff] at h
    exact h
  refine ⟨c.toNat - 48, by omega, ?_⟩
  have hsum : '0'.toNat + (c.toNat - 48) = c.toNat := by
    change 48 + (c.toNat - 48) = c.toNat
    omega
  rw [digitChar, hsum, Char.ofNat_toNat]

/-- A digit is none of the characters that mean something else here. -/
theorem digit_plain (h : c.isDigit = true) :
    isSpace c = false ∧ c ≠ '.' ∧ c ≠ ',' ∧ ∀ cs, readSign (c :: cs) = (false, c :: cs) := by
  have hall : ∀ d < 10, isSpace (digitChar d) = false ∧ digitChar d ≠ '.' ∧ digitChar d ≠ ',' := by
    decide +kernel
  obtain ⟨d, hd, rfl⟩ := exists_digitChar h
  obtain ⟨hspace, hpoint, hcomma⟩ := hall d hd
  obtain ⟨hminus, hplus, -⟩ := digitChar_ne hd
  refine ⟨hspace, hpoint, hcomma, fun cs => ?_⟩
  rw [readSign]
  · exact fun _ heq => hminus (List.cons.inj heq).1
  · exact fun _ heq => hplus (List.cons.inj heq).1

theorem trim_of_plain (h : ∀ c ∈ cs, isSpace c = false) : trim (.ofList cs) = .ofList cs := by
  have hself : ∀ {ds : List Char}, (∀ c ∈ ds, isSpace c = false) → ds.dropWhile isSpace = ds := by
    intro ds hds
    cases ds with
    | nil => rfl
    | cons c ds => rw [List.dropWhile_cons, hds c List.mem_cons_self, if_neg Bool.false_ne_true]
  rw [trim, String.toList_ofList, hself h, hself fun c hc => h c (List.mem_reverse.mp hc), List.reverse_reverse]

theorem trim_of_digits (h : ∀ c ∈ cs, c.isDigit = true) : trim (.ofList cs) = .ofList cs :=
  trim_of_plain fun c hc => (digit_plain (h c hc)).1

theorem bigInt_of_digits (h : ∀ c ∈ cs, c.isDigit = true) : bigInt cs = .ok (readDigits cs) := by
  rw [bigInt, trim_of_digits h, String.toList_ofList]
  cases cs with
  | nil => rfl
  | cons c cs =>
    rw [(digit_plain (h c List.mem_cons_self)).2.2.2]
    dsimp only
    rw [if_neg (List.cons_ne_nil c cs), if_pos ⟨List.cons_ne_nil c cs, List.all_eq_true.mpr h⟩, if_neg Bool.false_ne_true]

theorem readDigits_append : readDigits (cs ++ ds) = readDigits cs * 10 ^ ds.length + readDigits ds := by
  rw [readDigits, List.map_append, ofDigits_append, List.length_map]
  rfl

theorem readDigits_zeros : readDigits (List.replicate n '0') = 0 := by
  induction n with
  | zero => rfl
  | succ n ih =>
    rw [List.replicate_succ', readDigits_append, ih]
    rfl

theorem isDigit_of_mem_zeros (h : c ∈ List.replicate n '0') : c.isDigit = true := by
  rw [List.eq_of_mem_replicate h]
  rfl

/-- Filled up to so many places. -/
theorem take_append_zeros (hlen : frac.length ≤ n) :
    (frac ++ List.replicate n '0').take n = frac ++ List.replicate (n - frac.length) '0' := by
  rw [List.take_append, List.take_of_length_le hlen, List.take_replicate, Nat.min_eq_left (Nat.sub_le ..)]

theorem readDigits_filled (hlen : frac.length ≤ n) :
    readDigits ((frac ++ List.replicate n '0').take n) = readDigits frac * 10 ^ (n - frac.length) := by
  rw [take_append_zeros hlen, readDigits_append, readDigits_zeros, List.length_replicate, Nat.add_zero]

namespace Decimal

theorem isDigit_places : ∀ c ∈ d.places_, c.isDigit = true := by
  intro c hc
  rw [places_] at hc
  cases hfrac : d.frac with
  | none =>
    rw [hfrac] at hc
    cases hc
  | some f =>
    rw [hfrac] at hc
    exact d.frac_digits f hfrac c hc

theorem length_places : d.places_.length ≤ 7 := by
  rw [places_]
  cases hfrac : d.frac with
  | none => exact Nat.zero_le 7
  | some f => exact d.places f hfrac

theorem whole_ne_point : ∀ c ∈ d.whole, decide (c ≠ '.') = true :=
  fun c hc => decide_eq_true (digit_plain (d.whole_digits c hc)).2.1

theorem splitPoint_chars : splitPoint d.chars = (d.whole, d.places_) := by
  rw [splitPoint, chars, List.takeWhile_append_of_pos d.whole_ne_point, List.dropWhile_append_of_pos d.whole_ne_point,
    places_]
  cases hfrac : d.frac with
  | none => exact congrArg (·, []) (List.append_nil _)
  | some f =>
    have hf : f.takeWhile (· ≠ '.') = f :=
      List.takeWhile_eq_self_iff.mpr fun c hc =>
        decide_eq_true (digit_plain (d.frac_digits f hfrac c hc)).2.1
    exact Prod.ext (List.append_nil _) hf

theorem chars_plain : ∀ c ∈ d.chars, isSpace c = false := by
  intro c hc
  rcases List.mem_append.mp hc with hc | hc
  · exact (digit_plain (d.whole_digits c hc)).1
  · cases hfrac : d.frac with
    | none =>
      rw [hfrac] at hc
      cases hc
    | some f =>
      rw [hfrac] at hc
      rcases List.mem_cons.mp hc with rfl | hc
      · decide
      · exact (digit_plain (d.frac_digits f hfrac c hc)).1

theorem trim_text : trim d.text = d.text := trim_of_plain d.chars_plain

/-- The text is read exactly. -/
theorem stroopsOf_chars : stroopsOf d.chars = .ok d.stroops := by
  have hwhole : bigInt (if d.whole = [] then ['0'] else d.whole) = .ok (readDigits d.whole) := by
    split
    · rename_i hnil
      rw [hnil]
      exact bigInt_of_digits (List.forall_mem_singleton.mpr rfl)
    · exact bigInt_of_digits d.whole_digits
  have hfrac : bigInt ((d.places_ ++ List.replicate 7 '0').take 7) =
      .ok ((readDigits d.places_ * 10 ^ (7 - d.places_.length) : ℕ) : ℤ) := by
    rw [← readDigits_filled d.length_places]
    refine bigInt_of_digits fun c hc => ?_
    rcases List.mem_append.mp (List.mem_of_mem_take hc) with hc | hc
    · exact d.isDigit_places c hc
    · exact isDigit_of_mem_zeros hc
  rw [stroopsOf, splitPoint_chars]
  dsimp only
  rw [hwhole, hfrac, stroops]
  refine congrArg Except.ok ?_
  push_cast
  rfl

theorem stroops_eq_value : (d.stroops : ℚ) = d.value * 10 ^ 7 := by
  have hsplit : (10 : ℚ) ^ 7 = 10 ^ d.places_.length * 10 ^ (7 - d.places_.length) := by
    rw [← pow_add, Nat.add_sub_cancel' d.length_places]
  have hpos : (10 : ℚ) ^ d.places_.length ≠ 0 := by positivity
  rw [stroops, value]
  push_cast
  rw [add_mul]
  congr 1
  rw [hsplit, ← mul_assoc, div_mul_cancel₀ _ hpos]

theorem isAmount_iff : isAmount d.chars = true ↔ d.Complete := by
  have hpoint : ('.' : Char).isDigit = false := by decide
  rw [isAmount, chars, List.takeWhile_append_of_pos d.whole_digits, List.dropWhile_append_of_pos d.whole_digits,
    Bool.and_eq_true, Complete]
  cases hfrac : d.frac with
  | none => simp
  | some f =>
    have hdigits := d.frac_digits f hfrac
    have hlen := d.places f hfrac
    simpa [hpoint, hlen, Nat.one_le_iff_ne_zero] using fun _ _ => hdigits

theorem usdcStroops_text : usdcStroops d.text = .ok d.stroops := by
  rw [usdcStroops, trim_text, text, String.toList_ofList, stroopsOf_chars]

theorem usdToStroops_text : usdToStroops d.text = .ok d.stroops := by
  rw [usdToStroops, text, String.toList_ofList, stroopsOf_chars]

theorem toStroops_text (h : d.Complete) : toStroops d.text = .ok d.stroops := by
  rw [toStroops, trim_text, text, String.toList_ofList, if_pos (isAmount_iff.mpr h), stroopsOf_chars]

end Decimal

/-! ## What is written -/

theorem bigText_natCast : bigText (n : ℤ) = (numeral 10 n).map digitChar := by
  rw [bigText, if_neg (Int.not_lt.mpr (Int.natCast_nonneg n))]
  rfl

theorem isDigit_numeral : ∀ c ∈ (numeral 10 n).map digitChar, c.isDigit = true :=
  isDigit_of_mem fun _ hd => lt_of_mem_numeral (by decide) hd

theorem readDigits_numeral : readDigits ((numeral 10 n).map digitChar) = n := by
  rw [readDigits_map fun _ hd => lt_of_mem_numeral (by decide) hd, ofDigits_numeral (by decide)]

/-- With zeros in front, it is the same number. -/
theorem readDigits_leftpad {k : ℕ} : readDigits (cs.leftpad k '0') = readDigits cs := by
  rw [List.leftpad, readDigits_append, readDigits_zeros, Nat.zero_mul, Nat.zero_add]

theorem isDigit_leftpad {k : ℕ} (h : ∀ c ∈ cs, c.isDigit = true) : ∀ c ∈ cs.leftpad k '0', c.isDigit = true := by
  intro c hc
  rcases List.mem_append.mp hc with hc | hc
  · exact isDigit_of_mem_zeros hc
  · exact h c hc

theorem length_leftpad_numeral {k : ℕ} (hk : 0 < k) (hn : n < 10 ^ k) :
    (((numeral 10 n).map digitChar).leftpad k '0').length = k := by
  have hlen := length_numeral_le hk hn
  rw [List.length_leftpad, List.length_map]
  omega

/-- So many stroops, as they are written. -/
def Decimal.ofStroops (n : ℕ) : Decimal where
  whole := (numeral 10 (n / 10 ^ 7)).map digitChar
  frac := some (((numeral 10 (n % 10 ^ 7)).map digitChar).leftpad 7 '0')
  whole_digits := isDigit_numeral
  frac_digits f hf := by
    obtain rfl := Option.some.inj hf
    exact isDigit_leftpad isDigit_numeral
  places f hf := by
    obtain rfl := Option.some.inj hf
    exact (length_leftpad_numeral (by decide) (Nat.mod_lt n (by decide))).le
  some_digit := .inl fun hnil => numeral_ne_nil (List.map_eq_nil_iff.mp hnil)

namespace Decimal

theorem complete_ofStroops : (ofStroops n).Complete := by
  refine ⟨fun hnil => numeral_ne_nil (List.map_eq_nil_iff.mp hnil), fun f hf hnil => ?_⟩
  obtain rfl := Option.some.inj hf
  have hlen := length_leftpad_numeral (k := 7) (by decide) (Nat.mod_lt n (by decide))
  rw [hnil] at hlen
  cases hlen

theorem stroops_ofStroops : (ofStroops n).stroops = n := by
  have hplaces : (ofStroops n).places_.length = 7 :=
    length_leftpad_numeral (by decide) (Nat.mod_lt n (by decide))
  have hfrac : readDigits (ofStroops n).places_ = n % 10 ^ 7 :=
    readDigits_leftpad.trans readDigits_numeral
  have hwhole : readDigits (ofStroops n).whole = n / 10 ^ 7 := readDigits_numeral
  rw [stroops, hplaces, hfrac, hwhole, Nat.sub_self, pow_zero, Nat.mul_one, Nat.div_add_mod']

theorem decimalText_natCast : decimalText (n : ℤ) = (ofStroops n).chars := by
  have hdiv : (n : ℤ).tdiv unit = ((n / 10 ^ 7 : ℕ) : ℤ) := by
    rw [Int.tdiv_eq_ediv_of_nonneg (Int.natCast_nonneg n)]
    rfl
  have hmod : (n : ℤ).tmod unit = ((n % 10 ^ 7 : ℕ) : ℤ) := by
    rw [Int.tmod_eq_emod_of_nonneg (Int.natCast_nonneg n)]
    rfl
  rw [decimalText, hdiv, hmod, bigText_natCast, bigText_natCast]
  rfl

theorem fromStroops_natCast : fromStroops (n : ℤ) = (ofStroops n).text :=
  congrArg String.ofList decimalText_natCast

theorem stroopsToUsd_natCast : stroopsToUsd (n : ℤ) = (ofStroops n).text :=
  congrArg String.ofList decimalText_natCast

theorem stroopsToUsdc_natCast : stroopsToUsdc (n : ℤ) = (ofStroops n).text := by
  have hneg : ¬(n : ℤ) < 0 := Int.not_lt.mpr (Int.natCast_nonneg n)
  rw [stroopsToUsdc, if_neg hneg, if_neg hneg, decimalText_natCast]
  rfl

end Decimal

theorem usdcStroops_stroopsToUsdc : usdcStroops (stroopsToUsdc n) = .ok n := by
  rw [Decimal.stroopsToUsdc_natCast, Decimal.usdcStroops_text, Decimal.stroops_ofStroops]

theorem toStroops_fromStroops : toStroops (fromStroops n) = .ok n := by
  rw [Decimal.fromStroops_natCast, Decimal.toStroops_text Decimal.complete_ofStroops, Decimal.stroops_ofStroops]

theorem usdToStroops_stroopsToUsd : usdToStroops (stroopsToUsd n) = .ok n := by
  rw [Decimal.stroopsToUsd_natCast, Decimal.usdToStroops_text, Decimal.stroops_ofStroops]

/-! ## The pot -/

theorem groupTotal_text {slots : ℕ} :
    groupTotal d.text slots = .ok (stroopsToUsdc ((d.stroops * slots : ℕ) : ℤ)) := by
  rw [groupTotal, Decimal.usdcStroops_text]
  rfl

/-- The contract divides a pot as `createDrop` does. -/
theorem share_of_pot {slots : ℕ} (hslots : 0 < slots) : ∃ total pot, groupTotal d.text slots = .ok total ∧
    usdcStroops total = .ok pot ∧ Soroban.checkedDiv pot slots = some (d.stroops : ℤ) ∧ pot.tmod slots = 0 := by
  refine ⟨_, _, groupTotal_text, usdcStroops_stroopsToUsdc, ?_, ?_⟩
  · have hne : (slots : ℤ) ≠ 0 := by omega
    rw [Soroban.checkedDiv, if_neg (by omega), Nat.cast_mul, Int.mul_tdiv_cancel _ hne]
  · rw [Nat.cast_mul, Int.mul_tmod_left]

end

end Lumenia.Web.Dollars
