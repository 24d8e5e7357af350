import Lumenia.Sponsor.DayKeys
import Lumenia.Theory.Positional
import Mathlib.Algebra.Order.Field.Rat
import Mathlib.Algebra.Order.Group.Unbundled.Abs
import Mathlib.Data.List.TakeWhile
import Mathlib.Data.Rat.Lemmas
import Mathlib.Tactic.Positivity

/-!
# Amounts as texts

An amount is a whole number of stroops on the ledger, and a decimal text with seven places in a
parsed transaction. The guards read the text with `parseFloat`.
-/

namespace Lumenia.Stellar

/-! ## Reading a number -/

/-- A `number`. A finite one is kept exactly, unless it is too small or too large for one. -/
inductive Number
  | nan
  | infinite (negative : Bool)
  | finite (q : ℚ)
  deriving DecidableEq

/-- From here on a value rounds to an infinity. -/
def overflow : ℚ := 2 ^ 1024 - 2 ^ 970

/-- Up to here a value rounds to zero. -/
def underflow : ℚ := 1 / 2 ^ 1075

def Number.ofRat (q : ℚ) : Number :=
  if |q| ≤ underflow then .finite 0 else if overflow ≤ |q| then .infinite (q < 0) else .finite q

/-- `a > b` -/
def Number.gt : Number → Number → Bool
  | .nan, _ | _, .nan => false
  | .infinite negative, .infinite negative' => !negative && negative'
  | .infinite negative, .finite _ => !negative
  | .finite _, .infinite negative => negative
  | .finite p, .finite q => p > q

def digitValue (c : Char) : ℕ := c.toNat - '0'.toNat

/-- The number of some digits. -/
def readDigits (cs : List Char) : ℕ := ofDigits 10 (cs.map digitValue)

/-- A sign, and what is behind it. -/
def readSign : List Char → Bool × List Char
  | '-' :: cs => (true, cs)
  | '+' :: cs => (false, cs)
  | cs => (false, cs)

/-- The part behind a decimal point, and what follows it. -/
def readFraction : List Char → List Char × List Char
  | '.' :: cs => (cs.takeWhile Char.isDigit, cs.dropWhile Char.isDigit)
  | cs => ([], cs)

/-- The power of ten that an exponent stands for. -/
def readExponent (cs : List Char) : ℚ :=
  match cs with
  | c :: cs =>
    if c = 'e' ∨ c = 'E' then
      let (negative, cs) := readSign cs
      let n := readDigits (cs.takeWhile Char.isDigit)
      if negative then 1 / 10 ^ n else 10 ^ n
    else 1
  | [] => 1

/-- The longest numeral in front. -/
def readDecimal (cs : List Char) : Option ℚ :=
  let whole := cs.takeWhile Char.isDigit
  let (fraction, rest) := readFraction (cs.dropWhile Char.isDigit)
  if whole = [] ∧ fraction = [] then none
  else some (readDigits (whole ++ fraction) / 10 ^ fraction.length * readExponent rest)

/-- `Number.parseFloat` -/
def parseFloat (s : String) : Number :=
  let (negative, cs) := readSign (s.toList.dropWhile Sponsor.isSpace)
  if "Infinity".toList.isPrefixOf cs then .infinite negative
  else
    match readDecimal cs with
    | none => .nan
    | some q => .ofRat (if negative then -q else q)

/-! ## Writing an amount -/

def digitChar (d : ℕ) : Char := .ofNat ('0'.toNat + d)

/-- A natural number of stroops, with seven decimal places. -/
def amountDigits (n : ℕ) : List Char :=
  (numeral 10 (n / 10 ^ 7)).map digitChar ++ '.' :: (fixedDigits 10 7 n).map digitChar

/-- An amount of a parsed transaction. -/
def fromXDRAmount (stroops : ℤ) : String :=
  .ofList (if stroops < 0 then '-' :: amountDigits stroops.natAbs else amountDigits stroops.natAbs)

/-! ## What is written is read back -/

theorem digit_digitChar {d : ℕ} (hd : d < 10) :
    (digitChar d).isDigit = true ∧ digitValue (digitChar d) = d ∧
      Sponsor.isSpace (digitChar d) = false := by
  have hall : ∀ d < 10, (digitChar d).isDigit = true ∧ digitValue (digitChar d) = d ∧
      Sponsor.isSpace (digitChar d) = false := by decide +kernel
  exact hall d hd

section

variable {ds : List ℕ} {cs : List Char}

theorem isDigit_of_mem (h : ∀ d ∈ ds, d < 10) : ∀ c ∈ ds.map digitChar, c.isDigit = true := by
  intro c hc
  obtain ⟨d, hd, rfl⟩ := List.mem_map.mp hc
  exact (digit_digitChar (h d hd)).1

theorem readDigits_map (h : ∀ d ∈ ds, d < 10) : readDigits (ds.map digitChar) = ofDigits 10 ds := by
  have hread : ds.map (digitValue ∘ digitChar) = ds :=
    (List.map_congr_left fun d hd => (digit_digitChar (h d hd)).2.1).trans (List.map_id _)
  rw [readDigits, List.map_map, hread]

end

theorem isDigit_whole (n : ℕ) : ∀ c ∈ (numeral 10 (n / 10 ^ 7)).map digitChar, c.isDigit = true :=
  isDigit_of_mem fun _ hd => lt_of_mem_numeral (by decide) hd

theorem isDigit_fraction (n : ℕ) : ∀ c ∈ (fixedDigits 10 7 n).map digitChar, c.isDigit = true :=
  isDigit_of_mem fun _ hd => lt_of_mem_fixedDigits (by decide) hd

theorem dropWhile_amountDigits (n : ℕ) :
    (amountDigits n).dropWhile Char.isDigit = '.' :: (fixedDigits 10 7 n).map digitChar := by
  have hpoint : ('.' : Char).isDigit = false := by decide
  rw [amountDigits, List.dropWhile_append_of_pos (isDigit_whole n), List.dropWhile_cons, hpoint,
    if_neg Bool.false_ne_true]

theorem readFraction_amountDigits (n : ℕ) :
    readFraction ('.' :: (fixedDigits 10 7 n).map digitChar) = ((fixedDigits 10 7 n).map digitChar, []) := by
  have hall := isDigit_fraction n
  rw [readFraction, List.takeWhile_eq_self_iff.mpr hall, List.dropWhile_eq_nil_iff.mpr hall]

theorem readDecimal_amountDigits (n : ℕ) :
    readDecimal (amountDigits n) = some ((n : ℚ) / 10 ^ 7) := by
  have hpoint : ('.' : Char).isDigit = false := by decide
  have htake : (amountDigits n).takeWhile Char.isDigit = (numeral 10 (n / 10 ^ 7)).map digitChar := by
    rw [amountDigits, List.takeWhile_append_of_pos (isDigit_whole n), List.takeWhile_cons,
      hpoint, if_neg Bool.false_ne_true, List.append_nil]
  have hne : (numeral 10 (n / 10 ^ 7)).map digitChar ≠ [] := by
    rw [Ne, List.map_eq_nil_iff]
    exact numeral_ne_nil
  have hvalue : readDigits ((numeral 10 (n / 10 ^ 7)).map digitChar ++
      (fixedDigits 10 7 n).map digitChar) = n := by
    rw [← List.map_append, readDigits_map, ofDigits_append, ofDigits_numeral (by decide),
      ofDigits_fixedDigits, length_fixedDigits, Nat.div_add_mod']
    intro d hd
    rcases List.mem_append.mp hd with hd | hd
    · exact lt_of_mem_numeral (by decide) hd
    · exact lt_of_mem_fixedDigits (by decide) hd
  rw [readDecimal, htake, dropWhile_amountDigits, readFraction_amountDigits]
  dsimp only
  rw [if_neg fun h => hne h.1, hvalue, List.length_map, length_fixedDigits, readExponent, mul_one]

/-- The first letter is a digit, so that no sign, space or infinity is read there. -/
theorem amountDigits_cons (n : ℕ) : ∃ d cs, d < 10 ∧ amountDigits n = digitChar d :: cs := by
  obtain ⟨d, ds, hds⟩ := List.exists_cons_of_ne_nil (numeral_ne_nil (b := 10) (n := n / 10 ^ 7))
  have hd : d ∈ numeral 10 (n / 10 ^ 7) := hds ▸ List.mem_cons_self
  refine ⟨d, ds.map digitChar ++ '.' :: (fixedDigits 10 7 n).map digitChar,
    lt_of_mem_numeral (by decide) hd, ?_⟩
  rw [amountDigits, hds]
  rfl

theorem digitChar_ne {d : ℕ} (hd : d < 10) :
    digitChar d ≠ '-' ∧ digitChar d ≠ '+' ∧ digitChar d ≠ 'I' := by
  have hall : ∀ d < 10, digitChar d ≠ '-' ∧ digitChar d ≠ '+' ∧ digitChar d ≠ 'I' := by
    decide +kernel
  exact hall d hd

theorem readSign_amountDigits (n : ℕ) : readSign (amountDigits n) = (false, amountDigits n) := by
  obtain ⟨d, cs, hd, heq⟩ := amountDigits_cons n
  obtain ⟨hminus, hplus, -⟩ := digitChar_ne hd
  rw [heq, readSign]
  · intro t h
    exact hminus (List.cons.inj h).1
  · intro t h
    exact hplus (List.cons.inj h).1

theorem not_infinity_amountDigits (n : ℕ) :
    "Infinity".toList.isPrefixOf (amountDigits n) = false := by
  obtain ⟨d, cs, hd, heq⟩ := amountDigits_cons n
  have hne : ('I' == digitChar d) = false := beq_false_of_ne (digitChar_ne hd).2.2.symm
  have htext : "Infinity".toList = 'I' :: "nfinity".toList := by decide
  rw [heq, htext, List.isPrefixOf_cons_cons, hne, Bool.false_and]

theorem readSign_fromXDRAmount (stroops : ℤ) :
    readSign ((fromXDRAmount stroops).toList.dropWhile Sponsor.isSpace) =
      (decide (stroops < 0), amountDigits stroops.natAbs) := by
  rw [fromXDRAmount, String.toList_ofList]
  split
  · rename_i hneg
    have hminus : Sponsor.isSpace '-' = false := by decide
    rw [List.dropWhile_cons, hminus, if_neg Bool.false_ne_true, readSign, decide_eq_true hneg]
  · rename_i hpos
    obtain ⟨d, cs, hd, heq⟩ := amountDigits_cons stroops.natAbs
    have hspace : (amountDigits stroops.natAbs).dropWhile Sponsor.isSpace =
        amountDigits stroops.natAbs := by
      rw [heq, List.dropWhile_cons, (digit_digitChar hd).2.2, if_neg Bool.false_ne_true]
    rw [hspace, readSign_amountDigits, decide_eq_false hpos]

/-- **An amount is read back.** -/
theorem parseFloat_fromXDRAmount (stroops : ℤ) :
    parseFloat (fromXDRAmount stroops) = .ofRat ((stroops : ℚ) / 10 ^ 7) := by
  rw [parseFloat, readSign_fromXDRAmount]
  dsimp only
  rw [not_infinity_amountDigits, if_neg Bool.false_ne_true, readDecimal_amountDigits]
  refine congrArg Number.ofRat ?_
  rcases lt_or_ge stroops 0 with hneg | hpos
  · have habs : ((stroops.natAbs : ℕ) : ℚ) = -(stroops : ℚ) := by
      rw [← Int.cast_natCast, Int.ofNat_natAbs_of_nonpos hneg.le, Int.cast_neg]
    rw [decide_eq_true hneg, if_pos rfl, habs, neg_div, neg_neg]
  · have habs : ((stroops.natAbs : ℕ) : ℚ) = stroops := by
      rw [← Int.cast_natCast, Int.natAbs_of_nonneg hpos]
    rw [decide_eq_false (not_lt.mpr hpos), if_neg Bool.false_ne_true, habs]

/-! ## The sign of an amount -/

/-- A number that is finite, and positive or zero, is so for an amount that is. -/
theorem ofRat_eq_finite {q r : ℚ} (h : Number.ofRat q = .finite r) :
    r = q ∨ r = 0 ∧ |q| ≤ underflow := by
  unfold Number.ofRat at h
  split at h
  · rename_i hsmall
    exact .inr ⟨(Number.finite.inj h).symm, hsmall⟩
  split at h
  · cases h
  · exact .inl (Number.finite.inj h).symm

/-- One stroop is not too small for a number. -/
theorem underflow_lt_abs {stroops : ℤ} (h : stroops ≠ 0) : underflow < |(stroops : ℚ) / 10 ^ 7| := by
  have hone : (1 : ℚ) ≤ |(stroops : ℚ)| := by
    rw [← Int.cast_abs]
    exact_mod_cast Int.one_le_abs h
  have hpos : (0 : ℚ) < 10 ^ 7 := by positivity
  rw [abs_div, abs_of_pos hpos]
  calc underflow < 1 / 10 ^ 7 := by decide +kernel
    _ ≤ |(stroops : ℚ)| / 10 ^ 7 := by gcongr

theorem eq_of_parseFloat {stroops : ℤ} {r : ℚ}
    (h : parseFloat (fromXDRAmount stroops) = .finite r) : r = (stroops : ℚ) / 10 ^ 7 := by
  rw [parseFloat_fromXDRAmount] at h
  rcases ofRat_eq_finite h with hr | ⟨rfl, hsmall⟩
  · exact hr
  · rcases eq_or_ne stroops 0 with rfl | hne
    · simp
    · exact absurd hsmall (not_le.mpr (underflow_lt_abs hne))

end Lumenia.Stellar
