import Lumenia.Stellar.Amount
import Lumenia.Theory.Rounding
import Mathlib.Data.List.DropRight

/-!
# Amounts as doubles

A `number` is a double: what `parseFloat` gives is the double next to what the text spells. Two amounts
of whole stroops may be read as one double, from 2^29 dollars on.
-/

namespace Lumenia.Stellar

/-- The double next to a fraction. -/
def toDouble (q : ℚ) : ℚ := roundBinary 53 (-1022) q

def Number.toDouble : Number → Number
  | .finite q => .finite (Stellar.toDouble q)
  | n => n

/-- `Number.parseFloat`, rounded as a `number` is. -/
def parseDouble (s : String) : Number := (parseFloat s).toDouble

/-- `a === b` -/
def Number.same : Number → Number → Bool
  | .nan, _ => false
  | a, b => a = b

def Number.isFinite : Number → Bool
  | .finite _ => true
  | _ => false

/-- The double of an amount in dollars. -/
def amountDouble (stroops : ℤ) : ℚ := toDouble (stroops / 10 ^ 7)

/-- The amounts of a 64-bit integer. -/
def IsInt64 (stroops : ℤ) : Prop := -2 ^ 63 ≤ stroops ∧ stroops < 2 ^ 63

/-! ## What a text declares -/

/-- An exponent, or nothing. -/
def isExponent : List Char → Bool
  | [] => true
  | c :: cs =>
    let digits := (readSign cs).2
    (c = 'e' || c = 'E') && !digits.isEmpty && digits.all Char.isDigit

/-- The text is one numeral, with nothing but space around it. -/
def isNumeral (s : String) : Bool :=
  let cs := (readSign ((s.toList.dropWhile Sponsor.isSpace).rdropWhile Sponsor.isSpace)).2
  isExponent (readFraction (cs.dropWhile Char.isDigit)).2

/-- The text spells the amount, to the stroop. -/
def Declares (s : String) (stroops : ℤ) : Prop :=
  isNumeral s = true ∧ parseFloat s = .finite (stroops / 10 ^ 7)

/-- An amount that can be paid reads as the same double as the text, which does not spell it. -/
def Ambiguous (s : String) : Prop :=
  ∃ stroops : ℤ, 0 < stroops ∧ stroops < 2 ^ 63 ∧ parseDouble s = .finite (amountDouble stroops) ∧
    ¬ Declares s stroops

variable {s : String} {stroops other : ℤ}

/-! ## The double of an amount -/

theorem dollars_pos (h : 0 < stroops) : (0 : ℚ) < stroops / 10 ^ 7 := by
  have hcast : (0 : ℚ) < stroops := Int.cast_pos.mpr h
  positivity

theorem dollars_le (h : stroops ≤ other) : (stroops : ℚ) / 10 ^ 7 ≤ other / 10 ^ 7 := by
  have hcast : (stroops : ℚ) ≤ other := Int.cast_le.mpr h
  gcongr

theorem parseDouble_fromXDRAmount (h : IsInt64 stroops) :
    parseDouble (fromXDRAmount stroops) = .finite (amountDouble stroops) := by
  have hbound : |(stroops : ℚ) / 10 ^ 7| < overflow := by
    have habs : |(stroops : ℚ)| ≤ 2 ^ 63 := by
      rw [← Int.cast_abs]
      exact_mod_cast abs_le.mpr ⟨h.1, h.2.le⟩
    have hpos : (0 : ℚ) < 10 ^ 7 := by positivity
    rw [abs_div, abs_of_pos hpos]
    calc |(stroops : ℚ)| / 10 ^ 7 ≤ 2 ^ 63 / 10 ^ 7 := by gcongr
      _ < overflow := by decide +kernel
  rw [parseDouble, parseFloat_fromXDRAmount, Number.ofRat]
  rcases eq_or_ne stroops 0 with rfl | hne
  · decide +kernel
  · rw [if_neg (not_le.mpr (underflow_lt_abs hne)), if_neg (not_le.mpr hbound)]
    rfl

theorem amountDouble_mono (hpos : 0 < stroops) (h : stroops ≤ other) : amountDouble stroops ≤ amountDouble other :=
  roundBinary_mono (by decide) (dollars_pos hpos) (dollars_le h)

theorem amountDouble_pos_iff : 0 < amountDouble stroops ↔ 0 < stroops := by
  constructor
  · intro h
    by_contra hnot
    have hle : (stroops : ℚ) / 10 ^ 7 ≤ (0 : ℤ) / 10 ^ 7 := dollars_le (not_lt.mp hnot)
    have hround : roundEven ((stroops : ℚ) / 10 ^ 7 / ulp 53 (-1022) (stroops / 10 ^ 7)) ≤ 0 := by
      refine roundEven_le ?_
      rw [Int.cast_zero]
      exact div_nonpos_of_nonpos_of_nonneg (by simpa using hle) ulp_pos.le
    have hcast : ((roundEven ((stroops : ℚ) / 10 ^ 7 / ulp 53 (-1022) (stroops / 10 ^ 7)) : ℤ) : ℚ) ≤ 0 :=
      Int.cast_nonpos.mpr hround
    exact absurd h (not_lt.mpr (mul_nonpos_of_nonpos_of_nonneg hcast ulp_pos.le))
  · intro h
    have hone : (0 : ℚ) < amountDouble 1 := by decide +kernel
    exact hone.trans_le (amountDouble_mono one_pos h)

theorem amountDouble_eq_zero_iff : amountDouble stroops = 0 ↔ stroops = 0 := by
  constructor
  · intro h
    by_contra hne
    have habs : (2 : ℚ) ^ (-24 : ℤ) ≤ |(stroops : ℚ) / 10 ^ 7| := by
      have hone : (1 : ℚ) ≤ |(stroops : ℚ)| := by
        rw [← Int.cast_abs]
        exact_mod_cast Int.one_le_abs hne
      have hpos : (0 : ℚ) < 10 ^ 7 := by positivity
      rw [abs_div, abs_of_pos hpos]
      calc (2 : ℚ) ^ (-24 : ℤ) ≤ 1 / 10 ^ 7 := by norm_num
        _ ≤ |(stroops : ℚ)| / 10 ^ 7 := by gcongr
    have hpos : (0 : ℚ) < |(stroops : ℚ) / 10 ^ 7| := (by positivity : (0 : ℚ) < 2 ^ (-24 : ℤ)).trans_le habs
    have hlog : -24 ≤ Int.log 2 |(stroops : ℚ) / 10 ^ 7| :=
      (Int.zpow_le_iff_le_log (b := 2) one_lt_two hpos).mp (by exact_mod_cast habs)
    exact roundBinary_ne_zero (ulp_le_abs (by decide) (abs_pos.mp hpos) (by omega)) h
  · rintro rfl
    decide +kernel

/-- Below 2^29 dollars no two amounts have one double. -/
theorem eq_of_amountDouble_eq (hpos : 0 < stroops) (hle : stroops ≤ other) (hlt : other < 2 ^ 29 * 10 ^ 7)
    (heq : amountDouble stroops = amountDouble other) : stroops = other := by
  have hother : 0 < other := hpos.trans_le hle
  have hdist := sub_le_ulp_of_roundBinary_eq (dollars_pos hpos) (dollars_le hle) heq
  have hulp : ulp 53 (-1022) ((other : ℚ) / 10 ^ 7) ≤ 2 ^ (-24 : ℤ) := by
    have hdollars : (other : ℚ) / 10 ^ 7 < 2 ^ (29 : ℤ) := by
      rw [div_lt_iff₀ (by positivity)]
      exact_mod_cast hlt
    have hlog : Int.log 2 ((other : ℚ) / 10 ^ 7) < 29 :=
      (Int.lt_zpow_iff_log_lt (b := 2) one_lt_two (dollars_pos hother)).mp (by exact_mod_cast hdollars)
    refine zpow_le_zpow_right₀ one_le_two ?_
    rw [binaryExponent, abs_of_pos (dollars_pos hother)]
    omega
  have hsmall : (2 : ℚ) ^ (-24 : ℤ) < 1 / 10 ^ 7 := by norm_num
  have hclose : ((other : ℚ) - stroops) / 10 ^ 7 < 1 / 10 ^ 7 := by
    rw [sub_div]
    exact (hdist.trans hulp).trans_lt hsmall
  have hdiff : ((other - stroops : ℤ) : ℚ) < 1 := by
    push_cast
    exact (div_lt_div_iff_of_pos_right (by positivity)).mp hclose
  have hint : other - stroops < 1 := by exact_mod_cast hdiff
  omega

/-! ## Which texts are ambiguous -/

theorem Declares.parseDouble_eq (h : Declares s stroops) : parseDouble s = .finite (amountDouble stroops) := by
  rw [parseDouble, h.2]
  rfl

theorem Declares.unique (h : Declares s stroops) (h' : Declares s other) : stroops = other := by
  have heq : (stroops : ℚ) / 10 ^ 7 = other / 10 ^ 7 := Number.finite.inj (h.2.symm.trans h'.2)
  have hcast : (stroops : ℚ) = other := (div_left_inj' (by positivity)).mp heq
  exact_mod_cast hcast

/-- **An amount is ambiguous where the next stroop below or above reads as its double.** -/
theorem Declares.ambiguous_iff (h : Declares s stroops) (hpos : 0 < stroops) (hlt : stroops < 2 ^ 63) :
    Ambiguous s ↔ 1 < stroops ∧ amountDouble (stroops - 1) = amountDouble stroops ∨
      stroops + 1 < 2 ^ 63 ∧ amountDouble (stroops + 1) = amountDouble stroops := by
  constructor
  · rintro ⟨other, hother, hotherlt, hread, hnot⟩
    have heq : amountDouble stroops = amountDouble other := Number.finite.inj (h.parseDouble_eq.symm.trans hread)
    rcases lt_trichotomy other stroops with hbelow | rfl | habove
    · refine .inl ⟨by omega, le_antisymm (amountDouble_mono (by omega) (by omega)) ?_⟩
      rw [heq]
      exact amountDouble_mono hother (by omega)
    · exact absurd h hnot
    · refine .inr ⟨by omega, le_antisymm ?_ (amountDouble_mono hpos (by omega))⟩
      rw [heq]
      exact amountDouble_mono (by omega) (by omega)
  · rintro (⟨hone, heq⟩ | ⟨hmax, heq⟩)
    · refine ⟨stroops - 1, by omega, by omega, by rw [heq, h.parseDouble_eq], fun h' => ?_⟩
      have hsame := h.unique h'
      omega
    · refine ⟨stroops + 1, by omega, hmax, by rw [heq, h.parseDouble_eq], fun h' => ?_⟩
      have hsame := h.unique h'
      omega

/-- **Below 2^29 dollars no declared amount is ambiguous.** -/
theorem Declares.not_ambiguous (h : Declares s stroops) (hpos : 0 < stroops)
    (hlt : stroops + 1 < 2 ^ 29 * 10 ^ 7) : ¬ Ambiguous s := by
  rw [h.ambiguous_iff hpos (by omega)]
  rintro (⟨hone, heq⟩ | ⟨-, heq⟩)
  · have hsame := eq_of_amountDouble_eq (by omega) (by omega) (by omega) heq
    omega
  · have hsame := eq_of_amountDouble_eq hpos (by omega) hlt heq.symm
    omega

theorem not_isSpace_amountDigits (n : ℕ) : ∀ c ∈ amountDigits n, Sponsor.isSpace c = false := by
  intro c hc
  have hdigits : ∀ {ds : List ℕ}, (∀ d ∈ ds, d < 10) → c ∈ ds.map digitChar → Sponsor.isSpace c = false := by
    intro ds hds hmem
    obtain ⟨d, hd, rfl⟩ := List.mem_map.mp hmem
    exact (digit_digitChar (hds d hd)).2.2
  rcases List.mem_append.mp hc with hwhole | hrest
  · exact hdigits (fun d hd => lt_of_mem_numeral (by decide) hd) hwhole
  · rcases List.mem_cons.mp hrest with rfl | hfraction
    · decide
    · exact hdigits (fun d hd => lt_of_mem_fixedDigits (by decide) hd) hfraction

/-- **What the SDK writes for an amount declares it.** -/
theorem declares_fromXDRAmount (hpos : 0 < stroops) (hlt : stroops < 2 ^ 63) :
    Declares (fromXDRAmount stroops) stroops := by
  constructor
  · have htext : (fromXDRAmount stroops).toList = amountDigits stroops.natAbs := by
      rw [fromXDRAmount, String.toList_ofList, if_neg (not_lt.mpr hpos.le)]
    have hfront : (amountDigits stroops.natAbs).dropWhile Sponsor.isSpace = amountDigits stroops.natAbs := by
      obtain ⟨d, cs, hd, heq⟩ := amountDigits_cons stroops.natAbs
      rw [heq, List.dropWhile_cons, (digit_digitChar hd).2.2, if_neg Bool.false_ne_true]
    have hback : (amountDigits stroops.natAbs).rdropWhile Sponsor.isSpace = amountDigits stroops.natAbs := by
      refine List.rdropWhile_eq_self_iff.mpr fun hne => ?_
      rw [not_isSpace_amountDigits _ _ (List.getLast_mem hne)]
      exact Bool.false_ne_true
    rw [isNumeral, htext, hfront, hback, readSign_amountDigits]
    dsimp only
    rw [dropWhile_amountDigits, readFraction_amountDigits]
    rfl
  · have hread : parseDouble (fromXDRAmount stroops) = .finite (amountDouble stroops) :=
      parseDouble_fromXDRAmount ⟨by omega, hlt⟩
    cases hparse : parseFloat (fromXDRAmount stroops) with
    | finite q => rw [eq_of_parseFloat hparse]
    | nan =>
      rw [parseDouble, hparse] at hread
      cases hread
    | infinite negative =>
      rw [parseDouble, hparse] at hread
      cases hread

end Lumenia.Stellar
