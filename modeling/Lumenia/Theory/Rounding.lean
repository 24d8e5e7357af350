import Mathlib.Data.Int.Log
import Mathlib.Data.Rat.Floor
import Mathlib.Tactic.Linarith

/-!
# Rounding to a binary format

A number of a binary format has `precision` bits, the last of which is worth `ulp`. `roundBinary` gives
the number next to a fraction, and of two that are equally near the even one. It keeps the order, and
two fractions with the same number next to them are within one `ulp`.
-/

namespace Lumenia

/-- The whole number next to `q`, the even one of two. -/
def roundEven (q : ℚ) : ℤ :=
  if q - ⌊q⌋ < 1 / 2 then ⌊q⌋
  else if 1 / 2 < q - ⌊q⌋ then ⌊q⌋ + 1
  else if ⌊q⌋ % 2 = 0 then ⌊q⌋ else ⌊q⌋ + 1

variable {p q : ℚ} {n : ℤ}

theorem roundEven_cases : roundEven q = ⌊q⌋ ∧ q - ⌊q⌋ ≤ 1 / 2 ∨ roundEven q = ⌊q⌋ + 1 ∧ 1 / 2 ≤ q - ⌊q⌋ := by
  unfold roundEven
  split
  · next h => exact .inl ⟨rfl, h.le⟩
  · next h =>
    have hle := not_lt.mp h
    split
    · exact .inr ⟨rfl, hle⟩
    · next h' =>
      have hge := not_lt.mp h'
      split
      · exact .inl ⟨rfl, hge⟩
      · exact .inr ⟨rfl, hle⟩

theorem abs_roundEven_sub_le : |(roundEven q : ℚ) - q| ≤ 1 / 2 := by
  have hfloor := Int.floor_le q
  have hnext := Int.lt_floor_add_one q
  rcases roundEven_cases (q := q) with ⟨heq, hle⟩ | ⟨heq, hle⟩
  · rw [heq, abs_le]
    constructor <;> linarith
  · rw [heq, abs_le]
    push_cast
    constructor <;> linarith

@[simp] theorem roundEven_intCast : roundEven (n : ℚ) = n := by
  simp [roundEven]

theorem roundEven_mono (h : p ≤ q) : roundEven p ≤ roundEven q := by
  rcases (Int.floor_mono h).lt_or_eq with hlt | heq
  · have hp : roundEven p ≤ ⌊p⌋ + 1 := by
      rcases roundEven_cases (q := p) with ⟨h, -⟩ | ⟨h, -⟩ <;> omega
    have hq : ⌊q⌋ ≤ roundEven q := by
      rcases roundEven_cases (q := q) with ⟨h, -⟩ | ⟨h, -⟩ <;> omega
    omega
  · unfold roundEven
    rw [heq]
    have hfrac : p - ⌊q⌋ ≤ q - ⌊q⌋ := by linarith
    split_ifs <;> first | omega | linarith

theorem le_roundEven (h : (n : ℚ) ≤ q) : n ≤ roundEven q := by
  simpa using roundEven_mono h

theorem roundEven_le (h : q ≤ n) : roundEven q ≤ n := by
  simpa using roundEven_mono h

section

variable (precision : ℕ) (least : ℤ)

/-- The power of two of the first bit. -/
def binaryExponent (q : ℚ) : ℤ := max (Int.log 2 |q|) least

/-- What the last bit is worth. -/
def ulp (q : ℚ) : ℚ := 2 ^ (binaryExponent least q - precision + 1)

def roundBinary (q : ℚ) : ℚ := roundEven (q / ulp precision least q) * ulp precision least q

end

variable {precision : ℕ} {least e : ℤ}

theorem ulp_pos : 0 < ulp precision least q := zpow_pos two_pos _

theorem abs_roundBinary_sub_le : |roundBinary precision least q - q| ≤ ulp precision least q / 2 := by
  have hpos : 0 < ulp precision least q := ulp_pos
  have hq : q = q / ulp precision least q * ulp precision least q := (div_mul_cancel₀ q hpos.ne').symm
  have hround := abs_roundEven_sub_le (q := q / ulp precision least q)
  calc |roundBinary precision least q - q|
      = |(roundEven (q / ulp precision least q) - q / ulp precision least q) * ulp precision least q| := by
        rw [sub_mul, ← hq]
        rfl
    _ = |roundEven (q / ulp precision least q) - q / ulp precision least q| * ulp precision least q := by
        rw [abs_mul, abs_of_pos hpos]
    _ ≤ 1 / 2 * ulp precision least q := mul_le_mul_of_nonneg_right hround hpos.le
    _ = ulp precision least q / 2 := by ring

theorem binaryExponent_mono (hp : 0 < p) (h : p ≤ q) : binaryExponent least p ≤ binaryExponent least q := by
  rw [binaryExponent, binaryExponent, abs_of_pos hp, abs_of_pos (hp.trans_le h)]
  exact max_le_max_right least (Int.log_mono_right hp h)

theorem ulp_mono (hp : 0 < p) (h : p ≤ q) : ulp precision least p ≤ ulp precision least q := by
  have hexp : binaryExponent least p ≤ binaryExponent least q := binaryExponent_mono hp h
  exact zpow_le_zpow_right₀ one_le_two (by omega)

/-- A power of two that the format has is a whole number of times the last bit. -/
theorem zpow_eq_mul_ulp (he : binaryExponent least q - precision + 1 ≤ e) :
    ∃ n : ℤ, (2 : ℚ) ^ e = n * ulp precision least q := by
  refine ⟨2 ^ (e - (binaryExponent least q - precision + 1)).toNat, ?_⟩
  have hcast : ((e - (binaryExponent least q - precision + 1)).toNat : ℤ) =
      e - (binaryExponent least q - precision + 1) := Int.toNat_of_nonneg (by omega)
  rw [ulp, Int.cast_pow, Int.cast_ofNat, ← zpow_natCast, hcast, ← zpow_add₀ two_ne_zero, sub_add_cancel]

theorem zpow_le_roundBinary (he : binaryExponent least q - precision + 1 ≤ e) (h : 2 ^ e ≤ q) :
    2 ^ e ≤ roundBinary precision least q := by
  have hpos : 0 < ulp precision least q := ulp_pos
  obtain ⟨n, hn⟩ := zpow_eq_mul_ulp he
  rw [hn] at h ⊢
  have hround : n ≤ roundEven (q / ulp precision least q) := le_roundEven ((le_div_iff₀ hpos).mpr h)
  exact mul_le_mul_of_nonneg_right (Int.cast_le.mpr hround) hpos.le

theorem roundBinary_le_zpow (he : binaryExponent least q - precision + 1 ≤ e) (h : q ≤ 2 ^ e) :
    roundBinary precision least q ≤ 2 ^ e := by
  have hpos : 0 < ulp precision least q := ulp_pos
  obtain ⟨n, hn⟩ := zpow_eq_mul_ulp he
  rw [hn] at h ⊢
  have hround : roundEven (q / ulp precision least q) ≤ n := roundEven_le ((div_le_iff₀ hpos).mpr h)
  exact mul_le_mul_of_nonneg_right (Int.cast_le.mpr hround) hpos.le

/-- **Rounding keeps the order.** -/
theorem roundBinary_mono (hprecision : 0 < precision) (hp : 0 < p) (h : p ≤ q) :
    roundBinary precision least p ≤ roundBinary precision least q := by
  have hq : 0 < q := hp.trans_le h
  have hexp : binaryExponent least p ≤ binaryExponent least q := binaryExponent_mono hp h
  rcases hexp.lt_or_eq with hlt | heq
  · -- a power of two is between them
    have hleast : least < binaryExponent least q := (le_max_right _ _).trans_lt hlt
    have hlog : binaryExponent least q = Int.log 2 q := by
      rw [binaryExponent, abs_of_pos hq] at hleast ⊢
      exact max_eq_left ((lt_max_iff.mp hleast).resolve_right (lt_irrefl _)).le
    have hqe : (2 : ℚ) ^ binaryExponent least q ≤ q := by
      rw [hlog]
      exact_mod_cast Int.zpow_log_le_self (b := 2) one_lt_two hq
    have hpe : p ≤ (2 : ℚ) ^ binaryExponent least q := by
      have hlt' : Int.log 2 p < binaryExponent least q := by
        rw [← abs_of_pos hp]
        exact (le_max_left _ _).trans_lt hlt
      exact_mod_cast ((Int.lt_zpow_iff_log_lt (b := 2) one_lt_two hp).mpr hlt').le
    calc roundBinary precision least p
        ≤ 2 ^ binaryExponent least q := roundBinary_le_zpow (by omega) hpe
      _ ≤ roundBinary precision least q := zpow_le_roundBinary (by omega) hqe
  · have hulp : ulp precision least p = ulp precision least q := by rw [ulp, ulp, heq]
    have hpos : 0 < ulp precision least q := ulp_pos
    have hround : roundEven (p / ulp precision least q) ≤ roundEven (q / ulp precision least q) :=
      roundEven_mono (div_le_div_of_nonneg_right h hpos.le)
    rw [roundBinary, roundBinary, hulp]
    exact mul_le_mul_of_nonneg_right (Int.cast_le.mpr hround) hpos.le

/-- What is at least the last bit does not round to zero. -/
theorem roundBinary_ne_zero (h : ulp precision least q ≤ |q|) : roundBinary precision least q ≠ 0 := by
  have hpos : 0 < ulp precision least q := ulp_pos
  have hround : roundEven (q / ulp precision least q) ≠ 0 := by
    rcases le_abs.mp h with hle | hle
    · have hone : 1 ≤ roundEven (q / ulp precision least q) := by
        refine le_roundEven ?_
        rwa [Int.cast_one, one_le_div hpos]
      omega
    · have hone : roundEven (q / ulp precision least q) ≤ -1 := by
        refine roundEven_le ?_
        rw [div_le_iff₀ hpos]
        push_cast
        linarith
      omega
  exact mul_ne_zero (Int.cast_ne_zero.mpr hround) hpos.ne'

theorem ulp_le_abs (hprecision : 0 < precision) (hq : q ≠ 0) (h : least ≤ Int.log 2 |q|) :
    ulp precision least q ≤ |q| := by
  have hself : (2 : ℚ) ^ Int.log 2 |q| ≤ |q| := by
    exact_mod_cast Int.zpow_log_le_self (b := 2) one_lt_two (abs_pos.mpr hq)
  refine le_trans (zpow_le_zpow_right₀ one_le_two ?_) hself
  rw [binaryExponent, max_eq_left h]
  omega

/-- **Where two fractions have one number next to them, they are within its last bit.** -/
theorem sub_le_ulp_of_roundBinary_eq (hp : 0 < p) (h : p ≤ q)
    (heq : roundBinary precision least p = roundBinary precision least q) : q - p ≤ ulp precision least q := by
  have hbelow : |roundBinary precision least p - p| ≤ ulp precision least p / 2 := abs_roundBinary_sub_le
  have habove : |roundBinary precision least q - q| ≤ ulp precision least q / 2 := abs_roundBinary_sub_le
  have hulp : ulp precision least p ≤ ulp precision least q := ulp_mono hp h
  linarith [(abs_le.mp hbelow).2, (abs_le.mp habove).1]

end Lumenia
