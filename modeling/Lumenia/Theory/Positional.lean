import Mathlib.Data.List.Basic
import Mathlib.Data.List.Induction
import Mathlib.Tactic.Ring

/-!
# Positional numerals

Numerals of a fixed width to any base, and decimal numerals as long as they need to be. Reading a
numeral gives back the number it was written for.
-/

namespace Lumenia

/-- The number of a list of digits, most significant first. -/
def ofDigits (b : ℕ) (ds : List ℕ) : ℕ := ds.foldl (fun n d => b * n + d) 0

/-- The last `w` digits of `n`, most significant first. -/
def fixedDigits (b : ℕ) : ℕ → ℕ → List ℕ
  | 0, _ => []
  | w + 1, n => fixedDigits b w (n / b) ++ [n % b]

/-- The digits of a number, at most as many as the fuel. -/
def numeralAux (b : ℕ) : ℕ → ℕ → List ℕ
  | 0, _ => []
  | fuel + 1, n => if n < b then [n] else numeralAux b fuel (n / b) ++ [n % b]

/-- The digits of a number, with no zero in front. -/
def numeral (b n : ℕ) : List ℕ := numeralAux b (n + 1) n

variable {b w n m fuel : ℕ} {ds es : List ℕ}

theorem ofDigits_concat {d : ℕ} : ofDigits b (ds ++ [d]) = b * ofDigits b ds + d := by
  rw [ofDigits, List.foldl_append]
  rfl

theorem ofDigits_append : ofDigits b (ds ++ es) = ofDigits b ds * b ^ es.length + ofDigits b es := by
  induction es using List.reverseRecOn with
  | nil => simp [ofDigits]
  | append_singleton es d ih =>
    rw [← List.append_assoc, ofDigits_concat, ih, ofDigits_concat, List.length_append,
      List.length_singleton, pow_succ]
    ring

theorem ofDigits_cons {d : ℕ} : ofDigits b (d :: ds) = d * b ^ ds.length + ofDigits b ds := by
  rw [← List.singleton_append, ofDigits_append, ← List.nil_append [d], ofDigits_concat]
  simp [ofDigits]

theorem ofDigits_lt (h : ∀ d ∈ ds, d < b) : ofDigits b ds < b ^ ds.length := by
  induction ds using List.reverseRecOn with
  | nil => simp [ofDigits]
  | append_singleton ds d ih =>
    have hprev := ih fun e he => h e (List.mem_append_left _ he)
    have hd : d < b := h d (List.mem_append_right _ (List.mem_singleton_self d))
    rw [ofDigits_concat, List.length_append, List.length_singleton, pow_succ']
    calc b * ofDigits b ds + d < b * ofDigits b ds + b := Nat.add_lt_add_left hd _
      _ = b * (ofDigits b ds + 1) := (Nat.mul_succ _ _).symm
      _ ≤ b * b ^ ds.length := Nat.mul_le_mul_left b hprev

/-- As many digits for the same number are the same digits. -/
theorem ofDigits_inj (hds : ∀ d ∈ ds, d < b) (hes : ∀ d ∈ es, d < b) (hlen : ds.length = es.length)
    (h : ofDigits b ds = ofDigits b es) : ds = es := by
  induction ds generalizing es with
  | nil => exact (List.length_eq_zero_iff.mp hlen.symm).symm
  | cons d ds ih =>
    cases es with
    | nil => cases hlen
    | cons e es =>
      have htail : ds.length = es.length := Nat.succ.inj hlen
      have hds' : ∀ d ∈ ds, d < b := fun c hc => hds c (List.mem_cons_of_mem _ hc)
      have hes' : ∀ e ∈ es, e < b := fun c hc => hes c (List.mem_cons_of_mem _ hc)
      have hlt := ofDigits_lt hds'
      have hlt' := ofDigits_lt hes'
      rw [ofDigits_cons, ofDigits_cons, htail] at h
      rw [htail] at hlt
      have hpos : 0 < b ^ es.length := Nat.zero_lt_of_lt hlt
      have hhead : d = e := by
        have hdiv := congrArg (· / b ^ es.length) h
        simpa only [Nat.mul_comm _ (b ^ es.length), Nat.mul_add_div hpos, Nat.div_eq_of_lt hlt,
          Nat.div_eq_of_lt hlt', Nat.add_zero] using hdiv
      subst hhead
      rw [ih hds' hes' htail (Nat.add_left_cancel h)]

@[simp] theorem length_fixedDigits : (fixedDigits b w n).length = w := by
  induction w generalizing n with
  | zero => rfl
  | succ w ih => rw [fixedDigits, List.length_append, ih, List.length_singleton]

theorem lt_of_mem_fixedDigits (hb : 0 < b) {d : ℕ} (h : d ∈ fixedDigits b w n) : d < b := by
  induction w generalizing n with
  | zero => cases h
  | succ w ih =>
    rcases List.mem_append.mp h with h | h
    · exact ih h
    · rw [List.mem_singleton.mp h]
      exact Nat.mod_lt n hb

theorem ofDigits_fixedDigits : ofDigits b (fixedDigits b w n) = n % b ^ w := by
  induction w generalizing n with
  | zero => rw [pow_zero, Nat.mod_one]; rfl
  | succ w ih => rw [fixedDigits, ofDigits_concat, ih, Nat.add_comm, pow_succ', Nat.mod_mul]

theorem lt_of_mem_numeralAux (hb : 0 < b) {d : ℕ} (h : d ∈ numeralAux b fuel n) : d < b := by
  induction fuel generalizing n with
  | zero => cases h
  | succ fuel ih =>
    rw [numeralAux] at h
    split at h
    · rename_i hlt
      rwa [List.mem_singleton.mp h]
    · rcases List.mem_append.mp h with h | h
      · exact ih h
      · rw [List.mem_singleton.mp h]
        exact Nat.mod_lt n hb

theorem ofDigits_numeralAux (hb : 1 < b) (hfuel : n < fuel) :
    ofDigits b (numeralAux b fuel n) = n := by
  induction fuel generalizing n with
  | zero => omega
  | succ fuel ih =>
    rw [numeralAux]
    split
    · exact (congrArg (· + n) (Nat.mul_zero b)).trans (Nat.zero_add n)
    · rename_i hle
      have hdiv : n / b < n := Nat.div_lt_self (by omega) hb
      rw [ofDigits_concat, ih (by omega), Nat.div_add_mod]

/-- A number below `b ^ w` has at most `w` digits. -/
theorem length_numeralAux_le (hw : 0 < w) (hn : n < b ^ w) : (numeralAux b fuel n).length ≤ w := by
  induction fuel generalizing n w with
  | zero => exact Nat.zero_le w
  | succ fuel ih =>
    rw [numeralAux]
    split
    · exact hw
    · rename_i hge
      obtain ⟨v, rfl⟩ : ∃ v, w = v + 1 := ⟨w - 1, by omega⟩
      have hv : 0 < v := by
        by_contra hzero
        obtain rfl : v = 0 := by omega
        rw [zero_add, pow_one] at hn
        exact hge hn
      have hdiv : n / b < b ^ v := Nat.div_lt_of_lt_mul (by rwa [← pow_succ'])
      have hlen := ih hv hdiv
      rw [List.length_append, List.length_singleton]
      omega

theorem numeralAux_ne_nil (hfuel : 0 < fuel) : numeralAux b fuel n ≠ [] := by
  cases fuel with
  | zero => omega
  | succ fuel =>
    rw [numeralAux]
    split
    · exact List.cons_ne_nil n []
    · exact List.append_ne_nil_of_right_ne_nil _ (List.cons_ne_nil _ _)

theorem lt_of_mem_numeral (hb : 0 < b) {d : ℕ} (h : d ∈ numeral b n) : d < b :=
  lt_of_mem_numeralAux hb h

theorem ofDigits_numeral (hb : 1 < b) : ofDigits b (numeral b n) = n :=
  ofDigits_numeralAux hb (Nat.lt_succ_self n)

theorem length_numeral_le (hw : 0 < w) (hn : n < b ^ w) : (numeral b n).length ≤ w :=
  length_numeralAux_le hw hn

theorem numeral_ne_nil : numeral b n ≠ [] := numeralAux_ne_nil (Nat.succ_pos n)

end Lumenia
