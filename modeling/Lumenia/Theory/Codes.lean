import Mathlib.Data.List.Basic
import Mathlib.Data.Nat.Basic
import Mathlib.Tactic.Ring

/-!
# Self-delimiting codes

A code is self-delimiting when a reader always knows where a word ends, so that concatenated words
can be taken apart in one way only. Words of one length are (`SelfDelimiting.of_length`), and unary
numerals are. Fields with a separator between them can be taken apart from the end, if the separator
is in none of the fields that are taken off (`append_separated_inj`).
-/

namespace Lumenia

variable {α β : Type*}

/-- What follows a word never changes which word it is. -/
def SelfDelimiting (enc : α → List β) : Prop :=
  ∀ ⦃a b s t⦄, enc a ++ s = enc b ++ t → a = b ∧ s = t

namespace SelfDelimiting

variable {enc : α → List β}

theorem of_length {n : ℕ} (hinj : Function.Injective enc) (hlen : ∀ a, (enc a).length = n) :
    SelfDelimiting enc := by
  intro a b s t h
  obtain ⟨hab, hst⟩ := List.append_inj h ((hlen a).trans (hlen b).symm)
  exact ⟨hinj hab, hst⟩

theorem toList {n : ℕ} : SelfDelimiting (Vector.toList : Vector β n → List β) :=
  of_length (fun _ _ h => Vector.toList_inj.mp h) fun _ => Vector.length_toList

/-- Unary numerals, ended by a different letter. -/
theorem unary {b c : β} (hne : b ≠ c) :
    SelfDelimiting fun n : ℕ => List.replicate n b ++ [c] := by
  intro m n s t h
  induction m generalizing n with
  | zero =>
    cases n with
    | zero => simpa using h
    | succ n =>
      simp only [List.replicate_zero, List.nil_append, List.replicate_succ, List.cons_append,
        List.cons.injEq] at h
      exact absurd h.1.symm hne
  | succ m ih =>
    cases n with
    | zero =>
      simp only [List.replicate_zero, List.nil_append, List.replicate_succ, List.cons_append,
        List.cons.injEq] at h
      exact absurd h.1 hne
    | succ n =>
      obtain ⟨hmn, hst⟩ := ih (n := n) (by simpa [List.replicate_succ] using h)
      exact ⟨congrArg _ hmn, hst⟩

end SelfDelimiting

/-! ## Separated fields -/

theorem append_separated_inj {c : β} {a a' b b' : List β} (hb : c ∉ b) (hb' : c ∉ b')
    (h : a ++ c :: b = a' ++ c :: b') : a = a' ∧ b = b' := by
  rcases List.append_eq_append_iff.mp h with ⟨d, rfl, hd⟩ | ⟨d, rfl, hd⟩
  · cases d with
    | nil => simpa using hd
    | cons e d =>
      obtain ⟨rfl, rfl⟩ := List.cons.inj hd
      simp at hb
  · cases d with
    | nil => simpa [eq_comm] using hd
    | cons e d =>
      obtain ⟨rfl, rfl⟩ := List.cons.inj hd
      simp at hb'

/-- A first field without the separator is taken off in one way, too. -/
theorem separated_append_inj {c : β} {a a' b b' : List β} (ha : c ∉ a) (ha' : c ∉ a')
    (h : a ++ c :: b = a' ++ c :: b') : a = a' ∧ b = b' := by
  rcases List.append_eq_append_iff.mp h with ⟨d, rfl, hd⟩ | ⟨d, rfl, hd⟩
  · cases d with
    | nil => simpa using hd
    | cons e d =>
      obtain ⟨rfl, -⟩ := List.cons.inj hd
      simp at ha'
  · cases d with
    | nil => simpa [eq_comm] using hd
    | cons e d =>
      obtain ⟨rfl, -⟩ := List.cons.inj hd
      simp at ha

/-! ## Numbers of a fixed width -/

/-- The last `w` digits of `n` to the base 256, most significant first. -/
def bigEndian : ℕ → ℕ → List UInt8
  | 0, _ => []
  | w + 1, n => bigEndian w (n / 256) ++ [UInt8.ofNat n]

@[simp] theorem length_bigEndian {w n : ℕ} : (bigEndian w n).length = w := by
  induction w generalizing n with
  | zero => rfl
  | succ w ih => simp [bigEndian, ih]

theorem bigEndian_inj {w m n : ℕ} (hm : m < 256 ^ w) (hn : n < 256 ^ w)
    (h : bigEndian w m = bigEndian w n) : m = n := by
  induction w generalizing m n with
  | zero => omega
  | succ w ih =>
    rw [pow_succ] at hm hn
    obtain ⟨hhigh, hlow⟩ := List.append_inj' h rfl
    have hdiv : m / 256 = n / 256 := ih (by omega) (by omega) hhigh
    have hmod : m % 256 = n % 256 := by
      have := congrArg UInt8.toNat (List.singleton_inj.mp hlow)
      simpa using this
    omega

end Lumenia
