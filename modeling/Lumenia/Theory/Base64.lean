import Mathlib.Data.List.DropRight

/-!
# Base 64

The text that base 64 writes for octets (RFC 4648), with its padding, and the lenient reader that skips what is
no letter and stops at the first padding. It gives back what was written, also in the URL alphabet and without
the padding.
-/

namespace Lumenia.Base64

/-! ## Groups of three octets -/

/-- The numbers below 64 of some octets, the last one filled up with zeros. -/
def sextets : List ℕ → List ℕ
  | a :: b :: c :: bs => [a / 4, a % 4 * 16 + b / 16, b % 16 * 4 + c / 64, c % 64] ++ sextets bs
  | [a, b] => [a / 4, a % 4 * 16 + b / 16, b % 16 * 4]
  | [a] => [a / 4, a % 4 * 16]
  | [] => []

/-- The octets that are whole. -/
def octets : List ℕ → List ℕ
  | p :: q :: r :: s :: ds => [p * 4 + q / 16, q % 16 * 16 + r / 4, r % 4 * 64 + s] ++ octets ds
  | [p, q, r] => [p * 4 + q / 16, q % 16 * 16 + r / 4]
  | [p, q] => [p * 4 + q / 16]
  | _ => []

variable {bs : List ℕ}

theorem sextets_lt (hbs : ∀ b ∈ bs, b < 256) : ∀ d ∈ sextets bs, d < 64 := by
  fun_induction sextets bs with
  | case1 a b c bs ih =>
    have ha := hbs a (by simp)
    have hb := hbs b (by simp)
    have hc := hbs c (by simp)
    refine List.forall_mem_append.mpr ⟨?_, ih fun b hmem => hbs b (by simp [hmem])⟩
    simp only [List.forall_mem_cons, List.not_mem_nil, false_implies, implies_true, and_true]
    omega
  | case2 a b =>
    have ha := hbs a (by simp)
    have hb := hbs b (by simp)
    simp only [List.forall_mem_cons, List.not_mem_nil, false_implies, implies_true, and_true]
    omega
  | case3 a =>
    have ha := hbs a (by simp)
    simp only [List.forall_mem_cons, List.not_mem_nil, false_implies, implies_true, and_true]
    omega
  | case4 => exact fun d hd => absurd hd List.not_mem_nil

theorem octets_sextets (hbs : ∀ b ∈ bs, b < 256) : octets (sextets bs) = bs := by
  fun_induction sextets bs with
  | case1 a b c bs ih =>
    have hb := hbs b (by simp)
    have hc := hbs c (by simp)
    have hrest := ih fun b hmem => hbs b (by simp [hmem])
    simp only [List.cons_append, List.nil_append, octets, hrest, List.cons.injEq, and_true]
    omega
  | case2 a b =>
    have hb := hbs b (by simp)
    simp only [octets, List.cons.injEq, and_true]
    omega
  | case3 a =>
    simp only [octets, List.cons.injEq, and_true]
    omega
  | case4 => rfl

/-! ## Letters -/

def alphabet : List Char := "ABCDEFGHIJKLMNOPQRSTUVWXYZabcdefghijklmnopqrstuvwxyz0123456789+/".toList

def letter (d : ℕ) : Char := alphabet.getD d 'A'

/-- The number of a letter, of either alphabet. -/
def sextet (c : Char) : Option ℕ :=
  if c = '-' then some 62
  else if c = '_' then some 63
  else if c ∈ alphabet then some (alphabet.idxOf c)
  else none

/-- As many as fill up a group of four letters. -/
def padding (n : ℕ) : List Char := List.replicate ((3 - n % 3) % 3) '='

def encode (bs : List ℕ) : List Char := (sextets bs).map letter ++ padding bs.length

def decode (cs : List Char) : List ℕ := octets ((cs.takeWhile (· ≠ '=')).filterMap sextet)

/-- The URL alphabet. -/
def toUrl (c : Char) : Char := if c = '+' then '-' else if c = '/' then '_' else c

def ofUrl (c : Char) : Char := if c = '-' then '+' else if c = '_' then '/' else c

/-- In the URL alphabet, without the padding. -/
def encodeUrl (bs : List ℕ) : List Char := ((encode bs).map toUrl).rdropWhile (· = '=')

def isUrlLetter (c : Char) : Bool := c.isAlphanum || c = '-' || c = '_'

theorem letter_spec {d : ℕ} (hd : d < 64) : sextet (letter d) = some d ∧ letter d ≠ '=' ∧
    ofUrl (toUrl (letter d)) = letter d ∧ toUrl (letter d) ≠ '=' ∧ isUrlLetter (toUrl (letter d)) = true := by
  have hall : ∀ d < 64, sextet (letter d) = some d ∧ letter d ≠ '=' ∧ ofUrl (toUrl (letter d)) = letter d ∧
      toUrl (letter d) ≠ '=' ∧ isUrlLetter (toUrl (letter d)) = true := by decide +kernel
  exact hall d hd

theorem filterMap_letter {ds : List ℕ} (hds : ∀ d ∈ ds, d < 64) : (ds.map letter).filterMap sextet = ds := by
  induction ds with
  | nil => rfl
  | cons d ds ih =>
    rw [List.map_cons, List.filterMap_cons_some (letter_spec (hds d List.mem_cons_self)).1,
      ih fun d hmem => hds d (List.mem_cons_of_mem _ hmem)]

theorem takeWhile_letters {ds : List ℕ} (hds : ∀ d ∈ ds, d < 64) {rest : List Char} (hrest : ∀ c ∈ rest, c = '=') :
    (ds.map letter ++ rest).takeWhile (· ≠ '=') = ds.map letter := by
  have hletters : ∀ c ∈ ds.map letter, decide (c ≠ '=') = true := by
    intro c hc
    obtain ⟨d, hd, rfl⟩ := List.mem_map.mp hc
    exact decide_eq_true (letter_spec (hds d hd)).2.1
  rw [List.takeWhile_append_of_pos hletters]
  cases rest with
  | nil => rw [List.takeWhile_nil, List.append_nil]
  | cons c rest =>
    rw [List.takeWhile_cons_of_neg, List.append_nil]
    simp [hrest c List.mem_cons_self]

theorem decode_letters {rest : List Char} (hbs : ∀ b ∈ bs, b < 256) (hrest : ∀ c ∈ rest, c = '=') :
    decode ((sextets bs).map letter ++ rest) = bs := by
  rw [decode, takeWhile_letters (sextets_lt hbs) hrest, filterMap_letter (sextets_lt hbs), octets_sextets hbs]

theorem decode_encode (hbs : ∀ b ∈ bs, b < 256) : decode (encode bs) = bs :=
  decode_letters hbs fun _ hc => List.eq_of_mem_replicate hc

theorem encodeUrl_eq (hbs : ∀ b ∈ bs, b < 256) : encodeUrl bs = (sextets bs).map fun d => toUrl (letter d) := by
  have hpadding : (padding bs.length).map toUrl = padding bs.length := List.map_replicate
  have hletters : ∀ c ∈ (sextets bs).map (fun d => toUrl (letter d)), c ≠ '=' := by
    intro c hc
    obtain ⟨d, hd, rfl⟩ := List.mem_map.mp hc
    exact (letter_spec (sextets_lt hbs d hd)).2.2.2.1
  have hdrop (n : ℕ) : ((sextets bs).map (fun d => toUrl (letter d)) ++ List.replicate n '=').rdropWhile (· = '=') =
      (sextets bs).map fun d => toUrl (letter d) := by
    induction n with
    | zero =>
      rw [List.replicate_zero, List.append_nil, List.rdropWhile_eq_self_iff]
      exact fun hne => decide_eq_true_iff.not.mpr (hletters _ (List.getLast_mem hne))
    | succ n ih => rw [List.replicate_succ', ← List.append_assoc, List.rdropWhile_concat_pos _ _ _ rfl, ih]
  rw [encodeUrl, encode, List.map_append, List.map_map, hpadding]
  exact hdrop _

/-- The URL alphabet is read back without the padding. -/
theorem decode_encodeUrl (hbs : ∀ b ∈ bs, b < 256) : decode ((encodeUrl bs).map ofUrl) = bs := by
  have hsame : (encodeUrl bs).map ofUrl = (sextets bs).map letter := by
    rw [encodeUrl_eq hbs, List.map_map]
    exact List.map_congr_left fun d hd => (letter_spec (sextets_lt hbs d hd)).2.2.1
  rw [hsame, ← List.append_nil ((sextets bs).map letter)]
  exact decode_letters hbs fun _ hc => absurd hc List.not_mem_nil

theorem mem_encodeUrl (hbs : ∀ b ∈ bs, b < 256) {c : Char} (hc : c ∈ encodeUrl bs) : isUrlLetter c = true := by
  rw [encodeUrl_eq hbs] at hc
  obtain ⟨d, hd, rfl⟩ := List.mem_map.mp hc
  exact (letter_spec (sextets_lt hbs d hd)).2.2.2.2

end Lumenia.Base64
