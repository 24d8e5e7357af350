import Mathlib.Data.List.Basic
import Mathlib.Data.List.Forall2

/-!
# UTF-8

Texts as octets, and the decoder that puts U+FFFD for what is no text. It gives back what was encoded.
-/

namespace Lumenia

/-! ## Encoding and decoding -/

def utf8Char (c : Char) : List ℕ :=
  if c.toNat < 0x80 then [c.toNat]
  else if c.toNat < 0x800 then [0xC0 + c.toNat / 64, 0x80 + c.toNat % 64]
  else if c.toNat < 0x10000 then [0xE0 + c.toNat / 4096, 0x80 + c.toNat / 64 % 64, 0x80 + c.toNat % 64]
  else [0xF0 + c.toNat / 262144, 0x80 + c.toNat / 4096 % 64, 0x80 + c.toNat / 64 % 64, 0x80 + c.toNat % 64]

def utf8 (cs : List Char) : List ℕ := cs.flatMap utf8Char

def replacement : Char := .ofNat 0xFFFD

/-- What has come of a character, how many octets it still needs, and the bounds of the next one. -/
structure Pending where
  codePoint : ℕ
  needed : ℕ
  lower : ℕ
  upper : ℕ

/-- The first octet of a character. -/
def firstOctet (b : ℕ) : Char ⊕ Pending :=
  if b < 0x80 then .inl (.ofNat b)
  else if 0xC2 ≤ b ∧ b < 0xE0 then .inr ⟨b - 0xC0, 1, 0x80, 0xBF⟩
  else if 0xE0 ≤ b ∧ b < 0xF0 then
    .inr ⟨b - 0xE0, 2, if b = 0xE0 then 0xA0 else 0x80, if b = 0xED then 0x9F else 0xBF⟩
  else if 0xF0 ≤ b ∧ b < 0xF5 then
    .inr ⟨b - 0xF0, 3, if b = 0xF0 then 0x90 else 0x80, if b = 0xF4 then 0x8F else 0xBF⟩
  else .inl replacement

def utf8DecodeFrom : Option Pending → List ℕ → List Char
  | none, [] => []
  | some _, [] => [replacement]
  | none, b :: bs =>
    match firstOctet b with
    | .inl c => c :: utf8DecodeFrom none bs
    | .inr p => utf8DecodeFrom (some p) bs
  | some p, b :: bs =>
    if p.lower ≤ b ∧ b ≤ p.upper then
      if p.needed = 1 then .ofNat (p.codePoint * 64 + (b - 0x80)) :: utf8DecodeFrom none bs
      else utf8DecodeFrom (some ⟨p.codePoint * 64 + (b - 0x80), p.needed - 1, 0x80, 0xBF⟩) bs
    else
      match firstOctet b with
      | .inl c => replacement :: c :: utf8DecodeFrom none bs
      | .inr p => replacement :: utf8DecodeFrom (some p) bs

def utf8Decode (bs : List ℕ) : List Char := utf8DecodeFrom none bs

/-! ## The round trip -/

variable {c : Char} {cs ds : List Char} {b : ℕ} {bs : List ℕ}

theorem utf8_cons : utf8 (c :: cs) = utf8Char c ++ utf8 cs := List.flatMap_cons

theorem utf8_append : utf8 (cs ++ ds) = utf8 cs ++ utf8 ds := List.flatMap_append

theorem utf8Char_ascii (h : c.toNat < 0x80) : utf8Char c = [c.toNat] := if_pos h

/-- A pending character goes on with an octet in bounds. -/
theorem utf8DecodeFrom_next {p : Pending} (hb : p.lower ≤ b ∧ b ≤ p.upper) (hneeded : p.needed ≠ 1) :
    utf8DecodeFrom (some p) (b :: bs) =
      utf8DecodeFrom (some ⟨p.codePoint * 64 + (b - 0x80), p.needed - 1, 0x80, 0xBF⟩) bs := by
  rw [utf8DecodeFrom, if_pos hb, if_neg hneeded]

theorem utf8DecodeFrom_last {p : Pending} (hb : p.lower ≤ b ∧ b ≤ p.upper) (hneeded : p.needed = 1) :
    utf8DecodeFrom (some p) (b :: bs) = .ofNat (p.codePoint * 64 + (b - 0x80)) :: utf8DecodeFrom none bs := by
  rw [utf8DecodeFrom, if_pos hb, if_pos hneeded]

theorem utf8DecodeFrom_first {p : Pending} (h : firstOctet b = .inr p) :
    utf8DecodeFrom none (b :: bs) = utf8DecodeFrom (some p) bs := by
  rw [utf8DecodeFrom, h]

theorem utf8DecodeFrom_char : utf8DecodeFrom none (utf8Char c ++ bs) = c :: utf8DecodeFrom none bs := by
  have hvalid : c.toNat < 0xD800 ∨ 0xDFFF < c.toNat ∧ c.toNat < 0x110000 := c.valid
  have hback : Char.ofNat c.toNat = c := Char.ofNat_toNat c
  obtain ⟨n, hn⟩ : ∃ n, c.toNat = n := ⟨_, rfl⟩
  rw [hn] at hvalid hback
  rw [utf8Char, hn]
  split
  · rename_i hone
    rw [List.singleton_append, utf8DecodeFrom, firstOctet, if_pos hone]
    dsimp only
    rw [hback]
  · split
    · have hfirst : firstOctet (0xC0 + n / 64) = .inr ⟨n / 64, 1, 0x80, 0xBF⟩ := by
        rw [firstOctet, if_neg (by omega), if_pos (by omega), Nat.add_sub_cancel_left]
      rw [List.cons_append, List.singleton_append, utf8DecodeFrom_first hfirst,
        utf8DecodeFrom_last (by dsimp only; omega) rfl]
      dsimp only
      rw [Nat.add_sub_cancel_left, Nat.div_add_mod', hback]
    · split
      · have hfirst : firstOctet (0xE0 + n / 4096) = .inr ⟨n / 4096, 2,
            if 0xE0 + n / 4096 = 0xE0 then 0xA0 else 0x80, if 0xE0 + n / 4096 = 0xED then 0x9F else 0xBF⟩ := by
          rw [firstOctet, if_neg (by omega), if_neg (by omega), if_pos (by omega), Nat.add_sub_cancel_left]
        rw [List.cons_append, List.cons_append, List.singleton_append, utf8DecodeFrom_first hfirst,
          utf8DecodeFrom_next (by dsimp only; split <;> split <;> omega) (by simp),
          utf8DecodeFrom_last (by dsimp only; omega) rfl]
        dsimp only
        rw [show (n / 4096 * 64 + (0x80 + n / 64 % 64 - 0x80)) * 64 + (0x80 + n % 64 - 0x80) = n by omega, hback]
      · have hfirst : firstOctet (0xF0 + n / 262144) = .inr ⟨n / 262144, 3,
            if 0xF0 + n / 262144 = 0xF0 then 0x90 else 0x80, if 0xF0 + n / 262144 = 0xF4 then 0x8F else 0xBF⟩ := by
          rw [firstOctet, if_neg (by omega), if_neg (by omega), if_neg (by omega), if_pos (by omega),
            Nat.add_sub_cancel_left]
        rw [List.cons_append, List.cons_append, List.cons_append, List.singleton_append,
          utf8DecodeFrom_first hfirst,
          utf8DecodeFrom_next (by dsimp only; split <;> split <;> omega) (by simp),
          utf8DecodeFrom_next (by dsimp only; omega) (by simp), utf8DecodeFrom_last (by dsimp only; omega) rfl]
        dsimp only
        rw [show ((n / 262144 * 64 + (0x80 + n / 4096 % 64 - 0x80)) * 64 + (0x80 + n / 64 % 64 - 0x80)) * 64 +
          (0x80 + n % 64 - 0x80) = n by omega, hback]

theorem utf8Decode_utf8 : utf8Decode (utf8 cs) = cs := by
  induction cs with
  | nil => rfl
  | cons c cs ih =>
    rw [utf8Decode, utf8_cons, utf8DecodeFrom_char]
    exact congrArg (c :: ·) ih

theorem utf8_injective (h : utf8 cs = utf8 ds) : cs = ds := by
  calc cs = utf8Decode (utf8 cs) := utf8Decode_utf8.symm
    _ = utf8Decode (utf8 ds) := by rw [h]
    _ = ds := utf8Decode_utf8

/-! ## Octets -/

theorem lt_of_mem_utf8Char (h : b ∈ utf8Char c) : b < 0x100 := by
  have hvalid : c.toNat < 0xD800 ∨ 0xDFFF < c.toNat ∧ c.toNat < 0x110000 := c.valid
  unfold utf8Char at h
  split at h
  · simp only [List.mem_singleton] at h
    omega
  · split at h
    · simp only [List.mem_cons, List.not_mem_nil, or_false] at h
      omega
    · split at h
      · simp only [List.mem_cons, List.not_mem_nil, or_false] at h
        omega
      · simp only [List.mem_cons, List.not_mem_nil, or_false] at h
        omega

/-- An octet below 128 is a character of its own. -/
theorem eq_of_mem_utf8Char (h : b ∈ utf8Char c) (hb : b < 0x80) : utf8Char c = [b] ∧ c = .ofNat b := by
  unfold utf8Char at h ⊢
  split at h
  · rename_i hone
    rw [if_pos hone]
    obtain rfl := List.mem_singleton.mp h
    exact ⟨rfl, (Char.ofNat_toNat c).symm⟩
  · split at h
    · simp only [List.mem_cons, List.not_mem_nil, or_false] at h
      omega
    · split at h
      · simp only [List.mem_cons, List.not_mem_nil, or_false] at h
        omega
      · simp only [List.mem_cons, List.not_mem_nil, or_false] at h
        omega

theorem toNat_ofNat_ascii (hb : b < 0x80) : (Char.ofNat b).toNat = b := by
  have hall : ∀ b < 0x80, (Char.ofNat b).toNat = b := by decide +kernel
  exact hall b hb

theorem utf8Char_ofNat (hb : b < 0x80) : utf8Char (.ofNat b) = [b] := by
  have hnat := toNat_ofNat_ascii hb
  rw [utf8Char_ascii (by omega), hnat]

theorem mem_utf8_ascii (hb : b < 0x80) : b ∈ utf8 cs ↔ .ofNat b ∈ cs := by
  rw [utf8, List.mem_flatMap]
  constructor
  · rintro ⟨c, hc, h⟩
    rwa [← (eq_of_mem_utf8Char h hb).2]
  · intro hc
    exact ⟨_, hc, by rw [utf8Char_ofNat hb]; exact List.mem_singleton_self b⟩

/-- Octets below 128 may be replaced by others of that kind: there is still a text. -/
theorem exists_utf8_of_replaced {R : ℕ → ℕ → Prop} {bs : List ℕ}
    (hR : ∀ b b', R b b' → b' = b ∨ b < 0x80 ∧ b' < 0x80) (h : List.Forall₂ R (utf8 cs) bs) :
    ∃ ds, bs = utf8 ds := by
  induction cs generalizing bs with
  | nil =>
    cases h
    exact ⟨[], rfl⟩
  | cons c cs ih =>
    rw [utf8_cons] at h
    have hhead := List.forall₂_take (utf8Char c).length h
    have htail := List.forall₂_drop (utf8Char c).length h
    rw [List.take_left] at hhead
    rw [List.drop_left] at htail
    obtain ⟨ds, hds⟩ := ih htail
    suffices hchar : ∃ d, bs.take (utf8Char c).length = utf8Char d by
      obtain ⟨d, hd⟩ := hchar
      exact ⟨d :: ds, by rw [utf8_cons, ← hd, ← hds, List.take_append_drop]⟩
    by_cases hc : c.toNat < 0x80
    · rw [utf8Char_ascii hc] at hhead ⊢
      obtain ⟨b, bs, hb, hnil, hbs⟩ := List.forall₂_cons_left_iff.mp hhead
      cases hnil
      rw [hbs]
      obtain rfl | ⟨-, hb⟩ := hR _ _ hb
      · exact ⟨c, (utf8Char_ascii hc).symm⟩
      · exact ⟨.ofNat b, (utf8Char_ofNat hb).symm⟩
    · -- no octet of a longer character is below 128
      refine ⟨c, ?_⟩
      have hhigh : ∀ b ∈ utf8Char c, ¬b < 0x80 := by
        intro b hb hlt
        obtain ⟨-, rfl⟩ := eq_of_mem_utf8Char hb hlt
        exact hc (by rwa [toNat_ofNat_ascii hlt])
      have hboth := (List.forall₂_and_left _ _).mpr ⟨hhigh, hhead⟩
      have hsame : List.Forall₂ Eq (utf8Char c) (bs.take (utf8Char c).length) := by
        refine hboth.imp fun b b' ⟨hb, hr⟩ => ?_
        obtain heq | ⟨hlt, -⟩ := hR _ _ hr
        · exact heq.symm
        · exact absurd hlt hb
      rw [List.forall₂_eq_eq_eq] at hsame
      exact hsame.symm

end Lumenia
