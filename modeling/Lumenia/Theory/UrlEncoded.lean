import Lumenia.Theory.Json
import Lumenia.Theory.Utf8

/-!
# Queries of URLs

Percent-encoding (RFC 3986), and the form encoding that `URLSearchParams` reads and writes. The two agree
on what is encoded, but not on a literal `+`, which a form takes for a space.
-/

namespace Lumenia.UrlEncoded

/-! ## Percent-encoding -/

def hexOctet (b : ℕ) : Option ℕ := Json.hexValue (.ofNat b)

/-- What is no triplet is kept as it is. -/
def percentDecode : List ℕ → List ℕ
  | 0x25 :: h :: l :: bs =>
    match hexOctet h, hexOctet l with
    | some high, some low => (high * 16 + low) :: percentDecode bs
    | _, _ => 0x25 :: percentDecode (h :: l :: bs)
  | b :: bs => b :: percentDecode bs
  | [] => []

/-- What percent-encoded octets stand for. -/
inductive PercentDecodes : List ℕ → List ℕ → Prop
  | nil : PercentDecodes [] []
  | octet {b : ℕ} {bs ds : List ℕ} (hb : b ≠ 0x25) (hrest : PercentDecodes bs ds) :
    PercentDecodes (b :: bs) (b :: ds)
  | triplet {h l high low : ℕ} {bs ds : List ℕ} (hhigh : hexOctet h = some high) (hlow : hexOctet l = some low)
    (hrest : PercentDecodes bs ds) : PercentDecodes (0x25 :: h :: l :: bs) ((high * 16 + low) :: ds)

/-- The text that a percent-encoded text stands for. -/
def Stands (enc cs : List Char) : Prop := PercentDecodes (utf8 enc) (utf8 cs)

/-! ## Forms -/

def plusToSpace (b : ℕ) : ℕ := if b = 0x2B then 0x20 else b

def formDecode (enc : List Char) : List Char := utf8Decode (percentDecode ((utf8 enc).map plusToSpace))

/-- The characters that are written as they are. -/
def isKept (c : Char) : Bool := c.isAlphanum || c = '*' || c = '-' || c = '.' || c = '_'

def hexDigit (n : ℕ) : ℕ := if n < 10 then 48 + n else 55 + n

def percentTriplet (b : ℕ) : List ℕ := [0x25, hexDigit (b / 16), hexDigit (b % 16)]

def formEncodeChar (c : Char) : List Char :=
  if c = ' ' then ['+']
  else if isKept c then [c]
  else ((utf8Char c).flatMap percentTriplet).map .ofNat

def formEncode (cs : List Char) : List Char := cs.flatMap formEncodeChar

/-- What is before the first `sep`, and what is behind it. -/
def splitFirst (sep : Char) (cs : List Char) : List Char × List Char :=
  (cs.takeWhile (· ≠ sep), (cs.dropWhile (· ≠ sep)).drop 1)

def readPair (part : List Char) : List Char × List Char :=
  let (name, value) := splitFirst '=' part
  (formDecode name, formDecode value)

/-- `new URLSearchParams(query)` -/
def parse (query : List Char) : List (List Char × List Char) :=
  let input := if query.head? = some '?' then query.tail else query
  ((input.splitOn '&').filter (· ≠ [])).map readPair

def get (params : List (List Char × List Char)) (name : List Char) : Option (List Char) :=
  (params.find? (·.1 = name)).map Prod.snd

def writePair (p : List Char × List Char) : List Char := formEncode p.1 ++ '=' :: formEncode p.2

/-- `toString()` -/
def serialize (params : List (List Char × List Char)) : List Char :=
  ['&'].intercalate (params.map writePair)

/-! ## Percent-decoding -/

section

variable {b : ℕ} {bs cs ds : List ℕ}

theorem percentDecode_cons (hb : b ≠ 0x25) : percentDecode (b :: bs) = b :: percentDecode bs := by
  rw [percentDecode]
  intro h l rest heq
  exact absurd heq hb

theorem percentDecode_triplet {h l high low : ℕ} (hhigh : hexOctet h = some high)
    (hlow : hexOctet l = some low) :
    percentDecode (0x25 :: h :: l :: bs) = (high * 16 + low) :: percentDecode bs := by
  rw [percentDecode, hhigh, hlow]

theorem PercentDecodes.eq (h : PercentDecodes bs ds) : percentDecode bs = ds := by
  induction h with
  | nil => rfl
  | octet hb _ ih => rw [percentDecode_cons hb, ih]
  | triplet hhigh hlow _ ih => rw [percentDecode_triplet hhigh hlow, ih]

/-- Octets without a `%` stand for themselves. -/
theorem PercentDecodes.self (h : 0x25 ∉ bs) : PercentDecodes bs bs := by
  induction bs with
  | nil => exact .nil
  | cons b bs ih =>
    rw [List.mem_cons, not_or] at h
    exact .octet (fun heq => h.1 heq.symm) (ih h.2)

/-! ## A literal plus -/

theorem plusToSpace_hex {n : ℕ} (h : hexOctet b = some n) : b ≠ 0x2B := by
  rintro rfl
  cases h

theorem plusToSpace_of_ne (h : b ≠ 0x2B) : plusToSpace b = b := if_neg h

theorem plusToSpace_ne_percent (h : b ≠ 0x25) : plusToSpace b ≠ 0x25 := by
  rw [plusToSpace]
  split
  · decide
  · exact h

/-- One octet, and the one that a form reads for it. -/
def Misread (b b' : ℕ) : Prop := b' = b ∨ b = 0x2B ∧ b' = 0x20

theorem misread_plusToSpace : Misread b (plusToSpace b) := by
  rw [plusToSpace]
  split
  · exact .inr ⟨‹_›, rfl⟩
  · exact .inl rfl

/-- A form reads a space for each literal plus, and every other octet as it is meant. -/
theorem PercentDecodes.misread (h : PercentDecodes bs ds) :
    List.Forall₂ Misread ds (percentDecode (bs.map plusToSpace)) := by
  induction h with
  | nil => exact .nil
  | octet hb _ ih =>
    rw [List.map_cons, percentDecode_cons (plusToSpace_ne_percent hb)]
    exact .cons misread_plusToSpace ih
  | triplet hhigh hlow _ ih =>
    rw [List.map_cons, List.map_cons, List.map_cons, plusToSpace_of_ne (plusToSpace_hex hhigh),
      plusToSpace_of_ne (plusToSpace_hex hlow), plusToSpace_of_ne (by decide),
      percentDecode_triplet hhigh hlow]
    exact .cons (.inl rfl) ih

theorem PercentDecodes.map_eq_iff (h : PercentDecodes bs ds) :
    percentDecode (bs.map plusToSpace) = ds ↔ 0x2B ∉ bs := by
  induction h with
  | nil => exact iff_of_true rfl List.not_mem_nil
  | @octet b bs ds hb _ ih =>
    rw [List.map_cons, percentDecode_cons (plusToSpace_ne_percent hb), List.cons_eq_cons, ih,
      List.mem_cons, not_or, plusToSpace]
    apply and_congr_left
    intro _
    split
    · rename_i heq
      exact iff_of_false (heq ▸ by decide) fun hne => hne heq.symm
    · rename_i hne
      exact iff_of_true rfl fun heq => hne heq.symm
  | triplet hhigh hlow _ ih =>
    rw [List.map_cons, List.map_cons, List.map_cons, plusToSpace_of_ne (plusToSpace_hex hhigh),
      plusToSpace_of_ne (plusToSpace_hex hlow), plusToSpace_of_ne (by decide),
      percentDecode_triplet hhigh hlow, List.cons_eq_cons, ih, List.mem_cons, List.mem_cons, List.mem_cons]
    have hh := plusToSpace_hex hhigh
    have hl := plusToSpace_hex hlow
    constructor
    · rintro ⟨-, hmem⟩ (h | h | h | h)
      · cases h
      · exact hh h.symm
      · exact hl h.symm
      · exact hmem h
    · intro hmem
      exact ⟨rfl, fun h => hmem (.inr (.inr (.inr h)))⟩

theorem PercentDecodes.plus_mem (h : PercentDecodes bs ds) (hplus : 0x2B ∈ bs) : 0x2B ∈ ds := by
  induction h with
  | nil => cases hplus
  | octet _ _ ih =>
    cases hplus with
    | head => exact List.mem_cons_self
    | tail _ hmem => exact List.mem_cons_of_mem _ (ih hmem)
  | triplet hhigh hlow _ ih =>
    cases hplus with
    | tail _ hmem =>
      cases hmem with
      | head => exact absurd rfl (plusToSpace_hex hhigh)
      | tail _ hmem =>
        cases hmem with
        | head => exact absurd rfl (plusToSpace_hex hlow)
        | tail _ hmem => exact List.mem_cons_of_mem _ (ih hmem)

/-- For a literal plus there is a space in what a form reads. -/
theorem PercentDecodes.space_mem (h : PercentDecodes bs ds) (hplus : 0x2B ∈ bs) :
    0x20 ∈ percentDecode (bs.map plusToSpace) := by
  induction h with
  | nil => cases hplus
  | octet hb _ ih =>
    rw [List.map_cons, percentDecode_cons (plusToSpace_ne_percent hb)]
    cases hplus with
    | head => exact List.mem_cons_self
    | tail _ hmem => exact List.mem_cons_of_mem _ (ih hmem)
  | triplet hhigh hlow _ ih =>
    rw [List.map_cons, List.map_cons, List.map_cons, plusToSpace_of_ne (plusToSpace_hex hhigh),
      plusToSpace_of_ne (plusToSpace_hex hlow), plusToSpace_of_ne (by decide),
      percentDecode_triplet hhigh hlow]
    cases hplus with
    | tail _ hmem =>
      cases hmem with
      | head => exact absurd rfl (plusToSpace_hex hhigh)
      | tail _ hmem =>
        cases hmem with
        | head => exact absurd rfl (plusToSpace_hex hlow)
        | tail _ hmem => exact List.mem_cons_of_mem _ (ih hmem)

end

/-! ## Decoding a text -/

variable {c sep : Char} {enc cs : List Char} {b : ℕ} {bs ds : List ℕ}

theorem utf8_formDecode (h : Stands enc cs) :
    utf8 (formDecode enc) = percentDecode ((utf8 enc).map plusToSpace) := by
  have hreplaced : ∀ b b', Misread b b' → b' = b ∨ b < 0x80 ∧ b' < 0x80 := by
    rintro b b' (rfl | ⟨rfl, rfl⟩)
    · exact .inl rfl
    · exact .inr ⟨by decide, by decide⟩
  obtain ⟨es, hes⟩ := exists_utf8_of_replaced hreplaced (PercentDecodes.misread h)
  rw [formDecode, hes, utf8Decode_utf8]

theorem stands_self (h : '%' ∉ cs) : Stands cs cs :=
  .self fun hmem => h ((mem_utf8_ascii (by decide)).mp hmem)

/-- A form reads what is meant if there is no literal plus. -/
theorem formDecode_eq_iff (h : Stands enc cs) : formDecode enc = cs ↔ '+' ∉ enc := by
  have hoctet : 0x2B ∈ utf8 enc ↔ '+' ∈ enc := mem_utf8_ascii (by decide)
  rw [← hoctet, ← PercentDecodes.map_eq_iff h, ← utf8_formDecode h]
  exact ⟨congrArg utf8, utf8_injective⟩

theorem space_mem_formDecode (h : Stands enc cs) (hplus : '+' ∈ enc) : ' ' ∈ formDecode enc := by
  have hoctet : 0x2B ∈ utf8 enc := (mem_utf8_ascii (by decide)).mpr hplus
  have hspace := PercentDecodes.space_mem h hoctet
  rw [← utf8_formDecode h] at hspace
  exact (mem_utf8_ascii (by decide)).mp hspace

theorem plus_mem_of_stands (h : Stands enc cs) (hplus : '+' ∈ enc) : '+' ∈ cs :=
  (mem_utf8_ascii (by decide)).mp (PercentDecodes.plus_mem h ((mem_utf8_ascii (by decide)).mpr hplus))

/-- A word without a space and a plus is read where it is meant, and nowhere else. -/
theorem formDecode_eq_word {word : List Char} (h : Stands enc cs) (hspace : ' ' ∉ word) (hplus : '+' ∉ word) :
    formDecode enc = word ↔ cs = word := by
  by_cases hmem : '+' ∈ enc
  · refine iff_of_false ?_ ?_
    · rintro rfl
      exact hspace (space_mem_formDecode h hmem)
    · rintro rfl
      exact hplus (plus_mem_of_stands h hmem)
  · rw [(formDecode_eq_iff h).mpr hmem]

/-! ## Writing a form -/

theorem hexDigit_spec {n : ℕ} (h : n < 16) :
    hexOctet (hexDigit n) = some n ∧ isKept (.ofNat (hexDigit n)) = true ∧ hexDigit n < 0x80 := by
  have hall : ∀ n < 16, hexOctet (hexDigit n) = some n ∧ isKept (.ofNat (hexDigit n)) = true ∧
      hexDigit n < 0x80 := by decide +kernel
  exact hall n h

theorem isAlphanum_eq : c.isAlphanum = (decide ('A'.val ≤ c.val ∧ c.val ≤ 'Z'.val) ||
    'a'.val ≤ c.val && c.val ≤ 'z'.val || '0'.val ≤ c.val && c.val ≤ '9'.val) := rfl

theorem kept_ascii (h : isKept c = true) : c.toNat < 0x80 := by
  simp only [isKept, Bool.or_eq_true, decide_eq_true_eq] at h
  rcases h with (((h | rfl) | rfl) | rfl) | rfl
  · simp only [isAlphanum_eq, Bool.or_eq_true, Bool.and_eq_true, decide_eq_true_eq,
      UInt32.le_iff_toNat_le] at h
    have hupper : 'Z'.val.toNat < 0x80 := by decide
    have hlower : 'z'.val.toNat < 0x80 := by decide
    have hdigit : '9'.val.toNat < 0x80 := by decide
    change c.val.toNat < 0x80
    omega
  · decide
  · decide
  · decide
  · decide

theorem kept_ne (h : isKept c = true) : c ≠ '+' ∧ c ≠ '%' ∧ c ≠ '#' ∧ c ≠ '&' ∧ c ≠ '=' ∧ c ≠ '?' := by
  refine ⟨?_, ?_, ?_, ?_, ?_, ?_⟩ <;>
  · rintro rfl
    revert h
    decide

theorem PercentDecodes.triplets (hb : ∀ b ∈ bs, b < 0x100) {es : List ℕ} (h : PercentDecodes ds es) :
    PercentDecodes (bs.flatMap percentTriplet ++ ds) (bs ++ es) := by
  induction bs with
  | nil => exact h
  | cons b bs ih =>
    have hlt := hb b List.mem_cons_self
    have hhigh := (hexDigit_spec (n := b / 16) (by omega)).1
    have hlow := (hexDigit_spec (n := b % 16) (by omega)).1
    have hrest := ih fun b hmem => hb b (List.mem_cons_of_mem _ hmem)
    rw [List.flatMap_cons, percentTriplet, List.append_assoc, List.cons_append, List.cons_append, List.cons_append,
      List.nil_append, List.cons_append]
    have hstep := PercentDecodes.triplet hhigh hlow hrest
    rwa [Nat.div_add_mod' b 16] at hstep

theorem mem_triplets (hb : ∀ b ∈ bs, b < 0x100) {d : ℕ} (h : d ∈ bs.flatMap percentTriplet) :
    d < 0x80 ∧ d ≠ 0x2B ∧ (.ofNat d = '%' ∨ isKept (.ofNat d) = true) := by
  obtain ⟨b, hmem, hd⟩ := List.mem_flatMap.mp h
  have hlt := hb b hmem
  have hdigit : ∀ n < 16, hexDigit n < 0x80 ∧ hexDigit n ≠ 0x2B ∧
      (.ofNat (hexDigit n) = '%' ∨ isKept (.ofNat (hexDigit n)) = true) := by
    intro n hn
    obtain ⟨hread, hkept, hascii⟩ := hexDigit_spec hn
    exact ⟨hascii, plusToSpace_hex hread, .inr hkept⟩
  simp only [percentTriplet, List.mem_cons, List.not_mem_nil, or_false] at hd
  rcases hd with rfl | rfl | rfl
  · exact ⟨by decide, by decide, .inl rfl⟩
  · exact hdigit _ (by omega)
  · exact hdigit _ (by omega)

theorem utf8_ofNat (h : ∀ b ∈ bs, b < 0x80) : utf8 (bs.map .ofNat) = bs := by
  induction bs with
  | nil => rfl
  | cons b bs ih =>
    rw [List.map_cons, utf8_cons, utf8Char_ofNat (h b List.mem_cons_self),
      ih fun b hmem => h b (List.mem_cons_of_mem _ hmem)]
    rfl

/-- What is written for one character is read as that character. -/
theorem decodes_formEncodeChar (h : PercentDecodes bs ds) :
    PercentDecodes ((utf8 (formEncodeChar c)).map plusToSpace ++ bs) (utf8Char c ++ ds) := by
  rw [formEncodeChar]
  split
  · rename_i hspace
    rw [hspace]
    exact .octet (by decide) h
  · split
    · rename_i hkept
      have hascii := kept_ascii hkept
      obtain ⟨hplus, hpercent, -⟩ := kept_ne hkept
      have hnat : ∀ d : Char, c ≠ d → c.toNat ≠ d.toNat := fun d hne heq => hne (Char.toNat_inj.mp heq)
      rw [utf8_cons, utf8Char_ascii hascii]
      change PercentDecodes (plusToSpace c.toNat :: bs) (c.toNat :: ds)
      rw [plusToSpace_of_ne (hnat '+' hplus)]
      exact .octet (hnat '%' hpercent) h
    · have hmem := @mem_triplets (utf8Char c) fun b hb => lt_of_mem_utf8Char hb
      have hsame : ((utf8Char c).flatMap percentTriplet).map plusToSpace = (utf8Char c).flatMap percentTriplet :=
        (List.map_congr_left fun d hd => plusToSpace_of_ne (hmem hd).2.1).trans (List.map_id _)
      rw [utf8_ofNat fun d hd => (hmem hd).1, hsame]
      exact .triplets (fun b hb => lt_of_mem_utf8Char hb) h

theorem formDecode_formEncode : formDecode (formEncode cs) = cs := by
  have hread : PercentDecodes ((utf8 (formEncode cs)).map plusToSpace) (utf8 cs) := by
    induction cs with
    | nil => exact .nil
    | cons c cs ih =>
      rw [formEncode, List.flatMap_cons, utf8_append, List.map_append, utf8_cons]
      exact decodes_formEncodeChar ih
  rw [formDecode, hread.eq, utf8Decode_utf8]

theorem mem_formEncode (h : c ∈ formEncode cs) : c = '+' ∨ c = '%' ∨ isKept c = true := by
  obtain ⟨d, -, hc⟩ := List.mem_flatMap.mp h
  rw [formEncodeChar] at hc
  split at hc
  · exact .inl (List.mem_singleton.mp hc)
  · split at hc
    · rw [List.mem_singleton.mp hc]
      exact .inr (.inr ‹_›)
    · obtain ⟨b, hb, rfl⟩ := List.mem_map.mp hc
      exact .inr (mem_triplets (fun b hb => lt_of_mem_utf8Char hb) hb).2.2

theorem notMem_formEncode (h : sep = '&' ∨ sep = '=' ∨ sep = '?') :
    sep ∉ formEncode cs := by
  intro hmem
  obtain rfl | rfl | hkept := mem_formEncode hmem
  · revert h
    decide
  · revert h
    decide
  · obtain ⟨-, -, -, hamp, heq, hquestion⟩ := kept_ne hkept
    rcases h with h | h | h
    · exact hamp h
    · exact heq h
    · exact hquestion h

/-! ## Reading a query -/

theorem splitFirst_append {name value : List Char} (h : sep ∉ name) :
    splitFirst sep (name ++ sep :: value) = (name, value) := by
  have hne : ∀ c ∈ name, decide (c ≠ sep) = true := fun c hc => decide_eq_true fun heq => h (heq ▸ hc)
  rw [splitFirst, List.takeWhile_append_of_pos hne, List.dropWhile_append_of_pos hne]
  simp

/-- One `?` is dropped, and no more. -/
theorem parse_question {query : List Char} (h : query.head? ≠ some '?') : parse ('?' :: query) = parse query := by
  rw [parse, parse, if_neg h]
  rfl

/-- The pairs of a query are read as they were joined. -/
theorem parse_intercalate {parts : List (List Char × List Char)}
    (hname : ∀ p ∈ parts, '&' ∉ p.1 ∧ '=' ∉ p.1) (hvalue : ∀ p ∈ parts, '&' ∉ p.2)
    (hfirst : ∀ p ∈ parts.head?, p.1.head? ≠ some '?') :
    parse (['&'].intercalate (parts.map fun p => p.1 ++ '=' :: p.2)) =
      parts.map fun p => (formDecode p.1, formDecode p.2) := by
  have hquery : (['&'].intercalate (parts.map fun p => p.1 ++ '=' :: p.2)).head? ≠ some '?' := by
    cases parts with
    | nil => exact nofun
    | cons p ps =>
      obtain ⟨rest, hrest⟩ : ∃ rest, ['&'].intercalate ((p :: ps).map fun p => p.1 ++ '=' :: p.2) =
          p.1 ++ '=' :: rest := by
        cases ps with
        | nil => exact ⟨p.2, by simp⟩
        | cons q qs => exact ⟨p.2 ++ '&' :: _, by simp; rfl⟩
      rw [hrest]
      have hname := hfirst p rfl
      cases hp : p.1 with
      | nil => simp
      | cons c cs => rwa [hp] at hname
  rw [parse, if_neg hquery]
  cases parts with
  | nil => rfl
  | cons p ps =>
    have hamp : ∀ part ∈ ((p :: ps).map fun p => p.1 ++ '=' :: p.2), '&' ∉ part := by
      intro part hpart
      obtain ⟨q, hq, rfl⟩ := List.mem_map.mp hpart
      simp [(hname q hq).1, hvalue q hq]
    rw [List.splitOn_intercalate '&' hamp (by simp), List.filter_eq_self.mpr ?_, List.map_map]
    · apply List.map_congr_left
      intro q hq
      rw [Function.comp_apply, readPair, splitFirst_append (hname q hq).2]
    · intro part hpart
      obtain ⟨q, -, rfl⟩ := List.mem_map.mp hpart
      simp

theorem parse_serialize {params : List (List Char × List Char)} : parse (serialize params) = params := by
  have hwrite : params.map writePair =
      (params.map fun p => (formEncode p.1, formEncode p.2)).map fun p => p.1 ++ '=' :: p.2 := by
    rw [List.map_map]
    rfl
  have hplain : ∀ p ∈ params.map fun p => (formEncode p.1, formEncode p.2), ∃ n v, p = (formEncode n, formEncode v) := by
    intro p hp
    obtain ⟨q, -, rfl⟩ := List.mem_map.mp hp
    exact ⟨_, _, rfl⟩
  rw [serialize, hwrite, parse_intercalate]
  · rw [List.map_map]
    refine (List.map_congr_left fun p _ => ?_).trans (List.map_id _)
    rw [Function.comp_apply, formDecode_formEncode, formDecode_formEncode]
    rfl
  · intro p hp
    obtain ⟨n, v, rfl⟩ := hplain p hp
    exact ⟨notMem_formEncode (by decide), notMem_formEncode (by decide)⟩
  · intro p hp
    obtain ⟨n, v, rfl⟩ := hplain p hp
    exact notMem_formEncode (by decide)
  · intro p hp hquestion
    obtain ⟨n, v, rfl⟩ := hplain p (List.mem_of_mem_head? hp)
    exact notMem_formEncode (by decide) (List.mem_of_mem_head? hquestion)

end Lumenia.UrlEncoded
