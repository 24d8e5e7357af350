import Lumenia.Theory.UrlEncoded

/-!
# Components of URIs

`encodeURIComponent` and `decodeURIComponent`. What the first writes is read back by the second and as a field of
a form.
-/

namespace Lumenia.UriComponent

open UrlEncoded

/-- The characters that are written as they are. -/
def isUnreserved (c : Char) : Bool :=
  c.isAlphanum || c = '-' || c = '_' || c = '.' || c = '!' || c = '~' || c = '*' || c = '\'' || c = '(' || c = ')'

def encodeChar (c : Char) : List Char :=
  if isUnreserved c then [c] else ((utf8Char c).flatMap percentTriplet).map .ofNat

def encodeURIComponent (cs : List Char) : List Char := cs.flatMap encodeChar

/-- The octets of a text, unless some `%` begins no triplet. -/
def percentOctets : List Char → Option (List ℕ)
  | '%' :: h :: l :: cs =>
    match Json.hexValue h, Json.hexValue l with
    | some high, some low => (percentOctets cs).map ((high * 16 + low) :: ·)
    | _, _ => none
  | c :: cs => if c = '%' then none else (percentOctets cs).map (utf8Char c ++ ·)
  | [] => some []

/-- It throws where a triplet is malformed and where the octets are no UTF-8. -/
def decodeURIComponent (cs : List Char) : Option (List Char) :=
  (percentOctets cs).bind fun bs => if utf8 (utf8Decode bs) = bs then some (utf8Decode bs) else none

/-! ## The round trip -/

variable {c : Char} {cs : List Char} {bs ds : List ℕ}

theorem isKept_of_isAlphanum (h : c.isAlphanum = true) : isKept c = true := by
  simp [isKept, h]

theorem unreserved_of_kept (h : isKept c = true) : isUnreserved c = true := by
  simp only [isKept, Bool.or_eq_true, decide_eq_true_eq] at h
  rcases h with (((h | rfl) | rfl) | rfl) | rfl
  · simp [isUnreserved, h]
  all_goals decide

theorem unreserved_ascii (h : isUnreserved c = true) : c.toNat < 0x80 := by
  simp only [isUnreserved, Bool.or_eq_true, decide_eq_true_eq] at h
  rcases h with ((((((((h | rfl) | rfl) | rfl) | rfl) | rfl) | rfl) | rfl) | rfl) | rfl
  · exact kept_ascii (isKept_of_isAlphanum h)
  all_goals decide

theorem unreserved_ne (h : isUnreserved c = true) :
    c ≠ '+' ∧ c ≠ '%' ∧ c ≠ '#' ∧ c ≠ '&' ∧ c ≠ '=' ∧ c ≠ '?' := by
  refine ⟨?_, ?_, ?_, ?_, ?_, ?_⟩ <;>
  · rintro rfl
    revert h
    decide

theorem percentOctets_char (h : c ≠ '%') : percentOctets (c :: cs) = (percentOctets cs).map (utf8Char c ++ ·) := by
  rw [percentOctets, if_neg h]
  intro h' l cs' heq
  exact absurd heq h

theorem percentOctets_triplets (hbs : ∀ b ∈ bs, b < 0x100) :
    percentOctets ((bs.flatMap percentTriplet).map .ofNat ++ cs) = (percentOctets cs).map (bs ++ ·) := by
  induction bs with
  | nil =>
    rw [List.flatMap_nil, List.map_nil, List.nil_append]
    cases percentOctets cs <;> rfl
  | cons b bs ih =>
    have hlt := hbs b List.mem_cons_self
    have hhigh : Json.hexValue (.ofNat (hexDigit (b / 16))) = some (b / 16) := (hexDigit_spec (by omega)).1
    have hlow : Json.hexValue (.ofNat (hexDigit (b % 16))) = some (b % 16) := (hexDigit_spec (by omega)).1
    have hstep : percentOctets ('%' :: .ofNat (hexDigit (b / 16)) :: .ofNat (hexDigit (b % 16)) ::
        ((bs.flatMap percentTriplet).map .ofNat ++ cs)) =
        (percentOctets ((bs.flatMap percentTriplet).map .ofNat ++ cs)).map (b :: ·) := by
      rw [percentOctets, hhigh, hlow]
      dsimp only
      rw [Nat.div_add_mod']
    rw [List.flatMap_cons, percentTriplet]
    refine hstep.trans ?_
    rw [ih fun b hmem => hbs b (List.mem_cons_of_mem _ hmem), Option.map_map]
    rfl

theorem percentOctets_encodeChar : percentOctets (encodeChar c ++ cs) = (percentOctets cs).map (utf8Char c ++ ·) := by
  rw [encodeChar]
  split
  · rename_i hplain
    exact percentOctets_char (unreserved_ne hplain).2.1
  · exact percentOctets_triplets fun b hb => lt_of_mem_utf8Char hb

theorem percentOctets_encode : percentOctets (encodeURIComponent cs) = some (utf8 cs) := by
  induction cs with
  | nil => rfl
  | cons c cs ih =>
    rw [encodeURIComponent] at ih ⊢
    rw [List.flatMap_cons, percentOctets_encodeChar, ih, utf8_cons]
    rfl

theorem decode_encode : decodeURIComponent (encodeURIComponent cs) = some cs := by
  rw [decodeURIComponent, percentOctets_encode, Option.bind_some, utf8Decode_utf8, if_pos rfl]

theorem mem_encode (h : c ∈ encodeURIComponent cs) : c = '%' ∨ isUnreserved c = true := by
  obtain ⟨d, -, hc⟩ := List.mem_flatMap.mp h
  rw [encodeChar] at hc
  split at hc
  · rw [List.mem_singleton.mp hc]
    exact .inr ‹_›
  · obtain ⟨b, hb, rfl⟩ := List.mem_map.mp hc
    exact (mem_triplets (fun b hb => lt_of_mem_utf8Char hb) hb).2.2.imp_right unreserved_of_kept

/-- Nothing that is written ends a field, a query or a URL. -/
theorem notMem_encode (h : c ∈ ['+', '#', '&', '=', '?']) : c ∉ encodeURIComponent cs := by
  intro hmem
  have hne : c ≠ '%' := by
    rintro rfl
    revert h
    decide
  have hplain := unreserved_ne ((mem_encode hmem).resolve_left hne)
  simp only [List.mem_cons, List.not_mem_nil, or_false] at h
  rcases h with rfl | rfl | rfl | rfl | rfl
  · exact hplain.1 rfl
  · exact hplain.2.2.1 rfl
  · exact hplain.2.2.2.1 rfl
  · exact hplain.2.2.2.2.1 rfl
  · exact hplain.2.2.2.2.2 rfl

theorem decodes_encodeChar (h : PercentDecodes bs ds) :
    PercentDecodes (utf8 (encodeChar c) ++ bs) (utf8Char c ++ ds) := by
  rw [encodeChar]
  split
  · rename_i hplain
    have hascii := unreserved_ascii hplain
    have hpercent : c.toNat ≠ 0x25 := fun heq => (unreserved_ne hplain).2.1 (Char.toNat_inj.mp heq)
    rw [utf8_cons, utf8Char_ascii hascii]
    exact .octet hpercent h
  · have hmem := @mem_triplets (utf8Char c) fun b hb => lt_of_mem_utf8Char hb
    rw [utf8_ofNat fun d hd => (hmem hd).1]
    exact .triplets (fun b hb => lt_of_mem_utf8Char hb) h

theorem stands_encode : Stands (encodeURIComponent cs) cs := by
  induction cs with
  | nil => exact .nil
  | cons c cs ih =>
    rw [Stands, encodeURIComponent, List.flatMap_cons, utf8_append, utf8_cons]
    exact decodes_encodeChar ih

/-- A form reads what was written, as there is no plus in it. -/
theorem formDecode_encode : formDecode (encodeURIComponent cs) = cs :=
  (formDecode_eq_iff stands_encode).mpr (notMem_encode (by decide))

end Lumenia.UriComponent
