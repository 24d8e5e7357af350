import Lumenia.Web.ClaimLink

/-!
# A claim link is read as it was written

Whatever the sender's name holds, and in both shapes. What a private link has before its `#` is the same for any
two amounts, names, keys and locks.
-/

namespace Lumenia.Web.ClaimLink

open Sponsor (isSpace)
open UriComponent UrlEncoded

/-! ## Trimming -/

section

variable {α : Type} {p q : α → Bool} {cs : List α}

theorem dropWhile_rdropWhile : (cs.rdropWhile q).dropWhile q = (cs.dropWhile q).rdropWhile q := by
  induction cs using List.reverseRecOn with
  | nil => rfl
  | append_singleton cs c ih =>
    rw [List.rdropWhile_concat, List.dropWhile_append]
    split
    · rename_i hc
      split
      · rename_i hnil
        rw [ih, List.isEmpty_iff.mp hnil, List.dropWhile_cons_of_pos hc]
        rfl
      · rw [ih, List.rdropWhile_concat, if_pos hc]
    · rename_i hc
      rw [List.dropWhile_append]
      split
      · rw [List.dropWhile_cons_of_neg hc, List.rdropWhile_singleton, if_neg hc]
      · rw [List.rdropWhile_concat, if_neg hc]

theorem dropWhile_filter : ((cs.dropWhile q).filter p).dropWhile q = (cs.filter p).dropWhile q := by
  induction cs with
  | nil => rfl
  | cons c cs ih =>
    by_cases hc : q c = true
    · rw [List.dropWhile_cons_of_pos hc, ih, List.filter_cons]
      split
      · rw [List.dropWhile_cons_of_pos hc]
      · rfl
    · rw [List.dropWhile_cons_of_neg hc]

theorem rdropWhile_filter : ((cs.rdropWhile q).filter p).rdropWhile q = (cs.filter p).rdropWhile q := by
  simp only [List.rdropWhile, ← List.filter_reverse, List.reverse_reverse, dropWhile_filter]

end

/-- What is trimmed off before characters are taken out is trimmed off after. -/
theorem trimText_filter {p : Char → Bool} {cs : List Char} :
    trimText ((trimText cs).filter p) = trimText (cs.filter p) := by
  calc trimText ((trimText cs).filter p)
      = ((((cs.rdropWhile isSpace).dropWhile isSpace).filter p).dropWhile isSpace).rdropWhile isSpace := by
        rw [trimText, trimText, dropWhile_rdropWhile]
    _ = (((cs.rdropWhile isSpace).filter p).rdropWhile isSpace).dropWhile isSpace := by
        rw [dropWhile_filter, dropWhile_rdropWhile]
    _ = trimText (cs.filter p) := by rw [rdropWhile_filter, dropWhile_rdropWhile, trimText]

/-! ## Names -/

variable {name : List Char}

theorem shownName_trimText : shownName (trimText name) = shownName name := by
  rw [shownName, shownName, trimText_filter]

/-- A name that is only blank is none. -/
theorem shownName_blank (hname : trimText name = []) : shownName name = none := by
  rw [← shownName_trimText, hname]
  rfl

theorem sanitize_encode : sanitizeSenderName (some (encodeURIComponent name)) = shownName name := by
  rw [sanitizeSenderName, decode_encode, Option.bind_some]

theorem nameFromDecoded_some : nameFromDecoded (some name) = shownName name := sanitize_encode

/-! ## Fields -/

/-- A field, if there is a value. -/
def field (name : String) (value : Option (List Char)) : List (List Char × List Char) :=
  value.toList.map fun v => (name.toList, v)

def writeField (f : List Char × List Char) : List Char := f.1 ++ '=' :: encodeURIComponent f.2

/-- A name of a field holds none of the signs around it. -/
def isFieldName (name : List Char) : Bool := name ≠ [] && name.all isUnreserved

variable {fields fields' : List (List Char × List Char)} {f : List Char × List Char} {n : String}
  {value : Option (List Char)} {c : Char}

theorem isFieldName_field (hn : isFieldName n.toList = true) : ∀ f ∈ field n value, isFieldName f.1 = true := by
  intro f hf
  obtain ⟨v, -, rfl⟩ := List.mem_map.mp hf
  exact hn

theorem notMem_name (hname : isFieldName f.1 = true) (h : c ∈ ['+', '#', '&', '=', '?']) : c ∉ f.1 := by
  intro hmem
  simp only [isFieldName, Bool.and_eq_true, List.all_eq_true] at hname
  have hplain := unreserved_ne (hname.2 c hmem)
  simp only [List.mem_cons, List.not_mem_nil, or_false] at h
  rcases h with rfl | rfl | rfl | rfl | rfl
  · exact hplain.1 rfl
  · exact hplain.2.2.1 rfl
  · exact hplain.2.2.2.1 rfl
  · exact hplain.2.2.2.2.1 rfl
  · exact hplain.2.2.2.2.2 rfl

theorem notMem_writeField (hname : isFieldName f.1 = true) (h : c ∈ ['+', '#', '&', '?']) : c ∉ writeField f := by
  have h' : c ∈ ['+', '#', '&', '=', '?'] := by
    simp only [List.mem_cons, List.not_mem_nil, or_false] at h ⊢
    tauto
  have hne : c ≠ '=' := by
    rintro rfl
    revert h
    decide
  simp only [writeField, List.mem_append, List.mem_cons, not_or]
  exact ⟨notMem_name hname h', hne, notMem_encode h'⟩

theorem encode_plain {cs : List Char} (h : ∀ c ∈ cs, isUnreserved c = true) : encodeURIComponent cs = cs := by
  induction cs with
  | nil => rfl
  | cons c cs ih =>
    rw [encodeURIComponent] at ih ⊢
    rw [List.flatMap_cons, encodeChar, if_pos (h c List.mem_cons_self),
      ih fun c hc => h c (List.mem_cons_of_mem _ hc), List.singleton_append]

theorem formDecode_plain {cs : List Char} (h : ∀ c ∈ cs, isUnreserved c = true) : formDecode cs = cs := by
  conv_lhs => rw [← encode_plain h]
  exact formDecode_encode

/-- The fields of a query are read as they were written. -/
theorem parse_fields (hnames : ∀ f ∈ fields, isFieldName f.1 = true) :
    parse (['&'].intercalate (fields.map writeField)) = fields := by
  have hparts : fields.map writeField =
      (fields.map fun f => (f.1, encodeURIComponent f.2)).map fun f => f.1 ++ '=' :: f.2 := by
    rw [List.map_map]
    rfl
  have hpart : ∀ g ∈ fields.map fun f => (f.1, encodeURIComponent f.2), isFieldName g.1 = true ∧
      ∃ v, g.2 = encodeURIComponent v := by
    intro g hg
    obtain ⟨f, hf, rfl⟩ := List.mem_map.mp hg
    exact ⟨hnames f hf, f.2, rfl⟩
  rw [hparts, parse_intercalate, List.map_map]
  · refine (List.map_congr_left fun f hf => ?_).trans (List.map_id _)
    have hplain := hnames f hf
    simp only [isFieldName, Bool.and_eq_true, List.all_eq_true] at hplain
    rw [Function.comp_apply, formDecode_plain hplain.2, formDecode_encode]
    rfl
  · exact fun g hg => ⟨notMem_name (hpart g hg).1 (by decide), notMem_name (hpart g hg).1 (by decide)⟩
  · intro g hg
    obtain ⟨-, v, hv⟩ := hpart g hg
    exact hv ▸ notMem_encode (by decide)
  · intro g hg hquestion
    exact notMem_name (hpart g (List.mem_of_mem_head? hg)).1 (by decide) (List.mem_of_mem_head? hquestion)

theorem get_append {name : List Char} :
    UrlEncoded.get (fields ++ fields') name = (UrlEncoded.get fields name).or (UrlEncoded.get fields' name) := by
  rw [UrlEncoded.get, UrlEncoded.get, UrlEncoded.get, List.find?_append]
  cases fields.find? (·.1 = name) <;> rfl

theorem get_field {m : String} : UrlEncoded.get (field n value) m.toList = if n = m then value else none := by
  have hinj : n.toList = m.toList ↔ n = m := String.toList_inj
  cases value with
  | none => simp [field, UrlEncoded.get]
  | some v =>
    by_cases hnm : n = m
    · simp [field, UrlEncoded.get, hnm]
    · simp [field, UrlEncoded.get, hinj, hnm]

theorem intercalate_cons {first : List Char} {rest : List (List Char)} :
    ['&'].intercalate (first :: rest) = first ++ rest.flatMap ('&' :: ·) := by
  induction rest generalizing first with
  | nil => simp
  | cons second rest ih => rw [List.intercalate_cons_cons, ih, List.flatMap_cons, List.append_assoc]; rfl

/-- A field after others. -/
theorem flatMap_field : ((field n value).map writeField).flatMap ('&' :: ·) =
    (value.map fun v => '&' :: n.toList ++ '=' :: encodeURIComponent v).getD [] := by
  cases value with
  | none => rfl
  | some v => simp [field, writeField]

/-- The text of the count, if it is written. -/
def slotsText (slots : Option ℕ) : Option (List Char) := slots.map fun n => (toString n).toList

/-- A mark that is written or not. -/
def mark (written : Bool) (value : String) : Option (List Char) := if written then some value.toList else none

/-- A name that is written unless it is blank. -/
def namePart (name : List Char) : Option (List Char) := if trimText name ≠ [] then some name else none

/-! ## The fields of a link -/

variable {p : V2LinkParts}

def richFields (p : V2LinkParts) : List (List Char × List Char) :=
  field "a" (some p.amount) ++ field "s" (namePart p.from') ++ field "g" (slotsText p.slots) ++
    field "p" (mark p.passwordLocked "1") ++ field "n" (mark p.mainnet "public") ++
    field "seeded" (mark p.seeded "1") ++ field "preview" (some "rich".toList) ++ field "src" p.src

def privateFields (p : V2LinkParts) : List (List Char × List Char) :=
  field "g" (slotsText p.slots) ++ field "n" (mark p.mainnet "public") ++ field "seeded" (mark p.seeded "1") ++
    field "src" p.src

theorem unreserved_of_isAlphanum (h : c.isAlphanum = true) : isUnreserved c = true :=
  unreserved_of_kept (isKept_of_isAlphanum h)

theorem isAlphanum_of_isDigit (h : c.isDigit = true) : c.isAlphanum = true := by
  change (c.isAlpha || c.isDigit) = true
  rw [h, Bool.or_true]

theorem isAlphanum_of_isLower (h : c.isLower = true) : c.isAlphanum = true := by
  change (c.isUpper || c.isLower || c.isDigit) = true
  rw [h, Bool.or_true, Bool.true_or]

theorem encode_digits {n : ℕ} : encodeURIComponent (toString n).toList = (toString n).toList := by
  refine encode_plain fun c hc => unreserved_of_isAlphanum (isAlphanum_of_isDigit ?_)
  rw [Json.toList_toString] at hc
  exact Nat.isDigit_of_mem_toDigits (by decide) (by decide) hc

theorem encode_src {src : List Char} (h : isLinkSrc src = true) : encodeURIComponent src = src := by
  refine encode_plain fun c hc => unreserved_of_isAlphanum (isAlphanum_of_isLower ?_)
  simp only [isLinkSrc, Bool.and_eq_true, List.all_eq_true] at h
  exact h.2 c hc

theorem map_slots {slots : Option ℕ} : (field "g" (slotsText slots)).map writeField =
    match slots with
    | some n => ["g=".toList ++ (toString n).toList]
    | none => [] := by
  cases slots with
  | none => rfl
  | some n => exact congrArg (fun v => ["g=".toList ++ v]) encode_digits

theorem map_mark {written : Bool} {name value : String} (hvalue : encodeURIComponent value.toList = value.toList) :
    (field name (mark written value)).map writeField =
      if written then [name.toList ++ '=' :: value.toList] else [] := by
  cases written with
  | false => rfl
  | true => exact congrArg (fun v => [name.toList ++ '=' :: v]) hvalue

theorem flatMap_slots {slots : Option ℕ} : ((field "g" (slotsText slots)).map writeField).flatMap ('&' :: ·) =
    match slots with
    | some n => "&g=".toList ++ (toString n).toList
    | none => [] := by
  cases slots with
  | none => rfl
  | some n =>
    rw [flatMap_field, slotsText, Option.map_some, Option.map_some, encode_digits]
    rfl

theorem flatMap_mark {written : Bool} {name mark' : String} (hmark : encodeURIComponent mark'.toList = mark'.toList) :
    ((field name (mark written mark')).map writeField).flatMap ('&' :: ·) =
      if written then '&' :: name.toList ++ '=' :: mark'.toList else [] := by
  rw [flatMap_field]
  cases written with
  | false => rfl
  | true => exact congrArg (fun v => '&' :: name.toList ++ '=' :: v) hmark

theorem flatMap_src (hsrc : p.src.all isLinkSrc = true) : ((field "src" p.src).map writeField).flatMap ('&' :: ·) =
    match p.src with
    | some src => "&src=".toList ++ src
    | none => [] := by
  rw [flatMap_field]
  cases hp : p.src with
  | none => rfl
  | some src =>
    rw [hp] at hsrc
    rw [Option.map_some, encode_src (by simpa using hsrc)]
    rfl

theorem append_fields {a b c d e f g h i : List Char} :
    a ++ b ++ c ++ d ++ e ++ f ++ g ++ h ++ i = a ++ b ++ (c ++ d ++ e ++ f ++ g ++ h ++ i) := by
  simp only [List.append_assoc]

theorem richQuery_eq (hsrc : p.src.all isLinkSrc = true) :
    p.richQuery = ['&'].intercalate ((richFields p).map writeField) := by
  have hname : ((field "s" (namePart p.from')).map writeField).flatMap ('&' :: ·) =
      if trimText p.from' ≠ [] then "&s=".toList ++ encodeURIComponent p.from' else [] := by
    rw [flatMap_field, namePart]
    split <;> rfl
  have hfirst : (richFields p).map writeField = writeField ("a".toList, p.amount) ::
      (field "s" (namePart p.from') ++ field "g" (slotsText p.slots) ++ field "p" (mark p.passwordLocked "1") ++
        field "n" (mark p.mainnet "public") ++ field "seeded" (mark p.seeded "1") ++
        field "preview" (some "rich".toList) ++ field "src" p.src).map writeField := by
    simp only [richFields, List.append_assoc]
    rfl
  rw [hfirst, intercalate_cons]
  simp only [List.map_append, List.flatMap_append]
  rw [hname, flatMap_slots, flatMap_mark (by decide), flatMap_mark (by decide), flatMap_mark (by decide),
    flatMap_src hsrc]
  exact append_fields

theorem privateQuery_eq (hsrc : p.src.all isLinkSrc = true) :
    p.privateQuery = ['&'].intercalate ((privateFields p).map writeField) := by
  have hlast : (field "src" p.src).map writeField =
      match p.src with
      | some src => ["src=".toList ++ src]
      | none => [] := by
    cases hp : p.src with
    | none => rfl
    | some src =>
      rw [hp] at hsrc
      exact congrArg (fun v => ["src=".toList ++ v]) (encode_src (by simpa using hsrc))
  simp only [privateFields, List.map_append]
  rw [map_slots, map_mark (by decide), map_mark (by decide), hlast]
  rfl

/-! ## The query is read -/

theorem names_richFields : ∀ f ∈ richFields p, isFieldName f.1 = true := by
  simp only [richFields, List.forall_mem_append]
  refine ⟨⟨⟨⟨⟨⟨⟨?_, ?_⟩, ?_⟩, ?_⟩, ?_⟩, ?_⟩, ?_⟩, ?_⟩
  all_goals exact isFieldName_field (by decide)

theorem names_privateFields : ∀ f ∈ privateFields p, isFieldName f.1 = true := by
  simp only [privateFields, List.forall_mem_append]
  refine ⟨⟨⟨?_, ?_⟩, ?_⟩, ?_⟩
  all_goals exact isFieldName_field (by decide)

/-- What is written of fields has no sign that ends the query. -/
theorem notMem_fields (hnames : ∀ f ∈ fields, isFieldName f.1 = true) (h : c = '#' ∨ c = '?') :
    c ∉ ['&'].intercalate (fields.map writeField) := by
  have hmore : c ∉ (fields.map writeField).flatMap ('&' :: ·) := by
    rw [List.mem_flatMap]
    rintro ⟨part, hpart, hc⟩
    obtain ⟨f, hf, rfl⟩ := List.mem_map.mp hpart
    rcases List.mem_cons.mp hc with rfl | hc
    · revert h
      decide
    · exact notMem_writeField (hnames f hf) (by rcases h with rfl | rfl <;> decide) hc
  cases fields with
  | nil => exact List.not_mem_nil
  | cons f fields =>
    rw [List.map_cons, intercalate_cons, List.mem_append, not_or]
    rw [List.map_cons, List.flatMap_cons, List.mem_append, not_or] at hmore
    exact ⟨fun hc => hmore.1 (List.mem_cons_of_mem _ hc), hmore.2⟩

theorem parseSlots_slotsText {slots : Option ℕ} (hslots : ∀ n ∈ slots, minPoolSlots ≤ n ∧ n ≤ maxPoolSlots) :
    parseSlots (slotsText slots) = slots := by
  have hall : ∀ n ≤ maxPoolSlots, minPoolSlots ≤ n → parseSlots (some (toString n).toList) = some n := by
    decide +kernel
  cases slots with
  | none => rfl
  | some n => exact hall n (hslots n rfl).2 (hslots n rfl).1

theorem mark_eq {written : Bool} {value : String} :
    decide (mark written value = some value.toList) = written := by
  cases written with
  | false => rfl
  | true => exact decide_eq_true rfl

theorem parse_searchOf (hnames : ∀ f ∈ fields, isFieldName f.1 = true) :
    parse (searchOf (['&'].intercalate (fields.map writeField))) = fields := by
  rw [searchOf]
  split
  · rw [parse_question, parse_fields hnames]
    exact fun hhead => notMem_fields hnames (.inr rfl) (List.mem_of_mem_head? hhead)
  · rename_i hnil
    rw [← not_not.mp hnil, parse_fields hnames]

/-- The reader of a query has its fields. -/
theorem queryReader_fields (hnames : ∀ f ∈ fields, isFieldName f.1 = true) {name : String} :
    queryReader (searchOf (['&'].intercalate (fields.map writeField))) name = UrlEncoded.get fields name.toList := by
  have hhash : '#' ∉ searchOf (['&'].intercalate (fields.map writeField)) := by
    have htext := notMem_fields hnames (.inl rfl)
    rw [searchOf]
    split
    · simp [htext]
    · exact List.not_mem_nil
  have htake : (searchOf (['&'].intercalate (fields.map writeField))).takeWhile (· ≠ '#') =
      searchOf (['&'].intercalate (fields.map writeField)) :=
    List.takeWhile_eq_self_iff.mpr fun c hc => decide_eq_true fun heq => hhash (heq ▸ hc)
  rw [queryReader, htake, parse_searchOf hnames]

theorem get_richFields {name : String} : UrlEncoded.get (richFields p) name.toList =
    (((((((if "a" = name then some p.amount else none).or (if "s" = name then namePart p.from' else none)).or
      (if "g" = name then slotsText p.slots else none)).or
      (if "p" = name then mark p.passwordLocked "1" else none)).or
      (if "n" = name then mark p.mainnet "public" else none)).or
      (if "seeded" = name then mark p.seeded "1" else none)).or
      (if "preview" = name then some "rich".toList else none)).or (if "src" = name then p.src else none) := by
  simp only [richFields, get_append, get_field]

theorem get_privateFields {name : String} : UrlEncoded.get (privateFields p) name.toList =
    (((if "g" = name then slotsText p.slots else none).or
      (if "n" = name then mark p.mainnet "public" else none)).or
      (if "seeded" = name then mark p.seeded "1" else none)).or (if "src" = name then p.src else none) := by
  simp only [privateFields, get_append, get_field]

theorem nameFromDecoded_namePart : nameFromDecoded (namePart name) = shownName name := by
  rw [namePart]
  split
  · exact nameFromDecoded_some
  · rename_i hblank
    rw [shownName_blank (not_not.mp hblank)]
    rfl

/-- The value of a field of a rich query, by its name. -/
theorem richValues : UrlEncoded.get (richFields p) "preview".toList = some "rich".toList ∧
    UrlEncoded.get (richFields p) "a".toList = some p.amount ∧
    UrlEncoded.get (richFields p) "s".toList = namePart p.from' ∧
    UrlEncoded.get (richFields p) "g".toList = slotsText p.slots ∧
    UrlEncoded.get (richFields p) "p".toList = mark p.passwordLocked "1" ∧
    UrlEncoded.get (richFields p) "n".toList = mark p.mainnet "public" ∧
    UrlEncoded.get (richFields p) "seeded".toList = mark p.seeded "1" := by
  simp only [get_richFields]
  refine ⟨?_, ?_, ?_, ?_, ?_, ?_, ?_⟩ <;>
    simp only [String.reduceEq, if_true, if_false, Option.none_or, Option.or_none]

theorem privateValues : UrlEncoded.get (privateFields p) "preview".toList = none ∧
    UrlEncoded.get (privateFields p) "a".toList = none ∧
    UrlEncoded.get (privateFields p) "g".toList = slotsText p.slots ∧
    UrlEncoded.get (privateFields p) "n".toList = mark p.mainnet "public" ∧
    UrlEncoded.get (privateFields p) "seeded".toList = mark p.seeded "1" := by
  simp only [get_privateFields]
  refine ⟨?_, ?_, ?_, ?_, ?_⟩ <;> simp only [String.reduceEq, if_true, if_false, Option.none_or, Option.or_none]

theorem readClaimQuery_rich (hslots : ∀ n ∈ p.slots, minPoolSlots ≤ n ∧ n ≤ maxPoolSlots) :
    readClaimQuery (searchOf (['&'].intercalate ((richFields p).map writeField))) =
      ⟨p.mainnet, p.slots, p.seeded, true, true, shownName p.from', p.passwordLocked⟩ := by
  have hget (name : String) := @queryReader_fields _ (@names_richFields p) name
  obtain ⟨hpreview, ha, hs, hg, hp, hn, hseeded⟩ := @richValues p
  simp only [readClaimQuery, readQuery, hget, hpreview, ha, hs, hg, hp, hn, hseeded, Option.isSome_some, mark_eq,
    nameFromDecoded_namePart, parseSlots_slotsText hslots, decide_true, Bool.true_or, Bool.true_and, if_true]

/-- The shape of a private query is not the rich one, whatever the count. -/
theorem rich_readClaimQuery_private :
    (readClaimQuery (searchOf (['&'].intercalate ((privateFields p).map writeField)))).rich = false := by
  have hpreview : queryReader (searchOf (['&'].intercalate ((privateFields p).map writeField))) "preview" = none := by
    rw [queryReader_fields names_privateFields]
    exact privateValues.1
  rw [readClaimQuery, readQuery, hpreview]
  rfl

theorem readClaimQuery_private (hslots : ∀ n ∈ p.slots, minPoolSlots ≤ n ∧ n ≤ maxPoolSlots) :
    readClaimQuery (searchOf (['&'].intercalate ((privateFields p).map writeField))) =
      ⟨p.mainnet, p.slots, p.seeded, false, false, none, false⟩ := by
  have hget (name : String) := @queryReader_fields _ (@names_privateFields p) name
  obtain ⟨hpreview, ha, hg, hn, hseeded⟩ := @privateValues p
  simp only [readClaimQuery, readQuery, hget, hpreview, ha, hg, hn, hseeded, Option.isSome_none, mark_eq,
    parseSlots_slotsText hslots]
  rfl

/-! ## The fragment is read -/

variable {key cs : List Char} {slots : Option ℕ} {locked : Bool}

theorem isFragmentKey_spec (hkey : isFragmentKey key = true) :
    key ≠ [] ∧ ∀ c ∈ key, c.isAlphanum = true ∨ c = '.' ∨ c = '_' ∨ c = '-' := by
  simpa [isFragmentKey, or_assoc] using hkey

theorem isUnreserved_of_mem_key (hkey : isFragmentKey key = true) (hc : c ∈ key) : isUnreserved c = true := by
  rcases (isFragmentKey_spec hkey).2 c hc with h | rfl | rfl | rfl
  · exact unreserved_of_isAlphanum h
  all_goals decide

theorem dropHash_of_notMem (h : '#' ∉ cs) : dropHash cs = cs :=
  if_neg fun hhead => h (List.mem_of_mem_head? hhead)

/-- What rides behind a key. -/
def carriedFields (name : List Char) (slots : Option ℕ) (locked : Bool) : List (List Char × List Char) :=
  field "s" (if trimText name ≠ [] then some (trimText name) else none) ++ field "g" (slotsText slots) ++
    field "p" (mark locked "1")

theorem names_carriedFields : ∀ f ∈ carriedFields name slots locked, isFieldName f.1 = true := by
  simp only [carriedFields, List.forall_mem_append]
  refine ⟨⟨?_, ?_⟩, ?_⟩
  all_goals exact isFieldName_field (by decide)

theorem claimFragment_eq (hkey : isFragmentKey key = true) : claimFragment key name slots locked =
    some (['&'].intercalate (key :: (carriedFields name slots locked).map writeField)) := by
  have hname : ((field "s" (if trimText name ≠ [] then some (trimText name) else none)).map writeField).flatMap
      ('&' :: ·) = if trimText name ≠ [] then "&s=".toList ++ encodeURIComponent (trimText name) else [] := by
    rw [flatMap_field]
    split <;> rfl
  simp only [claimFragment, if_pos hkey, intercalate_cons, carriedFields, List.map_append, List.flatMap_append]
  rw [hname, flatMap_slots, flatMap_mark (by decide)]
  simp only [List.append_assoc]
  rfl

theorem notMem_key (hkey : isFragmentKey key = true) (h : c ∈ ['+', '#', '&', '=', '?']) : c ∉ key := by
  have hfield : isFieldName key = true := by
    simp only [isFieldName, Bool.and_eq_true, decide_eq_true_eq, List.all_eq_true]
    exact ⟨(isFragmentKey_spec hkey).1, fun c hc => isUnreserved_of_mem_key hkey hc⟩
  exact notMem_name (f := (key, [])) hfield h

theorem get_map {fields : List (List Char × List Char)} {g : List Char → List Char} {name : List Char} :
    UrlEncoded.get (fields.map fun f => (f.1, g f.2)) name = (UrlEncoded.get fields name).map g := by
  rw [UrlEncoded.get, UrlEncoded.get, List.find?_map, Option.map_map, Option.map_map]
  rfl

theorem isPair_writeField {f : List Char × List Char} (hname : isFieldName f.1 = true) :
    isPair (writeField f) = true := by
  have hne : f.1 ≠ [] := by
    intro heq
    rw [heq] at hname
    exact absurd hname (by decide)
  have hhead : (writeField f).head? ≠ some '=' := by
    rw [writeField, List.head?_append_of_ne_nil _ hne]
    exact fun hhead => notMem_name hname (by decide) (List.mem_of_mem_head? hhead)
  rw [isPair, Bool.and_eq_true, List.contains_iff_mem]
  exact ⟨List.mem_append_right _ List.mem_cons_self, decide_eq_true hhead⟩

/-- Whatever fields are behind a key, they are read as they were written. -/
theorem parseClaimFragment_fields (hkey : isFragmentKey key = true) (hnames : ∀ f ∈ fields, isFieldName f.1 = true) :
    parseClaimFragment (['&'].intercalate (key :: fields.map writeField)) =
      ⟨key, sanitizeSenderName ((UrlEncoded.get fields "s".toList).map encodeURIComponent),
        parseSlots ((UrlEncoded.get fields "g".toList).map encodeURIComponent),
        (UrlEncoded.get fields "p".toList).map encodeURIComponent = some "1".toList⟩ := by
  have hhash : dropHash (['&'].intercalate (key :: fields.map writeField)) =
      ['&'].intercalate (key :: fields.map writeField) := by
    apply if_neg
    intro hhead
    rw [intercalate_cons, List.head?_append_of_ne_nil _ (isFragmentKey_spec hkey).1] at hhead
    exact notMem_key hkey (by decide) (List.mem_of_mem_head? hhead)
  have hamp : ∀ part ∈ key :: fields.map writeField, '&' ∉ part := by
    rw [List.forall_mem_cons, List.forall_mem_map]
    exact ⟨notMem_key hkey (by decide), fun f hf => notMem_writeField (hnames f hf) (by decide)⟩
  have hpairs : ((fields.map writeField).filter isPair).map (splitFirst '=') =
      fields.map fun f => (f.1, encodeURIComponent f.2) := by
    rw [List.filter_eq_self.mpr ?_, List.map_map]
    · exact List.map_congr_left fun f hf => splitFirst_append (notMem_name (hnames f hf) (by decide))
    · intro part hpart
      obtain ⟨f, hf, rfl⟩ := List.mem_map.mp hpart
      exact isPair_writeField (hnames f hf)
  rw [parseClaimFragment, hhash, List.splitOn_intercalate '&' hamp (by simp)]
  simp only [List.tail_cons, List.head?_cons, Option.getD_some, hpairs, get_map]

theorem get_carriedFields {m : String} : UrlEncoded.get (carriedFields name slots locked) m.toList =
    ((if "s" = m then (if trimText name ≠ [] then some (trimText name) else none) else none).or
      (if "g" = m then slotsText slots else none)).or (if "p" = m then mark locked "1" else none) := by
  simp only [carriedFields, get_append, get_field]

/-- What was put behind a key is read back, and the key is what is before it. -/
theorem parseClaimFragment_carried (hkey : isFragmentKey key = true)
    (hslots : ∀ n ∈ slots, minPoolSlots ≤ n ∧ n ≤ maxPoolSlots) :
    parseClaimFragment (['&'].intercalate (key :: (carriedFields name slots locked).map writeField)) =
      ⟨key, shownName name, slots, locked⟩ := by
  have hsender : sanitizeSenderName ((if trimText name ≠ [] then some (trimText name) else none).map
      encodeURIComponent) = shownName name := by
    split
    · rw [Option.map_some, sanitize_encode, shownName_trimText]
    · rename_i hblank
      rw [shownName_blank (not_not.mp hblank)]
      rfl
  have hcount : (slotsText slots).map encodeURIComponent = slotsText slots := by
    cases slots with
    | none => rfl
    | some n => exact congrArg some encode_digits
  have hmark : (mark locked "1").map encodeURIComponent = mark locked "1" := by cases locked <;> decide
  rw [parseClaimFragment_fields hkey names_carriedFields]
  simp only [get_carriedFields, String.reduceEq, if_true, if_false, Option.none_or, Option.or_none, hsender, hcount,
    hmark, mark_eq, parseSlots_slotsText hslots]

/-! ## The parts of a URL -/

/-- Nothing in the origin or in the id ends the path. -/
def V2LinkParts.PlainPath (p : V2LinkParts) : Prop :=
  '#' ∉ p.webOrigin ∧ '?' ∉ p.webOrigin ∧ isLinkHex p.linkHex = true

theorem isLinkHex_alphanum (hhex : isLinkHex cs = true) (hc : c ∈ cs) : c.isAlphanum = true := by
  simp only [isLinkHex, Bool.and_eq_true, List.all_eq_true] at hhex
  have hchar := hhex.2 c hc
  simp only [Bool.or_eq_true, Bool.and_eq_true, decide_eq_true_eq] at hchar
  rcases hchar with (hdigit | hlower) | hupper
  · exact isAlphanum_of_isDigit hdigit
  · have hz : c.val ≤ 'z'.val := UInt32.le_trans (b := 'f'.val) hlower.2 (by decide)
    simp only [isAlphanum_eq, Bool.or_eq_true, Bool.and_eq_true, decide_eq_true_eq]
    exact .inl (.inr ⟨hlower.1, hz⟩)
  · have hz : c.val ≤ 'Z'.val := UInt32.le_trans (b := 'F'.val) hupper.2 (by decide)
    simp only [isAlphanum_eq, Bool.or_eq_true, Bool.and_eq_true, decide_eq_true_eq]
    exact .inl (.inl ⟨hupper.1, hz⟩)

theorem notMem_path (hplain : p.PlainPath) (h : c = '#' ∨ c = '?') : c ∉ p.path := by
  have hweb : c ∉ p.webOrigin := by
    rcases h with rfl | rfl
    · exact hplain.1
    · exact hplain.2.1
  have horigin : c ∉ p.origin := by
    rw [V2LinkParts.origin]
    split
    · exact fun hc => hweb (List.dropLast_subset _ hc)
    · exact hweb
  have hid : c ∉ p.linkHex := by
    intro hc
    have halphanum := isLinkHex_alphanum hplain.2.2 hc
    revert halphanum
    rcases h with rfl | rfl <;> decide
  have hmiddle : c ∉ "/v2/c/".toList := by rcases h with rfl | rfl <;> decide
  simp only [V2LinkParts.path, List.mem_append, not_or]
  exact ⟨⟨horigin, hmiddle⟩, hid⟩

theorem splitFirst_of_notMem {sep : Char} (h : sep ∉ cs) : splitFirst sep cs = (cs, []) := by
  have hne : ∀ c ∈ cs, decide (c ≠ sep) = true := fun c hc => decide_eq_true fun heq => h (heq ▸ hc)
  rw [splitFirst, List.takeWhile_eq_self_iff.mpr hne, List.dropWhile_eq_nil_iff.mpr hne]
  rfl

/-- A path, with the query if there is one. -/
def withQuery (path query : List Char) : List Char := path ++ searchOf query

variable {path query fragment : List Char}

theorem notMem_withQuery (hpath : '#' ∉ path) (hquery : '#' ∉ query) : '#' ∉ withQuery path query := by
  rw [withQuery, searchOf]
  split
  · simp [hpath, hquery]
  · simpa using hpath

theorem split_withQuery (hpath : '?' ∉ path) : splitFirst '?' (withQuery path query) = (path, query) := by
  rw [withQuery, searchOf]
  split
  · exact splitFirst_append hpath
  · rename_i hnil
    rw [List.append_nil, splitFirst_of_notMem hpath, not_not.mp hnil]

variable {url : List Char}

/-- What the page reads of a URL in parts. -/
theorem openLink_parts (hpath : ∀ c, c = '#' ∨ c = '?' → c ∉ path) (hquery : '#' ∉ query)
    (hurl : url = withQuery path query ++ '#' :: fragment) :
    address url = withQuery path query ∧ search url = searchOf query ∧ fragmentOf url = fragment ∧
      (splitFirst '?' (address url)).1 = path := by
  have hsplit : splitFirst '#' url = (withQuery path query, fragment) :=
    hurl ▸ splitFirst_append (notMem_withQuery (hpath '#' (.inl rfl)) hquery)
  have haddress : address url = withQuery path query := congrArg Prod.fst hsplit
  have hparts : splitFirst '?' (address url) = (path, query) := haddress ▸ split_withQuery (hpath '?' (.inr rfl))
  have hsearch : search url = searchOf query := by rw [search, hparts]
  exact ⟨haddress, hsearch, congrArg Prod.snd hsplit, congrArg Prod.fst hparts⟩

end Lumenia.Web.ClaimLink
