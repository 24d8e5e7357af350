import Lumenia.Stellar.StrKey
import Lumenia.Theory.UrlEncoded
import Lumenia.Web.Dollars

/-!
# Payment URIs

`parsePaymentUri` of `apps/web/lib/payout.ts`, which reads a `web+stellar:pay` URI (SEP-7), and
`buildReceiveUri` of `receive.ts`, which writes one.

SEP-7 percent-encodes the fields, but they are read as those of a form: a literal `+` is taken for a space,
so that a memo with one comes back changed.
-/

namespace Lumenia.Web.PaymentUri

open Sponsor (isSpace trim)
open Stellar Dollars UrlEncoded

/-! ## The program -/

inductive MemoKind
  | none
  | text
  | id
  deriving DecidableEq

structure Destination where
  address : String
  muxed : Bool
  deriving DecidableEq

def parseDestination (raw : String) : Option Destination :=
  let address := trim raw
  if isValidMed25519PublicKey address then some ⟨address, true⟩
  else if isValidEd25519PublicKey address then some ⟨address, false⟩
  else none

structure ParsedPaymentUri where
  destination : String
  amount : Option String := none
  memo : Option String := none
  memoKind : Option MemoKind := none
  assetCode : Option String := none
  assetIssuer : Option String := none
  deriving DecidableEq

def isWordChar (c : Char) : Bool := c.isAlphanum || c = '_'

def pay : List Char := "web+stellar:pay".toList

/-- `/^web\+stellar:pay\b/i` -/
def isPay (input : List Char) : Bool :=
  (input.take pay.length).map Char.toLower = pay && !(input.drop pay.length).head?.any isWordChar

/-- `toUpperCase()`, as far as `MEMO_ID` and `MEMO_TEXT` can tell: the capital of a dotless `ı` is `I`. -/
def toUpperCase (s : String) : String := .ofList (s.toList.map fun c => if c = 'ı' then 'I' else c.toUpper)

def kindOf (memoType : String) : Option MemoKind :=
  let memoTypeRaw := toUpperCase memoType
  if memoTypeRaw = "MEMO_ID" then some .id
  else if memoTypeRaw = "MEMO_TEXT" ∨ memoTypeRaw = "" then some .text
  else none

def getParam (q : List (List Char × List Char)) (name : String) : Option String :=
  (get q name.toList).map .ofList

/-- What is made of the parameters. -/
def readParams (param : String → Option String) : Option ParsedPaymentUri :=
  let destination := trim ((param "destination").getD "")
  if parseDestination destination = none then none else
  let memoKind := kindOf ((param "memo_type").getD "")
  let memoValue := param "memo"
  if memoValue.getD "" ≠ "" ∧ memoKind = none then some { destination }
  else
    some
      { destination
        amount := (param "amount").filter fun a => isAmount a.toList
        memo := memoValue
        memoKind := if memoValue.getD "" = "" then none else memoKind
        assetCode := param "asset_code"
        assetIssuer := param "asset_issuer" }

def parsePaymentUri (raw : String) : Option ParsedPaymentUri :=
  let input := (trim raw).toList
  if isPay input = false then none else
  let query := if '?' ∈ input then (input.dropWhile (· ≠ '?')).drop 1 else input
  if query = [] ∨ '?' ∉ input then none else
  readParams (getParam (parse query))

structure ReceiveUriOpts where
  address : String
  assetCode : String
  assetIssuer : String
  amount : Option String
  msg : Option String

def ReceiveUriOpts.params (opts : ReceiveUriOpts) : List (String × String) :=
  [("destination", opts.address), ("asset_code", opts.assetCode), ("asset_issuer", opts.assetIssuer)] ++
    ((opts.amount.filter (· ≠ "")).map ("amount", ·)).toList ++ ((opts.msg.filter (· ≠ "")).map ("msg", ·)).toList

def buildReceiveUri (opts : ReceiveUriOpts) : String :=
  .ofList (pay ++ '?' :: serialize (opts.params.map fun p => (p.1.toList, p.2.toList)))

/-! ## What a URI says -/

/-- A field as it is written, with the texts that it stands for. -/
structure Field where
  name : List Char
  value : List Char
  nameText : List Char
  valueText : List Char
  name_stands : Stands name nameText
  value_stands : Stands value valueText
  name_plain : ∀ c ∈ name, c ≠ '=' ∧ c ≠ '&' ∧ c ≠ '#' ∧ isSpace c = false
  value_plain : ∀ c ∈ value, c ≠ '&' ∧ c ≠ '#' ∧ isSpace c = false

def Field.chars (f : Field) : List Char := f.name ++ '=' :: f.value

/-- A `web+stellar:pay` URI, in capital or small letters, with a name and a value in each part of its query. Left out
are URIs with a fragment, with a part without `=`, or with a second `?` in front, which `URLSearchParams` drops. -/
structure PayUri where
  operation : List Char
  fields : List Field
  operation_eq : operation.map Char.toLower = pay
  first_plain : ∀ f ∈ fields.head?, f.name.head? ≠ some '?'

namespace PayUri

variable (u : PayUri)

def chars : List Char := u.operation ++ '?' :: ['&'].intercalate (u.fields.map Field.chars)

def text : String := .ofList u.chars

/-- The first field of a name. -/
def field (name : String) : Option Field := u.fields.find? (·.nameText = name.toList)

/-- What it stands for. -/
def means (name : String) : Option String := (u.field name).map fun f => .ofList f.valueText

/-- The kind of memo that it names; none for a hash or a return memo. -/
def memoKind : Option MemoKind := kindOf ((u.means "memo_type").getD "")

/-- It names a hash or a return memo. -/
def Withheld : Prop := (u.means "memo").getD "" ≠ "" ∧ u.memoKind = none

/-- What has been read is what it says, and all of it; with a memo that is no text and no id nothing but the
destination. -/
structure Faithful (r : ParsedPaymentUri) : Prop where
  destination : u.means "destination" = some r.destination
  payable : parseDestination r.destination ≠ none
  withheld : u.Withheld → r = { destination := r.destination }
  memo : ¬u.Withheld → r.memo = u.means "memo"
  memo_kind : ¬u.Withheld → r.memoKind = if (u.means "memo").getD "" = "" then none else u.memoKind
  amount : ¬u.Withheld → r.amount = (u.means "amount").filter fun a => isAmount a.toList

def ReadAsWritten : Prop := ∀ r, parsePaymentUri u.text = some r → u.Faithful r

/-- Where the destination can be paid, nothing that is returned has a literal `+`, and the destination no
white space around it. -/
def Clear : Prop :=
  ∀ d ∈ u.field "destination", parseDestination (trim (.ofList (formDecode d.value))) ≠ none →
    '+' ∉ d.value ∧ trim (.ofList d.valueText) = .ofList d.valueText ∧
      ∀ m ∈ u.field "memo", u.memoKind ≠ none → '+' ∉ m.value

/-- What a form reads for it. -/
def formReads (name : String) : Option String := (u.field name).map fun f => .ofList (formDecode f.value)

end PayUri

/-! ## Texts -/

section

variable {c : Char} {cs : List Char} {s : String}

theorem mem_dropWhile_isSpace (hc : isSpace c = false) (h : c ∈ cs) : c ∈ cs.dropWhile isSpace := by
  rw [← List.takeWhile_append_dropWhile (p := isSpace) (l := cs)] at h
  rcases List.mem_append.mp h with h | h
  · exact absurd (List.mem_takeWhile_imp h) (Bool.eq_false_iff.mp hc)
  · exact h

theorem mem_trim (hc : isSpace c = false) (h : c ∈ s.toList) : c ∈ (trim s).toList := by
  rw [trim, String.toList_ofList, List.mem_reverse]
  exact mem_dropWhile_isSpace hc (List.mem_reverse.mpr (mem_dropWhile_isSpace hc h))

theorem base32_plain {width n : ℕ} (h : c ∈ (base32 width n).toList) :
    isSpace c = false ∧ c ≠ '+' ∧ c ≠ '%' ∧ c ≠ '&' ∧ c ≠ '#' := by
  rw [base32, String.toList_ofList, List.mem_map] at h
  obtain ⟨d, hd, rfl⟩ := h
  have hall : ∀ d < 32, isSpace (base32Char d) = false ∧ base32Char d ≠ '+' ∧ base32Char d ≠ '%' ∧
      base32Char d ≠ '&' ∧ base32Char d ≠ '#' := by decide +kernel
  exact hall d (lt_of_mem_fixedDigits (by decide) hd)

theorem exists_base32_of_payable (h : parseDestination s ≠ none) : ∃ width n, 0 < width ∧ trim s = base32 width n := by
  rw [parseDestination] at h
  split at h
  · rename_i hvalid
    exact ⟨69, _, by decide, (of_decide_eq_true hvalid).symm⟩
  · split at h
    · rename_i hvalid
      exact ⟨56, _, by decide, (of_decide_eq_true hvalid).symm⟩
    · exact absurd rfl h

theorem plus_notMem_of_payable (h : parseDestination s ≠ none) : '+' ∉ s.toList := by
  intro hmem
  obtain ⟨width, n, -, htrim⟩ := exists_base32_of_payable h
  have hplus := mem_trim (by decide) hmem
  rw [htrim] at hplus
  exact (base32_plain hplus).2.1 rfl

theorem not_payable_empty : parseDestination (trim "") = none := by
  by_contra h
  obtain ⟨width, n, hpos, htrim⟩ := exists_base32_of_payable h
  have hempty : trim (trim "") = "" := by decide +kernel
  have hlen := congrArg String.length htrim
  rw [hempty, length_base32] at hlen
  exact absurd hlen (Nat.ne_of_lt hpos)

theorem mem_isAmount (h : isAmount cs = true) (hc : c ∈ cs) : c.isDigit = true ∨ c = '.' := by
  rw [isAmount, Bool.and_eq_true] at h
  obtain ⟨-, hrest⟩ := h
  rw [← List.takeWhile_append_dropWhile (p := Char.isDigit) (l := cs)] at hc
  rcases List.mem_append.mp hc with hc | hc
  · exact .inl (List.mem_takeWhile_imp hc)
  · cases hdrop : cs.dropWhile Char.isDigit with
    | nil =>
      rw [hdrop] at hc
      cases hc
    | cons point frac =>
      rw [hdrop] at hc hrest
      obtain ⟨hpoint, hdigits, -⟩ := of_decide_eq_true hrest
      rcases List.mem_cons.mp hc with rfl | hc
      · exact .inr hpoint
      · exact .inl (List.all_eq_true.mp hdigits c hc)

theorem isDigit_plain (h : c.isDigit = true) : c ≠ ' ' := by
  rintro rfl
  revert h
  decide

/-- No white space has a letter of `pay` for its small letter. -/
theorem plain_of_toLower (h : c.toLower ∈ pay) : isSpace c = false := by
  have hall : ∀ n < 11, (Char.ofNat (0x2000 + n)).toLower ∉ pay := by decide +kernel
  have hfew : ∀ n ∈ [0x9, 0xA, 0xB, 0xC, 0xD, 0x20, 0xA0, 0x1680, 0x2028, 0x2029, 0x202F, 0x205F, 0x3000, 0xFEFF],
      (Char.ofNat n).toLower ∉ pay := by decide +kernel
  rw [Bool.eq_false_iff]
  intro hspace
  simp only [isSpace, Bool.or_eq_true, Bool.and_eq_true, decide_eq_true_eq] at hspace
  rcases hspace with hmem | hrange
  · exact hfew _ hmem (by rwa [Char.ofNat_toNat])
  · apply hall (c.toNat - 0x2000) (by omega)
    rwa [show 0x2000 + (c.toNat - 0x2000) = c.toNat by omega, Char.ofNat_toNat]

theorem plain_of_mem_intercalate {parts : List (List Char)}
    (hparts : ∀ part ∈ parts, ∀ c ∈ part, isSpace c = false) (h : c ∈ ['&'].intercalate parts) :
    isSpace c = false := by
  induction parts with
  | nil => cases h
  | cons part parts ih =>
    have hpart := hparts part List.mem_cons_self
    cases parts with
    | nil =>
      rw [List.intercalate_singleton] at h
      exact hpart c h
    | cons next parts =>
      rw [List.intercalate_cons_cons, List.append_assoc, List.mem_append, List.mem_append] at h
      rcases h with h | h | h
      · exact hpart c h
      · rw [List.mem_singleton.mp h]
        decide
      · exact ih (fun q hq => hparts q (List.mem_cons_of_mem _ hq)) h

theorem kindOf_of_mem (hc : c = ' ' ∨ c = '+') (h : c ∈ s.toList) : kindOf s = none := by
  have hupper : c ∈ (toUpperCase s).toList := by
    rw [toUpperCase, String.toList_ofList, List.mem_map]
    refine ⟨c, h, ?_⟩
    rcases hc with rfl | rfl <;> decide
  have hne : ∀ word ∈ ["MEMO_ID", "MEMO_TEXT", ""], toUpperCase s ≠ word := by
    intro word hword heq
    rw [heq] at hupper
    have hplain : ∀ word ∈ ["MEMO_ID", "MEMO_TEXT", ""], ' ' ∉ word.toList ∧ '+' ∉ word.toList := by decide
    rcases hc with rfl | rfl
    · exact (hplain word hword).1 hupper
    · exact (hplain word hword).2 hupper
  rw [kindOf]
  rw [if_neg (hne _ (by decide)), if_neg (not_or.mpr ⟨hne _ (by decide), hne _ (by decide)⟩)]

end

/-! ## Reading a URI -/

section

variable {operation query : List Char}

theorem toLower_mem {c : Char} (hpay : operation.map Char.toLower = pay) (h : c ∈ operation) : c.toLower ∈ pay := by
  rw [← hpay]
  exact List.mem_map_of_mem h

theorem question_notMem (hpay : operation.map Char.toLower = pay) : '?' ∉ operation := by
  intro hmem
  have hlower := toLower_mem hpay hmem
  revert hlower
  decide

theorem isPay_append (hpay : operation.map Char.toLower = pay) : isPay (operation ++ '?' :: query) = true := by
  have hlen : pay.length = operation.length := by
    rw [← hpay, List.length_map]
  rw [isPay, hlen, List.take_left, List.drop_left, hpay]
  rfl

theorem dropWhile_question (hpay : operation.map Char.toLower = pay) :
    ((operation ++ '?' :: query).dropWhile (· ≠ '?')).drop 1 = query := by
  have hne : ∀ c ∈ operation, decide (c ≠ '?') = true :=
    fun c hc => decide_eq_true fun heq => question_notMem hpay (heq ▸ hc)
  rw [List.dropWhile_append_of_pos hne]
  rfl

theorem readParams_nil : readParams (getParam (parse [])) = none := by
  have hnone : getParam (parse []) "destination" = none := rfl
  rw [readParams, hnone]
  exact if_pos not_payable_empty

theorem parsePaymentUri_query (hpay : operation.map Char.toLower = pay) (hplain : ∀ c ∈ query, isSpace c = false) :
    parsePaymentUri (.ofList (operation ++ '?' :: query)) = readParams (getParam (parse query)) := by
  have htrim : trim (.ofList (operation ++ '?' :: query)) = .ofList (operation ++ '?' :: query) := by
    apply trim_of_plain
    intro c hc
    rcases List.mem_append.mp hc with hc | hc
    · exact plain_of_toLower (toLower_mem hpay hc)
    · rcases List.mem_cons.mp hc with rfl | hc
      · decide
      · exact hplain c hc
  have hquestion : '?' ∈ operation ++ '?' :: query := List.mem_append_right _ List.mem_cons_self
  rw [parsePaymentUri, htrim, String.toList_ofList]
  simp only [isPay_append hpay, dropWhile_question hpay, hquestion, not_true_eq_false, or_false, if_true,
    Bool.true_eq_false, if_false]
  split
  · rename_i hempty
    rw [hempty, readParams_nil]
  · rfl

end

namespace PayUri

variable {u : PayUri} {name : String}

theorem getParam_fields (hname : ' ' ∉ name.toList ∧ '+' ∉ name.toList) :
    getParam (parse (['&'].intercalate (u.fields.map Field.chars))) name = u.formReads name := by
  have hparse : parse (['&'].intercalate (u.fields.map Field.chars)) =
      u.fields.map fun f => (formDecode f.name, formDecode f.value) := by
    have hparts : u.fields.map Field.chars =
        (u.fields.map fun f => (f.name, f.value)).map fun p => p.1 ++ '=' :: p.2 := by
      rw [List.map_map]
      rfl
    rw [hparts, parse_intercalate, List.map_map]
    · rfl
    · intro p hp
      obtain ⟨f, -, rfl⟩ := List.mem_map.mp hp
      exact ⟨fun hmem => (f.name_plain _ hmem).2.1 rfl, fun hmem => (f.name_plain _ hmem).1 rfl⟩
    · intro p hp
      obtain ⟨f, -, rfl⟩ := List.mem_map.mp hp
      exact fun hmem => (f.value_plain _ hmem).1 rfl
    · intro p hp
      rw [List.head?_map] at hp
      obtain ⟨f, hf, rfl⟩ := Option.map_eq_some_iff.mp hp
      exact u.first_plain f hf
  rw [getParam, hparse, UrlEncoded.get, List.find?_map, formReads, field, Option.map_map, Option.map_map]
  congr 2
  funext f
  exact decide_eq_decide.mpr (formDecode_eq_word f.name_stands hname.1 hname.2)

theorem fields_plain {c : Char} (h : c ∈ ['&'].intercalate (u.fields.map Field.chars)) : isSpace c = false := by
  refine plain_of_mem_intercalate (fun part hpart c hc => ?_) h
  obtain ⟨f, -, rfl⟩ := List.mem_map.mp hpart
  rcases List.mem_append.mp hc with hc | hc
  · exact (f.name_plain c hc).2.2.2
  · rcases List.mem_cons.mp hc with rfl | hc
    · decide
    · exact (f.value_plain c hc).2.2

theorem parsePaymentUri_text : parsePaymentUri u.text = readParams u.formReads := by
  rw [text, chars, parsePaymentUri_query u.operation_eq fun c => fields_plain]
  have hnames : ∀ name ∈ ["destination", "memo_type", "memo", "amount", "asset_code", "asset_issuer"],
      ' ' ∉ name.toList ∧ '+' ∉ name.toList := by decide
  simp only [readParams]
  rw [getParam_fields (hnames _ (by decide)), getParam_fields (hnames _ (by decide)),
    getParam_fields (hnames _ (by decide)), getParam_fields (hnames _ (by decide)),
    getParam_fields (hnames _ (by decide)), getParam_fields (hnames _ (by decide))]

theorem formReads_of_field {f : Field} (h : f ∈ u.field name) :
    u.formReads name = some (.ofList (formDecode f.value)) := by
  rw [formReads, Option.mem_def.mp h, Option.map_some]

theorem exists_field {m : String} (h : u.formReads name = some m) :
    ∃ f ∈ u.field name, m = .ofList (formDecode f.value) := by
  obtain ⟨f, hf, rfl⟩ := Option.map_eq_some_iff.mp h
  exact ⟨f, hf, rfl⟩

theorem means_of_field {f : Field} (h : f ∈ u.field name) : u.means name = some (.ofList f.valueText) := by
  rw [means, Option.mem_def.mp h, Option.map_some]

theorem kindOf_formReads : kindOf ((u.formReads "memo_type").getD "") = u.memoKind := by
  rw [memoKind]
  cases hfield : u.field "memo_type" with
  | none => rw [formReads, means, hfield]; rfl
  | some f =>
    rw [formReads_of_field hfield, means_of_field hfield, Option.getD_some, Option.getD_some]
    by_cases hplus : '+' ∈ f.value
    · rw [kindOf_of_mem (.inl rfl) (by rw [String.toList_ofList]; exact space_mem_formDecode f.value_stands hplus),
        kindOf_of_mem (.inr rfl) (by rw [String.toList_ofList]; exact plus_mem_of_stands f.value_stands hplus)]
    · rw [(formDecode_eq_iff f.value_stands).mpr hplus]

/-! ## What is returned -/

theorem formReads_of_plain (hplain : ∀ f ∈ u.field name, '+' ∉ f.value) : u.formReads name = u.means name := by
  cases hfield : u.field name with
  | none => rw [formReads, means, hfield, Option.map_none, Option.map_none]
  | some f =>
    rw [formReads_of_field hfield, means_of_field hfield, (formDecode_eq_iff f.value_stands).mpr (hplain f hfield)]

/-- A text with a space or a plus is no amount. -/
theorem not_isAmount {c : Char} {cs : List Char} (hc : c = ' ' ∨ c = '+') (h : c ∈ cs) : isAmount cs = false := by
  rw [Bool.eq_false_iff]
  intro hamount
  rcases mem_isAmount hamount h with hdigit | hpoint
  · rcases hc with rfl | rfl
    · exact isDigit_plain hdigit rfl
    · revert hdigit
      decide
  · rcases hc with rfl | rfl
    · revert hpoint
      decide
    · revert hpoint
      decide

/-- What is no amount with a plus is none with a space. -/
theorem formReads_amount : (u.formReads "amount").filter (fun a => isAmount a.toList) =
    (u.means "amount").filter fun a => isAmount a.toList := by
  cases hfield : u.field "amount" with
  | none => rw [formReads, means, hfield, Option.map_none, Option.map_none]
  | some f =>
    rw [formReads_of_field hfield, means_of_field hfield]
    by_cases hplus : '+' ∈ f.value
    · have hspace := not_isAmount (.inl rfl) (space_mem_formDecode f.value_stands hplus)
      have hliteral := not_isAmount (.inr rfl) (plus_mem_of_stands f.value_stands hplus)
      rw [Option.filter_some, Option.filter_some, String.toList_ofList, String.toList_ofList, hspace, hliteral]
      rfl
    · rw [(formDecode_eq_iff f.value_stands).mpr hplus]

/-- What is empty for a form is empty. -/
theorem formReads_memo : (u.formReads "memo").getD "" = "" ↔ (u.means "memo").getD "" = "" := by
  cases hfield : u.field "memo" with
  | none => rw [formReads, means, hfield, Option.map_none, Option.map_none]
  | some f =>
    rw [formReads_of_field hfield, means_of_field hfield, Option.getD_some, Option.getD_some]
    by_cases hplus : '+' ∈ f.value
    · have hspace : String.ofList (formDecode f.value) ≠ "" := by
        intro hempty
        have hmem := space_mem_formDecode f.value_stands hplus
        rw [← String.toList_ofList (l := formDecode f.value), hempty] at hmem
        cases hmem
      have hliteral : String.ofList f.valueText ≠ "" := by
        intro hempty
        have hmem := plus_mem_of_stands f.value_stands hplus
        rw [← String.toList_ofList (l := f.valueText), hempty] at hmem
        cases hmem
      exact ⟨fun h => absurd h hspace, fun h => absurd h hliteral⟩
    · rw [(formDecode_eq_iff f.value_stands).mpr hplus]

theorem withheld_iff : u.Withheld ↔ (u.formReads "memo").getD "" ≠ "" ∧ u.memoKind = none :=
  and_congr_left' (not_congr formReads_memo.symm)

theorem exists_destination (h : parseDestination (trim ((u.formReads "destination").getD "")) ≠ none) :
    ∃ d ∈ u.field "destination", u.formReads "destination" = some (.ofList (formDecode d.value)) := by
  cases hfield : u.field "destination" with
  | none =>
    rw [formReads, hfield] at h
    exact absurd not_payable_empty h
  | some d => exact ⟨d, rfl, formReads_of_field hfield⟩

theorem faithful_of_clear (hclear : u.Clear) : u.ReadAsWritten := by
  intro r hr
  rw [parsePaymentUri_text, readParams, kindOf_formReads] at hr
  dsimp only at hr
  split at hr
  · cases hr
  · rename_i hpay
    obtain ⟨d, hd, hread⟩ := exists_destination hpay
    rw [hread, Option.getD_some] at hpay hr
    obtain ⟨hplus, htrim, hmemo⟩ := hclear d hd hpay
    have hdestination : u.means "destination" = some (trim (.ofList (formDecode d.value))) := by
      rw [means_of_field hd, (formDecode_eq_iff d.value_stands).mpr hplus, htrim]
    split at hr
    · rename_i hdropped
      cases hr
      have hwithheld := withheld_iff.mpr hdropped
      exact ⟨hdestination, hpay, fun _ => rfl, fun hnot => absurd hwithheld hnot, fun hnot => absurd hwithheld hnot,
        fun hnot => absurd hwithheld hnot⟩
    · rename_i hkept
      cases hr
      have hmeans : u.formReads "memo" = u.means "memo" := by
        apply formReads_of_plain
        intro f hf hmem
        -- a memo that no kind is named for is empty
        by_cases hkind : u.memoKind = none
        · have hempty : (u.formReads "memo").getD "" = "" := by
            by_contra hne
            exact hkept ⟨hne, hkind⟩
          have hspace := space_mem_formDecode f.value_stands hmem
          rw [formReads_of_field hf, Option.getD_some] at hempty
          rw [← String.toList_ofList (l := formDecode f.value), hempty] at hspace
          cases hspace
        · exact hmemo f hf hkind hmem
      refine ⟨hdestination, hpay, fun hwithheld => absurd (withheld_iff.mp hwithheld) hkept, fun _ => hmeans, fun _ => ?_,
        fun _ => formReads_amount⟩
      dsimp only
      rw [hmeans]

theorem clear_of_faithful (h : u.ReadAsWritten) : u.Clear := by
  intro d hd hpay
  have hspec : parsePaymentUri u.text = _ := parsePaymentUri_text
  rw [readParams, formReads_of_field hd, Option.getD_some, kindOf_formReads] at hspec
  dsimp only at hspec
  rw [if_neg hpay] at hspec
  have hdestination : String.ofList d.valueText = trim (.ofList (formDecode d.value)) := by
    split at hspec
    · exact Option.some.inj ((means_of_field hd).symm.trans (h _ hspec).destination)
    · exact Option.some.inj ((means_of_field hd).symm.trans (h _ hspec).destination)
  have hplus : '+' ∉ d.value := by
    intro hmem
    have hnot := plus_notMem_of_payable hpay
    rw [← hdestination, String.toList_ofList] at hnot
    exact hnot (plus_mem_of_stands d.value_stands hmem)
  refine ⟨hplus, ?_, fun m hm hkind => ?_⟩
  · rw [(formDecode_eq_iff d.value_stands).mpr hplus] at hdestination
    exact hdestination.symm
  · rw [if_neg fun hdropped => hkind hdropped.2] at hspec
    have hmemo : u.formReads "memo" = u.means "memo" := (h _ hspec).memo fun hwithheld => hkind hwithheld.2
    rw [formReads_of_field hm, means_of_field hm, Option.some.injEq, String.ofList_inj] at hmemo
    exact (formDecode_eq_iff m.value_stands).mp hmemo

theorem readAsWritten_iff : u.ReadAsWritten ↔ u.Clear := ⟨clear_of_faithful, faithful_of_clear⟩

end PayUri

/-! ## Writing a URI -/

theorem kept_plain {c : Char} (h : isKept c = true) : isSpace c = false := by
  have hall : ∀ n < 0x80, isKept (.ofNat n) = true → isSpace (.ofNat n) = false := by decide +kernel
  have hkept := hall c.toNat (kept_ascii h)
  rw [Char.ofNat_toNat] at hkept
  exact hkept h

theorem formEncode_plain {c : Char} {cs : List Char} (h : c ∈ formEncode cs) : isSpace c = false := by
  obtain rfl | rfl | hkept := mem_formEncode h
  · decide
  · decide
  · exact kept_plain hkept

theorem serialize_plain {c : Char} {params : List (List Char × List Char)} (h : c ∈ serialize params) :
    isSpace c = false := by
  refine plain_of_mem_intercalate (fun part hpart c hc => ?_) h
  obtain ⟨p, -, rfl⟩ := List.mem_map.mp hpart
  rcases List.mem_append.mp hc with hc | hc
  · exact formEncode_plain hc
  · rcases List.mem_cons.mp hc with rfl | hc
    · decide
    · exact formEncode_plain hc

theorem getParam_map {params : List (String × String)} {name : String} :
    getParam (params.map fun p => (p.1.toList, p.2.toList)) name = (params.find? (·.1 = name)).map Prod.snd := by
  rw [getParam, UrlEncoded.get, List.find?_map, Option.map_map, Option.map_map]
  have hname : (fun p : List Char × List Char => decide (p.1 = name.toList)) ∘ (fun p : String × String => (p.1.toList, p.2.toList)) =
      fun p => decide (p.1 = name) := by
    funext p
    exact decide_eq_decide.mpr String.toList_inj
  rw [hname]
  congr 1
  funext p
  exact String.ofList_toList

theorem trim_address {account : MuxedAccount} : trim account.address = account.address := by
  cases account with
  | ed25519 key => exact trim_of_plain fun c hc => (base32_plain (by rwa [base32, String.toList_ofList])).1
  | med25519 id key => exact trim_of_plain fun c hc => (base32_plain (by rwa [base32, String.toList_ofList])).1

theorem payable_address {account : MuxedAccount} : parseDestination account.address ≠ none := by
  rw [parseDestination, trim_address]
  split
  · exact Option.some_ne_none _
  · rename_i hmuxed
    cases account with
    | ed25519 key =>
      rw [MuxedAccount.address, if_pos isValid_address]
      exact Option.some_ne_none _
    | med25519 id key => exact absurd isValid_muxedAddress hmuxed

theorem name_mem {opts : ReceiveUriOpts} {p : String × String} (h : p ∈ opts.params) :
    p.1 ∈ ["destination", "asset_code", "asset_issuer", "amount", "msg"] := by
  rcases List.mem_append.mp h with h | h
  · rcases List.mem_append.mp h with h | h
    · simp only [List.mem_cons, List.not_mem_nil, or_false] at h
      rcases h with rfl | rfl | rfl <;> simp
    · obtain ⟨a, -, rfl⟩ := Option.map_eq_some_iff.mp (Option.mem_toList.mp h)
      simp
  · obtain ⟨m, -, rfl⟩ := Option.map_eq_some_iff.mp (Option.mem_toList.mp h)
    simp

theorem find_memo {opts : ReceiveUriOpts} {name : String} (hname : name = "memo" ∨ name = "memo_type") :
    opts.params.find? (·.1 = name) = none := by
  refine List.find?_eq_none.mpr fun p hp hfound => ?_
  have hmem := name_mem hp
  rw [of_decide_eq_true hfound] at hmem
  rcases hname with rfl | rfl
  · revert hmem
    decide
  · revert hmem
    decide

theorem find_amount {opts : ReceiveUriOpts} (hamount : ∀ a ∈ opts.amount, a ≠ "") :
    (opts.params.find? (·.1 = "amount")).map Prod.snd = opts.amount := by
  obtain ⟨address, code, issuer, amount, msg⟩ := opts
  cases amount with
  | none => cases msg <;> simp [ReceiveUriOpts.params, List.find?]
  | some a =>
    have hne : a ≠ "" := hamount a rfl
    simp [ReceiveUriOpts.params, List.find?, Option.filter, hne]

/-- A URI that has been written is read as it was meant, and without a memo. -/
theorem parsePaymentUri_buildReceiveUri {opts : ReceiveUriOpts} {account : MuxedAccount}
    (haddress : opts.address = account.address) (hamount : ∀ a ∈ opts.amount, isAmount a.toList = true) :
    parsePaymentUri (buildReceiveUri opts) =
      some { destination := opts.address, amount := opts.amount, assetCode := some opts.assetCode,
             assetIssuer := some opts.assetIssuer } := by
  have hlower : pay.map Char.toLower = pay := by decide
  have hdestination : opts.params.find? (·.1 = "destination") = some ("destination", opts.address) := rfl
  have hcode : opts.params.find? (·.1 = "asset_code") = some ("asset_code", opts.assetCode) := rfl
  have hissuer : opts.params.find? (·.1 = "asset_issuer") = some ("asset_issuer", opts.assetIssuer) := rfl
  have hne : ∀ a ∈ opts.amount, a ≠ "" := by
    rintro a ha rfl
    exact absurd (hamount "" ha) (by decide)
  have hkept : opts.amount.filter (fun a => isAmount a.toList) = opts.amount := by
    cases hamt : opts.amount with
    | none => rfl
    | some a => rw [Option.filter_some, if_pos (hamount a hamt)]
  rw [buildReceiveUri, parsePaymentUri_query hlower fun c => serialize_plain, parse_serialize, readParams]
  simp only [getParam_map]
  rw [hdestination, hcode, hissuer, find_amount hne, find_memo (.inl rfl), find_memo (.inr rfl), Option.map_some,
    Option.getD_some, haddress, trim_address, if_neg payable_address, hkept]
  rfl

/-! ## A memo with a plus -/

/-- A field that stands for itself. -/
def Field.literal (name value : List Char) (hname : name.all isKept = true)
    (hvalue : ∀ c ∈ value, c ≠ '%' ∧ c ≠ '&' ∧ c ≠ '#' ∧ isSpace c = false) : Field where
  name := name
  value := value
  nameText := name
  valueText := value
  name_stands := stands_self fun h => (kept_ne (List.all_eq_true.mp hname _ h)).2.1 rfl
  value_stands := stands_self fun h => (hvalue _ h).1 rfl
  name_plain c hc :=
    have hkept := List.all_eq_true.mp hname c hc
    have ⟨_, _, hhash, hamp, heq, _⟩ := kept_ne hkept
    ⟨heq, hamp, hhash, kept_plain hkept⟩
  value_plain c hc := (hvalue c hc).2

def deposit : Field :=
  .literal "destination".toList (address 0).toList (by decide) fun _ hc =>
    have hplain := base32_plain (by rwa [address] at hc)
    ⟨hplain.2.2.1, hplain.2.2.2.1, hplain.2.2.2.2, hplain.1⟩

theorem deposit_value : deposit.value = (address 0).toList := by
  simp only [deposit, Field.literal]

def depositMemo : Field := .literal "memo".toList "a+b".toList (by decide) (by simp [isSpace])

/-- A deposit address, and the memo `a+b`. -/
def depositUri : PayUri where
  operation := pay
  fields := [deposit, depositMemo]
  operation_eq := by decide
  first_plain := by decide

theorem memo_changed : ¬depositUri.ReadAsWritten := by
  intro h
  have hdestination : deposit ∈ depositUri.field "destination" := rfl
  have hmemo : depositMemo ∈ depositUri.field "memo" := rfl
  have hkind : depositUri.memoKind ≠ none := by
    have hunnamed : depositUri.field "memo_type" = none := by
      refine List.find?_eq_none.mpr fun f hf => ?_
      rcases List.mem_pair.mp hf with rfl | rfl <;> decide
    rw [PayUri.memoKind, PayUri.means, hunnamed]
    decide
  have hread : formDecode (address 0).toList = (address 0).toList := by
    refine (formDecode_eq_iff (stands_self fun hmem => ?_)).mpr fun hmem => ?_
    · exact (base32_plain hmem).2.2.1 rfl
    · exact (base32_plain hmem).2.1 rfl
  have hpay : parseDestination (trim (.ofList (formDecode deposit.value))) ≠ none := by
    rw [deposit_value, hread, String.ofList_toList]
    have haddress : trim (address 0) = address 0 := @trim_address (.ed25519 0)
    rw [haddress]
    exact @payable_address (.ed25519 0)
  obtain ⟨-, -, hclear⟩ := PayUri.readAsWritten_iff.mp h deposit hdestination hpay
  exact hclear depositMemo hmemo hkind (by decide)

/-- A URI is read as it is written exactly where nothing that is returned has a literal `+`, nor white space
around its destination; what is written for a receiver is always read back. -/
theorem read_as_written_iff (u : PayUri) :
    (u.ReadAsWritten ↔ u.Clear) ∧
      ∀ (opts : ReceiveUriOpts) (account : MuxedAccount), opts.address = account.address →
        (∀ a ∈ opts.amount, isAmount a.toList = true) →
          parsePaymentUri (buildReceiveUri opts) =
            some { destination := opts.address, amount := opts.amount, assetCode := some opts.assetCode,
                   assetIssuer := some opts.assetIssuer } :=
  ⟨PayUri.readAsWritten_iff, fun _ _ => parsePaymentUri_buildReceiveUri⟩

end Lumenia.Web.PaymentUri
