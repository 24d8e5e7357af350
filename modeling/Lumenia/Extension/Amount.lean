import Lumenia.Extension.Verdict
import Lumenia.Theory.Checks
import Lumenia.Web.Dollars

/-!
# The amount a person typed

`apps/extension/src/lib/amount.ts`: what the field of the extension holds, as a whole number of cents. What
is typed is what the escrow is asked for, and all conversions behind it are exact.
-/

namespace Lumenia.Extension

open Sponsor (isSpace trim)
open Stellar Web.Dollars

/-! ## The second look -/

/-- The digits and points of a text, a comma being a point. -/
def keptChars (raw : List Char) : List Char :=
  (raw.map fun c => if c = ',' then '.' else c).filter fun c => c.isDigit ∨ c = '.'

/-- `sanitizeAmountInput` -/
def sanitizeAmountInput (raw : String) : String :=
  let kept := keptChars raw.toList
  let whole := kept.takeWhile (· ≠ '.')
  match kept.dropWhile (· ≠ '.') with
  | [] => .ofList kept
  | _ :: rest => .ofList ((if whole = [] then ['0'] else whole) ++ '.' :: (rest.takeWhile (· ≠ '.')).take 2)

/-- Two places of what is behind the point. -/
def centPlaces (frac : List Char) : ℕ := readDigits ((frac ++ List.replicate 2 '0').take 2)

/-- Whole cents of a text of the form `/^(\d{1,9})(?:\.(\d{0,2}))?$/`. -/
def centsOf (amount : String) : Option ℤ :=
  let cs := (trim amount).toList
  let whole := cs.takeWhile Char.isDigit
  if 1 ≤ whole.length ∧ whole.length ≤ 9 then
    match cs.dropWhile Char.isDigit with
    | [] => some (readDigits whole * 100 + centPlaces [])
    | c :: frac =>
      if c = '.' ∧ frac.all Char.isDigit ∧ frac.length ≤ 2 then
        some (readDigits whole * 100 + centPlaces frac)
      else none
  else none

def formatCents (cents : ℤ) : String :=
  .ofList (bigText (cents.tdiv 100) ++ '.' :: (bigText (cents.tmod 100)).leftpad 2 '0')

/-- `AMOUNT_TEXT`: `/^\s*\d{0,9}(?:[.,]\d*)?\s*$/` -/
def amountText (raw : List Char) : Bool :=
  let cs := raw.dropWhile isSpace
  decide ((cs.takeWhile Char.isDigit).length ≤ 9) &&
    match cs.dropWhile Char.isDigit with
    | [] => true
    | c :: rest =>
      if c = '.' ∨ c = ',' then (rest.dropWhile Char.isDigit).all isSpace else (c :: rest).all isSpace

inductive NetId
  | testnet
  | public_
  deriving DecidableEq

inductive AmountError
  | badAmount (message : String)
  | overCap (message : String)
  deriving DecidableEq

def badAmountMessage : String := "Enter an amount, like 5 or 2.50."

def minUsd : String := "0.01"

def txCapUsd : String := "5"

def testnetMaxUsd : String := "100"

/-- `centsOf(…)!` of a limit. -/
def limit (usd : String) : ℤ := (centsOf usd).getD 0

def parseAmount (raw : String) (net : NetId) : Except AmountError String := do
  failWhen (amountText raw.toList = false ∨ raw.toList.any Char.isDigit = false) (.badAmount badAmountMessage)
  match centsOf (sanitizeAmountInput raw) with
  | none => throw (.badAmount badAmountMessage)
  | some cents => do
    failWhen (cents ≤ 0) (.badAmount badAmountMessage)
    failWhen (cents < limit minUsd) (.badAmount "The smallest link is $0.01.")
    failWhen (net = .public_ ∧ limit txCapUsd < cents) (.overCap (messages .overCap))
    failWhen (net = .testnet ∧ limit testnetMaxUsd < cents) (.badAmount "Practice links go up to $100.00.")
    return formatCents cents

/-! ## What is typed -/

/-- The text is that many cents: a decimal text, with a point or a comma and space around it. Places behind
the second are left out. -/
def Typed (raw : List Char) (cents : ℕ) : Prop :=
  ∃ before whole point after, raw = before ++ whole ++ point ++ after ∧ (∀ c ∈ before ++ after, isSpace c) ∧
    (∀ c ∈ whole, c.isDigit) ∧ (point = [] ∧ cents = readDigits whole * 100 ∨
      ∃ c frac, point = c :: frac ∧ (c = '.' ∨ c = ',') ∧ (∀ d ∈ frac, d.isDigit) ∧
        cents = readDigits whole * 100 + centPlaces frac)

section

variable {raw cs ds whole point frac before after : List Char} {c : Char} {n : ℕ}

/-- What a text that the field can hold is made of. -/
structure Shape (raw before whole point after : List Char) : Prop where
  parts : raw = before ++ whole ++ point ++ after
  space : ∀ c ∈ before ++ after, isSpace c = true
  digits : ∀ c ∈ whole, c.isDigit = true
  short : whole.length ≤ 9
  pointed : point = [] ∨ ∃ c frac, point = c :: frac ∧ (c = '.' ∨ c = ',') ∧ ∀ d ∈ frac, d.isDigit = true

theorem shape_of_amountText (h : amountText raw = true) :
    ∃ before whole point after, Shape raw before whole point after := by
  obtain ⟨hshort, hrest⟩ := Bool.and_eq_true_iff.mp h
  have hbefore : ∀ c ∈ raw.takeWhile isSpace, isSpace c = true := fun c hc => List.mem_takeWhile_imp hc
  have hwhole : ∀ c ∈ (raw.dropWhile isSpace).takeWhile Char.isDigit, c.isDigit = true :=
    fun c hc => List.mem_takeWhile_imp hc
  have hsplit : ∀ rest, (raw.dropWhile isSpace).dropWhile Char.isDigit = rest →
      raw = raw.takeWhile isSpace ++ (raw.dropWhile isSpace).takeWhile Char.isDigit ++ rest := by
    rintro rest rfl
    rw [List.append_assoc, List.takeWhile_append_dropWhile, List.takeWhile_append_dropWhile]
  cases htail : (raw.dropWhile isSpace).dropWhile Char.isDigit with
  | nil =>
    refine ⟨_, _, [], [], (hsplit [] htail).trans (List.append_nil _).symm, fun c hc => ?_, hwhole,
      of_decide_eq_true hshort, .inl rfl⟩
    rw [List.append_nil] at hc
    exact hbefore c hc
  | cons c rest =>
    rw [htail] at hrest
    dsimp only at hrest
    split at hrest
    · rename_i hpoint
      refine ⟨raw.takeWhile isSpace, _, c :: rest.takeWhile Char.isDigit, rest.dropWhile Char.isDigit, ?_, fun d hd => ?_, hwhole,
        of_decide_eq_true hshort, .inr ⟨c, _, rfl, hpoint, fun d hd => List.mem_takeWhile_imp hd⟩⟩
      · refine (hsplit _ htail).trans ?_
        rw [List.append_assoc _ (c :: _), List.cons_append, List.takeWhile_append_dropWhile]
      · rcases List.mem_append.mp hd with hd | hd
        · exact hbefore d hd
        · exact List.all_eq_true.mp hrest d hd
    · refine ⟨_, _, [], c :: rest, (hsplit _ htail).trans (congrArg (· ++ _) (List.append_nil _).symm),
        fun d hd => ?_, hwhole, of_decide_eq_true hshort, .inl rfl⟩
      rcases List.mem_append.mp hd with hd | hd
      · exact hbefore d hd
      · exact List.all_eq_true.mp hrest d hd

theorem keptChars_append : keptChars (cs ++ ds) = keptChars cs ++ keptChars ds := by
  rw [keptChars, List.map_append, List.filter_append]
  rfl

theorem keptChars_space (h : ∀ c ∈ cs, isSpace c = true) : keptChars cs = [] := by
  refine List.filter_eq_nil_iff.mpr fun c hc => ?_
  obtain ⟨d, hd, rfl⟩ := List.mem_map.mp hc
  have hspace := h d hd
  have hcomma : d ≠ ',' := by
    rintro rfl
    revert hspace
    decide
  rw [if_neg hcomma]
  intro hkept
  rcases of_decide_eq_true hkept with hdigit | rfl
  · rw [(digit_plain hdigit).1] at hspace
    cases hspace
  · revert hspace
    decide

theorem keptChars_digits (h : ∀ c ∈ cs, c.isDigit = true) : keptChars cs = cs := by
  have hmap : cs.map (fun c => if c = ',' then '.' else c) = cs := by
    refine (List.map_congr_left fun c hc => ?_).trans (List.map_id cs)
    exact if_neg (digit_plain (h c hc)).2.2.1
  rw [keptChars, hmap]
  exact List.filter_eq_self.mpr fun c hc => decide_eq_true (.inl (h c hc))

theorem keptChars_point (hc : c = '.' ∨ c = ',') (h : ∀ d ∈ frac, d.isDigit = true) :
    keptChars (c :: frac) = '.' :: frac := by
  have hone : keptChars [c] = ['.'] := by
    rcases hc with rfl | rfl <;> decide
  rw [← List.singleton_append, keptChars_append, hone, keptChars_digits h]
  rfl

theorem ne_point_of_digits (h : ∀ c ∈ cs, c.isDigit = true) : ∀ c ∈ cs, decide (c ≠ '.') = true :=
  fun c hc => decide_eq_true (digit_plain (h c hc)).2.1

/-- Without a point there are only digits. -/
theorem sanitize_whole (hkept : keptChars raw = whole) (hwhole : ∀ c ∈ whole, c.isDigit = true) :
    sanitizeAmountInput (.ofList raw) = .ofList whole := by
  rw [sanitizeAmountInput, String.toList_ofList, hkept,
    List.dropWhile_eq_nil_iff.mpr (ne_point_of_digits hwhole)]

theorem sanitize_point (hkept : keptChars raw = whole ++ '.' :: frac) (hwhole : ∀ c ∈ whole, c.isDigit = true)
    (hfrac : ∀ c ∈ frac, c.isDigit = true) : sanitizeAmountInput (.ofList raw) =
      .ofList ((if whole = [] then ['0'] else whole) ++ '.' :: frac.take 2) := by
  have hpoint : decide (('.' : Char) ≠ '.') = false := by decide
  rw [sanitizeAmountInput, String.toList_ofList, hkept,
    List.takeWhile_append_of_pos (ne_point_of_digits hwhole),
    List.dropWhile_append_of_pos (ne_point_of_digits hwhole), List.takeWhile_cons, List.dropWhile_cons, hpoint,
    if_neg Bool.false_ne_true, if_neg Bool.false_ne_true, List.append_nil]
  dsimp only
  rw [List.takeWhile_eq_self_iff.mpr (ne_point_of_digits hfrac)]

theorem centPlaces_take : centPlaces (frac.take 2) = centPlaces frac := by
  rcases frac with - | ⟨a, - | ⟨b, frac⟩⟩
  · rfl
  · rfl
  · rfl

theorem centsOf_whole (hwhole : ∀ c ∈ whole, c.isDigit = true) (hne : whole ≠ []) (hshort : whole.length ≤ 9) :
    centsOf (.ofList whole) = some ((readDigits whole * 100 : ℕ) : ℤ) := by
  have hpos : 1 ≤ whole.length := List.length_pos_iff.mpr hne
  rw [centsOf, trim_of_digits hwhole, String.toList_ofList, List.takeWhile_eq_self_iff.mpr hwhole,
    List.dropWhile_eq_nil_iff.mpr hwhole, if_pos ⟨hpos, hshort⟩]
  dsimp only
  rw [show centPlaces [] = 0 from rfl]
  push_cast
  rw [add_zero]

theorem centsOf_point (hwhole : ∀ c ∈ whole, c.isDigit = true) (hne : whole ≠ []) (hshort : whole.length ≤ 9)
    (hfrac : ∀ c ∈ frac, c.isDigit = true) (hplaces : frac.length ≤ 2) :
    centsOf (.ofList (whole ++ '.' :: frac)) = some ((readDigits whole * 100 + centPlaces frac : ℕ) : ℤ) := by
  have hpos : 1 ≤ whole.length := List.length_pos_iff.mpr hne
  have hpoint : ('.' : Char).isDigit = false := by decide
  have hplain : ∀ c ∈ whole ++ '.' :: frac, isSpace c = false := by
    intro c hc
    rcases List.mem_append.mp hc with hc | hc
    · exact (digit_plain (hwhole c hc)).1
    · rcases List.mem_cons.mp hc with rfl | hc
      · decide
      · exact (digit_plain (hfrac c hc)).1
  rw [centsOf, trim_of_plain hplain, String.toList_ofList, List.takeWhile_append_of_pos hwhole,
    List.dropWhile_append_of_pos hwhole, List.takeWhile_cons, List.dropWhile_cons, hpoint,
    if_neg Bool.false_ne_true, if_neg Bool.false_ne_true, List.append_nil, if_pos ⟨hpos, hshort⟩]
  dsimp only
  rw [if_pos ⟨rfl, List.all_eq_true.mpr hfrac, hplaces⟩]
  push_cast
  rfl

/-- The cents that are read are those that are typed. -/
theorem Shape.centsOf_sanitize (h : Shape raw before whole point after) (hdigit : raw.any Char.isDigit = true) :
    ∃ cents : ℕ, centsOf (sanitizeAmountInput (.ofList raw)) = some (cents : ℤ) ∧ Typed raw cents := by
  obtain ⟨hraw, hspace, hwhole, hshort, hpoint⟩ := h
  have hbefore : keptChars before = [] := keptChars_space fun c hc => hspace c (List.mem_append_left _ hc)
  have hafter : keptChars after = [] := keptChars_space fun c hc => hspace c (List.mem_append_right _ hc)
  have hkept : keptChars raw = whole ++ keptChars point := by
    rw [hraw, keptChars_append, keptChars_append, keptChars_append, hbefore, hafter, keptChars_digits hwhole]
    simp
  rcases hpoint with rfl | ⟨c, frac, rfl, hc, hfrac⟩
  · have hne : whole ≠ [] := by
      rintro rfl
      obtain ⟨d, hd, hdigit⟩ := List.any_eq_true.mp hdigit
      have hspaced := hspace d (by simpa [hraw] using hd)
      rw [(digit_plain hdigit).1] at hspaced
      cases hspaced
    have hkept' : keptChars raw = whole := hkept.trans (List.append_nil _)
    refine ⟨_, (congrArg centsOf (sanitize_whole hkept' hwhole)).trans (centsOf_whole hwhole hne hshort), ?_⟩
    exact ⟨before, whole, [], after, hraw, hspace, hwhole, .inl ⟨rfl, rfl⟩⟩
  · rw [keptChars_point hc hfrac] at hkept
    have hzero : ∀ c ∈ (if whole = [] then ['0'] else whole), c.isDigit = true := by
      split
      · exact List.forall_mem_singleton.mpr rfl
      · exact hwhole
    have hne : (if whole = [] then ['0'] else whole) ≠ [] := by
      split
      · decide
      · assumption
    have hlen : (if whole = [] then ['0'] else whole).length ≤ 9 := by
      split
      · decide
      · exact hshort
    have hvalue : readDigits (if whole = [] then ['0'] else whole) = readDigits whole := by
      split
      · rename_i hnil
        rw [hnil]
        rfl
      · rfl
    have hcents := centsOf_point hzero hne hlen (fun c hc => hfrac c (List.mem_of_mem_take hc))
      (List.length_take_le 2 frac)
    rw [hvalue, centPlaces_take] at hcents
    refine ⟨_, (congrArg centsOf (sanitize_point hkept hwhole hfrac)).trans hcents, ?_⟩
    exact ⟨before, whole, c :: frac, after, hraw, hspace, hwhole, .inr ⟨c, frac, rfl, hc, hfrac, rfl⟩⟩

/-! ## What is asked for -/

/-- So many cents, as they are written. -/
def ofCents (n : ℕ) : Decimal where
  whole := (numeral 10 (n / 100)).map digitChar
  frac := some (((numeral 10 (n % 100)).map digitChar).leftpad 2 '0')
  whole_digits := isDigit_numeral
  frac_digits f hf := by
    obtain rfl := Option.some.inj hf
    exact isDigit_leftpad isDigit_numeral
  places f hf := by
    obtain rfl := Option.some.inj hf
    exact (length_leftpad_numeral (by decide) (Nat.mod_lt n (by decide))).trans_le (by decide)
  some_digit := .inl fun hnil => numeral_ne_nil (List.map_eq_nil_iff.mp hnil)

theorem formatCents_natCast : formatCents (n : ℤ) = (ofCents n).text := by
  have hdiv : (n : ℤ).tdiv 100 = ((n / 100 : ℕ) : ℤ) := by
    rw [Int.tdiv_eq_ediv_of_nonneg (Int.natCast_nonneg n)]
    rfl
  have hmod : (n : ℤ).tmod 100 = ((n % 100 : ℕ) : ℤ) := by
    rw [Int.tmod_eq_emod_of_nonneg (Int.natCast_nonneg n)]
    rfl
  rw [formatCents, hdiv, hmod, bigText_natCast, bigText_natCast]
  rfl

/-- The escrow is asked for as many stroops as the cents are. -/
theorem usdcStroops_formatCents : usdcStroops (formatCents (n : ℤ)) = .ok ((n : ℤ) * 100000) := by
  have hplaces : (ofCents n).places_.length = 2 :=
    length_leftpad_numeral (by decide) (Nat.mod_lt n (by decide))
  have hfrac : readDigits (ofCents n).places_ = n % 100 := readDigits_leftpad.trans readDigits_numeral
  have hwhole : readDigits (ofCents n).whole = n / 100 := readDigits_numeral
  have hvalue : (ofCents n).stroops = n * 100000 := by
    rw [Decimal.stroops, hplaces, hfrac, hwhole]
    omega
  rw [formatCents_natCast, Decimal.usdcStroops_text, hvalue]
  push_cast
  rfl

theorem parsed_of_ok {raw text : String} {net : NetId} (h : parseAmount raw net = .ok text) :
    ∃ cents : ℕ, Typed raw.toList cents ∧ text = formatCents cents := by
  rw [parseAmount, check_bind_eq_ok, failWhen_eq_ok, not_or, Bool.not_eq_false, Bool.not_eq_false] at h
  obtain ⟨⟨hform, hdigit⟩, hrest⟩ := h
  obtain ⟨before, whole, point, after, hshape⟩ := shape_of_amountText hform
  obtain ⟨cents, hcents, htyped⟩ := hshape.centsOf_sanitize hdigit
  rw [String.ofList_toList] at hcents
  rw [hcents] at hrest
  obtain ⟨-, hrest⟩ := check_bind_eq_ok.mp hrest
  obtain ⟨-, hrest⟩ := check_bind_eq_ok.mp hrest
  obtain ⟨-, hrest⟩ := check_bind_eq_ok.mp hrest
  obtain ⟨-, hrest⟩ := check_bind_eq_ok.mp hrest
  exact ⟨cents, htyped, (Except.ok.inj hrest).symm⟩

/-- **What was typed is what is escrowed**, to the stroop. -/
theorem typed_is_escrowed :
    (∀ raw net text, parseAmount raw net = .ok text → ∃ cents : ℕ, Typed raw.toList cents ∧
      text = formatCents cents ∧ usdcStroops text = .ok ((cents : ℤ) * 100000)) ∧
    (∀ d : Decimal, ∃ n : ℤ, (n : ℚ) = d.value * 10 ^ 7 ∧ usdcStroops d.text = .ok n ∧
      usdToStroops d.text = .ok n ∧ (d.Complete → toStroops d.text = .ok n)) ∧
    (∀ n : ℤ, 0 ≤ n → usdcStroops (stroopsToUsdc n) = .ok n ∧ toStroops (fromStroops n) = .ok n ∧
      usdToStroops (stroopsToUsd n) = .ok n) ∧
    ∀ (d : Decimal) (slots : ℕ), 1 ≤ slots → ∃ total pot share, groupTotal d.text slots = .ok total ∧
      usdcStroops total = .ok pot ∧ Soroban.checkedDiv pot slots = some share ∧ pot.tmod slots = 0 ∧
        usdcStroops d.text = .ok share := by
  refine ⟨fun raw net text h => ?_, fun d => ?_, fun n hn => ?_, fun d slots hslots => ?_⟩
  · obtain ⟨cents, htyped, rfl⟩ := parsed_of_ok h
    exact ⟨cents, htyped, rfl, usdcStroops_formatCents⟩
  · exact ⟨d.stroops, d.stroops_eq_value, d.usdcStroops_text, d.usdToStroops_text, d.toStroops_text⟩
  · obtain ⟨k, rfl⟩ := Int.eq_ofNat_of_zero_le hn
    exact ⟨usdcStroops_stroopsToUsdc, toStroops_fromStroops, usdToStroops_stroopsToUsd⟩
  · obtain ⟨total, pot, htotal, hpot, hshare, hdust⟩ := share_of_pot (d := d) hslots
    exact ⟨total, pot, _, htotal, hpot, hshare, hdust, d.usdcStroops_text⟩

/-- A text without a digit before its point is not read everywhere. -/
theorem half_dollar_refused : (∃ d : Decimal, d.text = ".5" ∧ d.value * 10 ^ 7 = 5000000) ∧
    usdcStroops ".5" = .ok 5000000 ∧ usdToStroops ".5" = .ok 5000000 ∧
      toStroops ".5" = .error "not an amount this app can read: .5" := by
  refine ⟨⟨⟨[], some ['5'], nofun, ?_, ?_, .inr ⟨_, rfl, nofun⟩⟩, ?_, ?_⟩, ?_⟩
  · intro f hf
    obtain rfl := Option.some.inj hf
    exact List.forall_mem_singleton.mpr rfl
  · intro f hf
    obtain rfl := Option.some.inj hf
    decide
  · decide +kernel
  · decide +kernel
  · decide +kernel

end

end Lumenia.Extension
