import Lumenia.Web.ClaimLinkSafety

/-!
# What a chat app draws of a rich link

A dollar text is what an escrow holds for the link, to the cent; without a live record there is no name either. The
card that the preview points to is the card of the same link.
-/

namespace Lumenia.Web.ClaimLink

open Claim (NetworkConfig dropContracts poolStatusOf)
open Sponsor (isSpace)
open Dollars (bigText decimalText length_leftpad_numeral readDigits_leftpad readDigits_numeral isDigit_leftpad
  isDigit_numeral stroopsToUsdc)
open Stellar
open UriComponent UrlEncoded

variable {p : V2LinkParts} {name cs linkHex url : List Char} {slots : Option ℕ} {mainnet group : Bool} {n : ℤ}

/-! ## Amounts of a record -/

theorem leftpad_map {α β : Type} {f : α → β} {a : α} {k : ℕ} {as : List α} :
    (as.map f).leftpad k (f a) = (as.leftpad k a).map f := by
  rw [List.leftpad, List.leftpad, List.map_append, List.map_replicate, List.length_map]

/-- A part of a dollar, in seven places. -/
theorem leftpad_numeral {k m : ℕ} (hk : 0 < k) :
    ((numeral 10 (m % 10 ^ k)).map digitChar).leftpad k '0' = (fixedDigits 10 k m).map digitChar := by
  have hlen : ((numeral 10 (m % 10 ^ k)).leftpad k 0).length = (fixedDigits 10 k m).length := by
    have hmap := length_leftpad_numeral hk (Nat.mod_lt m (by positivity : 0 < 10 ^ k))
    rw [length_fixedDigits, List.length_leftpad]
    rwa [List.length_leftpad, List.length_map] at hmap
  have hdigits : ∀ d ∈ (numeral 10 (m % 10 ^ k)).leftpad k 0, d < 10 := by
    intro d hd
    rcases List.mem_append.mp hd with hd | hd
    · rw [List.eq_of_mem_replicate hd]
      decide
    · exact lt_of_mem_numeral (by decide) hd
  have hzero : digitChar 0 = '0' := rfl
  have hvalue : ofDigits 10 ((numeral 10 (m % 10 ^ k)).leftpad k 0) = ofDigits 10 (fixedDigits 10 k m) := by
    rw [← readDigits_map hdigits, ← leftpad_map, hzero, readDigits_leftpad, readDigits_numeral, ofDigits_fixedDigits]
  rw [← ofDigits_inj hdigits (fun d hd => lt_of_mem_fixedDigits (by decide) hd) hlen hvalue, ← leftpad_map, hzero]

theorem decimalText_natCast (m : ℕ) : decimalText (m : ℤ) = amountDigits m := by
  have hdiv : (m : ℤ).tdiv Dollars.unit = ((m / 10 ^ 7 : ℕ) : ℤ) := by
    rw [Int.tdiv_eq_ediv_of_nonneg (Int.natCast_nonneg m)]
    rfl
  have hmod : (m : ℤ).tmod Dollars.unit = ((m % 10 ^ 7 : ℕ) : ℤ) := by
    rw [Int.tmod_eq_emod_of_nonneg (Int.natCast_nonneg m)]
    rfl
  rw [decimalText, hdiv, hmod, Dollars.bigText_natCast, Dollars.bigText_natCast, leftpad_numeral (by decide),
    amountDigits]

/-- The app writes an amount as the ledger does. -/
theorem stroopsToUsdc_eq : stroopsToUsdc n = fromXDRAmount n := by
  rcases lt_or_ge n 0 with hneg | hpos
  · have habs : -n = (n.natAbs : ℤ) := (Int.ofNat_natAbs_of_nonpos hneg.le).symm
    rw [stroopsToUsdc, fromXDRAmount, if_pos hneg, if_pos hneg, if_pos hneg, habs, decimalText_natCast]
    rfl
  · have habs : n = (n.natAbs : ℤ) := (Int.natAbs_of_nonneg hpos).symm
    have hnot : ¬ n < 0 := not_lt.mpr hpos
    rw [stroopsToUsdc, fromXDRAmount, if_neg hnot, if_neg hnot, if_neg hnot]
    conv_lhs => rw [habs, decimalText_natCast]
    rfl

/-- More than nothing is read as more than nothing, and nothing else is. -/
theorem gt_zero_iff : (parseDouble (stroopsToUsdc n)).gt (.finite 0) = true ↔ 0 < n := by
  rw [stroopsToUsdc_eq, parseDouble, parseFloat_fromXDRAmount, Number.ofRat]
  split
  · rename_i hsmall
    have hzero : n = 0 := by
      by_contra hne
      exact absurd hsmall (not_le.mpr (underflow_lt_abs hne))
    rw [hzero]
    decide +kernel
  · split
    · have hsign : (n : ℚ) / 10 ^ 7 < 0 ↔ n < 0 := by
        rw [div_lt_iff₀ (by positivity), zero_mul, Int.cast_lt_zero]
      have hne : n ≠ 0 := by
        rintro rfl
        revert ‹overflow ≤ _›
        decide +kernel
      simp only [Number.toDouble, Number.gt, Bool.not_eq_true', decide_eq_false_iff_not, hsign]
      omega
    · simp only [Number.toDouble, Number.gt, decide_eq_true_eq]
      exact amountDouble_pos_iff

/-! ## Cents -/

theorem toDouble_close {q : ℚ} (hpos : 0 < q) (hlt : q < 2 ^ 45) : |toDouble q - q| < 1 / 200 := by
  have hulp : ulp 53 (-1022) q ≤ 2 ^ (-7 : ℤ) := by
    have hlog : Int.log 2 q < 45 := (Int.lt_zpow_iff_log_lt (b := 2) one_lt_two hpos).mp (by exact_mod_cast hlt)
    apply zpow_le_zpow_right₀ one_le_two
    rw [binaryExponent, abs_of_pos hpos]
    omega
  calc |toDouble q - q| ≤ ulp 53 (-1022) q / 2 := abs_roundBinary_sub_le
    _ ≤ 2 ^ (-7 : ℤ) / 2 := by gcongr
    _ < 1 / 200 := by norm_num

/-- **A whole number of cents is shown as it is.** -/
theorem formatUsd_cents {cents : ℕ} (hpos : 0 < cents) (hlt : cents * 10 ^ 5 < 2 ^ 63) :
    formatUsd (stroopsToUsdc (cents * 10 ^ 5 : ℕ)) =
      '$' :: (grouped ((numeral 10 (cents / 100)).map digitChar) ++ '.' :: (fixedDigits 10 2 cents).map digitChar) := by
  have hint : IsInt64 (cents * 10 ^ 5 : ℕ) := by
    constructor
    · omega
    · exact_mod_cast hlt
  have hdollars : (((cents * 10 ^ 5 : ℕ) : ℤ) : ℚ) / 10 ^ 7 = cents / 100 := by
    push_cast
    ring
  have hcents : (0 : ℚ) < cents / 100 := by positivity
  have hsmall : (cents : ℚ) / 100 < 2 ^ 45 := by
    have hcast : (cents : ℚ) < 2 ^ 45 * 100 := by exact_mod_cast (by omega : cents < 2 ^ 45 * 100)
    rwa [div_lt_iff₀ (by norm_num)]
  have hclose := abs_lt.mp (toDouble_close hcents hsmall)
  have hdouble : 0 < toDouble (cents / 100) := by
    have hstroops : (0 : ℤ) < (cents * 10 ^ 5 : ℕ) := by positivity
    rw [← hdollars]
    exact amountDouble_pos_iff.mpr hstroops
  have hfloor : ⌊|toDouble (cents / 100)| * 100 + 1 / 2⌋ = (cents : ℤ) := by
    rw [abs_of_pos hdouble, Int.floor_eq_iff]
    push_cast
    constructor <;> linarith
  rw [formatUsd, stroopsToUsdc_eq, parseDouble_fromXDRAmount hint, amountDouble, hdollars]
  simp only [toLocaleString, hfloor, Int.toNat_natCast, if_neg (not_lt.mpr hdouble.le), List.nil_append]

example : formatUsd "1234567.8900000" = "$1,234,567.89".toList := by decide +kernel

/-! ## What the ledger has -/

variable {ν : Type} {deps : LedgerDeps ν} {amount : String}

/-- A reader's answer of a record that can still be paid. -/
def LedgerDeps.Holds (deps : LedgerDeps ν) (linkHex : List Char) (group : Bool) (net : ν) (amount : String) : Prop :=
  if group then deps.loadPool linkHex net = .resolved (some ⟨amount, .open⟩)
  else deps.loadDrop linkHex net = .resolved (some ⟨amount, false⟩)

theorem withTimeout_eq_some {α : Type} {promise : Settlement (Option α)} {a : α} :
    withTimeout promise = some a ↔ promise = .resolved (some a) := by
  cases promise <;> simp [withTimeout]

/-- **An amount is a live record's, on the link's network, and more than nothing.** -/
theorem readLiveAmount_iff : readLiveAmount linkHex group mainnet deps = some amount ↔ isLinkHex linkHex = true ∧
    (∃ net, deps.resolveNetwork mainnet = some net ∧ deps.Holds linkHex group net amount) ∧
    (parseDouble amount).gt (.finite 0) = true := by
  rw [readLiveAmount]
  split
  · rename_i hhex
    cases hnet : deps.resolveNetwork mainnet with
    | none => simp
    | some net =>
      cases group with
      | true =>
        simp only [hhex, if_true, Option.filter_eq_some_iff, Option.bind_eq_some_iff, withTimeout_eq_some,
          Option.some.injEq, exists_eq_left', LedgerDeps.Holds, true_and, and_congr_left_iff]
        intro hpays
        constructor
        · intro h
          obtain ⟨⟨perShare, status⟩, hpool, heq⟩ := h
          simp only [Option.ite_none_right_eq_some, Option.some.injEq] at heq
          obtain ⟨rfl, rfl⟩ := heq
          exact hpool
        · intro hpool
          exact ⟨_, hpool, rfl⟩
      | false =>
        simp only [hhex, Bool.false_eq_true, if_false, Option.filter_eq_some_iff, Option.bind_eq_some_iff,
          withTimeout_eq_some, Option.some.injEq, exists_eq_left', LedgerDeps.Holds, true_and, and_congr_left_iff]
        intro hpays
        constructor
        · intro h
          obtain ⟨⟨amount, claimed⟩, hdrop, heq⟩ := h
          cases claimed with
          | true => cases heq
          | false =>
            obtain rfl := Option.some.inj heq
            exact hdrop
        · intro hdrop
          exact ⟨_, hdrop, rfl⟩
  · rename_i hhex
    simp [hhex]

variable {views : Views} {nowSec : ℕ} {resolveNetwork : Bool → Option NetworkConfig} {net : NetworkConfig}

theorem ofExcept_eq_resolved {α : Type} {answer : Except String α} {a : α} :
    Settlement.ofExcept answer = .resolved a ↔ answer = .ok a := by
  cases answer <;> simp [Settlement.ofExcept]

/-- What is made of the record, if one is found. -/
theorem found_eq_some {ρ σ : Type} {found : Except String (Option ρ)} {f : ρ → σ} {b : σ} :
    (do return (← found).map f : Except String (Option σ)) = .ok (some b) ↔
      ∃ record, found = .ok (some record) ∧ f record = b := by
  constructor
  · intro h
    rcases found with message | none | record
    · cases h
    · cases h
    · exact ⟨record, rfl, Option.some.inj (Except.ok.inj h)⟩
  · rintro ⟨record, rfl, rfl⟩
    rfl

/-- An escrow of the link's network has the link, and still pays so many stroops for it: the whole of a drop that
nobody has taken, or a share of a pot that is open. -/
def Pays (views : Views) (nowSec : ℕ) (net : NetworkConfig) (linkHex : List Char) (group : Bool) (stroops : ℤ) : Prop :=
  0 < stroops ∧
    if group then
      ∃ p, firstRecord (views net · .getPool linkHex) (dropContracts net) false = .ok (some p) ∧
        poolStatusOf p nowSec = .open ∧ p.amountPer = stroops
    else
      ∃ d, firstRecord (views net · .getDrop linkHex) (dropContracts net) false = .ok (some d) ∧
        d.claimed = false ∧ d.amount = stroops

/-- What the escrows still pay is the amount, and nothing else is. -/
theorem readLiveAmount_default :
    readLiveAmount linkHex group mainnet (defaultDeps views nowSec resolveNetwork) = some amount ↔
      isLinkHex linkHex = true ∧ ∃ net stroops, resolveNetwork mainnet = some net ∧
        Pays views nowSec net linkHex group stroops ∧ amount = stroopsToUsdc stroops := by
  rw [readLiveAmount_iff, and_congr_right_iff]
  intro hhex
  constructor
  · intro h
    obtain ⟨⟨net, hnet, hholds⟩, hpays⟩ := h
    cases group with
    | true =>
      simp only [LedgerDeps.Holds, defaultDeps, if_true, ofExcept_eq_resolved, loadPool, hhex, found_eq_some,
        PoolState.mk.injEq] at hholds
      obtain ⟨p, hp, rfl, hstatus⟩ := hholds
      exact ⟨net, _, hnet, ⟨gt_zero_iff.mp hpays, p, hp, hstatus, rfl⟩, rfl⟩
    | false =>
      simp only [LedgerDeps.Holds, defaultDeps, if_true, Bool.false_eq_true, if_false, ofExcept_eq_resolved, loadDrop,
        hhex, found_eq_some, DropState.mk.injEq] at hholds
      obtain ⟨d, hd, rfl, hclaimed⟩ := hholds
      exact ⟨net, _, hnet, ⟨gt_zero_iff.mp hpays, d, hd, hclaimed, rfl⟩, rfl⟩
  · intro h
    obtain ⟨net, stroops, hnet, ⟨hpos, hrecord⟩, rfl⟩ := h
    refine ⟨⟨net, hnet, ?_⟩, gt_zero_iff.mpr hpos⟩
    cases group with
    | true =>
      obtain ⟨p, hp, hstatus, rfl⟩ := hrecord
      simp only [LedgerDeps.Holds, defaultDeps, if_true, ofExcept_eq_resolved, loadPool, hhex, found_eq_some,
        PoolState.mk.injEq]
      exact ⟨p, hp, rfl, hstatus⟩
    | false =>
      obtain ⟨d, hd, hclaimed, rfl⟩ := hrecord
      simp only [LedgerDeps.Holds, defaultDeps, if_true, Bool.false_eq_true, if_false, ofExcept_eq_resolved, loadDrop,
        hhex, found_eq_some, DropState.mk.injEq]
      exact ⟨d, hd, rfl, hclaimed⟩

/-! ## What a name needs -/

variable {query title image usd : List Char}

theorem v2ClaimMetadata_rich : v2ClaimMetadata deps linkHex query = .rich title image ↔
    (readClaimQuery query).rich = true ∧ ∃ amount, readLiveAmount linkHex (readClaimQuery query).slots.isSome
        (readClaimQuery query).mainnet deps = some amount ∧
      title = (readClaimQuery query).queryName.getD noName ++ " sent you ".toList ++ formatUsd amount ∧
      image = richImageUrl linkHex ((readClaimQuery query).queryName.getD noName) (readClaimQuery query).slots
        (readClaimQuery query).mainnet := by
  rw [v2ClaimMetadata]
  cases (readClaimQuery query).rich with
  | false => simp
  | true =>
    cases readLiveAmount linkHex (readClaimQuery query).slots.isSome (readClaimQuery query).mainnet deps with
    | none => simp
    | some amount => simp [eq_comm]

theorem ogDecision_rich {l : List Char} : ogDecision query = .rich l name slots mainnet ↔
    (readClaimQuery query).rich = true ∧ name = (readClaimQuery query).queryName.getD noName ∧
      slots = (readClaimQuery query).slots ∧ mainnet = (readClaimQuery query).mainnet ∧
      ∃ raw, UrlEncoded.get (parse query) "l".toList = some raw ∧ isLinkHex raw = true ∧ l = raw.map Char.toLower := by
  rw [ogDecision]
  cases UrlEncoded.get (parse query) "l".toList with
  | none => simp
  | some raw =>
    cases hrich : (readClaimQuery query).rich with
    | false => simp
    | true =>
      cases hhex : isLinkHex raw with
      | false => simp [hhex]
      | true =>
        constructor
        · intro h
          dsimp only at h
          rw [hhex] at h
          cases h
          exact ⟨rfl, rfl, rfl, rfl, raw, rfl, hhex, rfl⟩
        · rintro ⟨-, rfl, rfl, rfl, raw', heq, -, rfl⟩
          obtain rfl := Option.some.inj heq
          dsimp only
          rw [hhex]
          rfl

theorem ogCard_rich : ogCard query deps = .rich name usd group ↔ ∃ l slots mainnet,
    ogDecision query = .rich l name slots mainnet ∧ group = slots.isSome ∧
      ∃ amount, readLiveAmount l slots.isSome mainnet deps = some amount ∧ usd = formatUsd amount := by
  constructor
  · intro h
    cases hdecision : ogDecision query with
    | static =>
      rw [ogCard, hdecision] at h
      cases h
    | rich l name' slots mainnet =>
      cases hlive : readLiveAmount l slots.isSome mainnet deps with
      | none =>
        simp only [ogCard, hdecision, hlive] at h
        cases h
      | some amount =>
        simp only [ogCard, hdecision, hlive] at h
        cases h
        exact ⟨l, slots, mainnet, rfl, rfl, amount, hlive, rfl⟩
  · rintro ⟨l, slots, mainnet, hdecision, rfl, amount, hlive, rfl⟩
    simp only [ogCard, hdecision, hlive]

/-- The network that a query names has an escrow that still pays so much for the link. -/
def Vouched (views : Views) (nowSec : ℕ) (resolveNetwork : Bool → Option NetworkConfig) (linkHex query : List Char)
    (stroops : ℤ) : Prop :=
  isLinkHex linkHex = true ∧ ∃ net, resolveNetwork (readClaimQuery query).mainnet = some net ∧
    Pays views nowSec net linkHex (readClaimQuery query).slots.isSome stroops

/-- **The ledger gates the name.** Whatever the address says, the page's metadata and the image show a name and an
amount only where the query asks for it and an escrow still pays for the link; the name is the query's, and the
amount is what the escrow pays, where it is whole cents to the cent. -/
theorem ledger_gates_name :
    (v2ClaimMetadata (defaultDeps views nowSec resolveNetwork) linkHex query = .rich title image ↔
      (readClaimQuery query).rich = true ∧ ∃ stroops, Vouched views nowSec resolveNetwork linkHex query stroops ∧
        title = (readClaimQuery query).queryName.getD noName ++ " sent you ".toList ++
          formatUsd (stroopsToUsdc stroops) ∧
        image = richImageUrl linkHex ((readClaimQuery query).queryName.getD noName) (readClaimQuery query).slots
          (readClaimQuery query).mainnet) ∧
    (ogCard query (defaultDeps views nowSec resolveNetwork) = .rich name usd group ↔
      (readClaimQuery query).rich = true ∧ name = (readClaimQuery query).queryName.getD noName ∧
        group = (readClaimQuery query).slots.isSome ∧ ∃ raw stroops,
          UrlEncoded.get (parse query) "l".toList = some raw ∧ isLinkHex raw = true ∧
          Vouched views nowSec resolveNetwork (raw.map Char.toLower) query stroops ∧
          usd = formatUsd (stroopsToUsdc stroops)) ∧
    ∀ cents : ℕ, 0 < cents → cents * 10 ^ 5 < 2 ^ 63 → formatUsd (stroopsToUsdc (cents * 10 ^ 5 : ℕ)) =
      '$' :: (grouped ((numeral 10 (cents / 100)).map digitChar) ++ '.' :: (fixedDigits 10 2 cents).map digitChar) := by
  refine ⟨?_, ?_, fun cents hpos hlt => formatUsd_cents hpos hlt⟩
  · rw [v2ClaimMetadata_rich, and_congr_right_iff]
    intro hrich
    constructor
    · intro h
      obtain ⟨amount, hlive, rfl, rfl⟩ := h
      obtain ⟨hhex, net, stroops, hnet, hpays, rfl⟩ := readLiveAmount_default.mp hlive
      exact ⟨stroops, ⟨hhex, net, hnet, hpays⟩, rfl, rfl⟩
    · intro h
      obtain ⟨stroops, ⟨hhex, net, hnet, hpays⟩, rfl, rfl⟩ := h
      exact ⟨_, readLiveAmount_default.mpr ⟨hhex, net, stroops, hnet, hpays, rfl⟩, rfl, rfl⟩
  · rw [ogCard_rich]
    constructor
    · intro h
      obtain ⟨l, slots, mainnet, hdecision, rfl, amount, hlive, rfl⟩ := h
      obtain ⟨hrich, rfl, rfl, rfl, raw, hraw, hhex, rfl⟩ := ogDecision_rich.mp hdecision
      obtain ⟨hlower, net, stroops, hnet, hpays, rfl⟩ := readLiveAmount_default.mp hlive
      exact ⟨hrich, rfl, rfl, raw, stroops, hraw, hhex, ⟨hlower, net, hnet, hpays⟩, rfl⟩
    · intro h
      obtain ⟨hrich, rfl, rfl, raw, stroops, hraw, hhex, ⟨hlower, net, hnet, hpays⟩, rfl⟩ := h
      exact ⟨_, _, _, ogDecision_rich.mpr ⟨hrich, rfl, rfl, rfl, raw, hraw, hhex, rfl⟩, rfl, _,
        readLiveAmount_default.mpr ⟨hlower, net, stroops, hnet, hpays, rfl⟩, rfl⟩

/-- The address of the card of a pot of six. -/
def cardUrl : List Char := richImageUrl (List.replicate 64 'a') "Mia".toList (some 6) true

theorem ledger_gates_name_demo :
    ogCard (search cardUrl) demoDeps = .rich "Mia".toList "$5.00".toList true := by
  have hquery : readClaimQuery (search cardUrl) = ⟨true, some 6, false, true, false, some "Mia".toList, false⟩ := by
    decide +kernel
  have hlink : UrlEncoded.get (parse (search cardUrl)) "l".toList = some (List.replicate 64 'a') := by decide +kernel
  have husd : formatUsd (stroopsToUsdc 50000000) = "$5.00".toList := by decide +kernel
  have hvouched : Vouched demoViews 0 (fun _ => some { contract := "CDROP", legacyContracts := [] })
      ((List.replicate 64 'a').map Char.toLower) (search cardUrl) 50000000 := by
    rw [Vouched, hquery]
    exact ⟨by decide, _, rfl, by decide, _, rfl, by decide, rfl⟩
  rw [← husd]
  refine (@ledger_gates_name _ [] _ _ _ _ _ [] [] _).2.1.mpr ⟨?_, ?_, ?_, _, _, hlink, by decide, hvouched, rfl⟩
  all_goals rw [hquery]
  all_goals rfl

/-! ## Names that are shown again -/

def unitsOf (cs : List Char) : ℕ := (cs.map utf16Units).sum

theorem takeUnits_prefix {n : ℕ} : takeUnits n cs <+: cs := by
  induction cs generalizing n with
  | nil => exact List.prefix_refl _
  | cons c cs ih =>
    rw [takeUnits]
    split
    · exact List.cons_prefix_cons.mpr ⟨rfl, ih⟩
    · exact List.nil_prefix

theorem unitsOf_takeUnits {n : ℕ} : unitsOf (takeUnits n cs) ≤ n := by
  induction cs generalizing n with
  | nil => exact Nat.zero_le _
  | cons c cs ih =>
    rw [takeUnits]
    split
    · have hrest := @ih (n - utf16Units c)
      simp only [unitsOf, List.map_cons, List.sum_cons] at hrest ⊢
      omega
    · exact Nat.zero_le _

theorem takeUnits_of_le {n : ℕ} (h : unitsOf cs ≤ n) : takeUnits n cs = cs := by
  induction cs generalizing n with
  | nil => rfl
  | cons c cs ih =>
    simp only [unitsOf, List.map_cons, List.sum_cons] at h ih
    rw [takeUnits, if_pos (by omega), ih (by omega)]

theorem unitsOf_sublist {ds : List Char} (h : ds.Sublist cs) : unitsOf ds ≤ unitsOf cs := by
  induction h with
  | slnil => exact le_rfl
  | cons c _ ih =>
    simp only [unitsOf, List.map_cons, List.sum_cons] at ih ⊢
    omega
  | cons_cons c _ ih =>
    simp only [unitsOf, List.map_cons, List.sum_cons] at ih ⊢
    omega

theorem trimText_sublist : (trimText cs).Sublist cs :=
  (List.rdropWhile_prefix isSpace (cs.dropWhile isSpace)).sublist.trans (List.dropWhile_sublist isSpace)

theorem shownName_eq_some {shown : List Char} (h : shownName name = some shown) :
    shown = takeUnits nameMax (trimText (name.filter (!isUnsafe ·))) ∧ shown ≠ [] := by
  simp only [shownName] at h
  split at h
  · cases h
  · rename_i hne
    exact ⟨(Option.some.inj h).symm, Option.some.inj h ▸ hne⟩

theorem isSpace_head {shown : List Char} (hne : shown ≠ []) (hhead : shown <+: trimText cs) :
    ∃ c rest, shown = c :: rest ∧ isSpace c = false := by
  obtain ⟨c, rest, rfl⟩ := List.exists_cons_of_ne_nil hne
  obtain ⟨more, hmore⟩ := hhead.trans (List.rdropWhile_prefix isSpace (cs.dropWhile isSpace))
  have hnot := List.head?_dropWhile_not isSpace cs
  rw [← hmore] at hnot
  exact ⟨c, rest, rfl, hnot⟩

theorem trimText_ne_nil (h : ∃ c rest, cs = c :: rest ∧ isSpace c = false) : trimText cs ≠ [] := by
  obtain ⟨c, rest, rfl, hc⟩ := h
  rw [trimText, List.dropWhile_cons_of_neg (by simp [hc]), ne_eq, List.rdropWhile_eq_nil_iff]
  exact fun hall => absurd (hall c List.mem_cons_self) (by simp [hc])

/-- A shown name is shown again as it is, less the blanks that the cut left at its end. -/
theorem shownName_shown {shown : List Char} (h : shownName name = some shown) :
    shownName shown = some (trimText shown) := by
  obtain ⟨hshown, hne⟩ := shownName_eq_some h
  have hhead : shown <+: trimText (name.filter (!isUnsafe ·)) := hshown ▸ takeUnits_prefix
  have hsafe : shown.filter (!isUnsafe ·) = shown := by
    apply List.filter_eq_self.mpr
    intro c hc
    exact (List.mem_filter.mp (trimText_sublist.subset (hhead.subset hc))).2
  have htrim : trimText shown ≠ [] := trimText_ne_nil (isSpace_head hne hhead)
  have hunits : unitsOf (trimText shown) ≤ nameMax :=
    (unitsOf_sublist trimText_sublist).trans (hshown ▸ unitsOf_takeUnits)
  simp only [shownName, hsafe, takeUnits_of_le hunits, if_neg htrim]

/-- The fields of the card's address. -/
def imageFields (linkHex name : List Char) (slots : Option ℕ) (mainnet : Bool) : List (List Char × List Char) :=
  field "preview" (some "rich".toList) ++ field "l" (some linkHex) ++ field "s" (some name) ++
    field "g" (slotsText slots) ++ field "n" (mark mainnet "public")

theorem names_imageFields {linkHex : List Char} {mainnet : Bool} :
    ∀ f ∈ imageFields linkHex name slots mainnet, isFieldName f.1 = true := by
  simp only [imageFields, List.forall_mem_append]
  refine ⟨⟨⟨⟨?_, ?_⟩, ?_⟩, ?_⟩, ?_⟩
  all_goals exact isFieldName_field (by decide)

theorem richImageUrl_eq {linkHex : List Char} {mainnet : Bool} : richImageUrl linkHex name slots mainnet =
    "/c/x/og".toList ++ '?' :: ['&'].intercalate ((imageFields linkHex name slots mainnet).map writeField) := by
  have hfirst : (field "preview" (some "rich".toList) ++ field "l" (some linkHex) ++ field "s" (some name)).map
      writeField = ["preview=rich".toList, "l=".toList ++ encodeURIComponent linkHex,
        "s=".toList ++ encodeURIComponent name] := by
    have hrich : writeField ("preview".toList, "rich".toList) = "preview=rich".toList := by decide
    exact congrArg (· :: _) hrich
  have hhead (query : List Char) : "/c/x/og?".toList ++ query = "/c/x/og".toList ++ '?' :: query := rfl
  rw [imageFields, List.map_append, List.map_append, hfirst, map_slots, map_mark (by decide)]
  exact hhead _

theorem search_richImageUrl {linkHex : List Char} {mainnet : Bool} : search (richImageUrl linkHex name slots mainnet) =
    searchOf (['&'].intercalate ((imageFields linkHex name slots mainnet).map writeField)) := by
  have hhash : '#' ∉ richImageUrl linkHex name slots mainnet := by
    rw [richImageUrl_eq, List.mem_append, List.mem_cons]
    have hquery := notMem_fields (@names_imageFields name slots linkHex mainnet) (.inl rfl)
    have hpath : '#' ∉ "/c/x/og".toList := by decide
    tauto
  have hpath : '?' ∉ "/c/x/og".toList := by decide
  rw [search, address, splitFirst_of_notMem hhash, richImageUrl_eq, splitFirst_append hpath]

/-- The card is drawn for what its address was built from. -/
theorem ogDecision_richImageUrl {linkHex : List Char} {mainnet : Bool} (hhex : isLinkHex linkHex = true)
    (hslots : SlotsFit slots) : ogDecision (search (richImageUrl linkHex name slots mainnet)) =
      .rich (linkHex.map Char.toLower) ((shownName name).getD noName) slots mainnet := by
  have hget (m : String) := @queryReader_fields _ (@names_imageFields name slots linkHex mainnet) m
  have hvalue {m : String} : UrlEncoded.get (imageFields linkHex name slots mainnet) m.toList =
      ((((if "preview" = m then some "rich".toList else none).or (if "l" = m then some linkHex else none)).or
        (if "s" = m then some name else none)).or (if "g" = m then slotsText slots else none)).or
        (if "n" = m then mark mainnet "public" else none) := by
    simp only [imageFields, get_append, get_field]
  have hread : readClaimQuery (searchOf (['&'].intercalate ((imageFields linkHex name slots mainnet).map writeField))) =
      ⟨mainnet, slots, false, true, false, shownName name, false⟩ := by
    simp only [readClaimQuery, readQuery, hget, hvalue, String.reduceEq, if_true, if_false, Option.none_or,
      Option.or_none, mark_eq, parseSlots_slotsText hslots, nameFromDecoded_some, decide_true, Bool.true_or]
    rfl
  rw [search_richImageUrl, ogDecision, parse_searchOf names_imageFields, hread, hvalue]
  simp only [String.reduceEq, if_true, if_false, Option.none_or, Option.or_none, hhex, Bool.true_and]

/-- The name a card is drawn with. -/
def drawnName (name : List Char) : List Char := (shownName name).getD noName

theorem shownName_drawnName : (shownName (drawnName name)).getD noName = trimText (drawnName name) := by
  rw [drawnName]
  cases hshown : shownName name with
  | none => decide
  | some shown => rw [Option.getD_some, shownName_shown hshown, Option.getD_some]

/-! ## What a rich link shows -/

/-- A rich link is drawn with the amount that the ledger has, and not at all without one; and the card that its
preview points to is the card of that link, of that name and that count, on that network. -/
theorem rich_preview (hplain : p.PlainPath) (hslots : SlotsFit p.slots) (hrich : p.rich = true)
    (hurl : v2LinkUrl p = some url) :
    (readLiveAmount p.linkHex p.slots.isSome p.mainnet deps = none →
        v2ClaimMetadata deps p.linkHex (search url) = .privateCard) ∧
      ∀ amount, readLiveAmount p.linkHex p.slots.isSome p.mainnet deps = some amount → ∃ image,
        v2ClaimMetadata deps p.linkHex (search url) =
          .rich (drawnName p.from' ++ " sent you ".toList ++ formatUsd amount) image ∧
        ogDecision (search image) =
          .rich (p.linkHex.map Char.toLower) (trimText (drawnName p.from')) p.slots p.mainnet := by
  obtain ⟨hsrc, hkey⟩ := isFragmentKey_of_built hurl
  rw [v2LinkUrl_rich hrich hsrc hkey, Option.some_inj] at hurl
  obtain ⟨-, hsearch, -, -⟩ := openLink_parts (fun c h => notMem_path hplain h)
    (notMem_fields names_richFields (.inl rfl)) hurl.symm
  have hmetadata : v2ClaimMetadata deps p.linkHex (search url) =
      (readLiveAmount p.linkHex p.slots.isSome p.mainnet deps).elim .privateCard fun amount =>
        .rich (drawnName p.from' ++ " sent you ".toList ++ formatUsd amount)
          (richImageUrl p.linkHex (drawnName p.from') p.slots p.mainnet) := by
    rw [hsearch, v2ClaimMetadata, readClaimQuery_rich hslots]
    cases hlive : readLiveAmount p.linkHex p.slots.isSome p.mainnet deps with
    | none => simp only [if_true, Option.elim_none]
    | some amount => simp only [if_true, Option.elim_some, drawnName]
  refine ⟨fun hnone => ?_, fun amount hsome => ?_⟩
  · rw [hmetadata, hnone, Option.elim_none]
  · refine ⟨_, by rw [hmetadata, hsome, Option.elim_some], ?_⟩
    rw [ogDecision_richImageUrl hplain.2.2 hslots, shownName_drawnName]

def richParts : V2LinkParts := { demoParts with rich := true }

def richUrl : List Char := (v2LinkUrl richParts).getD []

theorem richParts_plain : richParts.PlainPath := ⟨by decide, by decide, by decide⟩

theorem richUrl_eq : v2LinkUrl richParts = some richUrl :=
  built_eq richParts_plain demoParts_slots (by decide) demoParts_key

theorem rich_preview_demo : ∃ image, v2ClaimMetadata demoDeps richParts.linkHex (search richUrl) =
      .rich (drawnName richParts.from' ++ " sent you ".toList ++ "$5.00".toList) image ∧
    ogDecision (search image) =
      .rich (richParts.linkHex.map Char.toLower) (trimText (drawnName richParts.from')) richParts.slots
        richParts.mainnet := by
  have hlive : readLiveAmount richParts.linkHex richParts.slots.isSome richParts.mainnet demoDeps =
      some "5.0000000" := by decide +kernel
  have husd : formatUsd "5.0000000" = "$5.00".toList := by decide +kernel
  rw [← husd]
  exact (rich_preview (p := richParts) demoParts_plain demoParts_slots rfl richUrl_eq).2 _ hlive

end Lumenia.Web.ClaimLink
