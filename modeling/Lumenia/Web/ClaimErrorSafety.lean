import Lumenia.Web.ClaimError

/-!
# What a claim error shows

`detail` is one of our own labels, the beginning of the redacted text, or a sentence of it with its JSON
escapes undone. The redaction asks for a word boundary at a key, so a key that touches a word character
stays, and the escapes are undone after it.
-/

namespace Lumenia.Web.ClaimError

/-- `S` and 55 base32 characters. -/
def IsKey (w : Text) : Prop := ∃ body : Text, w = 83 :: body ∧ body.length = 55 ∧ ∀ c ∈ body, isBase32 c = true

/-- `p1.` and some of a seed. -/
def IsSeed (w : Text) : Prop :=
  ∃ run : Text, w = units "p1." ++ run ∧ 8 ≤ run.length ∧ ∀ c ∈ run, isSeedUnit c = true

def Secret (w : Text) : Prop := IsKey w ∨ IsSeed w

/-- A bearer key can be read in the text. -/
def Shows (s : Text) : Prop := ∃ w, Secret w ∧ w <:+: s

/-- A key with a letter, a digit or an underscore right before or after it. -/
def TouchedKey (s : Text) : Prop :=
  ∃ w c, IsKey w ∧ isWord c = true ∧ (c :: w <:+: s ∨ w ++ [c] <:+: s)

/-- A seed with a letter, a digit or an underscore right before its `p1.` -/
def TouchedSeed (s : Text) : Prop := ∃ w c, IsSeed w ∧ isWord c = true ∧ c :: w <:+: s

/-- A key with backslashes in it, which undoing the escapes takes out. -/
def Assembled (s : Text) : Prop := ∃ c rest, c :: rest <:+: s ∧ 92 ∈ rest ∧ Secret (c :: unescape rest)

variable {s t w body run blob : Text} {c : ℕ} {before : Option ℕ}

/-! ## The units of a key -/

theorem isWord_of_isBase32 (h : isBase32 c = true) : isWord c = true := by
  simp only [isBase32, isWord, isDigit, Bool.or_eq_true, Bool.and_eq_true, decide_eq_true_eq, beq_iff_eq] at *
  omega

theorem IsKey.word (h : IsKey w) : ∀ c ∈ w, isWord c = true := by
  obtain ⟨body, rfl, -, hbody⟩ := h
  intro c hc
  rcases List.mem_cons.mp hc with rfl | hc
  · rfl
  · exact isWord_of_isBase32 (hbody c hc)

theorem IsKey.length (h : IsKey w) : w.length = 56 := by
  obtain ⟨body, rfl, hlen, -⟩ := h
  rw [List.length_cons, hlen]

theorem Secret.plain (h : Secret w) : ∀ c ∈ w, isSeedUnit c = true ∨ c = 46 := by
  intro c hc
  rcases h with hkey | ⟨run, rfl, -, hrun⟩
  · exact .inl (by rw [isSeedUnit, hkey.word c hc, Bool.true_or])
  · rcases List.mem_append.mp hc with hc | hc
    · have hpre : ∀ c ∈ units "p1.", isSeedUnit c = true ∨ c = 46 := by decide
      exact hpre c hc
    · exact .inl (hrun c hc)

theorem Secret.not_mem (h : Secret w) (hc : isSeedUnit c = false) (hdot : c ≠ 46) : c ∉ w := by
  intro hmem
  rcases h.plain c hmem with hunit | heq
  · rw [hc] at hunit
    exact Bool.noConfusion hunit
  · exact hdot heq

theorem Secret.marked (h : Secret w) : 83 ∈ w ∨ 46 ∈ w := by
  rcases h with ⟨body, rfl, -⟩ | ⟨run, rfl, -⟩
  · exact .inl List.mem_cons_self
  · exact .inr (List.mem_append_left run (by decide))

theorem Secret.ne_nil (h : Secret w) : w ≠ [] := by
  rintro rfl
  rcases h.marked with hmem | hmem <;> cases hmem

theorem Shows.mono (h : Shows s) (hst : s <:+: t) : Shows t := by
  obtain ⟨w, hw, hwithin⟩ := h
  exact ⟨w, hw, hwithin.trans hst⟩

theorem not_shows_of_label (hS : 83 ∉ s) (hdot : 46 ∉ s) : ¬ Shows s := by
  intro h
  obtain ⟨w, hw, hwithin⟩ := h
  rcases hw.marked with hmem | hmem
  · exact hS (hwithin.subset hmem)
  · exact hdot (hwithin.subset hmem)

/-! ## The two rules -/

theorem keyAt_iff : keyAt s = true ↔ ∃ w b, IsKey w ∧ s = w ++ b := by
  constructor
  · intro h
    cases s with
    | nil => exact Bool.noConfusion h
    | cons x xs =>
      simp only [keyAt, List.head?_cons, List.tail_cons, Bool.and_eq_true, beq_iff_eq, Option.some.injEq,
        List.all_eq_true] at h
      obtain ⟨⟨rfl, hlen⟩, hall⟩ := h
      exact ⟨83 :: xs.take 55, xs.drop 55, ⟨_, rfl, hlen, hall⟩, by rw [List.cons_append, List.take_append_drop]⟩
  · rintro ⟨_, b, ⟨body, rfl, hlen, hall⟩, rfl⟩
    have htake : (body ++ b).take 55 = body := by rw [← hlen, List.take_left]
    simp only [keyAt, List.cons_append, List.head?_cons, List.tail_cons, htake, hlen, Bool.and_eq_true, beq_self_eq_true,
      List.all_eq_true, true_and]
    exact hall

theorem keyRule_eq_some {found : ℕ × Text} :
    keyRule before s = some found ↔
      before.any isWord = false ∧ keyAt s = true ∧ (s.drop 56).head?.any isWord = false ∧ (55, units "S…") = found := by
  rw [keyRule]
  simp only [Option.ite_none_right_eq_some, Option.some.injEq, Bool.and_eq_true, Bool.not_eq_true', and_assoc]

theorem seedRule_eq_some {found : ℕ × Text} :
    seedRule before s = some found ↔
      before.any isWord = false ∧ units "p1." <+: s ∧ 8 ≤ ((s.drop 3).takeWhile isSeedUnit).length ∧
        (2 + ((s.drop 3).takeWhile isSeedUnit).length, units "p1.…") = found := by
  rw [seedRule]
  simp only [Option.ite_none_right_eq_some, Option.some.injEq, Bool.and_eq_true, Bool.not_eq_true', and_assoc,
    List.isPrefixOf_iff_prefix, decide_eq_true_eq]

theorem marks_keyRule : Marks 8230 keyRule := by
  intro before s more new h
  obtain ⟨-, hkey, -, heq⟩ := keyRule_eq_some.mp h
  obtain ⟨w, b, ⟨body, rfl, -⟩, rfl⟩ := keyAt_iff.mp hkey
  exact ⟨[83], (Prod.mk.inj heq).2.symm, _, rfl⟩

theorem marks_seedRule : Marks 8230 seedRule := by
  intro before s more new h
  obtain ⟨-, hstart, -, heq⟩ := seedRule_eq_some.mp h
  exact ⟨units "p1.", (Prod.mk.inj heq).2.symm, hstart⟩

/-- The unit before a place, behind some text. -/
theorem touch_of_beforeOf {a : Text} (h : (beforeOf none a).any isWord = true) :
    ∃ c, isWord c = true ∧ ∀ w, c :: w <:+: a ++ w := by
  rw [beforeOf, Option.or_none] at h
  cases hlast : a.getLast? with
  | none =>
    rw [hlast] at h
    cases h
  | some c =>
    rw [hlast] at h
    obtain ⟨a, rfl⟩ := List.getLast?_eq_some_iff.mp hlast
    exact ⟨c, h, fun w => ⟨a, [], by simp⟩⟩

/-- **A key that the redaction leaves touches a word character.** -/
theorem touched_of_redactKeys (hw : IsKey w) (h : w <:+: redactKeys s) : TouchedKey s := by
  have hmark : 8230 ∉ w := Secret.not_mem (.inl hw) rfl (by decide)
  rcases unmatched_of_infix marks_keyRule h hmark (Secret.ne_nil (.inl hw)) with
    ⟨a, b, rfl, hnone⟩ | ⟨_, _, _, kept, hmatch, -, hkept⟩
  · cases hbefore : (beforeOf none a).any isWord with
    | true =>
      obtain ⟨c, hc, hwithin⟩ := touch_of_beforeOf hbefore
      refine ⟨w, c, hw, hc, .inl ((hwithin w).trans ?_)⟩
      exact ⟨[], b, by simp⟩
    | false =>
      cases b with
      | nil =>
        rw [keyRule_eq_some.mpr ⟨hbefore, keyAt_iff.mpr ⟨w, [], hw, rfl⟩, by simp [hw.length], rfl⟩] at hnone
        cases hnone
      | cons c b =>
        cases hc : isWord c with
        | true => exact ⟨w, c, hw, hc, .inr ⟨a, b, by simp⟩⟩
        | false =>
          have hdrop : (w ++ c :: b).drop 56 = c :: b := by rw [← hw.length, List.drop_left]
          rw [keyRule_eq_some.mpr ⟨hbefore, keyAt_iff.mpr ⟨w, c :: b, hw, rfl⟩, by simp [hdrop, hc], rfl⟩] at hnone
          cases hnone
  · obtain ⟨-, -, -, heq⟩ := keyRule_eq_some.mp hmatch
    have hlen := congrArg List.length (Prod.mk.inj heq).2
    have hle := hkept.length_le
    rw [List.length_append] at hlen
    rw [hw.length] at hle
    have htwo : (units "S…").length = 2 := by decide
    rw [htwo] at hlen
    simp only [List.length_singleton] at hlen
    omega

theorem touched_of_redactSeeds (hw : IsSeed w) (h : w <:+: redactSeeds s) :
    ∃ c, isWord c = true ∧ c :: w <:+: s := by
  have hmark : 8230 ∉ w := Secret.not_mem (.inr hw) rfl (by decide)
  have hne : w ≠ [] := Secret.ne_nil (.inr hw)
  obtain ⟨run, rfl, hlong, hrun⟩ := hw
  rcases unmatched_of_infix marks_seedRule h hmark hne with
    ⟨a, b, rfl, hnone⟩ | ⟨_, _, _, kept, hmatch, -, hkept⟩
  · cases hbefore : (beforeOf none a).any isWord with
    | true =>
      obtain ⟨c, hc, hwithin⟩ := touch_of_beforeOf hbefore
      refine ⟨c, hc, (hwithin _).trans ?_⟩
      exact ⟨[], b, by simp⟩
    | false =>
      have hdrop : (units "p1." ++ run ++ b).drop 3 = run ++ b := rfl
      have hlen : 8 ≤ (((units "p1." ++ run ++ b).drop 3).takeWhile isSeedUnit).length := by
        rw [hdrop, List.takeWhile_append_of_pos hrun, List.length_append]
        omega
      rw [seedRule_eq_some.mpr ⟨hbefore, ⟨run ++ b, by simp⟩, hlen, rfl⟩] at hnone
      cases hnone
  · obtain ⟨-, -, -, heq⟩ := seedRule_eq_some.mp hmatch
    have hlen := congrArg List.length (Prod.mk.inj heq).2
    have hle := hkept.length_le
    have hfour : (units "p1.…").length = 4 := by decide
    rw [List.length_append] at hlen hle
    rw [hfour] at hlen
    simp only [List.length_singleton] at hlen
    omega

theorem touched_of_redact (h : Shows (redact s)) : TouchedKey s ∨ TouchedSeed s := by
  obtain ⟨w, hw, hwithin⟩ := h
  have hmark : 8230 ∉ w := hw.not_mem rfl (by decide)
  rcases hw with hkey | hseed
  · exact .inl (touched_of_redactKeys hkey (infix_of_replaceAll marks_seedRule hwithin hmark))
  · obtain ⟨c, hc, htouch⟩ := touched_of_redactSeeds hseed hwithin
    have hnot : 8230 ∉ c :: w := by
      intro hmem
      rcases List.mem_cons.mp hmem with rfl | hmem
      · exact absurd hc (by decide)
      · exact hmark hmem
    exact .inr ⟨w, c, hseed, hc, infix_of_replaceAll marks_keyRule htouch hnot⟩

/-! ## What the redaction leaves of keys, exactly -/

/-- A place behind a word character is in no match, nor are the places after it in one word. -/
theorem prefix_redactKeys {b : Text} (hw : ∀ c ∈ w, isWord c = true) (hnone : keyRule before (w ++ b) = none) :
    w <+: replaceAll keyRule before 0 (w ++ b) := by
  induction w generalizing before with
  | nil => exact List.nil_prefix
  | cons x w ih =>
    obtain ⟨hx, hw⟩ := List.forall_mem_cons.mp hw
    rw [List.cons_append] at hnone ⊢
    rw [replaceAll_none hnone, List.cons_prefix_cons]
    refine ⟨rfl, ih hw ?_⟩
    rw [keyRule, Option.any_some, hx]
    rfl

/-- A match ends before a key that touches a word character: it ends where a word does. -/
theorem le_of_match {a b : Text} {x : ℕ} {found : ℕ × Text} (hw : IsKey w)
    (hmatch : keyRule before (x :: (a ++ (w ++ b))) = some found) : 55 ≤ a.length := by
  obtain ⟨-, -, hnext, -⟩ := keyRule_eq_some.mp hmatch
  by_contra hlt
  have hdrop : (x :: (a ++ (w ++ b))).drop 56 = w.drop (55 - a.length) ++ b := by
    rw [List.drop_succ_cons, List.drop_append, List.drop_eq_nil_of_le (by omega), List.nil_append,
      List.drop_append_of_le_length (by rw [hw.length]; omega)]
  cases hrest : w.drop (55 - a.length) with
  | nil =>
    have hlen := List.drop_eq_nil_iff.mp hrest
    rw [hw.length] at hlen
    omega
  | cons c rest =>
    have hmem : c ∈ w := List.mem_of_mem_drop (hrest ▸ List.mem_cons_self)
    rw [hdrop, hrest, List.cons_append, List.head?_cons, Option.any_some, hw.word c hmem] at hnext
    cases hnext

theorem infix_redactKeys {a b : Text} {skip : ℕ} (hw : IsKey w)
    (htouch : (beforeOf before a).any isWord = true ∨ b.head?.any isWord = true) (hskip : skip ≤ a.length) :
    w <:+: replaceAll keyRule before skip (a ++ (w ++ b)) := by
  induction a generalizing before skip with
  | nil =>
    obtain rfl := Nat.le_zero.mp hskip
    refine (prefix_redactKeys hw.word (Option.eq_none_iff_forall_ne_some.mpr fun found hfound => ?_)).isInfix
    obtain ⟨hbefore, -, hnext, -⟩ := keyRule_eq_some.mp hfound
    rw [← hw.length, List.drop_left] at hnext
    rw [beforeOf_nil, hbefore, hnext] at htouch
    rcases htouch with h | h <;> cases h
  | cons x a ih =>
    rw [beforeOf_cons] at htouch
    cases skip with
    | succ skip => exact ih htouch (Nat.le_of_succ_le_succ hskip)
    | zero =>
      cases hmatch : keyRule before (x :: (a ++ (w ++ b))) with
      | some found =>
        have hle := le_of_match hw hmatch
        obtain ⟨-, -, -, rfl⟩ := keyRule_eq_some.mp hmatch
        rw [List.cons_append, replaceAll_match hmatch]
        exact (ih htouch hle).trans (List.suffix_append _ _).isInfix
      | none =>
        rw [List.cons_append, replaceAll_none hmatch]
        exact (ih htouch (Nat.zero_le _)).trans (List.suffix_cons _ _).isInfix

/-- **The redaction leaves a key exactly where one touches a word character.** -/
theorem key_in_redactKeys_iff : (∃ w, IsKey w ∧ w <:+: redactKeys s) ↔ TouchedKey s := by
  constructor
  · intro h
    obtain ⟨w, hw, hwithin⟩ := h
    exact touched_of_redactKeys hw hwithin
  · intro h
    obtain ⟨w, c, hw, hc, ⟨a, b, rfl⟩ | ⟨a, b, rfl⟩⟩ := h
    · refine ⟨w, hw, ?_⟩
      have htouch : (beforeOf none (a ++ [c])).any isWord = true := by simpa [beforeOf] using hc
      have hwithin : w <:+: replaceAll keyRule none 0 (a ++ [c] ++ (w ++ b)) :=
        infix_redactKeys hw (.inl htouch) (Nat.zero_le _)
      simpa [redactKeys] using hwithin
    · refine ⟨w, hw, ?_⟩
      have hwithin : w <:+: replaceAll keyRule none 0 (a ++ (w ++ c :: b)) :=
        infix_redactKeys hw (.inr hc) (Nat.zero_le _)
      simpa [redactKeys] using hwithin

/-! ## Undoing the escapes -/

theorem prefix_of_unescape (h : w <+: unescape s) : ∃ t, t <+: s ∧ unescape t = w := by
  induction s using unescape.induct generalizing w with
  | case1 => exact ⟨w, h, by rw [List.prefix_nil.mp h]; rfl⟩
  | case2 c =>
    refine ⟨w, h, ?_⟩
    rcases List.prefix_cons_iff.mp h with rfl | ⟨t, rfl, ht⟩
    · rfl
    · rw [List.prefix_nil.mp ht]
      rfl
  | case3 c d rest hescape ih =>
    rw [unescape, if_pos hescape] at h
    rcases List.prefix_cons_iff.mp h with rfl | ⟨t, rfl, ht⟩
    · exact ⟨[], List.nil_prefix, rfl⟩
    · obtain ⟨u, hu, rfl⟩ := ih ht
      refine ⟨c :: d :: u, ?_, by rw [unescape, if_pos hescape]⟩
      exact List.cons_prefix_cons.mpr ⟨rfl, List.cons_prefix_cons.mpr ⟨rfl, hu⟩⟩
  | case4 c d rest hplain ih =>
    rw [unescape, if_neg hplain] at h
    rcases List.prefix_cons_iff.mp h with rfl | ⟨t, rfl, ht⟩
    · exact ⟨[], List.nil_prefix, rfl⟩
    · obtain ⟨u, hu, rfl⟩ := ih ht
      refine ⟨c :: u, List.cons_prefix_cons.mpr ⟨rfl, hu⟩, ?_⟩
      rcases List.prefix_cons_iff.mp hu with rfl | ⟨u, rfl, -⟩
      · rfl
      · rw [unescape, if_neg hplain]

/-- What can be read once the escapes are undone was there with escapes in it. -/
theorem infix_of_unescape (h : c :: w <:+: unescape s) :
    ∃ t, c :: t <:+: s ∧ unescape t = w := by
  induction s using unescape.induct with
  | case1 => cases List.infix_nil.mp h
  | case2 d =>
    rcases List.infix_cons_iff.mp h with h | h
    · obtain ⟨rfl, hw⟩ := List.cons_prefix_cons.mp h
      exact ⟨[], List.infix_rfl, by rw [List.prefix_nil.mp hw]; rfl⟩
    · cases List.infix_nil.mp h
  | case3 d e rest hescape ih =>
    rw [unescape, if_pos hescape] at h
    rcases List.infix_cons_iff.mp h with h | h
    · obtain ⟨rfl, hw⟩ := List.cons_prefix_cons.mp h
      obtain ⟨t, ht, rfl⟩ := prefix_of_unescape hw
      exact ⟨t, List.infix_cons (List.cons_prefix_cons.mpr ⟨rfl, ht⟩).isInfix, rfl⟩
    · obtain ⟨t, ht, rfl⟩ := ih h
      exact ⟨t, List.infix_cons (List.infix_cons ht), rfl⟩
  | case4 d e rest hplain ih =>
    rw [unescape, if_neg hplain] at h
    rcases List.infix_cons_iff.mp h with h | h
    · obtain ⟨rfl, hw⟩ := List.cons_prefix_cons.mp h
      obtain ⟨t, ht, rfl⟩ := prefix_of_unescape hw
      exact ⟨t, (List.cons_prefix_cons.mpr ⟨rfl, ht⟩).isInfix, rfl⟩
    · obtain ⟨t, ht, rfl⟩ := ih h
      exact ⟨t, List.infix_cons ht, rfl⟩

theorem unescape_of_not_mem (h : 92 ∉ s) : unescape s = s := by
  induction s using unescape.induct with
  | case1 => rfl
  | case2 d => rfl
  | case3 d e rest hescape ih => exact absurd (hescape.1 ▸ List.mem_cons_self) h
  | case4 d e rest hplain ih =>
    rw [unescape, if_neg hplain, ih fun hmem => h (List.mem_cons_of_mem d hmem)]

/-! ## What is quoted -/

theorem firstMatch_eq_some {β : Type} {read : Text → Option β} {r : β} (h : firstMatch read s = some r) :
    ∃ t, t <:+ s ∧ read t = some r := by
  induction s with
  | nil => cases h
  | cons x xs ih =>
    rw [firstMatch, Option.or_eq_some_iff] at h
    rcases h with h | ⟨-, h⟩
    · exact ⟨x :: xs, List.suffix_rfl, h⟩
    · obtain ⟨t, ht, hread⟩ := ih h
      exact ⟨t, ht.trans (List.suffix_cons x xs), hread⟩

theorem prefix_of_stringBody (h : stringBody s = some t) : t <+: s := by
  induction s using stringBody.induct generalizing t with
  | case1 => cases h
  | case2 => cases h; exact List.nil_prefix
  | case3 c hc => rw [stringBody, if_neg hc] at h; cases h
  | case4 d rest => cases h; exact List.nil_prefix
  | case5 d rest hend _ => rw [stringBody, if_neg (by decide), if_pos rfl, if_pos hend] at h; cases h
  | case6 d rest hend _ ih =>
    rw [stringBody, if_neg (by decide), if_pos rfl, if_neg hend] at h
    obtain ⟨body, hbody, rfl⟩ := Option.map_eq_some_iff.mp h
    exact List.cons_prefix_cons.mpr ⟨rfl, List.cons_prefix_cons.mpr ⟨rfl, ih hbody⟩⟩
  | case7 c d rest hquote hescape ih =>
    rw [stringBody, if_neg hquote, if_neg hescape] at h
    obtain ⟨body, hbody, rfl⟩ := Option.map_eq_some_iff.mp h
    exact List.cons_prefix_cons.mpr ⟨rfl, ih hbody⟩

theorem infix_of_wrapped (h : wrapped blob = some t) : t <:+: blob := by
  obtain ⟨xs, hxs, hread⟩ := firstMatch_eq_some h
  split at hread
  · split at hread
    · next rest hcolon =>
      split at hread
      · next body hquote =>
        have hbody : body <:+ xs := by
          have hrest : 58 :: rest <:+ xs := hcolon ▸ (List.dropWhile_suffix _).trans (List.drop_suffix ..)
          have hopen : 34 :: body <:+ rest := hquote ▸ List.dropWhile_suffix _
          exact (List.suffix_cons ..).trans (hopen.trans ((List.suffix_cons ..).trans hrest))
        exact (prefix_of_stringBody hread).isInfix.trans (hbody.trans hxs).isInfix
      · cases hread
    · cases hread
  · cases hread

theorem infix_of_trim : trim s <:+: s :=
  (List.rdropWhile_prefix _ _).isInfix.trans (List.dropWhile_suffix _).isInfix

/-- What a refusal quotes is of the text, or of a part of it with its escapes undone. -/
theorem infix_of_actionableRefusal (h : actionableRefusal blob = some s) :
    s <:+: blob ∨ ∃ group, wrapped blob = some group ∧ s <:+: unescape group := by
  simp only [actionableRefusal, Option.ite_none_left_eq_some, Option.ite_none_right_eq_some, Option.some.injEq] at h
  obtain ⟨-, -, rfl⟩ := h
  cases hwrapped : wrapped blob with
  | none => exact .inl infix_of_trim
  | some group => exact .inr ⟨group, rfl, infix_of_trim⟩

theorem digits_of_status (n : ℕ) : 83 ∉ units (toString n) ∧ 46 ∉ units (toString n) := by
  have hdigit : ∀ c ∈ units (toString n), 48 ≤ c ∧ c ≤ 57 := by
    intro c hc
    obtain ⟨d, hd, rfl⟩ := List.mem_map.mp hc
    rw [Nat.toString_eq_ofList_toDigits, String.toList_ofList] at hd
    have hd := Nat.isDigit_of_mem_toDigits (by decide) (by decide) hd
    simp only [Char.isDigit, Bool.and_eq_true, decide_eq_true_eq] at hd
    exact hd
  exact ⟨fun h => absurd (hdigit 83 h).2 (by decide), fun h => absurd (hdigit 46 h).1 (by decide)⟩

/-- No branch before a refusal's is taken, and one of the two that quote it is. -/
def quotesRefusal (blob : Text) : Bool :=
  !(mentions "missing key" blob || mentions "missing balance" blob) && !mentions "nothing was signed" blob &&
  !(mentions "group-claim-failed" blob || mentions "already-claimed-this" blob || mentions "drop-empty" blob ||
    mentions "bad-link-key" blob) &&
  !(mentions "v2-claim tx not_found" blob || mentions "submit unconfirmed" blob || saysNotConfirmed blob ||
    answered202 blob || mentions "status:202" blob) &&
  !(mentions "op_already_exists" blob || mentions "op_does_not_exist" blob ||
    mentions "claimable_balance_does_not_exist" blob) &&
  !(statusOf blob = some 429 || mentions "rate limit" blob || mentions "too many" blob) &&
  !mentions "network is busy" blob &&
  (mentions "try again tomorrow" blob || mentions "budget is spent" blob || mentions "paused for today" blob ||
    (statusOf blob = some 503 || mentions "halt" blob || mentions "paused" blob || mentions "unavailable" blob))

/-- The detail is one of our own labels, or quotes the text: after the status, or as a refusal. -/
inductive Quoted (blob : Text) : Text → Prop
  | label {s : Text} (hS : 83 ∉ s) (hdot : 46 ∉ s) : Quoted blob s
  | cut : Quoted blob (blob.take 120)
  | coded (n : ℕ) : Quoted blob (units (toString n ++ " ") ++ blob.take 120)
  | refusal {s : Text} (hquotes : quotesRefusal blob = true) (h : actionableRefusal blob = some s) : Quoted blob s

theorem quoted_label {words : String} (h : ∀ c ∈ units words, c ≠ 83 ∧ c ≠ 46) : Quoted blob (units words) :=
  .label (fun hS => (h 83 hS).1 rfl) fun hdot => (h 46 hdot).2 rfl

theorem quoted_getD {words : String} (hquotes : quotesRefusal blob = true)
    (h : ∀ c ∈ units words, c ≠ 83 ∧ c ≠ 46) : Quoted blob ((actionableRefusal blob).getD (units words)) := by
  cases hsaid : actionableRefusal blob with
  | none => exact quoted_label h
  | some s => exact .refusal hquotes hsaid

theorem quoted_ite {p : Prop} [Decidable p] {a b : ClaimErrorInfo} (ha : p → Quoted blob a.detail)
    (hb : ¬p → Quoted blob b.detail) : Quoted blob (if p then a else b).detail := by
  split
  · next h => exact ha h
  · next h => exact hb h

theorem quoted_detail : Quoted blob (classifyText blob).detail := by
  rw [classifyText]
  -- one branch after the other, in the order of the source
  refine quoted_ite (fun _ => .cut) fun hmissing => quoted_ite (fun _ => quoted_label (by decide)) fun hunsigned => ?_
  refine quoted_ite (fun _ => ?_) fun hgroup => ?_
  · refine quoted_ite (fun _ => quoted_label (by decide)) fun _ => ?_
    refine quoted_ite (fun _ => quoted_label (by decide)) fun _ => ?_
    refine quoted_ite (fun _ => quoted_label (by decide)) fun _ => ?_
    exact quoted_ite (fun _ => quoted_label (by decide)) fun _ => quoted_label (by decide)
  refine quoted_ite (fun _ => quoted_label (by decide)) fun hpending => ?_
  refine quoted_ite (fun _ => quoted_label (by decide)) fun hclaimed => ?_
  refine quoted_ite (fun _ => quoted_label (by decide)) fun hlimited => ?_
  refine quoted_ite (fun _ => quoted_label (by decide)) fun hbusy => ?_
  have hquotes : (mentions "try again tomorrow" blob || mentions "budget is spent" blob ||
      mentions "paused for today" blob || (statusOf blob = some 503 || mentions "halt" blob ||
        mentions "paused" blob || mentions "unavailable" blob)) = true → quotesRefusal blob = true := by
    intro h
    simp only [Bool.not_eq_true] at hmissing hunsigned hgroup hpending hclaimed hlimited hbusy
    rw [quotesRefusal, hmissing, hunsigned, hgroup, hpending, hclaimed, hlimited, hbusy, h]
    rfl
  refine quoted_ite (fun hday => quoted_getD (hquotes ?_) (by decide)) fun _ => ?_
  · rw [hday, Bool.true_or]
  refine quoted_ite (fun hpaused => quoted_getD (hquotes ?_) (by decide)) fun _ => ?_
  · rw [hpaused, Bool.or_true]
  refine quoted_ite (fun _ => quoted_label (by decide)) fun _ => ?_
  -- what is left: the head of the text, after the status when there was one
  dsimp only
  split
  · split
    · exact .cut
    · exact .coded _
  · exact .cut

theorem shows_of_quoted (h : Quoted blob s) (hs : Shows s) :
    Shows blob ∨ quotesRefusal blob = true ∧ (actionableRefusal blob).isSome ∧
      ∃ group, wrapped blob = some group ∧ Shows (unescape group) := by
  cases h with
  | label hS hdot => exact absurd hs (not_shows_of_label hS hdot)
  | cut => exact .inl (hs.mono (List.take_prefix ..).isInfix)
  | coded n =>
    obtain ⟨w, hw, hwithin⟩ := hs
    have hspace : 32 ∉ w := hw.not_mem rfl (by decide)
    rw [units, String.toList_append, List.map_append, List.append_assoc] at hwithin
    rcases infix_of_append_cons hwithin hspace with hcode | hcut
    · have hdigits := digits_of_status n
      exact absurd ⟨w, hw, hcode⟩ (not_shows_of_label hdigits.1 hdigits.2)
    · exact .inl ⟨w, hw, hcut.trans (List.take_prefix ..).isInfix⟩
  | refusal hquotes h =>
    rcases infix_of_actionableRefusal h with hwithin | ⟨group, hgroup, hwithin⟩
    · exact .inl (hs.mono hwithin)
    · exact .inr ⟨hquotes, Option.isSome_of_mem h, group, hgroup, hs.mono hwithin⟩

/-- A key that can be read once the escapes are undone had escapes in it, or was there before. -/
theorem shows_of_unescape (h : Shows (unescape s)) : Shows s ∨ Assembled s := by
  obtain ⟨w, hw, hwithin⟩ := h
  obtain ⟨c, w, rfl⟩ := List.exists_cons_of_ne_nil hw.ne_nil
  obtain ⟨t, ht, rfl⟩ := infix_of_unescape hwithin
  by_cases hescaped : 92 ∈ t
  · exact .inr ⟨c, t, ht, hescaped, hw⟩
  · rw [unescape_of_not_mem hescaped] at hw
    exact .inl ⟨c :: t, hw, ht⟩

/-! ## The classifier -/

/-- What stands outside a `try` answers: the brand's `instanceof`, and the join of what was collected. -/
structure Readable (v : Caught) : Prop where
  branded : v.isUnconfirmedError ≠ none
  joined : isUnconfirmedSubmit v ≠ some true → ∀ part ∈ collect (readers v) [], part.joined ≠ none

/-- No key in the text is out of the redaction's reach: none touches a word character, and where a refusal
is quoted, none is put together when its escapes are undone. -/
structure InReach (s : Text) : Prop where
  key : ¬ TouchedKey s
  seed : ¬ TouchedSeed s
  refusal : quotesRefusal ((redact s).take 2000) = true → (actionableRefusal ((redact s).take 2000)).isSome →
    ∀ group, wrapped ((redact s).take 2000) = some group → ¬ Assembled group

theorem not_shows_classifyText (h : InReach s) : ¬ Shows (classifyText ((redact s).take 2000)).detail := by
  intro hshows
  have hblob : ¬ Shows ((redact s).take 2000) := by
    intro hblob
    rcases touched_of_redact (hblob.mono (List.take_prefix ..).isInfix) with htouch | htouch
    · exact h.key htouch
    · exact h.seed htouch
  rcases shows_of_quoted quoted_detail hshows with hshown | ⟨hquotes, hsaid, group, hgroup, hshown⟩
  · exact hblob hshown
  · rcases shows_of_unescape hshown with hplain | hassembled
    · exact hblob (hplain.mono (infix_of_wrapped hgroup))
    · exact h.refusal hquotes hsaid group hgroup hassembled

theorem not_shows_uncertain : ¬ Shows uncertain.detail := not_shows_of_label (by decide) (by decide)

theorem mapM_eq_none {β γ : Type} {f : β → Option γ} {l : List β} : l.mapM f = none ↔ ∃ x ∈ l, f x = none := by
  induction l with
  | nil => simp
  | cons x l ih =>
    rw [List.mapM_cons]
    cases hx : f x with
    | none => simp [hx]
    | some y =>
      cases hl : l.mapM f with
      | none => simpa [hx, hl] using ih.mp hl
      | some ys =>
        have hnot : ¬ ∃ x ∈ l, f x = none := by
          intro h
          rw [ih.mpr h] at hl
          cases hl
        simpa [hx] using hnot

theorem classifyClaimError_eq_none_iff {v : Caught} : classifyClaimError v = none ↔ ¬ Readable v := by
  rw [classifyClaimError]
  cases hbrand : isUnconfirmedSubmit v with
  | none =>
    have hnone : v.isUnconfirmedError = none := by
      cases h : v.isUnconfirmedError with
      | none => rfl
      | some b => cases b <;> simp [isUnconfirmedSubmit, h] at hbrand
    exact iff_of_true rfl fun h => h.branded hnone
  | some unconfirmed =>
    have hsome : v.isUnconfirmedError ≠ none := by
      intro h
      simp [isUnconfirmedSubmit, h] at hbrand
    cases unconfirmed with
    | true => exact iff_of_false (by simp) (not_not_intro ⟨hsome, fun h => absurd hbrand h⟩)
    | false =>
      have hjoin : flatten v = none ↔ ∃ part ∈ collect (readers v) [], part.joined = none := by
        rw [flatten, Option.map_eq_none_iff, joined, ← mapM_eq_none]
        cases (collect (readers v) []).mapM Part.joined <;> simp
      have hread : Readable v ↔ ∀ part ∈ collect (readers v) [], part.joined ≠ none :=
        ⟨fun h => h.joined (by simp [hbrand]), fun h => ⟨hsome, fun _ => h⟩⟩
      rw [hread]
      cases hflat : flatten v <;> simpa [hflat] using hjoin

/-- **A claim error shows no key that the redaction reaches**, and throws only where a read outside the
`try` blocks does. -/
theorem claim_error_hides_keys (v : Caught) :
    (classifyClaimError v = none ↔ ¬ Readable v) ∧
      (Readable v → (isUnconfirmedSubmit v ≠ some true → ∀ text, joined v = some text → InReach text) →
        ∃ info, classifyClaimError v = some info ∧ ¬ Shows info.detail) := by
  refine ⟨classifyClaimError_eq_none_iff, fun hread hreach => ?_⟩
  obtain ⟨info, hinfo⟩ := Option.ne_none_iff_exists'.mp fun h => classifyClaimError_eq_none_iff.mp h hread
  refine ⟨info, hinfo, ?_⟩
  rw [classifyClaimError] at hinfo
  cases hbrand : isUnconfirmedSubmit v with
  | none =>
    rw [hbrand] at hinfo
    cases hinfo
  | some unconfirmed =>
    rw [hbrand] at hinfo
    cases unconfirmed with
    | true =>
      cases hinfo
      exact not_shows_uncertain
    | false =>
      cases htext : joined v with
      | none =>
        rw [flatten, htext] at hinfo
        cases hinfo
      | some text =>
        rw [flatten, htext] at hinfo
        cases hinfo
        exact not_shows_classifyText (hreach (by simp [hbrand]) text htext)

/-- An `Error` with a message, as the sponsor's reader throws one. -/
def thrown (message : String) : Caught where
  isUnconfirmedError := some false
  submitUnconfirmed := some false
  namedUnconfirmed := some false
  isError := some true
  message := some (.text (units message))
  messageIsText := some true
  messageAgain := some (.text (units message))
  hasStatus := some false
  status := none
  hasData := some false
  data := none
  asText := some (units ("Error: " ++ message))

/-- A sponsor's answer with a line break before the key, which JSON writes as a backslash and an `n`: the
key touches the `n`, so it is shown. -/
theorem claim_error_shows_key : ∃ message info,
    classifyClaimError (thrown message) = some info ∧ info.kind = .unknown ∧ Shows info.detail := by
  let key := "SAAAAAAAAAAAAAAAAAAAAAAAAAAAAAAAAAAAAAAAAAAAAAAAAAAAAAAA"
  let message := "/feebump → 400: \x7b\"detail\":\"no such link\\n" ++ key ++ "\"\x7d"
  have hrun : classifyClaimError (thrown message) =
      some { kind := .unknown, detail := units ("400 " ++ message), retryable := true } := by decide +kernel
  have hkey : IsKey (units key) := ⟨List.replicate 55 65, by decide +kernel, rfl, by decide +kernel⟩
  have hwithin : units key <:+: units ("400 " ++ message) := by decide +kernel
  exact ⟨message, _, hrun, rfl, units key, .inl hkey, hwithin⟩

/-- The same key behind a space is redacted. -/
theorem claim_error_hides_key_redacted :
    ∃ info, classifyClaimError (thrown
      "/feebump → 400: no such link SAAAAAAAAAAAAAAAAAAAAAAAAAAAAAAAAAAAAAAAAAAAAAAAAAAAAAAA") = some info ∧
      ¬ Shows info.detail := by
  let message := "/feebump → 400: no such link SAAAAAAAAAAAAAAAAAAAAAAAAAAAAAAAAAAAAAAAAAAAAAAAAAAAAAAA"
  have hcollect : collect (readers (thrown message)) [] = [.text (units message)] := by decide +kernel
  have hread : Readable (thrown message) := ⟨by decide, fun _ => by rw [hcollect]; decide⟩
  have hreach : InReach (units message) := by
    refine ⟨fun htouch => ?_, ?_, ?_⟩
    · obtain ⟨w, hw, hwithin⟩ := key_in_redactKeys_iff.mpr htouch
      have hplain : ∀ t ∈ (redactKeys (units message)).tails, keyAt t = false := by decide +kernel
      obtain ⟨a, b, heq⟩ := hwithin
      have hkey := hplain (w ++ b) ((List.mem_tails _ _).mpr ⟨a, by rw [← heq, List.append_assoc]⟩)
      rw [keyAt_iff.mpr ⟨w, b, hw, rfl⟩] at hkey
      cases hkey
    · intro h
      obtain ⟨w, c, ⟨run, rfl, -⟩, -, hwithin⟩ := h
      have hdot : 46 ∉ units message := by decide +kernel
      exact hdot (hwithin.subset (List.mem_cons_of_mem c (List.mem_append_left run (by decide))))
    · have hnone : wrapped ((redact (units message)).take 2000) = none := by decide +kernel
      intro _ _ group hgroup
      rw [hnone] at hgroup
      cases hgroup
  refine (claim_error_hides_keys (thrown message)).2 hread fun _ text htext => ?_
  have hjoined : joined (thrown message) = some (units message) := by decide +kernel
  rw [hjoined] at htext
  cases htext
  exact hreach

end Lumenia.Web.ClaimError
