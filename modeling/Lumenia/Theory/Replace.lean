import Mathlib.Data.List.Infix

/-!
# Replacing what matches

`replaceAll` is the global replacement of a pattern that may look at the element before it: matches are
found from left to right and do not overlap. Where each replacement is a part of its match with a mark
after it, a stretch of the result without the mark is a stretch of the text that no rule has matched,
or within what a match has left (`unmatched_of_infix`).
-/

namespace Lumenia

variable {α : Type}

/-- For the element before and what is left: how long the match is beyond its first element, and what
takes its place. -/
abbrev Rule (α : Type) := Option α → List α → Option (ℕ × List α)

/-- So many elements that are left belong to the last match. -/
def replaceAll (rule : Rule α) : Option α → ℕ → List α → List α
  | _, _, [] => []
  | _, skip + 1, x :: xs => replaceAll rule (some x) skip xs
  | before, 0, x :: xs =>
    match rule before (x :: xs) with
    | some (more, new) => new ++ replaceAll rule (some x) more xs
    | none => x :: replaceAll rule (some x) 0 xs

/-- The element before a place, behind some more. -/
def beforeOf (before : Option α) (xs : List α) : Option α := xs.getLast?.or before

@[simp] theorem beforeOf_nil {before : Option α} : beforeOf before [] = before := rfl

theorem beforeOf_cons {before : Option α} {x : α} {xs : List α} :
    beforeOf before (x :: xs) = beforeOf (some x) xs := by
  rw [beforeOf, beforeOf, List.getLast?_cons]
  cases xs.getLast? <;> rfl

/-- A replacement is a part of its match, and the mark. -/
def Marks (mark : α) (rule : Rule α) : Prop :=
  ∀ before xs more new, rule before xs = some (more, new) → ∃ kept, new = kept ++ [mark] ∧ kept <+: xs

variable {rule : Rule α} {mark : α} {before : Option α} {skip more : ℕ} {x : α} {xs w new : List α}

theorem replaceAll_match (h : rule before (x :: xs) = some (more, new)) :
    replaceAll rule before 0 (x :: xs) = new ++ replaceAll rule (some x) more xs := by
  rw [replaceAll, h]

theorem replaceAll_none (h : rule before (x :: xs) = none) :
    replaceAll rule before 0 (x :: xs) = x :: replaceAll rule (some x) 0 xs := by
  rw [replaceAll, h]

/-! ## Stretches without an element -/

theorem prefix_of_append_cons {l r : List α} (hw : w <+: l ++ mark :: r) (hmark : mark ∉ w) : w <+: l := by
  obtain ⟨t, ht⟩ := hw
  rcases List.append_eq_append_iff.mp ht with ⟨as, rfl, -⟩ | ⟨bs, rfl, hbs⟩
  · exact List.prefix_append w as
  · cases bs with
    | nil =>
      rw [List.append_nil]
    | cons b bs =>
      obtain ⟨rfl, -⟩ := List.cons.inj hbs
      exact absurd (List.mem_append_right l List.mem_cons_self) hmark

theorem infix_of_append_cons {l r : List α} (hw : w <:+: l ++ mark :: r) (hmark : mark ∉ w) :
    w <:+: l ∨ w <:+: r := by
  induction l with
  | nil =>
    rcases List.infix_cons_iff.mp hw with hfirst | hrest
    · exact .inl (prefix_of_append_cons (l := []) hfirst hmark).isInfix
    · exact .inr hrest
  | cons y l ih =>
    rcases List.infix_cons_iff.mp hw with hfirst | hrest
    · exact .inl (prefix_of_append_cons (l := y :: l) hfirst hmark).isInfix
    · exact (ih hrest).imp (List.infix_cons ·) id

/-! ## What is left of a text -/

/-- What the result begins with, up to a mark, the text begins with. -/
theorem prefix_of_replaceAll (hrule : Marks mark rule) (hw : w <+: replaceAll rule before 0 xs)
    (hmark : mark ∉ w) : w <+: xs := by
  induction xs generalizing before w with
  | nil => exact hw
  | cons x xs ih =>
    cases hmatch : rule before (x :: xs) with
    | some found =>
      obtain ⟨more, new⟩ := found
      obtain ⟨kept, rfl, hkept⟩ := hrule _ _ _ _ hmatch
      rw [replaceAll_match hmatch, List.append_assoc] at hw
      exact (prefix_of_append_cons hw hmark).trans hkept
    | none =>
      rw [replaceAll_none hmatch] at hw
      cases w with
      | nil => exact List.nil_prefix
      | cons y w =>
        obtain ⟨rfl, hrest⟩ := List.cons_prefix_cons.mp hw
        have hnot : mark ∉ w := fun hmem => hmark (List.mem_cons_of_mem _ hmem)
        exact List.cons_prefix_cons.mpr ⟨rfl, ih hrest hnot⟩

/-- **A stretch without the mark was there, and was not matched**, or it is within what a match left. -/
theorem unmatched_of_infix (hrule : Marks mark rule) (hw : w <:+: replaceAll rule before skip xs)
    (hmark : mark ∉ w) (hne : w ≠ []) :
    (∃ a b, xs = a ++ (w ++ b) ∧ rule (beforeOf before a) (w ++ b) = none) ∨
      ∃ before' ys more kept, rule before' ys = some (more, kept ++ [mark]) ∧ ys <:+ xs ∧ w <:+: kept := by
  induction xs generalizing before skip with
  | nil => exact absurd (List.infix_nil.mp hw) hne
  | cons x xs ih =>
    have hlater : ∀ skip, w <:+: replaceAll rule (some x) skip xs →
        (∃ a b, x :: xs = a ++ (w ++ b) ∧ rule (beforeOf before a) (w ++ b) = none) ∨
          ∃ before' ys more kept, rule before' ys = some (more, kept ++ [mark]) ∧ ys <:+ x :: xs ∧
            w <:+: kept := by
      intro skip hrest
      rcases ih hrest with ⟨a, b, rfl, hnone⟩ | ⟨before', ys, more, kept, hmatch, hys, hkept⟩
      · exact .inl ⟨x :: a, b, rfl, by rwa [beforeOf_cons]⟩
      · exact .inr ⟨before', ys, more, kept, hmatch, hys.trans (List.suffix_cons x xs), hkept⟩
    cases skip with
    | succ skip => exact hlater skip hw
    | zero =>
      cases hmatch : rule before (x :: xs) with
      | some found =>
        obtain ⟨more, new⟩ := found
        obtain ⟨kept, rfl, -⟩ := hrule _ _ _ _ hmatch
        rw [replaceAll_match hmatch, List.append_assoc] at hw
        rcases infix_of_append_cons hw hmark with hkept | hrest
        · exact .inr ⟨before, x :: xs, more, kept, hmatch, List.suffix_rfl, hkept⟩
        · exact hlater more hrest
      | none =>
        rw [replaceAll_none hmatch] at hw
        rcases List.infix_cons_iff.mp hw with hfirst | hrest
        · rw [← replaceAll_none hmatch] at hfirst
          obtain ⟨b, hb⟩ := prefix_of_replaceAll hrule hfirst hmark
          exact .inl ⟨[], b, hb.symm, by rwa [beforeOf_nil, hb]⟩
        · exact hlater 0 hrest

/-- A stretch of the result without the mark is one of the text. -/
theorem infix_of_replaceAll (hrule : Marks mark rule) (hw : w <:+: replaceAll rule before skip xs)
    (hmark : mark ∉ w) : w <:+: xs := by
  rcases eq_or_ne w [] with rfl | hne
  · exact List.nil_infix
  rcases unmatched_of_infix hrule hw hmark hne with ⟨a, b, rfl, -⟩ | ⟨_, ys, _, kept, hmatch, hys, hkept⟩
  · exact ⟨a, b, List.append_assoc ..⟩
  · obtain ⟨kept', heq, hstart⟩ := hrule _ _ _ _ hmatch
    obtain rfl := List.append_cancel_right heq
    exact hkept.trans (hstart.isInfix.trans hys.isInfix)

end Lumenia
