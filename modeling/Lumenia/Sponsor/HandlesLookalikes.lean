import Lumenia.Sponsor.Handles

/-!
# Look-alikes of reserved names

A name is compared with the reserved words as it is and by its skeleton, but the words are not folded
themselves. A word with an `l` has another skeleton than itself, so its look-alikes pass; those of the
other words are refused (`reserved_look_alike_iff`).
-/

namespace Lumenia.Sponsor.Handles

/-- The skeletons of the reserved words that have an `l`. -/
def unguarded : List String :=
  ["officiai", "heip", "heipdesk", "biiiing", "iumenia", "iumenio", "getiumenia", "steiiar", "circie",
    "waiiet", "maii", "emaii", "iogin", "ciaim", "spiit", "iegai", "nuii"]

/-- Folding leaves a reserved word as it is, or has an `l` to replace and leads out of the list. -/
theorem skeleton_reserved : ∀ word ∈ reserved,
    ('l' ∉ word.toList ∧ skeleton word = word) ∨ ('l' ∈ word.toList ∧ skeleton word ∈ unguarded) := by
  decide +kernel

theorem unguarded_not_reserved : ∀ text ∈ unguarded,
    text ∉ reserved ∧ ∃ word ∈ reserved, skeleton word = text := by
  decide +kernel

variable {name : String}

theorem skeleton_of_valid (h : validateHandleShape name = .ok ()) :
    isName name = true ∧ name ∉ reserved ∧ skeleton name ∉ reserved := by
  unfold validateHandleShape at h
  split at h
  · cases h
  split at h
  · cases h
  rename_i hname hfree
  obtain ⟨hself, hskeleton⟩ := not_or.mp hfree
  exact ⟨Bool.not_eq_false _ ▸ hname, hself, hskeleton⟩

/-- A name that has passed can look like a reserved word only if that has an `l`. -/
theorem letter_of_look_alike (h : validateHandleShape name = .ok ()) {word : String}
    (hword : word ∈ reserved) (hlook : skeleton word = skeleton name) :
    'l' ∈ word.toList ∧ skeleton name ∈ unguarded := by
  rcases skeleton_reserved word hword with ⟨-, hsame⟩ | ⟨hletter, hunguarded⟩
  · exact absurd (hlook ▸ hsame.symm ▸ hword) (skeleton_of_valid h).2.2
  · exact ⟨hletter, hlook ▸ hunguarded⟩

/-- **A look-alike of a reserved word is refused** exactly where the word has no `l`: a name that has
passed looks like none of them if its skeleton is not one of those. -/
theorem reserved_look_alike_iff (h : validateHandleShape name = .ok ()) :
    (∀ word ∈ reserved, skeleton word ≠ skeleton name) ↔ skeleton name ∉ unguarded := by
  constructor
  · intro hnone hmem
    obtain ⟨-, word, hword, hlook⟩ := unguarded_not_reserved _ hmem
    exact hnone word hword hlook
  · intro hguarded word hword hlook
    exact hguarded (letter_of_look_alike h hword hlook).2

theorem reserved_look_alike_iff_meric :
    "wallet" ∈ reserved ∧ skeleton "wallet" ≠ skeleton "me_ric" := by
  have hmem : "wallet" ∈ reserved := by decide +kernel
  refine ⟨hmem, ?_⟩
  exact (reserved_look_alike_iff (by decide +kernel : validateHandleShape "me_ric" = .ok ())).mpr
    (by decide +kernel) "wallet" hmem

/-- **A look-alike of the app's own name passes**: `lumen1a` is accepted. -/
theorem lumen1a_passes :
    ¬∀ name, validateHandleShape name = .ok () → ∀ word ∈ reserved, skeleton word ≠ skeleton name := by
  intro hall
  exact hall "lumen1a" (by decide +kernel) "lumenia" (by decide +kernel) (by decide +kernel)

end Lumenia.Sponsor.Handles
