import Mathlib.Data.List.Infix

/-!
# Looking for words in a text

Upper and lower case are not told apart, as in a search with the flag `i`.
-/

namespace Lumenia

/-- The characters of a text in lower case. -/
def lower (s : String) : List Char := s.toList.map Char.toLower

def mentions (phrase text : String) : Bool := decide (lower phrase <:+: lower text)

def opensWith (phrase text : String) : Bool := decide (lower phrase <+: lower text)

end Lumenia
