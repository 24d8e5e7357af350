import Lumenia.Sponsor.Identity
import Lumenia.Theory.Calls

/-!
# What the calls over identity links meet

One store with its clock, which executes their commands one by one, and the random texts that have
been drawn. The registry of handles, the mailed codes, the rows of the backups and the OAuth providers
answer as they like.
-/

namespace Lumenia.Sponsor.Identity

open Dialogue

structure Store where
  now : ℕ
  cells : Cells Key.Entry
  /-- The random texts so far. -/
  drawn : List String

/-- What becomes of a question. -/
structure Chance where
  fate : Cells.Delivery
  randomHex : String
  verified : Except String Bool
  ownerHash : Except String (Option String)
  limited : Option String
  token : Except String (Option String)
  user : Except String (Option (String × Option String))
  handles : (q : Handles.Ask) → q.Answer

def react (d : Chance) (s : Store) : (q : Ask) → q.Answer × Store
  | .run c => ((d.fate.exec s.now s.cells c).1, { s with cells := (d.fate.exec s.now s.cells c).2 })
  | .now => (s.now, s)
  | .handles q => (d.handles q, s)
  | .randomHex _ => (d.randomHex, { s with drawn := d.randomHex :: s.drawn })
  | .verifyOtp .. => (d.verified, s)
  | .ownerHash _ => (d.ownerHash, s)
  | .enforceRateLimit => (d.limited, s)
  | .exchange .. => (d.token, s)
  | .readUser .. => (d.user, s)

/-- A random text is none of those before. -/
def Chance.Fair (d : Chance) (s : Store) : Ask → Prop
  | .randomHex _ => d.randomHex ∉ s.drawn
  | _ => True

/-- Time goes by. -/
def Store.Passes (s s' : Store) : Prop := s.now ≤ s'.now ∧ s' = { s with now := s'.now }

section

variable {d : Chance} {s : Store} {c : Command} {key : Key}

@[simp] theorem react_run_cells :
    (react d s (.run c)).2.cells = (d.fate.exec s.now s.cells c).2 := rfl

@[simp] theorem react_run_drawn : (react d s (.run c)).2.drawn = s.drawn := rfl

@[simp] theorem react_run_now : (react d s (.run c)).2.now = s.now := rfl

end

/-- A registry of handles in which nothing has been claimed, with nothing mailed and no backups, where
every provider answers. -/
def Chance.plain (randomHex subject : String) : Chance where
  fate := .done
  randomHex := randomHex
  verified := .ok false
  ownerHash := .ok none
  limited := none
  token := .ok (some "token")
  user := .ok (some (subject, none))
  handles
    | .run (.get _) => .ok (.ok none)
    | .run (.set ..) | .run (.del _) => .ok (.ok ())
    | .run (.setNx ..) => .ok (.ok true)
    | .now => (0 : ℕ)

end Lumenia.Sponsor.Identity
