import Lumenia.Theory.Threads

/-!
# A program against an adversary

`Prog.session` runs one program to its end while an adversary decides, for every batch, which of the
commands take effect and what comes back. What comes back need not be what a store would answer, so
the other clients of the store, and every way in which a command can fail, are among the adversary's
choices.
-/

namespace Lumenia

structure Fate (R : Type) where
  applied : ℕ → Bool
  reply : Except String (List R)

/-- The commands of a batch that took effect. -/
def kept {C : Type} : (ℕ → Bool) → List C → List C
  | _, [] => []
  | applied, c :: cs =>
    if applied 0 then c :: kept (fun n => applied (n + 1)) cs else kept (fun n => applied (n + 1)) cs

variable {C R M ε α : Type}

/-- The result, and the commands that took effect, in order. -/
def Prog.session : Prog C R M ε α → (ℕ → Fate R) → M → α × List C
  | .ret a, _, _ => (a, [])
  | .pipe todo _ k, fate, m =>
    let rest := (k (fate 0).reply).session (fun n => fate (n + 1)) m
    (rest.1, kept (fate 0).applied todo ++ rest.2)
  | .mem f k, fate, m => (k m).session fate (f m)
  | .hold _ k, fate, m => k.session fate m

end Lumenia
