import Mathlib.Algebra.Order.BigOperators.Group.List
import Mathlib.Data.Int.Order.Basic
import Mathlib.Logic.Function.Basic

/-!
# An account that holds money for others

`Transfer.apply` moves an amount between two accounts. `Custody` is the purpose of an escrow in its
own terms: one account `self` owes the amount `held`, accepts funding, pays out what it owes, and
everybody else moves their own money as they like. What `self` holds beyond what it owes changes
only by money nobody deposited: a payment `self` makes to itself, or a gift from outside
(`Custody.surplus_apply`).
-/

namespace Lumenia

variable {α : Type*} [DecidableEq α]

/-- A movement of `amount` units of one asset. -/
structure Transfer (α : Type*) where
  src : α
  dst : α
  amount : ℤ
  deriving DecidableEq

namespace Transfer

/-- The balances after the transfer. A transfer to oneself changes nothing. -/
def apply (t : Transfer α) (b : α → ℤ) : α → ℤ :=
  let b := Function.update b t.src (b t.src - t.amount)
  Function.update b t.dst (b t.dst + t.amount)

theorem apply_eq (t : Transfer α) (b : α → ℤ) (a : α) :
    t.apply b a = b a - (if a = t.src then t.amount else 0) +
      (if a = t.dst then t.amount else 0) := by
  simp only [apply, Function.update_apply]
  by_cases h₁ : a = t.src <;> by_cases h₂ : a = t.dst <;> by_cases h₃ : t.dst = t.src <;>
    simp_all

theorem apply_comm (t u : Transfer α) (b : α → ℤ) : t.apply (u.apply b) = u.apply (t.apply b) := by
  funext a
  simp only [apply_eq]
  omega

end Transfer

/-- What an account owes, next to everybody's balances. -/
structure Custody (α : Type*) where
  held : ℤ
  balance : α → ℤ

namespace Custody

/-- The ways money moves around the account `self`. -/
inductive Move (α : Type*)
  | idle
  | fund (src : α) (n : ℤ)
  | pay (dst : α) (n : ℤ)
  | outside (src dst : α) (n : ℤ)

variable (self : α)

/-- Amounts are not negative where it matters, and nobody but `self` moves the money of `self`. -/
def Move.Honest : Move α → Prop
  | .idle => True
  | .fund src _ => src ≠ self
  | .pay _ n => 0 ≤ n
  | .outside src _ n => src ≠ self ∧ 0 ≤ n

def apply (s : Custody α) : Move α → Custody α
  | .idle => s
  | .fund src n => ⟨s.held + n, (Transfer.mk src self n).apply s.balance⟩
  | .pay dst n => ⟨s.held - n, (Transfer.mk self dst n).apply s.balance⟩
  | .outside src dst n => ⟨s.held, (Transfer.mk src dst n).apply s.balance⟩

/-- What a move leaves at `self` that `self` owes to nobody. -/
def Move.stray : Move α → ℤ
  | .idle | .fund .. => 0
  | .pay dst n | .outside _ dst n => if dst = self then n else 0

/-- What `self` holds beyond what it owes. -/
def surplus (s : Custody α) : ℤ := s.balance self - s.held

variable {self}

theorem Move.stray_nonneg {m : Move α} (hm : m.Honest self) : 0 ≤ m.stray self := by
  cases m with
  | idle | fund => exact le_rfl
  | pay dst n =>
    simp only [Move.stray]
    split
    · exact hm
    · rfl
  | outside src dst n =>
    simp only [Move.stray]
    split
    · exact hm.2
    · rfl

theorem surplus_apply {s : Custody α} {m : Move α} (hm : m.Honest self) :
    (s.apply self m).surplus self = s.surplus self + m.stray self := by
  cases m with
  | idle => simp [apply, surplus, Move.stray]
  | fund src n =>
    have hne : ¬ self = src := fun h => hm h.symm
    simp only [apply, surplus, Move.stray, Transfer.apply_eq, if_neg hne, if_true]
    omega
  | pay dst n =>
    simp only [apply, surplus, Move.stray, Transfer.apply_eq, if_true, eq_comm (a := dst)]
    omega
  | outside src dst n =>
    have hne : ¬ self = src := fun h => hm.1 h.symm
    simp only [apply, surplus, Move.stray, Transfer.apply_eq, if_neg hne, eq_comm (a := dst)]
    omega

end Custody

end Lumenia
