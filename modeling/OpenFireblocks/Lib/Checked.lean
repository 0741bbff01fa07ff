import Mathlib.Data.Fin.Basic

/-!
# Checked arithmetic

Unsigned machine integers below a bound, with addition and subtraction that fail instead of
wrapping around. Both are characterised by what they return on the naturals.
-/

namespace Checked

variable {n : Nat}

/-- The sum, unless it does not fit. -/
def add (a b : Fin n) : Option (Fin n) :=
  if h : a.val + b.val < n then some ⟨a.val + b.val, h⟩ else none

/-- The difference, unless it is negative. -/
def sub (a b : Fin n) : Option (Fin n) :=
  if b ≤ a then some ⟨a.val - b.val, Nat.lt_of_le_of_lt (Nat.sub_le _ _) a.isLt⟩ else none

theorem add_eq_some {a b c : Fin n} : add a b = some c ↔ c.val = a.val + b.val := by
  unfold add
  split
  · rw [Option.some.injEq, Fin.ext_iff]
    exact eq_comm
  · next h =>
    refine ⟨fun hc => (by cases hc), fun hc => ?_⟩
    exact absurd (hc ▸ c.isLt) h

theorem sub_eq_some {a b c : Fin n} : sub a b = some c ↔ c.val + b.val = a.val := by
  unfold sub
  split
  · next h =>
    rw [Option.some.injEq, Fin.ext_iff]
    constructor
    · intro hc
      rw [← hc]
      exact Nat.sub_add_cancel h
    · intro hc
      exact Nat.sub_eq_of_eq_add hc.symm
  · next h =>
    refine ⟨fun hc => (by cases hc), fun hc => ?_⟩
    exact absurd (show b.val ≤ a.val from hc ▸ Nat.le_add_left _ _) h

end Checked
