import Mathlib.Logic.Function.Basic

/-!
# Named records that others hold references to

A registry is a map from names to records, together with every record that was ever put into it.
A program that takes a pointer out of the map and uses it later still reaches its own record after
the map has moved on, so a reference is a name and a position among the records of that name.

Each operation has one equation for `get` and one for `current`.
-/

/-- A map from names to records, with the records it no longer names. -/
structure Registry (κ α : Type) where
  /-- All records ever registered under a name, oldest first. -/
  records : κ → List α
  /-- The record the map holds under a name. -/
  current : κ → Option Nat

namespace Registry

variable {κ α : Type}

def empty : Registry κ α := ⟨fun _ => [], fun _ => none⟩

def get (g : Registry κ α) (k : κ) (n : Nat) : Option α := (g.records k)[n]?

def fresh (g : Registry κ α) (k : κ) : Nat := (g.records k).length

variable [DecidableEq κ]

section

variable (g : Registry κ α)

variable (k : κ)

def register (x : α) : Registry κ α where
  records := Function.update g.records k (g.records k ++ [x])
  current := Function.update g.current k (some (g.fresh k))

def delete : Registry κ α :=
  { g with current := Function.update g.current k none }

def modify (n : Nat) (f : α → α) : Registry κ α :=
  { g with records := Function.update g.records k ((g.records k).modify n f) }

omit [DecidableEq κ] in
@[simp] theorem get_empty (n : Nat) : (empty : Registry κ α).get k n = none := rfl

omit [DecidableEq κ] in
@[simp] theorem get_fresh : g.get k (g.fresh k) = none := by
  simp [get, fresh]

theorem get_register (k' : κ) (x : α) (n : Nat) :
    (g.register k x).get k' n = if k' = k ∧ n = g.fresh k then some x else g.get k' n := by
  by_cases hk : k' = k
  · subst hk
    simp only [get, register, fresh, Function.update_self]
    rcases Nat.lt_trichotomy n (g.records k').length with hn | hn | hn
    · rw [if_neg (by omega), List.getElem?_append_left hn]
    · subst hn
      simp
    · rw [if_neg (by omega), List.getElem?_eq_none (by simp; omega),
        List.getElem?_eq_none (by omega)]
  · simp [get, register, hk]

@[simp] theorem get_register_fresh (x : α) : (g.register k x).get k (g.fresh k) = some x := by
  simp [get_register]

theorem current_register (k' : κ) (x : α) :
    (g.register k x).current k' = if k' = k then some (g.fresh k) else g.current k' := by
  simp [register, Function.update_apply]

@[simp] theorem get_delete (k' : κ) (n : Nat) : (g.delete k).get k' n = g.get k' n := rfl

theorem current_delete (k' : κ) :
    (g.delete k).current k' = if k' = k then none else g.current k' := by
  simp [delete, Function.update_apply]

theorem get_modify (k' : κ) (n n' : Nat) (f : α → α) :
    (g.modify k n f).get k' n' = if k' = k ∧ n' = n then (g.get k n).map f else g.get k' n' := by
  by_cases hk : k' = k
  · subst hk
    simp only [get, modify]
    by_cases hn : n' = n
    · subst hn
      simp
    · simp [hn, Ne.symm hn]
  · simp [get, modify, hk]

@[simp] theorem current_modify (n : Nat) (f : α → α) : (g.modify k n f).current = g.current := rfl

end

/-- A record that was there is still there, under the same reference. -/
theorem get_register_of_get {g : Registry κ α} {k k' : κ} {x y : α} {n : Nat}
    (h : g.get k' n = some y) : (g.register k x).get k' n = some y := by
  rw [get_register, if_neg, h]
  rintro ⟨rfl, rfl⟩
  simp at h

end Registry
