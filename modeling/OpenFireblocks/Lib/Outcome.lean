/-!
# Computations that may fail

Sequencing in `Except ε`, one lemma in each direction. A proof about a `do` block takes it apart
with `bind_eq_ok` and never looks at how `bind` is defined.
-/

namespace Outcome

variable {ε α β : Type}

variable {f : α → Except ε β}

/-- A sequence of two computations returns a value exactly when both do. -/
theorem bind_eq_ok {x : Except ε α} {r : β} : x >>= f = .ok r ↔ ∃ a, x = .ok a ∧ f a = .ok r := by
  cases x with
  | error e | ok a => simp [Bind.bind, Except.bind]

theorem ite_error_eq_ok {p : Prop} [Decidable p] {e : ε} {x : Except ε α} {a : α} :
    (if p then .error e else x) = .ok a ↔ ¬p ∧ x = .ok a := by
  by_cases h : p <;> simp [h]

@[simp] theorem ok_bind (a : α) (f : α → Except ε β) : (.ok a : Except ε α) >>= f = f a := rfl

theorem mem_mapM_eq_ok :
    ∀ {xs : List α} {ys : List β}, xs.mapM f = .ok ys → ∀ y, y ∈ ys ↔ ∃ x ∈ xs, f x = .ok y
  | [], ys, h, y => by
    obtain rfl : [] = ys := Except.ok.inj h
    simp
  | x :: xs, ys, h, y => by
    rw [List.mapM_cons] at h
    obtain ⟨first, hfirst, h⟩ := bind_eq_ok.mp h
    obtain ⟨rest, hrest, h⟩ := bind_eq_ok.mp h
    obtain rfl : first :: rest = ys := Except.ok.inj h
    rw [List.mem_cons, mem_mapM_eq_ok hrest]
    constructor
    · rintro (rfl | ⟨z, hz, hy⟩)
      · exact ⟨x, List.mem_cons_self, hfirst⟩
      · exact ⟨z, List.mem_cons_of_mem x hz, hy⟩
    · rintro ⟨z, hz, hy⟩
      rcases List.mem_cons.mp hz with rfl | hz
      · exact .inl (Except.ok.inj (hy.symm.trans hfirst))
      · exact .inr ⟨z, hz, hy⟩

theorem exists_mapM_eq_ok :
    ∀ {xs : List α}, (∃ ys, xs.mapM f = .ok ys) ↔ ∀ x ∈ xs, ∃ y, f x = .ok y
  | [] => ⟨fun _ => List.forall_mem_nil _, fun _ => ⟨[], rfl⟩⟩
  | x :: xs => by
    rw [List.forall_mem_cons, ← exists_mapM_eq_ok, List.mapM_cons]
    constructor
    · rintro ⟨ys, h⟩
      obtain ⟨y, hy, h⟩ := bind_eq_ok.mp h
      obtain ⟨rest, hrest, -⟩ := bind_eq_ok.mp h
      exact ⟨⟨y, hy⟩, rest, hrest⟩
    · rintro ⟨⟨y, hy⟩, rest, hrest⟩
      exact ⟨y :: rest, by rw [hy, hrest]; rfl⟩

end Outcome
