/-!
# Readers of a serialised format

A reader takes the symbols it wants from the front of a list and leaves the rest. `Reads r enc a`
says that `r` reads `a` off `enc` whatever follows, and takes all of `enc`. These facts compose:
the rules below follow the shape of the reader.
-/

/-- Takes a value off the front of a list of symbols, or fails. -/
abbrev Reader (σ α : Type) := StateT (List σ) Option α

namespace Reader

variable {σ α β : Type}

/-- The next symbol. -/
def item : Reader σ σ
  | [] => none
  | c :: rest => some (c, rest)

/-- The next `n` symbols. -/
def exactly (n : Nat) : Reader σ (List σ) := fun s =>
  if n ≤ s.length then some (s.take n, s.drop n) else none

/-- `n` values, one after the other. -/
def many (r : Reader σ α) : Nat → Reader σ (List α)
  | 0 => pure []
  | n + 1 => do
    let a ← r
    let as ← many r n
    return a :: as

/-- `r` reads `a` off `enc`, and nothing more than `enc`. -/
def Reads (r : Reader σ α) (enc : List σ) (a : α) : Prop :=
  ∀ rest, r.run (enc ++ rest) = some (a, rest)

variable {r : Reader σ α} {enc : List σ}

theorem Reads.run_eq {a : α} (h : Reads r enc a) : r.run enc = some (a, []) := by
  simpa using h []

theorem reads_pure (a : α) : Reads (pure a : Reader σ α) [] a := fun _ => rfl

theorem Reads.bind {f : α → Reader σ β} {enc' : List σ} {a : α} {b : β} (h : Reads r enc a)
    (h' : Reads (f a) enc' b) : Reads (r >>= f) (enc ++ enc') b := by
  intro rest
  rw [StateT.run_bind, List.append_assoc, h]
  exact h' rest

theorem Reads.map {a : α} (f : α → β) (h : Reads r enc a) :
    Reads (do let a ← r; return f a) enc (f a) := by
  have := h.bind (f := fun a => (pure (f a) : Reader σ β)) (reads_pure (f a))
  rwa [List.append_nil] at this

theorem reads_item (c : σ) : Reads item [c] c := fun _ => rfl

theorem reads_exactly {n : Nat} (h : enc.length = n) : Reads (exactly n) enc enc := by
  intro rest
  subst h
  show (if _ then _ else _) = _
  rw [if_pos (by simp), List.take_left, List.drop_left]

theorem Reads.many {γ : Type} {enc : γ → List σ} {val : γ → α} {xs : List γ}
    (h : ∀ x ∈ xs, Reads r (enc x) (val x)) :
    Reads (many r xs.length) (xs.flatMap enc) (xs.map val) := by
  induction xs with
  | nil => exact reads_pure []
  | cons x xs ih =>
    refine (h x List.mem_cons_self).bind ?_
    exact (ih fun y hy => h y (List.mem_cons_of_mem x hy)).map (val x :: ·)

end Reader
