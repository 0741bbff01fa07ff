import Mathlib.Algebra.Order.BigOperators.Group.List
import Mathlib.Data.Fintype.BigOperators

/-!
# Sums over the rows of a table

A table is a list, and a row is at a place in it. The sum of a nonnegative weight over some of the
rows, each counted at most once, is at most the sum over all of them.
-/

namespace Sums

variable {α M : Type} [AddCommMonoid M]

variable {xs : List α}

theorem count_flatMap_filter {β : Type} [DecidableEq β] {f : α → List β} {p : α → Bool} {x : β}
    (h : ∀ a ∈ xs, ¬ p a → x ∉ f a) :
    ((xs.filter p).flatMap f).count x = (xs.flatMap f).count x := by
  induction xs with
  | nil => rfl
  | cons a xs ih =>
    have ih := ih fun b hb => h b (List.mem_cons_of_mem a hb)
    rw [List.flatMap_cons, List.count_append]
    by_cases ha : p a
    · rw [List.filter_cons_of_pos ha, List.flatMap_cons, List.count_append, ih]
    rw [List.filter_cons_of_neg ha, ih, List.count_eq_zero.mpr (h a List.mem_cons_self ha),
      Nat.zero_add]

variable {n : Nat}

/-- One row changes, and none of the rows that count comes of one that does not. -/
theorem countP_modify_le {p : α → Bool} {f : α → α} (h : ∀ a, p (f a) → p a) :
    (xs.modify n f).countP p ≤ xs.countP p := by
  induction xs generalizing n with
  | nil => simp
  | cons a xs ih =>
    cases n with
    | zero =>
      rw [List.modify_zero_cons, List.countP_cons, List.countP_cons]
      by_cases hf : p (f a)
      · rw [if_pos hf, if_pos (h a hf)]
      rw [if_neg hf]
      omega
    | succ n =>
      rw [List.modify_succ_cons, List.countP_cons, List.countP_cons]
      exact Nat.add_le_add_right ih _

theorem mem_of_mem_modify {f : α → α} {x : α} (h : x ∈ xs.modify n f) :
    ∃ a ∈ xs, x = a ∨ x = f a := by
  induction xs generalizing n with
  | nil => simp at h
  | cons a xs ih =>
    cases n with
    | zero =>
      rcases List.mem_cons.mp h with rfl | h
      · exact ⟨a, List.mem_cons_self, .inr rfl⟩
      · exact ⟨x, List.mem_cons_of_mem a h, .inl rfl⟩
    | succ n =>
      rcases List.mem_cons.mp h with rfl | h
      · exact ⟨x, List.mem_cons_self, .inl rfl⟩
      obtain ⟨b, hb, hxb⟩ := ih h
      exact ⟨b, List.mem_cons_of_mem a hb, hxb⟩

def weightAt (f : α → M) (xs : List α) (k : Nat) : M := (xs[k]?.map f).getD 0

theorem map_weightAt_range (f : α → M) (xs : List α) :
    (List.range xs.length).map (weightAt f xs) = xs.map f := by
  refine List.ext_getElem (by simp) ?_
  intro k hk hk'
  simp only [List.length_map, List.length_range] at hk
  simp [weightAt, hk]

variable [PartialOrder M] [IsOrderedAddMonoid M] {f : α → M}

theorem sum_map_le_of_subperm {ys : List α} (h : xs.Subperm ys) (hf : ∀ y ∈ ys, 0 ≤ f y) :
    (xs.map f).sum ≤ (ys.map f).sum := by
  obtain ⟨zs, hperm, hsub⟩ := h
  rw [← (hperm.map f).sum_eq]
  refine (hsub.map f).sum_le_sum ?_
  intro y hy
  obtain ⟨x, hx, rfl⟩ := List.mem_map.mp hy
  exact hf x hx

/-- In a list that descends, the first elements weigh the most. -/
theorem sum_map_take_le_cons {x : α} (h : (x :: xs).Pairwise fun a b => f b ≤ f a)
    (hn : n ≤ xs.length) : ((xs.take n).map f).sum ≤ (((x :: xs).take n).map f).sum := by
  induction n generalizing x xs with
  | zero => simp
  | succ n ih =>
    obtain ⟨hx, hxs⟩ := List.pairwise_cons.mp h
    cases xs with
    | nil => simp at hn
    | cons y ys =>
      exact add_le_add (hx y List.mem_cons_self) (ih hxs (Nat.le_of_succ_le_succ hn))

theorem sum_map_le_take_of_subperm {ys : List α} (h : ys.Subperm xs)
    (hxs : xs.Pairwise fun a b => f b ≤ f a) :
    (ys.map f).sum ≤ ((xs.take ys.length).map f).sum := by
  obtain ⟨zs, hperm, hsub⟩ := h
  rw [← (hperm.map f).sum_eq, ← hperm.length_eq]
  clear hperm
  induction hsub with
  | slnil => simp
  | cons x hsub ih =>
    exact (ih (List.pairwise_cons.mp hxs).2).trans (sum_map_take_le_cons hxs hsub.length_le)
  | cons_cons x hsub ih =>
    exact add_le_add_right (ih (List.pairwise_cons.mp hxs).2) _

theorem sum_map_set_le {k : Nat} {x y : α} (hk : xs[k]? = some x) (hle : f y ≤ f x) :
    ((xs.set k y).map f).sum ≤ (xs.map f).sum := by
  induction xs generalizing k with
  | nil => simp at hk
  | cons z xs ih =>
    cases k with
    | zero =>
      obtain rfl : z = x := by simpa using hk
      exact add_le_add_left hle _
    | succ k =>
      exact add_le_add_right (ih (by simpa using hk)) _

theorem sum_map_getElem?_le {ks : List Nat} (hks : ks.Nodup) (hlt : ∀ k ∈ ks, k < xs.length)
    (hf : ∀ x ∈ xs, 0 ≤ f x) : (ks.map (weightAt f xs)).sum ≤ (xs.map f).sum := by
  rw [← map_weightAt_range f xs]
  refine sum_map_le_of_subperm (List.subperm_of_subset hks ?_) ?_
  · intro k hk
    exact List.mem_range.mpr (hlt k hk)
  · intro k hk
    have hk := List.mem_range.mp hk
    simp only [weightAt, List.getElem?_eq_getElem hk]
    exact hf _ (List.getElem_mem hk)

/-- One entry is overwritten: the sum loses the old one and gains the new one. -/
theorem sum_update_add {K V : Type} [Fintype K] [DecidableEq K] (w : V → Nat) (b : K → V) (k : K)
    (v : V) : (∑ i, w (Function.update b k v i)) + w (b k) = (∑ i, w (b i)) + w v := by
  have hupdate : ∀ i, w (Function.update b k v i) = Function.update (fun i => w (b i)) k (w v) i :=
    fun i => Function.apply_update (fun _ => w) b k v i
  simp only [hupdate]
  rw [Finset.sum_update_of_mem (Finset.mem_univ k), ← Finset.add_sum_erase _ _ (Finset.mem_univ k),
    Finset.sdiff_singleton_eq_erase]
  omega

end Sums
