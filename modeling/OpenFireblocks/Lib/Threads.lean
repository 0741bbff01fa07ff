import OpenFireblocks.Lib.Machine
import Mathlib.Logic.Function.Basic

/-!
# Threads over shared memory

Any number of threads, each with its own local state, take turns on one shared state. One step of
one thread is one critical section: it reads and writes the shared state and changes the local
state of that thread only.

* An `Outline` asserts something of the shared state, of each live thread, and of every two of them.
* `Outline.Holds.step` is the rule of interference freedom: the thread that moves establishes its
  own assertion, and what it does to the shared state keeps the assertion of each other thread.
* An `Exclusive` outline is about a section that one thread at a time is in, as the shared state
  records; `Exclusive.Steps` is what there is to show of one step.
-/

namespace Threads

/-- The shared state and the local state of every thread that is alive. -/
structure System (σ ℓ : Type) where
  shared : σ
  threads : Nat → Option ℓ

variable {σ ℓ α : Type} (next : σ → Option ℓ → α → Option (σ × Option ℓ))

/-- Thread `e.1` takes the step `e.2`. -/
def step (s : System σ ℓ) (e : Nat × α) : Option (System σ ℓ) :=
  (next s.shared (s.threads e.1) e.2).map fun r => ⟨r.1, Function.update s.threads e.1 r.2⟩

def System.idle (x : σ) : System σ ℓ := ⟨x, fun _ => none⟩

/-- Every live thread but `i` satisfies `p`. -/
def System.Others (s : System σ ℓ) (i : Nat) (p : ℓ → Prop) : Prop :=
  ∀ j m, j ≠ i → s.threads j = some m → p m

variable {next}

variable {s : System σ ℓ}

variable {i : Nat} {w : List α} {l : Option ℓ}

theorem step_eq_some {t : System σ ℓ} {a : α} :
    step next s (i, a) = some t ↔
      ∃ x l, next s.shared (s.threads i) a = some (x, l) ∧
        t = ⟨x, Function.update s.threads i l⟩ := by
  simp only [step, Option.map_eq_some_iff, Prod.exists]
  constructor
  · rintro ⟨x, l, h, rfl⟩
    exact ⟨x, l, h, rfl⟩
  · rintro ⟨x, l, h, rfl⟩
    exact ⟨x, l, h, rfl⟩

/-- One thread moves and the others stand still. -/
theorem run_map_thread :
    Machine.run (step next) s (w.map (Prod.mk i)) =
      (Machine.run (fun p => next p.1 p.2) (s.shared, s.threads i) w).map fun p =>
        ⟨p.1, Function.update s.threads i p.2⟩ := by
  induction w generalizing s with
  | nil => simp [Machine.run]
  | cons a w ih =>
    simp only [List.map_cons, Machine.run, step]
    cases next s.shared (s.threads i) a with
    | none => rfl
    | some r => simp [ih]

/-- While only thread `i` moves, the others stay idle. -/
theorem alone_of_run {t : System σ ℓ} (hs : ∀ j, j ≠ i → s.threads j = none)
    (h : Machine.run (step next) s (w.map (Prod.mk i)) = some t) :
    ∀ j, j ≠ i → t.threads j = none := by
  rw [run_map_thread, Option.map_eq_some_iff] at h
  obtain ⟨p, _, rfl⟩ := h
  intro j hj
  exact (Function.update_of_ne hj ..).trans (hs j hj)

/-- A condition that holds while only thread `i` is alive. -/
theorem guarded_of_alone {G : System σ ℓ → Nat × α → Prop} (hs : ∀ j, j ≠ i → s.threads j = none)
    (h : ∀ u, ∀ a ∈ w, (∀ j, j ≠ i → u.threads j = none) → G u (i, a)) :
    Machine.Guarded (step next) G s (w.map (Prod.mk i)) := by
  induction w generalizing s with
  | nil => exact trivial
  | cons a w ih =>
    refine ⟨h s a List.mem_cons_self hs, fun t ht => ih ?_ fun u b hb => h u b (.tail _ hb)⟩
    have hrun : Machine.run (step next) s ([a].map (Prod.mk i)) = some t :=
      Machine.run_cons_eq_some.mpr ⟨t, ht, rfl⟩
    exact alone_of_run hs hrun

/-- A thread that is alive after a step is the one that moved, or was alive before. -/
theorem update_eq_some {threads : Nat → Option ℓ} {j : Nat} {m : ℓ}
    (h : Function.update threads i l j = some m) :
    (j = i ∧ l = some m) ∨ (j ≠ i ∧ threads j = some m) := by
  by_cases hj : j = i
  · subst hj
    rw [Function.update_self] at h
    exact .inl ⟨rfl, h⟩
  · rw [Function.update_of_ne hj] at h
    exact .inr ⟨hj, h⟩

/-- What is asserted of the shared state, of a live thread and of two of them. -/
structure Outline (σ ℓ : Type) where
  shared : σ → Prop
  thread : σ → ℓ → Prop
  pair : ℓ → ℓ → Prop
  pair_symm : ∀ {m n}, pair m n → pair n m

structure Outline.Holds (O : Outline σ ℓ) (s : System σ ℓ) : Prop where
  shared : O.shared s.shared
  thread : ∀ {i m}, s.threads i = some m → O.thread s.shared m
  pair : ∀ {i j m n}, i ≠ j → s.threads i = some m → s.threads j = some n → O.pair m n

/-- With no thread alive there is only the shared state to look at. -/
theorem Outline.holds_idle {O : Outline σ ℓ} {x : σ} (h : O.shared x) :
    O.Holds (System.idle x) where
  shared := h
  thread := by
    intro i m hm
    cases hm
  pair := by
    intro i j m n _ hm
    cases hm

/--
**One step keeps the assertions.** `O'` may assert something else than `O` of the shared state and
of the threads, as long as the two agree on pairs.
-/
theorem Outline.Holds.step {O O' : Outline σ ℓ} {x : σ} (hs : O.Holds s)
    (hpair : ∀ {m n}, O.pair m n → O'.pair m n) (hshared : O'.shared x)
    (hown : ∀ m, l = some m → O'.thread x m) (hothers : s.Others i (O'.thread x))
    (hnew : ∀ m, l = some m → s.Others i (O'.pair m)) :
    O'.Holds ⟨x, Function.update s.threads i l⟩ where
  shared := hshared
  thread := by
    intro j m hm
    rcases update_eq_some hm with ⟨_, hl⟩ | ⟨hj, hm⟩
    · exact hown m hl
    · exact hothers j m hj hm
  pair := by
    intro j k m n hjk hm hn
    rcases update_eq_some hm with ⟨rfl, hl⟩ | ⟨hj, hm'⟩
    · rcases update_eq_some hn with ⟨rfl, _⟩ | ⟨hk, hn'⟩
      · exact absurd rfl hjk
      · exact hnew m hl k n hk hn'
    · rcases update_eq_some hn with ⟨rfl, hl⟩ | ⟨_, hn'⟩
      · exact O'.pair_symm (hnew n hl j m hj hm')
      · exact hpair (hs.pair hjk hm' hn')

/-- What is asserted when one thread at a time is in a section. -/
structure Exclusive (σ ℓ : Type) where
  shared : σ → Prop
  thread : σ → ℓ → Prop
  /-- the thread is in the section -/
  Inside : ℓ → Prop
  /-- somebody is in the section -/
  taken : σ → Prop
  taken_of_inside : ∀ {x m}, thread x m → Inside m → taken x

def Exclusive.outline (X : Exclusive σ ℓ) : Outline σ ℓ where
  shared := X.shared
  thread := X.thread
  pair := fun m n => ¬ (X.Inside m ∧ X.Inside n)
  pair_symm := fun h hmn => h ⟨hmn.2, hmn.1⟩

/-- A step of one thread, seen by the shared state and by the other threads. A thread enters the
section only when nobody is in it, and while one is in it the others are not. -/
structure Exclusive.Steps (X : Exclusive σ ℓ) (x : σ) (l : Option ℓ) (y : σ) (l' : Option ℓ) :
    Prop where
  shared : X.shared y
  own : ∀ m, l' = some m → X.thread y m
  others : ∀ m, X.thread x m → (∀ n, l = some n → X.Inside n → ¬ X.Inside m) → X.thread y m
  enter : ∀ m, l' = some m → X.Inside m → (∃ n, l = some n ∧ X.Inside n) ∨ ¬ X.taken x

theorem Exclusive.Steps.holds {X : Exclusive σ ℓ} {x : σ} (hs : X.outline.Holds s)
    (h : X.Steps s.shared (s.threads i) x l) :
    X.outline.Holds ⟨x, Function.update s.threads i l⟩ := by
  refine hs.step (fun hpair => hpair) h.shared h.own ?_ ?_
  · intro j m hj hm
    exact h.others m (hs.thread hm) fun n hn hin hin' => hs.pair hj hm hn ⟨hin', hin⟩
  · rintro m hm j n hj hn ⟨hin, hin'⟩
    rcases h.enter m hm hin with ⟨k, hk, hk'⟩ | hfree
    · exact hs.pair hj hn hk ⟨hin', hk'⟩
    · exact hfree (X.taken_of_inside (hs.thread hn) hin')

end Threads
