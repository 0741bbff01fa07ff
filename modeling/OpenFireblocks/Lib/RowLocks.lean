import OpenFireblocks.Lib.Threads

/-!
# Locks on rows

Threads that lock a row before they rely on what it holds. The shared state says which rows are
locked; which thread holds a lock is known to that thread only.

`Locking.Steps` is what there is to show of one step: a thread takes only locks that are free, and
leaves the rows alone that others hold. It follows that no two threads hold one row, and that what
a thread relies on stays true while it holds the lock (`Locking.Steps.holds`).
-/

namespace Threads

variable {σ ℓ κ : Type}

structure Locking (σ ℓ κ : Type) where
  locked : σ → κ → Prop
  holds : ℓ → κ → Prop
  /-- what a thread relies on about a row it holds -/
  relies : σ → ℓ → κ → Prop

def Locking.outline (L : Locking σ ℓ κ) : Outline σ ℓ where
  shared := fun _ => True
  thread := fun x m => ∀ k, L.holds m k → L.locked x k ∧ L.relies x m k
  pair := fun m n => ∀ k, ¬(L.holds m k ∧ L.holds n k)
  pair_symm := fun h k hmn => h k hmn.symm

/-- A step of one thread, from `x` and `l` to `y` and `l'`. -/
structure Locking.Steps (L : Locking σ ℓ κ) (x : σ) (l : Option ℓ) (y : σ) (l' : Option ℓ) :
    Prop where
  own : ∀ m k, l' = some m → L.holds m k → L.locked y k ∧ L.relies y m k
  others : ∀ m k, (∀ n, l = some n → ¬L.holds n k) → L.locked x k → L.relies x m k →
    L.locked y k ∧ L.relies y m k
  acquire : ∀ m k, l' = some m → L.holds m k → (∃ n, l = some n ∧ L.holds n k) ∨ ¬L.locked x k

theorem Locking.Steps.holds {L : Locking σ ℓ κ} {s : System σ ℓ} {i : Nat} {x : σ}
    {l : Option ℓ} (hs : L.outline.Holds s) (h : L.Steps s.shared (s.threads i) x l) :
    L.outline.Holds ⟨x, Function.update s.threads i l⟩ := by
  refine hs.step (fun hpair => hpair) trivial (fun m hm k => h.own m k hm) ?_ ?_
  · intro j m hj hm k hk
    obtain ⟨hlocked, hrelies⟩ := hs.thread hm k hk
    exact h.others m k (fun n hn hnk => hs.pair hj hm hn k ⟨hk, hnk⟩) hlocked hrelies
  · rintro m hm j n hj hn k ⟨hmk, hnk⟩
    rcases h.acquire m k hm hmk with ⟨o, ho, hok⟩ | hfree
    · exact hs.pair hj hn ho k ⟨hnk, hok⟩
    · exact hfree (hs.thread hn k hnk).1

end Threads
