/-!
# Runs of a machine

A machine is a partial function `step` that takes a state and an event. What several parties do
at the same time is one list of events, in some order; a theorem about every list is a theorem
about every interleaving.

`Guarded G` says of a list of events that each one meets a condition at the moment it happens.
-/

namespace Machine

variable {σ ε : Type} (step : σ → ε → Option σ)

/-- The state after these events. -/
def run (s : σ) : List ε → Option σ
  | [] => some s
  | e :: es => (step s e).bind fun t => run t es

/-- Every event meets `G` in the state it happens in. -/
def Guarded (G : σ → ε → Prop) (s : σ) : List ε → Prop
  | [] => True
  | e :: es => G s e ∧ ∀ t, step s e = some t → Guarded G t es

variable {step}

variable {s : σ} {es : List ε}

variable {t : σ}

theorem run_cons_eq_some {e : ε} :
    run step s (e :: es) = some t ↔ ∃ u, step s e = some u ∧ run step u es = some t :=
  Option.bind_eq_some_iff

variable (step) in
/-- These events can happen, one after the other. -/
def CanRun (s : σ) (es : List ε) : Prop := ∃ t, run step s es = some t

variable {G : σ → ε → Prop}

theorem guarded_of_forall (h : ∀ e ∈ es, ∀ s, G s e) : Guarded step G s es := by
  induction es generalizing s with
  | nil => exact trivial
  | cons e es ih =>
    exact ⟨h e List.mem_cons_self s, fun t _ => ih fun f hf => h f (List.mem_cons_of_mem e hf)⟩

theorem Guarded.and_forall {p : ε → Prop} (h : Guarded step G s es) (hp : ∀ e ∈ es, p e) :
    Guarded step (fun s e => G s e ∧ p e) s es := by
  induction es generalizing s with
  | nil => exact trivial
  | cons e es ih =>
    exact ⟨⟨h.1, hp e List.mem_cons_self⟩,
      fun t ht => ih (h.2 t ht) fun f hf => hp f (List.mem_cons_of_mem e hf)⟩

theorem Guarded.append {fs : List ε} (h : Guarded step G s (es ++ fs)) :
    Guarded step G s es ∧ ∀ t, run step s es = some t → Guarded step G t fs := by
  induction es generalizing s with
  | nil =>
    refine ⟨trivial, fun t ht => ?_⟩
    cases ht
    exact h
  | cons e es ih =>
    refine ⟨⟨h.1, fun u hu => (ih (h.2 u hu)).1⟩, fun t ht => ?_⟩
    obtain ⟨u, hu, ht⟩ := run_cons_eq_some.mp ht
    exact (ih (h.2 u hu)).2 t ht

theorem run_guarded_invariant {P : σ → Prop}
    (hstep : ∀ {s t : σ} {e : ε}, P s → G s e → step s e = some t → P t) (hs : P s)
    (hG : Guarded step G s es) (h : run step s es = some t) : P t := by
  induction es generalizing s with
  | nil =>
    cases h
    exact hs
  | cons e es ih =>
    obtain ⟨u, hu, h⟩ := run_cons_eq_some.mp h
    exact ih (hstep hs hG.1 hu) (hG.2 u hu) h

theorem Guarded.and {H : σ → ε → Prop} (hG : Guarded step G s es) (hH : Guarded step H s es) :
    Guarded step (fun s e => G s e ∧ H s e) s es := by
  induction es generalizing s with
  | nil => exact trivial
  | cons e es ih => exact ⟨⟨hG.1, hH.1⟩, fun t ht => ih (hG.2 t ht) (hH.2 t ht)⟩

theorem guarded_cons {e : ε} (hstep : step s e = some t) (he : G s e) (h : Guarded step G t es) :
    Guarded step G s (e :: es) := by
  refine ⟨he, fun u hu => ?_⟩
  rw [hstep] at hu
  cases hu
  exact h

/-- Whether a run is guarded can be computed along the run. -/
instance instDecidableGuarded {G : σ → ε → Prop} [∀ s e, Decidable (G s e)] :
    ∀ (s : σ) (es : List ε), Decidable (Guarded step G s es)
  | _, [] => isTrue trivial
  | s, e :: es =>
    match hstep : step s e with
    | none =>
      decidable_of_iff (G s e) ⟨fun h => ⟨h, fun t ht => by rw [hstep] at ht; cases ht⟩, And.left⟩
    | some t =>
      have : Decidable (Guarded step G t es) := instDecidableGuarded t es
      decidable_of_iff (G s e ∧ Guarded step G t es)
        ⟨fun h => guarded_cons hstep h.1 h.2, fun h => ⟨h.1, h.2 t hstep⟩⟩

end Machine
