import OpenFireblocks.Lib.Threads
import OpenFireblocks.Party.Manager

/-!
# Signing sessions of one party

`StartSigning` puts a new session under the sign id, whatever is there, and starts a run. The run
holds its own session when it succeeds. When it fails, `failSigning` takes the session that the id
names at that moment; a message is handed to the session that the id names too.

A session is numbered by the order of the calls under its sign id. The run it starts and the
messages that the other parties send in that round have the same number. A retried activity makes two
calls under one sign id (`signing_disturbed`).
-/

namespace OpenFireblocks.Party

open Machine Threads

/-- What a `tssSigningCeremony` reports, and who has written to it. -/
structure Session where
  status : CeremonyStatus := .inProgress
  errorMessage : String := ""
  signature : String := ""
  /-- `localParty` is set. -/
  ready : Bool := false
  /-- The runs that have written the status. -/
  writers : List Nat := []
  /-- The rounds of the messages that its local party was given. -/
  heard : List Nat := []

/-- Where a goroutine or handler stands. -/
inductive SessionTask where
  /-- `runSigning` of run `k`, about to publish the local party. -/
  | run (signID : String) (k : Nat)
  /-- `driveSigning` of run `k`. -/
  | drive (signID : String) (k : Nat)
  /-- `failSigning`, called by run `k`, about to look the sign id up, and with what it found. -/
  | failing (signID : String) (k : Nat) (msg : String)
  | failed (signID : String) (k found : Nat) (msg : String)
  /-- `HandleIncomingSignMessage`, with the session it found. -/
  | hearing (signID : String) (found round : Nat)

def SessionTask.runs : SessionTask → Option String
  | .run signID _ | .drive signID _ | .failing signID _ _ | .failed signID _ _ _ => some signID
  | .hearing _ _ _ => none

inductive SessionLabel where
  /-- `StartSigning`, accepted. -/
  | startSigning (signID : String)
  /-- A message of some round arrives. -/
  | message (signID : String) (round : Nat)
  /-- The task takes its next lock. -/
  | advance
  /-- The run fails: its party does not start, the relay or the protocol reports an error. -/
  | fail (msg : String)
  | signed (signature : String)

namespace Session

def complete (k : Nat) (signature : String) (x : Session) : Session :=
  { x with status := .completed, signature, writers := x.writers ++ [k] }

def failBy (k : Nat) (msg : String) (x : Session) : Session :=
  { x with status := .failed, errorMessage := msg, writers := x.writers ++ [k] }

/-- `UpdateFromBytes`, once `localParty` is set. -/
def hear (round : Nat) (x : Session) : Session :=
  if x.ready then { x with heard := x.heard ++ [round] } else x

section

variable (g : Registry String Session)

/-- One critical section. -/
def next : Option SessionTask → SessionLabel → Option (Registry String Session × Option SessionTask)
  | none, .startSigning signID => some (g.register signID {}, some (.run signID (g.fresh signID)))
  | none, .message signID round =>
    match g.current signID with
    | none => some (g, none)
    | some found => some (g, some (.hearing signID found round))
  | some (.hearing signID found round), .advance => some (g.modify signID found (hear round), none)
  | some (.run signID k), .advance =>
    some (g.modify signID k ({ · with ready := true }), some (.drive signID k))
  | some (.run signID k), .fail msg | some (.drive signID k), .fail msg =>
    some (g, some (.failing signID k msg))
  | some (.drive signID k), .signed signature =>
    some (g.modify signID k (complete k signature), none)
  | some (.failing signID k msg), .advance =>
    match g.current signID with
    | none => some (g, none)
    | some found => some (g, some (.failed signID k found msg))
  | some (.failed signID k found msg), .advance =>
    some (g.modify signID found (failBy k msg), none)
  | _, _ => none

abbrev State := System (Registry String Session) SessionTask

abbrev step (s : State) (e : Nat × SessionLabel) : Option State := Threads.step next s e

def start : State := .idle .empty

/-! ## The statement -/

/-- A sign id is used again only when no run under it is going on, and from then on no message of an
earlier round comes. -/
def InTurn (s : State) (e : Nat × SessionLabel) : Prop :=
  match e.2 with
  | .startSigning signID => ∀ j t, s.threads j = some t → t.runs ≠ some signID
  | .message signID round => ∀ k, s.shared.current signID = some k → k ≤ round
  | _ => True

/-- Every session is written by its own run and has heard no message of an earlier round. -/
def Isolated : Prop :=
  ∀ signID k x, g.get signID k = some x → (∀ r ∈ x.writers, r = k) ∧ ∀ r ∈ x.heard, k ≤ r

/-- What is completed in `g` is completed in `g'`, with its signature. -/
def KeepsCompleted (g' : Registry String Session) : Prop :=
  ∀ signID k x, g.get signID k = some x → x.status = .completed →
    ∃ y, g'.get signID k = some y ∧ y.status = .completed ∧ y.signature = x.signature

/-! ## What a step keeps -/

/-- Run `k` is going on: its session is the one that the sign id names, and is not completed. -/
def Running (signID : String) (k : Nat) : Prop :=
  g.current signID = some k ∧ ∃ x, g.get signID k = some x ∧ x.status ≠ .completed

def Fits : SessionTask → Prop
  | .run signID k | .drive signID k | .failing signID k _ => Running g signID k
  | .failed signID k found _ => Running g signID k ∧ found = k
  | .hearing _ found round => found ≤ round

end

def sessionOutline : Outline (Registry String Session) SessionTask where
  shared := Isolated
  thread := Fits
  pair := fun t u => ∀ signID, t.runs = some signID → u.runs ≠ some signID
  pair_symm := fun h signID hu ht => h signID ht hu

variable {g : Registry String Session} {signID : String} {k : Nat} {f : Session → Session}

theorem Running.modify {signID' : String} {k' : Nat} (h : Running g signID k)
    (hf : signID ≠ signID' ∨ ∀ x, (f x).status = x.status) :
    Running (g.modify signID' k' f) signID k := by
  obtain ⟨hcur, x, hx, hstatus⟩ := h
  refine ⟨hcur, ?_⟩
  rw [Registry.get_modify]
  split
  · next he =>
    obtain ⟨rfl, rfl⟩ := he
    exact ⟨f x, by rw [hx]; rfl, (hf.resolve_left (not_not.mpr rfl) x).symm ▸ hstatus⟩
  · exact ⟨x, hx, hstatus⟩

theorem Fits.modify {t : SessionTask} (h : Fits g t)
    (hf : t.runs ≠ some signID ∨ ∀ x, (f x).status = x.status) : Fits (g.modify signID k f) t := by
  have hne : ∀ {id}, t.runs = some id → (t.runs ≠ some signID ∨ ∀ x, (f x).status = x.status) →
      id ≠ signID ∨ ∀ x, (f x).status = x.status :=
    fun hid hf => hf.imp_left fun hn he => hn (he ▸ hid)
  cases t with
  | run | drive | failing => exact Running.modify h (hne rfl hf)
  | failed => exact ⟨Running.modify h.1 (hne rfl hf), h.2⟩
  | hearing => exact h

variable {x : Session}

theorem Running.register {signID' : String} (h : Running g signID k) (hne : signID ≠ signID') :
    Running (g.register signID' x) signID k := by
  obtain ⟨hcur, y, hy, hstatus⟩ := h
  refine ⟨?_, y, Registry.get_register_of_get hy, hstatus⟩
  rw [Registry.current_register, if_neg hne, hcur]

theorem Fits.register {t : SessionTask} (h : Fits g t) (hne : t.runs ≠ some signID) :
    Fits (g.register signID x) t := by
  have hne' : ∀ {id}, t.runs = some id → id ≠ signID := fun hid he => hne (he ▸ hid)
  cases t with
  | run | drive | failing => exact Running.register h (hne' rfl)
  | failed => exact ⟨Running.register h.1 (hne' rfl), h.2⟩
  | hearing => exact h

theorem Isolated.modify (h : Isolated g)
    (hf : ∀ x, (∀ r ∈ x.writers, r = k) ∧ (∀ r ∈ x.heard, k ≤ r) →
      (∀ r ∈ (f x).writers, r = k) ∧ ∀ r ∈ (f x).heard, k ≤ r) :
    Isolated (g.modify signID k f) := by
  intro id n y hy
  rw [Registry.get_modify] at hy
  split at hy
  · next he =>
    obtain ⟨rfl, rfl⟩ := he
    obtain ⟨x, hx, rfl⟩ := Option.map_eq_some_iff.mp hy
    exact hf x (h _ _ x hx)
  · exact h id n y hy

theorem KeepsCompleted.refl : KeepsCompleted g g := fun _ _ x hx hdone => ⟨x, hx, hdone, rfl⟩

theorem KeepsCompleted.modify (hf : ∀ x, g.get signID k = some x → x.status = .completed →
      (f x).status = .completed ∧ (f x).signature = x.signature) :
    KeepsCompleted g (g.modify signID k f) := by
  intro id n x hx hdone
  rw [Registry.get_modify]
  split
  · next he =>
    obtain ⟨rfl, rfl⟩ := he
    exact ⟨f x, by rw [hx]; rfl, hf x hx hdone⟩
  · exact ⟨x, hx, hdone, rfl⟩

theorem Running.keepsCompleted (h : Running g signID k) : KeepsCompleted g (g.modify signID k f) := by
  obtain ⟨-, y, hy, hstatus⟩ := h
  exact .modify fun x hx hdone => absurd (Option.mem_unique hy hx ▸ hdone) hstatus

variable {s t : State} {i : Nat}

theorem holds_moved {old : SessionTask} {g' : Registry String Session} {new : Option SessionTask}
    (hs : sessionOutline.Holds s) (hi : s.threads i = some old) (hshared : Isolated g')
    (hown : ∀ u, new = some u → Fits g' u ∧ u.runs = old.runs)
    (hothers : ∀ u, Fits s.shared u → (∀ id, u.runs = some id → old.runs ≠ some id) → Fits g' u) :
    sessionOutline.Holds ⟨g', Function.update s.threads i new⟩ := by
  refine hs.step (fun h => h) hshared (fun u hu => (hown u hu).1) ?_ ?_
  · intro j u hj hu
    exact hothers u (hs.thread hu) (hs.pair hj hu hi)
  · intro u hu j v hj hv signID hid
    exact hs.pair (Ne.symm hj) hi hv signID ((hown u hu).2 ▸ hid)

/-- **A write of a run to its own session.** -/
theorem holds_written {old : SessionTask} {new : Option SessionTask}
    (hs : sessionOutline.Holds s) (hi : s.threads i = some old) (hruns : old.runs = some signID)
    (hf : ∀ x, (∀ r ∈ x.writers, r = k) ∧ (∀ r ∈ x.heard, k ≤ r) →
      (∀ r ∈ (f x).writers, r = k) ∧ ∀ r ∈ (f x).heard, k ≤ r)
    (hown : ∀ u, new = some u → Fits (s.shared.modify signID k f) u ∧ u.runs = old.runs) :
    sessionOutline.Holds ⟨s.shared.modify signID k f, Function.update s.threads i new⟩ :=
  holds_moved hs hi (hs.shared.modify hf) hown fun _ hu hne =>
    hu.modify (.inl fun hid => hne signID hid hruns)

theorem writers_append (h : (∀ r ∈ x.writers, r = k) ∧ ∀ r ∈ x.heard, k ≤ r) :
    (∀ r ∈ x.writers ++ [k], r = k) ∧ ∀ r ∈ x.heard, k ≤ r := by
  refine ⟨fun r hr => ?_, h.2⟩
  rcases List.mem_append.mp hr with hr | hr
  · exact h.1 r hr
  · exact List.mem_singleton.mp hr

/-- **One step.** -/
theorem holds_step {e : Nat × SessionLabel} (hs : sessionOutline.Holds s) (hturn : InTurn s e)
    (h : step s e = some t) : sessionOutline.Holds t ∧ KeepsCompleted s.shared t.shared := by
  obtain ⟨i, label⟩ := e
  obtain ⟨g', new, hnext, rfl⟩ := step_eq_some.mp h
  have keep : ∀ {old}, s.threads i = some old → ∀ {new},
      (∀ u, new = some u → Fits s.shared u ∧ u.runs = old.runs) →
      sessionOutline.Holds ⟨s.shared, Function.update s.threads i new⟩ ∧
        KeepsCompleted s.shared s.shared :=
    fun hi _ hown => ⟨holds_moved hs hi hs.shared hown fun _ hu _ => hu, .refl⟩
  generalize htask : s.threads i = task at hnext
  unfold next at hnext
  split at hnext
  -- a call of `StartSigning`
  case h_1 signID =>
    cases hnext
    refine ⟨hs.step (fun h => h) ?_ ?_ ?_ ?_, ?_⟩
    · intro id n x hx
      rw [Registry.get_register] at hx
      split at hx
      · cases hx
        exact ⟨nofun, nofun⟩
      · exact hs.shared id n x hx
    · rintro u ⟨⟩
      refine ⟨?_, {}, Registry.get_register_fresh .., nofun⟩
      rw [Registry.current_register, if_pos rfl]
    · exact fun j u _ hu => (hs.thread hu).register (hturn j u hu)
    · rintro u ⟨⟩ j v _ hv id ⟨⟩
      exact hturn j v hv
    · exact fun id n x hx hdone => ⟨x, Registry.get_register_of_get hx, hdone, rfl⟩
  -- a message
  case h_2 signID round =>
    refine ⟨?_, ?_⟩
    · split at hnext
      · cases hnext
        exact hs.step (fun h => h) hs.shared nofun (fun j u _ hu => hs.thread hu) nofun
      · next found hcur =>
        cases hnext
        refine hs.step (fun h => h) hs.shared ?_ (fun j u _ hu => hs.thread hu) ?_
        · rintro u ⟨⟩
          exact hturn found hcur
        · rintro u ⟨⟩ j v _ _ id ⟨⟩
    · split at hnext <;> cases hnext <;> exact .refl
  case h_3 signID found round =>
    cases hnext
    have hfits : found ≤ round := hs.thread htask
    have hstatus : ∀ x, (hear round x).status = x.status := fun x => by unfold hear; split <;> rfl
    refine ⟨holds_moved hs htask (hs.shared.modify fun x hx => ?_) nofun
      fun _ hu _ => hu.modify (.inr hstatus), .modify fun x _ hdone => ?_⟩
    · unfold hear
      split
      · refine ⟨hx.1, fun r hr => ?_⟩
        rcases List.mem_append.mp hr with hr | hr
        · exact hx.2 r hr
        · exact List.mem_singleton.mp hr ▸ hfits
      · exact hx
    · refine ⟨(hstatus x).trans hdone, ?_⟩
      unfold hear
      split <;> rfl
  case h_4 signID k =>
    cases hnext
    have hrun : Running s.shared signID k := hs.thread htask
    refine ⟨holds_written hs htask rfl (fun x hx => hx) ?_, hrun.keepsCompleted⟩
    rintro u ⟨⟩
    exact ⟨hrun.modify (.inr fun _ => rfl), rfl⟩
  case h_5 | h_6 =>
    cases hnext
    refine keep htask ?_
    rintro u ⟨⟩
    exact ⟨hs.thread htask, rfl⟩
  case h_7 signID k signature =>
    cases hnext
    have hrun : Running s.shared signID k := hs.thread htask
    exact ⟨holds_written hs htask rfl (fun x hx => writers_append hx) nofun, hrun.keepsCompleted⟩
  -- `failSigning` finds the session of its own run
  case h_8 signID k msg =>
    have hrun : Running s.shared signID k := hs.thread htask
    rw [hrun.1] at hnext
    cases hnext
    refine keep htask ?_
    rintro u ⟨⟩
    exact ⟨⟨hrun, rfl⟩, rfl⟩
  case h_9 signID k found msg =>
    cases hnext
    obtain ⟨hrun, rfl⟩ : Running s.shared signID k ∧ found = k := hs.thread htask
    exact ⟨holds_written hs htask rfl (fun x hx => writers_append hx) nofun, hrun.keepsCompleted⟩
  case h_10 => cases hnext

/-! ## What is reported

`GetSigningStatus` reports the session that the sign id names. -/

/-- The answer, but for the number of the party. -/
structure SigningStatusResult where
  signID : String
  status : CeremonyStatus
  error : String
  signature : String

def getSigningStatus (g : Registry String Session) (signID : String) :
    Except String SigningStatusResult :=
  match (g.current signID).bind (g.get signID) with
  | none => .error s!"unknown signing ceremony {signID}"
  | some x => .ok ⟨signID, x.status, x.errorMessage, x.signature⟩

theorem current_step {e : Nat × SessionLabel} (h : step s e = some t)
    (he : e.2 ≠ .startSigning signID) : t.shared.current signID = s.shared.current signID := by
  obtain ⟨i, label⟩ := e
  obtain ⟨g', new, hnext, rfl⟩ := step_eq_some.mp h
  unfold next at hnext
  split at hnext
  case h_1 id =>
    cases hnext
    rw [Registry.current_register, if_neg]
    rintro rfl
    exact he rfl
  case h_2 | h_8 => split at hnext <;> cases hnext <;> rfl
  case h_10 => cases hnext
  all_goals
    cases hnext
    rfl

/-! ## Runs -/

theorem holds_start : sessionOutline.Holds start :=
  Outline.holds_idle fun _ _ _ hx => by cases hx

section

variable {es fs : List (Nat × SessionLabel)} (hes : run step start es = some s)
  (hfs : run step s fs = some t) (hturn : Guarded step InTurn start (es ++ fs))
include hes hfs hturn

theorem holds_run : sessionOutline.Holds t ∧ KeepsCompleted s.shared t.shared := by
  obtain ⟨hturn₁, hturn₂⟩ := hturn.append
  have hs := run_guarded_invariant (fun h hg hstep => (holds_step h hg hstep).1) holds_start
    hturn₁ hes
  refine run_guarded_invariant (P := fun u => sessionOutline.Holds u ∧
    KeepsCompleted s.shared u.shared) (fun h hg hstep => ?_) ⟨hs, .refl⟩ (hturn₂ s hes) hfs
  obtain ⟨hkeep, hdone⟩ := holds_step h.1 hg hstep
  refine ⟨hkeep, fun signID k x hx hc => ?_⟩
  obtain ⟨y, hy, hyc, hsig⟩ := h.2 signID k x hx hc
  obtain ⟨z, hz, hzc, hsig'⟩ := hdone signID k y hy hyc
  exact ⟨z, hz, hzc, hsig'.trans hsig⟩

/-- A signature that is reported is reported until the sign id is used again. -/
theorem reported_of_run (hid : ∀ e ∈ fs, e.2 ≠ .startSigning signID) {r : SigningStatusResult}
    (hr : getSigningStatus s.shared signID = .ok r) (hdone : r.status = .completed) :
    ∃ r', getSigningStatus t.shared signID = .ok r' ∧ r'.status = .completed ∧
      r'.signature = r.signature := by
  have hcurrent : t.shared.current signID = s.shared.current signID :=
    run_guarded_invariant (P := fun u => u.shared.current signID = s.shared.current signID)
      (fun h hg hstep => (current_step hstep hg).trans h) rfl
      (guarded_of_forall fun e he _ => hid e he) hfs
  unfold getSigningStatus at hr ⊢
  rw [hcurrent]
  cases hk : s.shared.current signID with
  | none => simp [hk] at hr
  | some k =>
    rw [hk, Option.bind_some] at hr
    rw [Option.bind_some]
    split at hr
    · cases hr
    next x hx =>
    cases hr
    obtain ⟨y, hy, hstatus, hsig⟩ := (holds_run hes hfs hturn).2 signID k x hx hdone
    rw [hy]
    exact ⟨_, rfl, hstatus, hsig⟩

end

/-- **In every run in which the sign ids are used in turn**, every session is written by its own run
only and hears no message of an earlier round, and a completed session stays completed with its
signature. -/
theorem signing_isolated {es fs : List (Nat × SessionLabel)} (hes : run step start es = some s)
    (hfs : run step s fs = some t) (hturn : Guarded step InTurn start (es ++ fs)) :
    Isolated t.shared ∧ KeepsCompleted s.shared t.shared :=
  have h := holds_run hes hfs hturn
  ⟨h.1.shared, h.2⟩

def failedCall : List (Nat × SessionLabel) :=
  [(0, .startSigning "s"), (0, .fail "relay"), (0, .advance), (0, .advance)]

theorem signing_isolated_retried :
    ∃ s t, run step start failedCall = some s ∧ run step s [(0, .startSigning "s")] = some t ∧
      Isolated t.shared := by
  refine ⟨_, _, rfl, rfl,
    (@signing_isolated _ _ failedCall [(0, .startSigning "s")] rfl rfl ?_).1⟩
  have hidle : ∀ {u : State}, (∀ j, u.threads j = none) → InTurn u (0, .startSigning "s") := by
    intro u hu j v hv
    rw [hu j] at hv
    cases hv
  refine guarded_cons rfl (hidle fun _ => rfl) (guarded_cons rfl trivial (guarded_cons rfl trivial
    (guarded_cons rfl trivial (guarded_cons rfl (hidle fun j => ?_) trivial))))
  by_cases hj : j = 0
  · subst hj
    rfl
  · simp [start, System.idle]

/-- The sign id is used a second time while the first run is going on, and the second run
completes. -/
def restarted : List (Nat × SessionLabel) :=
  [(0, .startSigning "s"), (0, .advance), (1, .startSigning "s"), (1, .advance), (1, .signed "sig")]

def firstFails : List (Nat × SessionLabel) :=
  [(2, .message "s" 0), (2, .advance), (0, .fail "relay"), (0, .advance), (0, .advance)]

theorem signing_disturbed :
    ∃ s t, run step start restarted = some s ∧ run step s firstFails = some t ∧
      s.shared.get "s" 1 = some
        { status := .completed, signature := "sig", ready := true, writers := [1] } ∧
      t.shared.get "s" 1 = some
        { status := .failed, errorMessage := "relay", signature := "sig", ready := true,
          writers := [1, 0], heard := [0] } ∧
      ¬ Isolated t.shared ∧ ¬ KeepsCompleted s.shared t.shared := by
  refine ⟨_, _, rfl, rfl, rfl, rfl, fun h => ?_, fun h => ?_⟩
  · exact absurd ((h "s" 1 _ rfl).1 0 (by decide)) (by decide)
  · obtain ⟨y, hy, hdone, -⟩ := h "s" 1 _ rfl rfl
    cases hy
    cases hdone

end Session

end OpenFireblocks.Party
