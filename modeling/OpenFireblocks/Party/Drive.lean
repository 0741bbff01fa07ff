import OpenFireblocks.Lib.Machine
import OpenFireblocks.Party.Manager

/-!
# The goroutine that drives a protocol

`driveKeygen`, `driveSigning` and `driveResharing` are one loop: a `select` over the channels that
the local party of the threshold library writes to. A message goes to the relay, an error ends the
session, and a result ends it after `relayPending` has sent what is still queued.

The `select` takes any channel that is ready, so an event of the machine is any of these, and the
local party puts messages and its result on the channels at any time.
-/

namespace OpenFireblocks.Party

open Machine

/-- Where the goroutine stands. -/
inductive DrivePhase (R : Type) where
  /-- In the `select` of the loop. -/
  | selecting
  /-- In `relayPending`, with the result it has received. -/
  | flushing (result : R)
  /-- About to record the result. -/
  | completing (result : R)
  | ended

/-- The goroutine, its channels and its session. No other session takes the id of this one. -/
structure Driver (M R : Type) where
  outCh : List M := []
  endCh : Option R := none
  /-- The old committee's end of a refresh. -/
  oldEnd : Option R := none
  errCh : Option String := none
  phase : DrivePhase R := .selecting
  status : CeremonyStatus := .inProgress
  errorMessage : String := ""
  /-- All messages that were ever put on `outCh`. -/
  enqueued : List M := []
  /-- All messages that were handed to the relay. -/
  relayed : List M := []
  /-- The local party has put its result on `endCh`. -/
  finished : Bool := false

/-- The first four are the local party's, the others are the goroutine's. -/
inductive DriveEvent (M R : Type) where
  | enqueue (msg : M)
  | finish (result : R)
  | finishOld (result : R)
  | report (err : String)
  /-- The next message is relayed, in the loop or by `relayPending`, without or with an error. -/
  | relay (err : Option String)
  | receiveError
  | receiveOld
  | receiveResult
  /-- `relayPending` finds the channel empty. -/
  | drained
  /-- The result is recorded, or cannot be: no public key, not sealed. -/
  | record (err : Option String)

namespace Driver

variable {M R : Type}

/-- `failCeremony`, `failSigning`, `failResharing`, and the return from the loop. -/
def fail (d : Driver M R) (msg : String) : Driver M R :=
  { d with status := .failed, errorMessage := msg, phase := .ended }

def relay (d : Driver M R) (msg : M) (rest : List M) : Option String → Driver M R
  | none => { d with outCh := rest, relayed := d.relayed ++ [msg] }
  | some err =>
    { d with outCh := rest, relayed := d.relayed ++ [msg] }.fail ("failed to relay message: " ++ err)

/-- `completeCeremony` or `completeResharing` has returned; the end of a signing cannot fail. -/
def record (d : Driver M R) : Option String → Driver M R
  | none => { d with status := .completed, phase := .ended }
  | some err => d.fail err

/-- The loop. Only a refresh has an `oldEnd`, which it reads and discards. -/
def drive (hasOldEnd : Bool) (d : Driver M R) : DriveEvent M R → Option (Driver M R)
  | .enqueue msg => some { d with outCh := d.outCh ++ [msg], enqueued := d.enqueued ++ [msg] }
  | .finish result => if d.finished then none else some { d with endCh := some result, finished := true }
  | .finishOld result => if hasOldEnd then some { d with oldEnd := some result } else none
  | .report err => some { d with errCh := some err }
  | .relay err =>
    match d.phase, d.outCh with
    | .selecting, msg :: rest | .flushing _, msg :: rest => some (d.relay msg rest err)
    | _, _ => none
  | .receiveError =>
    match d.phase, d.errCh with
    | .selecting, some err => some ({ d with errCh := none }.fail ("tss-lib protocol error: " ++ err))
    | _, _ => none
  | .receiveOld =>
    match d.phase, d.oldEnd with
    | .selecting, some _ => some { d with oldEnd := none }
    | _, _ => none
  | .receiveResult =>
    match d.phase, d.endCh with
    | .selecting, some result => some { d with endCh := none, phase := .flushing result }
    | _, _ => none
  | .drained =>
    match d.phase, d.outCh with
    | .flushing result, [] => some { d with phase := .completing result }
    | _, _ => none
  | .record err =>
    match d.phase with
    | .completing _ => some (d.record err)
    | _ => none

def driveSigning : Driver M R → DriveEvent M R → Option (Driver M R) := drive false
def driveResharing : Driver M R → DriveEvent M R → Option (Driver M R) := drive true

/-- The result is available only after all messages of the local party are enqueued. -/
def ResultLast (d : Driver M R) : DriveEvent M R → Prop
  | .enqueue _ => d.finished = false
  | _ => True

instance (d : Driver M R) : ∀ e : DriveEvent M R, Decidable (d.ResultLast e)
  | .enqueue _ => inferInstanceAs (Decidable (d.finished = false))
  | .finish _ | .finishOld _ | .report _ | .relay _ | .receiveError | .receiveOld
  | .receiveResult | .drained | .record _ => isTrue trivial

/-! ## What the loop keeps -/

/-- The goroutine has a result or has had it, and has emptied the channel. -/
def Flushed (d : Driver M R) : Prop := (∃ result, d.phase = .completing result) ∨ d.status = .completed

structure Owes (d : Driver M R) : Prop where
  /-- What was enqueued was relayed or is still queued, in this order. -/
  log : d.relayed ++ d.outCh = d.enqueued
  ended : d.status ≠ .inProgress → d.phase = .ended
  received : d.endCh.isSome ∨ (∃ result, d.phase = .flushing result) ∨ d.Flushed → d.finished = true
  flushed : d.Flushed → d.outCh = []

variable {hasOldEnd : Bool} {d d' : Driver M R} {e : DriveEvent M R}

theorem Owes.relay (h : d.Owes) {msg : M} {rest : List M} (hout : d.outCh = msg :: rest)
    (hnot : ¬ d.Flushed) (err : Option String) : (d.relay msg rest err).Owes := by
  have hlog : d.relayed ++ [msg] ++ rest = d.enqueued := by
    rw [← h.log, hout, List.append_assoc, List.singleton_append]
  cases err with
  | none =>
    exact ⟨hlog, h.ended, h.received, fun hflushed => absurd hflushed hnot⟩
  | some err =>
    refine ⟨hlog, fun _ => rfl, fun hreceived => ?_, by simp [Flushed, Driver.relay, fail]⟩
    rcases hreceived with hend | ⟨_, hphase⟩ | ⟨_, hphase⟩ | hstatus
    · exact h.received (.inl hend)
    all_goals cases ‹_›

/-- **One step of the loop**, if no message is enqueued behind the result. -/
theorem Owes.step (h : d.Owes) (hlast : d.ResultLast e) (hstep : drive hasOldEnd d e = some d') :
    d'.Owes := by
  have hnot : ∀ {phase}, d.phase = phase → phase ≠ .ended → d.status = .inProgress := by
    intro phase hphase hne
    by_contra hstatus
    exact hne (hphase ▸ h.ended hstatus)
  cases e with
  | enqueue msg =>
    cases hstep
    have hflushed : ¬ d.Flushed := fun hf =>
      Bool.false_ne_true (hlast.symm.trans (h.received (.inr (.inr hf))))
    exact ⟨by rw [← h.log, List.append_assoc], h.ended, h.received, fun hf => absurd hf hflushed⟩
  | finish result =>
    rw [drive] at hstep
    split at hstep <;> cases hstep
    exact ⟨h.log, h.ended, fun _ => rfl, h.flushed⟩
  | finishOld result =>
    rw [drive] at hstep
    split at hstep <;> cases hstep
    exact ⟨h.log, h.ended, h.received, h.flushed⟩
  | report err =>
    cases hstep
    exact ⟨h.log, h.ended, h.received, h.flushed⟩
  | relay err =>
    rw [drive] at hstep
    split at hstep
    · next hphase hout =>
      cases hstep
      refine h.relay hout ?_ err
      rintro (⟨_, hc⟩ | hc)
      · cases hphase.symm.trans hc
      · cases (hnot hphase nofun).symm.trans hc
    · next hphase hout =>
      cases hstep
      refine h.relay hout ?_ err
      rintro (⟨_, hc⟩ | hc)
      · cases hphase.symm.trans hc
      · cases (hnot hphase nofun).symm.trans hc
    · cases hstep
  | receiveError =>
    rw [drive] at hstep
    split at hstep <;> cases hstep
    refine ⟨h.log, fun _ => rfl, ?_, by simp [Flushed, fail]⟩
    rintro (hend | ⟨_, hc⟩ | ⟨_, hc⟩ | hc)
    · exact h.received (.inl hend)
    all_goals cases hc
  | receiveOld =>
    rw [drive] at hstep
    split at hstep <;> cases hstep
    exact ⟨h.log, h.ended, h.received, h.flushed⟩
  | receiveResult =>
    rw [drive] at hstep
    split at hstep
    · next result hphase hend =>
      cases hstep
      have hstatus := hnot hphase nofun
      refine ⟨h.log, fun hc => absurd hstatus hc, fun _ => h.received (.inl (by rw [hend]; rfl)), ?_⟩
      rintro (⟨_, hc⟩ | hc)
      · cases hc
      · cases hstatus.symm.trans hc
    · cases hstep
  | drained =>
    rw [drive] at hstep
    split at hstep
    · next result hphase hout =>
      cases hstep
      have hstatus := hnot hphase nofun
      exact ⟨h.log, fun hc => absurd hstatus hc, fun _ => h.received (.inr (.inl ⟨_, hphase⟩)),
        fun _ => hout⟩
    · cases hstep
  | record err =>
    rw [drive] at hstep
    split at hstep
    · next result hphase =>
      have hflushed : d.Flushed := .inl ⟨_, hphase⟩
      cases hstep
      cases err with
      | none | some err =>
        exact ⟨h.log, fun _ => rfl, fun _ => h.received (.inr (.inr hflushed)),
          fun _ => h.flushed hflushed⟩
    · cases hstep

/-! ## After a failed relay -/

end Driver

end OpenFireblocks.Party
