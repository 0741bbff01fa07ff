import OpenFireblocks.Keys.Signing

/-!
# Idempotent signing

A call that finds the row of an idempotency key failed goes on under it without taking it, so two calls
may do so at once; and only the recorded digest is compared, not the key or the message. `Distinct` is
the condition that neither happens.
-/

namespace OpenFireblocks.Keys

open Approval (Sql SqlError raise)
open Threads

variable {g : Gateway} {s s' : Store} {call call' : Option Call}

/-! ## What the store satisfies -/

def SigningRequest.ask (r : SigningRequest) : Ask := ⟨r.keyID, r.transactionData⟩

/-- All that happened under the row is for what the row is for. -/
structure SigningRequest.Terms (g : Gateway) (s : Store) (r : SigningRequest) : Prop where
  digest : r.transactionHash = recordedDigest g r.transactionData
  runs : ∀ run ∈ s.runs, run.ask = r.ask
  answers : ∀ a ∈ s.answers, ∀ signature, a.outcome = .ok signature →
    a.ask = r.ask ∧ signature.ask = r.ask
  signature : ∀ signature, r.signature = some signature → signature.ask = r.ask
  completed : r.status = .completed → r.signature.isSome
  not_pending : r.status ≠ .pending

structure Store.Sound (g : Gateway) (s : Store) : Prop where
  one_running : s.runs.countP (fun run => run.result.isNone) ≤ 1
  fresh : s.record = none → s.runs = [] ∧ ∀ a ∈ s.answers, ∀ signature, a.outcome ≠ .ok signature
  terms : ∀ r, s.record = some r → r.Terms g s

variable {ask : Ask}

theorem Store.Sound.answer (h : s.Sound g) {outcome : Except String Signature}
    (hok : ∀ signature, outcome = .ok signature → ∃ r, s.record = some r ∧ ask = r.ask ∧ signature.ask = r.ask)
    : (s.answer ask outcome).Sound g := by
  refine ⟨h.one_running, fun hnone => ⟨(h.fresh hnone).1, fun a ha signature hsig => ?_⟩,
    fun r hr => ?_⟩
  · rcases List.mem_append.mp ha with ha | ha
    · exact (h.fresh hnone).2 a ha signature hsig
    · rw [List.mem_singleton.mp ha] at hsig
      obtain ⟨r, hr, -⟩ := hok signature hsig
      have hnone' : s.record = none := hnone
      rw [hnone'] at hr
      cases hr
  · have ht := h.terms r hr
    refine ⟨ht.digest, ht.runs, fun a ha signature hsig => ?_, ht.signature, ht.completed,
      ht.not_pending⟩
    rcases List.mem_append.mp ha with ha | ha
    · exact ht.answers a ha signature hsig
    rw [List.mem_singleton.mp ha] at hsig ⊢
    obtain ⟨r', hr', hask, hsignature⟩ := hok signature hsig
    have hr'' : s.record = some r := hr
    rw [hr''] at hr'
    cases hr'
    exact ⟨hask, hsignature⟩

theorem Store.Sound.answer_error (h : s.Sound g) (ask : Ask) (message : String) :
    (s.answer ask (.error message)).Sound g :=
  h.answer nofun

variable {requestID : String}

theorem Store.Sound.update (h : s.Sound g) {f : SigningRequest → SigningRequest}
    (hf : ∀ r, s.record = some r → r.requestID = requestID → r.Terms g s → (f r).Terms g s) :
    (s.update requestID f).Sound g := by
  refine ⟨h.one_running, fun hnone => h.fresh ?_, fun r hr => ?_⟩
  · exact Option.map_eq_none_iff.mp hnone
  · obtain ⟨r', hr', rfl⟩ := Option.map_eq_some_iff.mp hr
    have ht := h.terms r' hr'
    split
    · next hid =>
      obtain ⟨h1, h2, h3, h4, h5, h6⟩ := hf r' hr' hid ht
      exact ⟨h1, h2, h3, h4, h5, h6⟩
    · exact ⟨ht.digest, ht.runs, ht.answers, ht.signature, ht.completed, ht.not_pending⟩

/-! ## Calls -/

def Call.owns : Call → Bool
  | .taken _ _ _ => true
  | _ => false

def Call.Holds (s : Store) : Call → Prop
  | .taken ask requestID phase =>
    (∃ r, s.record = some r ∧ r.requestID = requestID ∧ r.ask = ask ∧ r.status ≠ .completed) ∧
      ∀ signature, phase = .recording signature → signature.ask = ask
  | _ => True

/-- What one step does. `alone` is that no other call goes on under the row. -/
structure Steps (g : Gateway) (alone : Prop) (s : Store) (call : Option Call) (s' : Store)
    (call' : Option Call) : Prop where
  sound : s'.Sound g
  record : call.any Call.owns ∨ s.record = none ∨ s'.record = s.record
  runs : call.any Call.owns ∨ s'.runs.length = s.runs.length
  answers : ∃ new, s'.answers = s.answers ++ new ∧ ∀ a ∈ new, ∀ signature,
    a.outcome = .ok signature → call.any Call.owns ∨ ∃ r, s.record = some r ∧
      r.signature = some signature
  holds : ∀ c, call' = some c → c.Holds s'
  owner : ∀ c, call' = some c → c.owns → call.any Call.owns ∨ s.record = none ∨ alone

variable {alone : Prop}

theorem Store.Sound.refuse (h : s.Sound g) (ask : Ask) (message : String) :
    Steps g alone s call (s.answer ask (.error message)) none := by
  refine ⟨h.answer_error ask message, .inr (.inr rfl), .inr rfl, ⟨_, rfl, fun a ha signature hsig => ?_⟩,
    nofun, nofun⟩
  rw [List.mem_singleton.mp ha] at hsig
  cases hsig

theorem Store.Sound.goOn (h : s.Sound g) (hholds : ∀ c, call' = some c → c.Holds s)
    (howner : ∀ c, call' = some c → c.owns → call.any Call.owns ∨ s.record = none ∨ alone) :
    Steps g alone s call s call' :=
  ⟨h, .inr (.inr rfl), .inr rfl, ⟨[], (List.append_nil _).symm, nofun⟩, hholds, howner⟩

variable {c : Call} {r : SigningRequest} {reply : Reply} {n : Nat} {u u' : System Store Call}
  {e : Nat × Action}

theorem Call.choose_steps {threshold : Nat} {ceremony : Option Ceremony} {healthy : List Nat}
    (h : s.Sound g) (hstep : c.choose s threshold ceremony healthy = some (s', call')) :
    Steps g alone s (some c) s' call' := by
  cases c with
  | asked ask =>
    simp only [Call.choose] at hstep
    split at hstep
    · cases hstep
      refine h.goOn (fun c hc => ?_) fun c hc howns => ?_
      · cases hc
        trivial
      · cases hc
        cases howns
    · cases hstep
      exact h.refuse ask _
  | _ => cases hstep

theorem existingAnswer_eq_none (ht : r.Terms g s) (h : existingAnswer g ask r = none) :
    r.transactionHash = recordedDigest g ask.message ∧ r.status = .failed := by
  unfold existingAnswer at h
  split at h
  · cases h
  next hdigest =>
  refine ⟨not_not.mp hdigest, ?_⟩
  cases hstatus : r.status with
  | pending => exact absurd hstatus ht.not_pending
  | inProgress =>
    rw [hstatus] at h
    cases h
  | completed =>
    obtain ⟨signature, hsig⟩ := Option.isSome_iff_exists.mp (ht.completed hstatus)
    rw [hstatus, hsig] at h
    cases h
  | failed => rfl

theorem existingAnswer_eq_ok {signature : Signature}
    (h : existingAnswer g ask r = some (.ok signature)) :
    r.transactionHash = recordedDigest g ask.message ∧ r.status = .completed ∧
      r.signature = some signature := by
  unfold existingAnswer at h
  split at h
  · cases h
  next hdigest =>
  refine ⟨not_not.mp hdigest, ?_⟩
  split at h
  · next hstatus hsig =>
    cases h
    exact ⟨hstatus, hsig⟩
  · cases h
  · cases h

theorem Call.find_steps (h : s.Sound g)
    (hdistinct : ∀ ask r, reply = .answered → c = .ready ask → s.record = some r → r.transactionHash = recordedDigest g ask.message → r.ask = ask ∧ (r.status = .failed → alone))
    (hstep : c.find g s reply requestID = some (s', call')) :
    Steps g alone s (some c) s' call' := by
  cases c with
  | ready ask =>
    cases reply with
    | answered =>
      cases hrecord : s.record with
      | none =>
        simp only [Call.find, hrecord] at hstep
        cases hstep
        refine h.goOn (fun c hc => ?_) fun c hc howns => ?_
        · cases hc
          trivial
        · cases hc
          cases howns
      | some r =>
        simp only [Call.find, hrecord] at hstep
        have ht := h.terms r hrecord
        split at hstep
        · next outcome houtcome =>
          cases hstep
          cases outcome with
          | error message => exact h.refuse ask message
          | ok signature =>
            obtain ⟨hdigest, -, hsig⟩ := existingAnswer_eq_ok houtcome
            obtain ⟨hask, -⟩ := hdistinct ask r rfl rfl hrecord hdigest
            refine ⟨h.answer fun signature' hok => ?_, .inr (.inr rfl), .inr rfl,
              ⟨_, rfl, fun a ha signature' hok => .inr ⟨r, hrecord, ?_⟩⟩, nofun, nofun⟩
            · cases hok
              exact ⟨r, hrecord, hask.symm, ht.signature signature hsig⟩
            · rw [List.mem_singleton.mp ha] at hok
              cases hok
              exact hsig
        · next hnone =>
          cases hstep
          obtain ⟨hdigest, hfailed⟩ := existingAnswer_eq_none ht hnone
          obtain ⟨hask, halone⟩ := hdistinct ask r rfl rfl hrecord hdigest
          refine h.goOn (fun c hc => ?_) fun c hc _ => .inr (.inr (halone hfailed))
          cases hc
          exact ⟨⟨r, hrecord, rfl, hask, by rw [hfailed]; decide⟩, nofun⟩
    | lost message | failed message =>
      cases hstep
      exact h.refuse ask message
  | _ => cases hstep

theorem createSigningRequest_eq_ok {u : Unit}
    (h : createSigningRequest g s ask requestID = .ok (s', u)) :
    s.record = none ∧ ∃ r, s' = { s with record := some r } ∧ r.requestID = requestID ∧
      r.ask = ask ∧ r.transactionHash = recordedDigest g ask.message ∧ r.status = .inProgress ∧
      r.signature = none := by
  unfold createSigningRequest at h
  split at h
  · simp at h
  next hnone =>
  cases h
  exact ⟨Option.not_isSome_iff_eq_none.mp hnone, _, rfl, rfl, rfl, rfl, rfl, rfl⟩

theorem Store.Sound.create (h : s.Sound g) {u : Unit}
    (hok : createSigningRequest g s ask requestID = .ok (s', u)) :
    s'.Sound g ∧ Call.Holds s' (.taken ask requestID .starting) := by
  obtain ⟨hnone, r, rfl, hid, rfl, hdigest, hstatus, hsig⟩ := createSigningRequest_eq_ok hok
  obtain ⟨hruns, hanswers⟩ := h.fresh hnone
  refine ⟨⟨h.one_running, nofun, fun r' hr' => ?_⟩, ⟨r, rfl, hid, rfl, by rw [hstatus]; decide⟩, nofun⟩
  cases hr'
  refine ⟨hdigest, fun run hrun => ?_, fun a ha signature hok => ?_, fun signature hsome => ?_,
    fun hcompleted => ?_, by rw [hstatus]; decide⟩
  · have hrun' : run ∈ s.runs := hrun
    rw [hruns] at hrun'
    cases hrun'
  · exact absurd hok (hanswers a ha signature)
  · rw [hsig] at hsome
    cases hsome
  · rw [hstatus] at hcompleted
    cases hcompleted

theorem Call.create_steps (h : s.Sound g) (hstep : c.create g s reply = some (s', call')) :
    Steps g alone s (some c) s' call' := by
  cases c with
  | creating ask requestID =>
    simp only [Call.create] at hstep
    rcases reply.send_cases s (createSigningRequest g s ask requestID)
      with ⟨e, hsend⟩ | ⟨s'', u, hok, hsend⟩
    · rw [hsend] at hstep
      cases hstep
      exact h.refuse ask _
    · obtain ⟨hsound, hholds⟩ := h.create hok
      obtain ⟨hnone, r, rfl, -⟩ := createSigningRequest_eq_ok hok
      rcases hsend with hsend | ⟨e, hsend⟩
      · rw [hsend] at hstep
        cases hstep
        refine ⟨hsound, .inr (.inl hnone), .inr rfl, ⟨[], (List.append_nil _).symm, nofun⟩,
          fun c hc => ?_, fun c _ _ => .inr (.inl hnone)⟩
        cases hc
        exact hholds
      · rw [hsend] at hstep
        cases hstep
        refine ⟨hsound.answer_error ask _, .inr (.inl hnone), .inr rfl,
          ⟨_, rfl, fun a ha signature hsig => ?_⟩, nofun, nofun⟩
        rw [List.mem_singleton.mp ha] at hsig
        cases hsig
  | _ => cases hstep

/-- A call that goes on under the row writes to the row and starts workflows. -/
theorem Steps.of_owner {phase : Phase} (hsound : s'.Sound g)
    (hanswers : ∃ new, s'.answers = s.answers ++ new) (hholds : ∀ c, call' = some c → c.Holds s') :
    Steps g alone s (some (.taken ask requestID phase)) s' call' := by
  obtain ⟨new, hnew⟩ := hanswers
  exact ⟨hsound, .inl rfl, .inl rfl, ⟨new, hnew, fun _ _ _ _ => .inl rfl⟩, hholds, fun _ _ _ => .inl rfl⟩

theorem startWorkflow_eq_ok (h : startWorkflow s ask = .ok (s', n)) :
    s.runs.countP (fun run => run.result.isNone) = 0 ∧
      s' = { s with runs := s.runs ++ [{ ask, result := none }] } := by
  unfold startWorkflow at h
  split at h
  · cases h
  next hnone =>
  cases h
  refine ⟨List.countP_eq_zero.mpr fun run hrun hresult => hnone ?_, rfl⟩
  exact List.any_eq_true.mpr ⟨run, hrun, hresult⟩

section

variable (h : s.Sound g)
include h

theorem Store.Sound.start (hrecord : ∃ r, s.record = some r ∧ r.ask = ask)
    (hok : startWorkflow s ask = .ok (s', n)) : s'.Sound g := by
  obtain ⟨r, hr, hask⟩ := hrecord
  obtain ⟨hnone, rfl⟩ := startWorkflow_eq_ok hok
  refine ⟨?_, fun hempty => ?_, fun r' hr' => ?_⟩
  · show (s.runs ++ [_]).countP _ ≤ 1
    rw [List.countP_append, hnone, Nat.zero_add]
    exact List.countP_le_length
  · rw [hempty] at hr
    cases hr
  · rw [hr'] at hr
    cases hr
    have ht := h.terms r hr'
    refine ⟨ht.digest, fun run hrun => ?_, ht.answers, ht.signature, ht.completed, ht.not_pending⟩
    rcases List.mem_append.mp hrun with hrun | hrun
    · exact ht.runs run hrun
    · rw [List.mem_singleton.mp hrun, hask]

theorem Call.start_steps (hholds : c.Holds s)
    (hstep : c.start s reply = some (s', call')) : Steps g alone s (some c) s' call' := by
  cases c with
  | taken ask requestID phase =>
    cases phase with
    | starting =>
      obtain ⟨⟨r, hr, hid, hask, hstatus⟩, -⟩ := hholds
      simp only [Call.start] at hstep
      rcases reply.send_cases s (startWorkflow s ask) with ⟨e, hsend⟩ | ⟨s'', n, hok, hsend⟩
      · rw [hsend] at hstep
        cases hstep
        refine .of_owner h ⟨[], (List.append_nil _).symm⟩ fun c hc => ?_
        cases hc
        exact ⟨⟨r, hr, hid, hask, hstatus⟩, nofun⟩
      · have hsound := h.start ⟨r, hr, hask⟩ hok
        obtain ⟨-, rfl⟩ := startWorkflow_eq_ok hok
        rcases hsend with hsend | ⟨e, hsend⟩ <;> rw [hsend] at hstep <;> cases hstep <;>
          refine .of_owner hsound ⟨[], (List.append_nil _).symm⟩ fun c hc => ?_ <;> cases hc <;>
          exact ⟨⟨r, hr, hid, hask, hstatus⟩, nofun⟩
    | _ => cases hstep
  | _ => cases hstep

theorem Call.result_steps {thrown : Option String} (hholds : c.Holds s)
    (hstep : c.result s thrown = some (s', call')) : Steps g alone s (some c) s' call' := by
  cases c with
  | taken ask requestID phase =>
    cases phase with
    | waiting n =>
      obtain ⟨⟨r, hr, hid, hask, hstatus⟩, -⟩ := hholds
      cases thrown with
      | some message =>
        cases hstep
        refine .of_owner h ⟨[], (List.append_nil _).symm⟩ fun c hc => ?_
        cases hc
        exact ⟨⟨r, hr, hid, hask, hstatus⟩, nofun⟩
      | none =>
        obtain ⟨run, hrun, hstep⟩ := Option.bind_eq_some_iff.mp hstep
        obtain ⟨result, hresult, hstep⟩ := Option.bind_eq_some_iff.mp hstep
        cases hstep
        refine .of_owner h ⟨[], (List.append_nil _).symm⟩ fun c hc => ?_
        cases hc
        refine ⟨⟨r, hr, hid, hask, hstatus⟩, fun signature hphase => ?_⟩
        -- the workflow of this call was for what the row is for
        unfold Phase.afterResult at hphase
        split at hphase
        · cases hphase
          exact ((h.terms r hr).runs run (List.mem_of_getElem? hrun)).trans hask
        · cases hphase
    | _ => cases hstep
  | _ => cases hstep

/-- The store after the row was written, as far as that worked. -/
theorem Store.Sound.write (hr : s.record = some r) (f : SigningRequest → SigningRequest)
    (hask : (f r).ask = r.ask) (hf : (f r).Terms g s) (reply : Reply) {t : Store}
    (ht : t = (reply.send s (.ok (s.update r.requestID f, ()) : Sql (Store × Unit))).1) :
    t.Sound g ∧ t.answers = s.answers ∧ ∃ r', t.record = some r' ∧ r'.ask = r.ask := by
  have hupdate : (s.update r.requestID f).Sound g := by
    refine h.update fun r' hr' _ _ => ?_
    rw [hr] at hr'
    cases hr'
    exact hf
  have hrecord : (s.update r.requestID f).record = some (f r) := by
    show s.record.map _ = _
    rw [hr, Option.map_some, if_pos rfl]
  cases reply with
  | answered | lost =>
    subst ht
    exact ⟨hupdate, rfl, f r, hrecord, hask⟩
  | failed message =>
    subst ht
    exact ⟨h, rfl, r, hr, rfl⟩

theorem Call.record_steps (hholds : c.Holds s)
    (hstep : c.record s reply = some (s', call')) : Steps g alone s (some c) s' call' := by
  cases c with
  | taken ask requestID phase =>
    obtain ⟨⟨r, hr, rfl, rfl, hstatus⟩, hsig⟩ := hholds
    have hterms := h.terms r hr
    cases phase with
    | failing reason answer =>
      cases hstep
      obtain ⟨hsound, hanswers, -⟩ := h.write hr (.fail reason) rfl ⟨hterms.digest, hterms.runs,
        hterms.answers, hterms.signature, nofun, nofun⟩ reply rfl
      exact .of_owner (hsound.answer_error r.ask answer)
        ⟨[⟨r.ask, .error answer⟩], congrArg (· ++ _) hanswers⟩ nofun
    | recording signature =>
      cases hstep
      obtain ⟨hsound, hanswers, r', hr', hask⟩ := h.write hr (.complete signature) rfl
        ⟨hterms.digest, hterms.runs, hterms.answers, fun signature' hsome => by
          cases hsome
          exact hsig signature rfl, fun _ => rfl, nofun⟩ reply rfl
      refine .of_owner (hsound.answer fun signature' hok => ?_)
        ⟨[⟨r.ask, .ok signature⟩], congrArg (· ++ _) hanswers⟩ nofun
      cases hok
      exact ⟨r', hr', hask.symm, (hsig signature rfl).trans hask.symm⟩
    | _ => cases hstep
  | _ => cases hstep

theorem Store.Sound.finish {result : WorkflowResult} (hok : s.finish n result = some s') :
    s'.Sound g ∧ s'.record = s.record ∧ s'.runs.length = s.runs.length ∧ s'.answers = s.answers := by
  unfold Store.finish at hok
  split at hok
  · next ask hrun =>
    cases hok
    obtain ⟨hn, hget⟩ := List.getElem?_eq_some_iff.mp hrun
    refine ⟨⟨?_, fun hnone => ?_, fun r hr => ?_⟩, rfl, List.length_set, rfl⟩
    · show (s.runs.set n _).countP _ ≤ 1
      rw [List.countP_set hn]
      simp only [Option.isNone_some, Bool.false_eq_true, if_false]
      have := h.one_running
      omega
    · obtain ⟨hruns, hanswers⟩ := h.fresh hnone
      rw [hruns] at hn
      cases hn
    · have ht := h.terms r hr
      refine ⟨ht.digest, fun run hmem => ?_, ht.answers, ht.signature, ht.completed, ht.not_pending⟩
      rcases List.mem_or_eq_of_mem_set hmem with hmem | rfl
      · exact ht.runs run hmem
      · exact ht.runs ⟨ask, none⟩ (List.mem_of_getElem? hrun)
  · cases hok

theorem next_steps {action : Action} (hholds : ∀ c, call = some c → c.Holds s)
    (hdistinct : ∀ ask r requestID, action = .find .answered requestID → call = some (.ready ask) → s.record = some r → r.transactionHash = recordedDigest g ask.message → r.ask = ask ∧ (r.status = .failed → alone))
    (hstep : next g s call action = some (s', call')) : Steps g alone s call s' call' := by
  cases call with
  | none =>
    cases action with
    | call ask =>
      cases hstep
      refine h.goOn (fun c hc => ?_) fun c hc howns => ?_
      · cases hc
        trivial
      · cases hc
        cases howns
    | finish =>
      obtain ⟨s'', hfinish, heq⟩ := Option.map_eq_some_iff.mp hstep
      cases heq
      obtain ⟨hsound, hrecord, hruns, hanswers⟩ := h.finish hfinish
      exact ⟨hsound, .inr (.inr hrecord), .inr hruns, ⟨[], by rw [hanswers, List.append_nil], nofun⟩,
        nofun, nofun⟩
    | _ => cases hstep
  | some c =>
    have hc := hholds c rfl
    cases action with
    | choose => exact Call.choose_steps h hstep
    | find reply requestID =>
      exact Call.find_steps h (fun ask r hreply hc hr hd =>
        hdistinct ask r requestID (by rw [hreply]) (by rw [hc]) hr hd) hstep
    | create reply => exact Call.create_steps h hstep
    | start reply => exact Call.start_steps h hc hstep
    | result thrown => exact Call.result_steps h hc hstep
    | record reply => exact Call.record_steps h hc hstep
    | crash =>
      cases hstep
      exact h.goOn nofun nofun
    | call | finish => cases hstep

end

/-! ## Runs -/

def outline (g : Gateway) : Outline Store Call where
  shared := Store.Sound g
  thread := Call.Holds
  pair c c' := ¬ (c.owns ∧ c'.owns)
  pair_symm h h' := h ⟨h'.2, h'.1⟩

/--
A lookup that finds a row with the digest of its message is for the same key and message, and if the
row has failed then no other call goes on under it.
-/
def Distinct (g : Gateway) (u : System Store Call) (e : Nat × Action) : Prop :=
  ∀ ask r requestID, e.2 = .find .answered requestID → u.threads e.1 = some (.ready ask) →
    u.shared.record = some r → r.transactionHash = recordedDigest g ask.message →
    r.ask = ask ∧ (r.status = .failed → u.Others e.1 fun c => c.owns = false)

/-- **One step keeps every assertion.** -/
theorem outline_step (hu : (outline g).Holds u) (hdistinct : Distinct g u e)
    (h : step (next g) u e = some u') :
    (outline g).Holds u' ∧ Steps g (u.Others e.1 fun c => c.owns = false) u.shared (u.threads e.1)
      u'.shared (u'.threads e.1) := by
  obtain ⟨i, action⟩ := e
  obtain ⟨s', call', hnext, rfl⟩ := step_eq_some.mp h
  have hsteps := next_steps hu.shared (fun c hc => hu.thread hc) hdistinct hnext
  have hown : ∀ {j m}, j ≠ i → u.threads j = some m → m.owns →
      (u.threads i).any Call.owns → False := by
    intro j m hj hm howns hmine
    obtain ⟨c, hc, hcowns⟩ := (Option.any_eq_true _ _).mp hmine
    exact hu.pair hj hm hc ⟨howns, hcowns⟩
  refine ⟨hu.step (fun h => h) hsteps.sound hsteps.holds ?_ ?_, ?_⟩
  · -- the row of a call that goes on under it is not written by the others
    intro j m hj hm
    have hholds : m.Holds u.shared := hu.thread hm
    cases m with
    | taken =>
      obtain ⟨⟨r, hr, hrest⟩, hsig⟩ := hholds
      rcases hsteps.record with hmine | hnone | hsame
      · exact (hown hj hm rfl hmine).elim
      · rw [hnone] at hr
        cases hr
      · exact ⟨⟨r, hsame.trans hr, hrest⟩, hsig⟩
    | _ => trivial
  · intro m hm j m' hj hm' ⟨howns, howns'⟩
    rcases hsteps.owner m hm howns with hmine | hnone | halone
    · exact hown hj hm' howns' hmine
    · cases m' with
      | taken =>
        obtain ⟨⟨r, hr, -⟩, -⟩ := hu.thread hm'
        rw [hnone] at hr
        cases hr
      | _ => cases howns'
    · rw [halone j m' hj hm'] at howns'
      cases howns'
  · show Steps _ _ _ _ _ (Function.update u.threads i call' i)
    rw [Function.update_self]
    exact hsteps

theorem outline_run {es : List (Nat × Action)} (hu : (outline g).Holds u)
    (hdistinct : Machine.Guarded (step (next g)) (Distinct g) u es)
    (h : Machine.run (step (next g)) u es = some u') : (outline g).Holds u' :=
  Machine.run_guarded_invariant (fun hu he hstep => (outline_step hu he hstep).1) hu hdistinct h

/-! ## The promise -/

/-- At one moment: all signatures that were returned are by one key over one message, to calls for
that, and one ceremony at most is in flight. -/
structure Store.Idempotent (s : Store) : Prop where
  one_message : ∃ ask : Ask, (∀ run ∈ s.runs, run.ask = ask) ∧
    ∀ a ∈ s.answers, ∀ signature, a.outcome = .ok signature → a.ask = ask ∧ signature.ask = ask
  one_running : s.runs.countP (fun run => run.result.isNone) ≤ 1

/-- From one moment to a later one: a recorded signature stays, no ceremony is started, and calls
return that signature. -/
structure Store.Replays (s s' : Store) (r : SigningRequest) (signature : Signature) : Prop where
  record : s'.record = some r
  runs : s'.runs.length = s.runs.length
  answers : ∃ new, s'.answers = s.answers ++ new ∧
    ∀ a ∈ new, ∀ signature', a.outcome = .ok signature' → signature' = signature

theorem Store.Sound.idempotent (h : s.Sound g) : s.Idempotent := by
  refine ⟨?_, h.one_running⟩
  cases hrecord : s.record with
  | none =>
    obtain ⟨hruns, hanswers⟩ := h.fresh hrecord
    refine ⟨⟨"", ""⟩, fun run hrun => ?_, fun a ha signature hok => ?_⟩
    · rw [hruns] at hrun
      cases hrun
    · exact absurd hok (hanswers a ha signature)
  | some r => exact ⟨r.ask, (h.terms r hrecord).runs, (h.terms r hrecord).answers⟩

theorem Store.Replays.step {u₀ : System Store Call} {signature : Signature}
    (hu : (outline g).Holds u) (hcompleted : r.status = .completed)
    (hsig : r.signature = some signature) (h : u₀.shared.Replays u.shared r signature)
    (hdistinct : Distinct g u e) (hstep : step (next g) u e = some u') :
    u₀.shared.Replays u'.shared r signature := by
  obtain ⟨-, hsteps⟩ := outline_step hu hdistinct hstep
  -- a call under the row would know that it is not completed
  have hother : ¬ (u.threads e.1).any Call.owns := by
    intro hmine
    obtain ⟨c, hc, howns⟩ := (Option.any_eq_true _ _).mp hmine
    have hholds : c.Holds u.shared := hu.thread hc
    cases c with
    | taken =>
      obtain ⟨⟨r', hr', -, -, hstatus⟩, -⟩ := hholds
      rw [h.record] at hr'
      cases hr'
      exact hstatus hcompleted
    | _ => cases howns
  refine ⟨?_, ?_, ?_⟩
  · rcases hsteps.record with hmine | hnone | hsame
    · exact absurd hmine hother
    · rw [h.record] at hnone
      cases hnone
    · exact hsame.trans h.record
  · exact (hsteps.runs.resolve_left hother).trans h.runs
  · obtain ⟨new, hnew, hold⟩ := h.answers
    obtain ⟨new', hnew', hok⟩ := hsteps.answers
    refine ⟨new ++ new', by rw [hnew', hnew, List.append_assoc], fun a ha signature' hsig' => ?_⟩
    rcases List.mem_append.mp ha with ha | ha
    · exact hold a ha signature' hsig'
    obtain ⟨r', hr', hrecorded⟩ := (hok a ha signature' hsig').resolve_left hother
    rw [h.record] at hr'
    cases hr'
    rw [hsig] at hrecorded
    exact (Option.some.inj hrecorded).symm

def Store.empty : Store := ⟨none, [], []⟩

/-- What an idempotency key promises of a run and of how it goes on. -/
def Promise (g : Gateway) (earlier later : List (Nat × Action)) : Prop :=
  ∀ u u', Machine.run (step (next g)) (.idle .empty) earlier = some u →
    Machine.run (step (next g)) u later = some u' →
    u.shared.Idempotent ∧
      ∀ r signature, u.shared.record = some r → r.status = .completed →
        r.signature = some signature →
        u.shared.Replays u'.shared r signature ∧
        -- and that is what a call for it returns
        ∀ i ask requestID, u'.threads i = some (.ready ask) →
          recordedDigest g ask.message = r.transactionHash →
          next g u'.shared (u'.threads i) (.find .answered requestID) =
            some (u'.shared.answer ask (.ok signature), none)

/--
**Signing is idempotent as long as lookups meet `Distinct`**, for every interleaving of calls,
failures, lost answers and stopped gateways.
-/
theorem signing_idempotent {earlier later : List (Nat × Action)}
    (hdistinct : Machine.Guarded (step (next g)) (Distinct g) (.idle .empty) (earlier ++ later)) :
    Promise g earlier later := by
  intro u u' hu hu'
  obtain ⟨hearlier, hlater⟩ := hdistinct.append
  have hempty : (outline g).Holds (.idle .empty) :=
    Outline.holds_idle ⟨by decide, fun _ => ⟨rfl, nofun⟩, nofun⟩
  have hholds := outline_run hempty hearlier hu
  refine ⟨hholds.shared.idempotent, fun r signature hr hcompleted hsig => ?_⟩
  have hstart : u.shared.Replays u.shared r signature :=
    ⟨hr, rfl, [], (List.append_nil _).symm, nofun⟩
  obtain ⟨-, hreplays⟩ := Machine.run_guarded_invariant
    (P := fun v => (outline g).Holds v ∧ u.shared.Replays v.shared r signature)
    (fun hv he hstep => ⟨(outline_step hv.1 he hstep).1, hv.2.step hv.1 hcompleted hsig he hstep⟩)
    ⟨hholds, hstart⟩ (hlater u hu) hu'
  refine ⟨hreplays, fun i ask requestID hready hdigest => ?_⟩
  have hanswer : existingAnswer g ask r = some (.ok signature) := by
    unfold existingAnswer
    rw [if_neg (not_not.mpr hdigest.symm), hcompleted, hsig]
  rw [hready]
  simp only [next, Call.find, hreplays.record, hanswer]

/-! ### Three runs -/

def gateway : Gateway where
  idempotencyKey := "order-1"
  sha256 := fun message => message

def digest : String := "6b86b273"

def looksUp (i : Nat) (ask : Ask) (requestID : String) : List (Nat × Action) :=
  [(i, .call ask), (i, .choose 2 (some ⟨"ceremony", 3⟩) [1, 2, 3]), (i, .find .answered requestID)]

def signs (i n : Nat) (bytes : String) : List (Nat × Action) :=
  [(i, .start .answered), (9, .finish n ⟨"completed", some bytes, none⟩), (i, .result none),
    (i, .record .answered)]

def signsFirst : List (Nat × Action) :=
  looksUp 0 ⟨"key-1", digest⟩ "row-1" ++ (0, .create .answered) :: signs 0 0 "3044"

theorem distinct_of_ne (h : ∀ requestID, e.2 ≠ .find .answered requestID) : Distinct g u e :=
  fun _ _ requestID hfind => absurd hfind (h requestID)

theorem signing_idempotent_repeated :
    Promise gateway signsFirst (looksUp 1 ⟨"key-1", digest⟩ "row-2") ∧
      Machine.CanRun (step (next gateway)) (.idle .empty)
        (signsFirst ++ looksUp 1 ⟨"key-1", digest⟩ "row-2") := by
  refine ⟨signing_idempotent ?_, ⟨_, rfl⟩⟩
  refine Machine.guarded_cons rfl (distinct_of_ne nofun) ?_
  refine Machine.guarded_cons rfl (distinct_of_ne nofun) ?_
  refine Machine.guarded_cons rfl nofun ?_
  iterate 7 refine Machine.guarded_cons rfl (distinct_of_ne nofun) ?_
  refine Machine.guarded_cons rfl (fun ask r _ _ hask hr _ => ?_) trivial
  cases hask
  cases hr
  exact ⟨rfl, nofun⟩

/-- The first call cannot start its workflow. Two more find its row failed and both go on. -/
def retriedTwice : List (Nat × Action) :=
  looksUp 0 ⟨"key-1", digest⟩ "row-1" ++
    [(0, .create .answered), (0, .start (.failed "unavailable")), (0, .record .answered)] ++
    looksUp 1 ⟨"key-1", digest⟩ "row-2" ++ looksUp 2 ⟨"key-1", digest⟩ "row-3" ++ signs 1 0 "3044"

/--
**Neither part of the condition can be left out.** A call for another key is given the signature of
the first key. And of two calls that go on under a failed row, the second runs another ceremony
after the first has recorded its signature, and overwrites that.
-/
theorem idempotency_broken :
    ¬ Promise gateway (signsFirst ++ looksUp 1 ⟨"key-2", digest⟩ "row-2") [] ∧
    ¬ Promise gateway retriedTwice (signs 2 1 "3045") := by
  constructor
  · intro h
    obtain ⟨⟨⟨ask, -, hanswers⟩, -⟩, -⟩ := h _ _ rfl rfl
    have h1 := (hanswers _ List.mem_cons_self _ rfl).1
    have h2 := (hanswers _ (List.mem_cons_of_mem _ List.mem_cons_self) _ rfl).1
    exact absurd (h1.trans h2.symm) (by decide)
  · intro h
    obtain ⟨-, hreplays⟩ := h _ _ rfl rfl
    have hrecord := (hreplays _ _ rfl rfl rfl).1.record
    exact absurd (congrArg (Option.bind · SigningRequest.signature) hrecord) (by decide)

end OpenFireblocks.Keys
