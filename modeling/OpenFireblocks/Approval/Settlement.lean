import OpenFireblocks.Approval.DatabaseInvariant
import OpenFireblocks.Approval.Workflow

/-!
# A settlement signs only what enough people approved

The signals count for nothing. The workflow goes on to sign only after reading an approved record
(`reconcile`), a closed record stays closed (`Later`), and an approved one agrees with its decisions
(`Sound`). So a run carries along that the record is there, and from the reading on that it is approved
(`Safe`).
-/

namespace OpenFireblocks.Approval

open Machine Outcome

variable {U : Type} {w : Worker U} {workflowID : String} {req : TransactionRequest}

/-! ## The record of a request -/

section

variable (w workflowID req)

/-- The row `OpenApprovalRequest` opened for this settlement. -/
structure Opened (r : Request U) : Prop where
  workflow : r.workflowID = workflowID
  customer : w.pg.castUUID req.customerID = some r.customerID
  initiator : initiatorID w req = some r.initiatedByUserID
  /-- what the approvers are shown -/
  summary : ∃ reasons, r.summary = w.summary req reasons

def Own (db : Database U) : Prop :=
  ∀ r ∈ db.requests, r.workflowID = workflowID → Opened w workflowID req r

def RecordedApproved (db : Database U) : Prop :=
  ∃ r ∈ db.requests, Opened w workflowID req r ∧ r.status = .approved

end

theorem Opened.later {r r' : Request U} (h : Opened w workflowID req r) (hl : Later r r') :
    Opened w workflowID req r' where
  workflow := hl.workflowID.trans h.workflow
  customer := hl.customerID ▸ h.customer
  initiator := hl.initiatedByUserID ▸ h.initiator
  summary := hl.summary ▸ h.summary

variable {db db' : Database U}

variable {opened : List String} {s t : System U}

theorem Own.evolves (h : Own w workflowID req db) (he : Evolves opened db db')
    (hopened : workflowID ∉ opened) : Own w workflowID req db' := by
  intro r' hr' hw
  rcases he.origin r' hr' with ⟨r, hr, hl⟩ | hnew
  · exact (h r hr (hl.workflowID.symm.trans hw)).later hl
  · exact absurd (hw ▸ hnew) hopened

theorem RecordedApproved.evolves (h : RecordedApproved w workflowID req db)
    (he : Evolves opened db db') : RecordedApproved w workflowID req db' := by
  obtain ⟨r, hr, ho, ha⟩ := h
  obtain ⟨r', hr', hl⟩ := he.requests r hr
  exact ⟨r', hr', ho.later hl, (hl.closed (by rw [ha]; decide)).trans ha⟩

variable [DecidableEq U]

variable (w workflowID req) in
/-- The record is approved, by enough people other than the initiator, and nobody rejected. -/
def ApprovedByEnough (db : Database U) : Prop :=
  ∃ r ∈ db.requests, Opened w workflowID req r ∧ r.status = .approved ∧
    max r.requiredApprovals 1 ≤ distinctApprovals db.decisions r ∧
    ∀ d ∈ db.decisions, d.approvalID = r.approvalID → d.decision ≠ .reject

/-- No decision is the initiator's, so leaving them out changes no count. -/
theorem distinctApprovals_eq (hs : Sound db) {r : Request U} (hr : r ∈ db.requests) :
    distinctApprovals db.decisions r = approvals db.decisions r.approvalID := by
  refine congrArg (fun l => (List.map DecisionRow.userID l).dedup.length) ?_
  refine List.filter_congr fun d hd => ?_
  obtain ⟨r', hr', hid, hinit⟩ := hs.refers d hd
  by_cases he : d.approvalID = r.approvalID
  · have hrr := hs.eq_of_approvalID hr' hr (hid.trans he)
    subst hrr
    simp [Ne.symm hinit]
  · simp [he]

theorem RecordedApproved.byEnough (hs : Sound db) (h : RecordedApproved w workflowID req db) :
    ApprovedByEnough w workflowID req db := by
  obtain ⟨r, hr, ho, ha⟩ := h
  have hagree := hs.agrees r hr
  refine ⟨r, hr, ho, ha, ?_, fun d hd => hagree.not_rejected (by rw [ha]; decide) hd⟩
  rw [distinctApprovals_eq hs hr, Nat.max_eq_left r.required_range.1]
  exact hagree.approved ha

/-! ## What is carried along a run -/

section

variable (w workflowID req)

/-- Other clients may send anything but a new name for a request and a record of this workflow. -/
def Environment (_ : System U) : Event U → Prop
  | .statement s => s.KeepsIDs ∧ workflowID ∉ s.opens
  | _ => True

/-- The policy flagged the request, and the approval step is the one with segregation of duties. -/
def System.Flagged (s : System U) : Prop :=
  ∃ policy, s.policy = some (policy, .one) ∧ policy.requiresApproval = true

def PhaseSafe (s : System U) : Prop :=
  match s.phase with
  | .closeRecord outcome => outcome = .approved → RecordedApproved w workflowID req s.db
  | .waitForApproval => ¬ s.Flagged
  | .sign | .broadcast _ | .monitor _ => s.Flagged → RecordedApproved w workflowID req s.db
  | _ => True

structure Safe (s : System U) : Prop where
  sound : Sound s.db
  own : Own w workflowID req s.db
  phase : PhaseSafe w workflowID req s

end

omit [DecidableEq U] in
theorem PhaseSafe.evolves {db' : Database U} (h : PhaseSafe w workflowID req s)
    (he : Evolves opened s.db db') : PhaseSafe w workflowID req { s with db := db' } := by
  unfold PhaseSafe at *
  cases hp : s.phase <;> simp only [hp] at h ⊢
  · exact fun ha => (h ha).evolves he
  · exact h
  · exact fun hf => (h hf).evolves he
  · exact fun hf => (h hf).evolves he
  · exact fun hf => (h hf).evolves he

theorem Safe.evolves (h : Safe w workflowID req s) (hs : Sound db') (he : Evolves opened s.db db')
    (hopened : workflowID ∉ opened) : Safe w workflowID req { s with db := db' } :=
  ⟨hs, h.own.evolves he hopened, h.phase.evolves he⟩

/-- The insert of `OpenApprovalRequest` adds the record, if it is not there. -/
theorem Own.insertRequest {row : Request U} (h : Own w workflowID req db)
    (hrow : Opened w workflowID req row) (hi : insertRequest db row = .ok db') :
    Own w workflowID req db' := by
  unfold Approval.insertRequest at hi
  split at hi
  · cases hi
    exact h
  split at hi
  · simp at hi
  cases hi
  intro r hr hw
  rcases List.mem_append.mp hr with hr | hr
  · exact h r hr hw
  rw [List.mem_singleton.mp hr]
  exact ⟨hrow.workflow, hrow.customer, hrow.initiator, hrow.summary⟩

theorem Sound.closeApprovalRequest {status : Status} (hs : Sound db)
    (h : closeApprovalRequest db workflowID status = .ok db') : Sound db' ∧ Evolves [] db db' := by
  unfold Approval.closeApprovalRequest at h
  split at h
  · cases h
    exact ⟨hs, .refl _ _⟩
  split at h
  · cases h
    exact ⟨hs, .refl _ _⟩
  split at h
  · exact hs.setStatus h
  cases h
  exact ⟨hs, .refl _ _⟩

theorem recordedApproved_of_reconcile {state : ApprovalState} {recorded : RecordedApprovalStatus}
    (hown : Own w workflowID req db)
    (hread : getRecordedApprovalStatus db workflowID = some recorded)
    (h : reconcile state recorded = .approved) : RecordedApproved w workflowID req db := by
  obtain ⟨r, hfind, rfl⟩ := Option.map_eq_some_iff.mp hread
  have hr := List.mem_of_find?_eq_some hfind
  have hid := List.find?_some hfind
  have hw : r.workflowID = workflowID := of_decide_eq_true hid
  unfold reconcile at h
  split at h
  · simp at h
  next hagree =>
  exact ⟨r, hr, hown r hr hw, by simpa using (not_or.mp hagree).1⟩

/-! ## One step -/

theorem Safe.moveTo {p : Phase} (h : Safe w workflowID req s)
    (hp : PhaseSafe w workflowID req { s with phase := p }) :
    Safe w workflowID req { s with phase := p } :=
  ⟨h.sound, h.own, hp⟩

omit [DecidableEq U] in
/-- Only the approval step with segregation of duties is taken for a flagged request. -/
theorem afterPolicy_safe (s : System U) (policy : PolicyCheckResult) (version : Version) :
    PhaseSafe w workflowID req
      { s with phase := afterPolicy workflowID policy version, policy := some (policy, version) } := by
  unfold PhaseSafe afterPolicy System.Flagged
  by_cases ha : policy.approved = false
  · simp [ha, denied]
  by_cases hr : policy.requiresApproval
  · cases version with
    | default | one => simp [ha, hr]
  · simp [ha, hr]

omit [DecidableEq U] in
theorem afterSelect_safe (s : System U) (state : ApprovalState) (seen : List String) :
    PhaseSafe w workflowID req { s with phase := afterSelect state seen } := by
  unfold PhaseSafe afterSelect
  cases state.status <;> simp

/-- **Every event keeps the record and the workflow in step.** -/
theorem step_safe {e : Event U} (h : Safe w workflowID req s) (henv : Environment workflowID s e)
    (hstep : step w workflowID req s e = some t) : Safe w workflowID req t := by
  cases e with
  | policyChecked policy version =>
    simp only [step] at hstep
    split at hstep
    · cases hstep
      exact ⟨h.sound, h.own, afterPolicy_safe s policy version⟩
    · cases hstep
  | recordInserted newID =>
    simp only [step] at hstep
    split at hstep
    · split at hstep
      · cases hstep
      next row hrow =>
      split at hstep
      · next db hinsert =>
        cases hstep
        obtain ⟨customer, hcustomer, hrow⟩ := Option.bind_eq_some_iff.mp hrow
        obtain ⟨initiator, hinitiator, hrow⟩ := Option.bind_eq_some_iff.mp hrow
        cases hrow
        exact ⟨(h.sound.insertRequest hinsert).1,
          h.own.insertRequest ⟨rfl, hcustomer, hinitiator, _, rfl⟩ hinsert, trivial⟩
      · cases hstep
    · cases hstep
  | approvalSignal approved =>
    simp only [step] at hstep
    split at hstep
    · next hphase =>
      cases hstep
      have hflagged : ¬ s.Flagged := by
        have := h.phase
        rwa [PhaseSafe, hphase] at this
      refine h.moveTo ?_
      cases approved with
      | true => exact fun hf => absurd hf hflagged
      | false => exact trivial
    · cases hstep
  | outcomeRead =>
    simp only [step] at hstep
    split at hstep
    · next hread =>
      cases hstep
      exact h.moveTo fun ha => recordedApproved_of_reconcile h.own hread ha
    · cases hstep
      exact h.moveTo trivial
    · cases hstep
  | recordClosed acknowledged =>
    simp only [step] at hstep
    split at hstep
    · next outcome hphase =>
      split at hstep
      · cases hstep
      next db hclose =>
      cases hstep
      obtain ⟨hs, he⟩ := h.sound.closeApprovalRequest hclose
      have happroved : outcome = .approved → RecordedApproved w workflowID req db := by
        have := h.phase
        rw [PhaseSafe, hphase] at this
        exact fun ha => (this ha).evolves he
      refine ⟨hs, h.own.evolves he (by simp), ?_⟩
      by_cases hack : acknowledged = false
      · simpa [PhaseSafe, hack] using happroved
      by_cases ho : outcome = .approved
      · simpa [PhaseSafe, hack, ho] using fun _ => happroved ho
      · simp [PhaseSafe, hack, ho, denied]
    · cases hstep
  | signTransaction attempt | broadcastTransaction attempt =>
    simp only [step] at hstep
    have hphase := h.phase
    split at hstep
    · next hp =>
      cases hstep
      rw [PhaseSafe, hp] at hphase
      exact h.moveTo hphase
    · cases hstep
      exact h.moveTo trivial
    · cases hstep
      exact h
    · cases hstep
  | recordRead | signal | timer | monitorTransaction | activityFailed =>
    -- the phase it moves to is not one that has anything to say about the record
    simp only [step] at hstep
    split at hstep <;> cases hstep
    all_goals first | exact h | exact h.moveTo trivial | exact h.moveTo (afterSelect_safe s _ _)
  | statement statement =>
    cases hstep
    obtain ⟨hs, he⟩ := after_sound _ h.sound henv.1
    exact h.evolves hs he henv.2

/-! ## Refusal is final -/

/-- The workflow has acted on a rejection or a timeout, or has ended. -/
def Phase.Refused : Phase → Prop
  | .closeRecord outcome => outcome ≠ .approved
  | .finished _ _ => True
  | _ => False

theorem refused_step {e : Event U} (h : s.phase.Refused)
    (hstep : step w workflowID req s e = some t) :
    t.phase.Refused ∧ ∀ attempt, e ≠ .signTransaction attempt := by
  obtain ⟨db, phase, policy⟩ := s
  cases phase with
  | closeRecord outcome =>
    cases e with
    | recordClosed acknowledged =>
      simp only [step] at hstep
      split at hstep
      · cases hstep
      cases hstep
      by_cases hack : acknowledged = false
      · simpa [hack] using h
      · simp [hack, show outcome ≠ .approved from h, denied, Phase.Refused]
    | activityFailed err =>
      cases hstep
      exact ⟨trivial, by simp⟩
    | statement statement =>
      cases hstep
      exact ⟨h, by simp⟩
    | _ => simp [step] at hstep
  | finished =>
    cases e with
    | statement statement =>
      cases hstep
      exact ⟨trivial, by simp⟩
    | _ => simp [step] at hstep
  | _ => exact absurd h id

theorem no_sign_after_refused {es : List (Event U)} (h : s.phase.Refused)
    (hrun : run (step w workflowID req) s es = some t) (attempt : Attempt SignResult) :
    .signTransaction attempt ∉ es := by
  induction es generalizing s with
  | nil => simp
  | cons e es ih =>
    obtain ⟨u, hu, hrun⟩ := run_cons_eq_some.mp hrun
    obtain ⟨hrefused, hne⟩ := refused_step h hu
    rw [List.mem_cons, not_or]
    exact ⟨(hne attempt).symm, ih hrefused hrun⟩

/-! ## Every run -/

/--
**A settlement signs only what enough people approved.**

From any sound database without a record of this workflow, and along any run in which the other
clients keep to `Environment`: when `SignTransaction` of a flagged request is executed the record
is approved by enough people and rejected by nobody, and once the workflow has turned to closing
the record as rejected or expired it is never executed.
-/
theorem settlement_signs_only_approved {db : Database U} {s : System U} {es : List (Event U)}
    (hsound : Sound db) (hfresh : ∀ r ∈ db.requests, r.workflowID ≠ workflowID)
    (henv : Guarded (step w workflowID req) (Environment workflowID) (.start db) es)
    (hrun : run (step w workflowID req) (.start db) es = some s) :
    (∀ attempt t, step w workflowID req s (.signTransaction attempt) = some t → s.Flagged →
      ApprovedByEnough w workflowID req s.db) ∧
    (∀ outcome, s.phase = .closeRecord outcome → outcome ≠ .approved →
      ∀ fs t, run (step w workflowID req) s fs = some t → ∀ attempt, .signTransaction attempt ∉ fs) := by
  have hstart : Safe w workflowID req (.start db) :=
    ⟨hsound, fun r hr hw => absurd hw (hfresh r hr), trivial⟩
  have hsafe : Safe w workflowID req s :=
    run_guarded_invariant (fun h he hstep => step_safe h he hstep) hstart henv hrun
  refine ⟨fun attempt t hstep hflagged => ?_, fun outcome hphase hne fs t hfs attempt => ?_⟩
  · have hphase : s.phase = .sign := by
      simp only [step] at hstep
      split at hstep <;> first | assumption | cases hstep
    have happroved := hsafe.phase
    rw [PhaseSafe, hphase] at happroved
    exact (happroved hflagged).byEnough hsafe.sound
  · refine no_sign_after_refused ?_ hfs attempt
    rw [hphase]
    exact hne

/-! ### Two approvers -/

/-- The worker on the request below. UUIDs are numbers. -/
def exampleWorker : Worker Nat where
  pg :=
    { uuidText := fun n => "00000000-0000-4000-8000-00000000000" ++ toString n
      castUUID := fun s =>
        if s = "00000000-0000-4000-8000-000000000001" then some 1
        else if s = "00000000-0000-4000-8000-000000000009" then some 9
        else none
      timestampText := toString }
  summary := fun _ _ =>
    "\x7b\"chainId\":1,\"country\":\"ZA\",\"data\":\"0x\",\"reasons\":[\"over limit\"],\"to\":\"0x01\",\"valueWei\":\"5\"\x7d"

/-- User 1 of customer 9 wants to send 5 wei. -/
def exampleRequest : TransactionRequest where
  customerID := "00000000-0000-4000-8000-000000000009"
  chainID := 1
  recipient := "0x01"
  data := "0x"
  value := "5"
  country := "ZA"
  initiatedByUserID := "00000000-0000-4000-8000-000000000001"
  initiatedByLabel := ""

/-- Users 2 and 3 are approvers. -/
def exampleDatabase : Database Nat where
  requests := []
  decisions := []
  policies := fun _ => none
  roles := fun user _ => if user = 1 then some .operator else some .approver
  active := fun _ => true
  now := 0

def approval (user : Nat) : DecisionRow Nat where
  approvalID := 7
  customerID := 9
  userID := user
  decision := .approve
  reason := none
  stepUp := .totp
  createdAt := 0

def approvalSignal (user : String) : ApprovalDecisionSignal where
  approverUserID := "00000000-0000-4000-8000-00000000000" ++ user
  decision := "approve"

/-- The initiator's own signal and decision are tried and come to nothing. -/
def exampleEvents : List (Event Nat) :=
  [.policyChecked { approved := true, denials := [], requiresApproval := true,
                    approvalReasons := ["over limit"], reason := "" } .one,
    .recordInserted 7, .recordRead, .signal (approvalSignal "1"), .statement (.insertDecision (approval 1)),
    .statement (.insertDecision (approval 2)), .signal (approvalSignal "2"),
    .statement (.insertDecision (approval 3)), .signal (approvalSignal "3"), .outcomeRead,
    .recordClosed true]

theorem settlement_signs_two_approvers :
    ∃ s, run (step exampleWorker "settlement-9-a" exampleRequest) (.start exampleDatabase)
        exampleEvents = some s ∧ s.phase = .sign ∧ s.Flagged ∧
      ApprovedByEnough exampleWorker "settlement-9-a" exampleRequest s.db := by
  have hsound : Sound exampleDatabase :=
    ⟨⟨List.nodup_nil, List.nodup_nil, List.nodup_nil, by simp [exampleDatabase]⟩,
      by simp [exampleDatabase]⟩
  have hfresh : ∀ r ∈ exampleDatabase.requests, r.workflowID ≠ "settlement-9-a" := by
    simp [exampleDatabase]
  have henv : Guarded (step exampleWorker "settlement-9-a" exampleRequest)
      (Environment "settlement-9-a") (.start exampleDatabase) exampleEvents := by
    refine guarded_of_forall ?_
    simp [exampleEvents, Environment, Statement.KeepsIDs, Statement.opens]
  obtain ⟨s, hrun, hphase, hpolicy⟩ : ∃ s, run (step exampleWorker "settlement-9-a" exampleRequest)
      (.start exampleDatabase) exampleEvents = some s ∧ s.phase = .sign ∧
      s.policy = some ({ approved := true, denials := [], requiresApproval := true,
                         approvalReasons := ["over limit"], reason := "" }, .one) :=
    ⟨_, rfl, rfl, rfl⟩
  have hstep : step exampleWorker "settlement-9-a" exampleRequest s
      (.signTransaction .retried) = some s := by
    simp [step, hphase]
  exact ⟨s, hrun, hphase, ⟨_, hpolicy, rfl⟩,
    (settlement_signs_only_approved hsound hfresh henv hrun).1 _ _ hstep ⟨_, hpolicy, rfl⟩⟩

end OpenFireblocks.Approval
