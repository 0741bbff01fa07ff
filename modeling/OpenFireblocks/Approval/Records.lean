import OpenFireblocks.Approval.DatabaseInvariant
import Mathlib.Data.List.Induction

/-!
# Approval records over whole runs

Any number of statements, one after the other, on tables that start empty. `RecordsKept` is what
migration 023 promises: the terms of a request stay, a closed request stays closed, it is approved only
if enough people were entitled to approve it and did, and decisions stay.

`approval_request_guard` compares every term but `approval_id` and `initiated_by_label`. So one `UPDATE`
can put a request in the place of another that already has approvals (`renamed_request_approved`), and
one can give it another initiator to show.
-/

namespace OpenFireblocks.Approval

open Outcome

variable {U : Type} [DecidableEq U] {pg : Pg U} {db db' : Database U}

/-! ## Runs -/

/-- The tables after these statements, whether they were accepted or raised. -/
def afterAll (pg : Pg U) (db : Database U) (statements : List (Statement U)) : Database U :=
  statements.foldl (after pg) db

theorem afterAll_append (db : Database U) (earlier later : List (Statement U)) :
    afterAll pg db (earlier ++ later) = afterAll pg (afterAll pg db earlier) later :=
  List.foldl_append

omit [DecidableEq U] in
theorem Evolves.mono {opened opened' : List String} (h : Evolves opened db db')
    (hsub : opened ⊆ opened') : Evolves opened' db db' where
  requests := h.requests
  origin := fun r hr => (h.origin r hr).imp_right fun hw => hsub hw
  decisions := h.decisions

variable {statements : List (Statement U)}

theorem afterAll_sound (pg : Pg U) (hs : Sound db) (hids : ∀ s ∈ statements, s.KeepsIDs) :
    Sound (afterAll pg db statements) ∧
      Evolves (statements.flatMap Statement.opens) db (afterAll pg db statements) := by
  induction statements generalizing db with
  | nil => exact ⟨hs, .refl _ _⟩
  | cons s statements ih =>
    obtain ⟨hs', he⟩ := after_sound pg hs (hids s List.mem_cons_self)
    obtain ⟨hs'', he'⟩ := ih hs' fun t ht => hids t (List.mem_cons_of_mem s ht)
    exact ⟨hs'', (he.mono (List.subset_append_left _ _)).trans
      (he'.mono (List.subset_append_right _ _))⟩

/-! ## Who decided what -/

/-- What the guard asks of a person who decides on a request. -/
structure Entitled (db : Database U) (r : Request U) (user : U) : Prop where
  role : db.roles user r.customerID = some .approver ∨ db.roles user r.customerID = some .admin
  active : db.active user = true
  in_time : db.now < r.expiresAt
  not_initiator : r.initiatedByUserID ≠ some user

/-- At some point of the run this person decided on this request, being entitled to. -/
def DecidedBy (pg : Pg U) (db₀ : Database U) (statements : List (Statement U)) (r : Request U)
    (decision : Decision) (user : U) : Prop :=
  ∃ before row later, statements = before ++ .insertDecision row :: later ∧
    (∃ db, exec pg (afterAll pg db₀ before) (.insertDecision row) = .ok db) ∧
    row.userID = user ∧ row.decision = decision ∧
    (∃ req ∈ (afterAll pg db₀ before).requests, req.approvalID = row.approvalID ∧ Later req r) ∧
    Entitled (afterAll pg db₀ before) r user

/-- Enough people were entitled to approve the request and did, and nobody rejected it. -/
structure Quorum (pg : Pg U) (db₀ : Database U) (statements : List (Statement U))
    (r : Request U) : Prop where
  approvers : ∃ users : List U, users.Nodup ∧ r.requiredApprovals ≤ users.length ∧
    ∀ user ∈ users, DecidedBy pg db₀ statements r .approve user
  unopposed : ∀ d ∈ (afterAll pg db₀ statements).decisions, d.approvalID = r.approvalID →
    d.decision ≠ .reject

/-- What the records after some statements promise of the records after more of them. -/
structure RecordsKept (pg : Pg U) (db₀ : Database U) (earlier later : List (Statement U)) :
    Prop where
  /-- The request is still there, the only one of its name, with its terms and, if it was closed,
  with its status. -/
  requests : ∀ r ∈ (afterAll pg db₀ earlier).requests,
    ∃ r' ∈ (afterAll pg db₀ (earlier ++ later)).requests, Later r r' ∧
      r'.initiatedByLabel = r.initiatedByLabel ∧
      ∀ r'' ∈ (afterAll pg db₀ (earlier ++ later)).requests, r''.approvalID = r.approvalID →
        r'' = r'
  approved : ∀ r ∈ (afterAll pg db₀ (earlier ++ later)).requests, r.status = .approved →
    Quorum pg db₀ (earlier ++ later) r
  decisions : (afterAll pg db₀ earlier).decisions <+: (afterAll pg db₀ (earlier ++ later)).decisions
  once : ((afterAll pg db₀ (earlier ++ later)).decisions.map fun d =>
    (d.approvalID, d.userID)).Nodup

/-! ## Where a decision comes from -/

theorem setStatus_decisions {id : U} {status : Status} (h : setStatus db id status = .ok db') :
    db'.decisions = db.decisions := by
  cases hfind : findRequest db id with
  | none =>
    rw [setStatus, hfind] at h
    cases h
    rfl
  | some old =>
    obtain ⟨-, -, rfl⟩ := setStatus_eq_ok hfind h
    rfl

variable {d : DecisionRow U}

theorem approvalDecisionApply_decisions (h : approvalDecisionApply db d = .ok db') :
    db'.decisions = db.decisions := by
  unfold approvalDecisionApply at h
  split at h
  · exact setStatus_decisions h
  split at h
  · cases h
    rfl
  split at h
  · exact setStatus_decisions h
  cases h
  rfl

theorem updateRow_decisions {id : U} {new : Request U} (h : updateRow db id new = .ok db') :
    db'.decisions = db.decisions := by
  unfold updateRow at h
  split at h
  · cases h
    rfl
  obtain ⟨new', -, h⟩ := bind_eq_ok.mp h
  split at h
  · simp at h
  cases h
  rfl

theorem updateRows_decisions {changes : List (U × Request U)}
    (h : updateRows db changes = .ok db') : db'.decisions = db.decisions := by
  induction changes generalizing db with
  | nil =>
    cases h
    rfl
  | cons change changes ih =>
    obtain ⟨next, hnext, h⟩ := bind_eq_ok.mp h
    exact (ih h).trans (updateRow_decisions hnext)

/-- A decision is added by an accepted `INSERT` of it and by nothing else. -/
theorem exec_decisions {statement : Statement U} (h : exec pg db statement = .ok db')
    (hd : d ∈ db'.decisions) :
    d ∈ db.decisions ∨ ∃ row req, statement = .insertDecision row ∧ Admitted db req row ∧
      d = { row with createdAt := db.now } := by
  cases statement with
  | insertRequest row =>
    change insertRequest db row = .ok db' at h
    unfold insertRequest at h
    split at h
    · cases h
      exact .inl hd
    split at h
    · simp at h
    cases h
    exact .inl hd
  | insertDecision row =>
    obtain ⟨d, hguard, h⟩ := bind_eq_ok.mp h
    obtain ⟨req, -, hadm, rfl⟩ := approvalDecisionGuard_eq_ok hguard
    obtain ⟨-, h⟩ := ite_error_eq_ok.mp h
    rw [approvalDecisionApply_decisions h] at hd
    rcases List.mem_append.mp hd with hd | hd
    · exact .inl hd
    · exact .inr ⟨row, req, rfl, hadm, List.mem_singleton.mp hd⟩
  | updateRequests changes =>
    obtain ⟨next, hnext, h⟩ := bind_eq_ok.mp h
    split at h
    · cases h
      exact .inl (updateRows_decisions hnext ▸ hd)
    · simp at h
  | deleteRequest id | updateDecision | deleteDecision =>
    obtain rfl := immutable_eq_ok h
    exact .inl hd
  | setPolicy | setRole | setActive | advance microseconds =>
    cases h
    exact .inl hd

/-- The guard let the decision in at some point of the run. -/
def LetIn (pg : Pg U) (db₀ : Database U) (statements : List (Statement U)) (d : DecisionRow U) :
    Prop :=
  ∃ before row req later, statements = before ++ .insertDecision row :: later ∧
    (∃ db, exec pg (afterAll pg db₀ before) (.insertDecision row) = .ok db) ∧
    Admitted (afterAll pg db₀ before) req row ∧ row.approvalID = d.approvalID ∧
    row.userID = d.userID ∧ row.decision = d.decision

theorem LetIn.append (h : LetIn pg db statements d) (more : List (Statement U)) :
    LetIn pg db (statements ++ more) d := by
  obtain ⟨before, row, req, later, rfl, hrest⟩ := h
  exact ⟨before, row, req, later ++ more, by simp, hrest⟩

theorem letIn_of_mem (hempty : db.decisions = []) (hd : d ∈ (afterAll pg db statements).decisions) :
    LetIn pg db statements d := by
  -- from the last statement backwards
  induction statements using List.reverseRecOn with
  | nil =>
    rw [afterAll, List.foldl_nil, hempty] at hd
    cases hd
  | append_singleton statements s ih =>
    rw [afterAll_append] at hd
    change d ∈ (after pg (afterAll pg db statements) s).decisions at hd
    cases hexec : exec pg (afterAll pg db statements) s with
    | error err =>
      rw [after, hexec] at hd
      exact (ih hd).append [s]
    | ok db' =>
      rw [after, hexec] at hd
      rcases exec_decisions hexec hd with h | ⟨row, req, rfl, hadm, rfl⟩
      · exact (ih h).append [s]
      · exact ⟨statements, row, req, [], rfl, ⟨db', hexec⟩, hadm, rfl, rfl, rfl⟩

theorem decidedBy_of_mem (hs : Sound db) (hempty : db.decisions = [])
    (hids : ∀ s ∈ statements, s.KeepsIDs) {r : Request U}
    (hr : r ∈ (afterAll pg db statements).requests) (hd : d ∈ (afterAll pg db statements).decisions)
    (hid : d.approvalID = r.approvalID) : DecidedBy pg db statements r d.decision d.userID := by
  obtain ⟨before, row, req, later, rfl, hok, hadm, hrow, huser, hdecision⟩ :=
    letIn_of_mem hempty hd
  -- the request the guard looked at is this one at an earlier time
  obtain ⟨hsb, -⟩ := afterAll_sound pg hs fun s h => hids s (List.mem_append_left _ h)
  obtain ⟨hsl, hel⟩ := afterAll_sound pg hsb fun s h => hids s (List.mem_append_right _ h)
  rw [← afterAll_append] at hsl hel
  obtain ⟨r', hr', hl⟩ := hel.requests req hadm.mem
  have hrr : r' = r := hsl.eq_of_approvalID hr' hr
    (hl.approvalID.trans (hadm.approvalID.trans (hrow.trans hid)))
  subst hrr
  refine ⟨before, row, later, rfl, hok, huser, hdecision, ⟨req, hadm.mem, hadm.approvalID, hl⟩, ?_⟩
  rw [← huser]
  refine ⟨?_, hadm.active, hl.expiresAt ▸ hadm.open_until, hl.initiatedByUserID ▸ hadm.not_initiator⟩
  rw [hl.customerID, hadm.customerID]
  exact hadm.role

/-! ## The label of the initiator -/

/-- An `UPDATE` leaves the label of every row it finds as it is. -/
def Statement.KeepsLabels (db : Database U) : Statement U → Prop
  | .updateRequests changes => ∀ change ∈ changes, ∀ r ∈ db.requests, r.approvalID = change.1 →
      change.2.initiatedByLabel = r.initiatedByLabel
  | _ => True

def SameLabels (db db' : Database U) : Prop :=
  ∀ r ∈ db.requests, ∀ r' ∈ db'.requests, r'.approvalID = r.approvalID →
    r'.initiatedByLabel = r.initiatedByLabel

section

variable (hkeys : (db.requests.map Request.approvalID).Nodup)
include hkeys

omit [DecidableEq U] in
theorem SameLabels.of_requests (h : db'.requests = db.requests) : SameLabels db db' := by
  intro r hr r' hr' hid
  rw [List.inj_on_of_nodup_map hkeys (h ▸ hr') hr hid]

theorem SameLabels.replace {old new : Request U} (hold : old ∈ db.requests)
    (hid : new.approvalID = old.approvalID) (hlabel : new.initiatedByLabel = old.initiatedByLabel) :
    SameLabels db (db.replace old.approvalID new) := by
  intro r hr r' hr' he
  rcases mem_replace hr' with rfl | ⟨hr', -⟩
  · rw [hlabel, List.inj_on_of_nodup_map hkeys hold hr (hid.symm.trans he)]
  · rw [List.inj_on_of_nodup_map hkeys hr' hr he]

theorem setStatus_sameLabels {id : U} {status : Status} (h : setStatus db id status = .ok db') :
    SameLabels db db' := by
  cases hfind : findRequest db id with
  | none =>
    rw [setStatus, hfind] at h
    cases h
    exact .of_requests hkeys rfl
  | some old =>
    obtain ⟨-, -, rfl⟩ := setStatus_eq_ok hfind h
    obtain ⟨hold, rfl⟩ := mem_of_findRequest hfind
    exact .replace hkeys hold rfl rfl

theorem approvalDecisionApply_sameLabels (h : approvalDecisionApply db d = .ok db') :
    SameLabels db db' := by
  unfold approvalDecisionApply at h
  repeat' split at h
  all_goals first
    | exact setStatus_sameLabels hkeys h
    | cases h
      exact .of_requests hkeys rfl

end

omit [DecidableEq U] in
theorem SameLabels.trans {opened : List String} {db'' : Database U} (he : Evolves opened db db')
    (h : SameLabels db db') (h' : SameLabels db' db'') : SameLabels db db'' := by
  intro r hr r'' hr'' hid
  obtain ⟨r', hr', hl⟩ := he.requests r hr
  rw [h' r' hr' r'' hr'' (hid.trans hl.approvalID.symm), h r hr r' hr' hl.approvalID]

theorem updateRows_sameLabels {changes : List (U × Request U)} (hs : Sound db)
    (hids : ∀ change ∈ changes, change.2.approvalID = change.1)
    (hlabels : (Statement.updateRequests changes).KeepsLabels db)
    (h : updateRows db changes = .ok db') : SameLabels db db' := by
  induction changes generalizing db with
  | nil =>
    cases h
    exact .of_requests hs.ids rfl
  | cons change changes ih =>
    obtain ⟨next, hnext, h⟩ := bind_eq_ok.mp h
    obtain ⟨hs', he⟩ := hs.updateRow hnext (hids change List.mem_cons_self)
    have hfirst : SameLabels db next := by
      cases hfind : findRequest db change.1 with
      | none =>
        rw [updateRow, hfind] at hnext
        cases hnext
        exact .of_requests hs.ids rfl
      | some old =>
        obtain ⟨hl, -, rfl⟩ := updateRow_eq_ok hfind hnext (hids change List.mem_cons_self)
        obtain ⟨hold, hid⟩ := mem_of_findRequest hfind
        rw [← hid]
        exact .replace hs.ids hold hl.approvalID
          (hlabels change List.mem_cons_self old hold hid)
    refine hfirst.trans he (ih hs' (fun c hc => hids c (List.mem_cons_of_mem _ hc)) ?_ h)
    -- a row of the next state has the label it had before
    intro c hc r' hr' hid
    obtain ⟨r, hr, hl⟩ | hnone := he.origin r' hr'
    · rw [hfirst r hr r' hr' hl.approvalID]
      exact hlabels c (List.mem_cons_of_mem _ hc) r hr (hl.approvalID.symm.trans hid)
    · cases hnone

theorem after_sameLabels {statement : Statement U} (hs : Sound db) (hids : statement.KeepsIDs)
    (hlabels : statement.KeepsLabels db) : SameLabels db (after pg db statement) := by
  unfold after
  split
  · next h =>
    cases statement with
    | insertRequest row =>
      change insertRequest db row = .ok _ at h
      unfold insertRequest at h
      repeat' split at h
      · cases h
        exact .of_requests hs.ids rfl
      · simp at h
      · next hid =>
        cases h
        intro r hr r' hr' he
        rcases List.mem_append.mp hr' with hr' | hr'
        · rw [hs.eq_of_approvalID hr' hr he]
        · rw [List.mem_singleton.mp hr'] at he
          exact absurd (List.any_eq_true.mpr ⟨r, hr, decide_eq_true he.symm⟩) hid
    | insertDecision row =>
      obtain ⟨d, -, h⟩ := bind_eq_ok.mp h
      split at h
      · simp at h
      · have hkeys : ((db.addDecision d).requests.map Request.approvalID).Nodup := hs.ids
        exact fun r hr => approvalDecisionApply_sameLabels hkeys h r hr
    | updateRequests changes =>
      obtain ⟨next, hnext, h⟩ := bind_eq_ok.mp h
      split at h
      · cases h
        exact updateRows_sameLabels hs hids hlabels hnext
      · simp at h
    | deleteRequest id | updateDecision | deleteDecision =>
      obtain rfl := immutable_eq_ok h
      exact .of_requests hs.ids rfl
    | setPolicy | setRole | setActive | advance microseconds =>
      cases h
      exact .of_requests hs.ids rfl
  · exact .of_requests hs.ids rfl

/-- No statement renames a request or gives it another initiator to show. -/
def KeepsTerms (pg : Pg U) (db : Database U) : List (Statement U) → Prop
  | [] => True
  | s :: statements => (s.KeepsIDs ∧ s.KeepsLabels db) ∧ KeepsTerms pg (after pg db s) statements

theorem KeepsTerms.keepsIDs (h : KeepsTerms pg db statements) : ∀ s ∈ statements, s.KeepsIDs := by
  induction statements generalizing db with
  | nil => simp
  | cons s statements ih => exact List.forall_mem_cons.mpr ⟨h.1.1, ih h.2⟩

theorem KeepsTerms.append {later : List (Statement U)} (h : KeepsTerms pg db (statements ++ later)) :
    KeepsTerms pg db statements ∧ KeepsTerms pg (afterAll pg db statements) later := by
  induction statements generalizing db with
  | nil => exact ⟨trivial, h⟩
  | cons s statements ih => exact ⟨⟨h.1, (ih h.2).1⟩, (ih h.2).2⟩

theorem afterAll_sameLabels (hs : Sound db) (h : KeepsTerms pg db statements) :
    SameLabels db (afterAll pg db statements) := by
  induction statements generalizing db with
  | nil => exact .of_requests hs.ids rfl
  | cons s statements ih =>
    obtain ⟨hs', he⟩ := after_sound pg hs h.1.1
    exact (after_sameLabels hs h.1.1 h.1.2).trans he (ih hs' h.2)

/-! ## Every run without a rename -/

theorem sound_of_empty (hr : db.requests = []) (hd : db.decisions = []) : Sound db := by
  refine ⟨⟨?_, ?_, ?_, ?_⟩, ?_⟩
  · rw [hr]
    exact List.nodup_nil
  · rw [hr]
    exact List.nodup_nil
  · rw [hd]
    exact List.nodup_nil
  · rw [hd]
    simp
  · rw [hr]
    simp

theorem quorum_of_approved (hs : Sound db) (hempty : db.decisions = [])
    (hids : ∀ s ∈ statements, s.KeepsIDs) {r : Request U}
    (hr : r ∈ (afterAll pg db statements).requests) (ha : r.status = .approved) :
    Quorum pg db statements r := by
  obtain ⟨hs', -⟩ := afterAll_sound pg hs hids
  have hagree := hs'.agrees r hr
  refine ⟨⟨_, List.nodup_dedup _, hagree.approved ha, fun user huser => ?_⟩, fun d hd => ?_⟩
  · obtain ⟨d, hd, rfl⟩ := List.mem_map.mp (List.mem_dedup.mp huser)
    obtain ⟨hd, happrove⟩ := List.mem_filter.mp hd
    obtain ⟨hid, hdecision⟩ := of_decide_eq_true happrove
    exact hdecision ▸ decidedBy_of_mem hs hempty hids hr hd hid
  · exact hagree.not_rejected (by rw [ha]; decide) hd

/--
**Approval records keep segregation of duties as long as no statement renames a request or gives it
another initiator to show**, whatever else is tried on the two tables.
-/
theorem approval_records_kept {db₀ : Database U} (hrequests : db₀.requests = [])
    (hdecisions : db₀.decisions = []) {earlier later : List (Statement U)}
    (hkeeps : KeepsTerms pg db₀ (earlier ++ later)) : RecordsKept pg db₀ earlier later := by
  have hids := hkeeps.keepsIDs
  have hs := sound_of_empty hrequests hdecisions
  obtain ⟨hs₁, -⟩ := afterAll_sound pg hs fun s h => hids s (List.mem_append_left _ h)
  obtain ⟨hs₂, he⟩ := afterAll_sound pg hs₁ fun s h => hids s (List.mem_append_right _ h)
  rw [← afterAll_append] at hs₂ he
  refine ⟨fun r hr => ?_, fun r hr ha => ?_, he.decisions, hs₂.deciders⟩
  · obtain ⟨r', hr', hl⟩ := he.requests r hr
    have hlabels := afterAll_sameLabels hs₁ hkeeps.append.2
    rw [← afterAll_append] at hlabels
    exact ⟨r', hr', hl, hlabels r hr r' hr' hl.approvalID, fun r'' hr'' hid =>
      hs₂.eq_of_approvalID hr'' hr' (hid.trans hl.approvalID.symm)⟩
  · exact quorum_of_approved hs hdecisions hids hr ha

/-! ### Two transfers of one organisation -/

/-- User 1 and user 2 are admins of organisation 9, user 3 approves for it. -/
def twoTransfers : Database Nat where
  requests := []
  decisions := []
  policies := fun _ => none
  roles := fun user _ => if user = 3 then some .approver else some .admin
  active := fun _ => true
  now := 0

theorem two_required : 1 ≤ 2 ∧ 2 ≤ 10 := by decide

theorem hour_window : 5 ≤ 60 ∧ 60 ≤ 10080 := by decide

def twoWithinAnHour : ApprovalPolicy := ⟨2, 60, two_required, hour_window⟩

/-- A request that needs two approvals within the hour. -/
def transferOf (id : Nat) (workflow : String) (initiator : Nat) : Request Nat where
  approvalID := id
  customerID := 9
  workflowID := workflow
  initiatedByUserID := some initiator
  initiatedByLabel := ""
  requiredApprovals := 2
  status := .pending
  summary := ""
  createdAt := 0
  expiresAt := 3600000000
  decidedAt := none
  required_range := two_required
  expires_after := by decide

def approveAs (id user : Nat) : DecisionRow Nat where
  approvalID := id
  customerID := 9
  userID := user
  decision := .approve
  reason := none
  stepUp := .totp
  createdAt := 0

def numbers : Pg Nat where
  uuidText := toString
  castUUID := String.toNat?
  timestampText := toString

/-- Both transfers are opened, and user 1 approves the one that user 2 started. -/
def firstApproval : List (Statement Nat) :=
  [.insertRequest (transferOf 7 "settlement-9-a" 2), .insertRequest (transferOf 6 "settlement-9-b" 1),
    .insertDecision (approveAs 7 1)]

theorem approval_records_kept_two_approvers :
    RecordsKept numbers twoTransfers firstApproval [.insertDecision (approveAs 7 3)] ∧
      ∃ r ∈ (afterAll numbers twoTransfers
          (firstApproval ++ [.insertDecision (approveAs 7 3)])).requests,
        r.workflowID = "settlement-9-a" ∧ r.status = .approved := by
  refine ⟨approval_records_kept rfl rfl ?_, ⟨_, List.mem_cons_self, rfl, rfl⟩⟩
  simp [firstApproval, KeepsTerms, Statement.KeepsIDs, Statement.KeepsLabels]

/--
`UPDATE approval_requests SET approval_id = CASE approval_id WHEN 7 THEN 8 ELSE 7 END`: the request
of user 1 moves to where user 1's approval is. One more approval is enough.
-/
def renameAndApprove : List (Statement Nat) :=
  [.updateRequests [(7, transferOf 8 "settlement-9-a" 2), (6, transferOf 7 "settlement-9-b" 1)],
    .insertDecision (approveAs 7 3)]

/-- **After a rename a request is approved with the approval of its own initiator.** -/
theorem renamed_request_approved :
    ¬ RecordsKept numbers twoTransfers firstApproval renameAndApprove := by
  intro h
  obtain ⟨r, hr, hinit, hneeded, ha⟩ : ∃ r ∈ (afterAll numbers twoTransfers
      (firstApproval ++ renameAndApprove)).requests, r.initiatedByUserID = some 1 ∧
      r.requiredApprovals = 2 ∧ r.status = .approved :=
    ⟨_, List.mem_cons_of_mem _ List.mem_cons_self, rfl, rfl, rfl⟩
  obtain ⟨users, hnodup, hlength, hdecided⟩ := (h.approved r hr ha).approvers
  -- apart from the initiator only user 3 ever decided
  have honly : ∀ user ∈ users, user = 3 := by
    intro user huser
    obtain ⟨before, row, later, hsplit, -, hrow, -, -, hentitled⟩ := hdecided user huser
    have hmem : Statement.insertDecision row ∈ firstApproval ++ renameAndApprove := by
      rw [hsplit]
      simp
    have hne : user ≠ 1 := fun h1 => hentitled.not_initiator (h1 ▸ hinit)
    simp only [firstApproval, renameAndApprove, List.mem_append, List.mem_cons, List.not_mem_nil,
      Statement.insertDecision.injEq, reduceCtorEq, or_false, false_or] at hmem
    rcases hmem with rfl | rfl
    · exact absurd hrow.symm hne
    · exact hrow.symm
  have hle := (List.nodup_iff_count_le_one.mp hnodup) 3
  rw [List.count_eq_length.mpr fun user huser => (honly user huser).symm] at *
  omega

end OpenFireblocks.Approval
