import OpenFireblocks.Lib.Outcome
import OpenFireblocks.Approval.Database

/-!
# What the triggers keep

`Sound` is what holds of the two tables as long as no statement renames a request
(`Statement.KeepsIDs`): an approved request has its approvals, one that somebody rejected is rejected,
and no decision is by the person who started the transfer.

`Later` is all that can happen to a request: its terms stay, and once it is closed so does its status.
Only `updateRow_eq_ok` looks at the trigger of `approval_requests`.
-/

namespace OpenFireblocks.Approval

open Outcome

variable {U : Type} {db db' : Database U}

/-! ## Requests over time -/

structure SameTerms (r r' : Request U) : Prop where
  approvalID : r'.approvalID = r.approvalID
  customerID : r'.customerID = r.customerID
  workflowID : r'.workflowID = r.workflowID
  initiatedByUserID : r'.initiatedByUserID = r.initiatedByUserID
  requiredApprovals : r'.requiredApprovals = r.requiredApprovals
  summary : r'.summary = r.summary
  createdAt : r'.createdAt = r.createdAt
  expiresAt : r'.expiresAt = r.expiresAt

structure Later (r r' : Request U) : Prop extends SameTerms r r' where
  /-- A closed request stays as it is. -/
  closed : r.status ≠ .pending → r'.status = r.status

theorem Later.refl (r : Request U) : Later r r :=
  ⟨⟨rfl, rfl, rfl, rfl, rfl, rfl, rfl, rfl⟩, fun _ => rfl⟩

variable {r : Request U}

variable {r' req : Request U} {pg : Pg U}

theorem Later.trans {r'' : Request U} (h : Later r r') (h' : Later r' r'') : Later r r'' where
  approvalID := h'.approvalID.trans h.approvalID
  customerID := h'.customerID.trans h.customerID
  workflowID := h'.workflowID.trans h.workflowID
  initiatedByUserID := h'.initiatedByUserID.trans h.initiatedByUserID
  requiredApprovals := h'.requiredApprovals.trans h.requiredApprovals
  summary := h'.summary.trans h.summary
  createdAt := h'.createdAt.trans h.createdAt
  expiresAt := h'.expiresAt.trans h.expiresAt
  closed := fun hc => by
    have h1 := h.closed hc
    rw [h'.closed (by rw [h1]; exact hc), h1]

/-- Requests only move on, decisions are only added, and the only new requests are for these
workflows. -/
structure Evolves (opened : List String) (db db' : Database U) : Prop where
  requests : ∀ r ∈ db.requests, ∃ r' ∈ db'.requests, Later r r'
  origin : ∀ r' ∈ db'.requests, (∃ r ∈ db.requests, Later r r') ∨ r'.workflowID ∈ opened
  decisions : db.decisions <+: db'.decisions

theorem Evolves.refl (opened : List String) (db : Database U) : Evolves opened db db :=
  ⟨fun r hr => ⟨r, hr, .refl r⟩, fun r hr => .inl ⟨r, hr, .refl r⟩, List.prefix_refl _⟩

theorem Evolves.trans {opened : List String} {db'' : Database U} (h : Evolves opened db db')
    (h' : Evolves opened db' db'') : Evolves opened db db'' := by
  refine ⟨fun r hr => ?_, fun r'' hr'' => ?_, h.decisions.trans h'.decisions⟩
  · obtain ⟨r', hr', hl⟩ := h.requests r hr
    obtain ⟨r'', hr'', hl'⟩ := h'.requests r' hr'
    exact ⟨r'', hr'', hl.trans hl'⟩
  · rcases h'.origin r'' hr'' with ⟨r', hr', hl'⟩ | hnew
    · rcases h.origin r' hr' with ⟨r, hr, hl⟩ | hnew
      · exact .inl ⟨r, hr, hl.trans hl'⟩
      · exact .inr (hl'.workflowID ▸ hnew)
    · exact .inr hnew

/-! ## The invariant -/

theorem nodup_map_concat {α β : Type} {f : α → β} {l : List α} {a : α} (h : (l.map f).Nodup)
    (ha : f a ∉ l.map f) : ((l ++ [a]).map f).Nodup := by
  rw [List.map_append]
  exact List.nodup_append'.mpr ⟨h, List.nodup_singleton _, List.disjoint_singleton.mpr ha⟩

structure Keyed (db : Database U) : Prop where
  ids : (db.requests.map Request.approvalID).Nodup
  workflows : (db.requests.map Request.workflowID).Nodup
  deciders : (db.decisions.map fun d => (d.approvalID, d.userID)).Nodup
  /-- A decision is about a request, and not by its initiator. -/
  refers : ∀ d ∈ db.decisions, ∃ r ∈ db.requests,
    r.approvalID = d.approvalID ∧ r.initiatedByUserID ≠ some d.userID

theorem Keyed.eq_of_approvalID (h : Keyed db) (hr : r ∈ db.requests) (hr' : r' ∈ db.requests)
    (he : r.approvalID = r'.approvalID) : r = r' :=
  List.inj_on_of_nodup_map h.ids hr hr' he

variable [DecidableEq U]

structure Agrees (decisions : List (DecisionRow U)) (r : Request U) : Prop where
  rejected : ∀ d ∈ decisions, d.approvalID = r.approvalID → d.decision = .reject →
    r.status = .rejected
  approved : r.status = .approved → r.requiredApprovals ≤ approvals decisions r.approvalID

structure Sound (db : Database U) : Prop extends Keyed db where
  agrees : ∀ r ∈ db.requests, Agrees db.decisions r

variable {id : U}

theorem mem_of_findRequest (h : findRequest db id = some r) :
    r ∈ db.requests ∧ r.approvalID = id := by
  have hid := List.find?_some h
  exact ⟨List.mem_of_find?_eq_some h, of_decide_eq_true hid⟩

/-! ## Replacing a row -/

def Database.replace (db : Database U) (id : U) (new : Request U) : Database U :=
  { db with requests := db.requests.map fun r => if r.approvalID = id then new else r }

variable {new : Request U}

theorem mem_replace (h : r ∈ (db.replace id new).requests) :
    r = new ∨ (r ∈ db.requests ∧ r.approvalID ≠ id) := by
  obtain ⟨s, hs, he⟩ := List.mem_map.mp h
  by_cases hid : s.approvalID = id
  · rw [if_pos hid] at he
    exact .inl he.symm
  · rw [if_neg hid] at he
    exact .inr ⟨he ▸ hs, he ▸ hid⟩

theorem mem_replace_of_ne (h : r ∈ db.requests) (hne : r.approvalID ≠ id) :
    r ∈ (db.replace id new).requests :=
  List.mem_map.mpr ⟨r, h, if_neg hne⟩

variable {old : Request U}

theorem new_mem_replace (h : old ∈ db.requests) (hid : old.approvalID = id) :
    new ∈ (db.replace id new).requests :=
  List.mem_map.mpr ⟨old, h, if_pos hid⟩

theorem map_replace {α : Type} {f : Request U → α} (hk : Keyed db) (hold : old ∈ db.requests)
    (hf : f new = f old) : (db.replace old.approvalID new).requests.map f = db.requests.map f := by
  rw [Database.replace, List.map_map]
  refine List.map_congr_left fun r hr => ?_
  show f (if r.approvalID = old.approvalID then new else r) = f r
  by_cases hid : r.approvalID = old.approvalID
  · rw [if_pos hid, hf, hk.eq_of_approvalID hr hold hid]
  · rw [if_neg hid]

theorem Keyed.replace (hk : Keyed db) (hold : old ∈ db.requests) (ht : SameTerms old new) :
    Keyed (db.replace old.approvalID new) where
  ids := by
    rw [map_replace hk hold ht.approvalID]
    exact hk.ids
  workflows := by
    rw [map_replace hk hold ht.workflowID]
    exact hk.workflows
  deciders := hk.deciders
  refers := by
    intro d hd
    obtain ⟨r, hr, hid, hinit⟩ := hk.refers d hd
    by_cases he : r.approvalID = old.approvalID
    · have hro := hk.eq_of_approvalID hr hold he
      subst hro
      exact ⟨new, new_mem_replace hr rfl, ht.approvalID.trans hid, ht.initiatedByUserID ▸ hinit⟩
    · exact ⟨r, mem_replace_of_ne hr he, hid, hinit⟩

theorem evolves_replace (hk : Keyed db) (hold : old ∈ db.requests) (hl : Later old new) :
    Evolves [] db (db.replace old.approvalID new) := by
  refine ⟨fun r hr => ?_, fun r hr => .inl ?_, List.prefix_refl _⟩
  · by_cases he : r.approvalID = old.approvalID
    · rw [hk.eq_of_approvalID hr hold he]
      exact ⟨new, new_mem_replace hold rfl, hl⟩
    · exact ⟨r, mem_replace_of_ne hr he, .refl r⟩
  · rcases mem_replace hr with rfl | ⟨hr, -⟩
    · exact ⟨old, hold, hl⟩
    · exact ⟨r, hr, .refl r⟩

/-! ## The trigger of `approval_requests` -/

theorem approvalRequestGuard_eq_ok {new' : Request U}
    (h : approvalRequestGuard db old new = .ok new') (hid : new.approvalID = old.approvalID) :
    new' = new ∧ Later old new ∧ (new.status = .approved → old.status = .pending →
      new.requiredApprovals ≤ approvals db.decisions new.approvalID) := by
  simp only [approvalRequestGuard, raise, ite_error_eq_ok, not_or, not_not] at h
  obtain ⟨⟨h1, h2, h3, h4, h5, h6, h7⟩, hstatus, hcount, h⟩ := h
  cases h
  refine ⟨rfl, ⟨⟨hid, h1, h2, h3, h4, h5, h6, h7⟩, ?_⟩, ?_⟩
  · intro hc
    by_contra hne
    exact hstatus ⟨hne, hc⟩
  · intro ha hp
    by_contra hlt
    exact hcount ⟨ha, hp, Nat.not_le.mp hlt⟩

/-- An `UPDATE` that keeps the id moves the row it finds on. -/
theorem updateRow_eq_ok (hfind : findRequest db id = some old) (h : updateRow db id new = .ok db')
    (hid : new.approvalID = id) :
    Later old new ∧ (new.status = .approved → old.status = .pending →
      new.requiredApprovals ≤ approvals db.decisions id) ∧ db' = db.replace id new := by
  unfold updateRow at h
  rw [hfind] at h
  obtain ⟨new', hguard, hput⟩ := bind_eq_ok.mp h
  obtain ⟨rfl, hl, hcount⟩ :=
    approvalRequestGuard_eq_ok hguard (hid.trans (mem_of_findRequest hfind).2.symm)
  rw [if_neg (fun hc => hc.1 hid)] at hput
  cases hput
  rw [hid] at hcount
  exact ⟨hl, hcount, rfl⟩

theorem Sound.replace (hs : Sound db) (hold : old ∈ db.requests) (hl : Later old new)
    (hcount : new.status = .approved → old.status = .pending →
      new.requiredApprovals ≤ approvals db.decisions old.approvalID) :
    Sound (db.replace old.approvalID new) := by
  refine ⟨hs.toKeyed.replace hold hl.toSameTerms, fun r hr => ?_⟩
  rcases mem_replace hr with rfl | ⟨hr, -⟩
  · have hagree := hs.agrees old hold
    refine ⟨?_, ?_⟩
    · intro d hd hid hrej
      have hst := hagree.rejected d hd (hid.trans hl.approvalID) hrej
      rw [hl.closed (by rw [hst]; decide), hst]
    · intro ha
      rw [hl.approvalID]
      by_cases hp : old.status = .pending
      · exact hcount ha hp
      rw [hl.requiredApprovals]
      exact hagree.approved ((hl.closed hp).symm.trans ha)
  · exact hs.agrees r hr

theorem Sound.updateRow (hs : Sound db) (h : updateRow db id new = .ok db')
    (hid : new.approvalID = id) : Sound db' ∧ Evolves [] db db' := by
  cases hfind : findRequest db id with
  | none =>
    rw [Approval.updateRow, hfind] at h
    cases h
    exact ⟨hs, .refl _ _⟩
  | some old =>
    obtain ⟨hl, hcount, rfl⟩ := updateRow_eq_ok hfind h hid
    obtain ⟨hold, rfl⟩ := mem_of_findRequest hfind
    exact ⟨hs.replace hold hl hcount, evolves_replace hs.toKeyed hold hl⟩

theorem setStatus_eq_ok {status : Status} (hfind : findRequest db id = some old)
    (h : setStatus db id status = .ok db') :
    Later old { old with status := status, decidedAt := some db.now } ∧
      (status = .approved → old.status = .pending →
        old.requiredApprovals ≤ approvals db.decisions id) ∧
      db' = db.replace id { old with status := status, decidedAt := some db.now } := by
  unfold setStatus at h
  rw [hfind] at h
  exact updateRow_eq_ok hfind h (mem_of_findRequest hfind).2

theorem Sound.setStatus (hs : Sound db) {status : Status} (h : setStatus db id status = .ok db') :
    Sound db' ∧ Evolves [] db db' := by
  unfold Approval.setStatus at h
  split at h
  · cases h
    exact ⟨hs, .refl _ _⟩
  · next old hfind => exact hs.updateRow h (mem_of_findRequest hfind).2

/-! ## The triggers of `approval_decisions` -/

/-- What the guard has checked of a decision it lets through. -/
structure Admitted (db : Database U) (req : Request U) (new : DecisionRow U) : Prop where
  mem : req ∈ db.requests
  approvalID : req.approvalID = new.approvalID
  customerID : req.customerID = new.customerID
  pending : req.status = .pending
  open_until : db.now < req.expiresAt
  not_initiator : req.initiatedByUserID ≠ some new.userID
  role : db.roles new.userID new.customerID = some .approver ∨
    db.roles new.userID new.customerID = some .admin
  active : db.active new.userID = true

theorem approvalDecisionGuard_eq_ok {new new' : DecisionRow U}
    (h : approvalDecisionGuard pg db new = .ok new') :
    ∃ req, findRequest db new.approvalID = some req ∧ Admitted db req new ∧
      new' = { new with createdAt := db.now } := by
  unfold approvalDecisionGuard at h
  split at h
  · simp at h
  next req hfind =>
  obtain ⟨hmem, hid⟩ := mem_of_findRequest hfind
  simp only [raise, ite_error_eq_ok, not_not] at h
  obtain ⟨hcustomer, hpending, hopen, hinit, hrole, hactive, h⟩ := h
  cases h
  exact ⟨req, hfind, ⟨hmem, hid, hcustomer, hpending, Int.not_le.mp hopen, hinit, by tauto,
    by simpa using hactive⟩, rfl⟩

variable {ds : List (DecisionRow U)} {d : DecisionRow U}

theorem Agrees.append_of_ne (h : Agrees ds r) (hne : d.approvalID ≠ r.approvalID) :
    Agrees (ds ++ [d]) r := by
  refine ⟨?_, fun ha => ?_⟩
  · intro e he hid hrej
    rcases List.mem_append.mp he with he | he
    · exact h.rejected e he hid hrej
    rw [List.mem_singleton.mp he] at hid
    exact absurd hid hne
  · simpa [approvals, hne] using h.approved ha

def Database.addDecision (db : Database U) (d : DecisionRow U) : Database U :=
  { db with decisions := db.decisions ++ [d] }

omit [DecidableEq U] in
theorem Keyed.addDecision (hk : Keyed db) {d : DecisionRow U} (hreq : req ∈ db.requests)
    (hid : req.approvalID = d.approvalID) (hinit : req.initiatedByUserID ≠ some d.userID)
    (hnew : (d.approvalID, d.userID) ∉ db.decisions.map fun d => (d.approvalID, d.userID)) :
    Keyed (db.addDecision d) where
  ids := hk.ids
  workflows := hk.workflows
  deciders := nodup_map_concat hk.deciders hnew
  refers := by
    intro e he
    rcases List.mem_append.mp he with he | he
    · exact hk.refers e he
    rw [List.mem_singleton.mp he]
    exact ⟨req, hreq, hid, hinit⟩

theorem Agrees.not_rejected (h : Agrees ds r) (hp : r.status ≠ .rejected) (hd : d ∈ ds)
    (hid : d.approvalID = r.approvalID) : d.decision ≠ .reject :=
  fun hrej => hp (h.rejected d hd hid hrej)

theorem Agrees.append_approve (h : Agrees ds r) (hp : r.status = .pending)
    (hd : d.decision ≠ .reject) (hl : Later r r')
    (hcount : r'.status = .approved → r'.requiredApprovals ≤ approvals (ds ++ [d]) r'.approvalID) :
    Agrees (ds ++ [d]) r' := by
  refine ⟨fun e he hid hrej => ?_, hcount⟩
  rcases List.mem_append.mp he with he | he
  · exact absurd hrej (h.not_rejected (by rw [hp]; decide) he (hid.trans hl.approvalID))
  rw [List.mem_singleton.mp he] at hrej
  exact absurd hrej hd

theorem Keyed.replace_self (hk : Keyed db) (hr : r ∈ db.requests) :
    db.replace r.approvalID r = db := by
  have hmap := map_replace (f := id) hk hr rfl
  rw [List.map_id, List.map_id] at hmap
  exact congrArg (fun requests => { db with requests := requests }) hmap

theorem approvalDecisionApply_eq_ok (hs : Sound db) (hfind : findRequest db d.approvalID = some req)
    (hp : req.status = .pending) (h : approvalDecisionApply (db.addDecision d) d = .ok db')
    (hk : Keyed (db.addDecision d)) :
    ∃ new, Later req new ∧ Agrees (db.decisions ++ [d]) new ∧
      db' = (db.addDecision d).replace req.approvalID new := by
  obtain ⟨hreq, hid⟩ := mem_of_findRequest hfind
  have hfind' : findRequest (db.addDecision d) d.approvalID = some req := hfind
  have hagree := hs.agrees req hreq
  unfold approvalDecisionApply at h
  split at h
  · obtain ⟨hl, -, rfl⟩ := setStatus_eq_ok hfind' h
    exact ⟨_, hl, ⟨fun _ _ _ _ => rfl, fun ha => by simp at ha⟩, by rw [hid]⟩
  next hd =>
  rw [hfind'] at h
  simp only at h
  split at h
  · obtain ⟨hl, hcount, rfl⟩ := setStatus_eq_ok hfind' h
    refine ⟨_, hl, hagree.append_approve hp hd hl fun _ => ?_, by rw [hid]⟩
    rw [hid]
    exact hcount rfl hp
  · cases h
    refine ⟨req, .refl req, hagree.append_approve hp hd (.refl req) fun ha => ?_,
      (hk.replace_self hreq).symm⟩
    rw [hp] at ha
    simp at ha

theorem Sound.insertDecision (hs : Sound db) {new : DecisionRow U}
    (h : insertDecision pg db new = .ok db') : Sound db' ∧ Evolves [] db db' := by
  obtain ⟨d, hguard, h⟩ := bind_eq_ok.mp h
  obtain ⟨req, hfind, hadm, rfl⟩ := approvalDecisionGuard_eq_ok hguard
  obtain ⟨hany, h⟩ := ite_error_eq_ok.mp h
  have hnew : (new.approvalID, new.userID) ∉
      db.decisions.map fun d => (d.approvalID, d.userID) := by
    intro hmem
    obtain ⟨e, he, heq⟩ := List.mem_map.mp hmem
    exact hany (List.any_eq_true.mpr ⟨e, he, decide_eq_true (Prod.mk.inj heq)⟩)
  have hk := hs.toKeyed.addDecision (d := { new with createdAt := db.now }) hadm.mem
    hadm.approvalID hadm.not_initiator hnew
  obtain ⟨req', hl, hagree, rfl⟩ :=
    approvalDecisionApply_eq_ok (d := { new with createdAt := db.now }) hs hfind hadm.pending h hk
  -- only the request the decision is about has moved on
  refine ⟨⟨hk.replace hadm.mem hl.toSameTerms, fun r hr => ?_⟩, ?_⟩
  · rcases mem_replace hr with rfl | ⟨hr, hne⟩
    · exact hagree
    · exact (hs.agrees r hr).append_of_ne fun he => hne (he.symm.trans hadm.approvalID.symm)
  have hadd : Evolves [] db (db.addDecision { new with createdAt := db.now }) :=
    ⟨fun r hr => ⟨r, hr, .refl r⟩, fun r hr => .inl ⟨r, hr, .refl r⟩, List.prefix_append _ _⟩
  exact hadd.trans (evolves_replace hk hadm.mem hl)

/-! ## Every statement -/

theorem Sound.insertRequest (hs : Sound db) {row : Request U}
    (h : insertRequest db row = .ok db') : Sound db' ∧ Evolves [row.workflowID] db db' := by
  unfold Approval.insertRequest at h
  split at h
  · cases h
    exact ⟨hs, .refl _ _⟩
  next hworkflow =>
  obtain ⟨hid, h⟩ := ite_error_eq_ok.mp h
  cases h
  have hid' : ∀ r ∈ db.requests, r.approvalID ≠ row.approvalID := fun r hr he =>
    hid (List.any_eq_true.mpr ⟨r, hr, decide_eq_true he⟩)
  have hworkflow' : ∀ r ∈ db.requests, r.workflowID ≠ row.workflowID := fun r hr he =>
    hworkflow (List.any_eq_true.mpr ⟨r, hr, decide_eq_true he⟩)
  refine ⟨⟨⟨?_, ?_, hs.deciders, ?_⟩, ?_⟩, fun r hr => ⟨r, List.mem_append_left _ hr, .refl r⟩, ?_,
    List.prefix_refl _⟩
  · exact nodup_map_concat hs.ids (by simpa using hid')
  · exact nodup_map_concat hs.workflows (by simpa using hworkflow')
  · intro d hd
    obtain ⟨r, hr, hrefers⟩ := hs.refers d hd
    exact ⟨r, List.mem_append_left _ hr, hrefers⟩
  · intro r hr
    rcases List.mem_append.mp hr with hr | hr
    · exact hs.agrees r hr
    -- no decision is about a request that has just been opened
    rw [List.mem_singleton.mp hr]
    refine ⟨fun d hd he _ => ?_, fun ha => by simp at ha⟩
    obtain ⟨r, hr, hrefers, -⟩ := hs.refers d hd
    exact absurd (hrefers.trans he) (hid' r hr)
  · intro r hr
    rcases List.mem_append.mp hr with hr | hr
    · exact .inl ⟨r, hr, .refl r⟩
    rw [List.mem_singleton.mp hr]
    exact .inr List.mem_cons_self

def Statement.opens : Statement U → List String
  | .insertRequest row => [row.workflowID]
  | _ => []

def Statement.KeepsIDs : Statement U → Prop
  | .updateRequests changes => ∀ change ∈ changes, change.2.approvalID = change.1
  | _ => True

theorem Sound.updateRows (hs : Sound db) {changes : List (U × Request U)}
    (hids : ∀ change ∈ changes, change.2.approvalID = change.1)
    (h : updateRows db changes = .ok db') : Sound db' ∧ Evolves [] db db' := by
  induction changes generalizing db with
  | nil =>
    cases h
    exact ⟨hs, .refl _ _⟩
  | cons change changes ih =>
    obtain ⟨next, hnext, h⟩ := bind_eq_ok.mp h
    obtain ⟨hs', he⟩ := hs.updateRow hnext (hids change List.mem_cons_self)
    obtain ⟨hs'', he'⟩ := ih hs' (fun c hc => hids c (List.mem_cons_of_mem _ hc)) h
    exact ⟨hs'', he.trans he'⟩

omit [DecidableEq U] in
theorem immutable_eq_ok {present : Bool} (h : approvalDecisionImmutable db present = .ok db') :
    db' = db := by
  unfold approvalDecisionImmutable at h
  split at h
  · simp at h
  cases h
  rfl

theorem Sound.of_tables_eq (hs : Sound db) (hr : db'.requests = db.requests)
    (hd : db'.decisions = db.decisions) : Sound db' ∧ Evolves [] db db' := by
  refine ⟨⟨⟨hr ▸ hs.ids, hr ▸ hs.workflows, hd ▸ hs.deciders, ?_⟩, ?_⟩, ?_, ?_, ?_⟩
  · rw [hr, hd]
    exact hs.refers
  · rw [hr, hd]
    exact hs.agrees
  · rw [hr]
    exact fun r hr => ⟨r, hr, .refl r⟩
  · rw [hr]
    exact fun r hr => .inl ⟨r, hr, .refl r⟩
  · exact hd ▸ List.prefix_refl _

/-- **Every statement keeps the tables sound, and only moves requests on.** -/
theorem exec_sound {statement : Statement U} (hs : Sound db) (hids : statement.KeepsIDs)
    (h : exec pg db statement = .ok db') : Sound db' ∧ Evolves statement.opens db db' := by
  cases statement with
  | insertRequest row => exact hs.insertRequest h
  | insertDecision row => exact hs.insertDecision h
  | updateRequests changes =>
    obtain ⟨next, hnext, h⟩ := bind_eq_ok.mp h
    split at h
    · cases h
      exact hs.updateRows hids hnext
    · simp at h
  | deleteRequest id | updateDecision | deleteDecision =>
    obtain rfl := immutable_eq_ok h
    exact ⟨hs, .refl _ _⟩
  | setPolicy | setRole | setActive | advance microseconds =>
    cases h
    exact hs.of_tables_eq rfl rfl

theorem after_sound (pg : Pg U) {statement : Statement U} (hs : Sound db)
    (hids : statement.KeepsIDs) :
    Sound (after pg db statement) ∧ Evolves statement.opens db (after pg db statement) := by
  unfold after
  split
  · next h => exact exec_sound hs hids h
  · exact ⟨hs, .refl _ _⟩

end OpenFireblocks.Approval
