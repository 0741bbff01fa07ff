import OpenFireblocks.Transfers.Execution

/-!
# A parked transfer executes at most once

* `Kept` is what the tables satisfy: every row is linked to its approval and was parked.
* A call that executes knows that its row is there and executing (`Call.Holds`). Taking "executing"
  is possible only for a row that is waiting or failed, so no other call has it.
* So a row that a stopped gateway left executing stays executing.
-/

namespace OpenFireblocks.Transfers

open Approval Outcome Threads

variable {U J : Type} {pg : Pg U} {db db' db'' : Tables U J}
  {tenant : Option U} {mine : Option U} {events : List (Nat × Action U J)}

/-! ## What a step does to the rows -/

def TransferStatus.closed : TransferStatus → Bool
  | .completed | .rejected | .expired => true
  | _ => false

/-- A row before and after a step of the call that executes `mine`. -/
structure Advance (mine : Option U) (t t' : PendingTransfer U J) : Prop where
  same : SameTransfer t t'
  closed : t.status.closed → t'.status = t.status
  held : mine ≠ some t.approvalID → t.status = .executing → t'.status = .executing

theorem Advance.refl (t : PendingTransfer U J) : Advance mine t t :=
  ⟨.refl t, fun _ => rfl, fun _ h => h⟩

variable {t : PendingTransfer U J} {customer approval : U} {call : Call U J}
  {call' : Option (Call U J)}

theorem Advance.trans {t' t'' : PendingTransfer U J} (h : Advance mine t t')
    (h' : Advance mine t' t'') : Advance mine t t'' := by
  refine ⟨h.same.trans h'.same, fun hc => ?_, fun hm he => ?_⟩
  · have hs := h.closed hc
    rw [← hs] at hc ⊢
    exact h'.closed hc
  · refine h'.held ?_ (h.held hm he)
    rw [h.same.approvalID]
    exact hm

/-- The rows before and after a step. -/
def Advances (mine : Option U) (db db' : Tables U J) : Prop :=
  ∀ (n : Nat) t, db.transfers[n]? = some t → ∃ t', db'.transfers[n]? = some t' ∧ Advance mine t t'

theorem Advances.of_transfers_eq (h : db'.transfers = db.transfers) : Advances mine db db' := by
  intro n t ht
  rw [← h] at ht
  exact ⟨t, ht, .refl t⟩

theorem Advances.trans (h : Advances mine db db') (h' : Advances mine db' db'') :
    Advances mine db db'' := by
  intro n t ht
  obtain ⟨t', ht', hadv⟩ := h n t ht
  obtain ⟨t'', ht'', hadv'⟩ := h' n t' ht'
  exact ⟨t'', ht'', hadv.trans hadv'⟩

theorem Advances.of_mem (h : Advances mine db db') (ht : t ∈ db.transfers) :
    ∃ t' ∈ db'.transfers, Advance mine t t' := by
  obtain ⟨n, hn⟩ := List.mem_iff_getElem?.mp ht
  obtain ⟨t', ht', hadv⟩ := h n t hn
  exact ⟨t', List.mem_of_getElem? ht', hadv⟩

/-- The row holds what was asked for here. -/
structure ParkedTransfer.Of (p : ParkedTransfer U J) (t : PendingTransfer U J) : Prop where
  approvalID : t.approvalID = p.approvalID
  customerID : t.customerID = p.customerID
  keyID : t.keyID = p.keyID
  kind : t.kind = p.kind
  request : t.request = p.request

theorem ParkedTransfer.Of.same {p : ParkedTransfer U J} {t' : PendingTransfer U J} (h : p.Of t)
    (hsame : SameTransfer t t') : p.Of t' where
  approvalID := hsame.approvalID.trans h.approvalID
  customerID := hsame.customerID.trans h.customerID
  keyID := hsame.keyID.trans h.keyID
  kind := hsame.kind.trans h.kind
  request := hsame.request.trans h.request

theorem Linked.now {row : PendingTransfer U J} {n : Nat} (h : Linked row n db)
    (ht : db.transfers[n]? = some t) : Linked t n db := by
  obtain ⟨⟨t', ht', hsame, hstarted⟩, r, hr, hid, hcustomer⟩ := h
  rw [ht] at ht'
  cases ht'
  refine ⟨⟨t, ht, .refl t, fun hs => ?_⟩, r, hr, ?_, ?_⟩
  · rw [hsame.approvalID]
    exact hstarted hs
  · rw [hsame.approvalID, hid]
  · rw [hsame.customerID, hcustomer]

/-! ## Calls -/

def Tables.Has (db : Tables U J) (customer approval : U) (statuses : List TransferStatus) : Prop :=
  ∃ t ∈ db.transfers, t.approvalID = approval ∧ t.customerID = customer ∧ t.status ∈ statuses

def Call.executes : Call U J → Option U
  | .claimed _ approval | .running _ approval _ | .completing _ approval _
  | .failing _ approval _ => some approval
  | _ => none

/-- The call executes the transfer, or is about to record that it did. -/
def Call.runs : Call U J → Option U
  | .claimed _ approval | .running _ approval _ | .completing _ approval _ => some approval
  | _ => none

def Run.Parked (pg : Pg U) (events : List (Nat × Action U J)) (approval : U) (run : Run U J) : Prop :=
  ∃ k p, (k, Action.park p) ∈ events ∧ p.approvalID = approval ∧ run.kind = p.kind ∧
    run.customerID = p.customerID ∧ run.keyID = p.keyID ∧ run.request = p.request ∧
    run.idempotencyKey = "approval:" ++ pg.uuidText approval

def Call.Holds (pg : Pg U) (events : List (Nat × Action U J)) (db : Tables U J) : Call U J → Prop
  | .deciding _ _ _ | .retrying _ _ => True
  | .closing _ _ target => target ≠ .completed ∧ target ≠ .failed
  | .claiming _ _ source => source = .awaitingApproval ∨ source = .failed
  | .claimed customer approval => db.Has customer approval [.executing]
  | .running customer approval run =>
    db.Has customer approval [.executing] ∧ run.Parked pg events approval
  | .completing customer approval _ => db.Has customer approval [.executing]
  -- the row may be completed already, when only the answer got lost
  | .failing customer approval _ => db.Has customer approval [.executing, .completed]

theorem Tables.Has.advances {statuses : List TransferStatus} (h : db.Has customer approval statuses)
    (hsub : statuses ⊆ [.executing, .completed]) (hadv : Advances mine db db')
    (hmine : mine ≠ some approval) : db'.Has customer approval statuses := by
  obtain ⟨t, ht, hid, hcustomer, hstatus⟩ := h
  obtain ⟨t', ht', hadv⟩ := hadv.of_mem ht
  refine ⟨t', ht', hadv.same.approvalID.trans hid, hadv.same.customerID.trans hcustomer, ?_⟩
  have hkeeps : t'.status = t.status := by
    have hmem := hsub hstatus
    simp only [List.mem_cons, List.not_mem_nil, or_false] at hmem
    rcases hmem with he | he
    · rw [hadv.held (hid ▸ hmine) he, he]
    · exact hadv.closed (by rw [he]; rfl)
  rw [hkeeps]
  exact hstatus

theorem Tables.Has.mono {statuses statuses' : List TransferStatus}
    (h : db.Has customer approval statuses) (hsub : statuses ⊆ statuses') :
    db.Has customer approval statuses' := by
  obtain ⟨t, ht, hid, hcustomer, hstatus⟩ := h
  exact ⟨t, ht, hid, hcustomer, hsub hstatus⟩

/-- A step of another call leaves alone what this one relies on. -/
theorem Call.Holds.advances (h : call.Holds pg events db) (hadv : Advances mine db db')
    (hmine : ∀ approval, call.executes = some approval → mine ≠ some approval) :
    call.Holds pg events db' := by
  cases call with
  | deciding | retrying | closing | claiming => exact h
  | claimed => exact Tables.Has.advances h (by simp) hadv (hmine _ rfl)
  | running => exact ⟨h.1.advances (by simp) hadv (hmine _ rfl), h.2⟩
  | completing | failing => exact Tables.Has.advances h (by simp) hadv (hmine _ rfl)

theorem Call.Holds.has (h : call.Holds pg events db) (hexecutes : call.executes = some approval) :
    ∃ customer, db.Has customer approval [.executing, .completed] := by
  cases call with
  | deciding | retrying | closing | claiming => cases hexecutes
  | claimed customer | completing customer =>
    cases hexecutes
    exact ⟨customer, Tables.Has.mono h (by simp)⟩
  | running customer =>
    cases hexecutes
    exact ⟨customer, h.1.mono (by simp)⟩
  | failing customer =>
    cases hexecutes
    exact ⟨customer, h⟩

theorem Call.Holds.has_executing (h : call.Holds pg events db) (hruns : call.runs = some approval) :
    ∃ customer, db.Has customer approval [.executing] := by
  cases call with
  | deciding | retrying | closing | claiming | failing => cases hruns
  | claimed customer | completing customer =>
    cases hruns
    exact ⟨customer, h⟩
  | running customer =>
    cases hruns
    exact ⟨customer, h.1⟩

/-! ## What the statements do to the rows -/

variable [DecidableEq U] [DecidableEq J]

/-- The change ends no execution, unless it is of `mine`. -/
def Spares (mine : Option U) (change : U × PendingTransfer U J) : Prop :=
  mine = some change.1 ∨ (change.2.status ≠ .completed ∧ change.2.status ≠ .failed)

omit [DecidableEq J] in
theorem Moves.advance {old new : PendingTransfer U J} (h : Moves db tenant old new)
    (hid : new.approvalID = old.approvalID) (hspares : Spares mine (old.approvalID, new)) (now : Int) :
    Advance mine old { new with updatedAt := now } := by
  obtain ⟨h1, h2, h3, h4, h5, h6⟩ := h.same hid
  refine ⟨⟨h1, h2, h3, h4, h5, h6⟩, fun hclosed => ?_, fun hmine hexecuting => ?_⟩
  · show new.status = old.status
    rcases h.status with hs | hs
    · exact hs
    revert hclosed hs
    cases old.status <;> simp [TransferStatus.closed, TransferStatus.mayBecome]
  · show new.status = .executing
    rcases h.status with hs | hs
    · exact hs.trans hexecuting
    obtain ⟨hc, hf⟩ := hspares.resolve_left hmine
    rw [hexecuting] at hs
    revert hc hf hs
    cases new.status <;> simp [TransferStatus.mayBecome]

theorem Tables.Sound.updateTransfer_advances (hs : db.Sound) {id : U} {new : PendingTransfer U J}
    (hid : new.approvalID = id) (hspares : Spares mine (id, new))
    (hok : Transfers.updateTransfer db tenant id new = .ok db') :
    Advances mine db db' ∧ db'.transfers.length = db.transfers.length := by
  rcases updateTransfer_eq_ok hok with ⟨-, rfl⟩ | ⟨old, hfind, hmoves, -, rfl⟩
  · exact ⟨.of_transfers_eq rfl, rfl⟩
  refine ⟨fun n t ht => ?_, List.length_map _⟩
  rw [Tables.replace, List.getElem?_map, ht, Option.map_some]
  by_cases h : t.approvalID = id
  · obtain ⟨hold, hoid, -⟩ := mem_of_findTransfer hfind
    obtain rfl := hs.eq_of_approvalID (List.mem_of_getElem? ht) hold (h.trans hoid.symm)
    rw [if_pos h]
    subst h
    exact ⟨_, rfl, hmoves.advance hid hspares _⟩
  · rw [if_neg h]
    exact ⟨t, rfl, .refl t⟩

theorem Tables.Sound.updateTransferRows_advances (hs : db.Sound)
    {changes : List (U × PendingTransfer U J)}
    (hids : ∀ change ∈ changes, change.2.approvalID = change.1)
    (hspares : ∀ change ∈ changes, Spares mine change)
    (hok : Transfers.updateTransferRows tenant db changes = .ok db') :
    Advances mine db db' ∧ db'.transfers.length = db.transfers.length := by
  let P := fun x : Tables U J =>
    x.Sound ∧ Advances mine db x ∧ x.transfers.length = db.transfers.length
  refine (updateTransferRows_preserves (P := P) ?_ ⟨hs, .of_transfers_eq rfl, rfl⟩ hok).2
  rintro change hc x y ⟨hs, hadv, hlength⟩ hxy
  obtain ⟨hadv', hlength'⟩ := hs.updateTransfer_advances (hids change hc) (hspares change hc) hxy
  exact ⟨hs.updateTransfer (hids change hc) hxy, hadv.trans hadv', hlength'.trans hlength⟩

/-! ## What the tables satisfy -/

/-- Every row is linked to its approval, and was parked by one of these events. -/
structure Kept (events : List (Nat × Action U J)) (db : Tables U J) : Prop where
  sound : db.Sound
  linked : ∀ (n : Nat) t, db.transfers[n]? = some t → Linked t n db
  parked : ∀ t ∈ db.transfers, ∃ k p, (k, .park p) ∈ events ∧ p.Of t

omit [DecidableEq J] in
theorem Kept.of_linked (h : Kept events db) (hs : db'.Sound)
    (hlength : db'.transfers.length = db.transfers.length)
    (hlinked : ∀ (n : Nat) t, db.transfers[n]? = some t → Linked t n db') : Kept events db' := by
  have hrow : ∀ (n : Nat) t', db'.transfers[n]? = some t' →
      ∃ t, db.transfers[n]? = some t ∧ Linked t n db' := by
    intro n t' ht'
    have hn : n < db.transfers.length := by
      rw [← hlength]
      exact (List.getElem?_eq_some_iff.mp ht').1
    exact ⟨_, List.getElem?_eq_getElem hn, hlinked n _ (List.getElem?_eq_getElem hn)⟩
  refine ⟨hs, fun n t' ht' => ?_, fun t' ht' => ?_⟩
  · obtain ⟨t, -, hl⟩ := hrow n t' ht'
    exact hl.now ht'
  · obtain ⟨n, hn⟩ := List.mem_iff_getElem?.mp ht'
    obtain ⟨t, ht, ⟨t'', ht'', hsame, -⟩, -⟩ := hrow n t' hn
    rw [hn] at ht''
    cases ht''
    obtain ⟨k, p, hp, hof⟩ := h.parked t (List.mem_of_getElem? ht)
    exact ⟨k, p, hp, hof.same hsame⟩

theorem Kept.updateTransfers (mine : Option U) (h : Kept events db) {changes : List (U × PendingTransfer U J)}
    (hids : ∀ change ∈ changes, change.2.approvalID = change.1)
    (hspares : ∀ change ∈ changes, Spares mine change)
    (hok : Transfers.updateTransfers db tenant changes = .ok db') :
    Kept events db' ∧ Advances mine db db' := by
  have hrows := updateTransfers_eq_ok hok
  obtain ⟨hadv, hlength⟩ := h.sound.updateTransferRows_advances hids hspares hrows
  refine ⟨h.of_linked (h.sound.updateTransferRows hids hrows) hlength fun n t ht => ?_, hadv⟩
  exact (h.linked n t ht).updateTransferRows h.sound hids hrows

omit [DecidableEq J] in
theorem Kept.execApproval (h : Kept events db) {statement : Statement U}
    (hids : statement.KeepsIDs) (hok : Transfers.execApproval db pg statement = .ok db') :
    Kept events db' ∧ db'.transfers = db.transfers := by
  obtain ⟨hexec, ht⟩ := execApproval_eq_ok hok
  obtain ⟨hs, he⟩ := exec_sound h.sound.approvals hids hexec
  refine ⟨h.of_linked ⟨hs, ht ▸ h.sound.ids⟩ (by rw [ht]) fun n t hn => ?_, ht⟩
  exact (h.linked n t hn).evolves he ht

/-! ## Each transaction -/

omit [DecidableEq J] in
theorem mem_of_insertRequest {row : Request U}
    (hnew : ¬ db.approvals.requests.any fun r => r.workflowID = row.workflowID)
    (hok : execApproval db pg (.insertRequest row) = .ok db') :
    { row with status := .pending, decidedAt := none } ∈ db'.approvals.requests := by
  obtain ⟨hexec, -⟩ := execApproval_eq_ok hok
  simp only [exec, insertRequest, if_neg hnew] at hexec
  split at hexec
  · simp at hexec
  rw [← Except.ok.inj hexec]
  exact List.mem_append_right _ List.mem_cons_self

theorem Kept.openTransferRequest (mine : Option U) (h : Kept events db) {k : Nat}
    {p : ParkedTransfer U J} (hp : (k, .park p) ∈ events)
    (hok : openTransferRequest pg db p = .ok db') : Kept events db' ∧ Advances mine db db' := by
  unfold Transfers.openTransferRequest at hok
  split at hok
  · simp at hok
  next hnew =>
  obtain ⟨next, hnext, hok⟩ := bind_eq_ok.mp hok
  obtain ⟨hkept, ht⟩ := h.execApproval (by trivial) hnext
  have hr := mem_of_insertRequest hnew hnext
  have hs := hkept.sound.insertTransfer hok
  have hinsert : execCommand pg next (.insert (some p.customerID)
      (p.pendingTransfer next.approvals.now)) = .ok db' := hok
  have hstill : ∀ (n : Nat) t, next.transfers[n]? = some t → Linked t n db' := fun n t hn =>
    (hkept.linked n t hn).execCommand hkept.sound (by trivial) hinsert
  obtain ⟨-, hfree, rfl⟩ := insertTransfer_eq_ok hok
  refine ⟨⟨hs, fun n t hn => ?_, fun t hmem => ?_⟩, fun n t hn => ⟨t, ?_, .refl t⟩⟩
  · rcases Nat.lt_or_ge n next.transfers.length with hlt | hge
    · rw [List.getElem?_append_left hlt] at hn
      exact hstill n t hn
    · have hlast := hn
      rw [List.getElem?_append_right hge] at hlast
      obtain rfl := List.mem_singleton.mp (List.mem_of_getElem? hlast)
      exact ⟨⟨_, hn, .refl _, nofun⟩, _, hr, rfl, rfl⟩
  · rcases List.mem_append.mp hmem with hmem | hmem
    · exact hkept.parked t hmem
    · rw [List.mem_singleton.mp hmem]
      exact ⟨k, p, hp, rfl, rfl, rfl, rfl, rfl⟩
  · rw [← ht] at hn
    rw [List.getElem?_append_left (List.getElem?_eq_some_iff.mp hn).1]
    exact hn

theorem Kept.expireStaleTransfers (mine : Option U) (h : Kept events db)
    (hok : expireStaleTransfers pg db customer = .ok db') :
    Kept events db' ∧ Advances mine db db' := by
  obtain ⟨next, hnext, hok⟩ := bind_eq_ok.mp hok
  obtain ⟨hkept, ht⟩ := h.execApproval (by
    intro change hchange
    obtain ⟨r, -, rfl⟩ := List.mem_map.mp hchange
    rfl) hnext
  obtain ⟨hkept', hadv⟩ := hkept.updateTransfers mine (by
    intro change hchange
    obtain ⟨t, -, rfl⟩ := List.mem_map.mp hchange
    rfl) (by
    intro change hchange
    obtain ⟨t, -, rfl⟩ := List.mem_map.mp hchange
    exact .inr ⟨nofun, nofun⟩) hok
  exact ⟨hkept', (Advances.of_transfers_eq ht).trans hadv⟩

/-- A transition writes to the row it finds, if that has one of these statuses. -/
theorem transitionTransfer_eq_ok {source : List TransferStatus} {target : TransferStatus}
    {patch : Patch J} {changed : Bool}
    (hok : transitionTransfer db customer approval source target patch = .ok (db', changed)) :
    (changed = false ∧ db' = db) ∨
    (changed ∧ ∃ t, findTransfer db (some customer) approval = some t ∧ t.status ∈ source ∧
      updateTransfer db (some customer) approval (patch.apply target t) = .ok db') := by
  unfold transitionTransfer at hok
  split at hok
  · cases hok
    exact .inl ⟨rfl, rfl⟩
  next t hfind =>
  split at hok
  · next hmatch =>
    split at hok
    · next hupdate =>
      cases hok
      obtain ⟨next, hnext, hdone⟩ := bind_eq_ok.mp (updateTransfers_eq_ok hupdate)
      cases hdone
      exact .inr ⟨rfl, t, hfind, List.contains_iff_mem.mp hmatch.2, hnext⟩
    · split at hok
      · cases hok
        exact .inl ⟨rfl, rfl⟩
      · cases hok
  · cases hok
    exact .inl ⟨rfl, rfl⟩

theorem Kept.transitionTransfer (mine : Option U) (h : Kept events db)
    {source : List TransferStatus} {target : TransferStatus} {patch : Patch J} {changed : Bool}
    (hspares : mine = some approval ∨ (target ≠ .completed ∧ target ≠ .failed))
    (hok : transitionTransfer db customer approval source target patch = .ok (db', changed)) :
    Kept events db' ∧ Advances mine db db' ∧
      ((changed = false ∧ db' = db) ∨
        (changed ∧ db.Has customer approval source ∧ db'.Has customer approval [target])) := by
  rcases transitionTransfer_eq_ok hok with ⟨rfl, rfl⟩ | ⟨rfl, t, hfind, hsource, hupdate⟩
  · exact ⟨h, .of_transfers_eq rfl, .inl ⟨rfl, rfl⟩⟩
  obtain ⟨ht, hid, hcustomer⟩ := mem_of_findTransfer hfind
  have hnew : (patch.apply target t).approvalID = approval := hid
  obtain ⟨hadv, hlength⟩ := h.sound.updateTransfer_advances hnew hspares hupdate
  have hkept : Kept events db' := h.of_linked (h.sound.updateTransfer hnew hupdate) hlength
    fun n t' ht' => (h.linked n t' ht').updateTransfer h.sound hnew hupdate
  have hcustomer' : t.customerID = customer := Option.some.inj hcustomer
  refine ⟨hkept, hadv, .inr ⟨rfl, ⟨t, ht, hid, hcustomer', hsource⟩, ?_⟩⟩
  rcases updateTransfer_eq_ok hupdate with ⟨hnone, -⟩ | ⟨old, hold, hmoves, -, rfl⟩
  · rw [hfind] at hnone
    cases hnone
  · exact ⟨_, List.mem_map.mpr ⟨t, ht, if_pos hid⟩, hid, hcustomer', List.mem_singleton.mpr rfl⟩

/-! ## One step -/

structure Sent (events : List (Nat × Action U J)) (mine : Option U) (db : Tables U J)
    (customer approval : U) (source : List TransferStatus) (target : TransferStatus)
    (r : Tables U J × Except (Reply.Failure SqlError) Bool) : Prop where
  kept : Kept events r.1
  advances : Advances mine db r.1
  has : ∀ statuses, db.Has customer approval statuses → r.1.Has customer approval (target :: statuses)
  changed : r.2 = .ok true → db.Has customer approval source ∧ r.1.Has customer approval [target]

theorem Kept.send (mine : Option U) (h : Kept events db) (customer approval : U) (source : List TransferStatus)
    (target : TransferStatus) (patch : Patch J)
    (hspares : mine = some approval ∨ (target ≠ .completed ∧ target ≠ .failed)) (reply : Reply) :
    Sent events mine db customer approval source target
      (reply.send db (Transfers.transitionTransfer db customer approval source target patch)) := by
  rcases reply.send_cases db (Transfers.transitionTransfer db customer approval source target patch)
    with ⟨message, hsend⟩ | ⟨db', changed, hok, hsend⟩
  · rw [hsend]
    exact ⟨h, .of_transfers_eq rfl, fun statuses hhas => hhas.mono (List.subset_cons_self _ _), nofun⟩
  obtain ⟨hkept, hadv, hrow⟩ := h.transitionTransfer mine hspares hok
  have hhas : ∀ statuses, db.Has customer approval statuses →
      db'.Has customer approval (target :: statuses) := by
    intro statuses hhas
    rcases hrow with ⟨-, rfl⟩ | ⟨-, -, htarget⟩
    · exact hhas.mono (List.subset_cons_self _ _)
    · exact htarget.mono (by simp)
  rcases hsend with hsend | ⟨message, hsend⟩
  · rw [hsend]
    refine ⟨hkept, hadv, hhas, fun htrue => ?_⟩
    rcases hrow with ⟨rfl, -⟩ | ⟨-, hmoved⟩
    · cases htrue
    · exact hmoved
  · rw [hsend]
    exact ⟨hkept, hadv, hhas, nofun⟩

structure Steps (pg : Pg U) (events : List (Nat × Action U J)) (db : Tables U J)
    (call : Option (Call U J)) (db' : Tables U J) (call' : Option (Call U J)) : Prop where
  kept : Kept events db'
  advances : Advances (call.bind Call.executes) db db'
  /-- The call has what it relies on, and a transfer is taken from those that wait or have failed. -/
  call : ∀ c, call' = some c → c.Holds pg events db' ∧ ∀ approval, c.executes = some approval →
    call.bind Call.executes = some approval ∨
      ∃ customer, db.Has customer approval [.awaitingApproval, .failed]

omit [DecidableEq J] in
theorem Kept.afterTransaction (mine : Option U) (h : Kept events db) {outcome : Sql (Tables U J)}
    (hok : ∀ db', outcome = .ok db' → Kept events db' ∧ Advances mine db db') :
    Kept events (afterTransaction db outcome) ∧ Advances mine db (afterTransaction db outcome) := by
  cases outcome with
  | ok db' => exact hok db' rfl
  | error e => exact ⟨h, .of_transfers_eq rfl⟩

omit [DecidableEq J] in
theorem Kept.read {call : Option (Call U J)} (hkept : Kept events db)
    (hcall : ∀ c, call' = some c → c.Holds pg events db ∧ ∀ approval, c.executes = some approval →
      call.bind Call.executes = some approval) : Steps pg events db call db call' :=
  ⟨hkept, .of_transfers_eq rfl, fun c hc => ⟨(hcall c hc).1, fun a ha => .inl ((hcall c hc).2 a ha)⟩⟩

theorem Call.query_steps {reply : Reply} (hkept : Kept events db) (hcall : call.Holds pg events db)
    (h : call.query pg db reply = some (db', call')) :
    Steps pg events db (some call) db' call' := by
  cases call with
  | deciding customer approval view =>
    cases h
    refine hkept.read fun c hc => ?_
    cases reply with
    | answered =>
      simp only at hc
      split at hc
      · cases view <;> cases hc <;> simp [Call.Holds, Call.executes]
      · cases hc
    | lost | failed => cases hc
  | closing customer approval target =>
    have hsent := hkept.send none customer approval [.awaitingApproval] target {} (.inr hcall) reply
    cases h
    exact ⟨hsent.kept, hsent.advances, nofun⟩
  | retrying =>
    cases h
    refine hkept.read fun c hc => ?_
    cases reply with
    | answered =>
      simp only at hc
      split at hc
      · cases hc
        exact ⟨.inr rfl, nofun⟩
      · cases hc
    | lost | failed => cases hc
  | claiming customer approval source =>
    have hsent := hkept.send none customer approval [source] .executing {} (.inr ⟨nofun, nofun⟩) reply
    cases h
    refine ⟨hsent.kept, hsent.advances, fun c hc => ?_⟩
    split at hc
    · next hr =>
      cases hc
      obtain ⟨hwas, his⟩ := hsent.changed hr
      refine ⟨his, fun a ha => .inr ⟨customer, ?_⟩⟩
      cases ha
      refine hwas.mono fun status hstatus => ?_
      rw [List.mem_singleton.mp hstatus]
      rcases hcall with rfl | rfl <;> simp
    · cases hc
  | claimed =>
    cases h
    refine hkept.read fun c hc => ?_
    cases reply with
    | answered =>
      simp only at hc
      split at hc
      · next hread =>
        cases hc
        obtain ⟨ht, hid, hcustomer⟩ := mem_of_findTransfer hread
        obtain ⟨k, p, hp, hof⟩ := hkept.parked _ ht
        exact ⟨⟨hcall, k, p, hp, hof.approvalID.symm.trans hid, hof.kind,
          (Option.some.inj hcustomer).symm.trans hof.customerID, hof.keyID, hof.request, rfl⟩,
          fun _ h => h⟩
      · cases hc
        exact ⟨Tables.Has.mono hcall (by simp), fun _ h => h⟩
    | lost | failed => cases hc
  | running => cases h
  | completing customer approval result =>
    have hsent := hkept.send (some approval) customer approval [.executing] .completed
      { result := some result } (.inl rfl) reply
    cases h
    refine ⟨hsent.kept, hsent.advances, fun c hc => ?_⟩
    split at hc
    · cases hc
    cases hc
    exact ⟨(hsent.has _ hcall).mono (by simp), fun _ h => .inl h⟩
  | failing customer approval error =>
    have hsent := hkept.send (some approval) customer approval [.executing] .failed
      { error := some error } (.inl rfl) reply
    cases h
    exact ⟨hsent.kept, hsent.advances, nofun⟩

theorem Call.save_steps {prepared : J} {reply : Reply} (hkept : Kept events db)
    (hcall : call.Holds pg events db) (h : call.save db prepared reply = some (db', call')) :
    Steps pg events db (some call) db' call' := by
  cases call with
  | running customer approval run =>
    have hsent := hkept.send (some approval) customer approval [.executing] .executing
      { prepared := some prepared } (.inl rfl) reply
    have hhas := hsent.has _ hcall.1
    simp only [Call.save] at h
    split at h
    · cases h
      refine ⟨hsent.kept, hsent.advances, fun c hc => ?_⟩
      split at hc
      · cases hc
        exact ⟨⟨hhas.mono (by simp), hcall.2⟩, fun _ h => .inl h⟩
      · cases hc
        exact ⟨hhas.mono (by simp), fun _ h => .inl h⟩
    · cases h
  | _ => cases h

omit [DecidableEq U] [DecidableEq J] in
theorem Call.Holds.ran {call' : Call U J} {outcome : Except String J}
    (hcall : call.Holds pg events db) (h : call.ran outcome = some call') :
    call'.Holds pg events db ∧ ∀ approval, call'.executes = some approval →
      call.executes = some approval := by
  cases call with
  | running =>
    cases outcome with
    | ok result =>
      cases h
      exact ⟨hcall.1, fun _ h => h⟩
    | error message =>
      cases h
      exact ⟨hcall.1.mono (by simp), fun _ h => h⟩
  | _ => cases h

theorem next_steps {call : Option (Call U J)} {k : Nat} {action : Action U J}
    (hkept : Kept events db) (hcall : ∀ c, call = some c → c.Holds pg events db)
    (hmem : (k, action) ∈ events) (h : next pg db call action = some (db', call')) :
    Steps pg events db call db' call' := by
  cases call with
  | none =>
    cases action with
    | park p =>
      cases h
      obtain ⟨hk, hadv⟩ := hkept.afterTransaction none fun db' hok =>
        hkept.openTransferRequest none hmem hok
      exact ⟨hk, hadv, nofun⟩
    | expireStale customer =>
      cases h
      obtain ⟨hk, hadv⟩ := hkept.afterTransaction none fun db' hok =>
        hkept.expireStaleTransfers none hok
      exact ⟨hk, hadv, nofun⟩
    | records statement =>
      cases h
      obtain ⟨hk, hadv⟩ := hkept.afterTransaction none fun db' hok => by
        obtain ⟨hk, ht⟩ := hkept.execApproval statement.2 hok
        exact ⟨hk, .of_transfers_eq ht⟩
      exact ⟨hk, hadv, nofun⟩
    | onDecision | retry =>
      cases h
      exact hkept.read fun c hc => by cases hc; exact ⟨trivial, nofun⟩
    | query | save | ran | crash => cases h
  | some c =>
    have hc := hcall c rfl
    cases action with
    | query reply => exact Call.query_steps hkept hc h
    | save => exact Call.save_steps hkept hc h
    | ran outcome =>
      obtain ⟨c', hran, heq⟩ := Option.map_eq_some_iff.mp h
      cases heq
      refine hkept.read fun c'' hc'' => ?_
      cases hc''
      exact hc.ran hran
    | crash =>
      cases h
      exact hkept.read nofun
    | park | expireStale | records | onDecision | retry => cases h

/-! ## Every run -/

def outline (pg : Pg U) (events : List (Nat × Action U J)) : Outline (Tables U J) (Call U J) where
  shared := Kept events
  thread := Call.Holds pg events
  pair call call' := ∀ approval, call.executes = some approval → call'.executes ≠ some approval
  pair_symm h approval h' h'' := h approval h'' h'

/-- **One step keeps every assertion.** -/
theorem outline_step {s s' : System (Tables U J) (Call U J)} {e : Nat × Action U J}
    (hs : (outline pg events).Holds s) (hmem : e ∈ events) (h : step (next pg) s e = some s') :
    (outline pg events).Holds s' ∧ ∃ mine, Advances mine s.shared s'.shared := by
  obtain ⟨db', call', hnext, rfl⟩ := step_eq_some.mp h
  have hsteps := next_steps hs.shared (fun c hc => hs.thread hc) hmem hnext
  refine ⟨hs.step (fun h => h) hsteps.kept (fun m hm => (hsteps.call m hm).1) ?_ ?_, _, hsteps.advances⟩
  · -- the others keep their rows
    intro j m hj hm
    refine (hs.thread hm).advances hsteps.advances fun approval hexecutes => ?_
    intro hmine
    obtain ⟨c, hc, hce⟩ := Option.bind_eq_some_iff.mp hmine
    exact hs.pair hj hm hc approval hexecutes hce
  · -- what the call executes now it executed before, or nobody did
    intro m hm j m' hj hm' approval hexecutes hexecutes'
    rcases (hsteps.call m hm).2 approval hexecutes with hbefore | ⟨customer, t, ht, hid, -, hstatus⟩
    · obtain ⟨c, hc, hce⟩ := Option.bind_eq_some_iff.mp hbefore
      exact hs.pair hj hm' hc approval hexecutes' hce
    · obtain ⟨customer', t', ht', hid', -, hstatus'⟩ := (hs.thread hm').has hexecutes'
      obtain rfl := hs.shared.sound.eq_of_approvalID ht ht' (hid.trans hid'.symm)
      simp only [List.mem_cons, List.not_mem_nil, or_false] at hstatus hstatus'
      rcases hstatus with h1 | h1 <;> rcases hstatus' with h2 | h2 <;> rw [h1] at h2 <;> cases h2

structure ExecutesOnce (pg : Pg U) (events : List (Nat × Action U J))
    (s : System (Tables U J) (Call U J)) : Prop where
  /-- A transfer is in one execution at a time. -/
  one : ∀ {i j call call' approval}, s.threads i = some call → s.threads j = some call' →
    call.executes = some approval → call'.executes = some approval → i = j
  approved : ∀ {i call approval}, s.threads i = some call → call.executes = some approval →
    s.shared.Approved approval
  parked : ∀ {i customer approval run}, s.threads i = some (.running customer approval run) →
    run.Parked pg events approval
  /-- A transfer that is over is in no execution. -/
  final : ∀ {t i call}, t ∈ s.shared.transfers → t.status.closed → s.threads i = some call →
    call.runs ≠ some t.approvalID

omit [DecidableEq J] in
theorem executesOnce_of_holds {s : System (Tables U J) (Call U J)}
    (h : (outline pg events).Holds s) : ExecutesOnce pg events s where
  one := by
    intro i j call call' approval hi hj he he'
    by_contra hne
    exact h.pair hne hi hj approval he he'
  approved := by
    intro i call approval hi he
    obtain ⟨customer, t, ht, hid, -, hstatus⟩ := (h.thread hi).has he
    obtain ⟨n, hn⟩ := List.mem_iff_getElem?.mp ht
    obtain ⟨⟨t', ht', -, hstarted⟩, -⟩ := h.shared.linked n t hn
    rw [hn] at ht'
    cases ht'
    rw [← hid]
    refine hstarted ?_
    simp only [List.mem_cons, List.not_mem_nil, or_false] at hstatus
    rcases hstatus with hs | hs <;> rw [hs] <;> rfl
  parked := fun hi => (h.thread hi).2
  final := by
    intro t i call ht hclosed hi hruns
    obtain ⟨customer, t', ht', hid, -, hstatus⟩ := (h.thread hi).has_executing hruns
    obtain rfl := h.shared.sound.eq_of_approvalID ht' ht hid
    rw [List.mem_singleton.mp hstatus] at hclosed
    cases hclosed

omit [DecidableEq J] in
theorem kept_of_empty (h : db.Empty) : Kept events db := by
  refine ⟨h.sound, fun n t hn => ?_, fun t ht => ?_⟩
  · rw [h.transfers] at hn
    cases hn
  · rw [h.transfers] at ht
    cases ht

theorem outline_run {s s' : System (Tables U J) (Call U J)} {es : List (Nat × Action U J)}
    (hs : (outline pg events).Holds s) (hsub : es ⊆ events)
    (h : Machine.run (step (next pg)) s es = some s') :
    (outline pg events).Holds s' ∧ ∀ t ∈ s.shared.transfers, t.status.closed →
      ∃ t' ∈ s'.shared.transfers, SameTransfer t t' ∧ t'.status = t.status := by
  refine Machine.run_guarded_invariant
    (P := fun u => (outline pg events).Holds u ∧ ∀ t ∈ s.shared.transfers, t.status.closed →
      ∃ t' ∈ u.shared.transfers, SameTransfer t t' ∧ t'.status = t.status)
    ?_ ⟨hs, fun t ht _ => ⟨t, ht, .refl t, rfl⟩⟩
    (Machine.guarded_of_forall fun e he _ => hsub he) h
  intro u u' e ⟨hu, hover⟩ he hstep
  obtain ⟨hu', mine, hadv⟩ := outline_step hu he hstep
  refine ⟨hu', fun t ht hclosed => ?_⟩
  obtain ⟨t', ht', hsame, hstatus⟩ := hover t ht hclosed
  obtain ⟨t'', ht'', ha⟩ := hadv.of_mem ht'
  rw [← hstatus] at hclosed
  exact ⟨t'', ht'', hsame.trans ha.same, (ha.closed hclosed).trans hstatus⟩

/--
**A parked transfer executes at most once, and only what was parked and approved**, for every
interleaving of calls, decisions, expiries, lost answers and stopped gateways: at any moment of a
run, and a transfer that is over stays as it is and is never executed again.
-/
theorem parked_transfer_executes_once {db₀ : Tables U J} (hempty : db₀.Empty)
    {earlier later : List (Nat × Action U J)} {s s' : System (Tables U J) (Call U J)}
    (hs : Machine.run (step (next pg)) (.idle db₀) earlier = some s)
    (hs' : Machine.run (step (next pg)) s later = some s') :
    ExecutesOnce pg earlier s ∧
      ∀ t ∈ s.shared.transfers, t.status.closed →
        (∃ t' ∈ s'.shared.transfers, SameTransfer t t' ∧ t'.status = t.status) ∧
        ∀ i call, s'.threads i = some call → call.runs ≠ some t.approvalID := by
  obtain ⟨hearlier, -⟩ := outline_run (Outline.holds_idle (kept_of_empty hempty))
    (List.Subset.refl earlier) hs
  refine ⟨executesOnce_of_holds hearlier, fun t ht hclosed => ?_⟩
  obtain ⟨hall, -⟩ := outline_run (Outline.holds_idle (kept_of_empty hempty))
    (List.subset_append_left earlier later) hs
  obtain ⟨hlater, hover⟩ := outline_run hall (List.subset_append_right earlier later) hs'
  obtain ⟨t', ht', hsame, hstatus⟩ := hover t ht hclosed
  refine ⟨⟨t', ht', hsame, hstatus⟩, fun i call hi hruns => ?_⟩
  rw [← hstatus] at hclosed
  rw [← hsame.approvalID] at hruns
  exact (executesOnce_of_holds hlater).final ht' hclosed hi hruns

/-! ### A decision that is delivered twice -/

/-- A Bitcoin transfer of organisation 9, which user 2 asks for. -/
def parkedTransfer : ParkedTransfer Nat String where
  approvalID := 7
  workflow := "a"
  customerID := 9
  initiatedByUserID := some 2
  initiatedByLabel := "user 2"
  policy := Approval.twoWithinAnHour
  summary := "1000 BTC base units to bc1q"
  keyID := 4
  kind := .bitcoin
  request := "1000 to bc1q"

/-- It is parked and approved by users 1 and 3, and both gateways are told at the same time. -/
def deliveredTwice : List (Nat × Action Nat String) :=
  [(0, .park parkedTransfer), (0, .records ⟨.insertDecision (approveAs 7 1), trivial⟩),
    (0, .records ⟨.insertDecision (approveAs 7 3), trivial⟩),
    (0, .onDecision 9 7 .approved), (1, .onDecision 9 7 .approved),
    (0, .query .answered), (1, .query .answered), (1, .query .answered), (0, .query .answered),
    (1, .query .answered)]

/-- The second gateway has it, the transfer is sent, and the answer to the last statement is lost. -/
def sentAndLost : List (Nat × Action Nat String) :=
  [(1, .ran (.ok "txid")), (1, .query (.lost "connection terminated")), (1, .query .answered),
    (0, .retry 9 7), (0, .query .answered)]

theorem parked_transfer_executes_once_delivered_twice :
    ∃ s s', Machine.run (step (next numbers)) (.idle noTransfers) deliveredTwice = some s ∧
      Machine.run (step (next numbers)) s sentAndLost = some s' ∧
      ExecutesOnce numbers deliveredTwice s ∧ (s.threads 0).isNone ∧
      (s.threads 1).bind Call.runs = some 7 ∧
      s'.shared.transfers.map PendingTransfer.status = [.completed] ∧ (s'.threads 0).isNone := by
  have hempty : noTransfers.Empty := ⟨rfl, rfl, rfl⟩
  have hs : Machine.run (step (next numbers)) (.idle noTransfers) deliveredTwice = some _ := rfl
  refine ⟨_, _, hs, rfl, ?_, rfl, rfl, rfl, rfl⟩
  exact (parked_transfer_executes_once hempty hs
    (show Machine.run (step (next numbers)) _ sentAndLost = some _ from rfl)).1

/-! ## A gateway that stops -/

/-- The transfer is executing, and no call is there to end that. -/
structure Abandoned (t : PendingTransfer U J) (s : System (Tables U J) (Call U J)) : Prop where
  executing : ∃ t' ∈ s.shared.transfers, SameTransfer t t' ∧ t'.status = .executing
  unheld : ∀ i call, s.threads i = some call → call.executes ≠ some t.approvalID

/-- No step takes up an abandoned transfer: "executing" is taken from rows that wait or have failed,
and left by the call that has it. -/
theorem Abandoned.step {t : PendingTransfer U J} {s s' : System (Tables U J) (Call U J)}
    {e : Nat × Action U J} (h : Abandoned t s) (hs : (outline pg events).Holds s) (hmem : e ∈ events)
    (hstep : Threads.step (next pg) s e = some s') : Abandoned t s' := by
  obtain ⟨db', call', hnext, rfl⟩ := step_eq_some.mp hstep
  have hsteps := next_steps hs.shared (fun c hc => hs.thread hc) hmem hnext
  obtain ⟨row, hrow, hsame, hexecuting⟩ := h.executing
  have hmine : (s.threads e.1).bind Call.executes ≠ some t.approvalID := by
    intro hmine
    obtain ⟨c, hc, hexecutes⟩ := Option.bind_eq_some_iff.mp hmine
    exact h.unheld e.1 c hc hexecutes
  constructor
  · obtain ⟨row', hrow', hadv⟩ := hsteps.advances.of_mem hrow
    refine ⟨row', hrow', hsame.trans hadv.same, hadv.held ?_ hexecuting⟩
    rw [hsame.approvalID]
    exact hmine
  · intro i call hcall hexecutes
    rcases update_eq_some hcall with ⟨-, hnew⟩ | ⟨-, hold⟩
    · rcases (hsteps.call call hnew).2 _ hexecutes with hbefore | ⟨_, t', ht', hid, -, hstatus⟩
      · exact hmine hbefore
      · obtain rfl := hs.shared.sound.eq_of_approvalID ht' hrow (hid.trans hsame.approvalID.symm)
        rw [hexecuting] at hstatus
        simp at hstatus
    · exact h.unheld i call hold hexecutes

/--
**A transfer whose gateway stops while it executes is never taken up again**: whatever is decided,
retried or expired afterwards, it stays executing and no call has it.
-/
theorem abandoned_run {db₀ : Tables U J} (hempty : db₀.Empty)
    {earlier later : List (Nat × Action U J)} {s s' : System (Tables U J) (Call U J)}
    (hs : Machine.run (step (next pg)) (.idle db₀) earlier = some s)
    (hs' : Machine.run (step (next pg)) s later = some s') {t : PendingTransfer U J}
    (h : Abandoned t s) : Abandoned t s' := by
  obtain ⟨hholds, -⟩ := outline_run (Outline.holds_idle (kept_of_empty hempty))
    (List.subset_append_left earlier later) hs
  refine (Machine.run_guarded_invariant
    (P := fun u => (outline pg (earlier ++ later)).Holds u ∧ Abandoned t u) ?_ ⟨hholds, h⟩
    (Machine.guarded_of_forall fun e he _ => List.mem_append_right earlier he) hs').2
  intro u u' e ⟨hu, ht⟩ he hstep
  exact ⟨(outline_step hu he hstep).1, ht.step hu he hstep⟩

/-- The approval is delivered once more, and a retry is asked for. -/
def askedAgain : List (Nat × Action Nat String) :=
  [(0, .onDecision 9 7 .approved), (0, .query .answered), (0, .query .answered),
    (1, .retry 9 7), (1, .query .answered)]

theorem abandoned_run_crashed : ∃ t s s',
    Machine.run (step (next numbers)) (.idle noTransfers) (deliveredTwice ++ [(1, .crash)]) = some s ∧
      Machine.run (step (next numbers)) s askedAgain = some s' ∧ t ∈ s.shared.transfers ∧
      Abandoned t s' := by
  have hs : Machine.run (step (next numbers)) (.idle noTransfers)
      (deliveredTwice ++ [(1, .crash)]) = some _ := rfl
  refine ⟨_, _, _, hs, rfl, .head _, abandoned_run ⟨rfl, rfl, rfl⟩ hs
    (show Machine.run (step (next numbers)) _ askedAgain = some _ from rfl)
    ⟨⟨_, .head _, .refl _, rfl⟩, ?_⟩⟩
  rintro (_ | _ | i) call hcall <;> cases hcall

end OpenFireblocks.Transfers
