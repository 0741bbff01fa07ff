import OpenFireblocks.Party.Handlers
import OpenFireblocks.Party.RetentionOutline

/-!
# A crash and a restore

What a party has in memory for a key is compared with what `RestoreCeremony` makes of the sealed
share after the process has died: `RestoresSame`.

The key generation reports completion only once its share is sealed. A refresh reports completion
first, seals then, puts the new share in place last, and goes on when the store refuses the write.
So memory and store belong together in the runs in which no seal of a refresh is refused and the
requests for the key come one after the other, except between the seal of a refresh and the
replacement.
-/

namespace OpenFireblocks.Party

open Go Outcome Threads Machine

section

variable [TssLib] {S : Type}

/-! ## What is reported and what is restored -/

/-- `ResharingStatusResult`. -/
structure ResharingStatusResult where
  reshareID : String
  sourceCeremonyID : String
  status : CeremonyStatus
  curve : Curve
  address : String
  keyUnchanged : Bool
  isSealed : Bool
  error : String

def Manager.getResharingStatus (m : Manager S) (reshareID : String) :
    Result ResharingStatusResult := do
  m.lockMaps
  match (m.resharings.current reshareID).bind (m.resharings.get reshareID) with
  | none => errorf ("unknown resharing " ++ reshareID)
  | some y =>
    .ok { reshareID, sourceCeremonyID := y.plan.sourceCeremonyID, status := y.status,
          curve := y.plan.curve,
          address := if y.status = .completed then y.plan.expectedAddress else "",
          keyUnchanged := y.status = .completed, isSealed := y.isSealed, error := y.errorMessage }

/-- A status endpoint reports the key generation `c`, or a refresh of its key, as completed. -/
def Manager.ReportsCompleted (m : Manager S) (c : String) : Prop :=
  (∃ r, m.getStatus c = .ok r ∧ r.status = .completed) ∨
    ∃ reshareID r, m.getResharingStatus reshareID = .ok r ∧ r.sourceCeremonyID = c ∧
      r.status = .completed

/--
The party has a key under `c` whose committee is that of some nodes, and a process that starts on
the same store restores the same key when it is given the same nodes, wherever they are.
-/
def Manager.RestoresSame (cfg : Config S) (m : Manager S) (c : String) : Prop :=
  ∃ x nodes, m.loaded c = some x ∧ x.sortedIDs = committeePartyIDs nodes x.epoch ∧
    ∀ peers : Peers, peers.ids.Perm nodes.ids →
      ∃ y, (Manager.start m.store).restoreCeremony cfg c peers = .ok y ∧ x.SameKey y

/-- The library delivers shares to committees whose members have different keys only. -/
def DistinctKeys (_ : KeyShare S) (t : Terms) : Prop := (t.sortedIDs.map PartyID.key).Nodup

variable {cfg : Config S} {c : String} {x : KeygenCeremony S} {m : Manager S}
variable {dealt : KeyShare S → Terms → Prop} {strict : Prop}

/-- A restore from the store of a process that has died. -/
theorem KeygenCeremony.Restores.start {e : SealedShare S} {nodes peers : Peers}
    (h : x.Restores cfg c e) (hsealing : cfg.sealing) (hstore : m.store c = some e)
    (hnodes : x.sortedIDs = committeePartyIDs nodes x.epoch) (hperm : peers.ids.Perm nodes.ids) :
    ∃ y, (Manager.start m.store).restoreCeremony cfg c peers = .ok y ∧ x.SameKey y := by
  obtain ⟨y, hy, hsame⟩ := h nodes peers hnodes hperm
  refine ⟨y, Manager.restoreCeremony_eq_ok.mpr ⟨rfl, rfl, e, ?_, hy⟩, hsame⟩
  simp [loadSealedShare, hsealing, Manager.start, hstore]

/-! ## Refreshes and their key -/

/-- A key that has been refreshed is completed. -/
def Refreshed (c : String) (m : Manager S) : Prop :=
  ∀ reshareID k y, m.resharings.get reshareID k = some y → y.plan.sourceCeremonyID = c →
    (m.view c).Completed

omit [TssLib] in
/-- The refreshes after a write: the one that is registered, or those of before. -/
theorem resharing_of_apply {e : Effect S} {reshareID : String} {k : Nat} {y : ResharingCeremony S}
    (h : (e.apply m).resharings.get reshareID k = some y) :
    (∃ r, e = .registerResharing r y) ∨
      ∃ y', m.resharings.get reshareID k = some y' ∧ y'.plan = y.plan := by
  cases e with
  | registerResharing r z =>
    simp only [Effect.apply, Registry.get_register] at h
    split at h
    · cases h
      exact .inl ⟨r, rfl⟩
    · exact .inr ⟨y, h, rfl⟩
  | failResharing | acceptResharing | markResharing =>
    simp only [Effect.apply, Registry.get_modify] at h
    split at h
    · next hk =>
      obtain ⟨rfl, rfl⟩ := hk
      obtain ⟨y', hy', rfl⟩ := Option.map_eq_some_iff.mp h
      exact .inr ⟨y', hy', rfl⟩
    · exact .inr ⟨y, h, rfl⟩
  | forget id =>
    simp only [Effect.apply] at h
    split at h <;> exact .inr ⟨y, h, rfl⟩
  | _ => exact .inr ⟨y, h, rfl⟩

theorem Refreshed.step {s t : Process S} {i : Nat} {label : Label S} (hr : Refreshed c s.shared)
    (hs : Keeping cfg dealt c strict s) (hkeeps : (s.shared.view c).Keeps (t.shared.view c))
    (h : step cfg s (i, label) = some t) : Refreshed c t.shared := by
  intro reshareID k y hy hc
  have hcompleted : (s.shared.view c).Completed := by
    obtain ⟨effect, task, hsec, rfl⟩ := step_section h
    rcases resharing_of_apply hy with ⟨r, rfl⟩ | ⟨y', hy', hplan⟩
    · generalize hi : s.threads i = old at hsec
      cases hsec with
      | reshareRegisters =>
        obtain ⟨n, x, hn, hx, hdone, -⟩ := (hs.outline.thread hi hc).source
        exact ⟨n, x, hn, hx, hdone⟩
      | elsewhere he => cases he
    · exact hr reshareID k y' hy' (hplan ▸ hc)
  obtain ⟨n, x, hn, hx, hdone⟩ := hcompleted
  obtain ⟨hn', z, hz, hdone', -⟩ := hkeeps n x hn hx hdone
  exact ⟨n, z, hn', hz, hdone'⟩

omit [TssLib] in
theorem Refreshed.completed (h : Refreshed c m) (hr : m.ReportsCompleted c) :
    (m.view c).Completed := by
  rcases hr with ⟨r, hget, hstatus⟩ | ⟨reshareID, r, hget, hsource, _⟩
  · obtain ⟨_, _, hget⟩ := bind_eq_ok.mp hget
    split at hget
    · simp at hget
    next n hn =>
    obtain ⟨x, hx, hget⟩ := bind_eq_ok.mp hget
    cases hget
    exact ⟨n, x, hn, (Manager.lockCeremony_eq_ok.mp hx).2, hstatus⟩
  · obtain ⟨_, _, hget⟩ := bind_eq_ok.mp hget
    split at hget
    · simp at hget
    next y hy =>
    obtain ⟨k, _, hy⟩ := Option.bind_eq_some_iff.mp hy
    cases hget
    exact h reshareID k y hy hsource

/-! ## Runs -/

omit [TssLib] in
theorem quiet_start (c : String) (store : String → Option (SealedShare S)) :
    Quiet c (.idle (.start store) : Process S) :=
  ⟨rfl, fun _ _ h => by cases h⟩

/--
**A restore after a crash gives back the key that was in memory**, in every run with sealing on in
which the requests for the key come one after the other and no seal of a refresh is refused, unless
the crash falls between a seal and the replacement of the share.
-/
theorem restores_same {store : String → Option (SealedShare S)} {es : List (Nat × Label S)}
    {s : Process S} (hlaw : cfg.Lawful) (hsealing : cfg.sealing = true) (h0 : 0 < cfg.partyID)
    (hlt : cfg.partyID < 1000000)
    (hkeys : Guarded (step cfg) (Delivered cfg DistinctKeys c) (.idle (.start store)) es)
    (hturn : Guarded (step cfg) (InTurn c) (.idle (.start store)) es)
    (hstored : Guarded (step cfg) (NotRefused c) (.idle (.start store)) es)
    (hrun : run (step cfg) (.idle (.start store)) es = some s) (hsteady : Steady c s)
    (hreports : s.shared.ReportsCompleted c) : s.shared.RestoresSame cfg c := by
  have henv : Sane cfg DistinctKeys := ⟨hlaw, h0, hlt, id⟩
  obtain ⟨hs, hrefreshed⟩ : Keeping cfg DistinctKeys c True s ∧ Refreshed c s.shared := by
    refine run_guarded_invariant
      (P := fun s : Process S => Keeping cfg DistinctKeys c True s ∧ Refreshed c s.shared)
      ?_ ⟨(quiet_start c store).keeping, nofun⟩ ((hkeys.and hturn).and hstored) hrun
    rintro s t ⟨i, label⟩ ⟨hs, hrefreshed⟩ ⟨⟨hkeys, hturn⟩, hstored⟩ hstep
    obtain ⟨ht, hkeeps⟩ := hs.step henv hturn (fun _ => hstored) hkeys hstep
    exact ⟨ht, hrefreshed.step hs hkeeps hstep⟩
  obtain ⟨n, x, hn, hx, hdone⟩ := hrefreshed.completed hreports
  obtain ⟨nodes, hnodes⟩ := (hs.outline.shared.placed n x hn hx).nodes
  obtain ⟨e, he, hrestores⟩ := hs.matched trivial hsteady n x hn hx hdone hsealing
  have hloaded : s.shared.loaded c = some x := Option.bind_eq_some_iff.mpr ⟨n, hn, hx⟩
  exact ⟨x, nodes, hloaded, hnodes, fun peers hperm => hrestores.start hsealing he hnodes hperm⟩

variable {s : Process S}

omit [TssLib] in
theorem steady_of_alone {i : Nat} (halone : ∀ j, j ≠ i → s.threads j = none)
    (hidle : s.threads i = none) : Steady c s := by
  intro j t ht
  by_cases hj : j = i
  · subst hj
    rw [hidle] at ht
    cases ht
  · rw [halone j hj] at ht
    cases ht

omit [TssLib] in
theorem inTurn_of_alone {i : Nat} {label : Label S} (halone : ∀ j, j ≠ i → s.threads j = none)
    (h : label.isConditional = false) : InTurn c s (i, label) := by
  cases label with
  | startResharing =>
    intro _ j u hj hu
    rw [halone j hj] at hu
    cases hu
  | startKeygen | restore | retire => cases h
  | _ => exact trivial

theorem not_restoresSame {e : SealedShare S} {cc : CeremonyContext} (hx : m.loaded c = some x)
    (he : m.store c = some e) (hcc : e.context = some cc) (hne : cc.epoch ≠ x.epoch) :
    ¬ m.RestoresSame cfg c := by
  rintro ⟨x', nodes, hx', _, hall⟩
  obtain rfl := Option.mem_unique hx hx'
  obtain ⟨y, hy, hsame⟩ := hall nodes (List.Perm.refl _)
  obtain ⟨_, _, e', he', hy⟩ := Manager.restoreCeremony_eq_ok.mp hy
  obtain ⟨_, hstore⟩ := loadSealedShare_eq_ok he'
  obtain rfl := Option.mem_unique he hstore
  obtain ⟨_, _, ⟨cc', hcc', hepoch, _⟩, _⟩ := restoreCeremony_eq_ok hy
  obtain rfl := Option.mem_unique hcc hcc'
  exact hne (hepoch.symm.trans (congrArg Terms.epoch hsame.terms))

end

open scoped Insertion

/-! ## A key and its refresh -/

/-- A party that has shares of two keys. -/
def recoveryConfig : Config String :=
  { sampleConfig true with
    publicKey := fun share => .ok (if share.save = "C" then "04cc" else "04aa", "0xaa") }

theorem recoveryConfig_lawful : recoveryConfig.Lawful where
  equalFold_self s := by simp [recoveryConfig, sampleConfig]
  publicKey_ne := by
    rintro share K address h
    cases h
    split <;> decide

/-- A key generation and one refresh of its key, whose seal the store answers with `answer`. -/
def generateAndRefresh (answer : Label String) : List (Label String) :=
  [.startKeygen "k" 1 samplePeers .secp256k1 "", .deliver "A", .stored, .advance,
    .startResharing "r1" "k" samplePeers, .advance, .advance, .advance,
    .deliver "B", .advance, answer, .advance, .advance, .advance]

theorem generateAndRefresh_inTurn : Guarded (step recoveryConfig) (InTurn "k") sampleStart
    ((generateAndRefresh .stored).map (Prod.mk 0)) := by
  refine ⟨fun _ => ⟨?_, fun j u _ hu => by cases hu⟩, fun t ht => guarded_of_alone ?_ ?_⟩
  · rintro ⟨n, x, hn, _⟩
    cases hn
  · exact alone_of_run (w := [_]) (fun _ _ => rfl) (run_cons_eq_some.mpr ⟨t, ht, rfl⟩)
  · have hfree : ∀ label ∈ (generateAndRefresh .stored).tail, label.isConditional = false := by
      decide
    exact fun u label hlabel halone => inTurn_of_alone halone (hfree label hlabel)

theorem generateAndRefresh_delivered : Guarded (step recoveryConfig)
    (Delivered recoveryConfig DistinctKeys "k") sampleStart
    ((generateAndRefresh .stored).map (Prod.mk 0)) := by
  refine guarded_cons rfl trivial (guarded_cons rfl ?_ ?_)
  · rintro x ⟨⟩
    show List.Nodup _
    decide
  iterate 6 refine guarded_cons rfl trivial ?_
  refine guarded_cons rfl ?_ ?_
  · show List.Nodup _
    decide
  iterate 5 refine guarded_cons rfl trivial ?_
  exact trivial

/-- After a refresh that was sealed the new share is restored, at the new epoch. -/
theorem restores_same_refreshed :
    ∃ s x, run (step recoveryConfig) sampleStart
        ((generateAndRefresh .stored).map (Prod.mk 0)) = some s ∧
      s.shared.loaded "k" = some x ∧ x.saveData = some ⟨.secp256k1, "B"⟩ ∧ x.epoch = 1 ∧
      s.shared.RestoresSame recoveryConfig "k" := by
  obtain ⟨s, x, r, hrun, hidle, hx, hsave, hepoch, hr, hstatus⟩ : ∃ s x r,
      run (step recoveryConfig) sampleStart
        ((generateAndRefresh .stored).map (Prod.mk 0)) = some s ∧
      s.threads 0 = none ∧ s.shared.loaded "k" = some x ∧
      x.saveData = some ⟨.secp256k1, "B"⟩ ∧ x.epoch = 1 ∧ s.shared.getStatus "k" = .ok r ∧
      r.status = .completed := ⟨_, _, _, rfl, rfl, rfl, rfl, rfl, rfl, rfl⟩
  have hstart : ∀ j, j ≠ 0 → sampleStart.threads j = none := fun _ _ => rfl
  refine ⟨s, x, hrun, hx, hsave, hepoch, ?_⟩
  refine restores_same recoveryConfig_lawful rfl (by decide) (by decide) generateAndRefresh_delivered
    generateAndRefresh_inTurn ?_ hrun (steady_of_alone (alone_of_run hstart hrun) hidle)
    (.inl ⟨r, hr, hstatus⟩)
  have hstored : ∀ e ∈ (generateAndRefresh .stored).map (Prod.mk 0), ∀ msg, e.2 ≠ .notStored msg := by
    simp [generateAndRefresh]
  refine guarded_of_forall fun e he s => ?_
  unfold NotRefused
  split
  · next msg h => exact absurd h (hstored e he msg)
  · trivial

-- a crash between the seal of a refresh and the replacement restores what is not yet in memory
example : ∃ s, run (step recoveryConfig) sampleStart
      (((generateAndRefresh .stored).take 11).map (Prod.mk 0)) = some s ∧
    s.shared.ReportsCompleted "k" ∧ ¬ s.shared.RestoresSame recoveryConfig "k" :=
  ⟨_, rfl, .inr ⟨"r1", _, rfl, rfl, rfl⟩, not_restoresSame rfl rfl rfl (by decide)⟩

/--
A refresh whose seal the store refuses: both status endpoints report completion, the new share is in
memory at epoch 1, and a restore gives back the old one at epoch 0.
-/
theorem restores_older :
    ∃ s x r r' y, run (step recoveryConfig) sampleStart
        ((generateAndRefresh (.notStored "vault write failed")).map (Prod.mk 0)) = some s ∧
      s.shared.getStatus "k" = .ok r ∧ r.status = .completed ∧
      s.shared.getResharingStatus "r1" = .ok r' ∧ r'.sourceCeremonyID = "k" ∧
      r'.status = .completed ∧
      s.shared.loaded "k" = some x ∧ x.saveData = some ⟨.secp256k1, "B"⟩ ∧ x.epoch = 1 ∧
      (Manager.start s.shared.store).restoreCeremony recoveryConfig "k" samplePeers = .ok y ∧
      y.saveData = some ⟨.secp256k1, "A"⟩ ∧ y.epoch = 0 ∧
      ¬ s.shared.RestoresSame recoveryConfig "k" :=
  ⟨_, _, _, _, _, rfl, rfl, rfl, rfl, rfl, rfl, rfl, rfl, rfl, rfl, rfl, rfl,
    not_restoresSame rfl rfl rfl (by decide)⟩

end OpenFireblocks.Party
