import OpenFireblocks.Party.Sections

/-!
# A refresh from the request to the new share

One thread takes a refresh from `StartResharing` to the end of `completeResharing` while the
others stand still. `RefreshWorks` is what the operator expects of a refresh that was accepted.

`StartResharing` looks this party up in the old committee by its key and `runResharing` by its
number. The two are the same at epoch 0, so the first refresh of a key works and the next one
fails after it has been accepted (`refresh_works_iff`, `second_refresh_fails`).
-/

namespace OpenFireblocks.Party

open Go Outcome Threads Machine

section

variable [TssLib] {S : Type}

/-! ## The events -/

/-- The request and its critical sections. The last one registers the refresh, which a refused
request never reaches. -/
def requestLabels (reshareID source : String) (peers : Peers) : List (Label S) :=
  [.startResharing reshareID source peers, .advance, .advance]

/-- The goroutine: the protocol delivers `save` and the store answers. -/
def refreshLabels (save : S) (answer : Label S) : List (Label S) :=
  [.advance, .deliver save, .advance, answer, .advance, .advance, .advance]

def StoreAnswer (cfg : Config S) : Label S → Prop
  | .stored | .notStored _ => cfg.sealing = true
  | .advance => cfg.sealing = false
  | _ => False

/--
The refresh that thread `i` has just registered does its work: it resolves this party's identities
in the old and in the new committee, and when the protocol delivers a share of the same key, the
ceremony has that share afterwards, at the next epoch and under the next epoch's keys.
-/
structure RefreshWorks (cfg : Config S) (u : Process S) (i : Nat) (reshareID source : String)
    (x : KeygenCeremony S) (peers : Peers) : Prop where
  resolves : ∃ k plan share oldSelf newSelf,
    u.threads i = some (.reshareStart reshareID k plan share) ∧
    runResharing cfg plan share reshareID = .ok (oldSelf, newSelf) ∧
    (oldSelf.key : Int) = committeeKey cfg.partyID x.epoch ∧
    (newSelf.key : Int) = committeeKey cfg.partyID (x.epoch + 1)
  completes : ∀ save address answer,
    cfg.publicKey ⟨x.curve, save⟩ = .ok (x.publicKeyHex, address) → StoreAnswer cfg answer →
    ∃ v n y, run (step cfg) u ((refreshLabels save answer).map (Prod.mk i)) = some v ∧
      v.shared.ceremonies.current source = some n ∧ v.shared.ceremonies.get source n = some y ∧
      y.status = .completed ∧ y.saveData = some ⟨x.curve, save⟩ ∧ y.epoch = x.epoch + 1 ∧
      (y.sortedIDs.map fun q => (q.key : Int)).Perm
        (peers.ids.map fun id => committeeKey id (x.epoch + 1))

def KeygenCeremony.OnCurve (x : KeygenCeremony S) : Prop :=
  (x.curve = .secp256k1 ∨ x.curve = .ed25519) ∧
    ∀ share, x.saveData = some share → share.curve = x.curve

/-! ## The identities -/

variable {cfg : Config S} {m : Manager S} {reshareID source : String} {peers : Peers}
variable {plan : ResharePlan} {share : KeyShare S}

theorem keys_next_epoch {epoch : Int} (hids : ∀ id ∈ peers.ids, 0 < id ∧ id < 1000000)
    (hd : 2 ^ 58 ∣ epoch) :
    ((committeePartyIDs peers (epoch + 1)).map fun q => (q.key : Int)).Perm
      (peers.ids.map fun id => committeeKey id (epoch + 1)) := by
  have hperm := (map_key_committeePartyIDs peers (epoch + 1)).map (fun k : Nat => (k : Int))
  rw [List.map_map, List.map_map] at hperm
  refine hperm.trans (List.Perm.of_eq (List.map_congr_left fun id hid => ?_))
  obtain ⟨h0, hlt⟩ := hids id hid
  show ((committeeKey id (epoch + 1)).natAbs : Int) = _
  rw [committeeKey_succ h0 hlt hd]
  omega

omit [TssLib] in
theorem next_epoch {epoch : Int} (h0 : 0 ≤ epoch) (h : InInt64 epoch) (hd : 2 ^ 58 ∣ epoch) :
    wrap64 (epoch + 1) = epoch + 1 := by
  obtain ⟨_, h63⟩ := h
  exact wrap64_of_nonneg (by omega) (by omega)

/-- **The plan resolves this party's identities at the old and the new epoch exactly when its key
at the old one is its number.** -/
theorem resolves_iff {x : KeygenCeremony S} (hids : ∀ id ∈ peers.ids, 0 < id ∧ id < 1000000)
    (hself : cfg.partyID ∈ peers.ids) (he : 0 ≤ x.epoch) (he' : InInt64 x.epoch)
    (hr : readSource cfg x reshareID source peers = .ok (plan, share)) :
    (∃ oldSelf newSelf, runResharing cfg plan share reshareID = .ok (oldSelf, newSelf) ∧
      (oldSelf.key : Int) = committeeKey cfg.partyID x.epoch ∧
      (newSelf.key : Int) = committeeKey cfg.partyID (x.epoch + 1)) ↔
      2 ^ 58 ∣ x.epoch ∧ x.OnCurve := by
  obtain ⟨_, hsave, -, hfound, rfl⟩ := readSource_eq_ok.mp hr
  obtain ⟨h0, hlt⟩ := hids _ hself
  simp only [runResharing_eq_ok]
  constructor
  · rintro ⟨oldSelf, newSelf, ⟨hcurve, hshare, ho, hn⟩, hold, hnew⟩
    refine ⟨(committeeKey_eq_node_iff h0 hlt).mp ?_, hcurve, ?_⟩
    · rw [← hold, findPartyIDByKey_key ho]
    · rintro share' hs
      cases hsave.symm.trans hs
      exact hshare
  · rintro ⟨hd, hcurve, hshare⟩
    have hkey : committeeKey cfg.partyID x.epoch = cfg.partyID :=
      (committeeKey_eq_node_iff h0 hlt).mpr hd
    rw [hkey] at hfound ⊢
    obtain ⟨oldSelf, ho⟩ := Option.isSome_iff_exists.mp hfound
    obtain ⟨newSelf, hn⟩ := findPartyIDByKey_member hself
      (show 0 ≤ committeeKey cfg.partyID (x.epoch + 1) by rw [committeeKey_succ h0 hlt hd]; omega)
    rw [next_epoch he he' hd]
    exact ⟨oldSelf, newSelf, ⟨hcurve, hshare share hsave, ho, hn⟩, findPartyIDByKey_key ho,
      findPartyIDByKey_key hn⟩

/-! ## The run -/

theorem request_eq_some {p : Manager S × Option (Task S)}
    (h : run (fun p => next cfg p.1 p.2) (m, none) (requestLabels reshareID source peers) = some p) :
    m.frozen = false ∧ ∃ n x plan share, lookupSource m reshareID source = .ok n ∧
      (source, n) ∉ m.stuck ∧ m.ceremonies.get source n = some x ∧
      readSource cfg x reshareID source peers = .ok (plan, share) ∧
      p = ((Effect.registerResharing reshareID { plan }).apply m,
        some (.reshareStart reshareID (m.resharings.fresh reshareID) plan share)) := by
  obtain ⟨p₁, h₁, h⟩ := run_cons_eq_some.mp h
  obtain ⟨p₂, h₂, h⟩ := run_cons_eq_some.mp h
  obtain ⟨p₃, h₃, h⟩ := run_cons_eq_some.mp h
  cases h
  obtain ⟨hfrozen, e₁, t₁, haccept, rfl⟩ := next_request.mp h₁
  simp only [accept] at haccept
  split at haccept
  · next n hl =>
    cases haccept
    obtain ⟨hw, e₂, t₂, hread, rfl⟩ := next_task.mp h₂
    have hstuck : (source, n) ∉ m.stuck := by
      change waits m (some (.reshareRead reshareID source peers n)) = false at hw
      simpa [waits, takesMaps, takesCeremony] using hw
    simp only [resume] at hread
    split at hread
    · cases hread
    next x hx =>
    split at hread
    · next plan share hr =>
      cases hread
      obtain ⟨_, e₃, t₃, hregister, rfl⟩ := next_task.mp h₃
      cases hregister
      exact ⟨hfrozen, n, x, plan, share, hl, hstuck, hx, hr, rfl⟩
    · cases hread
      obtain ⟨_, e₃, t₃, hidle, _⟩ := next_request.mp h₃
      cases hidle
  · cases haccept

omit [TssLib] in
theorem afterSeal_storeAnswer {answer : Label S} (h : StoreAnswer cfg answer)
    (done : Bool → Task S) (id : String) (e : SealedShare S) :
    ∃ effect isSealed, afterSeal cfg answer done (fun _ => done false) id e
        = some (effect, some (done isSealed)) ∧
      ∀ m, ∃ store, effect.apply m = { m with store } := by
  cases answer with
  | stored =>
    have hs : cfg.sealing := h
    exact ⟨.writeSealed id e, true, by simp [afterSeal, hs], fun m => ⟨_, rfl⟩⟩
  | notStored msg =>
    have hs : cfg.sealing := h
    exact ⟨.idle, false, by simp [afterSeal, hs], fun m => ⟨m.store, rfl⟩⟩
  | advance =>
    have hs : cfg.sealing = false := h
    exact ⟨.idle, false, by simp [afterSeal, hs], fun m => ⟨m.store, rfl⟩⟩
  | _ => cases h

theorem refresh_run {k n : Nat} {save : S} {address : String} {answer : Label S}
    {r : PartyID × PartyID} (hrun : runResharing cfg plan share reshareID = .ok r)
    (hkey : cfg.publicKey ⟨plan.curve, save⟩ = .ok (plan.expectedPublicKey, address))
    (hanswer : StoreAnswer cfg answer) (hcur : m.ceremonies.current plan.sourceCeremonyID = some n)
    (hfrozen : m.frozen = false) (hstuck : (plan.sourceCeremonyID, n) ∉ m.stuck) :
    ∃ m', run (fun p => next cfg p.1 p.2) (m, some (.reshareStart reshareID k plan share))
        (refreshLabels save answer) = some (m', none) ∧
      m'.ceremonies = m.ceremonies.modify plan.sourceCeremonyID n fun x =>
        { x with saveData := some ⟨plan.curve, save⟩, sortedIDs := plan.newSorted,
                 epoch := plan.newEpoch } := by
  have hc : ∃ a, completeResharing cfg plan ⟨plan.curve, save⟩ = .ok (plan.expectedPublicKey, a) := by
    simp [completeResharing, hkey, wrapError]
  obtain ⟨a, hc⟩ := hc
  obtain ⟨effect, isSealed, hseal, hframe⟩ := afterSeal_storeAnswer hanswer
    (.reshareMark reshareID k plan ⟨plan.curve, save⟩) plan.sourceCeremonyID
    (plan.sealedShare ⟨plan.curve, save⟩ plan.expectedPublicKey a)
  let accepted := (Effect.acceptResharing reshareID k ⟨plan.curve, save⟩).apply m
  obtain ⟨store, hstore⟩ := hframe accepted
  let marked := (Effect.markResharing reshareID k isSealed).apply { accepted with store }
  refine ⟨(Effect.replaceShare plan.sourceCeremonyID n ⟨plan.curve, save⟩ plan.newSorted
    plan.newEpoch).apply marked, ?_, rfl⟩
  refine run_cons_eq_some.mpr ⟨(m, some (.reshare reshareID k plan)), ?_, ?_⟩
  · exact next_task.mpr ⟨by simp [waits, takesMaps, takesCeremony], .idle, _, by rw [resume, hrun], rfl⟩
  refine run_cons_eq_some.mpr ⟨(m, some (.reshareAccept reshareID k plan ⟨plan.curve, save⟩
    plan.expectedPublicKey a)), ?_, ?_⟩
  · exact next_task.mpr ⟨by simp [waits, takesMaps, takesCeremony], .idle, _, by rw [resume, hc], rfl⟩
  refine run_cons_eq_some.mpr ⟨(accepted, some (.reshareSeal reshareID k plan ⟨plan.curve, save⟩
    plan.expectedPublicKey a)), ?_, ?_⟩
  · exact next_task.mpr ⟨by simp [waits, takesMaps, takesCeremony], _, _, rfl, rfl⟩
  refine run_cons_eq_some.mpr ⟨({ accepted with store }, some (.reshareMark reshareID k plan
    ⟨plan.curve, save⟩ isSealed)), ?_, ?_⟩
  · exact next_task.mpr ⟨by simp [waits, takesMaps, takesCeremony], effect, _, by rw [resume, hseal],
      by rw [hstore]⟩
  refine run_cons_eq_some.mpr ⟨(marked, some (.reshareFind plan ⟨plan.curve, save⟩)), ?_, ?_⟩
  · exact next_task.mpr ⟨by simp [waits, takesMaps, takesCeremony], _, _, rfl, rfl⟩
  refine run_cons_eq_some.mpr ⟨(marked, some (.reshareReplace plan ⟨plan.curve, save⟩ n)), ?_, ?_⟩
  · refine next_task.mpr ⟨?_, .idle, _, ?_, rfl⟩
    · show (m.frozen && _ || _) = false
      rw [hfrozen]
      rfl
    · rw [resume, show marked.ceremonies.current plan.sourceCeremonyID = some n from hcur]
  refine run_cons_eq_some.mpr ⟨_, next_task.mpr ⟨?_, _, _, rfl, rfl⟩, rfl⟩
  show (m.frozen && _ || Option.any (fun r => decide (r ∈ m.stuck)) _) = false
  simp [takesMaps, takesCeremony, hstuck]

/--
**A refresh that was accepted works exactly when the source is at an epoch whose keys are the
parties' numbers**, and the ceremony is on a known curve with its share. The epochs are those
divisible by `2 ^ 58`: epoch 0, and no other that a party will ever reach.
-/
theorem refresh_works_iff {s u : Process S} {i n : Nat} {x : KeygenCeremony S}
    (hids : ∀ id ∈ peers.ids, 0 < id ∧ id < 1000000) (hself : cfg.partyID ∈ peers.ids)
    (hcur : s.shared.ceremonies.current source = some n)
    (hx : s.shared.ceremonies.get source n = some x) (he : 0 ≤ x.epoch) (he' : InInt64 x.epoch)
    (hidle : s.threads i = none)
    (haccepted : run (step cfg) s ((requestLabels reshareID source peers).map (Prod.mk i)) = some u) :
    RefreshWorks cfg u i reshareID source x peers ↔ 2 ^ 58 ∣ x.epoch ∧ x.OnCurve := by
  rw [run_map_thread, hidle, Option.map_eq_some_iff] at haccepted
  obtain ⟨p, hp, rfl⟩ := haccepted
  obtain ⟨hfrozen, n', x', plan, share, hl, hstuck, hx', hr, rfl⟩ := request_eq_some hp
  cases hcur.symm.trans (lookupSource_eq_ok hl)
  cases hx.symm.trans hx'
  have hiff := resolves_iff hids hself he he' hr
  constructor
  · rintro ⟨⟨k, plan', share', oldSelf, newSelf, ht, hrest⟩, _⟩
    simp only [Function.update_self] at ht
    cases ht
    exact hiff.mp ⟨oldSelf, newSelf, hrest⟩
  · intro hcond
    obtain ⟨oldSelf, newSelf, hrun, hold, hnew⟩ := hiff.mpr hcond
    refine ⟨⟨_, plan, share, oldSelf, newSelf, Function.update_self .., hrun, hold, hnew⟩, ?_⟩
    intro save address answer hkey hanswer
    obtain ⟨hstatus, -, -, -, hplan⟩ := readSource_eq_ok.mp hr
    obtain ⟨v, hv, hceremonies⟩ := refresh_run
      (m := (Effect.registerResharing reshareID { plan }).apply s.shared)
      (k := s.shared.resharings.fresh reshareID) hrun
      (by rw [hplan]; exact hkey) hanswer (by rw [hplan]; exact hcur) hfrozen
      (by rw [hplan]; exact hstuck)
    subst hplan
    have hnext : wrap64 (x.epoch + 1) = x.epoch + 1 := next_epoch he he' hcond.1
    refine ⟨⟨v, Function.update s.threads i none⟩, n,
      { x with saveData := some ⟨x.curve, save⟩, epoch := wrap64 (x.epoch + 1),
               sortedIDs := committeePartyIDs peers (wrap64 (x.epoch + 1)) },
      ?_, ?_, ?_, hstatus, rfl, hnext, ?_⟩
    · rw [run_map_thread]
      simp [Function.update_self, hv, Option.map_some, Function.update_idem]
    · show v.ceremonies.current source = some n
      rw [hceremonies]
      exact hcur
    · show v.ceremonies.get source n = _
      rw [hceremonies, Registry.get_modify, if_pos ⟨rfl, rfl⟩]
      show (s.shared.ceremonies.get source n).map _ = _
      rw [hx]
      rfl
    · simp only [hnext]
      exact keys_next_epoch hids hcond.1

end

open scoped Insertion

/-- A key generation and the runs of one refresh after the other, each delivering the same key. -/
def sampleRefreshed : List String → List (Nat × Label String)
  | [] => sampleKeygen 0 "k" "A" ++ [(0, .advance)]
  | reshareID :: before =>
    sampleRefreshed before ++ sampleBegin 0 reshareID "k" ++ sampleFinish 0 "A"

theorem refresh_works_first :
    ∃ s u x, run (step (sampleConfig true)) sampleStart (sampleRefreshed []) = some s ∧
      run (step (sampleConfig true)) s
        ((requestLabels "r1" "k" samplePeers).map (Prod.mk 0)) = some u ∧
      RefreshWorks (sampleConfig true) u 0 "r1" "k" x samplePeers := by
  obtain ⟨s, u, x, hs, hcur, hx, hepoch, hcurve, hsave, hidle, hu⟩ : ∃ s u x,
      run (step (sampleConfig true)) sampleStart (sampleRefreshed []) = some s ∧
      s.shared.ceremonies.current "k" = some 0 ∧ s.shared.ceremonies.get "k" 0 = some x ∧
      x.epoch = 0 ∧ x.curve = .secp256k1 ∧ x.saveData = some ⟨.secp256k1, "A"⟩ ∧
      s.threads 0 = none ∧ run (step (sampleConfig true)) s
        ((requestLabels "r1" "k" samplePeers).map (Prod.mk 0)) = some u :=
    ⟨_, _, _, rfl, rfl, rfl, rfl, rfl, rfl, rfl, rfl⟩
  have hon : x.OnCurve := by
    refine ⟨.inl hcurve, fun share hshare => ?_⟩
    cases hsave.symm.trans hshare
    exact hcurve.symm
  exact ⟨s, u, x, hs, hu, (refresh_works_iff (by decide) (by decide) hcur hx (by omega)
    (by rw [hepoch]; decide) hidle hu).mpr ⟨by rw [hepoch]; decide, hon⟩⟩

/--
The second refresh of a key: the ceremony is completed, at epoch 1, and its committee is the one it
was generated with. The request is accepted and the run then fails for want of an identity.
-/
theorem second_refresh_fails :
    ∃ s u x k plan share,
      run (step (sampleConfig true)) sampleStart (sampleRefreshed ["r1"]) = some s ∧
      s.shared.ceremonies.current "k" = some 0 ∧ s.shared.ceremonies.get "k" 0 = some x ∧
      x.status = .completed ∧ x.epoch = 1 ∧ x.peers = samplePeers ∧
      run (step (sampleConfig true)) s
        ((requestLabels "r2" "k" samplePeers).map (Prod.mk 0)) = some u ∧
      u.threads 0 = some (.reshareStart "r2" k plan share) ∧
      runResharing (sampleConfig true) plan share "r2" =
        .error (.error "this party is not in both committees of resharing r2") :=
  ⟨_, _, _, _, _, _, rfl, rfl, rfl, rfl, rfl, rfl, rfl, rfl, rfl⟩

end OpenFireblocks.Party
