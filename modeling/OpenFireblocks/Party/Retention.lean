import OpenFireblocks.Party.Recovery
import OpenFireblocks.Party.SigningCommittee

/-!
# A completed share is kept

Once a ceremony is completed with a share of a public key, the party has a usable share of that key
under the ceremony's id, in memory and in the sealed store, until the ceremony is retired
(`Manager.Holds`).

The code does not make sure of this by itself: `startKeygen` writes its record over whatever the
id names, and the functions that end a run find their record, or their place in the store, by the
id. A signing request with a digest of the wrong length leaves the mutex of the key locked for ever
(`WellSized`).
-/

namespace OpenFireblocks.Party

open Go Threads Machine Outcome

section

variable [TssLib] {S : Type}

/-- Signing with this digest does not return from `StartSigning` with the key's mutex locked. The
condition is on every key: a retirement of the locked one would wait with the mutex of the maps. -/
def WellSized (s : Process S) (e : Nat × Label S) : Prop :=
  match s.threads e.1 with
  | some (.signRead _ id messageHash _ n) =>
    ∀ x, s.shared.ceremonies.get id n = some x → x.returnsLocked messageHash = false
  | _ => True

/-- No mutex has been left locked. -/
def Manager.Unlocked (m : Manager S) : Prop := m.stuck = [] ∧ m.frozen = false

/--
The party holds a usable share of `K` under `c`.

In memory it is in a completed ceremony, with the committee and the epoch it was dealt for, and the
party signs with it whenever it is asked to by enough of the committee's nodes. From the store a
process that has nothing else restores such a ceremony.
-/
structure Manager.Holds (cfg : Config S) (dealt : KeyShare S → Terms → Prop) (c K : String)
    (m : Manager S) : Prop where
  loaded : ∃ x share nodes, m.loaded c = some x ∧ x.status = .completed ∧ x.publicKeyHex = K ∧
    x.saveData = some share ∧ KeyOf cfg share K ∧ dealt share x.terms ∧
    x.sortedIDs = committeePartyIDs nodes x.epoch ∧
    (nodes.Numbered x.epoch → cfg.partyID ∈ nodes.ids ∧ ∀ messageHash list,
      x.Asked cfg nodes messageHash list →
        ∃ z, m.startSigning cfg c messageHash list = .ok (z, share))
  stored : cfg.sealing → ∃ nodes : Peers, ∀ peers : Peers, peers.ids.Perm nodes.ids →
    ∃ y share, (Manager.start m.store).restoreCeremony cfg c peers = .ok y ∧ y.publicKeyHex = K ∧
      y.saveData = some share ∧ KeyOf cfg share K ∧ dealt share y.terms

variable {cfg : Config S} {dealt : KeyShare S → Terms → Prop} {c K : String} {m : Manager S}

/-- **A section leaves no mutex locked**, unless it reads a digest of the wrong length. -/
theorem step_unlocked {s t : Process S} {e : Nat × Label S} (hs : s.shared.Unlocked)
    (hsized : WellSized s e) (h : step cfg s e = some t) : t.shared.Unlocked := by
  obtain ⟨i, label⟩ := e
  obtain ⟨effect, task, hsec, rfl⟩ := step_section h
  simp only [WellSized] at hsized
  generalize s.threads i = old at hsec hsized
  cases effect with
  | leaveLocked id n =>
    cases hsec with
    | elsewhere _ hl =>
      obtain ⟨signID, messageHash, committee, x, rfl, hx, hlocked⟩ := hl
      rw [hsized x hx] at hlocked
      cases hlocked
  | freeze =>
    cases hsec with
    | elsewhere _ hl => exact absurd hs.1 hl
  | forget id =>
    show (Effect.apply _ _).Unlocked
    simp only [Effect.apply]
    split <;> exact hs
  | _ => exact hs

/-- The party under `c` is asked for by its key. -/
theorem KeygenCeremony.Placed.mem {x : KeygenCeremony S} {nodes : Peers} (hpos : 0 < cfg.partyID)
    (h : x.Placed cfg) (hx : x.Of nodes) : cfg.partyID ∈ nodes.ids := by
  have hself := h.self
  rw [hx.sortedIDs] at hself
  obtain ⟨id, hid, hkey⟩ := findPartyIDByKey_isSome.mp hself
  obtain ⟨h0, _, hrange⟩ := hx.numbered id hid
  have heq := hrange.committeeKey_eq h0
  have heq' := h.range.committeeKey_eq hpos
  obtain ⟨he, _⟩ := hrange
  simp only [committeeEpochStride] at heq heq'
  obtain rfl : id = cfg.partyID := by omega
  exact hid

/-- What the invariant says of a completed ceremony. -/
theorem Keeping.holds {s : Process S} {n : Nat} {x : KeygenCeremony S} (henv : Sane cfg dealt)
    (hs : Keeping cfg dealt c False s) (hfree : s.shared.Unlocked)
    (hn : s.shared.ceremonies.current c = some n) (hx : s.shared.ceremonies.get c n = some x)
    (hdone : x.status = .completed) : s.shared.Holds cfg dealt c x.publicKeyHex := by
  obtain ⟨hstuck, hfrozen⟩ := hfree
  have hsound := hs.outline.shared.sound n x hn hx hdone
  obtain ⟨share, hsave, hkey, hdealt⟩ := hsound.share
  obtain ⟨nodes, hnodes⟩ := hsound.nodes
  refine ⟨⟨x, share, nodes, Option.bind_eq_some_iff.mpr ⟨n, hn, hx⟩, hdone, rfl, hsave, hkey, hdealt,
    hnodes, fun hnumbered => ⟨hsound.mem henv.pos ⟨hnodes, hnumbered⟩, fun hash list ha => ?_⟩⟩,
    fun hsealing => ?_⟩
  · obtain ⟨z, hz⟩ := readKeygen_of_asked (c := c) ⟨hnodes, hnumbered⟩ hdone hsave ha
    exact ⟨z, Manager.startSigning_eq_ok.mpr ⟨hfrozen, n, x, lookupKeygen_eq_ok.mpr ⟨ha.message, hn⟩,
      by simp [hstuck], hx, hz⟩⟩
  · obtain ⟨e, y, he, hy, hykey, hrestores⟩ := hs.outline.shared.stored n x hn hx hdone hsealing
    obtain ⟨share', hsave', hkey', hdealt'⟩ := hy.share
    obtain ⟨nodes', hnodes'⟩ := hy.nodes
    refine ⟨nodes', fun peers hperm => ?_⟩
    obtain ⟨z, hz, hzsave, hzkey, hzterms⟩ := hrestores.start hsealing he hnodes' hperm
    exact ⟨z, share', hz, hzkey.trans hykey, hzsave.trans hsave', hykey ▸ hkey', hzterms ▸ hdealt'⟩

/-- What is asked of a step: the requests for `c` come in turn, digests have the length their key
signs, and shares are dealt for what they are kept with. -/
def Admissible (cfg : Config S) (dealt : KeyShare S → Terms → Prop) (c : String) (s : Process S)
    (e : Nat × Label S) : Prop :=
  InTurn c s e ∧ WellSized s e ∧ Delivered cfg dealt c s e

/--
**A completed share is kept until it is retired.** In every run from a state in which nothing is
under `c` or works for it and no mutex is stuck: once `c` is completed with the key `K`, the party
holds a usable share of `K` in every later state, where `dealt` may be any relation between shares
and what they were made for that implies different keys in the committee.
-/
theorem completed_share_kept (hlaw : cfg.Lawful) (hpos : 0 < cfg.partyID)
    (hlt : cfg.partyID < 1000000)
    (hdistinct : ∀ share t, dealt share t → DistinctKeys share t)
    {s₀ s₁ s₂ : Process S} {es₁ es₂ : List (Nat × Label S)} {x : KeygenCeremony S}
    (hquiet : Quiet c s₀) (hfree : s₀.shared.Unlocked)
    (hg : Guarded (step cfg) (Admissible cfg dealt c) s₀ (es₁ ++ es₂))
    (h₁ : run (step cfg) s₀ es₁ = some s₁) (hx : s₁.shared.loaded c = some x)
    (hdone : x.status = .completed) (hkey : x.publicKeyHex = K)
    (h₂ : run (step cfg) s₁ es₂ = some s₂) : s₂.shared.Holds cfg dealt c K := by
  have henv : Sane cfg dealt := ⟨hlaw, hpos, hlt, fun h => hdistinct _ _ h⟩
  have hstep : ∀ {s t : Process S} {e}, Keeping cfg dealt c False s ∧ s.shared.Unlocked →
      Admissible cfg dealt c s e → step cfg s e = some t →
      (Keeping cfg dealt c False t ∧ t.shared.Unlocked) ∧
        (s.shared.view c).Keeps (t.shared.view c) := by
    rintro s t ⟨i, label⟩ ⟨hs, hfree⟩ ⟨hturn, hsized, hd⟩ h
    obtain ⟨ht, hkeeps⟩ := hs.step henv hturn False.elim hd h
    exact ⟨⟨ht, step_unlocked hfree hsized h⟩, hkeeps⟩
  obtain ⟨hg₁, hg₂⟩ := hg.append
  have hs₁ := run_guarded_invariant (fun hs hg h => (hstep hs hg h).1) ⟨hquiet.keeping, hfree⟩ hg₁ h₁
  obtain ⟨n, hn, hx⟩ := Option.bind_eq_some_iff.mp hx
  have hkept := run_guarded_invariant
    (P := fun s : Process S => (Keeping cfg dealt c False s ∧ s.shared.Unlocked) ∧ ∃ n y,
      s.shared.ceremonies.current c = some n ∧ s.shared.ceremonies.get c n = some y ∧
        y.status = .completed ∧ y.publicKeyHex = K)
    ?_ ⟨hs₁, n, x, hn, hx, hdone, hkey⟩ (hg₂ s₁ h₁) h₂
  · obtain ⟨⟨hs, hfree⟩, n, y, hn, hy, hdone, rfl⟩ := hkept
    exact hs.holds henv hfree hn hy hdone
  · rintro s t e ⟨hs, n, y, hn, hy, hdone, hkey⟩ hg h
    obtain ⟨ht, hkeeps⟩ := hstep hs hg h
    obtain ⟨hn', z, hz, hdone', hkey'⟩ := hkeeps n y hn hy hdone
    exact ⟨ht, n, z, hn', hz, hdone', hkey'.trans hkey⟩

end

open scoped Insertion

theorem completed_share_kept_refreshed :
    ∃ s, run (step recoveryConfig) sampleStart
        ((generateAndRefresh .stored).map (Prod.mk 0)) = some s ∧
      s.shared.Holds recoveryConfig DistinctKeys "k" "04aa" := by
  refine ⟨_, rfl, ?_⟩
  refine @completed_share_kept _ String recoveryConfig DistinctKeys "k" "04aa" recoveryConfig_lawful
    (by decide) (by decide) (fun _ _ h => h) sampleStart _ _
    (((generateAndRefresh .stored).take 4).map (Prod.mk 0))
    (((generateAndRefresh .stored).drop 4).map (Prod.mk 0)) _ (quiet_start "k" _) ⟨rfl, rfl⟩
    (generateAndRefresh_inTurn.and (.and ?_ generateAndRefresh_delivered)) rfl rfl rfl rfl rfl
  iterate 14 refine guarded_cons rfl trivial ?_
  exact trivial

/--
A second key generation under the id of a completed one, with no retirement in between: the party
accepts it, and holds no share of the first key any more, neither in memory nor sealed.
-/
theorem startKeygen_overwrites :
    ∃ s₁ s₂ x y e,
      run (step recoveryConfig) sampleStart (sampleKeygen 0 "k" "A" ++ [(0, .advance)]) = some s₁ ∧
      s₁.shared.loaded "k" = some x ∧ x.status = .completed ∧ x.publicKeyHex = "04aa" ∧
      run (step recoveryConfig) s₁ (sampleKeygen 0 "k" "C" ++ [(0, .advance)]) = some s₂ ∧
      s₂.shared.loaded "k" = some y ∧ y.saveData = some ⟨.secp256k1, "C"⟩ ∧
      s₂.shared.store "k" = some e ∧ e.share = ⟨.secp256k1, "C"⟩ ∧
      ¬ KeyOf recoveryConfig e.share "04aa" ∧
      ∀ dealt, ¬ s₂.shared.Holds recoveryConfig dealt "k" "04aa" := by
  refine ⟨_, _, _, _, _, rfl, rfl, rfl, rfl, rfl, rfl, rfl, rfl, rfl, ?_, fun dealt h => ?_⟩
  · rintro ⟨a, ha⟩
    simp [recoveryConfig, KeygenCeremony.sealedShare] at ha
  · obtain ⟨⟨x, share, nodes, hx, _, hkey, _⟩, _⟩ := h
    cases hx
    simp at hkey

end OpenFireblocks.Party
