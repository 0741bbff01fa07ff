import OpenFireblocks.Party.Process

/-!
# The committee of a signature

`StartSigning` picks the members it is asked for out of the key's committee, copies and sorts them.
Two parties that hold one key and are given one set of members in any order build one committee.

`SortPartyIDs` of the threshold library writes the index of an identity into the object it is given
a pointer to, so the members are copied first. `selectCommittee` is `StartSigning`'s selection on
pointers; no object that was there before is written (`selectCommittee_old`).
-/

namespace OpenFireblocks.Party

open Go

section

variable [TssLib] {S : Type} {cfg : Config S}

/-- `x` is the key of these nodes. -/
structure KeygenCeremony.Of (x : KeygenCeremony S) (nodes : Peers) : Prop where
  sortedIDs : x.sortedIDs = committeePartyIDs nodes x.epoch
  numbered : nodes.Numbered x.epoch

/-- `z` is a committee for `list`, of members of the key `x`. -/
structure SigningCeremony.For (cfg : Config S) (x : KeygenCeremony S) (nodes : Peers)
    (list : List Int) (z : SigningCeremony) : Prop where
  length : (z.committee.length : Int) = wrap64 (x.threshold + 1)
  members : z.committee ⊆ x.sortedIDs
  distinct : (z.committee.map PartyID.key).Nodup
  self : ∃ p ∈ z.committee, (p.key : Int) = committeeKey cfg.partyID x.epoch
  asked : (z.committee.map fun id => (nodeForPartyKey id).1).Perm list
  peers : (z.peers.map Prod.fst).Perm list
  endpoints : ∀ e ∈ z.peers, e.2 = x.peers.url e.1
  /-- The list names members only, each once. -/
  listed : list.Nodup ∧ list ⊆ nodes.ids

variable {list : List Int}

/-- `NewPartyID` copies an identity. -/
theorem signingCommittee_eq (sortedIDs : List PartyID) (list : List Int) :
    signingCommittee sortedIDs list =
      sortPartyIDs (sortedIDs.filter fun id => (nodeForPartyKey id).1 ∈ list) := by
  simp [signingCommittee, newPartyID_eq]

theorem eq_of_readKeygen {x : KeygenCeremony S} {c : String} {hash : BigEndian.Bytes}
    {z : SigningCeremony} {share : KeyShare S} (h : readKeygen cfg x c hash list = .ok (z, share)) :
    z = { selfPartyID := cfg.partyID, committee := signingCommittee x.sortedIDs list,
          peers := ((signingCommittee x.sortedIDs list).map fun id =>
            (nodeForPartyKey id).1).dedup.map fun id => (id, x.peers.url id),
          curve := share.curve } := by
  obtain ⟨-, -, -, -, -, -, -, hz⟩ := readKeygen_eq_ok.mp h
  exact hz

/-- **What `StartSigning` accepts.** Of a list with a duplicate or a stranger fewer members are
found than it is long. -/
theorem signing_for {x : KeygenCeremony S} {nodes : Peers} (hx : x.Of nodes) {c : String}
    {hash : BigEndian.Bytes} {z : SigningCeremony} {share : KeyShare S}
    (h : readKeygen cfg x c hash list = .ok (z, share)) : z.For cfg x nodes list := by
  obtain ⟨-, -, -, hlength, -, hfound, hself, hz⟩ := readKeygen_eq_ok.mp h
  obtain ⟨p, hself⟩ := Option.isSome_iff_exists.mp hself
  have hcommittee : z.committee = signingCommittee x.sortedIDs list := by rw [hz]
  rw [← hcommittee] at hfound hself
  have hperm : z.committee.Perm
      (x.sortedIDs.filter fun id => (nodeForPartyKey id).1 ∈ list) := by
    rw [hcommittee, signingCommittee_eq]
    exact sortPartyIDs_perm _
  have hsub := List.filter_sublist (l := x.sortedIDs) (p := fun id => (nodeForPartyKey id).1 ∈ list)
  have hnodup : (z.committee.map fun id => (nodeForPartyKey id).1).Nodup := by
    refine (hperm.map _).nodup_iff.mpr ((hsub.map _).nodup ?_)
    rw [hx.sortedIDs]
    exact hx.numbered.nodup_node
  have hmem : (z.committee.map fun id => (nodeForPartyKey id).1) ⊆ list := by
    intro id hid
    obtain ⟨q, hq, rfl⟩ := List.mem_map.mp hid
    simpa using (List.mem_filter.mp (hperm.mem_iff.mp hq)).2
  have hnodes : (z.committee.map fun id => (nodeForPartyKey id).1).Perm list :=
    (hnodup.subperm hmem).perm_of_length_le (by rw [List.length_map, hfound])
  refine
    { length := by rw [hfound, hlength]
      members := fun q hq => hsub.subset (hperm.mem_iff.mp hq)
      distinct := (hperm.map _).nodup_iff.mpr ((hsub.map _).nodup ?_)
      self := ⟨p, List.mem_of_find?_eq_some hself, findPartyIDByKey_key hself⟩
      asked := hnodes
      peers := ?_
      endpoints := ?_
      listed := ⟨hnodes.nodup_iff.mp hnodup, fun id hid => ?_⟩ }
  · rw [hx.sortedIDs]
    exact hx.numbered.nodup_key
  · rw [hz, ← hcommittee, hnodup.dedup, List.map_map]
    exact (List.Perm.of_eq (List.map_id _)).trans hnodes
  · rw [hz]
    intro e he
    obtain ⟨id, -, rfl⟩ := List.mem_map.mp he
    rfl
  · obtain ⟨q, hq, rfl⟩ := List.mem_map.mp (hnodes.mem_iff.mpr hid)
    refine hx.numbered.map_node.mem_iff.mp (List.mem_map_of_mem ?_)
    rw [← hx.sortedIDs]
    exact hsub.subset (hperm.mem_iff.mp hq)

/-- A signing request that fits the key: enough of its nodes, this party among them. -/
structure KeygenCeremony.Asked (cfg : Config S) (x : KeygenCeremony S) (nodes : Peers)
    (hash : BigEndian.Bytes) (list : List Int) : Prop where
  message : hash.length ≠ 0
  digest : ∀ share, x.saveData = some share → share.curve = .secp256k1 → hash.length = 32
  length : (list.length : Int) = wrap64 (x.threshold + 1)
  distinct : list.Nodup
  members : list ⊆ nodes.ids
  self : cfg.partyID ∈ list

theorem length_signingCommittee {x : KeygenCeremony S} {nodes : Peers} (hx : x.Of nodes)
    (hlist : list.Nodup) (hmem : list ⊆ nodes.ids) :
    (signingCommittee x.sortedIDs list).length = list.length := by
  have hnodes : ((x.sortedIDs.filter fun id => (nodeForPartyKey id).1 ∈ list).map fun id =>
      (nodeForPartyKey id).1).Perm (nodes.ids.filter (· ∈ list)) := by
    rw [hx.sortedIDs, ← Function.comp_def (fun n => decide (n ∈ list)), ← List.filter_map]
    exact hx.numbered.map_node.filter _
  have hlisted : (nodes.ids.filter (· ∈ list)).Perm list := by
    refine (List.perm_ext_iff_of_nodup (nodes.nodup.filter _) hlist).mpr fun id => ?_
    rw [List.mem_filter, decide_eq_true_eq]
    exact ⟨And.right, fun hid => ⟨hmem hid, hid⟩⟩
  rw [signingCommittee_eq, (sortPartyIDs_perm _).length_eq, ← List.length_map,
    hnodes.length_eq, hlisted.length_eq]

/-- **Such a request is accepted.** -/
theorem readKeygen_of_asked {x : KeygenCeremony S} {nodes : Peers} {c : String}
    {hash : BigEndian.Bytes} {share : KeyShare S} (hx : x.Of nodes) (hstatus : x.status = .completed)
    (hsave : x.saveData = some share) (ha : x.Asked cfg nodes hash list) :
    ∃ z, readKeygen cfg x c hash list = .ok (z, share) := by
  refine ⟨_, readKeygen_eq_ok.mpr ⟨hstatus, hsave, fun h => h.2 (ha.digest share hsave h.1),
    ha.length, ha.self, length_signingCommittee hx ha.distinct ha.members, ?_, rfl⟩⟩
  obtain ⟨q, hq, hnode⟩ := List.mem_map.mp
    (hx.numbered.map_node.mem_iff.mpr (ha.members ha.self))
  have hkey := (hx.numbered.of_mem hq).2
  simp only [hnode] at hkey
  refine List.find?_isSome.mpr ⟨q, ?_, by simpa using hkey⟩
  rw [signingCommittee_eq, (sortPartyIDs_perm _).mem_iff, List.mem_filter, hx.sortedIDs]
  exact ⟨hq, by simpa [hnode] using ha.self⟩

/-! ## The objects behind the pointers -/

/-- The selection of `StartSigning`: each wanted member is copied by `NewPartyID`. -/
def selectCommittee (heap : List PartyObject) (full : List Nat) (list : List Int) :
    List Nat × List PartyObject :=
  let wanted := (full.map (identityAt heap)).filter fun id => (nodeForPartyKey id).1 ∈ list
  sortRefs (heap ++ wanted.map fun id => { identity := newPartyID id.id id.moniker id.key })
    (List.range' heap.length wanted.length)

/-- The objects that were there are not written: only the copies are sorted. -/
theorem selectCommittee_old {heap : List PartyObject} {full : List Nat} {ref : Nat}
    (h : ref < heap.length) : (selectCommittee heap full list).2[ref]? = heap[ref]? := by
  rw [selectCommittee, TssLib.sortRefs_of_notMem, List.getElem?_append_left h]
  intro hmem
  have := List.mem_range'_1.mp hmem
  omega

theorem selectCommittee_new (heap : List PartyObject) (full : List Nat) (list : List Int) :
    ((selectCommittee heap full list).1.map fun ref => (selectCommittee heap full list).2[ref]?) =
      (signingCommittee (full.map (identityAt heap)) list).mapIdx fun k p => some ⟨p, k⟩ := by
  unfold selectCommittee signingCommittee
  generalize (full.map (identityAt heap)).filter _ = wanted
  rw [TssLib.sortRefs_map List.nodup_range']
  · refine congrArg (fun ids => (sortPartyIDs ids).mapIdx _) (List.ext_getElem (by simp) ?_)
    intro k hk hk'
    have hlt : k < wanted.length := by simpa using hk'
    simp [identityAt, hlt]
  · intro ref href
    have := List.mem_range'_1.mp href
    rw [List.length_append, List.length_map]
    omega

/-! ## Two parties -/

theorem signing_committee_eq {cfg₁ cfg₂ : Config S} {x₁ x₂ : KeygenCeremony S}
    {nodes₁ nodes₂ : Peers} (hx₁ : x₁.Of nodes₁) (hx₂ : x₂.Of nodes₂)
    (hnodes : nodes₁.ids.Perm nodes₂.ids) (hepoch : x₁.epoch = x₂.epoch) {list₁ list₂ : List Int}
    (hlist : list₁.Perm list₂) {c₁ c₂ : String} {hash₁ hash₂ : BigEndian.Bytes}
    {z₁ z₂ : SigningCeremony × KeyShare S} (h₁ : readKeygen cfg₁ x₁ c₁ hash₁ list₁ = .ok z₁)
    (h₂ : readKeygen cfg₂ x₂ c₂ hash₂ list₂ = .ok z₂) : z₁.1.committee = z₂.1.committee := by
  have hsame : x₁.sortedIDs = x₂.sortedIDs := by
    rw [hx₁.sortedIDs, hx₂.sortedIDs, hepoch]
    exact committeePartyIDs_congr hnodes hx₂.numbered.nodup_key
  rw [eq_of_readKeygen h₁, eq_of_readKeygen h₂, hsame, signingCommittee, signingCommittee]
  simp [hlist.mem_iff]

/-- **Two parties that hold one key and are given the same members in any order build the same
committee**, of `threshold + 1` members of the key, themselves among them. The list names members
only, each once. The identities of the key are not written, whatever the objects are that hold
them, and the index of a member is its place in the committee. -/
theorem signing_committees_agree {cfg₁ cfg₂ : Config S} {x₁ x₂ : KeygenCeremony S}
    {nodes₁ nodes₂ : Peers} (hx₁ : x₁.Of nodes₁) (hx₂ : x₂.Of nodes₂)
    (hnodes : nodes₁.ids.Perm nodes₂.ids) (hepoch : x₁.epoch = x₂.epoch) {list₁ list₂ : List Int}
    (hlist : list₁.Perm list₂) {c₁ c₂ : String} {hash₁ hash₂ : BigEndian.Bytes}
    {z₁ z₂ : SigningCeremony} {share₁ share₂ : KeyShare S}
    (h₁ : readKeygen cfg₁ x₁ c₁ hash₁ list₁ = .ok (z₁, share₁))
    (h₂ : readKeygen cfg₂ x₂ c₂ hash₂ list₂ = .ok (z₂, share₂)) :
    z₁.committee = z₂.committee ∧ z₁.For cfg₁ x₁ nodes₁ list₁ ∧ z₂.For cfg₂ x₂ nodes₂ list₂ ∧
      ∀ heap full, full.map (identityAt heap) = x₁.sortedIDs →
        (∀ ref < heap.length, (selectCommittee heap full list₁).2[ref]? = heap[ref]?) ∧
        ((selectCommittee heap full list₁).1.map fun ref =>
          (selectCommittee heap full list₁).2[ref]?) =
            z₁.committee.mapIdx fun k p => some ⟨p, k⟩ := by
  refine ⟨signing_committee_eq hx₁ hx₂ hnodes hepoch hlist h₁ h₂, signing_for hx₁ h₁,
    signing_for hx₂ h₂, fun heap full hfull => ⟨fun ref href => selectCommittee_old href, ?_⟩⟩
  rw [selectCommittee_new, hfull, eq_of_readKeygen h₁]

end

open scoped Insertion

def sampleRefreshedKey : KeygenCeremony String where
  status := .completed
  selfPartyID := 1
  threshold := 1
  sortedIDs := committeePartyIDs samplePeers 1
  peers := samplePeers
  curve := .ed25519
  epoch := 1
  saveData := some ⟨.ed25519, "k"⟩

theorem samplePeers_numbered {epoch : Int} (h : 0 ≤ epoch) (h' : epoch ≤ 2) :
    samplePeers.Numbered epoch := by
  intro id hid
  have hid : id = 1 ∨ id = 2 ∨ id = 3 := by simpa [samplePeers, Peers.ids] using hid
  simp only [InRange, committeeEpochStride]
  omega

theorem sampleRefreshedKey_of : sampleRefreshedKey.Of samplePeers :=
  ⟨rfl, @samplePeers_numbered 1 (by omega) (by omega)⟩

theorem signing_committees_agree_sample :
    ∃ z₁ z₂, readKeygen (sampleConfig true) sampleRefreshedKey "k" [1] [3, 1] = .ok z₁ ∧
      readKeygen { sampleConfig true with partyID := 3 } sampleRefreshedKey "k" [1] [1, 3] = .ok z₂ ∧
      z₁.1.committee = z₂.1.committee := by
  have h₁ : readKeygen (sampleConfig true) sampleRefreshedKey "k" [1] [3, 1] = .ok (_, _) := rfl
  have h₂ : readKeygen { sampleConfig true with partyID := 3 } sampleRefreshedKey "k" [1] [1, 3] =
    .ok (_, _) := rfl
  exact ⟨_, _, h₁, h₂, (signing_committees_agree sampleRefreshedKey_of sampleRefreshedKey_of
    (.refl _) rfl (.swap 1 3 []) h₁ h₂).1⟩

end OpenFireblocks.Party
