import OpenFireblocks.Party.SigningCommittee

/-!
# Where protocol messages go

The threshold library addresses a message to identities; a party posts it to the endpoints of nodes.
Key generation and signing share `relayTSSMessage`, a refresh has `relayReshareMessage`, and each of
the three has its own way to find the identity of the sender again. What is sent is written down by
`postTSSEnvelope`, which makes the request; what the peers answer is arbitrary.
-/

namespace OpenFireblocks.Party

open Go Outcome

/-- What the relay reads of a `tss.Message`. -/
structure TSSMessage where
  getFrom : PartyID
  getTo : List PartyID
  isBroadcast : Bool
  isToOldCommittee : Bool := false
  isToOldAndNewCommittees : Bool := false
  /-- `WireBytes`, in base64. -/
  wireBytes : Result String

/-- `tssMessageEnvelope`, `tssSignMessageEnvelope`. -/
structure TSSMessageEnvelope where
  id : String
  fromPartyID : Int
  isBroadcast : Bool
  wireBytes : String

/-- `tssReshareMessageEnvelope`. -/
structure TSSReshareMessageEnvelope extends TSSMessageEnvelope where
  toOldCommittee : Bool
  fromOldCommittee : Bool

/-- What a relay sends: a request to a URL, or an envelope that a party hands to itself. -/
inductive Sent (E : Type) where
  | posted (url : String) (envelope : E)
  | handed (envelope : E)

/-- What a call has sent, and its result. -/
abbrev Sending (E : Type) := List (Sent E) × Result Unit

/-- `postTSSEnvelope`: the request, and what comes of it. -/
def postTSSEnvelope {E : Type} (answer : String → E → Result Unit) (baseURL path : String)
    (envelope : E) : Sending E :=
  ([.posted (baseURL ++ path) envelope], answer (baseURL ++ path) envelope)

/-- A loop that stops at the first error. -/
def sendEach {α E : Type} (send : α → Sending E) : List α → Sending E
  | [] => ([], .ok ())
  | a :: rest =>
    match send a with
    | (sent, .error f) => (sent, .error f)
    | (sent, .ok ()) => (sent ++ (sendEach send rest).1, (sendEach send rest).2)

/-! ## Key generation and signing -/

/-- The map from nodes to identities; the last identity of a node stays. -/
def peerIndexByKey (sorted : List PartyID) : List (Int × PartyID) :=
  sorted.foldl (fun out id =>
    out.filter (·.1 ≠ (nodeForPartyKey id).1) ++ [((nodeForPartyKey id).1, id)]) []

/-- The nodes that `relayTSSMessage` posts to. -/
def relayTargets (selfPartyID : Int) (peers : List (Int × String)) (sortedIDs : List PartyID)
    (msg : TSSMessage) : List Int :=
  if msg.isBroadcast then (peers.map Prod.fst).filter (· ≠ selfPartyID)
  else msg.getTo.flatMap fun id =>
    ((peerIndexByKey sortedIDs).filter (·.2.key = id.key)).map Prod.fst

def relayTSSMessage (selfPartyID : Int) (peers : List (Int × String)) (sortedIDs : List PartyID)
    (msg : TSSMessage) (postFn : String → Sending TSSMessageEnvelope) :
    Sending TSSMessageEnvelope :=
  (relayTargets selfPartyID peers sortedIDs msg) |> sendEach fun targetID =>
    match peers.lookup targetID with
    | none => ([], errorf ("no known endpoint for target party " ++ toString targetID))
    | some baseURL => (postFn baseURL).map id
        (wrapError ("failed to deliver message to party " ++ toString targetID ++ ": "))

section

variable (answer : String → TSSMessageEnvelope → Result Unit)

/-- What `relayMessage` and `relaySignMessage` have in common. -/
def relayOn (path id : String) (selfPartyID : Int) (peers : List (Int × String))
    (sortedIDs : List PartyID) (msg : TSSMessage) : Sending TSSMessageEnvelope :=
  match wrapError "failed to serialize message: " msg.wireBytes with
  | .error f => ([], .error f)
  | .ok wireBytes =>
    relayTSSMessage selfPartyID peers sortedIDs msg fun baseURL =>
      postTSSEnvelope answer baseURL path
        { id, fromPartyID := selfPartyID, isBroadcast := msg.isBroadcast, wireBytes }

def relayMessage {S : Type} (ceremonyID : String) (x : KeygenCeremony S) :
    TSSMessage → Sending TSSMessageEnvelope :=
  relayOn answer "/tss/keygen/message" ceremonyID x.selfPartyID x.peers.entries x.sortedIDs

def relaySignMessage (signID : String) (z : SigningCeremony) :
    TSSMessage → Sending TSSMessageEnvelope :=
  relayOn answer "/tss/sign/message" signID z.selfPartyID z.peers z.committee

end

/-- The sender that `HandleIncomingMessage` finds. -/
def keygenSender (sortedIDs : List PartyID) (env : TSSMessageEnvelope) : Option PartyID :=
  findPartyID sortedIDs env.fromPartyID

/-- The sender that `HandleIncomingSignMessage` finds. -/
def signSender (committee : List PartyID) (env : TSSMessageEnvelope) : Option PartyID :=
  findPartyIDByNode committee env.fromPartyID

/-! ## Refresh -/

section

variable (answer : String → TSSReshareMessageEnvelope → Result Unit) (plan : ResharePlan)

/-- `deliver` of `relayReshareMessage`. A message to this party itself is not posted. -/
def deliverReshare (node : Int) (envelope : TSSReshareMessageEnvelope) :
    Sending TSSReshareMessageEnvelope :=
  if node = plan.selfPartyID then ([.handed envelope], .ok ())
  else match plan.peers.entries.lookup node with
    | none => ([], errorf ("no known endpoint for party " ++ toString node))
    | some baseURL => (postTSSEnvelope answer baseURL "/tss/reshare/message" envelope).map id
        (wrapError ("failed to deliver message to party " ++ toString node ++ ": "))

/-- One round of the loop of `relayReshareMessage`. -/
def relayReshareTo (msg : TSSMessage) (envelope : TSSMessageEnvelope) (id : PartyID) :
    Sending TSSReshareMessageEnvelope :=
  let node := (nodeForPartyKey id).1
  let isNewID := (nodeForPartyKey id).2 = plan.newEpoch
  let fromOldCommittee := decide ((nodeForPartyKey msg.getFrom).2 ≠ plan.newEpoch)
  if node < 0 then ([], errorf "resharing message addressed to an unrecognised party")
  else if isNewID ∧ (!msg.isToOldCommittee || msg.isToOldAndNewCommittees) then
    deliverReshare answer plan node ⟨envelope, false, fromOldCommittee⟩
  else if ¬ isNewID ∧ (msg.isToOldCommittee || msg.isToOldAndNewCommittees) then
    deliverReshare answer plan node ⟨envelope, true, fromOldCommittee⟩
  else ([], .ok ())

def relayReshareMessage (reshareID : String) (msg : TSSMessage) :
    Sending TSSReshareMessageEnvelope :=
  match wrapError "failed to serialize message: " msg.wireBytes with
  | .error f => ([], .error f)
  | .ok wireBytes =>
    if msg.getTo = [] then ([], errorf "a resharing message carried no destination")
    else
      let envelope := { id := reshareID, fromPartyID := plan.selfPartyID,
                        isBroadcast := msg.isBroadcast, wireBytes }
      sendEach (relayReshareTo answer plan msg envelope) msg.getTo

end

/-- The sender that `HandleIncomingReshareMessage` finds. -/
def reshareSender (plan : ResharePlan) (env : TSSReshareMessageEnvelope) : Option PartyID :=
  if env.fromOldCommittee then
    findPartyIDByKey plan.oldSorted (committeeKey env.fromPartyID (wrap64 (plan.newEpoch - 1)))
  else findPartyIDByKey plan.newSorted (committeeKey env.fromPartyID plan.newEpoch)

/-! ## The loop -/

/-- What is sent is `targets` in this order, up to the first that fails; and all of them if every
request succeeds. -/
structure Reaches {E : Type} (r : Sending E) (targets : List (Sent E)) (reachable : Prop) :
    Prop where
  upto : r.1 <+: targets
  all : r.2 = .ok () → r.1 = targets
  works : reachable → r.2 = .ok ()

theorem sendEach_reaches {α E : Type} {send : α → Sending E} {g : α → Sent E} {reachable : Prop}
    {l : List α} (h : ∀ a ∈ l, Reaches (send a) [g a] reachable) :
    Reaches (sendEach send l) (l.map g) reachable := by
  induction l with
  | nil => exact ⟨List.prefix_rfl, fun _ => rfl, fun _ => rfl⟩
  | cons a rest ih =>
    have hrest := ih fun b hb => h b (List.mem_cons_of_mem a hb)
    obtain ⟨hupto, hall, hworks⟩ := h a List.mem_cons_self
    rw [sendEach]
    rcases hs : send a with ⟨sent, f | u⟩
    · rw [hs] at hupto hworks
      refine ⟨hupto.trans (List.prefix_append [g a] _), fun hc => ?_, fun hc => ?_⟩
      · cases hc
      · cases hworks hc
    · rw [hs] at hall
      obtain rfl := hall rfl
      refine ⟨?_, fun hc => ?_, hrest.works⟩
      · exact List.cons_prefix_cons.mpr ⟨rfl, hrest.upto⟩
      · exact congrArg (g a :: ·) (hrest.all hc)

theorem postTSSEnvelope_reaches {E : Type} (answer : String → E → Result Unit)
    (baseURL path context : String) (envelope : E) :
    Reaches ((postTSSEnvelope answer baseURL path envelope).map id (wrapError context))
      [.posted (baseURL ++ path) envelope] (∀ url env, answer url env = .ok ()) :=
  ⟨List.prefix_rfl, fun _ => rfl, fun h => wrapError_eq_ok.mpr (h _ _)⟩

/-! ## One committee -/

/-- A committee with an endpoint for every node: no two members share a node or a key. -/
structure Addressed (sorted : List PartyID) (peers : List (Int × String)) : Prop where
  nodes : (sorted.map fun id => (nodeForPartyKey id).1).Nodup
  keys : (sorted.map PartyID.key).Nodup
  peers : (peers.map Prod.fst).Perm (sorted.map fun id => (nodeForPartyKey id).1)

/-- The members that a message is for. -/
def TSSMessage.addressees (msg : TSSMessage) (selfPartyID : Int) (sorted : List PartyID) :
    List PartyID :=
  if msg.isBroadcast then sorted.filter fun id => (nodeForPartyKey id).1 ≠ selfPartyID
  else msg.getTo

theorem find?_of_unique {α : Type} {l : List α} {p : α → Bool} {a : α} (ha : a ∈ l)
    (hp : p a) (hunique : ∀ b ∈ l, p b → b = a) : l.find? p = some a := by
  cases h : l.find? p with
  | none => exact absurd hp (List.find?_eq_none.mp h a ha)
  | some b => rw [hunique b (List.mem_of_find?_eq_some h) (List.find?_some h)]

variable {sorted : List PartyID}

theorem filter_key_eq (hkeys : (sorted.map PartyID.key).Nodup) {p : PartyID} (hp : p ∈ sorted) :
    sorted.filter (·.key = p.key) = [p] := by
  induction sorted with
  | nil => cases hp
  | cons q rest ih =>
    obtain ⟨hq, hrest⟩ := List.nodup_cons.mp hkeys
    rcases List.mem_cons.mp hp with rfl | hp
    · rw [List.filter_cons_of_pos (by simp), List.filter_eq_nil_iff.mpr]
      intro r hr
      have hne : r.key ≠ p.key := fun he => hq (he ▸ List.mem_map_of_mem hr)
      simpa using hne
    · have hne : q.key ≠ p.key := fun he => hq (he ▸ List.mem_map_of_mem hp)
      rw [List.filter_cons_of_neg (by simpa using hne), ih hrest hp]

/-- A map that is filled under different keys holds what was put in. -/
theorem foldl_index {α κ : Type} [DecidableEq κ] (f : α → κ) {l : List α}
    (hnodup : (l.map f).Nodup) :
    l.foldl (fun out a => out.filter (·.1 ≠ f a) ++ [(f a, a)]) [] = l.map fun a => (f a, a) := by
  -- the map that has been built so far has other keys than those to come
  have hloop : ∀ (rest : List α) (out : List (κ × α)), (out.map Prod.fst ++ rest.map f).Nodup →
      rest.foldl (fun out a => out.filter (·.1 ≠ f a) ++ [(f a, a)]) out =
        out ++ rest.map fun a => (f a, a) := by
    intro rest
    induction rest with
    | nil => intro out _; simp
    | cons a rest ih =>
      intro out hnodup
      have hout : out.filter (·.1 ≠ f a) = out := by
        refine List.filter_eq_self.mpr fun e he => ?_
        have hdisjoint := (List.nodup_append.mp hnodup).2.2
        simpa using hdisjoint e.1 (List.mem_map_of_mem he) _ List.mem_cons_self
      rw [List.foldl_cons, hout, ih]
      · simp
      · simpa using hnodup
  exact hloop l [] hnodup

theorem filter_map_ne {α : Type} (f : α → Int) (l : List α) (node : Int) :
    (l.map f).filter (· ≠ node) = (l.filter fun a => f a ≠ node).map f := by
  rw [List.filter_map]
  rfl

theorem flatMap_index (f : PartyID → Int) {ids : List PartyID}
    (hkeys : (sorted.map PartyID.key).Nodup) (hids : ids ⊆ sorted) :
    (ids.flatMap fun id => ((sorted.map fun a => (f a, a)).filter (·.2.key = id.key)).map Prod.fst) =
      ids.map f := by
  conv_rhs => rw [List.map_eq_flatMap]
  refine List.flatMap_congr fun p hp => ?_
  rw [List.filter_map, List.map_map]
  exact congrArg (List.map f) (filter_key_eq hkeys (hids hp))

namespace Addressed

variable {sorted : List PartyID} {peers : List (Int × String)} (h : Addressed sorted peers)
include h

/-- **The targets of a message are the nodes of its addressees.** -/
theorem relayTargets_perm {msg : TSSMessage} {selfPartyID : Int} (hto : msg.getTo ⊆ sorted) :
    (relayTargets selfPartyID peers sorted msg).Perm
      ((msg.addressees selfPartyID sorted).map fun id => (nodeForPartyKey id).1) := by
  unfold relayTargets TSSMessage.addressees
  split
  · rw [← filter_map_ne (fun id => (nodeForPartyKey id).1)]
    exact h.peers.filter _
  · rw [peerIndexByKey, foldl_index (fun id => (nodeForPartyKey id).1) h.nodes,
      flatMap_index (fun id => (nodeForPartyKey id).1) h.keys hto]

theorem findPartyIDByKey_eq {p : PartyID} (hp : p ∈ sorted) {key : Int} (hkey : key = p.key) :
    findPartyIDByKey sorted key = some p := by
  refine find?_of_unique hp (by simp [hkey]) fun q hq he => ?_
  refine List.inj_on_of_nodup_map h.keys hq hp ?_
  simpa [hkey] using he

theorem exists_lookup {node : Int} (hnode : node ∈ sorted.map fun id => (nodeForPartyKey id).1) :
    ∃ url, peers.lookup node = some url := by
  obtain ⟨e, he, rfl⟩ := List.mem_map.mp (h.peers.mem_iff.mpr hnode)
  cases hl : peers.lookup e.1 with
  | some url => exact ⟨url, rfl⟩
  | none => simpa using List.lookup_eq_none_iff.mp hl e he

/-- **A message is posted to the endpoints of its addressees.** -/
theorem relayOn_reaches (answer : String → TSSMessageEnvelope → Result Unit) {path id : String}
    {selfPartyID : Int} {url : Int → String}
    (hurl : ∀ node baseURL, peers.lookup node = some baseURL → baseURL = url node)
    {msg : TSSMessage} (hto : msg.getTo ⊆ sorted) {wireBytes : String}
    (hwire : msg.wireBytes = .ok wireBytes) :
    Reaches (relayOn answer path id selfPartyID peers sorted msg)
      ((relayTargets selfPartyID peers sorted msg).map fun target =>
        .posted (url target ++ path) ⟨id, selfPartyID, msg.isBroadcast, wireBytes⟩)
      (∀ url env, answer url env = .ok ()) := by
  unfold relayOn
  rw [wrapError_eq_ok.mpr hwire]
  refine sendEach_reaches fun target htarget => ?_
  have hnode := (h.relayTargets_perm hto).mem_iff.mp htarget
  obtain ⟨p, hp, rfl⟩ := List.mem_map.mp hnode
  have hmem : p ∈ sorted := by
    unfold TSSMessage.addressees at hp
    split at hp
    · exact (List.mem_filter.mp hp).1
    · exact hto hp
  obtain ⟨baseURL, hbase⟩ := h.exists_lookup (List.mem_map_of_mem hmem)
  rw [hbase, ← hurl _ _ hbase]
  exact postTSSEnvelope_reaches ..

end Addressed

theorem Peers.Numbered.addressed [TssLib] {peers : Peers} {epoch : Int} (h : peers.Numbered epoch) :
    Addressed (committeePartyIDs peers epoch) peers.entries :=
  ⟨h.nodup_node, h.nodup_key, h.map_node.symm⟩

theorem Peers.url_eq {peers : Peers} {node : Int} {baseURL : String}
    (h : peers.entries.lookup node = some baseURL) : baseURL = peers.url node := by
  rw [Peers.url, h, Option.getD_some]

/-- A message that the committee's member `selfPartyID` has produced is posted once to the endpoint
of each addressee's node, and who takes it finds the member. -/
def Delivers (relay : (String → TSSMessageEnvelope → Result Unit) → TSSMessage →
      Sending TSSMessageEnvelope) (path id : String) (selfPartyID : Int) (url : Int → String)
    (sorted : List PartyID) (sender : TSSMessageEnvelope → Option PartyID) : Prop :=
  ∀ (msg : TSSMessage) (wireBytes : String) (answer : String → TSSMessageEnvelope → Result Unit),
    msg.getTo ⊆ sorted → msg.getFrom ∈ sorted → (nodeForPartyKey msg.getFrom).1 = selfPartyID →
    msg.wireBytes = .ok wireBytes →
    let env : TSSMessageEnvelope := ⟨id, selfPartyID, msg.isBroadcast, wireBytes⟩
    ∃ targets : List Int, targets.Perm
        ((msg.addressees selfPartyID sorted).map fun id => (nodeForPartyKey id).1) ∧
      Reaches (relay answer msg) (targets.map fun target => .posted (url target ++ path) env)
        (∀ url env, answer url env = .ok ()) ∧
      sender env = some msg.getFrom

theorem Addressed.delivers {peers : List (Int × String)} (h : Addressed sorted peers)
    {path id : String} {selfPartyID : Int} {url : Int → String}
    (hurl : ∀ node baseURL, peers.lookup node = some baseURL → baseURL = url node)
    {sender : TSSMessageEnvelope → Option PartyID}
    (hsender : ∀ p ∈ sorted, ∀ env : TSSMessageEnvelope,
      env.fromPartyID = (nodeForPartyKey p).1 → sender env = some p) :
    Delivers (fun answer => relayOn answer path id selfPartyID peers sorted) path id selfPartyID url
      sorted sender :=
  fun _ _ answer hto hfrom hself hwire => ⟨_, h.relayTargets_perm hto,
    h.relayOn_reaches answer hurl hto hwire, hsender _ hfrom _ hself.symm⟩

/-! ## Both committees of a refresh -/

/-- The flags of the threshold library fit the identities that the message is for. -/
def TSSMessage.FlagsFit (msg : TSSMessage) (plan : ResharePlan) : Prop :=
  ∀ p ∈ msg.getTo,
    p ∈ plan.oldSorted ∧ (msg.isToOldCommittee || msg.isToOldAndNewCommittees) ∨
      p ∈ plan.newSorted ∧ (!msg.isToOldCommittee || msg.isToOldAndNewCommittees)

/-- The same for a refresh: the envelope says for which of its two parties a node gets it, and what
is for this party is handed over without a request. -/
def DeliversReshare (reshareID : String) (url : Int → String) (plan receiver : ResharePlan) : Prop :=
  ∀ (msg : TSSMessage) (wireBytes : String)
    (answer : String → TSSReshareMessageEnvelope → Result Unit), msg.getTo ≠ [] →
    msg.FlagsFit plan → msg.getFrom ∈ plan.oldSorted ++ plan.newSorted →
    (nodeForPartyKey msg.getFrom).1 = plan.selfPartyID → msg.wireBytes = .ok wireBytes →
    let env (toOldCommittee : Bool) : TSSReshareMessageEnvelope :=
      ⟨⟨reshareID, plan.selfPartyID, msg.isBroadcast, wireBytes⟩, toOldCommittee,
        decide (msg.getFrom ∈ plan.oldSorted)⟩
    Reaches (relayReshareMessage answer plan reshareID msg)
        (msg.getTo.map fun p =>
          if (nodeForPartyKey p).1 = plan.selfPartyID then
            .handed (env (decide (p ∈ plan.oldSorted)))
          else .posted (url (nodeForPartyKey p).1 ++ "/tss/reshare/message")
            (env (decide (p ∈ plan.oldSorted))))
        (∀ url env, answer url env = .ok ()) ∧
      ∀ toOldCommittee, reshareSender receiver (env toOldCommittee) = some msg.getFrom

section

variable [TssLib]

/-- The two committees of `peers` at an epoch and the next. -/
structure ResharePlan.Of (plan : ResharePlan) (peers : Peers) (epoch : Int) : Prop where
  peers_eq : plan.peers = peers
  newEpoch : plan.newEpoch = epoch + 1
  oldSorted : plan.oldSorted = committeePartyIDs peers epoch
  newSorted : plan.newSorted = committeePartyIDs peers (epoch + 1)
  old : peers.Numbered epoch
  new : peers.Numbered (epoch + 1)

namespace ResharePlan.Of

variable {plan : ResharePlan} {peers : Peers} {epoch : Int} (h : plan.Of peers epoch)
include h

variable {p : PartyID}

theorem mem_oldSorted_iff (hp : p ∈ plan.oldSorted ++ plan.newSorted) :
    p ∈ plan.oldSorted ↔ (nodeForPartyKey p).2 ≠ plan.newEpoch := by
  rw [h.newEpoch]
  constructor
  · intro hold
    rw [h.oldSorted] at hold
    rw [(h.old.of_mem hold).1]
    omega
  · intro hne
    refine (List.mem_append.mp hp).resolve_right fun hnew => hne ?_
    rw [h.newSorted] at hnew
    exact (h.new.of_mem hnew).1

theorem node_mem (hp : p ∈ plan.oldSorted ++ plan.newSorted) :
    (nodeForPartyKey p).1 ∈ peers.ids := by
  rw [h.oldSorted, h.newSorted] at hp
  rcases List.mem_append.mp hp with hp | hp
  · exact h.old.map_node.mem_iff.mp (List.mem_map_of_mem hp)
  · exact h.new.map_node.mem_iff.mp (List.mem_map_of_mem hp)

theorem relayReshareTo_eq {msg : TSSMessage} (hflags : msg.FlagsFit plan)
    (hfrom : msg.getFrom ∈ plan.oldSorted ++ plan.newSorted) {envelope : TSSMessageEnvelope}
    (answer : String → TSSReshareMessageEnvelope → Result Unit) (hp : p ∈ msg.getTo) :
    relayReshareTo answer plan msg envelope p =
      deliverReshare answer plan (nodeForPartyKey p).1
        ⟨envelope, decide (p ∈ plan.oldSorted), decide (msg.getFrom ∈ plan.oldSorted)⟩ := by
  have hmem : p ∈ plan.oldSorted ++ plan.newSorted :=
    List.mem_append.mpr ((hflags p hp).imp And.left And.left)
  have hpos := (h.old _ (h.node_mem hmem)).1
  have hold := h.mem_oldSorted_iff hmem
  unfold relayReshareTo
  simp only [if_neg (show ¬ (nodeForPartyKey p).1 < 0 by omega), h.mem_oldSorted_iff hfrom]
  by_cases hnew : (nodeForPartyKey p).2 = plan.newEpoch
  · have hnot : p ∉ plan.oldSorted := fun hc => hold.mp hc hnew
    have hflag := ((hflags p hp).resolve_left fun hc => hnot hc.1).2
    rw [if_pos ⟨hnew, hflag⟩, decide_eq_false hnot]
  · have hin : p ∈ plan.oldSorted := hold.mpr hnew
    have hflag : msg.isToOldCommittee || msg.isToOldAndNewCommittees := by
      rcases hflags p hp with hc | hc
      · exact hc.2
      rw [h.newSorted] at hc
      exact absurd ((h.new.of_mem hc.1).1.trans h.newEpoch.symm) hnew
    rw [if_neg fun hc => hnew hc.1, if_pos ⟨hnew, hflag⟩, decide_eq_true hin]

theorem deliverReshare_reaches (answer : String → TSSReshareMessageEnvelope → Result Unit)
    (hp : p ∈ plan.oldSorted ++ plan.newSorted) (env : TSSReshareMessageEnvelope) :
    Reaches (deliverReshare answer plan (nodeForPartyKey p).1 env)
      [if (nodeForPartyKey p).1 = plan.selfPartyID then .handed env
        else .posted (peers.url (nodeForPartyKey p).1 ++ "/tss/reshare/message") env]
      (∀ url env, answer url env = .ok ()) := by
  obtain ⟨baseURL, hurl⟩ := h.old.addressed.exists_lookup
    (h.old.map_node.mem_iff.mpr (h.node_mem hp))
  unfold deliverReshare
  split
  · exact ⟨List.prefix_rfl, fun _ => rfl, fun _ => rfl⟩
  · rw [h.peers_eq, hurl, ← Peers.url_eq hurl]
    exact postTSSEnvelope_reaches ..

/-- **A message of a refresh is delivered once to each addressee's node, for the party that holds
the identity.** -/
theorem delivers {reshareID : String} {receiver : ResharePlan}
    (hold : receiver.oldSorted = plan.oldSorted) (hnew : receiver.newSorted = plan.newSorted)
    (hepoch : receiver.newEpoch = plan.newEpoch) :
    DeliversReshare reshareID peers.url plan receiver := by
  intro msg wireBytes answer hto hflags hfrom hself hwire
  refine ⟨?_, fun toOldCommittee => ?_⟩
  · unfold relayReshareMessage
    rw [wrapError_eq_ok.mpr hwire]
    simp only [if_neg hto]
    refine sendEach_reaches fun p hp => ?_
    rw [h.relayReshareTo_eq hflags hfrom answer hp]
    exact h.deliverReshare_reaches answer
      (List.mem_append.mpr ((hflags p hp).imp And.left And.left)) _
  · unfold reshareSender
    by_cases hin : msg.getFrom ∈ plan.oldSorted
    · have hnumber : wrap64 (epoch + 1 - 1) = epoch := by
        obtain ⟨-, hlt, h0, hmax⟩ := h.old _ (h.node_mem hfrom)
        have hpos := (h.old _ (h.node_mem hfrom)).1
        simp only [committeeEpochStride] at hmax
        rw [wrap64_of_nonneg (by omega) (by omega)]
        omega
      rw [if_pos (decide_eq_true hin), hold, hepoch, h.newEpoch, hnumber]
      rw [h.oldSorted] at hin ⊢
      have hkey := (h.old.of_mem hin).2
      rw [hself] at hkey
      exact h.old.addressed.findPartyIDByKey_eq hin hkey.symm
    · have hmem := (List.mem_append.mp hfrom).resolve_left hin
      rw [if_neg (by simpa using hin), hnew, hepoch, h.newEpoch]
      rw [h.newSorted] at hmem ⊢
      have hkey := (h.new.of_mem hmem).2
      rw [hself] at hkey
      exact h.new.addressed.findPartyIDByKey_eq hmem hkey.symm

end ResharePlan.Of

end

/-! ## The three protocols -/

section

variable [TssLib] {S : Type}

/-- **Protocol messages reach exactly their addressees.** Two parties that were given the same
nodes, in key generations, in signatures with a key of the nodes at `epoch` and in refreshes of such
a key: what the first one posts goes once to the endpoint of each addressee's node, and the second
one finds the identity that produced it. -/
theorem messages_reach_addressees {nodes₁ nodes₂ : Peers} {epoch : Int}
    (hnodes : nodes₂.ids.Perm nodes₁.ids) (hold : nodes₁.Numbered epoch) :
    (∀ {cfg₁ cfg₂ : Config S} {t₁ t₂ curve₁ curve₂ chain₁ chain₂ x₁ x₂} (id : String),
      startKeygen cfg₁ t₁ nodes₁ curve₁ chain₁ = .ok x₁ →
      startKeygen cfg₂ t₂ nodes₂ curve₂ chain₂ = .ok x₂ →
      Delivers (relayMessage · id x₁) "/tss/keygen/message" id cfg₁.partyID nodes₁.url x₁.sortedIDs
        (keygenSender x₂.sortedIDs)) ∧
    (∀ {cfg₁ cfg₂ : Config S} {x₁ x₂ c₁ c₂ hash₁ hash₂ list₁ list₂ z₁ z₂} (id : String),
      x₁.epoch = epoch → x₁.Of nodes₁ → x₂.epoch = epoch → x₂.Of nodes₂ → list₁.Perm list₂ →
      readKeygen cfg₁ x₁ c₁ hash₁ list₁ = .ok z₁ → readKeygen cfg₂ x₂ c₂ hash₂ list₂ = .ok z₂ →
      Delivers (relaySignMessage · id z₁.1) "/tss/sign/message" id cfg₁.partyID x₁.peers.url
        z₁.1.committee (signSender z₂.1.committee)) ∧
    (∀ {cfg₁ cfg₂ : Config S} {x₁ x₂ c₁ c₂ plan₁ plan₂} (id : String),
      x₁.epoch = epoch → x₂.epoch = epoch → nodes₁.Numbered (epoch + 1) →
      readSource cfg₁ x₁ id c₁ nodes₁ = .ok plan₁ → readSource cfg₂ x₂ id c₂ nodes₂ = .ok plan₂ →
      DeliversReshare id nodes₁.url plan₁.1 plan₂.1) ∧
    ∀ node ∈ nodes₁.ids, ∀ node' ∈ nodes₁.ids, ∀ e e', InRange node e → InRange node' e' →
      committeeKey node e = committeeKey node' e' → node = node' ∧ e = e' := by
  have hold₂ : committeePartyIDs nodes₂ epoch = committeePartyIDs nodes₁ epoch :=
    committeePartyIDs_congr hnodes hold.nodup_key
  refine ⟨?keygen, ?signing, ?refresh, ?keys⟩
  case keygen =>
    intro cfg₁ cfg₂ t₁ t₂ curve₁ curve₂ chain₁ chain₂ x₁ x₂ id h₁ h₂
    obtain ⟨-, -, -, -, rfl⟩ := startKeygen_eq_ok.mp h₁
    obtain ⟨-, -, -, -, rfl⟩ := startKeygen_eq_ok.mp h₂
    have hzero : nodes₁.Numbered 0 := fun node hnode =>
      ⟨(hold node hnode).1, (hold node hnode).2.1, le_refl 0, by
        have := (hold node hnode).2.1
        omega⟩
    have hsame : deterministicPartyIDs nodes₂ = deterministicPartyIDs nodes₁ :=
      @committeePartyIDs_congr 0 _ _ _ hnodes hzero.nodup_key
    refine hzero.addressed.delivers (fun _ _ => Peers.url_eq) fun p hp env henv => ?_
    have hkey := (hzero.of_mem hp).2
    rw [committeeKey_zero (nodes₁.inInt64 _ (hzero.map_node.mem_iff.mp (List.mem_map_of_mem hp))),
      ← henv] at hkey
    rw [hsame]
    exact hzero.addressed.findPartyIDByKey_eq hp hkey.symm
  case signing =>
    intro cfg₁ cfg₂ x₁ x₂ c₁ c₂ hash₁ hash₂ list₁ list₂ z₁ z₂ id he₁ hx₁ he₂ hx₂ hlist h₁ h₂
    have hfor := signing_for hx₁ h₁
    have haddressed : Addressed z₁.1.committee z₁.1.peers :=
      ⟨hfor.asked.nodup_iff.mpr hfor.listed.1, hfor.distinct, hfor.peers.trans hfor.asked.symm⟩
    have hself : z₁.1.selfPartyID = cfg₁.partyID := by rw [eq_of_readKeygen h₁]
    rw [← signing_committee_eq hx₁ hx₂ hnodes.symm (he₁.trans he₂.symm) hlist h₁ h₂]
    unfold relaySignMessage
    rw [hself]
    refine haddressed.delivers (fun node baseURL hl => ?_) fun p hp env henv => ?_
    · obtain ⟨l₁, l₂, hpeers, -⟩ := List.lookup_eq_some_iff.mp hl
      exact hfor.endpoints (node, baseURL) (by simp [hpeers])
    · refine find?_of_unique hp (by simp [henv]) fun q hq he => ?_
      exact List.inj_on_of_nodup_map haddressed.nodes hq hp (by simpa [henv] using he)
  case refresh =>
    intro cfg₁ cfg₂ x₁ x₂ c₁ c₂ plan₁ plan₂ id he₁ he₂ hnew h₁ h₂
    obtain ⟨-, -, -, hfound, hplan₁⟩ := readSource_eq_ok.mp h₁
    obtain ⟨-, -, -, -, hplan₂⟩ := readSource_eq_ok.mp h₂
    obtain ⟨node, hnode, -⟩ := findPartyIDByKey_isSome.mp hfound
    have hnext : wrap64 (epoch + 1) = epoch + 1 := by
      obtain ⟨h0, -, he, hmax⟩ := hnew node hnode
      simp only [committeeEpochStride] at hmax
      exact wrap64_of_nonneg he (by omega)
    rw [he₁, hnext] at hplan₁
    rw [he₂, hnext] at hplan₂
    have hof : plan₁.1.Of nodes₁ epoch := by
      rw [hplan₁]
      exact ⟨rfl, rfl, rfl, rfl, hold, hnew⟩
    refine hof.delivers ?_ ?_ ?_
    · rw [hplan₁, hplan₂]
      exact hold₂
    · rw [hplan₁, hplan₂]
      exact committeePartyIDs_congr hnodes hnew.nodup_key
    · rw [hplan₁, hplan₂]
  case keys =>
    intro node hnode node' hnode' e e' he he'
    obtain ⟨hpos, hlt, -⟩ := hold _ hnode
    obtain ⟨hpos', hlt', -⟩ := hold _ hnode'
    rw [he.committeeKey_eq hpos, he'.committeeKey_eq hpos']
    simp only [committeeEpochStride]
    omega

end

open scoped Insertion

theorem messages_reach_addressees_sample :
    ∃ z₁ z₂, readKeygen (sampleConfig true) sampleRefreshedKey "k" [1] [3, 1] = .ok z₁ ∧
      readKeygen { sampleConfig true with partyID := 3 } sampleRefreshedKey "k" [1] [1, 3] = .ok z₂ ∧
      Delivers (relaySignMessage · "s" z₁.1) "/tss/sign/message" "s" 1 samplePeers.url
        z₁.1.committee (signSender z₂.1.committee) := by
  have h₁ : readKeygen (sampleConfig true) sampleRefreshedKey "k" [1] [3, 1] = .ok (_, _) := rfl
  have h₂ : readKeygen { sampleConfig true with partyID := 3 } sampleRefreshedKey "k" [1] [1, 3] =
    .ok (_, _) := rfl
  have hall := @messages_reach_addressees _ String samplePeers samplePeers 1 (.refl _)
    (samplePeers_numbered (by omega) (by omega))
  exact ⟨_, _, h₁, h₂, hall.2.1 "s" rfl sampleRefreshedKey_of rfl sampleRefreshedKey_of
    (.swap 1 3 []) h₁ h₂⟩

end OpenFireblocks.Party
