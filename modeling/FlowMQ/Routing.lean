import FlowMQ.ClusterManager
import FlowMQ.Configuration

/-!
# The endpoints of a server

`RunServer` gives the cluster manager the other nodes under their positions in
`server_nodes`, and takes its client facing port from the position that is
the number of the current node; everything else goes by ids. The two agree as long
as the node at the position of an id has the address of the node with this id.
-/

namespace FlowMQ

open StdString

def port (text : Bytes) : Except StdException UInt16 := (stoi text).map fun n => UInt16.ofInt n

def ServerNode.address (n : ServerNode) : ResolverResults := ⟨n.host, n.clusterPort⟩

/-- `server_nodes[i]`, which is undefined outside the list. -/
def nodeAt (nodes : List ServerNode) (i : Int) : Option ServerNode := if i < 0 then none else nodes[i.toNat]?

def ServerConfiguration.override (curNode : Int) (config : ServerConfiguration) : ServerConfiguration :=
  if 0 ≤ curNode then { config with currentNode := curNode } else config

inductive ServerFailure where
  | thrown (e : StdException)
  | undefined
  deriving DecidableEq, Repr

/-- What `RunServer` constructs the managers with. The addresses of the two endpoints of its own
are `tcp::v4()`. -/
structure ServerEndpoints where
  thisEndpoint : UInt16
  others : List (Int × ResolverResults)
  clientFacingEndpoint : UInt16
  deriving DecidableEq, Repr

def endpointLoop (currentNode : Int) (i : Nat) (thisEndpoint : UInt16)
    (others : List (Int × ResolverResults)) :
    List ServerNode → Except StdException (UInt16 × List (Int × ResolverResults))
  | [] => .ok (thisEndpoint, others)
  | n :: nodes =>
    if n.id = currentNode then
      match port n.clusterPort with
      | .error e => .error e
      | .ok p => endpointLoop currentNode (i + 1) p others nodes
    else endpointLoop currentNode (i + 1) thisEndpoint (others ++ [((i : Int), n.address)]) nodes

def serverEndpoints (config : ServerConfiguration) : Except ServerFailure ServerEndpoints :=
  match endpointLoop config.currentNode 0 0 [] config.serverNodes with
  | .error e => .error (.thrown e)
  | .ok (thisEndpoint, others) =>
    match nodeAt config.serverNodes config.currentNode with
    | none => .error .undefined
    | some n =>
      match port n.clientPort with
      | .error e => .error (.thrown e)
      | .ok p => .ok ⟨thisEndpoint, others, p⟩

/-- `RunServer` up to the construction of the managers, on a configuration that was loaded. -/
def runServer (curNode : Int) (config : ServerConfiguration) : Except ServerFailure ServerEndpoints :=
  serverEndpoints (config.override curNode)

/-- The ids of the other nodes stand for their addresses, messages for an id reach the node with this id, and
clients are sent to the port that is listened on. -/
structure RoutedBy (config : ServerConfiguration) (e : ServerEndpoints) : Prop where
  ids : ∀ n ∈ config.serverNodes, n.id ≠ config.currentNode →
    (ClusterManager.start e.others).endpointIdMap[n.id]? = some n.address
  reaches : ∀ r : ClusterManager.Execution e.others, ∀ p ∈ (r.states r.length).written,
    ∀ n ∈ config.serverNodes,
    n.id ≠ config.currentNode → p.1 = n.id → p.2.1 = n.address
  client : port (getAddressForNode config.currentNode config.serverNodes).2 = .ok e.clientFacingEndpoint

def Routed (curNode : Int) (config : ServerConfiguration) : Prop :=
  ∃ e, runServer curNode config = .ok e ∧ RoutedBy (config.override curNode) e

/-! ## The list of the other nodes -/

section
variable (currentNode : Int)

def othersFrom (i : Nat) (nodes : List ServerNode) : List (Int × ResolverResults) :=
  ((nodes.zipIdx i).filter fun x => x.1.id ≠ currentNode).map fun x => ((x.2 : Int), x.1.address)

theorem endpointLoop_ok_iff {nodes : List ServerNode} {i : Nat} {this : UInt16}
    {others others' : List (Int × ResolverResults)} :
    (∃ this', endpointLoop currentNode i this others nodes = .ok (this', others')) ↔
      (∀ n ∈ nodes, n.id = currentNode → ∃ p, port n.clusterPort = .ok p) ∧
      others' = others ++ othersFrom currentNode i nodes := by
  induction nodes generalizing i this others with
  | nil => simp [endpointLoop, othersFrom, eq_comm]
  | cons n nodes ih =>
    rw [List.forall_mem_cons, endpointLoop]
    by_cases hn : n.id = currentNode
    · have hfrom : othersFrom currentNode i (n :: nodes) = othersFrom currentNode (i + 1) nodes := by
        simp [othersFrom, List.zipIdx_cons, hn]
      rw [if_pos hn, hfrom]
      cases hp : port n.clusterPort with
      | error e => simp [hn]
      | ok p => simp [hn, ih]
    · have hfrom : othersFrom currentNode i (n :: nodes) =
          ((i : Int), n.address) :: othersFrom currentNode (i + 1) nodes := by
        simp [othersFrom, List.zipIdx_cons, hn]
      rw [if_neg hn, ih, hfrom]
      simp [hn]

theorem nodup_othersFrom (nodes : List ServerNode) :
    ((othersFrom currentNode 0 nodes).map Prod.fst).Nodup := by
  have hpositions : ((nodes.zipIdx 0).map fun x => (x.2 : Int)).Nodup := by
    have hmap : ((nodes.zipIdx 0).map fun x => (x.2 : Int)) = (List.range' 0 nodes.length).map Nat.cast := by
      rw [← List.zipIdx_map_snd, List.map_map]
      rfl
    rw [hmap]
    exact List.Nodup.map Nat.cast_injective List.nodup_range'
  rw [othersFrom, List.map_map]
  exact hpositions.sublist (List.filter_sublist.map _)

theorem mem_othersFrom {nodes : List ServerNode} {k : Int} {a : ResolverResults} :
    (k, a) ∈ othersFrom currentNode 0 nodes ↔ ∃ n, nodeAt nodes k = some n ∧ n.id ≠ currentNode ∧
    n.address = a := by
  simp only [othersFrom, List.mem_map, List.mem_filter, List.mem_zipIdx_iff_getElem?, Prod.exists,
    decide_eq_true_eq, Prod.mk.injEq]
  constructor
  · rintro ⟨n, j, ⟨hget, hne⟩, rfl, rfl⟩
    exact ⟨n, by simpa [nodeAt] using hget, hne, rfl⟩
  · rintro ⟨n, hat, hne, rfl⟩
    unfold nodeAt at hat
    split at hat
    · cases hat
    · exact ⟨n, k.toNat, ⟨hat, hne⟩, by omega, rfl⟩

end

theorem idMap_othersFrom {currentNode : Int} {nodes : List ServerNode} {k : Int} {a : ResolverResults} :
    (ClusterManager.idMap (othersFrom currentNode 0 nodes))[k]? = some a ↔
      ∃ n, nodeAt nodes k = some n ∧ n.id ≠ currentNode ∧ n.address = a := by
  rw [ClusterManager.getElem?_idMap (nodup_othersFrom currentNode nodes), mem_othersFrom]

/-! ## Positions and ids -/

theorem find?_of_nodup {nodes : List ServerNode} (hids : (nodes.map ServerNode.id).Nodup) {own : ServerNode}
    (hown : own ∈ nodes) :
    nodes.find? (fun s => s.id = own.id) = some own := by
  induction nodes with
  | nil => cases hown
  | cons n nodes ih =>
    rw [List.map_cons, List.nodup_cons] at hids
    rcases List.mem_cons.mp hown with rfl | hown
    · simp
    · have hne : n.id ≠ own.id := fun he => hids.1 (he ▸ List.mem_map_of_mem hown)
      rw [List.find?_cons_of_neg (by simpa using hne)]
      exact ih hids.2 hown

theorem serverEndpoints_ok_iff {config : ServerConfiguration} {others : List (Int × ResolverResults)}
    {client : UInt16} :
    (∃ this, serverEndpoints config = .ok ⟨this, others, client⟩) ↔
      ((∀ n ∈ config.serverNodes, n.id = config.currentNode → ∃ p, port n.clusterPort = .ok p) ∧
        others = othersFrom config.currentNode 0 config.serverNodes) ∧
      ∃ m, nodeAt config.serverNodes config.currentNode = some m ∧ port m.clientPort = .ok client := by
  have hloop := @endpointLoop_ok_iff config.currentNode config.serverNodes 0 0 [] others
  rw [List.nil_append] at hloop
  rw [← hloop, serverEndpoints]
  cases endpointLoop config.currentNode 0 0 [] config.serverNodes with
  | error e => simp
  | ok x =>
    cases nodeAt config.serverNodes config.currentNode with
    | none => simp
    | some m => cases hp : port m.clientPort <;> simp [hp, Prod.ext_iff]

theorem routedBy_iff {config : ServerConfiguration} (hids : (config.serverNodes.map ServerNode.id).Nodup)
    {own : ServerNode} (hown : own ∈ config.serverNodes) (hcur : own.id = config.currentNode) {e : ServerEndpoints}
    (hothers : e.others = othersFrom config.currentNode 0 config.serverNodes) :
    RoutedBy config e ↔ (∀ n ∈ config.serverNodes, n.id ≠ config.currentNode →
        ∃ m, nodeAt config.serverNodes n.id = some m ∧ m.id ≠ config.currentNode ∧ m.address = n.address) ∧
      port own.clientPort = .ok e.clientFacingEndpoint := by
  have hmap : (ClusterManager.start e.others).endpointIdMap = ClusterManager.idMap e.others :=
    (ClusterManager.sound_start e.others).ids
  have haddress : getAddressForNode config.currentNode config.serverNodes = (own.host, own.clientPort) := by
    rw [getAddressForNode, ← hcur, find?_of_nodup hids hown]
  constructor
  · intro h
    refine ⟨fun n hn hne => ?_, ?_⟩
    · have hid := h.ids n hn hne
      rwa [hmap, hothers, idMap_othersFrom] at hid
    · have hclient := h.client
      rwa [haddress] at hclient
  · rintro ⟨hpos, hclient⟩
    have hid : ∀ n ∈ config.serverNodes, n.id ≠ config.currentNode →
        (ClusterManager.idMap e.others)[n.id]? = some n.address := by
      intro n hn hne
      rw [hothers, idMap_othersFrom]
      exact hpos n hn hne
    refine ⟨fun n hn hne => ?_, ?_, ?_⟩
    · rw [hmap]
      exact hid n hn hne
    · intro r p hp n hn hne hpn
      have hwritten := (ClusterManager.sound_run r r.length le_rfl).written p hp
      rw [hpn, hid n hn hne] at hwritten
      exact (Option.some.inj hwritten).symm
    · rw [haddress]
      exact hclient

theorem serverNodes_override (curNode : Int) (config : ServerConfiguration) :
    (config.override curNode).serverNodes = config.serverNodes := by
  unfold ServerConfiguration.override
  split <;> rfl

/-- A server routes by ids exactly if its own ports are numbers, every other id is the position of another
node with the address of the node with this id, and the position of the current node's id has the current
node's client port. -/
theorem routed_iff {curNode : Int} {config : ServerConfiguration}
    (hids : (config.serverNodes.map ServerNode.id).Nodup) {own : ServerNode} (hown : own ∈ config.serverNodes)
    (hcur : own.id = (config.override curNode).currentNode) :
    Routed curNode config ↔
      (∃ p, port own.clusterPort = .ok p) ∧
      (∀ n ∈ config.serverNodes, n.id ≠ own.id →
        ∃ m, nodeAt config.serverNodes n.id = some m ∧ m.id ≠ own.id ∧ m.address = n.address) ∧
      ∃ m p, nodeAt config.serverNodes own.id = some m ∧ port m.clientPort = .ok p ∧
      port own.clientPort = .ok p := by
  rw [Routed, runServer]
  rw [← serverNodes_override curNode config] at hids hown ⊢
  generalize config.override curNode = config at hids hown hcur ⊢
  rw [hcur]
  constructor
  · rintro ⟨⟨this, others, client⟩, hrun, hby⟩
    obtain ⟨⟨hports, hothers⟩, m, hm, hclient⟩ := serverEndpoints_ok_iff.mp ⟨this, hrun⟩
    obtain ⟨hpos, howner⟩ := (routedBy_iff hids hown hcur hothers).mp hby
    exact ⟨hports own hown hcur, hpos, m, client, hm, hclient, howner⟩
  · rintro ⟨hport, hpos, m, client, hm, hclient, howner⟩
    have hports : ∀ n ∈ config.serverNodes, n.id = config.currentNode → ∃ p, port n.clusterPort = .ok p := by
      intro n hn hid
      rwa [List.inj_on_of_nodup_map hids hn hown (hid.trans hcur.symm)]
    obtain ⟨this, hrun⟩ := serverEndpoints_ok_iff.mpr ⟨⟨hports, rfl⟩, m, hm, hclient⟩
    exact ⟨_, hrun, (routedBy_iff hids hown hcur rfl).mpr ⟨hpos, howner⟩⟩

def node0 : ServerNode := ⟨0, toBytes "a", toBytes "12", toBytes "9000"⟩

def node1 : ServerNode := ⟨1, toBytes "b", toBytes "13", toBytes "9001"⟩

def node2 : ServerNode := ⟨2, toBytes "c", toBytes "14", toBytes "9002"⟩

theorem routed_iff_inOrder : Routed 1 ⟨0, [node0, node1, node2], [0]⟩ := by
  have hown : node1 ∈ [node0, node1, node2] := by simp
  refine (routed_iff (by decide) hown rfl).mpr ⟨⟨13, by decide +kernel⟩, ?_, node1, 9001, rfl, ?_⟩
  · intro n hn hne
    fin_cases hn
    · exact ⟨node0, rfl, by decide, rfl⟩
    · exact absurd rfl hne
    · exact ⟨node2, rfl, by decide, rfl⟩
  · decide +kernel

/-- In another order than that of their ids, messages for node 1 go to node 2. -/
theorem not_routed_swapped : ([node0, node2, node1].map ServerNode.id).Nodup ∧
    ∃ e, runServer (-1) ⟨0, [node0, node2, node1], [0]⟩ = .ok e ∧
    (ClusterManager.start e.others).endpointIdMap[node1.id]? = some node2.address ∧
      ¬ Routed (-1) ⟨0, [node0, node2, node1], [0]⟩ := by
  have hrun : runServer (-1) ⟨0, [node0, node2, node1], [0]⟩ =
      .ok ⟨12, [(1, node2.address), (2, node1.address)], 9000⟩ := by
    decide +kernel
  have hmap : (ClusterManager.start [(1, node2.address), (2, node1.address)]).endpointIdMap[node1.id]? =
      some node2.address := by decide +kernel
  refine ⟨by decide, _, hrun, hmap, ?_⟩
  rintro ⟨e, hrun', hby⟩
  rw [hrun] at hrun'
  cases hrun'
  have hid := hby.ids node1 (by simp [ServerConfiguration.override]) (by decide)
  rw [hmap] at hid
  exact absurd hid (by decide +kernel)

end FlowMQ
