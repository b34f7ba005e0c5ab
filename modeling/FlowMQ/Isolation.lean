import FlowMQ.Partitions

/-!
# Partitions do not disturb one another

Each partition of a system of servers with several of them goes through states
of a cluster of its own: what the other partitions do shows in it at most as a
delivery from the shared client manager. The frames of one partition are never
taken for those of another, so `message_handler` finds a node for every frame
that a node has sent.
-/

namespace FlowMQ

theorem filterMap_eraseIdx {α β : Type} {f : α → Option β} {l : List α} {k : Nat} {a : α} (h : l[k]? = some a) :
    l.filterMap f = (l.take k).filterMap f ++ ((f a).toList ++ (l.drop (k + 1)).filterMap f) ∧
      (l.eraseIdx k).filterMap f = (l.take k).filterMap f ++ (l.drop (k + 1)).filterMap f := by
  obtain ⟨hsplit, herase⟩ := Cluster.split_at h
  constructor
  · conv_lhs => rw [hsplit]
    rw [List.filterMap_append, List.filterMap_cons]
    cases f a <;> rfl
  · rw [herase, List.filterMap_append]

theorem filterMap_at {α β : Type} {f : α → Option β} {l : List α} {k : Nat} {a : α} (h : l[k]? = some a)
    {b : β} (hb : f a = some b) :
    (l.filterMap f)[((l.take k).filterMap f).length]? = some b ∧
      (l.filterMap f).take ((l.take k).filterMap f).length = (l.take k).filterMap f ∧
      (l.filterMap f).eraseIdx ((l.take k).filterMap f).length = (l.eraseIdx k).filterMap f := by
  obtain ⟨hold, hnew⟩ := filterMap_eraseIdx (f := f) h
  rw [hnew, hold, hb]
  refine ⟨by simp, List.take_left .., ?_⟩
  rw [List.eraseIdx_append_of_length_le le_rfl, Nat.sub_self]
  rfl

/-! ## The view of one partition -/

def Frame.packet {n : Nat} (q : Int) (fr : Frame n) : Option (Packet n) :=
  if (FlowProto.deserialize fr.body).partition = q then
    (FlowProto.deserialize fr.body).raftMessage.map fun msg => ⟨fr.src, fr.dst, msg⟩
  else none

theorem packet_frame {n : Nat} {p : Int} (hp : Wire.Fits64 p) {pk : Packet n}
    (hfits : (pk.msg.load ⟨0, []⟩).Fits)
    (hlen : (serializeRaftMessage p pk.msg).length ≤ Message.MAX_BODY_LENGTH) (q : Int) :
    (pk.frame p).packet q = if p = q then some pk else none := by
  have hread : FlowProto.deserialize (pk.frame p).body = (pk.msg.load ⟨0, []⟩).setPartitionId p :=
    FlowProto.deserialize_serialize (hfits.setPartitionId hp) hlen
  rw [Frame.packet, hread, RaftMessage.raftMessage_load]
  rfl

theorem packet_spec {n : Nat} {q : Int} {fr : Frame n} {pk : Packet n} : fr.packet q = some pk ↔
    (FlowProto.deserialize fr.body).partition = q ∧
      ∃ msg, (FlowProto.deserialize fr.body).raftMessage = some msg ∧ pk = ⟨fr.src, fr.dst, msg⟩ := by
  rw [Frame.packet]
  split
  · rename_i hq
    simp [hq, eq_comm]
  · rename_i hq
    simp [hq]

theorem packet_other {n : Nat} {p q : Int} {fr : Frame n} (hp : (FlowProto.deserialize fr.body).partition = p)
    (hpq : p ≠ q) :
    fr.packet q = none := if_neg (hp ▸ hpq)

def ofPartition {n : Nat} (q : Int) (x : Fin n × Int × Effect) : Option (Fin n × Effect) :=
  if x.2.1 = q then some (x.1, x.2.2) else none

structure Refines {n : Nat} (q : Int) (s : Servers n) (k : Cluster n) : Prop where
  node : ∀ i, (s.masters i).nodes[q]? = some (k.procs i).toClusterNode
  clients : ∀ i, (k.procs i).clients = (s.masters i).clientManager
  serverNodes : ∀ i, (k.procs i).serverNodes = (s.masters i).serverNodes
  net : k.net = s.net.filterMap (Frame.packet q)
  history : k.history = s.history.filterMap (ofPartition q)

namespace Cluster

variable {n : Nat} {c : Channel} {b : Int} {k k' k'' : Cluster n} {i : Fin n} {m m' : ClientManager}

structure SameButClients (k k' : Cluster n) (i : Fin n) (m : ClientManager) : Prop where
  others : ∀ j, j ≠ i → k'.procs j = k.procs j
  node : (k'.procs i).toClusterNode = (k.procs i).toClusterNode
  clients : (k'.procs i).clients = m
  serverNodes : (k'.procs i).serverNodes = (k.procs i).serverNodes
  net : k'.net = k.net
  history : k'.history = k.history

namespace SameButClients

theorem trans (h : SameButClients k k' i m) (h' : SameButClients k' k'' i m') :
    SameButClients k k'' i m' where
  others := fun j hj => (h'.others j hj).trans (h.others j hj)
  node := h'.node.trans h.node
  clients := h'.clients
  serverNodes := h'.serverNodes.trans h.serverNodes
  net := h'.net.trans h.net
  history := h'.history.trans h.history

theorem nodes (h : SameButClients k k' i m) (j : Fin n) :
    (k'.procs j).toClusterNode = (k.procs j).toClusterNode := by
  by_cases hj : j = i
  · rw [hj, h.node]
  · rw [h.others j hj]

theorem raft (h : SameButClients k k' i m) (j : Fin n) : k'.raft j = k.raft j :=
  congrArg ClusterNode.toRaftState (h.nodes j)

theorem small (h : SameButClients k k' i m) (hk : k.Small b) : k'.Small b where
  raft := fun j => h.raft j ▸ hk.raft j
  net := h.net ▸ hk.net

theorem from_same (h : SameButClients k k' i m) {K : LogEntry → Prop} (hk : k.From K) : k'.From K where
  raft := fun j => h.raft j ▸ hk.raft j
  queue := fun j => by
    rw [h.nodes j]
    exact hk.queue j
  net := h.net ▸ hk.net
  history := h.history ▸ hk.history

end SameButClients

theorem step_clients (inp : Input) (hen : ∀ p : Process, p.enabled inp = true)
    {g : ClientManager → ClientManager}
    (hinp : ∀ p : Process, p.handle inp = { p with clients := g p.clients }) (i : Fin n) (k : Cluster n) :
    ∃ k', k.step c (.input i inp) = some k' ∧ SameButClients k k' i (g (k.procs i).clients) := by
  refine ⟨k.act i (·.handle inp) k.net, if_pos (hen _), ?_⟩
  have hself : (k.act i (·.handle inp) k.net).procs i =
      { (k.procs i).clear with clients := g (k.procs i).clients } := by
    simp only [act, Function.update_self, hinp]
    rfl
  refine ⟨fun j hj => Function.update_of_ne hj _ _, ?_, ?_, ?_, ?_, ?_⟩
  · rw [hself]
    rfl
  · rw [hself]
  · rw [hself]
    rfl
  · simp [act, hinp, Process.clear]
  · simp [act, hinp, Process.clear]

theorem steps_delivers {p : Int} {m m' : ClientManager × List ServerNode} (h : DeliversFor p m m')
    (hk : (k.procs i).clients = m.1) : ∃ k', Steps c Free k k' ∧ SameButClients k k' i m'.1 := by
  induction h with
  | refl => exact ⟨k, .refl, fun _ _ => rfl, rfl, hk, rfl, rfl, rfl⟩
  | tail _ hstep ih =>
    obtain ⟨k₁, hsteps, hsame⟩ := ih
    obtain ⟨k₂, hk₂, hsame₂⟩ := step_clients (c := c) (.deliverOther p) (fun _ => rfl)
      (g := fun m => (m.deliverOneMessageRoundRobin p).manager) (fun _ => rfl) i k₁
    refine ⟨k₂, hsteps.tail ⟨_, trivial, hk₂⟩, ?_⟩
    have hall := hsame.trans hsame₂
    rw [hsame.clients] at hall
    rwa [hstep]

end Cluster

theorem DeliversFor.snd_eq {p : Int} {m m' : ClientManager × List ServerNode} (h : DeliversFor p m m') :
    m'.2 = m.2 := by
  induction h with
  | refl => rfl
  | tail _ hstep ih => rw [hstep, ih]

/-! ## A step of the servers, seen from each partition -/

namespace Servers

variable {n : Nat} {s s' : Servers n} {i : Fin n} {p : Int} {net : List (Frame n)}

structure Acts (s : Servers n) (i : Fin n) (p : Int) (P : Process) (net : List (Frame n)) (s' : Servers n) :
    Prop where
  fits : ∀ e ∈ P.out, e.FitsFrame p
  others : ∀ j, j ≠ i → s'.masters j = s.masters j
  self : s'.masters i = ⟨(s.masters i).nodes.insert p P.toClusterNode, P.clients, (s.masters i).serverNodes⟩
  net : s'.net = net ++ (P.out.flatMap (packets i)).map (Packet.frame p)
  posted : s'.posted = s.posted
  history : s'.history = s.history ++ P.out.map fun e => (i, p, e)

theorem setClients_self (m : ClientManager) :
    (s.setClients i m).masters i = { s.masters i with clientManager := m } :=
  Function.update_self ..

theorem setClients_other (m : ClientManager) {j : Fin n} (hj : j ≠ i) :
    (s.setClients i m).masters j = s.masters j :=
  Function.update_of_ne hj _ _

theorem setClients_nodes (m : ClientManager) (j : Fin n) :
    ((s.setClients i m).masters j).nodes = (s.masters j).nodes := by
  by_cases hj : j = i
  · rw [hj, setClients_self]
  · rw [setClients_other m hj]

theorem acts_of_act {f : Process → Process} (h : s.act i p f net = some s') :
    ∃ node, (s.masters i).nodes[p]? = some node ∧ Acts s i p (f ((s.masters i).process node)) net s' := by
  unfold act at h
  split at h
  · cases h
  · rename_i node hnode
    refine ⟨node, hnode, ?_⟩
    simp only at h
    split at h
    · rename_i hfits
      cases h
      exact ⟨hfits, fun j hj => Function.update_of_ne hj _ _, Function.update_self .., rfl, rfl, rfl⟩
    · cases h

end Servers

namespace Refines

variable {n : Nat} {p q : Int} {s s' : Servers n} {k k' : Cluster n} {i : Fin n} {net : List (Frame n)}

theorem process (h : Refines q s k) {node : ClusterNode} (hnode : (s.masters i).nodes[q]? = some node) :
    (s.masters i).process node = (k.procs i).clear := by
  have hsame : (k.procs i).toClusterNode = node := Option.some.inj ((h.node i).symm.trans hnode)
  rw [ClusterMaster.process, ← hsame, ← h.clients, ← h.serverNodes]
  rfl

theorem self {f : Process → Process} (h : Refines p s k) (ha : s.Acts i p (f (k.procs i).clear) net s')
    (hshared : (f (k.procs i).clear).serverNodes = (k.procs i).serverNodes)
    (hsent : ∀ pk ∈ (f (k.procs i).clear).out.flatMap (packets i), (pk.frame p).packet p = some pk) :
    Refines p s' (k.act i f (net.filterMap (Frame.packet p))) := by
  have hself : (k.act i f (net.filterMap (Frame.packet p))).procs i = f (k.procs i).clear :=
    Function.update_self ..
  have hothers : ∀ j, j ≠ i → (k.act i f (net.filterMap (Frame.packet p))).procs j = k.procs j :=
    fun j hj => Function.update_of_ne hj _ _
  refine ⟨fun j => ?_, fun j => ?_, fun j => ?_, ?_, ?_⟩
  · by_cases hj : j = i
    · rw [hj, hself, ha.self]
      exact Std.ExtTreeMap.getElem?_insert_self
    · rw [hothers j hj, ha.others j hj]
      exact h.node j
  · by_cases hj : j = i
    · rw [hj, hself, ha.self]
    · rw [hothers j hj, ha.others j hj]
      exact h.clients j
  · by_cases hj : j = i
    · rw [hj, hself, ha.self, hshared, h.serverNodes]
    · rw [hothers j hj, ha.others j hj]
      exact h.serverNodes j
  · rw [ha.net, List.filterMap_append, List.filterMap_map]
    exact congrArg (_ ++ ·) ((List.filterMap_congr hsent).trans List.filterMap_some).symm
  · rw [ha.history, List.filterMap_append, ← h.history, List.filterMap_map]
    refine congrArg (_ ++ ·) ?_
    simp only [ofPartition, Function.comp_def, if_true, List.filterMap_eq_map']

theorem other (h : Refines q s k) (hpq : p ≠ q) {P : Process} (ha : s.Acts i p P net s')
    (hk : k.SameButClients k' i P.clients)
    (hnet : net.filterMap (Frame.packet q) = s.net.filterMap (Frame.packet q))
    (hsent : ∀ pk ∈ P.out.flatMap (packets i), (pk.frame p).packet q = none) : Refines q s' k' := by
  refine ⟨fun j => ?_, fun j => ?_, fun j => ?_, ?_, ?_⟩
  · rw [hk.nodes]
    by_cases hj : j = i
    · rw [hj, ha.self]
      simpa [Std.ExtTreeMap.getElem?_insert, hpq] using h.node i
    · rw [ha.others j hj]
      exact h.node j
  · by_cases hj : j = i
    · rw [hj, hk.clients, ha.self]
    · rw [hk.others j hj, ha.others j hj]
      exact h.clients j
  · by_cases hj : j = i
    · rw [hj, hk.serverNodes, ha.self]
      exact h.serverNodes i
    · rw [hk.others j hj, ha.others j hj]
      exact h.serverNodes j
  · have hnone : ((P.out.flatMap (packets i)).map (Packet.frame p)).filterMap (Frame.packet q) = [] :=
      List.filterMap_eq_nil_iff.mpr (List.forall_mem_map.mpr hsent)
    rw [hk.net, h.net, ha.net, List.filterMap_append, hnet, hnone, List.append_nil]
  · have hnone : (P.out.map fun e => (i, p, e)).filterMap (ofPartition q) = [] := by
      simp [List.filterMap_eq_nil_iff, ofPartition, hpq]
    rw [hk.history, h.history, ha.history, List.filterMap_append, hnone, List.append_nil]

theorem setClients {m : ClientManager} (h : Refines q s k) (hk : k.SameButClients k' i m) :
    Refines q (s.setClients i m) k' := by
  refine ⟨fun j => ?_, fun j => ?_, fun j => ?_, hk.net.trans h.net, hk.history.trans h.history⟩
  · rw [hk.nodes, Servers.setClients_nodes]
    exact h.node j
  · by_cases hj : j = i
    · rw [hj, Servers.setClients_self, hk.clients]
    · rw [hk.others j hj, Servers.setClients_other m hj]
      exact h.clients j
  · by_cases hj : j = i
    · rw [hj, Servers.setClients_self, hk.serverNodes]
      exact h.serverNodes i
    · rw [hk.others j hj, Servers.setClients_other m hj]
      exact h.serverNodes j

end Refines

/-! ## The invariant -/

def LogEntry.Within (B : Nat) (e : LogEntry) : Prop := e.Given ∧ e.message.length ≤ B

/-- Partition `q` of the servers is as `k`, which the cluster `base q` of one partition can become. The bounds
are for the texts and the numbers in the frames. -/
structure StandsFor {n : Nat} (base : Int → Cluster n) (c : Channel) (B : Nat) (b : Int) (q : Int) (s : Servers n)
    (k : Cluster n) : Prop where
  start : Cluster.Reachable c Cluster.Free (base q)
  steps : Cluster.Steps c Cluster.Free (base q) k
  refines : Refines q s k
  small : k.Small b
  given : k.From (LogEntry.Within B)
  partitionId : ∀ i, (k.raft i).partitionId = q

theorem partitionId_step {n : Nat} {c : Channel} {k k' : Cluster n} {e : Event n} {q : Int}
    (h : ∀ i, (k.raft i).partitionId = q) (hs : k.step c e = some k') : ∀ i, (k'.raft i).partitionId = q := by
  have hacts : ∀ {i msg net s'}, Cluster.Acts k i msg net s' → ∀ j, (s'.raft j).partitionId = q :=
    fun {i} {_ _ _} ha =>
    ha.forall_raft (P := fun _ r => r.partitionId = q) h (ha.trans.partitionId.trans (h i))
  cases Cluster.step_spec hs with
  | lose => exact h
  | input ha => exact hacts ha
  | message _ _ _ ha => exact hacts ha

theorem Cluster.Small.mono {n : Nat} {b b' : Int} {k : Cluster n} (h : k.Small b) (hb : b ≤ b') :
    k.Small b' :=
  ⟨fun i => (h.raft i).mono hb, fun pk hpk => (h.net pk hpk).mono hb⟩

namespace StandsFor

variable {n : Nat} {base base' : Int → Cluster n} {c : Channel} {B : Nat} {b b' : Int} {q : Int} {s s' : Servers n}
  {k k' : Cluster n}

theorem reachable (h : StandsFor base c B b q s k) : Cluster.Reachable c Cluster.Free k := by
  obtain ⟨k₀, h₀, hsteps⟩ := h.start
  exact ⟨k₀, h₀, hsteps.trans h.steps⟩

theorem wellFormed (h : StandsFor base c B b q s k) : k.WellFormed := Cluster.wellFormed_reachable h.reachable

theorem rebase (h : StandsFor base c B b q s k) (hbase : base' q = base q) : StandsFor base' c B b q s k where
  start := hbase ▸ h.start
  steps := hbase ▸ h.steps
  refines := h.refines
  small := h.small
  given := h.given
  partitionId := h.partitionId

theorem restart (h : StandsFor base c B b q s k) (hbase : base' q = k) : StandsFor base' c B b q s k where
  start := hbase ▸ h.reachable
  steps := hbase ▸ .refl
  refines := h.refines
  small := h.small
  given := h.given
  partitionId := h.partitionId

theorem fromStep (h : StandsFor base c B b q s k) {e : Event n}
    (he : ∀ x, e.creates x → 0 ≤ x.index → x.Within B) (hs : k.step c e = some k') :
    k'.From (LogEntry.Within B) :=
  h.given.step (fun _ he => he.1.index) he hs

theorem follows (h : StandsFor base c B b q s k) {e : Event n}
    (he : ∀ x, e.creates x → 0 ≤ x.index → x.Within B) (hs : k.step c e = some k') (hr : Refines q s' k') :
    StandsFor base c B (b + 1) q s' k' where
  start := h.start
  steps := h.steps.tail ⟨e, trivial, hs⟩
  refines := hr
  small := h.small.step h.wellFormed hs
  given := h.fromStep he hs
  partitionId := partitionId_step h.partitionId hs

theorem quiet (h : StandsFor base c B b q s k) {i : Fin n} {m : ClientManager}
    (hsteps : Cluster.Steps c Cluster.Free k k') (hsame : k.SameButClients k' i m) (hb : b ≤ b')
    (hr : Refines q s' k') : StandsFor base c B b' q s' k' where
  start := h.start
  steps := h.steps.trans hsteps
  refines := hr
  small := (hsame.small h.small).mono hb
  given := hsame.from_same h.given
  partitionId := fun j => hsame.raft j ▸ h.partitionId j

theorem mono (h : StandsFor base c B b q s k) (hb : b ≤ b') (hr : Refines q s' k) :
    StandsFor base c B b' q s' k :=
  ⟨h.start, h.steps, hr, h.small.mono hb, h.given, h.partitionId⟩

theorem deliver (h : StandsFor base c B b q s k) {j : Nat} {fr : Frame n} (hfr : s.net[j]? = some fr)
    {pk : Packet n} (hpk : fr.packet q = some pk)
    (horder : ¬ (c = .fifo ∧ Servers.inOrder s.net j fr = false)) (now : Int) :
    k.step c (.deliver ((s.net.take j).filterMap (Frame.packet q)).length now) =
      some (k.act pk.dst (·.localMessageHandler now 0 pk.msg)
        ((s.net.eraseIdx j).filterMap (Frame.packet q))) := by
  obtain ⟨hat, htake, herase⟩ := filterMap_at (f := Frame.packet q) hfr hpk
  obtain ⟨hq, msg, -, rfl⟩ := packet_spec.mp hpk
  simp only [Cluster.step, h.refines.net, hat, herase]
  refine if_neg fun hc => horder ⟨hc.1, ?_⟩
  -- the older packets of the link are frames of the same partition, which are handled first
  by_contra hin
  have hall := List.all_eq_true.mp (Bool.not_eq_false _ ▸ hin)
  refine absurd hc.2 (Bool.not_eq_false _ ▸ List.all_eq_true.mpr fun pk' hpk' => ?_)
  rw [htake] at hpk'
  obtain ⟨fr', hfr', hpk'⟩ := List.mem_filterMap.mp hpk'
  obtain ⟨hq', msg', -, rfl⟩ := packet_spec.mp hpk'
  simpa [hq, hq'] using hall fr' hfr'

end StandsFor

def FlowProto.text (m : FlowProto) : Bytes := (m.clientPutMessage.getD ClientPutMessage.schema.empty).message

structure FromClient (B : Nat) (body : Bytes) : Prop where
  length : body.length ≤ Message.MAX_BODY_LENGTH
  type : (FlowProto.deserialize body).messageType = .clientOpenQueue ∨
    (FlowProto.deserialize body).messageType = .clientPutMessage ∨
      (FlowProto.deserialize body).messageType = .clientCommitMessage
  text : (FlowProto.deserialize body).text.length ≤ B

theorem FlowProto.length_text (body : Bytes) : (deserialize body).text.length ≤ body.length := by
  have hclient := clientFits_deserialize body
  generalize deserialize body = m at hclient ⊢
  rw [text]
  cases hput : m.clientPutMessage with
  | none => exact Nat.zero_le _
  | some x => exact hclient.put x hput

theorem FromClient.input {B : Nat} {body : Bytes} (h : FromClient B body) {randomId : Int}
    (hr : Wire.Fits64 randomId) :
    ∃ inp msg, (FlowProto.deserialize body).raftMessage = some msg ∧
      (∀ e : LogEntry, inp.creates e → 0 ≤ e.index → e.Within B) ∧ (∀ p : Process, p.enabled inp = true) ∧
      ∀ p : Process, p.handle inp = p.localMessageHandler 0 randomId msg := by
  have hclient := FlowProto.clientFits_deserialize body
  have htext := (FlowProto.length_text body).trans h.length
  obtain ⟨-, htype, hB⟩ := h
  generalize FlowProto.deserialize body = m at hclient htype htext hB ⊢
  rcases htype with hty | hty | hty
  · exact ⟨.clientOpenQueue, _, by rw [FlowProto.raftMessage, hty], fun _ he => he.elim, fun _ => rfl, fun _ => rfl⟩
  · refine ⟨.clientPutMessage randomId m.text, _, by rw [FlowProto.raftMessage, hty], fun e he hi => ?_,
      fun _ => rfl, fun _ => rfl⟩
    have hfits : (Input.clientPutMessage randomId m.text).Fits := ⟨hr, htext.trans_lt (by decide)⟩
    exact ⟨Input.creates_given hfits he hi, he.2.2 ▸ hB⟩
  · refine ⟨.clientCommitMessage (m.clientCommitMessage.getD ClientCommitMessage.schema.empty).messageId, _,
      by rw [FlowProto.raftMessage, hty], fun e he hi => ⟨?_, he.2.2 ▸ Nat.zero_le B⟩, fun _ => rfl, fun _ => rfl⟩
    have hfits : (Input.clientCommitMessage
        (m.clientCommitMessage.getD ClientCommitMessage.schema.empty).messageId).Fits := by
      cases hcommit : m.clientCommitMessage with
      | none => exact (show Wire.Fits64 0 by decide)
      | some x => exact hclient.commit x hcommit
    exact Input.creates_given hfits he hi

namespace Servers

def Brief {n : Nat} (B : Nat) (_ : Servers n) : ServersEvent n → Prop
  | .clientMessage _ _ body => (FlowProto.deserialize body).text.length ≤ B
  | _ => True

instance {n : Nat} (B : Nat) (s : Servers n) : (e : ServersEvent n) → Decidable (Brief B s e)
  | .clientMessage _ _ body => inferInstanceAs (Decidable ((FlowProto.deserialize body).text.length ≤ B))
  | .callback .. | .deliver .. | .lose _ | .runPosted .. | .acceptNewConnection .. | .removeSession .. =>
    inferInstanceAs (Decidable True)

/-- Every partition is that of some cluster, and no assertion of `message_handler` can fail for what
is in flight. -/
structure Inv {n : Nat} (base : Int → Cluster n) (partitions : List Int) (c : Channel) (B : Nat) (b : Int)
    (s : Servers n) : Prop where
  standsFor : ∀ q ∈ partitions, ∃ k, StandsFor base c B b q s k
  frames : ∀ fr ∈ s.net, ∃ p ∈ partitions, ∃ pk, fr.packet p = some pk
  keys : ∀ i p, p ∈ (s.masters i).nodes → p ∈ partitions
  posted : ∀ x ∈ s.posted, FromClient B x.2 ∧ (FlowProto.deserialize x.2).partition ∈ partitions

namespace Inv

variable {n : Nat} {base : Int → Cluster n} {partitions : List Int} {c : Channel} {B : Nat} {b : Int} {p : Int}
  {s s' : Servers n} {i : Fin n} {net : List (Frame n)}

theorem act (h : Inv base partitions c B b s) (hfits : ∀ q ∈ partitions, Wire.Fits64 q) (hb : b + 1 < 2 ^ 31)
    {f : Process → Process} (ha : s.act i p f net = some s')
    (hf : ∀ P : Process, P.partitionId = p → DeliversFor p P.shared (f P).shared)
    (hnet : ∀ fr ∈ net, fr ∈ s.net)
    (hothers : ∀ q, p ≠ q → net.filterMap (Frame.packet q) = s.net.filterMap (Frame.packet q))
    (hstep : ∀ k, StandsFor base c B b p s k →
      ∃ e, (∀ x, e.creates x → 0 ≤ x.index → x.Within B) ∧
      k.step c e = some (k.act i f (net.filterMap (Frame.packet p)))) :
    Inv base partitions c B (b + 1) s' := by
  obtain ⟨node, hnode, hacts⟩ := acts_of_act ha
  have hp : p ∈ partitions := h.keys i p (Std.ExtTreeMap.mem_iff_isSome_getElem?.mpr (hnode ▸ rfl))
  obtain ⟨k, hk⟩ := h.standsFor p hp
  rw [hk.refines.process hnode] at hacts
  obtain ⟨e, he, hs⟩ := hstep k hk
  have hd := hf (k.procs i).clear (hk.partitionId i)
  have hroom :=
    Cluster.fits_of_small hb (hk.small.step hk.wellFormed hs) ((hk.fromStep he hs).mono fun _ h => h.1)
  have hsent : ∀ pk ∈ (f (k.procs i).clear).out.flatMap (packets i), ∀ q,
      (pk.frame p).packet q = if p = q then some pk else none := by
    intro pk hpk
    refine packet_frame (hfits p hp) (hroom.net pk (List.mem_append_right _ hpk) ⟨0, []⟩) ?_
    rcases (Cluster.mem_sent hpk).2.2 with hmem | hmem <;> exact hacts.fits _ hmem _ rfl
  refine ⟨fun q hq => ?_, fun fr hfr => ?_, fun j p' hp' => ?_, hacts.posted ▸ h.posted⟩
  · by_cases hpq : p = q
    · subst hpq
      refine ⟨_, hk.follows he hs (hk.refines.self hacts (hd.snd_eq) fun pk hpk => ?_)⟩
      rw [hsent pk hpk, if_pos rfl]
    · obtain ⟨k₀, hk₀⟩ := h.standsFor q hq
      have hclients : (k₀.procs i).clients = (k.procs i).clear.shared.1 :=
        (hk₀.refines.clients i).trans (hk.refines.clients i).symm
      obtain ⟨k₁, hsteps, hsame⟩ := Cluster.steps_delivers (c := c) hd hclients
      refine ⟨k₁, hk₀.quiet hsteps hsame (by omega)
        (hk₀.refines.other hpq hacts hsame (hothers q hpq) fun pk hpk => ?_)⟩
      rw [hsent pk hpk, if_neg hpq]
  · rw [hacts.net] at hfr
    rcases List.mem_append.mp hfr with hfr | hfr
    · exact h.frames fr (hnet fr hfr)
    · obtain ⟨pk, hpk, rfl⟩ := List.mem_map.mp hfr
      exact ⟨p, hp, pk, (hsent pk hpk p).trans (if_pos rfl)⟩
  · by_cases hj : j = i
    · rw [hj, hacts.self, Std.ExtTreeMap.mem_insert, Std.LawfulEqCmp.compare_eq_iff_eq] at hp'
      rcases hp' with rfl | hp'
      · exact hp
      · exact h.keys i p' hp'
    · rw [hacts.others j hj] at hp'
      exact h.keys j p' hp'

theorem posted_subset (h : Inv base partitions c B b s) {posted : List (Fin n × Bytes)}
    (hp : ∀ x ∈ posted, x ∈ s.posted) :
    Inv base partitions c B b { s with posted := posted } :=
  ⟨fun q hq => (h.standsFor q hq).imp fun _ hk => hk.mono le_rfl { hk.refines with }, h.frames, h.keys,
    fun x hx => h.posted x (hp x hx)⟩

theorem setClients (h : Inv base partitions c B b s) (inp : Input) (hen : ∀ p : Process, p.enabled inp = true)
    {g : ClientManager → ClientManager}
    (hinp : ∀ p : Process, p.handle inp = { p with clients := g p.clients }) (i : Fin n) :
    Inv base partitions c B b (s.setClients i (g (s.masters i).clientManager)) := by
  refine ⟨fun q hq => ?_, h.frames, fun j p hp => ?_, h.posted⟩
  · obtain ⟨k, hk⟩ := h.standsFor q hq
    obtain ⟨k', hs, hsame⟩ := Cluster.step_clients (c := c) inp hen hinp i k
    rw [hk.refines.clients i] at hsame
    exact ⟨k', hk.quiet (.single ⟨_, trivial, hs⟩) hsame le_rfl (hk.refines.setClients hsame)⟩
  · rw [setClients_nodes] at hp
    exact h.keys j p hp

theorem mono {b' : Int} (h : Inv base partitions c B b s) (hb : b ≤ b') : Inv base partitions c B b' s where
  standsFor := fun q hq => (h.standsFor q hq).imp fun _ hk => hk.mono hb hk.refines
  frames := h.frames
  keys := h.keys
  posted := h.posted

section
variable (h : Inv base partitions c B b s) (hfits : ∀ q ∈ partitions, Wire.Fits64 q) (hb : b + 1 < 2 ^ 31)
include h hfits hb

theorem callback {cb : Callback} (hs : s.step c (.callback i p cb) = some s') :
    Inv base partitions c B (b + 1) s' := by
  simp only [step] at hs
  split at hs
  · cases hs
  · rename_i node hnode
    split at hs
    · rename_i hen
      refine h.act hfits hb hs (fun P hP => Process.callback_shared cb hP) (fun _ hfr => hfr) (fun _ _ => rfl)
        fun k hk => ?_
      rw [hk.refines.process hnode] at hen
      refine ⟨.input i cb.input, ?_, ?_⟩
      · intro x hx
        cases cb <;> exact hx.elim
      · rw [← hk.refines.net]
        exact if_pos hen
    · cases hs

theorem deliver {j : Nat} {now : Int} (hs : s.step c (.deliver j now) = some s') :
    Inv base partitions c B (b + 1) s' := by
  simp only [step] at hs
  split at hs
  · cases hs
  · rename_i fr hfr
    split at hs
    · cases hs
    · rename_i horder
      obtain ⟨p, -, pk, hpk⟩ := h.frames fr (List.mem_of_getElem? hfr)
      obtain ⟨hpart, msg, hmsg, rfl⟩ := packet_spec.mp hpk
      rw [messageHandler, hmsg, hpart] at hs
      refine h.act hfits hb hs (fun P hP => Process.localMessageHandler_shared now 0 msg hP)
        (fun _ hfr => List.mem_of_mem_eraseIdx hfr) (fun q hpq => ?_) fun k hk => ?_
      · obtain ⟨hold, hnew⟩ := filterMap_eraseIdx (f := Frame.packet q) hfr
        rw [hold, hnew, packet_other hpart hpq]
        rfl
      · exact ⟨.deliver _ now, nofun, hk.deliver hfr hpk horder now⟩

theorem runPosted {j : Nat} {randomId : Int} (hs : s.step c (.runPosted j randomId) = some s') :
    Inv base partitions c B (b + 1) s' := by
  simp only [step] at hs
  split at hs
  · cases hs
  · rename_i i body hbody
    split at hs
    · rename_i hcond
      obtain ⟨inp, msg, hmsg, hinp, hen, hhandle⟩ := (h.posted _ (List.mem_of_getElem? hbody)).1.input hcond.2
      rw [messageHandler, hmsg] at hs
      have h' : Inv base partitions c B b { s with posted := s.posted.eraseIdx j } :=
        h.posted_subset fun _ => List.mem_of_mem_eraseIdx
      refine h'.act hfits hb hs (fun P hP => Process.localMessageHandler_shared 0 randomId msg hP)
        (fun _ hfr => hfr)
        (fun _ _ => rfl) fun k hk => ⟨.input i inp, hinp, ?_⟩
      rw [← hk.refines.net, Cluster.step, if_pos (hen _)]
      exact congrArg some (congrArg (k.act i · k.net) (funext hhandle))
    · cases hs

end

theorem lose (h : Inv base partitions c B b s) {j : Nat} (hs : s.step c (.lose j) = some s') :
    Inv base partitions c B (b + 1) s' := by
  simp only [step] at hs
  split at hs
  · rename_i hj
    cases hs
    refine ⟨fun q hq => ?_, fun fr hfr => h.frames fr (List.mem_of_mem_eraseIdx hfr), h.keys, h.posted⟩
    obtain ⟨k, hk⟩ := h.standsFor q hq
    have hfr := List.getElem?_eq_getElem hj
    cases hpk : (s.net[j]).packet q with
    | none =>
      obtain ⟨hold, hnew⟩ := filterMap_eraseIdx (f := Frame.packet q) hfr
      rw [hpk] at hold
      exact ⟨k, hk.mono (by omega) { hk.refines with net := hk.refines.net.trans (hold.trans hnew.symm) }⟩
    | some pk =>
      obtain ⟨hat, -, herase⟩ := filterMap_at hfr hpk
      have hlt := (List.getElem?_eq_some_iff.mp hat).1
      rw [← hk.refines.net] at hlt herase
      exact ⟨_, hk.follows (e := .lose _) nofun (if_pos hlt) { hk.refines with net := herase }⟩
  · cases hs

theorem post (h : Inv base partitions c B b s) {body : Bytes} (hbody : FromClient B body)
    (hs : s.post i body = some s') :
    Inv base partitions c B b s' := by
  unfold Servers.post at hs
  split at hs
  · rename_i hnode
    cases hs
    refine ⟨fun q hq => (h.standsFor q hq).imp fun _ hk => hk.mono le_rfl { hk.refines with }, h.frames,
      h.keys, fun x hx => ?_⟩
    rcases List.mem_append.mp hx with hx | hx
    · exact h.posted x hx
    · rw [List.mem_singleton.mp hx]
      exact ⟨hbody, h.keys i _ (Std.ExtTreeMap.mem_iff_contains.mpr hnode)⟩
  · cases hs

theorem clientMessage (h : Inv base partitions c B b s) {clientId : Int} {body : Bytes}
    (htext : (FlowProto.deserialize body).text.length ≤ B)
    (hs : s.step c (.clientMessage i clientId body) = some s') : Inv base partitions c B b s' := by
  simp only [step] at hs
  split at hs
  · rename_i hlen
    simp only [handleMessage] at hs
    split at hs
    · rename_i hty
      refine post
        (h.setClients (.registerConsumer (FlowProto.deserialize body).partition clientId) (fun _ => rfl)
          (g := fun m => m.registerConsumer (FlowProto.deserialize body).partition clientId) (fun _ => rfl) i)
        ⟨hlen, ?_, htext⟩ hs
      exact Or.inl hty
    · rename_i hty
      exact h.post ⟨hlen, Or.inr (Or.inl hty), htext⟩ hs
    · rename_i hty
      exact h.post ⟨hlen, Or.inr (Or.inr hty), htext⟩ hs
    · cases hs
  · cases hs

theorem step (h : Inv base partitions c B b s) (hfits : ∀ q ∈ partitions, Wire.Fits64 q) (hb : b + 1 < 2 ^ 31)
    {e : ServersEvent n} (hB : Brief B s e) (hs : s.step c e = some s') :
    Inv base partitions c B (b + 1) s' := by
  cases e with
  | callback i p cb => exact h.callback hfits hb hs
  | deliver k now => exact h.deliver hfits hb hs
  | lose k => exact h.lose hs
  | clientMessage i clientId body => exact (h.clientMessage hB hs).mono (by omega)
  | runPosted k randomId => exact h.runPosted hfits hb hs
  | acceptNewConnection i id =>
    cases hs
    exact (h.setClients (.acceptNewConnection id) (fun _ => rfl) (g := fun m => m.acceptNewConnection id)
      (fun _ => rfl) i).mono (by omega)
  | removeSession i id =>
    cases hs
    exact (h.setClients (.removeSession id) (fun _ => rfl) (g := fun m => m.removeSession id)
      (fun _ => rfl) i).mono (by omega)

theorem step_run (r : Execution n partitions c) (hr : r.Always (Brief B)) (hlen : n + 1 + r.length < 2 ^ 31)
    {k : Nat} (hk : k < r.length) (h : Inv base partitions c B (n + 1 + k) (r.states k)) :
    Inv base partitions c B (n + 1 + (k + 1 : Nat)) (r.states (k + 1)) := by
  have hnext := h.step r.starts.2.1 (by omega) (hr k hk) (r.steps k hk)
  push_cast
  rwa [← add_assoc]

theorem restart (h : Inv base partitions c B b s) {base' : Int → Cluster n} {k : Cluster n} {q : Int}
    (hk : StandsFor base' c B b q s k) : Inv (Function.update base q k) partitions c B b s := by
  refine { h with standsFor := fun q' hq' => ?_ }
  by_cases hq : q' = q
  · subst hq
    exact ⟨k, hk.restart (Function.update_self ..)⟩
  · obtain ⟨k', hk'⟩ := h.standsFor q' hq'
    exact ⟨k', hk'.rebase (Function.update_of_ne hq ..)⟩

end Inv

section
variable {n : Nat} {partitions : List Int} {c : Channel} {B : Nat} {s : Servers n}

theorem node_init (hp : partitions.Nodup) (serverNodes : List ServerNode)
    (garbage : Fin n → Int → Process.Garbage) (i : Fin n) {q : Int} {node : ClusterNode} :
    ((init n partitions serverNodes garbage).masters i).nodes[q]? = some node ↔
      q ∈ partitions ∧ (Process.construct q i.val n serverNodes (garbage i q) [] 0).toClusterNode = node := by
  let value := fun p => (Process.construct p i.val n serverNodes (garbage i p) [] 0).toClusterNode
  have hkeys : ((partitions.map fun p => (p, value p)).map Prod.fst).Nodup := by
    rwa [List.map_map, show (Prod.fst ∘ fun p => (p, value p)) = id from rfl, List.map_id]
  have hfold : ((init n partitions serverNodes garbage).masters i).nodes =
      (partitions.map fun p => (p, value p)).foldl (fun m x => m.insert x.1 x.2) ∅ := by
    rw [List.foldl_map]
    rfl
  rw [hfold, Maps.getElem?_foldl_insert hkeys]
  simp [value]

theorem standsFor_starts (h : Starts partitions s) : ∃ base : Int → Cluster n, ∀ q ∈ partitions,
    Cluster.Starts (base q) ∧ StandsFor base c B (n + 1) q s (base q) := by
  obtain ⟨hp, -, serverNodes, garbage, rfl⟩ := h
  refine ⟨fun q => Cluster.init n q serverNodes (garbage · q), fun q hq => ?_⟩
  have hstart : Cluster.Starts (Cluster.init n q serverNodes (garbage · q)) := ⟨_, _, _, rfl⟩
  refine ⟨hstart, ⟨_, hstart, .refl⟩, .refl, ?_, ?_, ?_, ?_⟩
  · exact ⟨fun i => (node_init hp serverNodes garbage i).mpr ⟨hq, rfl⟩, fun i => rfl, fun i => rfl, rfl, rfl⟩
  · exact Cluster.small_starts hstart (by omega) (by omega)
  · exact Cluster.from_starts hstart
  · exact fun i => by rw [Cluster.raft_init]

theorem inv_starts (h : Starts partitions s) :
    ∃ base : Int → Cluster n, Inv base partitions c B (n + 1) s := by
  obtain ⟨base, hbase⟩ := standsFor_starts (c := c) (B := B) h
  obtain ⟨hp, -, serverNodes, garbage, rfl⟩ := h
  refine ⟨base, fun q hq => ⟨base q, (hbase q hq).2⟩, List.forall_mem_nil _, fun i p hmem => ?_,
    List.forall_mem_nil _⟩
  obtain ⟨node, hnode⟩ := Option.isSome_iff_exists.mp (Std.ExtTreeMap.mem_iff_isSome_getElem?.mp hmem)
  exact ((node_init hp serverNodes garbage i).mp hnode).1

theorem inv_run (r : Execution n partitions c) (hr : r.Always (Brief B)) (hlen : n + 1 + r.length < 2 ^ 31) :
    ∃ base : Int → Cluster n, ∀ k ≤ r.length, Inv base partitions c B (n + 1 + k) (r.states k) := by
  obtain ⟨base, hinv⟩ := inv_starts (c := c) (B := B) r.starts
  exact ⟨base, r.induct (P := fun k => Inv base partitions c B (n + 1 + k) (r.states k)) (hinv.mono (by omega))
    fun k hk ih => ih.step_run r hr hlen hk⟩

theorem always_brief (r : Execution n partitions c) : r.Always (Brief Message.MAX_BODY_LENGTH) := by
  intro k hk
  have hs := r.steps k hk
  cases he : r.events k with
  | clientMessage i clientId body =>
    simp only [he, step] at hs
    split at hs
    · rename_i hlen
      exact (FlowProto.length_text body).trans hlen
    · cases hs
  | _ => trivial

theorem exists_cluster_run (r : Execution n partitions c) (hlen : n + 1 + r.length < 2 ^ 31) {q : Int}
    (hq : q ∈ partitions) :
    ∃ (r' : Cluster.Execution n c) (at' : Nat → Nat), (∀ j k, j ≤ k → k ≤ r.length → at' j ≤ at' k) ∧
      ∀ k ≤ r.length, at' k ≤ r'.length ∧ Refines q (r.states k) (r'.states (at' k)) := by
  have hbrief := always_brief r
  obtain ⟨base₀, hstarts⟩ := standsFor_starts (c := c) (B := Message.MAX_BODY_LENGTH) r.starts
  obtain ⟨hstart, hfirst⟩ := hstarts q hq
  obtain ⟨base, hinv⟩ := inv_run r hbrief hlen
  have : Nonempty (Event n) := ⟨default⟩
  -- the clusters of the other partitions are those of the invariant
  obtain ⟨r', at', -, hmono, hrel⟩ := r.exists_simulation (Cluster.step c) Cluster.Free
    (R := fun k t => StandsFor (fun _ => t) c Message.MAX_BODY_LENGTH (n + 1 + k) q (r.states k) t) hstart
    ((hfirst.mono (by simp) hfirst.refines).restart rfl) fun k hk t ht => by
      obtain ⟨t', ht'⟩ := (((hinv k hk.le).restart ht).step_run r hbrief hlen hk).standsFor q hq
      have hsteps := ht'.steps
      rw [Function.update_self] at hsteps
      exact ⟨t', hsteps, ht'.restart rfl⟩
  exact ⟨r', at', hmono, fun k hk => ⟨(hrel k hk).1, (hrel k hk).2.refines⟩⟩

/-- Each partition has a run of a cluster of its own that keeps up with the servers, and every frame in flight
is a message for a partition that its receiver has. -/
theorem partitions_isolated (r : Execution n partitions c) (hlen : n + 1 + r.length < 2 ^ 31) :
    (∀ q ∈ partitions, ∃ (r' : Cluster.Execution n c) (at' : Nat → Nat),
      (∀ j k, j ≤ k → k ≤ r.length → at' j ≤ at' k) ∧
      ∀ k ≤ r.length, at' k ≤ r'.length ∧ Refines q (r.states k) (r'.states (at' k))) ∧
    ∀ k ≤ r.length, ∀ fr ∈ (r.states k).net,
      (FlowProto.deserialize fr.body).partition ∈ ((r.states k).masters fr.dst).nodes ∧
        (FlowProto.deserialize fr.body).raftMessage.isSome := by
  refine ⟨fun q hq => exists_cluster_run r hlen hq, fun k hk fr hfr => ?_⟩
  obtain ⟨base, hinv⟩ := inv_run r (always_brief r) hlen
  obtain ⟨p, hp, pk, hpk⟩ := (hinv k hk).frames fr hfr
  obtain ⟨rfl, msg, hmsg, -⟩ := packet_spec.mp hpk
  obtain ⟨cluster, hcluster⟩ := (hinv k hk).standsFor _ hp
  have hnode := hcluster.refines.node fr.dst
  exact ⟨Std.ExtTreeMap.mem_iff_isSome_getElem?.mpr (hnode ▸ rfl), hmsg ▸ rfl⟩

/-- Server 0 leads partition 0 and serves a client there, while server 1 leads partition 1. -/
def twoLeaders : List (ServersEvent 3) :=
  let put := ((RaftMessage.load ⟨0, []⟩ (.clientPutMessage (toBytes "a"))).setPartitionId 0).serialize
  let opening := ((RaftMessage.load ⟨0, []⟩ .clientOpenQueue).setPartitionId 0).serialize
  [.callback 0 0 (.voteTimer 1), .callback 1 1 (.voteTimer 1), .callback 0 0 .voteRequestTimer,
    .callback 1 1 .voteRequestTimer, .deliver 0 1, .deliver 1 1, .deliver 2 1, .deliver 2 1,
    .acceptNewConnection 0 5, .clientMessage 0 5 opening,
    .clientMessage 0 5 put, .runPosted 0 0, .runPosted 0 7]

theorem twoLeaders_isolated : ∃ r : Execution 3 [0, 1] .fifo,
    (r.states 13).net.map (fun fr => (FlowProto.deserialize fr.body).partition) = [0, 1, 0, 0] ∧
      (∀ q ∈ [0, 1], ∃ (r' : Cluster.Execution 3 .fifo) (at' : Nat → Nat), at' 13 ≤ r'.length ∧
        Refines q (r.states 13) (r'.states (at' 13))) ∧
      ∀ fr ∈ (r.states 13).net,
        (FlowProto.deserialize fr.body).partition ∈ ((r.states 13).masters fr.dst).nodes ∧
        (FlowProto.deserialize fr.body).raftMessage.isSome := by
  let r : Execution 3 [0, 1] .fifo :=
    .ofEvents (init 3 [0, 1] [] fun _ _ => ⟨0, 0⟩) ⟨by decide, by decide, _, _, rfl⟩ twoLeaders (by decide +kernel)
  obtain ⟨hruns, hframes⟩ := partitions_isolated r (by decide)
  refine ⟨r, by decide +kernel, fun q hq => ?_, hframes 13 le_rfl⟩
  obtain ⟨r', at', -, hrel⟩ := hruns q hq
  exact ⟨r', at', hrel 13 le_rfl⟩

end

end Servers

end FlowMQ
