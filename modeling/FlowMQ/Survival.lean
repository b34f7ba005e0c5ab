import FlowMQ.Isolation

/-!
# No assertion fails

`set_body_length` asserts that a message fits into a frame, and `message_handler`
that its partition has a node. Where the texts that clients put leave room for
the numbers around them, and the addresses of the servers are not too long, a
server runs into one of them only by a message of a client for a partition that
it does not have. Else it ends only where the client manager throws.
-/

namespace FlowMQ

open Wire (Value)

/-! ## Sizes -/

theorem length_serializeRaftMessage {q : Int} {msg : RaftMessage} {t number : Nat} {body : Bytes}
    (hnumber : number < 16) (h : FlowProto.schema.fields ((msg.load ⟨0, []⟩).setPartitionId q) =
      [(1, .varint t), (2, .varint (Wire.ofInt q)), (number, .bytes body)]) :
    (serializeRaftMessage q msg).length ≤ 33 + body.length := by
  rw [serializeRaftMessage, FlowProto.serialize, Wire.Schema.serialize, h]
  refine (Wire.length_fields_le (by simp [hnumber])).trans ?_
  simp only [List.map_cons, List.map_nil, List.sum_cons, List.sum_nil, Value.room]
  omega

theorem length_request_le {B : Nat} {req : AppendEntriesRequest} (hone : req.entries.length ≤ 1)
    (hB : ∀ e ∈ req.entries, e.message.length ≤ B) :
    (AppendEntriesRequest.schema.serialize req).length ≤ 121 + B := by
  have hfields : AppendEntriesRequest.schema.fields req =
      [(1, .varint (Wire.ofInt req.term)), (2, .varint (Wire.ofInt req.leaderId)),
      (3, .varint (Wire.ofInt req.prevLogIndex)),
        (4, .varint (Wire.ofInt req.prevLogTerm))] ++
          (req.entries.map fun e => (5, .bytes (LogEntry.schema.serialize e))) ++
        [(6, .varint (Wire.ofInt req.leaderCommit))] := by
    simp [Wire.Schema.fields, AppendEntriesRequest.schema, Wire.Slot.required, Wire.Slot.repeated,
      Wire.Kind.int32, Wire.Kind.message]
  rw [Wire.Schema.serialize, hfields]
  cases hentries : req.entries with
  | nil =>
    refine (Wire.length_fields_le (by simp)).trans ?_
    simp only [List.map_cons, List.map_nil, List.append_nil, List.cons_append, List.nil_append, List.sum_cons,
      List.sum_nil, Value.room]
    omega
  | cons e rest =>
    obtain rfl : rest = [] := by
      rw [hentries, List.length_cons] at hone
      exact List.eq_nil_of_length_eq_zero (by omega)
    have hentry := e.length_serialize_le
    have htext := hB e (hentries ▸ List.mem_cons_self)
    refine (Wire.length_fields_le (by simp)).trans ?_
    simp only [List.map_cons, List.map_nil, List.cons_append, List.nil_append, List.sum_cons,
      List.sum_nil, Value.room]
    omega

theorem length_between {B : Nat} (q : Int) {msg : RaftMessage} (h : msg.From (LogEntry.Within B))
    (hone : ∀ req, msg = .appendEntriesRequest req → req.entries.length ≤ 1) :
    (serializeRaftMessage q msg).length ≤ 154 + B := by
  cases msg with
  | requestVoteRequest req =>
    have hbody : (RequestVoteRequest.schema.serialize req).length ≤ 44 := by
      exact Wire.length_fields_le
        (l := [(1, .varint (Wire.ofInt req.term)), (2, .varint (Wire.ofInt req.candidateId)),
        (3, .varint (Wire.ofInt req.lastLogIndex)), (4, .varint (Wire.ofInt req.lastLogTerm))]) (by simp)
    exact (length_serializeRaftMessage (t := 0) (by decide : 3 < 16) rfl).trans (by omega)
  | requestVoteResponse resp =>
    have hbody : (RequestVoteResponse.schema.serialize resp).length ≤ 22 := by
      exact Wire.length_fields_le (l := [(1, .varint (Wire.ofInt resp.term)),
        (2, .varint (Wire.ofInt resp.voteResultTermGranted))]) (by simp)
    exact (length_serializeRaftMessage (t := 1) (by decide : 4 < 16) rfl).trans (by omega)
  | appendEntriesRequest req =>
    have hbody := length_request_le (hone req rfl) fun e he => (h.2 e he).2
    exact (length_serializeRaftMessage (t := 2) (by decide : 5 < 16) rfl).trans (by omega)
  | appendEntriesResponse resp =>
    have hbody : (AppendEntriesResponse.schema.serialize resp).length ≤ 44 := by
      exact Wire.length_fields_le
        (l := [(1, .varint (Wire.ofInt resp.term)), (2, .varint (Wire.ofInt resp.followerId)),
        (3, .varint (Wire.ofInt resp.appendResultSuccess)), (4, .varint (Wire.ofInt resp.lastIndexSynced))])
        (by simp)
    exact (length_serializeRaftMessage (t := 3) (by decide : 6 < 16) rfl).trans (by omega)
  | _ => cases h

theorem length_serverSend (q id : Int) (text : Bytes) :
    (serializeRaftMessage q (.serverSendMessage id text)).length ≤ 55 + text.length := by
  have hbody : (ServerSendMessage.schema.serialize ⟨id, text⟩).length ≤ 22 + text.length := by
    refine (Wire.length_fields_le (l := [(1, .varint (Wire.ofInt id)), (2, .bytes text)]) (by simp)).trans ?_
    simp only [List.map_cons, List.map_nil, List.sum_cons, List.sum_nil, Value.room]
    omega
  exact (length_serializeRaftMessage (t := 12) (by decide : 9 < 16) rfl).trans (by omega)

theorem length_openResponse (q : Int) (resp : ClientOpenQueueResponse) :
    (serializeRaftMessage q (.clientOpenQueueResponse resp)).length ≤
      77 + resp.errorMessage.length + (resp.leaderIp.getD []).length + (resp.leaderPort.getD []).length := by
  obtain ⟨status, text, ip, port⟩ := resp
  have hbody : (ClientOpenQueueResponse.schema.serialize ⟨status, text, ip, port⟩).length ≤
      44 + text.length + (ip.getD []).length + (port.getD []).length := by
    have hfields : ClientOpenQueueResponse.schema.fields ⟨status, text, ip, port⟩ =
        [(1, .varint status.number), (2, .bytes text)] ++ (ip.toList.map fun b => (3, .bytes b)) ++
          port.toList.map fun b => (4, .bytes b) := by
      simp [Wire.Schema.fields, ClientOpenQueueResponse.schema, Wire.Slot.required, Wire.Slot.optional,
        Wire.Kind.string, Status.kind, Wire.Kind.enumeration, Function.comp_def]
    rw [Wire.Schema.serialize, hfields]
    cases ip <;> cases port <;> refine (Wire.length_fields_le (by simp)).trans ?_ <;>
      simp only [Option.toList, List.map_cons, List.map_nil, List.append_nil, List.cons_append,
        List.nil_append, List.sum_cons, List.sum_nil, Value.room, Option.getD] <;> omega
  exact (length_serializeRaftMessage (t := 16) (by decide : 12 < 16) rfl).trans (by simp only; omega)

/-! ## What a handler writes to clients -/

def Effect.isAnswer : Effect → Bool
  | .writeClient _ _ (.serverSendMessage ..) => false
  | .writeClient .. => true
  | _ => false

def Answers (nodes : List ServerNode) (resp : ClientOpenQueueResponse) : Prop :=
  resp = ⟨.success, [], none, none⟩ ∨
    ∃ leader, resp = ⟨.error, toBytes "Node is not leader.", some (getAddressForNode leader nodes).1,
      some (getAddressForNode leader nodes).2⟩

namespace Process

theorem deliverToClient_answers (id : Int) (text : Bytes) (p : Process) :
    (p.deliverToClient (.serverSendMessage id text)).2.out.filter Effect.isAnswer =
      p.out.filter Effect.isAnswer := by
  simp only [deliverToClient]
  split
  · simp [Effect.isAnswer]
  · rfl

theorem deliverMessages_answers : ∀ (ids : List Int) (p : Process),
    (p.deliverMessages ids).out.filter Effect.isAnswer = p.out.filter Effect.isAnswer
  | [], _ => rfl
  | id :: ids, p => by
    simp only [deliverMessages]
    split
    · exact deliverToClient_answers ..
    · rw [deliverMessages_answers ids]
      exact deliverToClient_answers ..

theorem triggerMessageDelivery_answers (p : Process) :
    p.triggerMessageDelivery.out.filter Effect.isAnswer = p.out.filter Effect.isAnswer := by
  unfold triggerMessageDelivery
  split
  · rfl
  · split
    · rfl
    · exact deliverMessages_answers ..

theorem advanceCommit_answers (target stop : Int) (p : Process) :
    (p.advanceCommit target stop).out.filter Effect.isAnswer = p.out.filter Effect.isAnswer := by
  simp only [advanceCommit, emit_out, List.filter_append, commitLogEntries]
  rw [triggerMessageDelivery_answers, commitLoop_filter fun _ _ => rfl]
  exact List.append_nil _

theorem clientOpenQueue_answers (p : Process) : ∀ e ∈ p.clientOpenQueue.out.filter Effect.isAnswer,
    e ∈ p.out.filter Effect.isAnswer ∨ ∃ c b resp, e = .writeClient c b (.clientOpenQueueResponse resp) ∧
    Answers p.serverNodes resp := by
  have hcall : ∀ resp, Answers p.serverNodes resp →
      ∀ e ∈ (p.deliverToClient (.clientOpenQueueResponse resp)).2.out.filter Effect.isAnswer,
        e ∈ p.out.filter Effect.isAnswer ∨
          ∃ c b resp, e = .writeClient c b (.clientOpenQueueResponse resp) ∧ Answers p.serverNodes resp := by
    intro resp hresp e he
    simp only [deliverToClient] at he
    split at he
    · rw [emit_out, List.filter_append, List.mem_append] at he
      exact he.imp_right fun he => ⟨_, _, resp, List.mem_singleton.mp (List.mem_filter.mp he).1, hresp⟩
    · exact Or.inl he
  intro e he
  unfold clientOpenQueue at he
  split at he
  · exact hcall _ (Or.inr ⟨_, rfl⟩) e he
  · rw [triggerMessageDelivery_answers] at he
    exact hcall _ (Or.inl rfl) e he

section
variable {p : Process} (hout : p.out = [])
include hout

theorem localMessageHandler_answers (now randomId : Int) (msg : RaftMessage) :
    ∀ e ∈ (p.localMessageHandler now randomId msg).out, e.isAnswer = true →
      ∃ c b resp, e = .writeClient c b (.clientOpenQueueResponse resp) ∧ Answers p.serverNodes resp := by
  have hblind : Blind fun p => p.out.filter Effect.isAnswer := blind_filter fun _ _ => rfl
  have hnone : ∀ {p' : Process}, p'.out.filter Effect.isAnswer = p.out.filter Effect.isAnswer → ∀ e ∈ p'.out,
      e.isAnswer = true →
      ∃ c b resp, e = .writeClient c b (.clientOpenQueueResponse resp) ∧ Answers p.serverNodes resp := by
    intro p' h e he hans
    have hmem := List.mem_filter.mpr ⟨he, hans⟩
    rw [h, hout] at hmem
    cases hmem
  cases msg with
  | appendEntriesRequest q =>
    refine hnone ((hblind.appendEntriesRequest now q p).trans ?_)
    split
    · rw [appendLogEntries_filter fun _ _ => rfl, updateLeaderCommit]
      split
      · exact advanceCommit_answers ..
      · rfl
    · rfl
  | appendEntriesResponse q =>
    refine hnone ((hblind.appendEntriesResponse q p).trans ?_)
    split
    · exact advanceCommit_answers ..
    · rfl
  | requestVoteRequest q => exact hnone (hblind.requestVoteRequest q p)
  | requestVoteResponse q => exact hnone (hblind.requestVoteResponse q p)
  | clientPutMessage m => exact hnone (hblind.clientPutMessage randomId m p)
  | clientCommitMessage id => exact hnone (hblind.clientCommitMessage id p)
  | clientOpenQueue =>
    intro e he hans
    refine (clientOpenQueue_answers p e (List.mem_filter.mpr ⟨he, hans⟩)).resolve_left fun h => ?_
    rw [hout] at h
    cases h
  | _ => exact hnone rfl

theorem callback_answers (cb : Callback) : ∀ e ∈ (p.handle cb.input).out, e.isAnswer = false := by
  have hblind : Blind fun p => p.out.filter Effect.isAnswer := blind_filter fun _ _ => rfl
  have hb : ∀ (p : Process) m,
      (p.emit (.broadCast m)).out.filter Effect.isAnswer = p.out.filter Effect.isAnswer := fun p m => by
    simp [Effect.isAnswer]
  have hnone : (p.handle cb.input).out.filter Effect.isAnswer = [] := by
    refine Eq.trans ?_ (show p.out.filter Effect.isAnswer = [] by rw [hout]; rfl)
    cases cb with
    | voteTimer now => exact hblind.voteTimer now p
    | voteRequestTimer => exact hblind.voteRequestTimer hb p
    | heartbeatTimer => exact hblind.heartbeatTimer hb p
    | consumerDisconnected id =>
      exact triggerMessageDelivery_answers
        { p with messageQueue := (p.messageQueue.handleClientDisconnected id).2 }
  exact fun e he => by simpa using List.filter_eq_nil_iff.mp hnone e he

end

end Process

/-! ## What a step writes fits -/

/-- The addresses of the servers leave room for the rest of the answer that names one of them. -/
def ShortAddresses (nodes : List ServerNode) : Prop :=
  ∀ node ∈ nodes, 96 + node.host.length + node.clientPort.length ≤ Message.MAX_BODY_LENGTH

theorem fits_answer {nodes : List ServerNode} (h : ShortAddresses nodes) {resp : ClientOpenQueueResponse}
    (hr : Answers nodes resp) (q : Int) :
    (serializeRaftMessage q (.clientOpenQueueResponse resp)).length ≤ Message.MAX_BODY_LENGTH := by
  refine (length_openResponse q resp).trans ?_
  rcases hr with rfl | ⟨leader, rfl⟩
  · decide
  · have htext : (toBytes "Node is not leader.").length = 19 := by decide +kernel
    simp only [Option.getD_some, htext, getAddressForNode]
    split
    · rename_i node hnode
      have := h node (List.mem_of_find?_eq_some hnode)
      simp only
      omega
    · decide

section
variable {n : Nat} {k k' : Cluster n} {i : Fin n} {msg : Option RaftMessage} {net : List (Packet n)} {B : Nat}

theorem Cluster.Acts.fitsFrame (ha : k.Acts i msg net k') (hfrom : k'.From (LogEntry.Within B))
    (hB : 154 + B ≤ Message.MAX_BODY_LENGTH) {q : Int} {e : Effect} (he : e ∈ (k'.procs i).out)
    (hans : e.isAnswer = true → e.FitsFrame q) : e.FitsFrame q := by
  have hsent : ∀ {m}, Carries (sends (k'.procs i).out) m →
      (serializeRaftMessage q m).length ≤ Message.MAX_BODY_LENGTH := by
    intro m hc
    have hm := ha.trans.sends_from (fun _ h => h.1.index) (hfrom.raft i).log hc
    refine (length_between q hm ?_).trans hB
    rintro req rfl
    rcases (ha.trans.requests hc).1 with rfl | ⟨j, -, rfl⟩
    · exact Nat.zero_le 1
    · exact le_rfl
  cases e with
  | writeMessage dst m =>
    rintro _ ⟨⟩
    exact hsent (Or.inl ⟨dst, List.mem_filter.mpr ⟨he, rfl⟩⟩)
  | broadCast m =>
    rintro _ ⟨⟩
    exact hsent (Or.inr (List.mem_filter.mpr ⟨he, rfl⟩))
  | writeClient c b m =>
    cases m with
    | serverSendMessage id text =>
      rintro _ ⟨⟩
      have hmem : (i, Effect.writeClient c b (.serverSendMessage id text)) ∈ k'.history := by
        rw [ha.history]
        exact List.mem_append_right _ (List.mem_map.mpr ⟨_, he, rfl⟩)
      obtain ⟨entry, hentry, -, -, rfl⟩ := hfrom.history _ hmem id text rfl
      have := hentry.2
      exact (length_serverSend q id _).trans (by omega)
    | _ => exact hans rfl
  | _ => exact fun _ h => by cases h

end

namespace Servers

variable {n : Nat} {base : Int → Cluster n} {partitions : List Int} {c : Channel} {B : Nat} {b : Int}
  {s s' : Servers n} {i : Fin n} {p : Int}

theorem Inv.node (h : Inv base partitions c B b s) (hp : p ∈ partitions) (i : Fin n) :
    ∃ k, StandsFor base c B b p s k ∧ (s.masters i).nodes[p]? = some (k.procs i).toClusterNode := by
  obtain ⟨k, hk⟩ := h.standsFor p hp
  exact ⟨k, hk, hk.refines.node i⟩

theorem Inv.act_isSome (h : Inv base partitions c B b s) (hB : 154 + B ≤ Message.MAX_BODY_LENGTH)
    (hp : p ∈ partitions) {f : Process → Process} {net : List (Frame n)}
    (hans : ∀ P : Process, P.out = [] → P.serverNodes = (s.masters i).serverNodes → ∀ e ∈ (f P).out,
      e.isAnswer = true → e.FitsFrame p)
    (hacts : ∀ k, StandsFor base c B b p s k → ∃ msg net', k.Acts i msg net' (k.act i f net') ∧
      (k.act i f net').From (LogEntry.Within B)) :
    (s.act i p f net).isSome := by
  obtain ⟨k, hk, hnode⟩ := h.node hp i
  obtain ⟨msg, net', ha, hfrom⟩ := hacts k hk
  have hself : (k.act i f net').procs i = f (k.procs i).clear := Function.update_self ..
  have hall : ∀ e ∈ (f ((s.masters i).process (k.procs i).toClusterNode)).out, e.FitsFrame p := by
    rw [hk.refines.process hnode]
    exact fun e he =>
      ha.fitsFrame hfrom hB (hself ▸ he) (hans (k.procs i).clear rfl (hk.refines.serverNodes i) e he)
  rw [Servers.act, hnode]
  simp only [if_pos hall, Option.isSome_some]

/-- What can come next. A client that keeps to the rules sends one of the three types of messages for a
partition that the server has. -/
def Possible (c : Channel) (s : Servers n) : ServersEvent n → Prop
  | .callback i p cb =>
    ∃ node, (s.masters i).nodes[p]? = some node ∧ ((s.masters i).process node).enabled cb.input = true
  | .deliver k _ => ∃ fr, s.net[k]? = some fr ∧ (c = .fifo → inOrder s.net k fr = true)
  | .lose k => k < s.net.length
  | .clientMessage i _ body => FromClient Message.MAX_BODY_LENGTH body ∧
    (FlowProto.deserialize body).partition ∈ (s.masters i).nodes
  | .runPosted k randomId => Wire.Fits64 randomId ∧
    ∃ x, s.posted[k]? = some x ∧ postedInOrder s.posted k x.1 (FlowProto.deserialize x.2).partition = true
  | .acceptNewConnection .. | .removeSession .. => True

section
variable (h : Inv base partitions c B b s) (hB : 154 + B ≤ Message.MAX_BODY_LENGTH)
  (haddresses : ∀ i, ShortAddresses (s.masters i).serverNodes)
include h hB

theorem Inv.callback_isSome {cb : Callback} (hp : Possible c s (.callback i p cb)) :
    (s.step c (.callback i p cb)).isSome := by
  obtain ⟨node, hnode, hen⟩ := hp
  have hp : p ∈ partitions := h.keys i p (Std.ExtTreeMap.mem_iff_isSome_getElem?.mpr (hnode ▸ rfl))
  simp only [Servers.step, hnode, if_pos hen]
  refine h.act_isSome hB hp (fun P hout _ e he hans => ?_) fun k hk => ?_
  · rw [Process.callback_answers hout cb e he] at hans
    cases hans
  · rw [hk.refines.process hnode] at hen
    have hs : k.step c (.input i cb.input) = some (k.act i (·.handle cb.input) k.net) := if_pos hen
    refine ⟨none, k.net, ?_, hk.fromStep (e := .input i cb.input) (fun x hx => ?_) hs⟩
    · exact Cluster.acts_of (Process.does_handle _ rfl cb.input hen) (Process.records_handle _ rfl cb.input)
    · cases cb <;> exact hx.elim

include haddresses

theorem Inv.handler_isSome {m : FlowProto} {msg : RaftMessage} (hm : m.raftMessage = some msg)
    (hp : m.partition ∈ partitions) {now randomId : Int} {net : List (Frame n)}
    (hacts : ∀ k, StandsFor base c B b m.partition s k → ∃ msg' net',
      k.Acts i msg' net' (k.act i (·.localMessageHandler now randomId msg) net') ∧
        (k.act i (·.localMessageHandler now randomId msg) net').From (LogEntry.Within B)) :
    (s.messageHandler i m now randomId net).isSome := by
  rw [messageHandler, hm]
  refine h.act_isSome hB hp (fun P hout hnodes e he hans => ?_) hacts
  obtain ⟨c', b', resp, rfl, hresp⟩ := Process.localMessageHandler_answers hout now randomId msg e he hans
  rintro _ ⟨⟩
  exact fits_answer (haddresses i) (hnodes ▸ hresp) _

theorem Inv.step_isSome {e : ServersEvent n} (hp : Possible c s e) : (s.step c e).isSome := by
  cases e with
  | callback i p cb => exact h.callback_isSome hB hp
  | deliver j now =>
    obtain ⟨fr, hfr, horder⟩ := hp
    have horder : ¬ (c = .fifo ∧ inOrder s.net j fr = false) := fun hc => by simp [horder hc.1] at hc
    obtain ⟨p, hp, pk, hpk⟩ := h.frames fr (List.mem_of_getElem? hfr)
    obtain ⟨rfl, msg, hmsg, rfl⟩ := packet_spec.mp hpk
    simp only [Servers.step, hfr, if_neg horder]
    refine h.handler_isSome hB haddresses hmsg hp fun k hk => ?_
    exact ⟨some msg, _, Cluster.acts_message k ⟨fr.src, fr.dst, msg⟩ now _,
      hk.fromStep (e := .deliver _ now) (fun _ hx => False.elim hx) (hk.deliver hfr hpk horder now)⟩
  | lose j => simp only [Servers.step, if_pos (show j < s.net.length from hp), Option.isSome_some]
  | clientMessage i clientId body =>
    obtain ⟨⟨hlen, htype, -⟩, hnode⟩ := hp
    have hpost : ∀ {s' : Servers n}, (s'.masters i).nodes = (s.masters i).nodes → (s'.post i body).isSome :=
      fun hs => by
      rw [Servers.post, hs, if_pos (Std.ExtTreeMap.mem_iff_contains.mp hnode), Option.isSome_some]
    simp only [Servers.step, if_pos hlen, handleMessage]
    rcases htype with htype | htype | htype <;> simp only [htype]
    · exact hpost (setClients_nodes _ i)
    · exact hpost rfl
    · exact hpost rfl
  | runPosted j randomId =>
    obtain ⟨hr, ⟨i, body⟩, hbody, horder⟩ := hp
    obtain ⟨hclient, hp⟩ := h.posted _ (List.mem_of_getElem? hbody)
    obtain ⟨inp, msg, hmsg, hfeeds, hen, hhandle⟩ := hclient.input hr
    simp only [Servers.step, hbody, if_pos (And.intro horder hr)]
    have h' : Inv base partitions c B b { s with posted := s.posted.eraseIdx j } :=
      h.posted_subset fun _ => List.mem_of_mem_eraseIdx
    refine h'.handler_isSome hB haddresses hmsg hp fun k hk => ⟨none, k.net, ?_⟩
    rw [show (fun P : Process => P.localMessageHandler 0 randomId msg) = (·.handle inp) from funext fun P =>
      (hhandle P).symm]
    exact ⟨Cluster.acts_of (Process.does_handle (k.procs i).clear rfl inp (hen _))
      (Process.records_handle (k.procs i).clear rfl inp),
      hk.fromStep (e := .input i inp) hfeeds (if_pos (hen _))⟩
  | acceptNewConnection i id => rfl
  | removeSession i id => rfl

end

/-! ## Runs -/

theorem act_serverNodes {f : Process → Process} {net : List (Frame n)} (h : s.act i p f net = some s') (j : Fin n) :
    (s'.masters j).serverNodes = (s.masters j).serverNodes := by
  obtain ⟨node, -, ha⟩ := acts_of_act h
  by_cases hj : j = i
  · rw [hj, ha.self]
  · rw [ha.others j hj]

theorem messageHandler_serverNodes {m : FlowProto} {now randomId : Int} {net : List (Frame n)}
    (h : s.messageHandler i m now randomId net = some s') (j : Fin n) :
    (s'.masters j).serverNodes = (s.masters j).serverNodes := by
  unfold messageHandler at h
  split at h <;> exact act_serverNodes h j

theorem setClients_serverNodes (m : ClientManager) (j : Fin n) :
    ((s.setClients i m).masters j).serverNodes = (s.masters j).serverNodes := by
  by_cases hj : j = i
  · rw [hj, setClients_self]
  · rw [setClients_other m hj]

theorem post_serverNodes {body : Bytes} (h : s.post i body = some s') (j : Fin n) :
    (s'.masters j).serverNodes = (s.masters j).serverNodes := by
  unfold post at h
  split at h <;> cases h
  rfl

theorem serverNodes_step {e : ServersEvent n} (h : s.step c e = some s') (j : Fin n) :
    (s'.masters j).serverNodes = (s.masters j).serverNodes := by
  cases e with
  | callback i p cb =>
    simp only [step] at h
    split at h
    · cases h
    · split at h
      · exact act_serverNodes h j
      · cases h
  | deliver k now =>
    simp only [step] at h
    split at h
    · cases h
    · split at h
      · cases h
      · exact messageHandler_serverNodes h j
  | lose k =>
    simp only [step] at h
    split at h <;> cases h
    rfl
  | clientMessage i clientId body =>
    simp only [step, handleMessage] at h
    split at h
    · split at h
      · exact (post_serverNodes h j).trans (setClients_serverNodes _ j)
      · exact post_serverNodes h j
      · exact post_serverNodes h j
      · cases h
    · cases h
  | runPosted k randomId =>
    simp only [step] at h
    split at h
    · cases h
    · split at h
      · exact messageHandler_serverNodes h j
      · cases h
  | acceptNewConnection i id =>
    cases h
    exact setClients_serverNodes _ j
  | removeSession i id =>
    cases h
    exact setClients_serverNodes _ j

theorem possible_post {body : Bytes} (h : (s.post i body).isSome) :
    (FlowProto.deserialize body).partition ∈ (s.masters i).nodes := by
  unfold post at h
  split at h
  · exact Std.ExtTreeMap.mem_iff_contains.mpr ‹_›
  · cases h

theorem possible_of_isSome {e : ServersEvent n} (h : (s.step c e).isSome) : Possible c s e := by
  cases e with
  | callback i p cb =>
    simp only [step] at h
    split at h
    · cases h
    · split at h
      · exact ⟨_, ‹_›, ‹_›⟩
      · cases h
  | deliver k now =>
    simp only [step] at h
    split at h
    · cases h
    · rename_i fr hfr
      split at h
      · cases h
      · rename_i horder
        exact ⟨fr, hfr, fun hc => (Bool.eq_false_or_eq_true _).resolve_right fun hf => horder ⟨hc, hf⟩⟩
  | lose k =>
    simp only [step] at h
    split at h
    · assumption
    · cases h
  | clientMessage i clientId body =>
    simp only [step, handleMessage] at h
    split at h
    · rename_i hlen
      have htext := (FlowProto.length_text body).trans hlen
      split at h
      · rename_i htype
        exact ⟨⟨hlen, .inl htype, htext⟩, setClients_nodes (s := s) _ i ▸ possible_post h⟩
      · rename_i htype
        exact ⟨⟨hlen, .inr (.inl htype), htext⟩, possible_post h⟩
      · rename_i htype
        exact ⟨⟨hlen, .inr (.inr htype), htext⟩, possible_post h⟩
      · cases h
    · cases h
  | runPosted k randomId =>
    simp only [step] at h
    split at h
    · cases h
    · rename_i i body hbody
      split at h
      · rename_i hcond
        exact ⟨hcond.2, _, hbody, hcond.1⟩
      · cases h
  | acceptNewConnection i id => trivial
  | removeSession i id => trivial

theorem Inv.queue_fits (h : Inv base partitions c B b s) (hB : 154 + B ≤ Message.MAX_BODY_LENGTH)
    {node : ClusterNode} (hnode : (s.masters i).nodes[p]? = some node) (id : Int) :
    (serializeRaftMessage p (.serverSendMessage id (node.messageQueue.getMessage id).1)).length ≤
      Message.MAX_BODY_LENGTH := by
  have hp : p ∈ partitions := h.keys i p (Std.ExtTreeMap.mem_iff_isSome_getElem?.mpr (hnode ▸ rfl))
  obtain ⟨k, hk, hnode'⟩ := h.node hp i
  obtain rfl := Option.some.inj (hnode'.symm.trans hnode)
  refine (length_serverSend p id _).trans ?_
  rw [MessageQueue.getMessage, Std.ExtTreeMap.getD_eq_getD_getElem?]
  cases htext : (k.procs i).messageQueue.messageStore[id]? with
  | none => exact (by decide : 55 + 0 ≤ 1000)
  | some text =>
    obtain ⟨e, he, -, -, rfl⟩ := (hk.given.queue i).texts id text htext
    have := he.2
    simp only [Option.getD_some]
    omega

theorem twoLeaders_brief :
    (Runs.exec (Runs.guarded (Brief 846) (step .fifo)) (init 3 [0, 1] [] fun _ _ => ⟨0, 0⟩)
      twoLeaders).isSome := by
  decide +kernel

end Servers

end FlowMQ
