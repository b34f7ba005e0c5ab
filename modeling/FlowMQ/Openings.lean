import FlowMQ.Isolation
import FlowMQ.RoundRobin

/-!
# Who gets the answer

A node answers a request to open its partition by
`deliver_one_message_round_robin`, which does not know who asked. At a server
whose node is not the leader and that keeps its consumers, the next consumer in
turn is the one whose request is answered: the counter of the round robin counts
the answers, and the array of consumers lists the requests.
-/

namespace FlowMQ

open Std (ExtTreeMap)

def Effect.toClient : Effect → Option (Int × RaftMessage)
  | .writeClient clientId true msg => some (clientId, msg)
  | _ => none

def RaftMessage.IsRefusal (msg : RaftMessage) : Prop :=
  ∃ resp, msg = .clientOpenQueueResponse resp ∧ resp.status = .error

/-! ## A node that does not lead -/

namespace Process

def shown (p : Process) : List Effect × ClientManager × List ServerNode :=
  (p.out.filter fun e => e matches .writeClient .., p.shared)

theorem blind_shown : Blind shown :=
  ⟨fun _ _ => rfl, fun p i m => congrArg (·, p.shared) ((blind_filter (fun _ _ => rfl)).write p i m)⟩

theorem commitLoop_shown (k : Nat) (i : Int) (p : Process) : (commitLoop k i p).shown = p.shown :=
  Prod.ext (commitLoop_filter (fun _ _ => rfl) k i p) (commitLoop_shared k i p)

theorem appendLogEntries_shown (es : List LogEntry) (last : Int) (p : Process) :
    (p.appendLogEntries last es).shown = p.shown :=
  Prod.ext (appendLogEntries_filter (fun _ _ => rfl) es last p) (appendLogEntries_shared es last p)

section
variable {p : Process} (hstate : p.state ≠ .leader)
include hstate

theorem triggerMessageDelivery_follower : p.triggerMessageDelivery = p := if_pos hstate

theorem advanceCommit_shown (target stop : Int) : (p.advanceCommit target stop).shown = p.shown := by
  have hloop := commitLoop_raft (stop - (p.commitIndex + 1)).toNat (p.commitIndex + 1) p
  simp only [advanceCommit, commitLogEntries]
  rw [triggerMessageDelivery_follower (by rw [hloop]; exact hstate)]
  refine Eq.trans ?_ (commitLoop_shown (stop - (p.commitIndex + 1)).toNat (p.commitIndex + 1) p)
  simp [shown, shared, emit]

theorem localMessageHandler_shown (now randomId : Int) {msg : RaftMessage} (hmsg : msg ≠ .clientOpenQueue) :
    (p.localMessageHandler now randomId msg).shown = p.shown := by
  cases msg with
  | appendEntriesRequest req =>
    refine (blind_shown.appendEntriesRequest now req p).trans ?_
    split
    · have hfollows : (p.acceptLeader now req).state ≠ .leader := by
        simp only [acceptLeader]
        split
        · decide
        · exact hstate
      rw [appendLogEntries_shown, updateLeaderCommit]
      split
      · exact (advanceCommit_shown hfollows _ _).trans rfl
      · rfl
    · rfl
  | appendEntriesResponse resp =>
    refine (blind_shown.appendEntriesResponse resp p).trans ?_
    split
    · refine (advanceCommit_shown ?_ _ _).trans ?_
      · exact hstate
      · rfl
    · rfl
  | requestVoteRequest req => exact blind_shown.requestVoteRequest req p
  | requestVoteResponse resp => exact blind_shown.requestVoteResponse resp p
  | clientPutMessage message => exact blind_shown.clientPutMessage randomId message p
  | clientCommitMessage id => exact blind_shown.clientCommitMessage id p
  | clientOpenQueue => exact absurd rfl hmsg
  | _ => rfl

theorem callback_shown (cb : Callback) : (p.handle cb.input).shown = p.shown := by
  have hb : ∀ (p : Process) m, (p.emit (.broadCast m)).shown = p.shown :=
    fun p m => by simp [shown, shared, emit]
  cases cb with
  | voteTimer now => exact blind_shown.voteTimer now p
  | voteRequestTimer => exact blind_shown.voteRequestTimer hb p
  | heartbeatTimer => exact blind_shown.heartbeatTimer hb p
  | consumerDisconnected id =>
    have hsame : (p.consumerDisconnected id) =
        { p with messageQueue := (p.messageQueue.handleClientDisconnected id).2 } :=
      triggerMessageDelivery_follower hstate
    exact (congrArg shown hsame).trans rfl

theorem clientOpenQueue_follower (hout : p.out = []) {ids : List Int}
    (hids : p.clients.consumerClientIdArray[p.partitionId]? = some ids) {n : Nat}
    (hcount : p.clients.count p.partitionId = n) (hn : n < 2 ^ 31) {c : Int}
    (hc : ids[n % ids.length]? = some c) (hcon : p.clients.Connected c) :
    p.clientOpenQueue.clients = (p.clients.deliverOneMessageRoundRobin p.partitionId).manager ∧
      ∃ msg, p.clientOpenQueue.out = [.writeClient c true msg] ∧ msg.IsRefusal := by
  have hwritten := (ClientManager.deliver_eq hids hcount hn hc hcon).2.1
  rw [clientOpenQueue, if_pos hstate]
  simp only [deliverToClient, hwritten, emit, hout, List.nil_append]
  exact ⟨trivial, _, rfl, _, rfl, rfl⟩

end

end Process

theorem Process.out_of_shown {p p' : Process} (h : p'.shown = p.shown) (hout : p.out = []) :
    p'.out.filterMap Effect.toClient = [] ∧ p'.clients = p.clients := by
  refine ⟨?_, congrArg (fun x => x.2.1) h⟩
  have hfilter : p'.out.filter (fun e => e matches .writeClient ..) = [] :=
    (congrArg Prod.fst h).trans (by rw [shown, hout]; rfl)
  rw [List.filterMap_eq_nil_iff]
  intro e he
  have hne := List.filter_eq_nil_iff.mp hfilter e he
  cases e with
  | writeClient => exact absurd rfl hne
  | _ => rfl

/-! ## Requests and answers of a server -/

namespace Servers

variable {n : Nat}

def sent (s : Servers n) (i : Fin n) (q : Int) : List (Int × RaftMessage) :=
  s.history.filterMap fun x => if x.1 = i ∧ x.2.1 = q then x.2.2.toClient else none

def IsOpening (q : Int) (body : Bytes) : Prop :=
  (FlowProto.deserialize body).messageType = .clientOpenQueue ∧ (FlowProto.deserialize body).partition = q

instance (q : Int) (body : Bytes) : Decidable (IsOpening q body) := inferInstanceAs (Decidable (_ ∧ _))

def waiting (s : Servers n) (i : Fin n) (q : Int) : List Bytes :=
  s.posted.filterMap fun x => if x.1 = i ∧ IsOpening q x.2 then some x.2 else none

def asks (i : Fin n) (q : Int) : ServersEvent n → Option Int
  | .clientMessage j clientId body => if j = i ∧ IsOpening q body then some clientId else none
  | _ => none

def asked {partitions : List Int} {c : Channel} (r : Execution n partitions c) (i : Fin n) (q : Int)
    (k : Nat) : List Int :=
  ((List.range k).map r.events).filterMap (asks i q)

def Stay (i : Fin n) (q : Int) (s : Servers n) : ServersEvent n → Prop
  | .clientMessage j clientId _ => j = i → (s.masters i).clientManager.Connected clientId
  | .removeSession j clientId => j = i → clientId ∉ (s.masters i).clientManager.consumers q
  | _ => True

def Attended (i : Fin n) (q : Int) (s : Servers n) (e : ServersEvent n) : Prop :=
  (∀ node ∈ (s.masters i).nodes[q]?, node.state ≠ .leader) ∧ Stay i q s e

instance (i : Fin n) (q : Int) (s : Servers n) : (e : ServersEvent n) → Decidable (Stay i q s e)
  | .clientMessage j clientId _ =>
    inferInstanceAs (Decidable (j = i → (s.masters i).clientManager.clientSessions[clientId]? = some true))
  | .removeSession j clientId =>
    inferInstanceAs (Decidable (j = i → clientId ∉ (s.masters i).clientManager.consumers q))
  | .callback .. | .deliver .. | .lose _ | .runPosted .. | .acceptNewConnection .. =>
    inferInstanceAs (Decidable True)

instance (i : Fin n) (q : Int) (s : Servers n) (e : ServersEvent n) : Decidable (Attended i q s e) :=
  inferInstanceAs (Decidable (_ ∧ _))

structure Served (i : Fin n) (q : Int) (asked : List Int) (s : Servers n) : Prop where
  consumers : (s.masters i).clientManager.consumers q = asked
  connected : ∀ c ∈ asked, (s.masters i).clientManager.Connected c
  count : (s.masters i).clientManager.count q = (s.sent i q).length
  order : (s.sent i q).map Prod.fst <+: asked
  refusals : ∀ x ∈ s.sent i q, x.2.IsRefusal
  waiting : (s.sent i q).length + (s.waiting i q).length = asked.length

section
variable {s s' : Servers n} {i j : Fin n} {p q : Int} {asked : List Int} {P : Process} {net : List (Frame n)}

theorem Served.quiet (h : Served i q asked s)
    (hconsumers : (s'.masters i).clientManager.consumers q = (s.masters i).clientManager.consumers q)
    (hconnected : ∀ c ∈ asked, (s.masters i).clientManager.Connected c →
      (s'.masters i).clientManager.Connected c)
    (hcount : (s'.masters i).clientManager.count q = (s.masters i).clientManager.count q)
    (hsent : s'.sent i q = s.sent i q) (hwaiting : (s'.waiting i q).length = (s.waiting i q).length) :
    Served i q asked s' where
  consumers := hconsumers.trans h.consumers
  connected := fun c hc => hconnected c hc (h.connected c hc)
  count := by rw [hcount, hsent, h.count]
  order := hsent ▸ h.order
  refusals := hsent ▸ h.refusals
  waiting := by rw [hsent, hwaiting, h.waiting]

theorem Acts.sent (ha : Acts s j p P net s') :
    s'.sent i q = s.sent i q ++ if j = i ∧ p = q then P.out.filterMap Effect.toClient else [] := by
  simp only [Servers.sent, ha.history, List.filterMap_append, List.filterMap_map]
  congr 1
  split
  · rename_i h
    exact List.filterMap_congr fun e _ => if_pos h
  · rename_i h
    exact List.filterMap_eq_nil_iff.mpr fun e _ => if_neg h

theorem Acts.waiting (ha : Acts s j p P net s') : s'.waiting i q = s.waiting i q := by
  rw [Servers.waiting, ha.posted]; rfl

theorem DeliversFor.keeps {m m' : ClientManager × List ServerNode} (h : DeliversFor p m m') (hpq : p ≠ q) :
    m'.1.consumers q = m.1.consumers q ∧ (∀ c, m'.1.Connected c ↔ m.1.Connected c) ∧
    m'.1.count q = m.1.count q := by
  induction h with
  | refl => exact ⟨rfl, fun _ => Iff.rfl, rfl⟩
  | tail _ hstep ih =>
    rename_i m₁ m₂ _
    subst hstep
    have hkeep := ClientManager.deliver_keeps (ClientManager.deliverOneMessageRoundRobin_spec m₁.1 p)
    exact ⟨(ClientManager.consumers_congr hkeep.1 q).trans ih.1, fun c => (hkeep.2 c).trans (ih.2.1 c),
      (ClientManager.count_deliver_of_ne m₁.1 hpq).trans ih.2.2⟩

theorem Served.actOther (h : Served i q asked s) (hne : ¬ (j = i ∧ p = q)) (ha : Acts s j p P net s')
    (hd : ∃ nodes, DeliversFor p ((s.masters j).clientManager, nodes) P.shared) : Served i q asked s' := by
  have hsent : s'.sent i q = s.sent i q := by rw [ha.sent, if_neg hne, List.append_nil]
  have hwaiting := congrArg List.length (ha.waiting (i := i) (q := q))
  by_cases hj : i = j
  · subst hj
    obtain ⟨nodes, hd⟩ := hd
    obtain ⟨hconsumers, hconnected, hcount⟩ := DeliversFor.keeps (q := q) hd fun hpq => hne ⟨rfl, hpq⟩
    have hself : (s'.masters i).clientManager = P.clients := by rw [ha.self]
    exact h.quiet (hself ▸ hconsumers) (fun c _ => hself ▸ (hconnected c).mpr) (hself ▸ hcount) hsent hwaiting
  · have hsame := ha.others i hj
    exact h.quiet (hsame ▸ rfl) (fun c _ => hsame ▸ id) (hsame ▸ rfl) hsent hwaiting

theorem Served.actQuiet (h : Served i q asked s) (ha : Acts s i q P net s')
    (hout : P.out.filterMap Effect.toClient = []) (hclients : P.clients = (s.masters i).clientManager) :
    Served i q asked s' := by
  have hself : (s'.masters i).clientManager = (s.masters i).clientManager := by rw [ha.self, hclients]
  refine h.quiet (hself ▸ rfl) (fun c _ => hself ▸ id) (hself ▸ rfl) ?_ (congrArg List.length ha.waiting)
  rw [ha.sent, if_pos ⟨rfl, rfl⟩, hout, List.append_nil]

/-- A request waits, so there is a consumer that was not answered, and the counter is at the first such. -/
theorem Served.actAnswer (h : Served i q asked s) (hlen : asked.length < 2 ^ 31) {t : Servers n}
    (hhistory : t.history = s.history)
    (hwaiting : (s.waiting i q).length = (t.waiting i q).length + 1) {node : ClusterNode}
    (hq : node.partitionId = q) (hstate : node.state ≠ .leader)
    (ha : Acts t i q ((s.masters i).process node).clientOpenQueue net s') : Served i q asked s' := by
  have hlt : (s.sent i q).length < asked.length := by
    have := h.waiting
    omega
  have hids : (s.masters i).clientManager.consumerClientIdArray[q]? = some asked := by
    have hconsumers := h.consumers
    rw [ClientManager.consumers, ExtTreeMap.getD_eq_getD_getElem?] at hconsumers
    cases hget : (s.masters i).clientManager.consumerClientIdArray[q]? with
    | none =>
      rw [hget] at hconsumers
      rw [← hconsumers] at hlt
      exact absurd hlt (Nat.not_lt_zero _)
    | some ids => rw [← hconsumers, hget, Option.getD_some]
  have hnext : asked[(s.sent i q).length % asked.length]? = some (asked.get ⟨_, hlt⟩) := by
    rw [Nat.mod_eq_of_lt hlt]
    exact List.getElem?_eq_getElem hlt
  have hcon := h.connected _ (List.get_mem asked ⟨_, hlt⟩)
  subst hq
  obtain ⟨hclients, msg, hout, hrefusal⟩ :=
    Process.clientOpenQueue_follower (p := (s.masters i).process node) hstate rfl hids
    h.count (hlt.trans hlen) hnext hcon
  have hcount := (ClientManager.deliver_eq hids h.count (hlt.trans hlen) hnext hcon).2.2
  have hkeep := ClientManager.deliver_keeps
    (ClientManager.deliverOneMessageRoundRobin_spec (s.masters i).clientManager node.partitionId)
  have hself : (s'.masters i).clientManager =
      ((s.masters i).clientManager.deliverOneMessageRoundRobin node.partitionId).manager := by
    rw [ha.self]
    exact hclients
  have hsent : s'.sent i node.partitionId = s.sent i node.partitionId ++ [(asked.get ⟨_, hlt⟩, msg)] := by
    rw [ha.sent, if_pos ⟨rfl, rfl⟩, hout]
    simp only [Servers.sent, hhistory]
    rfl
  refine ⟨?_, ?_, ?_, ?_, ?_, ?_⟩
  · rw [hself, ClientManager.consumers_congr hkeep.1]
    exact h.consumers
  · exact fun c hc => hself ▸ (hkeep.2 c).mpr (h.connected c hc)
  · rw [hself, hsent, hcount, List.length_append, List.length_singleton, Nat.cast_succ]
  · rw [hsent, List.map_append, List.map_singleton]
    simpa using List.concat_get_prefix h.order (by rwa [List.length_map])
  · rw [hsent]
    exact fun x hx => (List.mem_append.mp hx).elim (h.refusals x) fun hx =>
      List.mem_singleton.mp hx ▸ hrefusal
  · rw [hsent, ha.waiting, List.length_append, List.length_singleton, ← h.waiting, hwaiting]
    omega

theorem Served.setClients (h : Served i q asked s) {m : ClientManager}
    (hm : j = i → m.consumers q = (s.masters i).clientManager.consumers q ∧
      (∀ c ∈ asked, (s.masters i).clientManager.Connected c → m.Connected c) ∧
      m.count q = (s.masters i).clientManager.count q) :
    Served i q asked (s.setClients j m) := by
  by_cases hj : i = j
  · subst hj
    obtain ⟨hconsumers, hconnected, hcount⟩ := hm rfl
    have hself : ((s.setClients i m).masters i).clientManager = m := by rw [setClients_self]
    refine h.quiet ?_ ?_ ?_ rfl rfl <;> rw [hself]
    · exact hconsumers
    · exact hconnected
    · exact hcount
  · have hsame : (s.setClients j m).masters i = s.masters i := setClients_other m hj
    exact h.quiet (hsame ▸ rfl) (fun c _ => hsame ▸ id) (hsame ▸ rfl) rfl rfl

theorem post_spec {body : Bytes} (h : s.post j body = some s') :
    s' = { s with posted := s.posted ++ [(j, body)] } := by
  unfold post at h
  split at h
  · exact (Option.some.inj h).symm
  · cases h

theorem waiting_append (s : Servers n) (body : Bytes) :
    { s with posted := s.posted ++ [(j, body)] }.waiting i q =
      s.waiting i q ++ if j = i ∧ IsOpening q body then [body] else [] := by
  simp only [Servers.waiting, List.filterMap_append, List.filterMap_cons, List.filterMap_nil]
  split <;> split <;> simp_all

theorem Served.post (h : Served i q asked s) {body : Bytes} (hne : ¬ (j = i ∧ IsOpening q body))
    (hs : s.post j body = some s') : Served i q asked s' := by
  rw [post_spec hs]
  refine h.quiet rfl (fun c _ => id) rfl rfl ?_
  rw [waiting_append, if_neg hne, List.append_nil]

theorem Served.ask (h : Served i q asked s) {c : Int} {body : Bytes} (hopen : IsOpening q body)
    (hc : (s.masters i).clientManager.Connected c)
    (hs : (s.setClients i ((s.masters i).clientManager.registerConsumer q c)).post i body = some s') :
    Served i q (asked ++ [c]) s' := by
  have hself : (s'.masters i).clientManager = (s.masters i).clientManager.registerConsumer q c := by
    rw [post_spec hs]
    exact congrArg _ (setClients_self _)
  have hsent : s'.sent i q = s.sent i q := by
    rw [post_spec hs]
    rfl
  refine ⟨?_, ?_, ?_, ?_, hsent ▸ h.refusals, ?_⟩
  · rw [hself, ClientManager.consumers_register, if_pos rfl, h.consumers]
  · intro c' hc'
    rw [hself]
    rcases List.mem_append.mp hc' with hc' | hc'
    · exact h.connected c' hc'
    · exact List.mem_singleton.mp hc' ▸ hc
  · rw [hself, hsent]
    exact h.count
  · rw [hsent]
    exact h.order.trans (List.prefix_append asked [c])
  · have hwaiting : s'.waiting i q = s.waiting i q ++ [body] := by
      rw [post_spec hs, waiting_append, if_pos ⟨rfl, hopen⟩]
      rfl
    rw [hsent, hwaiting, List.length_append, List.length_append, ← h.waiting]
    rfl

theorem Served.clientMessage {c : Channel} {clientId : Int} {body : Bytes} (h : Served i q asked s)
    (hs : s.step c (.clientMessage j clientId body) = some s')
    (hstay : Stay i q s (.clientMessage j clientId body)) :
    Served i q (asked ++ (asks i q (.clientMessage j clientId body)).toList) s' := by
  simp only [Servers.step] at hs
  split at hs
  swap
  · cases hs
  by_cases hask : j = i ∧ IsOpening q body
  · rw [asks, if_pos hask, Option.toList_some]
    obtain ⟨rfl, hopen⟩ := hask
    simp only [handleMessage, hopen.1, hopen.2] at hs
    exact h.ask hopen (hstay rfl) hs
  · rw [asks, if_neg hask, Option.toList_none, List.append_nil]
    simp only [handleMessage] at hs
    split at hs
    · rename_i hty
      refine Served.post (h.setClients fun hj => ?_) hask hs
      have hother : (FlowProto.deserialize body).partition ≠ q := fun hq => hask ⟨hj, hty, hq⟩
      rw [hj, ClientManager.consumers_register, if_neg hother]
      exact ⟨rfl, fun c _ => id, rfl⟩
    · exact h.post hask hs
    · exact h.post hask hs
    · cases hs

end

theorem Inv.partitionId_eq {s : Servers n} {base : Int → Cluster n} {partitions : List Int} {c : Channel}
    {B : Nat} {b : Int} (h : Inv base partitions c B b s) {j : Fin n} {p : Int} {node : ClusterNode}
    (hnode : (s.masters j).nodes[p]? = some node) : node.partitionId = p := by
  obtain ⟨k, hk⟩ := h.standsFor p (h.keys j p (ExtTreeMap.mem_iff_isSome_getElem?.mpr (hnode ▸ rfl)))
  have hsame : (k.procs j).toClusterNode = node := Option.some.inj ((hk.refines.node j).symm.trans hnode)
  rw [← hsame]
  exact hk.partitionId j

theorem Served.unasked {s : Servers n} {i : Fin n} {q : Int} {asked : List Int} (h : Served i q asked s)
    {e : ServersEvent n} (he : asks i q e = none) : Served i q (asked ++ (asks i q e).toList) s := by
  rwa [he, Option.toList_none, List.append_nil]

theorem raftMessage_eq_clientOpenQueue (m : FlowProto) :
    m.raftMessage = some .clientOpenQueue ↔ m.messageType = .clientOpenQueue := by
  unfold FlowProto.raftMessage
  cases m.messageType <;> simp

section
variable {s s' : Servers n} {i j : Fin n} {p q : Int} {asked : List Int} {net : List (Frame n)}
  {base : Int → Cluster n} {partitions : List Int} {c : Channel} {B : Nat} {b : Int} (h : Served i q asked s)
  (hinv : Inv base partitions c B b s) (hstate : ∀ node ∈ (s.masters i).nodes[q]?, node.state ≠ .leader)
include h hinv hstate

theorem Served.act {f : Process → Process} (hs : s.act j p f net = some s')
    (hf : ∀ P : Process, P.partitionId = p → DeliversFor p P.shared (f P).shared)
    (hquiet : j = i → p = q → ∀ P : Process, P.state ≠ .leader → (f P).shown = P.shown) :
    Served i q asked s' := by
  obtain ⟨node, hnode, ha⟩ := acts_of_act hs
  by_cases hself : j = i ∧ p = q
  · obtain ⟨rfl, rfl⟩ := hself
    obtain ⟨hout, hclients⟩ :=
      Process.out_of_shown (hquiet rfl rfl ((s.masters j).process node) (hstate node hnode)) rfl
    exact h.actQuiet ha hout hclients
  · exact h.actOther hself ha ⟨_, hf ((s.masters j).process node) (hinv.partitionId_eq hnode)⟩

theorem Served.deliver {k : Nat} {now : Int} (hs : s.step c (.deliver k now) = some s') :
    Served i q asked s' := by
  simp only [Servers.step] at hs
  split at hs
  · cases hs
  · rename_i fr hfr
    split at hs
    · cases hs
    · obtain ⟨p, hp, pk, hpk⟩ := hinv.frames fr (List.mem_of_getElem? hfr)
      obtain ⟨cluster, hcluster⟩ := hinv.standsFor p hp
      have hfrom := hcluster.given.net pk
        (hcluster.refines.net ▸ List.mem_filterMap.mpr ⟨fr, List.mem_of_getElem? hfr, hpk⟩)
      obtain ⟨hpart, msg, hmsg, rfl⟩ := packet_spec.mp hpk
      rw [messageHandler, hmsg, hpart] at hs
      refine h.act hinv hstate hs (fun P hP => Process.localMessageHandler_shared now 0 msg hP) fun _ _ P hP => ?_
      -- nodes do not send each other requests of clients
      exact Process.localMessageHandler_shown hP now 0 fun hopen => by
        rw [hopen] at hfrom
        exact hfrom

theorem Served.runPosted (hlen : asked.length < 2 ^ 31) {k : Nat} {randomId : Int}
    (hs : s.step c (.runPosted k randomId) = some s') : Served i q asked s' := by
  simp only [Servers.step] at hs
  split at hs
  · cases hs
  · rename_i j body hbody
    split at hs
    · rename_i hcond
      obtain ⟨_, msg, hmsg, -⟩ := (hinv.posted _ (List.mem_of_getElem? hbody)).1.input hcond.2
      rw [messageHandler, hmsg] at hs
      obtain ⟨hold, hnew⟩ := filterMap_eraseIdx
        (f := fun x : Fin n × Bytes => if x.1 = i ∧ IsOpening q x.2 then some x.2 else none) hbody
      by_cases hask : j = i ∧ IsOpening q body
      · obtain ⟨rfl, hopen⟩ := hask
        obtain rfl : msg = .clientOpenQueue := by
          rw [(raftMessage_eq_clientOpenQueue _).mpr hopen.1] at hmsg
          exact (Option.some.inj hmsg).symm
        rw [hopen.2] at hs
        obtain ⟨node, hnode, ha⟩ := acts_of_act hs
        refine h.actAnswer (t := { s with posted := s.posted.eraseIdx k }) hlen rfl ?_
          (hinv.partitionId_eq hnode) (hstate node hnode) ha
        rw [if_pos ⟨rfl, hopen⟩, Option.toList_some] at hold
        rw [show s.waiting j q = _ from hold,
          show Servers.waiting { s with posted := s.posted.eraseIdx k } j q = _ from hnew]
        simp only [List.length_append, List.length_singleton]
        omega
      · have h' : Served i q asked { s with posted := s.posted.eraseIdx k } := by
          refine h.quiet rfl (fun c _ => id) rfl rfl (congrArg List.length ?_)
          simp only [Servers.waiting, hold, hnew, if_neg hask, Option.toList_none, List.nil_append]
        refine h'.act (hinv.posted_subset fun _ => List.mem_of_mem_eraseIdx) hstate hs
          (fun P hP => Process.localMessageHandler_shared 0 randomId msg hP) fun hj hp P hP => ?_
        exact Process.localMessageHandler_shown hP 0 randomId fun hopen =>
          hask ⟨hj, (raftMessage_eq_clientOpenQueue _).mp (hopen ▸ hmsg), hp⟩
    · cases hs

theorem Served.step (hlen : asked.length < 2 ^ 31) {e : ServersEvent n} (hstay : Stay i q s e)
    (hs : s.step c e = some s') :
    Served i q (asked ++ (asks i q e).toList) s' := by
  cases e with
  | clientMessage j clientId body => exact h.clientMessage hs hstay
  | callback j p cb =>
    refine Served.unasked ?_ rfl
    simp only [Servers.step] at hs
    split at hs
    · cases hs
    · split at hs
      · exact h.act hinv hstate hs (fun P hP => Process.callback_shared cb hP) fun _ _ P hP =>
          Process.callback_shown hP cb
      · cases hs
  | deliver k now => exact (h.deliver hinv hstate hs).unasked rfl
  | lose k =>
    refine Served.unasked ?_ rfl
    simp only [Servers.step] at hs
    split at hs
    · cases hs
      exact { h with }
    · cases hs
  | runPosted k randomId => exact (h.runPosted hinv hstate hlen hs).unasked rfl
  | acceptNewConnection j id =>
    cases hs
    refine Served.unasked (h.setClients fun hj => ?_) rfl
    exact hj ▸ ⟨rfl, fun c _ hc => (ClientManager.connected_accept ..).mpr (.inr hc), rfl⟩
  | removeSession j id =>
    cases hs
    refine Served.unasked (h.setClients fun hj => ?_) rfl
    have hleft : id ∉ (s.masters i).clientManager.consumers q := hstay hj
    rw [hj, ClientManager.consumers_remove, List.erase_of_not_mem hleft]
    refine ⟨rfl, fun c hc hcon => (ClientManager.connected_remove ..).mpr ⟨?_, hcon⟩, rfl⟩
    rintro rfl
    exact hleft (h.consumers ▸ hc)

end

theorem served_starts {partitions : List Int} {s : Servers n} (h : Starts partitions s) (i : Fin n)
    (q : Int) : Served i q [] s := by
  obtain ⟨-, -, serverNodes, garbage, rfl⟩ := h
  exact ⟨rfl, List.forall_mem_nil _, rfl, List.nil_prefix, List.forall_mem_nil _, rfl⟩

/-- Where the node does not lead and consumers stay, clients that open the partition are refused in the order
they asked in, each once, and the node writes nothing else to clients. -/
theorem refused_in_order {partitions : List Int} {c : Channel} (r : Execution n partitions c)
    (hlen : n + 1 + r.length < 2 ^ 31) (i : Fin n) (q : Int) (hr : r.Always (Attended i q)) :
    ∀ k ≤ r.length,
      ((r.states k).sent i q).map Prod.fst <+: asked r i q k ∧ (∀ x ∈ (r.states k).sent i q, x.2.IsRefusal) ∧
        ((r.states k).sent i q).length + ((r.states k).waiting i q).length = (asked r i q k).length := by
  obtain ⟨base, hinv⟩ := inv_run r (always_brief r) hlen
  have hserved : ∀ k ≤ r.length, Served i q (asked r i q k) (r.states k) := by
    apply r.induct (P := fun k => Served i q (asked r i q k) (r.states k))
    · exact served_starts r.starts i q
    · intro k hk ih
      have hshort : (asked r i q k).length ≤ k := (List.length_filterMap_le _ _).trans (by simp)
      have hnext := ih.step (hinv k hk.le) (hr k hk).1 (by omega) (hr k hk).2 (r.steps k hk)
      rwa [asked, List.range_succ, List.map_append, List.filterMap_append, List.map_singleton, List.filterMap_cons,
        List.filterMap_nil]
  exact fun k hk => ⟨(hserved k hk).order, (hserved k hk).refusals, (hserved k hk).waiting⟩

def opening : Bytes := ((RaftMessage.load ⟨0, []⟩ .clientOpenQueue).setPartitionId 0).serialize

def twoAsk : List (ServersEvent 3) :=
  [.acceptNewConnection 1 5, .acceptNewConnection 1 6, .clientMessage 1 5 opening, .clientMessage 1 6 opening,
    .runPosted 0 0, .runPosted 0 0]

theorem twoAsk_isSome :
    (Runs.exec (Runs.guarded (Attended 1 0) (step .fifo)) (init 3 [0] [] fun _ _ => ⟨0, 0⟩)
      twoAsk).isSome := by
  decide +kernel

theorem refused_in_order_twoAsk : ∃ r : Execution 3 [0] .fifo, r.length = 6 ∧ asked r 1 0 6 = [5, 6] ∧
    ((r.states 6).sent 1 0).map Prod.fst <+: asked r 1 0 6 ∧
      ((r.states 6).sent 1 0).length + ((r.states 6).waiting 1 0).length = (asked r 1 0 6).length := by
  let r : Execution 3 [0] .fifo :=
    .ofEvents (init 3 [0] [] fun _ _ => ⟨0, 0⟩) ⟨by decide, by decide, _, _, rfl⟩ twoAsk
      (Runs.isSome_of_guarded twoAsk_isSome)
  have h := refused_in_order r (by decide) 1 0 (Runs.Run.ofEvents_always twoAsk_isSome) 6 le_rfl
  exact ⟨r, rfl, by decide +kernel, h.1, h.2.2⟩

-- once the first client has left, the answer for client 7 goes to client 6, which has one already
example : ((Runs.exec (step .fifo) (init 3 [0] [] fun _ _ => ⟨0, 0⟩)
      (twoAsk ++ [.acceptNewConnection 1 7, .removeSession 1 5, .clientMessage 1 7 opening, .runPosted 0 0])).map
    fun s : Servers 3 => (s.sent 1 0).map Prod.fst) = some [5, 6, 6] := by decide +kernel

end Servers

end FlowMQ
