import FlowMQ.LogShape

/-!
# The replication window

`pending_append_reqs_` counts the append requests to a follower that have not
been answered. Sending a request raises it, handling an answer lowers it, and
nothing else changes it: in particular it stays as it is when a request or its
answer is lost.
-/

namespace FlowMQ

open Std (ExtTreeMap)

def RaftMessage.isAppendRequest : RaftMessage → Bool
  | .appendEntriesRequest _ => true
  | _ => false

def RaftMessage.isAppendResponse : RaftMessage → Bool
  | .appendEntriesResponse _ => true
  | _ => false

def Effect.sendsTo (K : RaftMessage → Bool) (j : Int) : Effect → Bool
  | .writeMessage dst m => K m && dst = j
  | .broadCast m => K m
  | _ => false

theorem Effect.isSend_of_sendsTo {K : RaftMessage → Bool} {j : Int} {e : Effect} (h : e.sendsTo K j = true) :
    e.isSend = true := by
  cases e with
  | writeMessage dst m => rfl
  | broadCast m => rfl
  | _ => cases h

theorem countP_sends (K : RaftMessage → Bool) (j : Int) (out : List Effect) :
    (sends out).countP (Effect.sendsTo K j) = out.countP (Effect.sendsTo K j) := by
  rw [sends, List.countP_filter]
  refine List.countP_congr fun e _ => ?_
  rw [Bool.and_eq_true, and_iff_left_iff_imp]
  exact Effect.isSend_of_sendsTo

/-! ## What a handler adds to the window -/

namespace Process

def credit (j : Int) (p : Process) : Int :=
  p.pendingAppendReqs.getD j 0 - (p.out.filter (Effect.sendsTo RaftMessage.isAppendRequest j)).length

theorem credit_eq {j : Int} {p p' : Process} (hp : p'.pendingAppendReqs = p.pendingAppendReqs)
    (ho : p'.out.filter (Effect.sendsTo RaftMessage.isAppendRequest j) =
      p.out.filter (Effect.sendsTo RaftMessage.isAppendRequest j)) : p'.credit j = p.credit j := by
  unfold credit
  rw [hp, ho]

theorem credit_triggerEntryUpdate (j f : Int) (p : Process) :
    (p.triggerEntryUpdate f).credit j = p.credit j := by
  unfold triggerEntryUpdate
  simp only
  split
  · split
    · simp only [credit, emit_raft, emit_out, List.filter_append, List.length_append, ExtTreeMap.getD_insert]
      by_cases hf : f = j
      · subst hf
        simp [Effect.sendsTo, RaftMessage.isAppendRequest]
      · simp [Effect.sendsTo, hf]
    · rw [credit, credit, Maps.getD_insertIfNew_default]
  · rfl

theorem credit_triggerEntryUpdates (j : Int) : ∀ (fs : List Int) (p : Process),
    (fs.foldl (fun p f => p.triggerEntryUpdate f) p).credit j = p.credit j
  | [], _ => rfl
  | f :: fs, p => by rw [List.foldl_cons, credit_triggerEntryUpdates j fs, credit_triggerEntryUpdate]

theorem credit_addLogEntry (j : Int) (e : LogEntry) (p : Process) : (p.addLogEntry e).credit j = p.credit j :=
  credit_triggerEntryUpdates j _ _

theorem getD_foldl_insert (j : Int) : ∀ (is : List Nat) (m : IndexMap), is.Nodup →
    (is.foldl (fun m (i : Nat) => m.insert (i : Int) (m.getD (i : Int) 0 + 1)) m).getD j 0 =
      m.getD j 0 + if j ∈ is.map Nat.cast then 1 else 0
  | [], _, _ => by simp
  | i :: is, m, h => by
    obtain ⟨hi, his⟩ := List.nodup_cons.mp h
    rw [List.foldl_cons, getD_foldl_insert j is _ his, ExtTreeMap.getD_insert]
    by_cases hij : (i : Int) = j
    · subst hij
      simp [hi]
    · have hji : j ≠ i := Ne.symm hij
      simp [hij, hji]

theorem credit_heartbeatTimer {j : Nat} (p : Process) (hj : (j : Int) < p.totalNodes)
    (hne : (j : Int) ≠ p.nodeId) :
    p.heartbeatTimer.credit j = p.credit j := by
  unfold heartbeatTimer
  split
  · let others := (List.range p.totalNodes.toNat).filter fun i : Nat => (i : Int) ≠ p.nodeId
    have hnodup : others.Nodup := List.nodup_range.filter _
    have hmem : j ∈ others := by
      simp only [others, List.mem_filter, List.mem_range, decide_eq_true_eq]
      exact ⟨by omega, hne⟩
    have hget := getD_foldl_insert j others p.pendingAppendReqs hnodup
    rw [if_pos (List.mem_map_of_mem hmem)] at hget
    have hsent : ∀ q, ([Effect.broadCast (.appendEntriesRequest q)].filter
        (Effect.sendsTo RaftMessage.isAppendRequest j)).length = 1 := fun _ => rfl
    simp only [credit, emit_out, List.filter_append, List.length_append, hsent]
    rw [hget]
    push_cast
    omega
  · rfl

theorem credit_requestVoteRequest (j : Int) (q : RequestVoteRequest) (p : Process) :
    (p.requestVoteRequest q).credit j = p.credit j := by
  have hreply : ∀ (p : Process) (granted : Int), (p.replyVote q.candidateId q.term granted).credit j = p.credit j :=
    fun p granted => credit_eq rfl (by simp [replyVote, Effect.sendsTo, RaftMessage.isAppendRequest])
  unfold requestVoteRequest
  split
  · exact hreply p 0
  · simp only
    split <;> split <;> first | rfl | exact hreply _ 1

theorem credit_requestVoteResponse (j : Int) (q : RequestVoteResponse) (p : Process) :
    (p.requestVoteResponse q).credit j = p.credit j := by
  unfold requestVoteResponse
  split
  · rfl
  split
  · rfl
  split
  · rfl
  split
  · rfl
  simp only
  split <;> split <;> rfl

theorem credit_clientPutMessage (j randomId : Int) (m : Bytes) (p : Process) :
    (p.clientPutMessage randomId m).credit j = p.credit j := by
  unfold clientPutMessage
  split
  · rfl
  · exact credit_addLogEntry j _ p

theorem credit_clientCommitMessage (j id : Int) (p : Process) :
    (p.clientCommitMessage id).credit j = p.credit j := by
  unfold clientCommitMessage
  split
  · rfl
  · exact credit_addLogEntry j _ p

theorem credit_triggerMessageDelivery (j : Int) (p : Process) :
    p.triggerMessageDelivery.credit j = p.credit j :=
  credit_eq (by rw [triggerMessageDelivery_raft]) (triggerMessageDelivery_filter (fun _ _ _ => rfl) p)

theorem credit_deliverToClient (j : Int) (msg : RaftMessage) (p : Process) :
    (p.deliverToClient msg).2.credit j = p.credit j :=
  credit_eq (by rw [deliverToClient_raft]) (deliverToClient_filter (fun _ _ _ => rfl) msg p)

theorem credit_clientOpenQueue (j : Int) (p : Process) : p.clientOpenQueue.credit j = p.credit j := by
  unfold clientOpenQueue
  split
  · exact credit_deliverToClient ..
  · rw [credit_triggerMessageDelivery, credit_deliverToClient]

theorem credit_advanceCommit (j target stop : Int) (p : Process) :
    (p.advanceCommit target stop).credit j = p.credit j :=
  credit_eq (by rw [advanceCommit_raft])
    (advanceCommit_filter (fun _ _ _ => rfl) (fun _ _ => rfl) (fun _ _ _ _ => rfl) target stop p)

theorem credit_appendEntriesRequest (j now : Int) (q : AppendEntriesRequest) (p : Process) :
    (p.appendEntriesRequest now q).credit j = p.credit j := by
  have hreply : ∀ (p : Process) (success last : Int),
      (p.replyAppend q.leaderId success last).credit j = p.credit j :=
    fun p success last => credit_eq rfl (by simp [replyAppend, Effect.sendsTo, RaftMessage.isAppendRequest])
  have hcommit : ∀ p : Process, (p.updateLeaderCommit q.leaderCommit).credit j = p.credit j := by
    intro p
    unfold updateLeaderCommit
    split
    · exact credit_advanceCommit ..
    · rfl
  have happend : ∀ p : Process, (p.appendLogEntries q.prevLogIndex q.entries).credit j = p.credit j :=
    fun p =>
    credit_eq (by rw [appendLogEntries_raft]) (appendLogEntries_filter (fun _ _ => rfl) _ _ p)
  unfold appendEntriesRequest
  split
  · exact hreply _ 0 (-1)
  · simp only
    split
    · exact hreply _ 0 (-1)
    · rw [hreply, happend, hcommit]
      rfl

theorem credit_appendEntriesResponse (j : Int) (q : AppendEntriesResponse) (p : Process) :
    (p.appendEntriesResponse q).credit j =
      p.credit j - if q.followerId = j then min 1 (p.pendingAppendReqs.getD j 0) else 0 := by
  let p₁ : Process := { p with
    pendingAppendReqs :=
      p.pendingAppendReqs.insert q.followerId (max 0 (p.pendingAppendReqs.getD q.followerId 0 - 1)) }
  have hlower : p₁.credit j = p.credit j - if q.followerId = j then min 1 (p.pendingAppendReqs.getD j 0)
      else 0 := by
    simp only [credit, p₁, ExtTreeMap.getD_insert]
    by_cases hj : q.followerId = j
    · subst hj
      simp
      omega
    · simp [hj]
  have hcommit : ∀ p : Process, (p.commitOnMajority q.lastIndexSynced).credit j = p.credit j := by
    intro p
    unfold commitOnMajority
    split
    · split
      · exact credit_advanceCommit ..
      · rfl
    · rfl
  unfold appendEntriesResponse
  simp only
  rw [credit_triggerEntryUpdate, ← hlower]
  split
  · exact hcommit { p₁ with matchedIndex := _ }
  · split <;> rfl

end Process

def RaftState.settled (r : RaftState) (j : Int) : Option RaftMessage → Int
  | some (.appendEntriesResponse q) => if q.followerId = j then min 1 (r.pendingAppendReqs.getD j 0) else 0
  | _ => 0

namespace Process

theorem credit_localMessageHandler (j now randomId : Int) (msg : RaftMessage) (p : Process) :
    (p.localMessageHandler now randomId msg).credit j = p.credit j - p.toRaftState.settled j (some msg) := by
  cases msg with
  | appendEntriesResponse q => exact credit_appendEntriesResponse j q p
  | appendEntriesRequest q => exact (credit_appendEntriesRequest j now q p).trans (sub_zero _).symm
  | requestVoteRequest q => exact (credit_requestVoteRequest j q p).trans (sub_zero _).symm
  | requestVoteResponse q => exact (credit_requestVoteResponse j q p).trans (sub_zero _).symm
  | clientPutMessage m => exact (credit_clientPutMessage j randomId m p).trans (sub_zero _).symm
  | clientCommitMessage id => exact (credit_clientCommitMessage j id p).trans (sub_zero _).symm
  | clientOpenQueue => exact (credit_clientOpenQueue j p).trans (sub_zero _).symm
  | clientOpenQueueResponse m => exact (sub_zero _).symm
  | serverSendMessage id m => exact (sub_zero _).symm

theorem credit_handle {j : Nat} (inp : Input) (p : Process) (hj : (j : Int) < p.totalNodes)
    (hne : (j : Int) ≠ p.nodeId) : (p.handle inp).credit j = p.credit j := by
  cases inp with
  | voteTimer now =>
    simp only [handle, voteTimer]
    split <;> split <;> rfl
  | voteRequestTimer =>
    simp only [handle, voteRequestTimer]
    split
    · rfl
    · exact credit_eq rfl (by simp [Effect.sendsTo, RaftMessage.isAppendRequest])
  | heartbeatTimer => exact credit_heartbeatTimer p hj hne
  | clientPutMessage randomId m => exact credit_clientPutMessage j randomId m p
  | clientCommitMessage id => exact credit_clientCommitMessage j id p
  | clientOpenQueue => exact credit_clientOpenQueue j p
  | consumerDisconnected id => exact credit_triggerMessageDelivery j _
  | _ => rfl

end Process

/-! ## Answers -/

theorem not_sendsTo_entryRequests {r : RaftState} {l : List Effect} (hr : r.EntryRequests l) (j : Int) :
    l.countP (Effect.sendsTo RaftMessage.isAppendResponse j) = 0 := by
  rw [List.countP_eq_zero]
  intro e he
  obtain ⟨dst, i, -, -, rfl⟩ := hr e he
  simp [Effect.sendsTo, RaftMessage.isAppendResponse]

def answersTo (j : Int) : Option RaftMessage → Nat
  | some (.appendEntriesRequest q) => if q.leaderId = j then 1 else 0
  | _ => 0

theorem answersTo_of_not_append {msg : Option RaftMessage} (h : isAppend msg = false) (j : Int) :
    answersTo j msg = 0 := by
  match msg with
  | some (.appendEntriesRequest q) => cases h
  | none => rfl
  | some (.appendEntriesResponse q) => rfl
  | some (.requestVoteRequest q) => rfl
  | some (.requestVoteResponse q) => rfl
  | some (.clientPutMessage m) => rfl
  | some (.clientCommitMessage id) => rfl
  | some .clientOpenQueue => rfl
  | some (.clientOpenQueueResponse m) => rfl
  | some (.serverSendMessage id m) => rfl

theorem Trans.answers {r r' : RaftState} {msg : Option RaftMessage} {l : List Effect}
    (h : Trans r msg r' l) (j : Int) :
    l.countP (Effect.sendsTo RaftMessage.isAppendResponse j) = answersTo j msg := by
  have hanswer : ∀ (i : Int) (q : AppendEntriesResponse),
      [Effect.writeMessage i (.appendEntriesResponse q)].countP
      (Effect.sendsTo RaftMessage.isAppendResponse j) =
        if i = j then 1 else 0 := by
    intro i q
    simp [Effect.sendsTo, RaftMessage.isAppendResponse, List.countP_cons]
  cases h with
  | idle hm => exact (answersTo_of_not_append hm j).symm
  | staleAppend q h => exact hanswer q.leaderId _
  | refuseAppend q now h hs => exact hanswer q.leaderId _
  | acceptAppend q now h hs => exact hanswer q.leaderId _
  | replySuccess q h c hc next pending l hl hr => exact not_sendsTo_entryRequests hr j
  | replyTerm q h ht next pending l hl hr => exact not_sendsTo_entryRequests hr j
  | replyRetry q h ht next pending l hl hr => exact not_sendsTo_entryRequests hr j
  | clientAppend h e hi ht next pending l hr hm =>
    rw [answersTo_of_not_append hm]
    exact not_sendsTo_entryRequests hr j
  | _ => rfl

theorem Trans.answer_id {r r' : RaftState} {msg : Option RaftMessage} {l : List Effect} (h : Trans r msg r' l)
    {q : AppendEntriesResponse} (hq : Carries l (.appendEntriesResponse q)) : q.followerId = r.nodeId := by
  have hentries : ∀ {r : RaftState} {l : List Effect}, r.EntryRequests l →
      ¬ Carries l (.appendEntriesResponse q) := by
    intro r l hr hm
    obtain ⟨-, k, -, he⟩ := hr.carries hm
    cases he
  cases h with
  | staleAppend q' h =>
    cases carries_writeMessage.mp hq
    rfl
  | refuseAppend q' now h hs =>
    cases carries_writeMessage.mp hq
    rfl
  | acceptAppend q' now h hs =>
    cases carries_writeMessage.mp hq
    rfl
  | replySuccess q' h c hc next pending l hl hr => exact absurd hq (hentries hr)
  | replyTerm q' h ht next pending l hl hr => exact absurd hq (hentries hr)
  | replyRetry q' h ht next pending l hl hr => exact absurd hq (hentries hr)
  | clientAppend h e hi ht next pending l hr hm => exact absurd hq (hentries hr)
  | _ => simp at hq

/-! ## The links -/

namespace Cluster

variable {n : Nat}

def onLink (K : RaftMessage → Bool) (a b : Fin n) (pk : Packet n) : Bool :=
  pk.src = a && pk.dst = b && K pk.msg

theorem countP_packets (K : RaftMessage → Bool) {a b i : Fin n} (hab : a ≠ b) (e : Effect) :
    (packets i e).countP (onLink K a b) = if i = a ∧ e.sendsTo K b.val = true then 1 else 0 := by
  by_cases h : i = a ∧ e.sendsTo K b.val = true
  · rw [if_pos h]
    obtain ⟨rfl, hs⟩ := h
    apply le_antisymm
    · refine countP_packets_le (v := b) fun pk _ hpk => ?_
      simp only [onLink, Bool.and_eq_true, decide_eq_true_eq] at hpk
      exact hpk.1.2
    · apply List.countP_pos_iff.mpr
      cases e with
      | writeMessage dst m =>
        simp only [Effect.sendsTo, Bool.and_eq_true, decide_eq_true_eq] at hs
        exact ⟨⟨i, b, m⟩, by simp [packets, hs.2, hab.symm], by simp [onLink, hs.1]⟩
      | broadCast m =>
        exact ⟨⟨i, b, m⟩, by simp [packets, hab.symm], by simpa [onLink, Effect.sendsTo] using hs⟩
      | _ => cases hs
  · rw [if_neg h, List.countP_eq_zero]
    intro pk hpk hl
    apply h
    simp only [onLink, Bool.and_eq_true, decide_eq_true_eq] at hl
    obtain ⟨hsrc, -, he | he⟩ := mem_packets hpk
    · exact ⟨hsrc.symm.trans hl.1.1, by simp [he, Effect.sendsTo, hl.2, hl.1.2]⟩
    · exact ⟨hsrc.symm.trans hl.1.1, by simp [he, Effect.sendsTo, hl.2]⟩

theorem countP_sent (K : RaftMessage → Bool) {a b i : Fin n} (hab : a ≠ b) (out : List Effect) :
    (out.flatMap (packets i)).countP (onLink K a b) = if i = a then out.countP (Effect.sendsTo K b.val) else 0 := by
  induction out with
  | nil => simp
  | cons e out ih =>
    rw [List.flatMap_cons, List.countP_append, countP_packets K hab, ih, List.countP_cons]
    by_cases hi : i = a <;> simp [hi, Nat.add_comm]

def inFlight (net : List (Packet n)) (a b : Fin n) : Nat :=
  net.countP (onLink RaftMessage.isAppendRequest a b) + net.countP (onLink RaftMessage.isAppendResponse b a)

def WindowBounded (s : Cluster n) : Prop :=
  ∀ a b, a ≠ b → (s.raft a).pendingAppendReqs.getD b.val 0 ≤ inFlight s.net a b

def WindowExact (s : Cluster n) : Prop :=
  ∀ a b, a ≠ b → (s.raft a).pendingAppendReqs.getD b.val 0 = inFlight s.net a b

def KeepsAppends (s : Cluster n) : Event n → Prop
  | .lose k => ∀ pk ∈ s.net[k]?, isAppend (some pk.msg) = false
  | _ => True

instance (s : Cluster n) : (e : Event n) → Decidable (s.KeepsAppends e)
  | .lose k => inferInstanceAs (Decidable (∀ pk ∈ s.net[k]?, isAppend (some pk.msg) = false))
  | .input _ _ => inferInstanceAs (Decidable True)
  | .deliver _ _ => inferInstanceAs (Decidable True)
  | .redeliver _ _ => inferInstanceAs (Decidable True)

structure Addressed (s : Cluster n) : Prop where
  ids : ∀ i, (s.raft i).nodeId = i.val ∧ (s.raft i).totalNodes = n
  links : ∀ pk ∈ s.net, pk.src ≠ pk.dst
  request : ∀ pk ∈ s.net, ∀ q, pk.msg = .appendEntriesRequest q → q.leaderId = pk.src.val
  response : ∀ pk ∈ s.net, ∀ q, pk.msg = .appendEntriesResponse q → q.followerId = pk.src.val

theorem addressed_starts {s : Cluster n} (h : Starts s) : Addressed s := by
  obtain ⟨partitionId, serverNodes, garbage, rfl⟩ := h
  have hnet : (init n partitionId serverNodes garbage).net = [] := rfl
  constructor
  · intro i
    rw [raft_init]
    exact ⟨rfl, rfl⟩
  · simp [hnet]
  · simp [hnet]
  · simp [hnet]

theorem Addressed.acts {s s' : Cluster n} {i : Fin n} {msg : Option RaftMessage} {net : List (Packet n)}
    (h : Addressed s) (ha : Acts s i msg net s') (hnet : ∀ pk ∈ net, pk ∈ s.net) : Addressed s' := by
  obtain ⟨hid, htotal⟩ := ha.trans.ids
  have hnode : (s'.raft i).nodeId = i.val := hid.trans (h.ids i).1
  constructor
  · exact ha.forall_raft (P := fun j r => r.nodeId = j.val ∧ r.totalNodes = n) h.ids
      ⟨hnode, htotal.trans (h.ids i).2⟩
  · exact ha.links hnet h.links
  · intro pk hpk q hq
    rcases ha.mem_net hnet hpk with hold | hnew
    · exact h.request pk hold q hq
    · have hc := carries_of_mem hnew
      rw [hq] at hc
      rw [(mem_sent hnew).1, ← hnode]
      rcases (ha.trans.requests hc).1 with rfl | ⟨k, -, rfl⟩
      · rfl
      · rfl
  · intro pk hpk q hq
    rcases ha.mem_net hnet hpk with hold | hnew
    · exact h.response pk hold q hq
    · have hc := carries_of_mem hnew
      rw [hq] at hc
      rw [(mem_sent hnew).1, ha.trans.answer_id hc]
      exact (h.ids i).1

theorem Addressed.step {c : Channel} {s s' : Cluster n} {e : Event n} (h : Addressed s)
    (hs : s.step c e = some s') :
    Addressed s' := by
  cases step_spec hs with
  | @lose k pk l₁ l₂ hnet =>
    have hsub : ∀ pk' ∈ l₁ ++ l₂, pk' ∈ s.net := mem_of_split hnet
    exact ⟨h.ids, fun pk' h' => h.links pk' (hsub pk' h'), fun pk' h' => h.request pk' (hsub pk' h'),
      fun pk' h' => h.response pk' (hsub pk' h')⟩
  | input ha => exact h.acts ha fun _ => id
  | message he hk hl ha => exact h.acts ha hl.subset.2

/-! ## The window along a run -/

theorem inFlight_append (l₁ l₂ : List (Packet n)) (a b : Fin n) :
    inFlight (l₁ ++ l₂) a b = inFlight l₁ a b + inFlight l₂ a b := by
  simp only [inFlight, List.countP_append]
  omega

theorem inFlight_middle (l₁ l₂ : List (Packet n)) (pk : Packet n) (a b : Fin n) :
    inFlight (l₁ ++ pk :: l₂) a b = inFlight (l₁ ++ l₂) a b + inFlight [pk] a b := by
  rw [← List.singleton_append, inFlight_append, inFlight_append, inFlight_append]
  omega

theorem inFlight_single (pk : Packet n) (a b : Fin n) : inFlight [pk] a b =
    (if onLink RaftMessage.isAppendRequest a b pk = true then 1 else 0) +
      if onLink RaftMessage.isAppendResponse b a pk = true then 1 else 0 := by
  simp [inFlight, List.countP_cons]

theorem Acts.window {s : Cluster n} {i : Fin n} {f : Process → Process} {msg : Option RaftMessage}
    {net : List (Packet n)} (ha : Acts s i msg net (s.act i f net))
    (hcredit : ∀ b : Fin n, b ≠ i → (f (s.procs i).clear).credit b.val =
      (s.raft i).pendingAppendReqs.getD b.val 0 - (s.raft i).settled b.val msg) {a b : Fin n} (hab : a ≠ b) :
    ((s.act i f net).raft a).pendingAppendReqs.getD b.val 0 +
      (if a = i then (s.raft i).settled b.val msg else 0)
      + inFlight net a b + (if b = i then answersTo a.val msg else 0) =
    (s.raft a).pendingAppendReqs.getD b.val 0 + inFlight (s.act i f net).net a b := by
  have hsent : inFlight ((sends ((s.act i f net).procs i).out).flatMap (packets i)) a b =
      (if i = a then
        ((s.act i f net).procs i).out.countP (Effect.sendsTo RaftMessage.isAppendRequest b.val) else 0) +
      if i = b then answersTo a.val msg else 0 := by
    rw [inFlight, countP_sent _ hab, countP_sent _ hab.symm, countP_sends, ha.trans.answers]
  rw [ha.net, inFlight_append, hsent]
  by_cases hi : a = i
  · subst hi
    have hc := hcredit b hab.symm
    have hp : (s.act a f net).procs a = f (s.procs a).clear := by simp [act]
    rw [Process.credit, ← List.countP_eq_length_filter, ← hp] at hc
    simp only [if_true, if_neg hab, if_neg hab.symm]
    rw [show ((s.act a f net).raft a) = ((s.act a f net).procs a).toRaftState from rfl]
    push_cast
    omega
  · rw [ha.others a hi]
    by_cases hb : b = i
    · subst hb
      simp only [if_neg hi, if_neg (Ne.symm hi), if_true]
      push_cast
      omega
    · simp [hi, hb, Ne.symm hi, Ne.symm hb]

theorem inFlight_pos {s : Cluster n} {pk : Packet n} (hpk : pk ∈ s.net)
    (hm : pk.msg.isAppendResponse = true) :
    0 < inFlight s.net pk.dst pk.src := by
  have hpos : 0 < s.net.countP (onLink RaftMessage.isAppendResponse pk.src pk.dst) :=
    List.countP_pos_iff.mpr ⟨pk, hpk, by simp [onLink, hm]⟩
  unfold inFlight
  omega

theorem settled_message {s : Cluster n} (h : Addressed s) {pk : Packet n} (hpk : pk ∈ s.net) {a b : Fin n}
    (hab : a ≠ b) (hx : (inFlight s.net a b : Int) ≤ (s.raft a).pendingAppendReqs.getD b.val 0) :
    (if a = pk.dst then (s.raft pk.dst).settled b.val (some pk.msg) else 0) +
      (if b = pk.dst then answersTo a.val (some pk.msg) else 0 : Nat) = inFlight [pk] a b := by
  rw [inFlight_single]
  cases hm : pk.msg with
  | appendEntriesRequest q =>
    have hq := h.request pk hpk q hm
    by_cases hdst : b = pk.dst
    · subst hdst
      simp [RaftState.settled, answersTo, onLink, hm, RaftMessage.isAppendRequest,
        RaftMessage.isAppendResponse, hq, Fin.val_inj]
    · have hdst' : pk.dst ≠ b := Ne.symm hdst
      simp [RaftState.settled, onLink, hm, RaftMessage.isAppendResponse, hdst, hdst']
  | appendEntriesResponse q =>
    have hq := h.response pk hpk q hm
    by_cases hlink : pk.src = b ∧ pk.dst = a
    · obtain ⟨rfl, rfl⟩ := hlink
      -- the count is positive as long as the answer is on its way
      have hpos := inFlight_pos hpk (by rw [hm]; rfl)
      have hmin : min 1 ((s.raft pk.dst).pendingAppendReqs.getD pk.src.val 0) = 1 := by omega
      simp [RaftState.settled, answersTo, onLink, hm, RaftMessage.isAppendRequest,
        RaftMessage.isAppendResponse, hq, hmin]
    · have hs :
          (if a = pk.dst then (s.raft pk.dst).settled b.val (some (.appendEntriesResponse q)) else 0) = 0 := by
        split
        · rename_i hd
          simp only [RaftState.settled, hq]
          rw [if_neg fun hs => hlink ⟨Fin.val_injective (by exact_mod_cast hs), hd.symm⟩]
        · rfl
      rw [hs]
      simp [answersTo, onLink, hm, RaftMessage.isAppendRequest, RaftMessage.isAppendResponse]
      simpa using hlink
  | _ =>
    simp [RaftState.settled, answersTo, onLink, hm, RaftMessage.isAppendRequest, RaftMessage.isAppendResponse]

theorem windowExact_starts {s : Cluster n} (h : Starts s) : WindowExact s := by
  obtain ⟨partitionId, serverNodes, garbage, rfl⟩ := h
  intro a b _
  rw [raft_init]
  rfl

theorem step_lose {c : Channel} {s s' : Cluster n} {k : Nat} (h : s.step c (.lose k) = some s') :
    ∃ pk, s.net[k]? = some pk ∧ s'.raft = s.raft ∧
      ∀ a b, inFlight s.net a b = inFlight s'.net a b + inFlight [pk] a b := by
  simp only [step] at h
  split at h
  · rename_i hk
    cases h
    have hget := List.getElem?_eq_getElem hk
    obtain ⟨hnet, herase⟩ := split_at hget
    refine ⟨_, hget, rfl, fun a b => ?_⟩
    rw [herase, ← inFlight_middle, ← hnet]
  · cases h

theorem inFlight_single_of_not_append {pk : Packet n} (h : isAppend (some pk.msg) = false) (a b : Fin n) :
    inFlight [pk] a b = 0 := by
  rw [inFlight_single]
  cases hm : pk.msg with
  | appendEntriesRequest q => simp [hm, isAppend] at h
  | appendEntriesResponse q => simp [hm, isAppend] at h
  | _ => simp [onLink, hm, RaftMessage.isAppendRequest, RaftMessage.isAppendResponse]

theorem inFlight_single_of_append {pk : Packet n} (h : isAppend (some pk.msg) = true) :
    0 < inFlight [pk] pk.src pk.dst ∨ 0 < inFlight [pk] pk.dst pk.src := by
  simp only [inFlight_single]
  cases hm : pk.msg with
  | appendEntriesRequest q => exact Or.inl (by simp [onLink, hm, RaftMessage.isAppendRequest])
  | appendEntriesResponse q => exact Or.inr (by simp [onLink, hm, RaftMessage.isAppendResponse])
  | _ => simp [hm, isAppend] at h

def loses (a b : Fin n) (s : Cluster n) : Event n → Nat
  | .lose k => (s.net[k]?.map fun pk => inFlight [pk] a b).getD 0
  | _ => 0

theorem loses_of_keepsAppends {s : Cluster n} {e : Event n} (h : s.KeepsAppends e) (a b : Fin n) :
    loses a b s e = 0 := by
  cases e with
  | lose k =>
    cases hk : s.net[k]? with
    | none => simp [loses, hk]
    | some pk => simpa [loses, hk] using inFlight_single_of_not_append (h pk hk) a b
  | _ => rfl

section
variable {c : Channel} (hc : c ≠ .duplicating) {s s' : Cluster n} {e : Event n} (h : Addressed s) {a b : Fin n}
  (hab : a ≠ b) {L : Nat} (hx : (s.raft a).pendingAppendReqs.getD b.val 0 = inFlight s.net a b + L)
  (hstep : s.step c e = some s')
include hc h hab hx hstep

theorem window_step :
    (s'.raft a).pendingAppendReqs.getD b.val 0 = inFlight s'.net a b + (L + loses a b s e : Nat) := by
  cases step_spec hstep with
  | @lose k =>
    obtain ⟨pk, hpk, hraft, hnet⟩ := step_lose hstep
    rw [hraft, hx, hnet]
    simp only [loses, hpk, Option.map_some, Option.getD_some]
    push_cast
    omega
  | @input i inp ha =>
    have hw := ha.window (fun b hb => ?_) hab
    · simp only [RaftState.settled, answersTo, ite_self] at hw
      simp only [loses]
      push_cast
      omega
    · obtain ⟨hid, htotal⟩ := h.ids i
      have hne : (b.val : Int) ≠ (s.procs i).nodeId := by
        rw [show (s.procs i).nodeId = (s.raft i).nodeId from rfl, hid]
        exact_mod_cast fun hv => hb (Fin.val_injective hv)
      have hlt : (b.val : Int) < (s.procs i).totalNodes := by
        rw [show (s.procs i).totalNodes = (s.raft i).totalNodes from rfl, htotal]
        exact_mod_cast b.isLt
      rw [Process.credit_handle inp (s.procs i).clear hlt hne]
      simp [Process.credit, Process.clear, raft, RaftState.settled]
  | @message e k now pk net he hk' hl ha =>
    have hw := ha.window (fun b _ => ?_) hab
    · have hset := settled_message h (List.mem_of_getElem? hk') hab (by omega)
      have hloses : loses a b s e = 0 := by rcases he with rfl | rfl <;> rfl
      rcases hl with ⟨l₁, l₂, hnet, rfl⟩ | ⟨hdup, -⟩
      · rw [hnet, inFlight_middle] at hx
        rw [hloses]
        push_cast at hx ⊢
        omega
      · exact absurd hdup hc
    · rw [Process.credit_localMessageHandler]
      simp [Process.credit, Process.clear, raft]

end

section
variable {c : Channel} (hc : c ≠ .duplicating) {s s' : Cluster n} {e : Event n} (h : Addressed s)
  (hx : WindowExact s) (hstep : s.step c e = some s')
include hc h hx hstep

theorem windowExact_step (hk : s.KeepsAppends e) : WindowExact s' := by
  intro a b hab
  have hw := window_step hc h hab (L := 0) (by rw [hx a b hab]; rfl) hstep
  rw [loses_of_keepsAppends hk] at hw
  simpa using hw

omit hc in
theorem not_windowBounded_lose (hk : ¬ s.KeepsAppends e) : ¬ WindowBounded s' := by
  intro hb
  cases e with
  | lose k =>
    obtain ⟨pk, hpk, hraft, hnet⟩ := step_lose hstep
    have happ : isAppend (some pk.msg) = true := by
      by_contra hn
      refine hk fun pk' hpk' => ?_
      rw [hpk] at hpk'
      cases hpk'
      exact Bool.not_eq_true _ |>.mp hn
    have hne := h.links pk (List.mem_of_getElem? hpk)
    have hlost : ∀ a b, a ≠ b → inFlight [pk] a b = 0 := by
      intro a b hab
      have hle := hb a b hab
      rw [hraft, hx a b hab, hnet] at hle
      omega
    rcases inFlight_single_of_append happ with hpos | hpos
    · exact absurd (hlost _ _ hne) hpos.ne'
    · exact absurd (hlost _ _ hne.symm) hpos.ne'
  | _ => exact hk trivial

end

theorem addressed_run {c : Channel} (r : Execution n c) : ∀ k ≤ r.length, Addressed (r.states k) :=
  r.induct (addressed_starts r.starts) fun k hk ih => ih.step (r.steps k hk)

theorem triggerEntryUpdate_sends {p : Process} {f : Int} (h₁ : 1 ≤ p.nextIndex.getD f 0)
    (h₂ : p.nextIndex.getD f 0 ≤ (p.logEntries.length : Int) - 1)
    (hp : p.pendingAppendReqs.getD f 0 < MAX_PENDING_APPEND) :
    .writeMessage f (.appendEntriesRequest (p.toRaftState.entryRequest (p.nextIndex.getD f 0))) ∈
      (p.triggerEntryUpdate f).out := by
  simp only [Process.triggerEntryUpdate, Maps.getD_insertIfNew_default]
  rw [if_pos ⟨h₁, h₂⟩, if_pos hp]
  exact List.mem_append_right _ (List.mem_singleton.mpr rfl)

/-- The counts stay within what is in flight exactly as long as no append request and no answer is lost; and
then a follower with nothing in flight is sent its next entry. -/
theorem windowBounded_iff {c : Channel} (hc : c ≠ .duplicating) (r : Execution n c) :
    ((∀ k ≤ r.length, WindowBounded (r.states k)) ↔ r.Always KeepsAppends) ∧
    (r.Always KeepsAppends → ∀ k ≤ r.length, ∀ a b : Fin n, a ≠ b → inFlight (r.states k).net a b = 0 →
      1 ≤ ((r.states k).raft a).nextIndex.getD b.val 0 →
      ((r.states k).raft a).nextIndex.getD b.val 0 ≤ (((r.states k).raft a).logEntries.length : Int) - 1 →
      .writeMessage b.val (.appendEntriesRequest
        (((r.states k).raft a).entryRequest (((r.states k).raft a).nextIndex.getD b.val 0))) ∈
        (((r.states k).procs a).triggerEntryUpdate b.val).out) := by
  have haddr := addressed_run r
  -- up to the first loss the counts are exact, and the loss breaks the bound
  have hiff : (∀ k ≤ r.length, WindowBounded (r.states k)) ↔ r.Always KeepsAppends :=
    r.iff_always (windowExact_starts r.starts) (fun _ _ h a b hab => (h a b hab).le)
      (fun k hk ih => windowExact_step hc (haddr k hk.le) ih (r.steps k hk))
      (fun k hk ih hb => by_contra fun hlost => not_windowBounded_lose (haddr k hk.le) ih
        (r.steps k hk) hlost hb)
  refine ⟨hiff, fun hk k hle a b hab hnone h₁ h₂ => ?_⟩
  have hp := hiff.mpr hk k hle a b hab
  rw [hnone] at hp
  exact triggerEntryUpdate_sends h₁ h₂ (hp.trans_lt (by decide))

def heartbeatsThenPut (lost : List (Event 3)) : List (Event 3) :=
  electZero ++ [.input 0 .heartbeatTimer] ++ lost ++ [.input 0 (.clientPutMessage 7 (toBytes "a"))]

def answeredHeartbeat : List (Event 3) := heartbeatsThenPut [.deliver 1 2, .deliver 2 3]

theorem answeredHeartbeat_isSome :
    (Runs.exec (Runs.guarded KeepsAppends (step .fifo)) (fresh 3) answeredHeartbeat).isSome := by
  decide +kernel

theorem windowBounded_answeredHeartbeat : ∃ r : Execution 3 .fifo, r.Always KeepsAppends ∧
    ((r.states r.length).raft 0).pendingAppendReqs.getD 1 0 = 1 ∧
      ∀ k ≤ r.length, WindowBounded (r.states k) := by
  let r : Execution 3 .fifo := .ofEvents (fresh 3) starts_three answeredHeartbeat
    (Runs.isSome_of_guarded answeredHeartbeat_isSome)
  have hr : r.Always KeepsAppends := Runs.Run.ofEvents_always answeredHeartbeat_isSome
  exact ⟨r, hr, by decide +kernel, (windowBounded_iff (by decide) r).1.mpr hr⟩

def lostHeartbeats : List (Event 3) := heartbeatsThenPut [.lose 1, .input 0 .heartbeatTimer, .lose 2]

theorem lostHeartbeats_isSome : (Runs.exec (step .fifo) (fresh 3) lostHeartbeats).isSome := by decide +kernel

/-- Nothing is on the way between leader 0 and node 1, and `trigger_entry_update` does not send the entry. -/
theorem not_windowBounded_lostHeartbeats : ∃ r : Execution 3 .fifo, ∃ k ≤ r.length,
    ((r.states k).raft 0).state = .leader ∧
    ¬ ((r.states k).raft 0).pendingAppendReqs.getD 1 0 ≤ inFlight (r.states k).net 0 1 ∧
    inFlight (r.states k).net 0 1 = 0 ∧ ((r.states k).raft 0).nextIndex.getD 1 0 = 1 ∧
    ((r.states k).raft 0).logEntries.length = 2 ∧ (((r.states k).procs 0).clear.triggerEntryUpdate 1).out = [] := by
  let r : Execution 3 .fifo := .ofEvents (fresh 3) starts_three lostHeartbeats lostHeartbeats_isSome
  exact ⟨r, r.length, le_rfl, by decide +kernel⟩

end Cluster

end FlowMQ
