import FlowMQ.NodeQueue
import FlowMQ.QueueStatus

/-!
# What one node sends to consumers

One node handles timers, clients and messages of any content in any order. The
trace of a run lists what it applied and sent and whose disconnect it handled.
A message is sent again only after its receiver's disconnect was handled, and
never once it is committed: the status of the message in the queue says which
of the sent copies may still be with a consumer.
-/

namespace FlowMQ

inductive NodeEvent where
  | input (inp : Input)
  | message (now randomId : Int) (msg : RaftMessage)

instance : Inhabited NodeEvent := ⟨.input .heartbeatTimer⟩

structure NodeTrace where
  proc : Process
  trace : List Observation

def Input.validClient : Input → Bool
  | .registerConsumer _ clientId => 0 ≤ clientId
  | _ => true

def Input.observe : Input → List Observation
  | .consumerDisconnected clientId => [.disconnected clientId]
  | _ => []

namespace NodeTrace

def record (s : NodeTrace) (before : List Observation) (p : Process) : NodeTrace :=
  { proc := p, trace := s.trace ++ before ++ p.out.filterMap Effect.observe }

def step (s : NodeTrace) : NodeEvent → Option NodeTrace
  | .input inp =>
    if s.proc.enabled inp ∧ inp.validClient then some (s.record inp.observe (s.proc.clear.handle inp)) else none
  | .message now randomId msg => some (s.record [] (s.proc.clear.localMessageHandler now randomId msg))

def Starts (s : NodeTrace) : Prop :=
  ∃ partitionId nodeId totalNodes serverNodes garbage loaded lastCommitted,
    s.proc = Process.construct partitionId nodeId totalNodes serverNodes garbage loaded lastCommitted ∧
      s.trace = s.proc.out.filterMap Effect.observe

abbrev Execution := Runs.Run Starts step

end NodeTrace

def Added (id : Int) (trace : List Observation) : Prop :=
  ∃ e, .applied e ∈ trace ∧ e.operation = LogEntry.ADD ∧ e.messageId = id

/-- `id` is not sent twice unless the first receiver's disconnect was handled in
between, and not sent once it was committed while it was stored. -/
structure Exclusive (id : Int) (trace : List Observation) : Prop where
  released : ∀ c c' l₁ l₂ l₃, trace = l₁ ++ .sent id c :: (l₂ ++ .sent id c' :: l₃) → .disconnected c ∈ l₂
  final : ∀ e l₁ l₂, trace = l₁ ++ .applied e :: l₂ → e.operation = LogEntry.COMMIT → e.messageId = id →
    Added id l₁ → ∀ c, .sent id c ∉ l₂

structure Explains (id : Int) (trace : List Observation) (st : MessageStatus) : Prop where
  held : ∀ c l₁ l₂, trace = l₁ ++ .sent id c :: l₂ → .disconnected c ∉ l₂ → st = .delivered c ∨ st = .committed
  done : ∀ e l₁ l₂, trace = l₁ ++ .applied e :: l₂ → e.operation = LogEntry.COMMIT → e.messageId = id →
    Added id l₁ → st = .committed
  stored : st ≠ .unknown ↔ Added id trace

/-! ## One observation more -/

theorem snoc_eq_append_cons {α : Type} {l l₁ l₂ : List α} {x y : α} (h : l ++ [x] = l₁ ++ y :: l₂) :
    (l = l₁ ∧ x = y ∧ l₂ = []) ∨ ∃ l₃, l₂ = l₃ ++ [x] ∧ l = l₁ ++ y :: l₃ := by
  rcases List.eq_nil_or_concat l₂ with rfl | ⟨l₃, z, rfl⟩
  · obtain ⟨h₁, h₂⟩ := List.append_inj' h rfl
    exact Or.inl ⟨h₁, List.singleton_inj.mp h₂, rfl⟩
  · have h' : l ++ [x] = (l₁ ++ y :: l₃) ++ [z] := by simpa using h
    obtain ⟨h₁, h₂⟩ := List.append_inj' h' rfl
    obtain rfl := List.singleton_inj.mp h₂
    exact Or.inr ⟨l₃, by simp, h₁⟩

theorem added_snoc {id : Int} {trace : List Observation} {x : Observation} :
    Added id (trace ++ [x]) ↔
      Added id trace ∨ ∃ e, x = .applied e ∧ e.operation = LogEntry.ADD ∧ e.messageId = id := by
  constructor
  · rintro ⟨e, he, h⟩
    rcases List.mem_append.mp he with he | he
    · exact Or.inl ⟨e, he, h⟩
    · exact Or.inr ⟨e, (List.mem_singleton.mp he).symm, h⟩
  · rintro (⟨e, he, h⟩ | ⟨e, rfl, h⟩)
    · exact ⟨e, List.mem_append_left _ he, h⟩
    · exact ⟨e, by simp, h⟩

section
variable {id : Int} {trace : List Observation} {st st' : MessageStatus}

theorem exclusive_nil : Exclusive id [] where
  released := fun c c' l₁ l₂ l₃ h => by simp at h
  final := fun e l₁ l₂ h => by simp at h

theorem explains_nil : Explains id [] .unknown where
  held := fun c l₁ l₂ h => by simp at h
  done := fun e l₁ l₂ h => by simp at h
  stored := by simp [Added]

theorem Exclusive.snoc (h : Exclusive id trace) (he : Explains id trace st) {x : Observation}
    (hx : ∀ c, x = .sent id c → st = .undelivered) : Exclusive id (trace ++ [x]) where
  released := fun c c' l₁ l₂ l₃ heq => by
    rw [← List.cons_append, ← List.append_assoc] at heq
    rcases snoc_eq_append_cons heq with ⟨htrace, hsent, -⟩ | ⟨l₄, -, htrace⟩
    · by_contra hno
      rcases he.held c l₁ l₂ htrace hno with hst | hst <;> rw [hx c' hsent] at hst <;> cases hst
    · exact h.released c c' l₁ l₂ l₄ (by rw [htrace, List.append_assoc, List.cons_append])
  final := fun e l₁ l₂ heq hop hid hadd c hmem => by
    rcases snoc_eq_append_cons heq with ⟨-, -, rfl⟩ | ⟨l₃, rfl, htrace⟩
    · cases hmem
    · rcases List.mem_append.mp hmem with hmem | hmem
      · exact h.final e l₁ l₃ htrace hop hid hadd c hmem
      · have hst := he.done e l₁ l₃ htrace hop hid hadd
        rw [hx c (List.mem_singleton.mp hmem).symm] at hst
        cases hst

theorem Explains.silent (h : Explains id trace st) (hd : ∀ c, st = .delivered c → st' = .delivered c)
    (hc : st = .committed → st' = .committed) (hk : st' = .unknown ↔ st = .unknown) :
    Explains id trace st' where
  held := fun c l₁ l₂ heq hno => (h.held c l₁ l₂ heq hno).imp (hd c) hc
  done := fun e l₁ l₂ heq hop hid hadd => hc (h.done e l₁ l₂ heq hop hid hadd)
  stored := (not_congr hk).trans h.stored

structure Fits (id : Int) (st : MessageStatus) (x : Observation) (st' : MessageStatus) : Prop where
  sent : ∀ c, x = .sent id c → st' = .delivered c
  delivered : ∀ c, st = .delivered c → x ≠ .disconnected c → st' = .delivered c ∨ st' = .committed
  committed : st = .committed → st' = .committed
  commit : ∀ e, x = .applied e → e.operation = LogEntry.COMMIT → e.messageId = id → st ≠ .unknown → st' = .committed
  stored : st' ≠ .unknown ↔
    st ≠ .unknown ∨ ∃ e, x = .applied e ∧ e.operation = LogEntry.ADD ∧ e.messageId = id

theorem Explains.snoc (h : Explains id trace st) {x : Observation} (hx : Fits id st x st') :
    Explains id (trace ++ [x]) st' where
  held := fun c l₁ l₂ heq hno => by
    rcases snoc_eq_append_cons heq with ⟨-, hsent, -⟩ | ⟨l₃, rfl, htrace⟩
    · exact Or.inl (hx.sent c hsent)
    · rw [List.mem_append, not_or, List.mem_singleton] at hno
      rcases h.held c l₁ l₃ htrace hno.1 with hst | hst
      · exact hx.delivered c hst (Ne.symm hno.2)
      · exact Or.inr (hx.committed hst)
  done := fun e l₁ l₂ heq hop hid hadd => by
    rcases snoc_eq_append_cons heq with ⟨rfl, happ, -⟩ | ⟨l₃, -, htrace⟩
    · exact hx.commit e happ hop hid (h.stored.mpr hadd)
    · exact hx.committed (h.done e l₁ l₃ htrace hop hid hadd)
  stored := by rw [hx.stored, h.stored, added_snoc]

end

/-! ## The observations of a node -/

theorem fits_applied (id : Int) (st : MessageStatus) (e : LogEntry) :
    Fits id st (.applied e) (e.queueOps.foldl (MessageStatus.step id) st) := by
  have hne : LogEntry.ADD ≠ LogEntry.COMMIT := by decide
  unfold LogEntry.queueOps
  split
  · rename_i hadd
    simp only [List.foldl_cons, List.foldl_nil, MessageStatus.step]
    constructor <;> grind
  · rename_i hadd
    split
    · simp only [List.foldl_cons, List.foldl_nil, MessageStatus.step]
      constructor <;> grind
    · simp only [List.foldl_nil]
      constructor <;> grind

theorem fits_disconnected (id c : Int) (st : MessageStatus) :
    Fits id st (.disconnected c) (st.step id (.handleClientDisconnected c)) := by
  simp only [MessageStatus.step]
  constructor <;> grind

theorem fits_sent {id id' c : Int} {st : MessageStatus} (h : id' = id → st = .undelivered) :
    Fits id st (.sent id' c) (st.step id (.deliverMessageToClientId id' c)) := by
  simp only [MessageStatus.step]
  constructor <;> grind

def Sound (id : Int) (q : MessageQueue) (trace : List Observation) : Prop :=
  ∃ st, q.Reads id st ∧ Explains id trace st ∧ Exclusive id trace

namespace Sound

variable {id : Int} {q q' : MessageQueue} {trace : List Observation} (h : Sound id q trace)
include h

theorem applied (e : LogEntry) : Sound id (Process.applyEntry e q) (trace ++ [.applied e]) := by
  obtain ⟨st, hr, he, hx⟩ := h
  refine ⟨_, hr.exec (exec_queueOps e q), he.snoc (fits_applied id st e), hx.snoc he fun c hc => ?_⟩
  cases hc

theorem disconnected (c : Int) : Sound id (q.handleClientDisconnected c).2 (trace ++ [.disconnected c]) := by
  obtain ⟨st, hr, he, hx⟩ := h
  refine ⟨_, hr.handleClientDisconnected c, he.snoc (fits_disconnected id c st), hx.snoc he fun c' hc => ?_⟩
  cases hc

omit h in
theorem allows_of_exec {op : QueueOp} {ops : List QueueOp}
    (hq : Runs.exec MessageQueue.next q (op :: ops) = some q') : q.allows op = true := by
  obtain ⟨q₁, h₁, -⟩ := Option.bind_eq_some_iff.mp hq
  unfold MessageQueue.next at h₁
  split at h₁
  · assumption
  · cases h₁

theorem delivery {d : DeliveryOp} (hd : ∀ id' c, d = .send id' c → c ≠ -1)
    (hq : Runs.exec MessageQueue.next q d.queueOps = some q') : Sound id q' (trace ++ d.observe.toList) := by
  obtain ⟨st, hr, he, hx⟩ := h
  cases d with
  | read id' =>
    exact ⟨st, hr.exec hq, by simpa [DeliveryOp.observe] using he, by simpa [DeliveryOp.observe] using hx⟩
  | send id' c =>
    have hops : (DeliveryOp.send id' c).queueOps = [.getMessage id', .deliverMessageToClientId id' c] :=
      if_neg (hd id' c rfl)
    rw [hops] at hq
    have hwait : id' = id → st = .undelivered := fun hid => hr.undelivered.mp (hid ▸ allows_of_exec hq)
    refine ⟨_, hr.exec hq, he.snoc (fits_sent hwait), hx.snoc he fun c' hc => hwait ?_⟩
    exact (Observation.sent.inj hc).1
  | assign id' =>
    have hwait : id' = id → st = .undelivered := fun hid => hr.undelivered.mp (hid ▸ allows_of_exec hq)
    refine ⟨_, hr.exec hq, ?_, by simpa [DeliveryOp.observe] using hx⟩
    have hsilent : Explains id trace (st.step id (.deliverMessageToClientId id' 1)) := by
      by_cases hid : id' = id
      · have hst := hwait hid
        have hstep : st.step id (.deliverMessageToClientId id' 1) = .delivered 1 := if_pos hid
        rw [hstep]
        subst hst
        exact he.silent (fun c hc => by cases hc) (fun hc => by cases hc) (by simp)
      · have hstep : st.step id (.deliverMessageToClientId id' 1) = st := if_neg hid
        rw [hstep]
        exact he
    rw [show trace ++ (DeliveryOp.assign id').observe.toList = trace from List.append_nil _]
    exact hsilent

end Sound

theorem Sound.apply {id : Int} {v : View} {before : List Observation}
    (h : Sound id v.queue (before ++ v.seen)) (es : List LogEntry) :
    Sound id (v.apply es).queue (before ++ (v.apply es).seen) := by
  induction es generalizing v with
  | nil => simpa [View.apply] using h
  | cons e es ih =>
    have h₁ : Sound id (v.apply [e]).queue (before ++ (v.apply [e]).seen) := by
      simpa [View.apply] using h.applied e
    have h₂ := ih h₁
    rwa [← View.apply_append] at h₂

theorem Sound.rounds {id : Int} {q q' : MessageQueue} {trace : List Observation} (h : Sound id q trace)
    {ds : List DeliveryOp} (hd : ∀ id' c, .send id' c ∈ ds → c ≠ -1)
    (hq : Runs.exec MessageQueue.next q (ds.flatMap DeliveryOp.queueOps) = some q') :
    Sound id q' (trace ++ ds.filterMap DeliveryOp.observe) := by
  induction ds generalizing q trace with
  | nil =>
    cases hq
    simpa using h
  | cons d ds ih =>
    rw [List.flatMap_cons, Runs.exec_append] at hq
    obtain ⟨q₁, h₁, h₂⟩ := Option.bind_eq_some_iff.mp hq
    have hfirst := h.delivery (fun id' c hdc => hd id' c (hdc ▸ List.mem_cons_self)) h₁
    have hrest := ih hfirst (fun id' c hmem => hd id' c (List.mem_cons_of_mem _ hmem)) h₂
    rw [List.append_assoc] at hrest
    cases hobs : d.observe <;> simpa [hobs] using hrest

theorem Sound.serves {id : Int} {r : RaftState} {es : List LogEntry} {v v' : View} {before : List Observation}
    (h : Sound id v.queue (before ++ v.seen)) (hs : Serves r es v v')
    (hc : ∀ c ∈ v.clients.consumers r.partitionId, c ≠ -1) : Sound id v'.queue (before ++ v'.seen) := by
  obtain ⟨ds, hd⟩ := hs
  rw [hd.seen, ← List.append_assoc]
  exact (h.apply es).rounds (fun id' c hmem => hc c (hd.send id' c hmem)) hd.queue

/-! ## Runs of a node -/

namespace NodeTrace

structure Inv (s : NodeTrace) : Prop where
  sound : ∀ id, Sound id s.proc.messageQueue s.trace
  clients : ∀ p, ∀ c ∈ s.proc.clients.consumers p, 0 ≤ c

theorem Inv.serves {s : NodeTrace} (h : s.Inv) {r : RaftState} {es : List LogEntry} {q : MessageQueue}
    {before : List Observation} (hq : ∀ id, Sound id q (s.trace ++ before)) {p : Process}
    (hs : Serves r es { queue := q, seen := [], clients := s.proc.clients } p.view) :
    (s.record before p).Inv where
  sound := fun id => by
    refine Sound.serves (v := { queue := q, seen := [], clients := s.proc.clients }) ?_ hs fun c hc => ?_
    · rw [List.append_nil]
      exact hq id
    · have := h.clients r.partitionId c hc
      omega
  clients := fun partition c hc => by
    obtain ⟨ds, hd⟩ := hs
    rw [show (s.record before p).proc.clients = p.view.clients from rfl,
      ClientManager.consumers_congr hd.lists] at hc
    exact h.clients partition c hc

theorem Inv.message {s : NodeTrace} (h : s.Inv) (now randomId : Int) (msg : RaftMessage) :
    (s.record [] (s.proc.clear.localMessageHandler now randomId msg)).Inv := by
  refine h.serves (fun id => ?_) (Process.localMessageHandler_serves now randomId msg s.proc.clear)
  rw [List.append_nil]
  exact h.sound id

theorem Inv.clientEvent {s : NodeTrace} (h : s.Inv) {m : ClientManager}
    (hm : ∀ p, ∀ c ∈ m.consumers p, 0 ≤ c) :
    (s.record [] { s.proc.clear with clients := m }).Inv where
  sound := fun id => by simpa [record, Process.clear] using h.sound id
  clients := hm

theorem Inv.timer {s : NodeTrace} (h : s.Inv) {p : Process} (hp : p.view = s.proc.clear.view) :
    (s.record [] p).Inv := by
  have hs : Serves s.proc.toRaftState [] s.proc.clear.view p.view := by
    rw [hp]
    exact .refl _ _
  refine h.serves (fun id => ?_) hs
  rw [List.append_nil]
  exact h.sound id

theorem Inv.step {s s' : NodeTrace} {e : NodeEvent} (h : s.Inv) (hs : s.step e = some s') : s'.Inv := by
  cases e with
  | message now randomId msg =>
    cases hs
    exact h.message now randomId msg
  | input inp =>
    simp only [NodeTrace.step] at hs
    split at hs
    · rename_i hen
      cases hs
      cases inp with
      | voteTimer now => exact h.timer (Process.timer_view s.proc.clear (Or.inr (Or.inr ⟨now, rfl⟩)))
      | voteRequestTimer => exact h.timer (Process.timer_view s.proc.clear (Or.inl rfl))
      | heartbeatTimer => exact h.timer (Process.timer_view s.proc.clear (Or.inr (Or.inl rfl)))
      | clientPutMessage randomId m => exact h.message 0 randomId (.clientPutMessage m)
      | clientCommitMessage id => exact h.message 0 0 (.clientCommitMessage id)
      | clientOpenQueue => exact h.message 0 0 .clientOpenQueue
      | consumerDisconnected c =>
        exact h.serves (fun id => (h.sound id).disconnected c)
          (Process.consumerDisconnected_serves c s.proc.clear)
      | acceptNewConnection id => exact h.clientEvent h.clients
      | registerConsumer p c =>
        have hpos : 0 ≤ c := by simpa [Input.validClient] using hen.2
        refine h.clientEvent fun p' c' hc' => ?_
        rw [ClientManager.consumers_register] at hc'
        split at hc'
        · rcases List.mem_append.mp hc' with hc' | hc'
          · exact h.clients p' c' hc'
          · rwa [List.mem_singleton.mp hc']
        · exact h.clients p' c' hc'
      | removeSession c =>
        refine h.clientEvent fun p' c' hc' => ?_
        rw [ClientManager.consumers_remove] at hc'
        exact h.clients p' c' (List.mem_of_mem_erase hc')
      | deliverOther p =>
        have hkeep := ClientManager.deliver_keeps (s.proc.clients.deliverOneMessageRoundRobin_spec p)
        refine h.clientEvent fun p' c' hc' => ?_
        rw [show s.proc.clear.clients = s.proc.clients from rfl, ClientManager.consumers_congr hkeep.1] at hc'
        exact h.clients p' c' hc'
    · cases hs

theorem inv_starts {s : NodeTrace} (h : Starts s) : s.Inv := by
  obtain ⟨partitionId, nodeId, totalNodes, serverNodes, garbage, loaded, lastCommitted, hp, ht⟩ := h
  have hview : ∃ es, s.proc.view = View.apply { queue := .empty, seen := [], clients := .empty } es := by
    rw [hp]
    exact ⟨_, Process.commitLoop_view _ _ _⟩
  obtain ⟨es, hes⟩ := hview
  have hempty : ∀ id, Sound id MessageQueue.empty ([] ++ []) := fun id =>
    ⟨.unknown, MessageQueue.reads_empty id, explains_nil, exclusive_nil⟩
  refine ⟨fun id => ?_, fun p c hc => ?_⟩
  · have hs := (Sound.apply (v := { queue := .empty, seen := [], clients := .empty }) (hempty id) es)
    rw [← hes] at hs
    rw [ht]
    exact hs
  · have hc' : c ∈ s.proc.view.clients.consumers p := hc
    rw [hes] at hc'
    simp [View.apply, ClientManager.consumers, ClientManager.empty] at hc'

/-- Whatever a node handles in whatever order: no message is sent again before its receiver's disconnect was
handled, or after it was committed, and the stored ids are those of the ADD entries applied so far. -/
theorem exclusive_delivery (r : Execution) (id : Int) :
    Exclusive id (r.states r.length).trace ∧
      (id ∈ (r.states r.length).proc.messageQueue.messageStore ↔ Added id (r.states r.length).trace) := by
  have hinv : ∀ k ≤ r.length, (r.states k).Inv :=
    r.induct (inv_starts r.starts) fun k hk ih => ih.step (r.steps k hk)
  obtain ⟨st, hr, he, hx⟩ := (hinv r.length le_rfl).sound id
  exact ⟨hx, hr.stored.trans he.stored⟩

theorem exclusive_delivery_resent : ∃ r : Execution, Exclusive 7 (r.states r.length).trace ∧
    (r.states r.length).trace.filterMap (fun x => match x with | .sent id c => some (id, c) | _ => none) =
      [(7, 5), (7, 6)] := by
  let put : LogEntry :=
    { index := 1, term := 0, messageId := 7, operation := LogEntry.ADD, message := toBytes "a" }
  let r : Execution := .ofEvents
    { proc := Process.construct 0 0 1 [] ⟨0, 0⟩ [put] 1, trace := [.applied put] }
    ⟨0, 0, 1, [], ⟨0, 0⟩, [put], 1, rfl, rfl⟩
    [.message 0 0 (.requestVoteResponse ⟨0, 1⟩), .input (.acceptNewConnection 5),
      .input (.registerConsumer 0 5), .input .clientOpenQueue, .input (.removeSession 5),
      .input (.consumerDisconnected 5),
      .input (.acceptNewConnection 6), .input (.registerConsumer 0 6), .input .clientOpenQueue]
    (by decide +kernel)
  exact ⟨r, (exclusive_delivery r 7).1, by decide +kernel⟩

end NodeTrace

end FlowMQ
