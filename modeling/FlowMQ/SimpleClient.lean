import FlowMQ.ClusterManager
import FlowMQ.Partitions

/-!
# The client

`SimpleClient` opens its partition at any server, is sent on to the leader by the
answer, and sends its request again there. Answers do not say whose request they
belong to, and the sessions to the earlier servers are still read. A redirection
that comes when no request is under way makes the client send a message with
nothing in it, which ends the server that gets it. Servers take all the rest.
-/

namespace FlowMQ

open Wire (Fits32 Fits64)

inductive Caller where
  | outside
  | sent
  | waiting
  | notified
  deriving DecidableEq, Repr

/-- Of the `sessions` the last one is `session_`. `written` has what was written, with its session, `received`
the calls of `handler_`, and `returned` the results of `open_queue_sync`. `requests` and `answers` count the
requests to open the partition and what came in answer to such requests. -/
structure SimpleClient where
  partitionId : Int
  endpoints : ResolverResults
  sessions : Nat
  openQueueMsg : FlowProto
  retries : Int
  caller : Caller
  written : List (Nat × Bytes)
  received : List (Bytes × Int)
  returned : List Bool
  requests : Nat
  answers : Nat

inductive ClientEvent where
  | start
  | openQueueSync (queueName : Bytes) (mode : Int)
  | wait
  | wake
  | commitMessage (messageId : Int)
  | sendMessage (message : Bytes)
  | handleMessage (body : Bytes)
  deriving Inhabited

def FlowMessageType.fromClient : FlowMessageType → Bool
  | .clientOpenQueue | .clientPutMessage | .clientCommitMessage => true
  | _ => false

def FlowProto.openQueueResponse (m : FlowProto) : ClientOpenQueueResponse :=
  m.clientOpenQueueResponse.getD ClientOpenQueueResponse.schema.empty

namespace SimpleClient

def RETRIES_LIMIT : Int := 10

def construct (partitionId : Int) (endpoints : ResolverResults) : SimpleClient :=
  { partitionId := partitionId, endpoints := endpoints, sessions := 0, openQueueMsg := .empty, retries := 0
    caller := .outside, written := [], received := [], returned := [], requests := 0, answers := 0 }

def write (m : FlowProto) (s : SimpleClient) : Option SimpleClient :=
  if s.sessions ≠ 0 ∧ m.serialize.length ≤ Message.MAX_BODY_LENGTH then
    some { s with written := s.written ++ [(s.sessions - 1, m.serialize)] }
  else none

def connect (s : SimpleClient) : SimpleClient := { s with sessions := s.sessions + 1 }

def openRequest (queueName : Bytes) (mode partitionId : Int) (m : FlowProto) : FlowProto :=
  (m.loadClientOpenQueueRequest ⟨mode, queueName⟩).setPartitionId partitionId

def handleMessage (m : FlowProto) (s : SimpleClient) : Option SimpleClient :=
  match m.messageType with
  | .clientOpenQueueResponse =>
    let resp := m.openQueueResponse
    let s := { s with answers := s.answers + 1 }
    if resp.status = .error then
      if resp.leaderIp.getD [] = [] then some s
      else
        { s with endpoints := ⟨resp.leaderIp.getD [], resp.leaderPort.getD []⟩,
                 requests := s.requests + 1 }.connect.write
          s.openQueueMsg
    else some { s with openQueueMsg := .empty, caller := if s.caller = .waiting then .notified else s.caller }
  | .serverSendMessage =>
    let req := m.serverSendMessage.getD ServerSendMessage.schema.empty
    some { s with received := s.received ++ [(req.message, req.messageId)] }
  | _ => some s

/-- The calls of a program with one thread, the two halves of the wait in `open_queue_sync`, and messages of
any session. The wait may also end without a notification. -/
def step (s : SimpleClient) : ClientEvent → Option SimpleClient
  | .start => some s.connect
  | .openQueueSync queueName mode =>
    if s.caller = .outside ∧ Fits32 mode then
      let m := openRequest queueName mode s.partitionId s.openQueueMsg
      { s with openQueueMsg := m, caller := .sent, requests := s.requests + 1 }.write m
    else none
  | .wait => if s.caller = .sent then some { s with caller := .waiting } else none
  | .wake =>
    if s.caller = .waiting ∨ s.caller = .notified then
      some { s with caller := .outside, returned := s.returned ++ [decide (s.retries < RETRIES_LIMIT)] }
    else none
  | .commitMessage messageId =>
    if Fits64 messageId then
      s.write ((FlowProto.empty.loadClientCommitMessageRequest ⟨messageId⟩).setPartitionId s.partitionId)
    else none
  | .sendMessage message =>
    s.write ((FlowProto.empty.loadClientPutMessageRequest ⟨message, none⟩).setPartitionId s.partitionId)
  | .handleMessage body => s.handleMessage (.deserialize body)

def Starts (s : SimpleClient) : Prop :=
  ∃ partitionId endpoints, Fits64 partitionId ∧ s = construct partitionId endpoints

abbrev Execution := Runs.Run Starts step

def IsRedirection (m : FlowProto) : Prop :=
  m.messageType = .clientOpenQueueResponse ∧ m.openQueueResponse.status = .error ∧
    m.openQueueResponse.leaderIp.getD [] ≠ []

instance (m : FlowProto) : Decidable (IsRedirection m) := inferInstanceAs (Decidable (_ ∧ _))

/-! ## What a step can do -/

inductive Step (s : SimpleClient) : ClientEvent → SimpleClient → Prop
  | start : Step s .start s.connect
  | openQueueSync (queueName : Bytes) (mode : Int) (s' : SimpleClient) (hcaller : s.caller = .outside)
      (hmode : Fits32 mode)
      (hs : { s with openQueueMsg := openRequest queueName mode s.partitionId s.openQueueMsg, caller := .sent,
                     requests := s.requests + 1 }.write
                     (openRequest queueName mode s.partitionId s.openQueueMsg) = some s') :
      Step s (.openQueueSync queueName mode) s'
  | wait (hcaller : s.caller = .sent) : Step s .wait { s with caller := .waiting }
  | wake (returned : List Bool) (hcaller : s.caller = .waiting ∨ s.caller = .notified) :
      Step s .wake { s with caller := .outside, returned := returned }
  | commitMessage (messageId : Int) (s' : SimpleClient) (hid : Fits64 messageId)
      (hs : s.write ((FlowProto.empty.loadClientCommitMessageRequest ⟨messageId⟩).setPartitionId
        s.partitionId) = some s') :
      Step s (.commitMessage messageId) s'
  | sendMessage (message : Bytes) (s' : SimpleClient)
      (hs : s.write ((FlowProto.empty.loadClientPutMessageRequest ⟨message, none⟩).setPartitionId
        s.partitionId) = some s') :
      Step s (.sendMessage message) s'
  | redirected (body : Bytes) (endpoints : ResolverResults) (s' : SimpleClient)
      (hm : IsRedirection (.deserialize body))
      (hs : { s with answers := s.answers + 1, endpoints := endpoints,
                     requests := s.requests + 1 }.connect.write
        s.openQueueMsg = some s') :
      Step s (.handleMessage body) s'
  | refused (body : Bytes) (hm : (FlowProto.deserialize body).messageType = .clientOpenQueueResponse)
      (hr : ¬ IsRedirection (.deserialize body)) : Step s (.handleMessage body)
        { s with answers := s.answers + 1 }
  | opened (body : Bytes) (hm : (FlowProto.deserialize body).messageType = .clientOpenQueueResponse)
      (hr : (FlowProto.deserialize body).openQueueResponse.status ≠ .error) :
      Step s (.handleMessage body)
        { s with answers := s.answers + 1, openQueueMsg := .empty,
                 caller := if s.caller = .waiting then .notified else s.caller }
  | other (body : Bytes) (received : List (Bytes × Int))
      (hm : (FlowProto.deserialize body).messageType ≠ .clientOpenQueueResponse) :
      Step s (.handleMessage body) { s with received := received }

theorem step_cases {s s' : SimpleClient} {e : ClientEvent} (h : s.step e = some s') : Step s e s' := by
  cases e with
  | start =>
    cases h
    exact .start
  | openQueueSync queueName mode =>
    simp only [step] at h
    split at h
    · exact .openQueueSync queueName mode s' (And.left ‹_›) (And.right ‹_›) h
    · cases h
  | wait =>
    simp only [step] at h
    split at h
    · cases h
      exact .wait ‹_›
    · cases h
  | wake =>
    simp only [step] at h
    split at h
    · cases h
      exact .wake _ ‹_›
    · cases h
  | commitMessage messageId =>
    simp only [step] at h
    split at h
    · exact .commitMessage messageId s' ‹_› h
    · cases h
  | sendMessage message => exact .sendMessage message s' h
  | handleMessage body =>
    simp only [step, handleMessage] at h
    split at h
    · rename_i hm
      split at h
      · rename_i herr
        split at h
        · rename_i hip
          cases h
          exact .refused body hm fun hr => hr.2.2 hip
        · rename_i hip
          exact .redirected body _ s' ⟨hm, herr, hip⟩ h
      · rename_i herr
        cases h
        exact .opened body hm herr
    · rename_i hm
      cases h
      exact .other body _ (by rw [hm]; decide)
    · rename_i hm _
      cases h
      exact .other body s.received hm

/-! ## What servers take -/

def Taken (partitionId : Int) (body : Bytes) : Prop :=
  ∀ (n : Nat) (s : Servers n) (i : Fin n) (clientId : Int), (s.masters i).nodes.contains partitionId →
    (s.handleMessage i clientId body).isSome

def NoLateRedirection (s : SimpleClient) (e : ClientEvent) : Prop :=
  ∀ body, e = .handleMessage body → IsRedirection (.deserialize body) → s.openQueueMsg ≠ .empty

theorem taken_of_type {m : FlowProto} (hfits : m.Fits) (hlen : m.serialize.length ≤ Message.MAX_BODY_LENGTH)
    (htype : m.messageType.fromClient) : Taken m.partition m.serialize := by
  intro n s i clientId hp
  simp only [Servers.handleMessage, Servers.post, FlowProto.deserialize_serialize hfits hlen]
  revert htype
  cases m.messageType <;> simp [FlowMessageType.fromClient, hp, Servers.setClients]

theorem not_taken_empty (partitionId : Int) : ¬ Taken partitionId FlowProto.empty.serialize := by
  intro h
  have hnode := h 1 (.init 1 [partitionId] [] fun _ _ => ⟨0, 0⟩) 0 0 (by simp [Servers.init])
  cases hnode

inductive Pending (partitionId : Int) : FlowProto → Prop
  | cleared : Pending partitionId .empty
  | loaded (queueName : Bytes) (mode : Int) (hmode : Fits32 mode) :
      Pending partitionId (openRequest queueName mode partitionId .empty)

structure Inv (s : SimpleClient) : Prop where
  fits : Fits64 s.partitionId
  pending : Pending s.partitionId s.openQueueMsg
  taken : ∀ x ∈ s.written, Taken s.partitionId x.2

section
variable {s s' : SimpleClient} {m : FlowProto} {e : ClientEvent}

theorem openRequest_of_pending (h : Pending s.partitionId m) (queueName : Bytes) (mode : Int) :
    openRequest queueName mode s.partitionId m = openRequest queueName mode s.partitionId .empty := by
  cases h <;> rfl

theorem fits_openRequest (hp : Fits64 s.partitionId) (queueName : Bytes) {mode : Int} (hmode : Fits32 mode) :
    (openRequest queueName mode s.partitionId .empty).Fits :=
  (FlowProto.fits_empty.loadClientOpenQueueRequest
    (show ClientOpenQueue.Fits ⟨mode, queueName⟩ from hmode)).setPartitionId hp

theorem openRequest_ne_empty (queueName : Bytes) (mode partitionId : Int) :
    openRequest queueName mode partitionId m ≠ .empty :=
  fun h =>
    absurd (congrArg FlowProto.type h)
      (by simp [openRequest, FlowProto.setPartitionId, FlowProto.loadClientOpenQueueRequest,
    FlowProto.empty, FlowProto.schema])

theorem write_spec (h : s.write m = some s') :
    s' = { s with written := s.written ++ [(s.sessions - 1, m.serialize)] } ∧
      m.serialize.length ≤ Message.MAX_BODY_LENGTH := by
  simp only [write] at h
  split at h
  · exact ⟨(Option.some.inj h).symm, And.right ‹_›⟩
  · cases h

theorem Inv.write (h : Inv s) (hw : s.write m = some s') (hfits : m.Fits)
    (hpart : m.partition = s.partitionId) (htype : m.messageType.fromClient) : Inv s' := by
  obtain ⟨rfl, hlen⟩ := write_spec hw
  refine { h with taken := fun x hx => ?_ }
  rcases List.mem_append.mp hx with hx | hx
  · exact h.taken x hx
  · cases List.mem_singleton.mp hx
    have htaken := taken_of_type hfits hlen htype
    rwa [hpart] at htaken

theorem Inv.rewrite (h : Inv s) (hne : s.openQueueMsg ≠ .empty) (hw : s.write s.openQueueMsg = some s') :
    Inv s' := by
  have hp := h.pending
  generalize s.openQueueMsg = m at hp hne hw
  cases hp with
  | cleared => exact absurd rfl hne
  | loaded queueName mode hmode => exact h.write hw (fits_openRequest h.fits queueName hmode) rfl rfl

theorem Inv.step (h : Inv s) (hs : s.step e = some s') (hok : s.NoLateRedirection e) : Inv s' := by
  cases step_cases hs with
  | start => exact { h with }
  | openQueueSync queueName mode s' hcaller hmode hw =>
    rw [openRequest_of_pending h.pending] at hw
    have h' : Inv { s with openQueueMsg := openRequest queueName mode s.partitionId .empty, caller := .sent,
                           requests := s.requests + 1 } := { h with pending := .loaded queueName mode hmode }
    exact h'.write hw (fits_openRequest h.fits queueName hmode) rfl rfl
  | wait | wake | other => exact { h with }
  | commitMessage messageId s' hid hw =>
    exact h.write hw ((FlowProto.fits_empty.loadClientCommitMessageRequest hid).setPartitionId h.fits) rfl rfl
  | sendMessage message s' hw =>
    have hput : ClientPutMessage.Fits ⟨message, none⟩ := fun z hz => absurd hz (by simp)
    exact h.write hw ((FlowProto.fits_empty.loadClientPutMessageRequest hput).setPartitionId h.fits) rfl rfl
  | redirected body endpoints s' hm hw =>
    have h' : Inv { s with answers := s.answers + 1, endpoints := endpoints,
                           requests := s.requests + 1 }.connect := { h with }
    exact h'.rewrite (hok body rfl hm) hw
  | refused => exact { h with }
  | opened => exact { h with pending := .cleared }

theorem inv_starts (h : Starts s) : Inv s := by
  obtain ⟨partitionId, endpoints, hfits, rfl⟩ := h
  exact { fits := hfits, pending := .cleared, taken := fun x hx => absurd hx List.not_mem_nil }

theorem not_taken_of_late {body : Bytes} (hs : s.step (.handleMessage body) = some s')
    (hm : IsRedirection (.deserialize body)) (hempty : s.openQueueMsg = .empty) :
    ∃ x ∈ s'.written, ¬ Taken s'.partitionId x.2 := by
  cases step_cases hs with
  | redirected body endpoints s' hm hw =>
    obtain ⟨rfl, _⟩ := write_spec hw
    refine ⟨_, List.mem_append_right _ (List.mem_singleton_self _), ?_⟩
    rw [hempty]
    exact not_taken_empty _
  | refused body _ hr => exact absurd hm hr
  | opened body _ hr => exact absurd hm.2.1 hr
  | other body received hr => exact absurd hm.1 hr

end

/-- Servers that have the partition take all a client sends exactly if no redirection comes too late. -/
theorem written_taken_iff (r : Execution) :
    (∀ k ≤ r.length, ∀ x ∈ (r.states k).written, Taken (r.states k).partitionId x.2) ↔
    r.Always NoLateRedirection := by
  refine r.iff_always (I := Inv) (P := fun s => ∀ x ∈ s.written, Taken s.partitionId x.2) (inv_starts r.starts)
    (fun k _ h => h.taken) (fun k hk h hok => h.step (r.steps k hk) hok) ?_
  intro k hk _ htaken body he hm hempty
  obtain ⟨x, hx, hnot⟩ := not_taken_of_late (he ▸ r.steps k hk) hm hempty
  exact hnot (htaken x hx)

/-! ## Requests that are answered one by one -/

def Paired (s : SimpleClient) : ClientEvent → Prop
  | .wake => s.caller = .notified
  | .handleMessage body => (FlowProto.deserialize body).messageType = .clientOpenQueueResponse →
      s.answers < s.requests
  | _ => True

instance (s : SimpleClient) (e : ClientEvent) : Decidable (s.Paired e) := by
  cases e <;> simp only [Paired] <;> infer_instance

structure OneByOne (s : SimpleClient) : Prop where
  answered : s.answers ≤ s.requests
  unanswered : s.requests ≤ s.answers + 1
  underWay : s.answers < s.requests → s.openQueueMsg ≠ .empty ∧ (s.caller = .sent ∨ s.caller = .waiting)

section
variable {s s' : SimpleClient} {e : ClientEvent}

theorem OneByOne.noLateRedirection (h : OneByOne s) (hp : s.Paired e) : s.NoLateRedirection e := by
  rintro body rfl hm
  exact (h.underWay (hp hm.1)).1

theorem OneByOne.step (h : OneByOne s) (hs : s.step e = some s') (hp : s.Paired e) : OneByOne s' := by
  have hidle : s.caller = .outside ∨ s.caller = .notified → s.answers = s.requests := fun hc => by
    by_contra hne
    rcases (h.underWay (lt_of_le_of_ne h.answered hne)).2 with hc' | hc' <;> rcases hc with hc | hc <;>
      exact absurd (hc.symm.trans hc') (by decide)
  cases step_cases hs with
  | start | other => exact { h with }
  | openQueueSync queueName mode s' hcaller _ hw =>
    obtain ⟨rfl, _⟩ := write_spec hw
    have heq := hidle (.inl hcaller)
    exact { answered := Nat.le_succ_of_le h.answered, unanswered := Nat.succ_le_succ heq.ge
            underWay := fun _ => ⟨openRequest_ne_empty queueName mode s.partitionId, .inl rfl⟩ }
  | wait => exact { h with underWay := fun hlt => ⟨(h.underWay hlt).1, .inr rfl⟩ }
  | wake returned _ => exact { h with underWay := fun hlt => absurd (hidle (.inr hp)) (ne_of_lt hlt) }
  | commitMessage messageId s' _ hw | sendMessage message s' hw =>
    obtain ⟨rfl, _⟩ := write_spec hw
    exact { h with }
  | redirected body endpoints s' hm hw =>
    obtain ⟨rfl, _⟩ := write_spec hw
    have hlt := hp hm.1
    exact { answered := Nat.succ_le_succ h.answered, unanswered := Nat.succ_le_succ h.unanswered
            underWay := fun _ => h.underWay hlt }
  | refused body hm _ | opened body hm _ =>
    have hlt := hp hm
    have hall : s.requests ≤ s.answers + 1 := h.unanswered
    exact { answered := hlt, unanswered := Nat.le_succ_of_le hall,
            underWay := fun hlt' => absurd hlt' (Nat.not_lt.mpr hall) }

theorem oneByOne_starts (h : Starts s) : OneByOne s := by
  obtain ⟨partitionId, endpoints, _, rfl⟩ := h
  exact { answered := le_rfl, unanswered := Nat.zero_le _,
          underWay := fun hlt => absurd hlt (Nat.lt_irrefl 0) }

/-- An answer that lets the client in while nobody waits for it, or that neither lets it in nor names
a leader. -/
def GoesUnheard (s : SimpleClient) (m : FlowProto) : Prop :=
  m.messageType = .clientOpenQueueResponse ∧
    (m.openQueueResponse.status ≠ .error ∧ s.caller = .sent ∨
      m.openQueueResponse.status = .error ∧ m.openQueueResponse.leaderIp.getD [] = [])

instance (s : SimpleClient) (m : FlowProto) : Decidable (s.GoesUnheard m) :=
  inferInstanceAs (Decidable (_ ∧ _))

def Unheard (s : SimpleClient) : Prop := (s.caller = .sent ∨ s.caller = .waiting) ∧ s.answers = s.requests

theorem OneByOne.unheard (h : OneByOne s) {body : Bytes} (hs : s.step (.handleMessage body) = some s')
    (hp : s.Paired (.handleMessage body)) (hm : s.GoesUnheard (.deserialize body)) :
    s'.Unheard ∧ s'.returned = s.returned := by
  have hlt := hp hm.1
  have hall : s.answers + 1 = s.requests := le_antisymm hlt h.unanswered
  cases step_cases hs with
  | redirected body _ s' hr =>
    rcases hm.2 with ⟨hok, -⟩ | ⟨-, hip⟩
    · exact absurd hr.2.1 hok
    · exact absurd hip hr.2.2
  | refused => exact ⟨⟨(h.underWay hlt).2, hall⟩, rfl⟩
  | opened body _ hok =>
    rcases hm.2 with ⟨-, hsent⟩ | ⟨herr, -⟩
    · exact ⟨⟨.inl (by simp [hsent]), hall⟩, rfl⟩
    · exact absurd herr hok
  | other body _ hne => exact absurd hm.1 hne

theorem Unheard.step (h : s.Unheard) (hs : s.step e = some s') (hp : s.Paired e) :
    s'.Unheard ∧ s'.returned = s.returned := by
  cases step_cases hs with
  | start | other => exact ⟨h, rfl⟩
  | openQueueSync queueName mode s' hcaller =>
    rcases h.1 with hc | hc <;> exact absurd (hcaller.symm.trans hc) (by decide)
  | wait => exact ⟨⟨.inr rfl, h.2⟩, rfl⟩
  | wake => rcases h.1 with hc | hc <;> exact absurd (hc.symm.trans hp) (by decide)
  | commitMessage messageId s' _ hw | sendMessage message s' hw =>
    obtain ⟨rfl, _⟩ := write_spec hw
    exact ⟨h, rfl⟩
  | redirected body endpoints s' hm => exact absurd h.2 (ne_of_lt (hp hm.1))
  | refused body hm | opened body hm => exact absurd h.2 (ne_of_lt (hp hm))

end

theorem oneByOne_run (r : Execution) (hr : r.Always Paired) : ∀ k ≤ r.length, OneByOne (r.states k) :=
  r.induct (P := fun k => OneByOne (r.states k)) (oneByOne_starts r.starts) fun k hk ih =>
    ih.step (r.steps k hk) (hr k hk)

/-- The request is sent again by each redirection and by nothing else, so that all the client
sends is taken. -/
theorem taken_of_paired (r : Execution) (hr : r.Always Paired) : ∀ k ≤ r.length,
    (r.states k).requests ≤ (r.states k).answers + 1 ∧
      ∀ x ∈ (r.states k).written, Taken (r.states k).partitionId x.2 := by
  have hone := oneByOne_run r hr
  have hinv : ∀ k ≤ r.length, Inv (r.states k) :=
    r.induct (P := fun k => Inv (r.states k)) (inv_starts r.starts)
      fun k hk ih => ih.step (r.steps k hk) ((hone k hk.le).noLateRedirection (hr k hk))
  exact fun k hk => ⟨(hone k hk).unanswered, (hinv k hk).taken⟩

def answer (resp : ClientOpenQueueResponse) : Bytes :=
  ((FlowProto.empty.loadClientOpenQueueResponse resp).setPartitionId 0).serialize

def sentOn : List ClientEvent :=
  [.start, .openQueueSync (toBytes "q") 0, .wait,
    .handleMessage (answer ⟨.error, [], some (toBytes "b"), some (toBytes "1")⟩),
    .handleMessage (answer ⟨.success, [], none, none⟩), .wake, .sendMessage (toBytes "a"), .commitMessage 7]

theorem sentOn_isSome : (Runs.exec (Runs.guarded Paired step) (construct 0 ⟨[], []⟩) sentOn).isSome := by
  decide +kernel

theorem taken_of_paired_sentOn :
    ∃ r : Execution, r.length = 8 ∧ (r.states 8).written.map Prod.fst = [0, 1, 1, 1] ∧
    ∀ x ∈ (r.states 8).written, Taken (r.states 8).partitionId x.2 := by
  let r : Execution :=
    .ofEvents (construct 0 ⟨[], []⟩) ⟨0, _, by decide, rfl⟩ sentOn (Runs.isSome_of_guarded sentOn_isSome)
  exact ⟨r, rfl, by decide +kernel, (taken_of_paired r (Runs.Run.ofEvents_always sentOn_isSome) 8 le_rfl).2⟩

/-- The wait has no condition, so an answer that goes unheard is not heard later, and the call
never returns. -/
theorem unheard_never_returns (r : Execution) (hr : r.Always Paired) {j k : Nat} (hjk : j < k)
    (hk : k ≤ r.length) {body : Bytes} (he : r.events j = .handleMessage body)
    (hm : (r.states j).GoesUnheard (.deserialize body)) :
    ((r.states k).caller = .sent ∨ (r.states k).caller = .waiting) ∧
      (r.states k).returned = (r.states j).returned := by
  have hj : j < r.length := Nat.lt_of_lt_of_le hjk hk
  have hfirst := (oneByOne_run r hr j hj.le).unheard (he ▸ r.steps j hj) (he ▸ hr j hj) hm
  have hstay := r.stable (P := fun k => (r.states k).Unheard ∧ (r.states k).returned = (r.states j).returned)
    (fun k hk ih =>
      have h := ih.1.step (r.steps k hk) (hr k hk)
      ⟨h.1, h.2.trans ih.2⟩) hjk hk hfirst
  exact ⟨hstay.1.1, hstay.2⟩

def unheardAnswer : List ClientEvent :=
  [.start, .openQueueSync (toBytes "q") 0, .handleMessage (answer ⟨.success, [], none, none⟩), .wait,
    .sendMessage (toBytes "a")]

theorem unheardAnswer_isSome :
    (Runs.exec (Runs.guarded Paired step) (construct 0 ⟨[], []⟩) unheardAnswer).isSome := by
  decide +kernel

theorem unheard_never_returns_unheardAnswer : ∃ r : Execution, r.length = 5 ∧
    r.events 2 = .handleMessage (answer ⟨.success, [], none, none⟩) ∧
    ((r.states 5).caller = .sent ∨ (r.states 5).caller = .waiting) ∧
      (r.states 5).returned = (r.states 2).returned := by
  let r : Execution := .ofEvents (construct 0 ⟨[], []⟩) ⟨0, _, by decide, rfl⟩ unheardAnswer
    (Runs.isSome_of_guarded unheardAnswer_isSome)
  have hm : (r.states 2).GoesUnheard (.deserialize (answer ⟨.success, [], none, none⟩)) := by decide +kernel
  exact ⟨r, rfl, rfl, unheard_never_returns r (Runs.Run.ofEvents_always unheardAnswer_isSome) (by decide)
    le_rfl rfl hm⟩

end SimpleClient

end FlowMQ
