import FlowMQ.Commit

/-!
# Append responses at nodes that do not lead

The append response handler does not look at `state_`. A node that is no leader
stays passive on every event except on responses that find their index on a
majority of `matched_index_` or an entry to send next: those make it commit or
replicate under whatever term it is in.
-/

namespace FlowMQ

/-- A handler that takes `p` to `p'` on `msg` does nothing that only leaders should do. -/
structure Passive (p p' : Process) (msg : Option RaftMessage) : Prop where
  silent : ∀ q, ¬ Carries p'.out (.appendEntriesRequest q)
  unchanged : ∀ q, msg = some (.appendEntriesResponse q) →
    p'.commitIndex = p.commitIndex ∧ p'.logEntries = p.logEntries ∧ p'.messageQueue = p.messageQueue ∧
      ∀ l start stop m, Effect.storeLogEntriesAndMetadata l start stop m ∉ p'.out

def IdleReply (r : RaftState) (q : AppendEntriesResponse) : Prop :=
  r.state ≠ .leader → ¬ r.commits q ∧ ¬ r.sendsAfterReply q

instance (r : RaftState) (q : AppendEntriesResponse) : Decidable (IdleReply r q) :=
  inferInstanceAs (Decidable (_ → _))

theorem carries_sends {out : List Effect} {m : RaftMessage} : Carries (sends out) m ↔ Carries out m := by
  simp [Carries, sends, List.mem_filter, Effect.isSend]

theorem Trans.reply_log {r r' : RaftState} {q : AppendEntriesResponse} {l : List Effect}
    (h : Trans r (some (.appendEntriesResponse q)) r' l) : r'.logEntries = r.logEntries := by
  cases h with
  | clientAppend hl e hi ht next pending l hr hm => cases hm
  | _ => rfl

theorem carries_of_entryRequests {r : RaftState} {l : List Effect} (h : r.EntryRequests l) (hne : l ≠ []) :
    ∃ q, Carries l (.appendEntriesRequest q) := by
  obtain ⟨x, hx⟩ := List.exists_mem_of_ne_nil l hne
  obtain ⟨dst, i, -, -, rfl⟩ := h x hx
  exact ⟨_, Or.inl ⟨dst, hx⟩⟩

theorem Trans.reply_sends {r r' : RaftState} {q : AppendEntriesResponse} {l : List Effect}
    (h : Trans r (some (.appendEntriesResponse q)) r' l) (hs : r.sendsAfterReply q) :
    ∃ q', Carries l (.appendEntriesRequest q') := by
  cases h with
  | idle hm => cases hm
  | clientAppend hl e hi ht next pending l hr hm => cases hm
  | replySuccess q h c hc next pending l hl hr =>
    exact carries_of_entryRequests hr fun h0 => hl.mp h0 hs
  | replyTerm q h ht next pending l hl hr => exact carries_of_entryRequests hr fun h0 => hl.mp h0 hs
  | replyRetry q h ht next pending l hl hr => exact carries_of_entryRequests hr fun h0 => hl.mp h0 hs

namespace Process

section
variable {p p' : Process} {msg : Option RaftMessage}
  (ht : Trans p.toRaftState msg p'.toRaftState (sends p'.out)) (hl : p.state ≠ .leader)
include ht hl

theorem silent_of_not_reply
    (h : ∀ q, msg = some (.appendEntriesResponse q) → ¬ p.toRaftState.sendsAfterReply q)
    (q : AppendEntriesRequest) : ¬ Carries p'.out (.appendEntriesRequest q) := by
  intro hq
  rcases (ht.requests (carries_sends.mpr hq)).2 with ⟨hlead, -⟩ | ⟨q', hmsg, hsend, -⟩
  · exact hl hlead
  · exact h q' hmsg hsend

theorem passive_iff (hrec : p'.out.filter Effect.isRecord = p.toRaftState.records msg)
    (hqueue : ∀ q, msg = some (.appendEntriesResponse q) → ¬ p.toRaftState.commits q →
      p'.messageQueue = p.messageQueue) :
    Passive p p' msg ↔ ∀ m ∈ msg, onAppendResponse IdleReply p.toRaftState m := by
  constructor
  · intro h m hm
    unfold onAppendResponse
    split
    · rename_i q
      cases hm
      refine fun _ => ⟨fun hcom => ?_, fun hsend => ?_⟩
      · have hci := ht.commitIndex
        rw [RaftState.commitTarget, if_pos hcom, (h.unchanged q rfl).1] at hci
        exact absurd hci (ne_of_lt hcom.2.1)
      · obtain ⟨q', hq'⟩ := ht.reply_sends hsend
        exact h.silent q' (carries_sends.mp hq')
    · trivial
  · intro h
    have hidle : ∀ q, msg = some (.appendEntriesResponse q) → ¬ p.toRaftState.commits q ∧
        ¬ p.toRaftState.sendsAfterReply q :=
      fun q hq => h _ hq hl
    refine ⟨silent_of_not_reply ht hl fun q hq => (hidle q hq).2, fun q hq => ?_⟩
    have hcom := (hidle q hq).1
    have htar : p.toRaftState.commitTarget msg = none := by rw [hq]; exact if_neg hcom
    refine ⟨?_, ?_, hqueue q hq hcom, fun l start stop m hm => ?_⟩
    · rw [ht.commitIndex, htar]
      rfl
    · rw [hq] at ht
      exact ht.reply_log
    · obtain ⟨t, htar', -⟩ := mem_records hrec hm rfl
      rw [htar] at htar'
      cases htar'

end

end Process

namespace Cluster

variable {n : Nat}

def handled (s : Cluster n) : Event n → Option (Fin n × Option RaftMessage)
  | .input i _ => some (i, none)
  | .deliver k _ => s.net[k]?.map fun pk => (pk.dst, some pk.msg)
  | .redeliver k _ => s.net[k]?.map fun pk => (pk.dst, some pk.msg)
  | .lose _ => none

/-- On every event, a node that is no leader is passive exactly when the event is no append response that
finds its index on a majority or an entry to send. -/
theorem passive_iff_idleReply {c : Channel} {s s' : Cluster n} {e : Event n} (hs : s.step c e = some s') {i : Fin n}
    {msg : Option RaftMessage} (hh : s.handled e = some (i, msg)) (hl : (s.procs i).state ≠ .leader) :
    Passive (s.procs i) (s'.procs i) msg ↔ onMessage (onAppendResponse IdleReply) s e := by
  cases step_spec hs with
  | lose => cases hh
  | input ha =>
    cases hh
    refine (Process.passive_iff ha.trans hl ha.records fun q hq => by cases hq).trans ?_
    simp [onMessage]
  | @message _ k now pk net he hk hleft ha =>
    obtain ⟨rfl, rfl⟩ : pk.dst = i ∧ some pk.msg = msg := by
      rcases he with rfl | rfl <;> simpa [handled, hk] using hh
    refine (Process.passive_iff ha.trans hl ha.records fun q hq hcom => ?_).trans ?_
    · rw [Option.some.inj hq]
      simp only [act, Function.update_self]
      exact (blind_messageQueue.appendEntriesResponse q (s.procs pk.dst).clear).trans (if_neg hcom)
    · rcases he with rfl | rfl <;> simp [onMessage, hk]

/-- Node 0 leads term 1 and sends node 1 a request on `inp`. When the response is
on its way, node 2 is elected for term 2 and its heartbeat makes node 0 a follower. -/
def lateReply (inp : Input) : List (Event 3) :=
  electZero ++ [.input 0 inp, .deliver 1 2, .input 2 (.voteTimer 2), .input 2 (.voteTimer 3),
    .input 2 .voteRequestTimer, .deliver 4 4, .deliver 4 5, .input 2 .heartbeatTimer, .lose 3, .deliver 3 6]

theorem passive_lateReply_heartbeat :
    ∃ s s' : Cluster 3, Reachable .fifo Free s ∧ s.step .fifo (.deliver 2 7) = some s' ∧
    (s.procs 0).state ≠ .leader ∧
    s.handled (.deliver 2 7) = some (0, some (.appendEntriesResponse ⟨1, 1, 1, 0⟩)) ∧
    Passive (s.procs 0) (s'.procs 0) (some (.appendEntriesResponse ⟨1, 1, 1, 0⟩)) := by
  obtain ⟨s, hr, hstep, hl, hh, hidle⟩ :=
    exists_reachable (c := .fifo) (G := Free) (lateReply .heartbeatTimer)
    (fun s => (s.step .fifo (.deliver 2 7)).isSome = true ∧ (s.procs 0).state ≠ .leader ∧
      s.handled (.deliver 2 7) = some (0, some (.appendEntriesResponse ⟨1, 1, 1, 0⟩)) ∧
      onMessage (onAppendResponse IdleReply) s (.deliver 2 7)) (by decide +kernel)
  obtain ⟨s', hs'⟩ := Option.isSome_iff_exists.mp hstep
  exact ⟨s, s', hr, hs', hl, hh, (passive_iff_idleReply hs' hh hl).mpr hidle⟩

/-- The response to a message makes the former leader commit it in the term of another one. -/
theorem not_passive_lateReply_put : ∃ (s s' : Cluster 3) (e : Event 3) (i : Fin 3) (msg : Option RaftMessage),
    Reachable .fifo Free s ∧ s.step .fifo e = some s' ∧ s.handled e = some (i, msg) ∧
    (s.procs i).state ≠ .leader ∧
      ¬ Passive (s.procs i) (s'.procs i) msg := by
  obtain ⟨s, hr, hstep, hl, hh, hci⟩ := exists_reachable (c := .fifo) (G := Free)
    (lateReply (.clientPutMessage 7 (toBytes "a")))
    (fun s => (s.step .fifo (.deliver 2 7)).any (fun s' => (s'.procs 0).commitIndex = 1) = true ∧
      (s.procs 0).state ≠ .leader ∧
      s.handled (.deliver 2 7) = some (0, some (.appendEntriesResponse ⟨1, 1, 1, 1⟩)) ∧
      (s.procs 0).commitIndex = 0) (by decide +kernel)
  obtain ⟨s', hs', hci'⟩ := (Option.any_eq_true _ _).mp hstep
  refine ⟨s, s', .deliver 2 7, 0, _, hr, hs', hh, hl, fun h => ?_⟩
  have heq := (h.unchanged _ rfl).1
  rw [hci, of_decide_eq_true hci'] at heq
  cases heq

end Cluster

end FlowMQ
