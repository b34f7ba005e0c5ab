import FlowMQ.NodeEffects

/-!
# Steps and runs of the cluster

A step of the cluster in terms of `Trans`: which node acts, on which message,
and what is in flight afterwards. Runs are induced over with `reachable_induct`.
-/

namespace FlowMQ

namespace Cluster

variable {n : Nat}

def raft (s : Cluster n) (i : Fin n) : RaftState := (s.procs i).toRaftState

theorem packets_sends (i : Fin n) (out : List Effect) :
    out.flatMap (packets i) = (sends out).flatMap (packets i) := by
  induction out with
  | nil => rfl
  | cons e out ih =>
    have h : sends (e :: out) = if e.isSend then e :: sends out else sends out := List.filter_cons ..
    rw [List.flatMap_cons, ih, h]
    cases e <;> simp [Effect.isSend, packets]

structure Acts (s : Cluster n) (i : Fin n) (msg : Option RaftMessage) (net : List (Packet n)) (s' : Cluster n) :
    Prop where
  others : ∀ j, j ≠ i → s'.raft j = s.raft j
  trans : Trans (s.raft i) msg (s'.raft i) (sends (s'.procs i).out)
  net : s'.net = net ++ (sends (s'.procs i).out).flatMap (packets i)
  history : s'.history = s.history ++ (s'.procs i).out.map fun e => (i, e)
  records : (s'.procs i).out.filter Effect.isRecord = (s.raft i).records msg

theorem acts_of {s : Cluster n} {i : Fin n} {f : Process → Process} {msg : Option RaftMessage}
    {net : List (Packet n)}
    (h : Process.Does (s.raft i) msg (f (s.procs i).clear))
    (hrec : (f (s.procs i).clear).out.filter Effect.isRecord = (s.raft i).records msg) :
    Acts s i msg net (s.act i f net) where
  others := fun j hj => by simp [raft, act, Function.update_of_ne hj]
  trans := by simpa [raft, act, Process.Does] using h
  net := by simp [act, ← packets_sends]
  history := by simp [act]
  records := by simpa [act] using hrec

theorem acts_message (s : Cluster n) (pk : Packet n) (now : Int) (net : List (Packet n)) :
    Acts s pk.dst (some pk.msg) net (s.act pk.dst (·.localMessageHandler now 0 pk.msg) net) :=
  acts_of (Process.does_localMessageHandler (s.procs pk.dst).clear rfl now 0 pk.msg)
    (Process.records_localMessageHandler (s.procs pk.dst).clear rfl now 0 pk.msg)

theorem split_at {α : Type} {l : List α} {k : Nat} {a : α} (h : l[k]? = some a) :
    l = l.take k ++ a :: l.drop (k + 1) ∧ l.eraseIdx k = l.take k ++ l.drop (k + 1) := by
  obtain ⟨hk, rfl⟩ := List.getElem?_eq_some_iff.mp h
  refine ⟨?_, List.eraseIdx_eq_take_drop_succ ..⟩
  rw [← List.drop_eq_getElem_cons hk, List.take_append_drop]

/-- What is left in flight when a packet is handled: all but the packet, or, on
duplicating channels, possibly everything. -/
def Left (c : Channel) (s : Cluster n) (pk : Packet n) (net : List (Packet n)) : Prop :=
  (∃ l₁ l₂, s.net = l₁ ++ pk :: l₂ ∧ net = l₁ ++ l₂) ∨ (c = .duplicating ∧ pk ∈ s.net ∧ net = s.net)

inductive Step (c : Channel) (s : Cluster n) : Event n → Cluster n → Prop
  | lose {k pk l₁ l₂} (h : s.net = l₁ ++ pk :: l₂) : Step c s (.lose k) { s with net := l₁ ++ l₂ }
  | input {i inp} (h : Acts s i none s.net (s.act i (·.handle inp) s.net)) :
    Step c s (.input i inp) (s.act i (·.handle inp) s.net)
  | message {e k now pk net} (he : e = .deliver k now ∨ e = .redeliver k now) (hk : s.net[k]? = some pk)
    (hl : Left c s pk net)
    (h : Acts s pk.dst (some pk.msg) net (s.act pk.dst (·.localMessageHandler now 0 pk.msg) net)) :
    Step c s e (s.act pk.dst (·.localMessageHandler now 0 pk.msg) net)

theorem step_spec {c : Channel} {s s' : Cluster n} {e : Event n} (h : s.step c e = some s') :
    Step c s e s' := by
  cases e with
  | input i inp =>
    simp only [step] at h
    split at h
    · rename_i hen
      cases h
      exact .input (acts_of (Process.does_handle (s.procs i).clear rfl inp hen)
        (Process.records_handle (s.procs i).clear rfl inp))
    · cases h
  | deliver k now =>
    simp only [step] at h
    split at h
    · cases h
    · rename_i pk hk
      split at h
      · cases h
      · cases h
        have hs := split_at hk
        exact .message (Or.inl rfl) hk (Or.inl ⟨_, _, hs.1, hs.2⟩) (acts_message s pk now _)
  | redeliver k now =>
    simp only [step] at h
    split at h
    · cases h
    · rename_i pk hk
      split at h
      · rename_i hc
        cases h
        exact .message (Or.inr rfl) hk (Or.inr ⟨hc, List.mem_of_getElem? hk, rfl⟩) (acts_message s pk now _)
      · cases h
  | lose k =>
    simp only [step] at h
    split at h
    · rename_i hk
      cases h
      have hs := split_at (List.getElem?_eq_getElem hk)
      rw [hs.2]
      exact .lose hs.1
    · cases h

theorem step_deliver {c : Channel} {s s' : Cluster n} {k : Nat} {now : Int} {pk : Packet n}
    (h : s.step c (.deliver k now) = some s') (hk : s.net[k]? = some pk) :
    s' = s.act pk.dst (·.localMessageHandler now 0 pk.msg) (s.net.eraseIdx k) := by
  simp only [step, hk] at h
  split at h
  · cases h
  · exact (Option.some.inj h).symm

theorem acts_deliver {c : Channel} {s s' : Cluster n} {k : Nat} {now : Int} {pk : Packet n}
    (h : s.step c (.deliver k now) = some s') (hk : s.net[k]? = some pk) :
    Acts s pk.dst (some pk.msg) (s.net.eraseIdx k) s' := by
  rw [step_deliver h hk]
  exact acts_message s pk now _

theorem mem_packets {i : Fin n} {e : Effect} {pk : Packet n} (h : pk ∈ packets i e) :
    pk.src = i ∧ pk.dst ≠ i ∧ (e = .writeMessage pk.dst.val pk.msg ∨ e = .broadCast pk.msg) := by
  cases e with
  | writeMessage dst msg =>
    simp only [packets, List.mem_map, List.mem_filter, decide_eq_true_eq] at h
    obtain ⟨j, ⟨-, hj, hne⟩, rfl⟩ := h
    exact ⟨rfl, hne, Or.inl (by rw [hj])⟩
  | broadCast msg =>
    simp only [packets, List.mem_map, List.mem_filter, decide_eq_true_eq] at h
    obtain ⟨j, ⟨-, hne⟩, rfl⟩ := h
    exact ⟨rfl, hne, Or.inr rfl⟩
  | _ => simp [packets] at h

theorem mem_sent {i : Fin n} {l : List Effect} {pk : Packet n} (h : pk ∈ l.flatMap (packets i)) :
    pk.src = i ∧ pk.dst ≠ i ∧ (.writeMessage pk.dst.val pk.msg ∈ l ∨ .broadCast pk.msg ∈ l) := by
  obtain ⟨e, he, hpk⟩ := List.mem_flatMap.mp h
  obtain ⟨h₁, h₂, h₃ | h₃⟩ := mem_packets hpk
  · exact ⟨h₁, h₂, Or.inl (h₃ ▸ he)⟩
  · exact ⟨h₁, h₂, Or.inr (h₃ ▸ he)⟩

theorem carries_of_mem {i : Fin n} {l : List Effect} {pk : Packet n} (h : pk ∈ l.flatMap (packets i)) :
    Carries l pk.msg :=
  (mem_sent h).2.2.imp (fun h => ⟨_, h⟩) id

theorem nodup_packets (i : Fin n) (e : Effect) : (packets i e).Nodup := by
  cases e with
  | writeMessage dst msg =>
    exact ((List.nodup_finRange n).filter _).map fun a b hab => by simpa using hab
  | broadCast msg =>
    exact ((List.nodup_finRange n).filter _).map fun a b hab => by simpa using hab
  | _ => exact List.nodup_nil

theorem countP_packets_le {i v : Fin n} {e : Effect} {P : Packet n → Bool}
    (hP : ∀ pk ∈ packets i e, P pk = true → pk.dst = v) : (packets i e).countP P ≤ 1 := by
  have hone : ∀ a ∈ (packets i e).filter P, ∀ b ∈ (packets i e).filter P, a = b := by
    intro a ha b hb
    obtain ⟨ha, hPa⟩ := List.mem_filter.mp ha
    obtain ⟨hb, hPb⟩ := List.mem_filter.mp hb
    obtain ⟨hsa, -, hma⟩ := mem_packets ha
    obtain ⟨hsb, -, hmb⟩ := mem_packets hb
    have hmsg : a.msg = b.msg := by
      rcases hma with rfl | rfl
      · rcases hmb with hmb | hmb
        · exact (Effect.writeMessage.inj hmb).2
        · cases hmb
      · rcases hmb with hmb | hmb
        · cases hmb
        · exact Effect.broadCast.inj hmb
    obtain ⟨asrc, adst, amsg⟩ := a
    obtain ⟨bsrc, bdst, bmsg⟩ := b
    simp only [Packet.mk.injEq]
    exact ⟨hsa.trans hsb.symm, (hP _ ha hPa).trans (hP _ hb hPb).symm, hmsg⟩
  have hnd := (nodup_packets i e).filter P
  rw [List.countP_eq_length_filter]
  match hl : (packets i e).filter P with
  | [] => simp
  | [a] => simp
  | a :: b :: l =>
    rw [hl] at hone hnd
    have hab := hone a (by simp) b (by simp)
    simp [hab] at hnd

theorem mem_of_split {s : Cluster n} {pk : Packet n} {l₁ l₂ : List (Packet n)} (h : s.net = l₁ ++ pk :: l₂) :
    ∀ q ∈ l₁ ++ l₂, q ∈ s.net := by
  intro q hq
  rw [h]
  rcases List.mem_append.mp hq with hq | hq <;> simp [hq]

theorem Left.subset {c : Channel} {s : Cluster n} {pk : Packet n} {net : List (Packet n)}
    (h : Left c s pk net) : pk ∈ s.net ∧ ∀ q ∈ net, q ∈ s.net := by
  rcases h with ⟨l₁, l₂, hs, rfl⟩ | ⟨-, hpk, rfl⟩
  · exact ⟨by simp [hs], mem_of_split hs⟩
  · exact ⟨hpk, fun q hq => hq⟩

section

variable {s s' : Cluster n} {i : Fin n} {msg : Option RaftMessage} {net : List (Packet n)}

theorem Acts.forall_raft {P : Fin n → RaftState → Prop} (ha : Acts s i msg net s') (h : ∀ j, P j (s.raft j))
    (hi : P i (s'.raft i)) (j : Fin n) : P j (s'.raft j) := by
  by_cases hj : j = i
  · rw [hj]
    exact hi
  · rw [ha.others j hj]
    exact h j

theorem Acts.mem_net (ha : Acts s i msg net s') (hnet : ∀ pk ∈ net, pk ∈ s.net) {pk : Packet n}
    (h : pk ∈ s'.net) : pk ∈ s.net ∨ pk ∈ (sends (s'.procs i).out).flatMap (packets i) := by
  rw [ha.net] at h
  exact (List.mem_append.mp h).imp (hnet pk) id

theorem Acts.links (ha : Acts s i msg net s') (hnet : ∀ pk ∈ net, pk ∈ s.net)
    (h : ∀ pk ∈ s.net, pk.src ≠ pk.dst) : ∀ pk ∈ s'.net, pk.src ≠ pk.dst := by
  intro pk hpk
  rcases ha.mem_net hnet hpk with hold | hnew
  · exact h pk hold
  · obtain ⟨hsrc, hdst, -⟩ := mem_sent hnew
    rw [hsrc]
    exact hdst.symm

end

theorem onMessage_mono {p p' : RaftState → RaftMessage → Prop} (hp : ∀ r m, p r m → p' r m) (s : Cluster n)
    (e : Event n) (h : onMessage p s e) : onMessage p' s e := by
  cases e with
  | deliver k now => exact fun pk hpk => hp _ _ (h pk hpk)
  | redeliver k now => exact fun pk hpk => hp _ _ (h pk hpk)
  | _ => trivial

/-! ## Runs -/

theorem reachable_induct {c : Channel} {G : Cluster n → Event n → Prop} {P : Cluster n → Prop}
    (hinit : ∀ s, Starts s → P s)
    (hstep : ∀ s e s', Reachable c G s → P s → G s e → s.step c e = some s' → P s') {s : Cluster n}
    (h : Reachable c G s) : P s := by
  obtain ⟨s₀, h₀, hs⟩ := h
  induction hs with
  | refl => exact hinit _ h₀
  | tail hs hn ih =>
    obtain ⟨e, hG, he⟩ := hn
    exact hstep _ e _ ⟨s₀, h₀, hs⟩ ih hG he

theorem Reachable.exists_run {c : Channel} {G : Cluster n → Event n → Prop} {s : Cluster n} (h : Reachable c G s) :
    ∃ r : Execution n c, r.Always G ∧ r.states r.length = s := by
  obtain ⟨s₀, h₀, hs⟩ := h
  exact Runs.exists_run h₀ hs

theorem reachable_of_run {c : Channel} {G : Cluster n → Event n → Prop} (r : Execution n c) (hr : r.Always G)
    {k : Nat} (hk : k ≤ r.length) : Reachable c G (r.states k) :=
  ⟨_, r.starts, r.reaches hr (Nat.zero_le k) hk⟩

theorem reachable_of_exec {c : Channel} {G : Cluster n → Event n → Prop} [∀ s e, Decidable (G s e)]
    {s₀ s : Cluster n} (h₀ : Starts s₀) {es : List (Event n)}
    (h : Runs.exec (Runs.guarded G (step c)) s₀ es = some s) :
    Reachable c G s :=
  ⟨s₀, h₀, Runs.reaches_of_exec h⟩

theorem starts_fresh : Starts (fresh n) := ⟨0, [], _, rfl⟩

theorem starts_three : Starts (fresh 3) := starts_fresh

theorem reachable_fresh {c : Channel} {es : List (Event n)} {s : Cluster n}
    (h : Runs.exec (step c) (fresh n) es = some s) : Reachable c Free s := by
  have hn : Runs.guarded Free (step c) = (step c : Cluster n → Event n → Option (Cluster n)) := by
    funext s e
    exact if_pos trivial
  exact reachable_of_exec starts_fresh (hn ▸ h)

theorem exists_reachable {c : Channel} {G : Cluster n → Event n → Prop} [∀ s e, Decidable (G s e)]
    (es : List (Event n)) (P : Cluster n → Prop) [DecidablePred P]
    (h : (Runs.exec (Runs.guarded G (step c)) (fresh n) es).any (fun s => P s) = true) :
    ∃ s, Reachable c G s ∧ P s := by
  cases hs : Runs.exec (Runs.guarded G (step c)) (fresh n) es with
  | none => rw [hs] at h; cases h
  | some s =>
    rw [hs] at h
    exact ⟨s, reachable_of_exec starts_fresh hs, of_decide_eq_true h⟩

/-! ## The initial state -/

theorem raft_init (partitionId : Int) (serverNodes : List ServerNode) (garbage : Fin n → Process.Garbage)
    (i : Fin n) :
    (init n partitionId serverNodes garbage).raft i =
      { partitionId := partitionId, nodeId := i.val, totalNodes := n, state := .candidate, curTerm := 0
        curLeader := -1, lastHeartBeatReceived := (garbage i).lastHeartBeatReceived
        votesCollected := (garbage i).votesCollected, votedFor := -1, logEntries := [LogEntry.dummy]
        commitIndex := 0, nextIndex := ((init n partitionId serverNodes garbage).raft i).nextIndex
        matchedIndex := ((init n partitionId serverNodes garbage).raft i).matchedIndex
        pendingAppendReqs := ∅, voteRequestTimers := 0 } := by
  simp [raft, init, Process.construct, Process.commitLoop]

end Cluster

end FlowMQ
