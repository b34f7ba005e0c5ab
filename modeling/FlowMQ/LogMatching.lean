import FlowMQ.Election
import FlowMQ.LogShape

/-!
# Log matching

The handlers compare entries by term only. As long as each term has one leader
and that leader does not cut its own log, every log of the run is consistent
with the logs of the terms: an entry, with all before it, is what the winner of
its term had there.
-/

namespace FlowMQ

/-- A leader does not take an entry that conflicts with its log from a request of its own term. -/
def KeepsLeaderLog (r : RaftState) (q : AppendEntriesRequest) : Prop :=
  r.state = .leader → q.term = r.curTerm →
    checkIfPreviousLogInSync q.prevLogTerm q.prevLogIndex r.logEntries = true →
    ∀ e ∈ q.entries, ∀ e' ∈ r.logEntries[(q.prevLogIndex + 1).toNat]?, e'.term = e.term

instance (r : RaftState) (q : AppendEntriesRequest) : Decidable (KeepsLeaderLog r q) :=
  inferInstanceAs (Decidable (_ → _))

theorem appendLog_keeps_iff {log : List LogEntry} {q : AppendEntriesRequest} (hq : ShapedRequest q)
    (hs : checkIfPreviousLogInSync q.prevLogTerm q.prevLogIndex log = true) :
    log <+: appendLog q.prevLogIndex q.entries log ↔
      ∀ e ∈ q.entries, ∀ e' ∈ log[(q.prevLogIndex + 1).toNat]?, e'.term = e.term := by
  obtain ⟨p, hp, he | ⟨e, he, -, -, -⟩⟩ := hq.cases
  · simp [he, appendLog]
  · have hnat : ((p : Int) + 1).toNat = p + 1 := by omega
    simp only [hp, he, List.forall_mem_singleton, hnat] at hs ⊢
    obtain ⟨e₀, he₀, -⟩ := inSync_iff.mp hs
    have hlt : p < log.length := (List.getElem?_eq_some_iff.mp he₀).1
    rcases appendLog_single (e := e) hlt with ⟨e', he', hterm, hlog⟩ | ⟨hlen | ⟨e', he', hne⟩, hlog⟩
    · rw [hlog, he']
      exact iff_of_true (List.prefix_refl _) fun _ h => by cases h; exact hterm
    · rw [hlog, List.take_of_length_le (by omega), List.getElem?_eq_none (by omega)]
      exact iff_of_true (List.prefix_append _ _) fun _ h => by cases h
    · -- the entry at `p + 1` is replaced by one of another term
      refine iff_of_false (fun hpre => ?_) fun h => hne (h e' he')
      rw [hlog] at hpre
      have hget := get_of_isPrefix hpre he'
      rw [List.getElem?_append_right (by simp), List.length_take, min_eq_left (by omega), Nat.sub_self] at hget
      exact hne (congrArg LogEntry.term (Option.some.inj hget)).symm

theorem Trans.leader_log {r r' : RaftState} {msg : Option RaftMessage} {l : List Effect} (ht : Trans r msg r' l)
    (hl : r.state = .leader) (hct : r'.curTerm = r.curTerm)
    (hq : ∀ q, msg = some (.appendEntriesRequest q) → ShapedRequest q)
    (hk : ∀ m, msg = some m → onAppendRequest KeepsLeaderLog r m) : r.logEntries <+: r'.logEntries := by
  cases ht with
  | clientAppend h e => exact List.prefix_append _ _
  | acceptAppend q now h hs => exact (appendLog_keeps_iff (hq q rfl) hs).mpr (hk _ rfl hl hct hs)
  | _ => exact List.prefix_refl _

namespace Cluster

variable {n : Nat}

structure LogInv (s : Cluster n) (g : Ghost n) : Prop where
  current : ∀ i, g.lastLog i (s.raft i).curTerm = (s.raft i).logEntries
  consistent : ∀ i t, TermLog.Consistent LogEntry.term g.log (g.lastLog i t)
  requests : ∀ pk ∈ s.net, ∀ q, pk.msg = .appendEntriesRequest q → ∀ e ∈ q.entries,
    ∃ M, TermLog.Consistent LogEntry.term g.log M ∧ (∃ e₀, M[q.prevLogIndex.toNat]? = some e₀ ∧
      e₀.term = q.prevLogTerm) ∧ M[q.prevLogIndex.toNat + 1]? = some e

theorem logInv_starts {s : Cluster n} (h : Starts s) : LogInv s (Ghost.start n) := by
  obtain ⟨partitionId, serverNodes, garbage, rfl⟩ := h
  constructor
  · intro i
    rw [raft_init]
    simp [Ghost.start]
  · intro i t F e hp
    simp only [Ghost.start] at hp
    split at hp
    · simpa [Ghost.log, Ghost.start] using hp
    · exact absurd (List.prefix_nil.mp hp) (by simp)
  · intro pk hpk
    cases hpk

section
variable {c : Channel} {s s' : Cluster n} {g g' : Ghost n} {e : Event n}

theorem current_moves (h : LogInv s g) (hm : Moves c s g e s' g') (i : Fin n) :
    g'.lastLog i (s'.raft i).curTerm = (s'.raft i).logEntries := by
  cases hm with
  | lose hn hn' hr => rw [hr]; exact h.current i
  | @act j who msg net l hh ht ho hn =>
    by_cases hi : i = j
    · subst hi; exact Ghost.record_lastLog_self ..
    · rw [ho i hi, Ghost.record_lastLog_of_ne fun hj => hi hj.1]
      exact h.current i

variable (hc : c ≠ .duplicating) (h : LogInv s g) (he : ElectionInv s g) (hw : WellFormed s) (hw' : WellFormed s')
  (hm : Moves c s g e s' g') (hk : onMessage (onAppendRequest KeepsLeaderLog) s e)
include hc h he hw hw' hm hk

theorem log_moves (t : Int) : g.log t <+: g'.log t := by
  have hstable := @won_stable n c s s' g g' e he hm hc t
  cases hm with
  | lose => exact List.prefix_refl _
  | @act i who msg net l hh ht ho hn =>
    unfold Ghost.log
    cases hwon : g.won t with
    | some w =>
      rw [hstable hwon]
      by_cases hi : w = i ∧ t = (s'.raft i).curTerm
      · obtain ⟨rfl, rfl⟩ := hi
        obtain ⟨-, hle, hlead⟩ := he.won _ w hwon
        have hct : (s.raft w).curTerm = (s'.raft w).curTerm := le_antisymm ht.curTerm_le hle
        simp only [Ghost.record_lastLog_self]
        rw [← hct, h.current]
        refine ht.leader_log (hlead hct) hct.symm ?_ (hh.condition hk)
        rintro q rfl
        obtain ⟨pk, -, -, hmsg, hl, -⟩ := hh.message_inv
        exact hw.requests pk hl.subset.1 q hmsg
      · simp only [Ghost.record_lastLog_of_ne hi]
        exact List.prefix_refl _
    | none =>
      simp only
      split
      · rename_i w hwon'
        by_cases hnew : Wins (s.raft i) (s'.raft i) ∧ t = (s'.raft i).curTerm
        · obtain ⟨hwin, rfl⟩ := hnew
          rw [Ghost.record_won_wins hwin] at hwon'
          cases hwon'
          rw [Ghost.record_lastLog_self]
          have hhead := (hw'.logs i).head
          cases hlog : (s'.raft i).logEntries with
          | nil => rw [hlog] at hhead; cases hhead
          | cons a as =>
            rw [hlog] at hhead
            cases hhead
            exact ⟨as, rfl⟩
        · rw [Ghost.record_won_of_not hnew, hwon] at hwon'
          cases hwon'
      · exact List.prefix_refl _

theorem consistent_acts (hlw : LeadersWon s g) {i who : Fin n} {msg : Option RaftMessage} {net : List (Packet n)}
    {l : List Effect} (hh : Handles c s e i who msg net) (ht : Trans (s.raft i) msg (s'.raft i) l)
    (hg : g' = g.record i who (s.raft i) (s'.raft i)) :
    TermLog.Consistent LogEntry.term g'.log (s'.raft i).logEntries := by
  have hgrow := log_moves hc h he hw hw' hm hk
  have hstable := @won_stable n c s s' g g' e he hm hc
  have hold : TermLog.Consistent LogEntry.term g'.log (s.raft i).logEntries := by
    rw [← h.current]
    exact (h.consistent _ _).mono hgrow
  have hlast : g'.lastLog i (s'.raft i).curTerm = (s'.raft i).logEntries := by
    rw [hg]
    exact Ghost.record_lastLog_self ..
  have hwon := hlw i
  revert hlast
  generalize s'.raft i = r' at ht
  intro hlast
  cases ht with
  | clientAppend hl e' hi ht next pending l hr =>
    refine hold.snoc ?_
    have hlog : g'.log (s.raft i).curTerm = (s.raft i).logEntries ++ [e'] := by
      unfold Ghost.log
      rw [hstable (hwon hl)]
      exact hlast
    rw [ht, hlog]
  | acceptAppend q now hle hs =>
    obtain ⟨pk, -, -, hmsg, hl, -⟩ := hh.message_inv
    obtain ⟨p, hp, hes | ⟨e', hes, -, -, -⟩⟩ := (hw.requests pk hl.subset.1 q hmsg).cases
    · simpa [hes, appendLog] using hold
    · obtain ⟨M, hM, ⟨e₁, he₁, ht₁⟩, he'⟩ := h.requests pk hl.subset.1 q hmsg e' (by simp [hes])
      simp only [hp, hes] at hs ⊢
      rw [hp, Int.toNat_natCast] at he₁ he'
      obtain ⟨e₀, he₀, ht₀⟩ := inSync_iff.mp hs
      have hlt : p < (s.raft i).logEntries.length := (List.getElem?_eq_some_iff.mp he₀).1
      rcases appendLog_single (e := e') hlt with ⟨e'', -, -, hlog⟩ | ⟨-, hlog⟩
      · rw [hlog]; exact hold
      · have hM' := hM.mono hgrow
        rw [hlog, hold.matching hM' _ _ _ he₀ he₁ (ht₀.trans ht₁.symm)]
        obtain ⟨hlt', rfl⟩ := List.getElem?_eq_some_iff.mp he'
        rw [← List.take_succ_eq_append_getElem hlt']
        exact hM'.of_prefix (List.take_prefix _ _)
  | _ => exact hold

theorem LogInv.moves (hlw : LeadersWon s g) : LogInv s' g' := by
  have hgrow := log_moves hc h he hw hw' hm hk
  have hacts := @consistent_acts n c s s' g g' e hc h he hw hw' hm hk hlw
  refine ⟨current_moves h hm, ?_, ?_⟩
  · intro j t
    cases hm with
    | lose => exact h.consistent j t
    | @act i who msg net l hh ht ho hn =>
      by_cases hj : j = i ∧ t = (s'.raft i).curTerm
      · obtain ⟨rfl, rfl⟩ := hj
        rw [Ghost.record_lastLog_self]
        exact hacts hh ht rfl
      · rw [Ghost.record_lastLog_of_ne hj]
        exact (h.consistent j t).mono hgrow
  · intro pk hpk q hq e' he'
    cases hm.inFlight hpk with
    | old hpk =>
      obtain ⟨M, hM, hrest⟩ := h.requests pk hpk q hq e' he'
      exact ⟨M, hM.mono hgrow, hrest⟩
    | sent hh ht ho hpk =>
      rcases (ht.requests (hq ▸ carries_of_mem hpk)).1 with rfl | ⟨k, hk', rfl⟩
      · simp [RaftState.heartbeat] at he'
      · simp only [RaftState.entryRequest, List.mem_singleton] at he' ⊢
        subst he'
        have hprev : (((k + 1 : Nat) : Int) - 1).toNat = k := by omega
        have hprev' : ((k + 1 : Nat) : Int) - 1 = (k : Nat) := by omega
        rw [hprev, hprev']
        exact ⟨_, hacts hh ht rfl, ⟨_, get_of_lt (by omega), rfl⟩, get_of_lt hk'⟩

end

theorem wellFormed_run {c : Channel} (r : Execution n c) {k : Nat} (hk : k ≤ r.length) :
    WellFormed (r.states k) := by
  have hfree : r.Always Free := fun _ _ => trivial
  exact wellFormed_reachable (reachable_of_run r hfree hk)

theorem logInv {c : Channel} (hc : c ≠ .duplicating) (r : Execution n c) (hk : r.Always (onMessage KeepsTerm))
    (hl : r.Always (onMessage (onAppendRequest KeepsLeaderLog))) :
    ∀ k ≤ r.length, LogInv (r.states k) (past r k) :=
  r.induct (logInv_starts r.starts) fun k hk' ih =>
    ih.moves hc (electionInv hc r k hk'.le) (wellFormed_run r hk'.le) (wellFormed_run r hk')
      (moves r hk') (hl k hk')
      (leadersWon hc r hk k hk'.le)

def LogsMatch (s : Cluster n) : Prop :=
  ∀ a b : Fin n, ∀ (i : Nat) (e e' : LogEntry), (s.procs a).logEntries[i]? = some e →
    (s.procs b).logEntries[i]? = some e' → e.term = e'.term →
    ∀ j ≤ i, (s.procs a).logEntries[j]? = (s.procs b).logEntries[j]?

theorem LogInv.matching {s : Cluster n} {g : Ghost n} (h : LogInv s g) (a b : Fin n) :
    TermLog.Matching LogEntry.term (s.procs a).logEntries (s.procs b).logEntries := by
  have hcon : ∀ x, TermLog.Consistent LogEntry.term g.log (s.procs x).logEntries := by
    intro x
    have hx := h.consistent x (s.raft x).curTerm
    rw [h.current] at hx
    exact hx
  exact (hcon a).matching (hcon b)

theorem logsMatch_of_consistent {s : Cluster n} {g : Ghost n} (h : LogInv s g) : LogsMatch s := by
  intro a b i e e' he he' ht j hj
  have htake := h.matching a b i e e' he he' ht
  calc (s.procs a).logEntries[j]? = ((s.procs a).logEntries.take (i + 1))[j]? := by
        rw [List.getElem?_take_of_lt (by omega)]
    _ = ((s.procs b).logEntries.take (i + 1))[j]? := by rw [htake]
    _ = (s.procs b).logEntries[j]? := by rw [List.getElem?_take_of_lt (by omega)]

/-- Logs match as long as leaders keep to the term they won and do not cut their own logs. -/
theorem logsMatch_of_keeps {s : Cluster n}
    (h : Reachable .fifo (onMessage fun r m => KeepsTerm r m ∧ onAppendRequest KeepsLeaderLog r m) s) :
    LogsMatch s := by
  obtain ⟨r, hr, rfl⟩ := h.exists_run
  exact logsMatch_of_consistent (logInv (by decide) r (hr.mono (onMessage_mono fun _ _ h => h.1))
    (hr.mono (onMessage_mono fun _ _ h => h.2)) _ (le_refl _))

/-- Leaders of terms 1 and 2 both take messages; then the second one's entry replaces the first one's on
node 0. -/
def replacedEntry : List (Event 3) :=
  secondElection ++ [.input 0 (.clientPutMessage 7 (toBytes "a")),
    .input 2 (.clientPutMessage 8 (toBytes "b")), .lose 0, .deliver 2 6]

theorem logsMatch_replacedEntry : ∃ s, Runs.exec (Runs.guarded
    (onMessage fun r m => KeepsTerm r m ∧ onAppendRequest KeepsLeaderLog r m) (step .fifo)) (fresh 3)
    replacedEntry = some s ∧
    LogsMatch s := by
  obtain ⟨s, hs⟩ := Option.isSome_iff_exists.mp
    (show (Runs.exec (Runs.guarded
        (onMessage fun r m => KeepsTerm r m ∧ onAppendRequest KeepsLeaderLog r m) (step .fifo)) (fresh 3)
        replacedEntry).isSome = true by decide +kernel)
  exact ⟨s, hs, logsMatch_of_keeps (reachable_of_exec starts_fresh hs)⟩

/-- The two leaders of term 2 each append a message of their own at index 1. -/
theorem not_logsMatch_disturbedLeader : ∃ s : Cluster 3, Reachable .fifo Free s ∧ ¬ LogsMatch s := by
  obtain ⟨s, hs, h₀, h₂⟩ := exists_reachable (c := .fifo) (G := Free)
    (disturbedLeader ++
      [.input 0 (.clientPutMessage 7 (toBytes "a")), .input 2 (.clientPutMessage 8 (toBytes "b"))])
    (fun s => (s.procs 0).logEntries[1]? = some ⟨1, 2, 7, LogEntry.ADD, toBytes "a"⟩ ∧
      (s.procs 2).logEntries[1]? = some ⟨1, 2, 8, LogEntry.ADD, toBytes "b"⟩) (by decide +kernel)
  refine ⟨s, hs, fun hm => ?_⟩
  have := hm 0 2 1 _ _ h₀ h₂ rfl 1 (le_refl 1)
  rw [h₀, h₂] at this
  cases this

end Cluster

end FlowMQ
