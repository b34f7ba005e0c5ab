import FlowMQ.Commit
import FlowMQ.Completeness

/-!
# State machine safety

Two nodes that apply an entry at the same index apply the same entry. What a
node applies is traced back to something chosen: a leader applies what its
majority holds, a follower what the leader's commit index covers of a log that
it shares with the leader. Chosen prefixes of different terms are comparable.
-/

namespace FlowMQ

def VerifiedCommit (r : RaftState) (q : AppendEntriesRequest) : Prop :=
  r.curTerm ≤ q.term → checkIfPreviousLogInSync q.prevLogTerm q.prevLogIndex r.logEntries = true →
    r.commitIndex < q.leaderCommit → q.leaderCommit < r.logEntries.length → q.prevLogIndex < q.leaderCommit →
    ∀ e ∈ q.entries, (entryAt r.logEntries (q.prevLogIndex + 1)).term = e.term

def LeaderCommits (r : RaftState) (q : AppendEntriesResponse) : Prop := r.state ≠ .leader → ¬ r.commits q

def SafeApplies (r : RaftState) (m : RaftMessage) : Prop :=
  SafeElections r m ∧ onAppendRequest VerifiedCommit r m ∧ onAppendResponse LeaderCommits r m

instance (r : RaftState) (q : AppendEntriesRequest) : Decidable (VerifiedCommit r q) :=
  inferInstanceAs (Decidable (_ → _ → _ → _ → _ → _))

instance (r : RaftState) (q : AppendEntriesResponse) : Decidable (LeaderCommits r q) :=
  inferInstanceAs (Decidable (_ → _))

instance (r : RaftState) (m : RaftMessage) : Decidable (SafeApplies r m) :=
  inferInstanceAs (Decidable (_ ∧ _))

theorem Trans.curTerm_of_accept {r r' : RaftState} {q : AppendEntriesRequest} {l : List Effect}
    (h : Trans r (some (.appendEntriesRequest q)) r' l) (hle : r.curTerm ≤ q.term) : r'.curTerm = q.term := by
  cases h with
  | idle hm => cases hm
  | clientAppend hl e hi ht next pending l hr hm => cases hm
  | staleAppend q h => exact absurd hle (not_le.mpr h)
  | refuseAppend => rfl
  | acceptAppend => rfl

namespace Cluster

variable {n : Nat}

def Backed (g : Ghost n) (t c : Int) : Prop := c ≤ 0 ∨ ∃ (u : Int) (m : Nat), Chosen g u m ∧ u ≤ t ∧ c ≤ m

theorem Backed.mono {g : Ghost n} {t t' c : Int} (h : Backed g t c) (ht : t ≤ t') : Backed g t' c :=
  h.imp id fun ⟨u, m, hch, hu, hm⟩ => ⟨u, m, hch, hu.trans ht, hm⟩

structure ApplyInv (s : Cluster n) (g : Ghost n) : Prop where
  commit : ∀ i, Backed g (s.raft i).curTerm (s.raft i).commitIndex
  request : ∀ pk ∈ s.net, ∀ q, pk.msg = .appendEntriesRequest q → Backed g q.term q.leaderCommit
  applied : ∀ i k e, (i, Effect.commitLogEntry k (some e)) ∈ s.history →
    0 < k ∧ ∃ (u : Int) (m : Nat), Chosen g u m ∧ k ≤ m ∧ (g.log u)[k.toNat]? = some e

theorem applyInv_starts {s : Cluster n} (h : Starts s) : ApplyInv s (Ghost.start n) := by
  obtain ⟨partitionId, serverNodes, garbage, rfl⟩ := h
  constructor
  · intro i
    left
    rw [raft_init]
  · intro pk hpk; cases hpk
  · intro i k e he; cases he

theorem Chosen.prefix_log {s : Cluster n} {g : Ghost n} (h : CompleteInv s g) {t u : Int} {m : Nat} {w : Fin n}
    (hch : Chosen g t m) (hle : t ≤ u) (hw : g.won u = some w) : (g.log t).take (m + 1) <+: g.log u := by
  rcases lt_or_eq_of_le hle with hlt | rfl
  · exact (hch.prefix_of_kept (h.complete t u w m hw hlt hch.1)).trans (h.elect u w hw).1
  · exact List.take_prefix _ _

theorem Chosen.agree {s : Cluster n} {g : Ghost n} (h : CompleteInv s g) {t u : Int} {m m' k : Nat}
    (hch : Chosen g t m) (hch' : Chosen g u m') (hle : t ≤ u) (hk : 0 < k) (hkm : k ≤ m) (hkm' : k ≤ m') :
    (g.log t)[k]? = (g.log u)[k]? := by
  cases hw : g.won u with
  | none =>
    -- a term without a winner has only the dummy entry
    have hlt := hch'.1.lt
    simp only [Ghost.log, hw, List.length_singleton] at hlt
    omega
  | some w =>
    exact (get_of_take_isPrefix (hch.prefix_log h hle hw) hch.1.lt (Nat.lt_succ_of_le hkm)).symm

section
variable {ch : Channel} {s s' : Cluster n} {g g' : Ghost n} {e : Event n}

theorem prefix_of_commit (hb : BaseInv s g) (h : MatchInv s g) {i who : Fin n} {q : AppendEntriesRequest}
    {net : List (Packet n)} (hh : Handles ch s e i who (some (.appendEntriesRequest q)) net)
    (hle : (s.raft i).curTerm ≤ q.term)
    (hs : checkIfPreviousLogInSync q.prevLogTerm q.prevLogIndex (s.raft i).logEntries = true)
    (hci : (s.raft i).commitIndex < q.leaderCommit) (hlen : q.leaderCommit < (s.raft i).logEntries.length)
    (hv : VerifiedTail (s.raft i) q) (hcv : VerifiedCommit (s.raft i) q) :
    (s.raft i).logEntries.take (q.leaderCommit + 1).toNat <+: g.log q.term := by
  have hpre := prefix_of_accepted hb h hh hle hs hv
  obtain ⟨pk, -, -, hmsg, hl, -⟩ := hh.message_inv
  obtain ⟨-, p, hpq, -, hes | ⟨x, hes, -⟩⟩ := h.request pk hl.subset.1 q hmsg
  · rw [hes] at hpre
    exact (List.take_prefix _ _).trans hpre
  · rw [hpq, hes] at hpre
    rw [hpq] at hs
    obtain ⟨e₀, he₀, -⟩ := inSync_iff.mp hs
    have hlt : p < (s.raft i).logEntries.length := (List.getElem?_eq_some_iff.mp he₀).1
    rcases appendLog_single (e := x) hlt with ⟨-, -, -, hlog⟩ | ⟨hend, hlog⟩
    · rw [hlog] at hpre
      exact (List.take_prefix _ _).trans hpre
    · rw [hlog] at hpre
      -- the log is cut after `p`, so the commit does not reach beyond it
      have hle' : q.leaderCommit ≤ p := by
        by_contra hgt
        rcases hend with hend | ⟨x', hx', hne⟩
        · omega
        · have := hcv hle (hpq ▸ hs) hci hlen (by omega) x (by rw [hes]; simp)
          rw [hpq, show (p : Int) + 1 = ((p + 1 : Nat) : Int) by push_cast; rfl, entryAt_of_get hx'] at this
          exact hne this
      exact (List.take_prefix_take_left (by omega)).trans ((List.prefix_append _ _).trans hpre)

variable (hc : ch ≠ .duplicating) (hb : BaseInv s g) (hb' : BaseInv s' g') (hm : Moves ch s g e s' g')
  (hM : MatchInv s g) (hC : CompleteInv s g) (h : ApplyInv s g) (hg : onMessage SafeApplies s e)
include hb hM hC h hg

theorem chosen_of_target {i who : Fin n} {msg : Option RaftMessage} {net : List (Packet n)} {l : List Effect}
    (hh : Handles ch s e i who msg net) (ht : Trans (s.raft i) msg (s'.raft i) l) {t : Int}
    (htar : (s.raft i).commitTarget msg = some t) (hpos : 0 < t) :
    ∃ (u : Int) (m : Nat), Chosen g u m ∧ u ≤ (s'.raft i).curTerm ∧ t ≤ m ∧
      ∀ k : Nat, k ≤ t → (s.raft i).logEntries[k]? = (g.log u)[k]? := by
  cases msg with
  | none => cases htar
  | some m =>
    have hsafe := hh.condition hg _ rfl
    cases m with
    | appendEntriesRequest q =>
      simp only [RaftState.commitTarget] at htar
      split at htar
      · rename_i hcond
        cases htar
        obtain ⟨⟨hle, hs⟩, hci, hlen⟩ := hcond
        obtain ⟨⟨⟨-, -, -, hv, -⟩, -⟩, hcv, -⟩ := hsafe
        have hpre := prefix_of_commit hb hM hh hle hs hci hlen hv hcv
        obtain ⟨pk, -, -, hmsg, hl, -⟩ := hh.message_inv
        obtain hneg | ⟨u, m, hch, hu, hm⟩ := h.request pk hl.subset.1 q hmsg
        · exact absurd hpos (not_lt.mpr hneg)
        refine ⟨u, m, hch, by rw [ht.curTerm_of_accept hle]; exact hu, hm, fun k hk => ?_⟩
        rw [← get_of_take_isPrefix hpre (by omega) (by omega)]
        exact get_of_take_isPrefix (hch.prefix_log hC hu (hb.requests pk hl.subset.1 q hmsg)) hch.1.lt (by omega)
      · cases htar
    | appendEntriesResponse q =>
      simp only [RaftState.commitTarget] at htar
      split at htar
      · rename_i hcom
        cases htar
        have hl : (s.raft i).state = .leader := by
          by_contra hnot
          exact hsafe.2.2 hnot hcom
        have hterm : q.term = (s.raft i).curTerm := hsafe.1.1.2.2.1 hl hcom.1
        obtain ⟨pk, rfl, rfl, hmsg, hleft, -⟩ := hh.message_inv
        obtain ⟨m, hm, hch⟩ := chosen_of_commits hb hM hleft.subset.1 hmsg hl hterm hsafe.1.2.2 hcom
        refine ⟨q.term, m, hch, hterm ▸ ht.curTerm_le, hm.le, fun k _ => ?_⟩
        rw [hterm, hb.log_leader hl]
      · cases htar
    | _ => cases htar

include hc hb' hm in
theorem ApplyInv.moves : ApplyInv s' g' := by
  have hchosen := @Chosen.moves n ch s s' g g' e hc hb hb' hm hM
  have hgrow := grow_moves hc hb hb' hm
  have hback : ∀ {t c : Int}, Backed g t c → Backed g' t c := fun hbk =>
    hbk.imp id fun ⟨u, m, hch, hu, hcm⟩ => ⟨u, m, hchosen hch, hu, hcm⟩
  cases hm with
  | lose hn hn' hr ha =>
    refine ⟨fun i => ?_, fun pk hpk => h.request pk (mem_of_lose hn hn' pk hpk), fun i k x hx => ?_⟩
    · rw [hr]
      exact h.commit i
    · rw [ha] at hx
      exact h.applied i k x hx
  | @act i who msg net l hh ht ho hn ha =>
    obtain ⟨out, -, hhist, hrec⟩ := ha
    have htarget := @chosen_of_target n ch s s' g e hb hM hC h hg i who msg net l hh ht
    have hcommit : ∀ j, Backed (g.record i who (s.raft i) (s'.raft i)) (s'.raft j).curTerm
        (s'.raft j).commitIndex := by
      intro j
      by_cases hj : j = i
      · subst hj
        rw [ht.commitIndex]
        cases htar : (s.raft j).commitTarget msg with
        | none => exact (hback (h.commit j)).mono ht.curTerm_le
        | some t =>
          rcases le_or_gt t 0 with hneg | hpos
          · exact Or.inl hneg
          · obtain ⟨u, m, hch, hu, hcm, -⟩ := htarget htar hpos
            exact Or.inr ⟨u, m, hchosen hch, hu, hcm⟩
      · rw [ho j hj]
        exact hback (h.commit j)
    refine ⟨hcommit, fun pk hpk q hq => ?_, fun j k x hx => ?_⟩
    · rw [hn] at hpk
      rcases List.mem_append.mp hpk with hpk | hpk
      · exact hback (h.request pk (hh.subset pk hpk) q hq)
      · rcases (ht.requests (hq ▸ carries_of_mem hpk)).1 with rfl | ⟨_, -, rfl⟩ <;> exact hcommit i
    · have hkeep : ∀ {u : Int} {m : Nat}, Chosen g u m → k ≤ m → (g.log u)[k.toNat]? = some x →
          ∃ (u : Int) (m : Nat), Chosen (g.record i who (s.raft i) (s'.raft i)) u m ∧ k ≤ m ∧
            ((g.record i who (s.raft i) (s'.raft i)).log u)[k.toNat]? = some x :=
        fun hch hkm hget => ⟨_, _, hchosen hch, hkm, get_of_isPrefix (hgrow _) hget⟩
      rw [hhist] at hx
      rcases List.mem_append.mp hx with hx | hx
      · obtain ⟨hk, u, m, hch, hkm, hget⟩ := h.applied j k x hx
        exact ⟨hk, hkeep hch hkm hget⟩
      · obtain ⟨eff, heff, heq⟩ := List.mem_map.mp hx
        obtain ⟨rfl, rfl⟩ := Prod.mk.inj heq
        obtain ⟨t, htar, hmem⟩ := mem_records hrec heff rfl
        obtain ⟨-, hkt, hk, hget⟩ := mem_commitRecord_apply.mp hmem
        obtain ⟨u, m, hch, -, htm, hagree⟩ := htarget htar (by omega)
        rw [hagree k.toNat (by omega)] at hget
        exact ⟨hk, hkeep hch (by omega) hget⟩

end

def AppliesAgree (s : Cluster n) : Prop :=
  ∀ (a b : Fin n) (k : Int) (e e' : LogEntry), (a, Effect.commitLogEntry k (some e)) ∈ s.history →
    (b, Effect.commitLogEntry k (some e')) ∈ s.history → e = e'

theorem ApplyInv.agree {s : Cluster n} {g : Ghost n} (hC : CompleteInv s g) (h : ApplyInv s g) :
    AppliesAgree s := by
  intro a b k e e' ha hb
  obtain ⟨hk, t, m, hch, hkm, hget⟩ := h.applied a k e ha
  obtain ⟨-, u, m', hch', hkm', hget'⟩ := h.applied b k e' hb
  have heq : (g.log t)[k.toNat]? = (g.log u)[k.toNat]? := by
    rcases le_total t u with hle | hle
    · exact hch.agree hC hch' hle (by omega) (by omega) (by omega)
    · exact (hch'.agree hC hch hle (by omega) (by omega) (by omega)).symm
  rw [hget, hget'] at heq
  exact Option.some.inj heq

theorem applyInv {ch : Channel} (hc : ch ≠ .duplicating) (r : Execution n ch)
    (hg : r.Always (onMessage SafeApplies)) {k : Nat} (hk : k ≤ r.length) :
    ApplyInv (r.states k) (past r k) := by
  have he : r.Always (onMessage SafeElections) := hg.mono (onMessage_mono fun _ _ h => h.1)
  have hs := soundReplies_of_safe r he
  refine r.induct (P := fun k => ApplyInv (r.states k) (past r k)) (applyInv_starts r.starts) ?_ k hk
  intro k hk ih
  exact ApplyInv.moves hc (baseInv_sound hc r hs hk.le) (baseInv_sound hc r hs hk) (moves r hk)
    (matchInv hc r hs hk.le)
    (completeInv hc r he hk.le) ih (hg k hk)

/-- State machine safety, for runs with safe elections in which followers do not
commit behind what a request verifies and only leaders commit on responses. -/
theorem appliesAgree_of_safeApplies {s : Cluster n} (h : Reachable .fifo (onMessage SafeApplies) s) :
    AppliesAgree s := by
  have hc : Channel.fifo ≠ .duplicating := by decide
  obtain ⟨r, hg, rfl⟩ := h.exists_run
  have he : r.Always (onMessage SafeElections) := hg.mono (onMessage_mono fun _ _ h => h.1)
  exact (applyInv hc r hg (le_refl _)).agree (completeInv hc r he (le_refl _))

def sharedCommit : List (Event 3) := committedPut ++ [.input 0 .heartbeatTimer, .deliver 2 4]

theorem appliesAgree_sharedCommit : ∃ s : Cluster 3, (Reachable .fifo (onMessage SafeApplies) s ∧
    (0, Effect.commitLogEntry 1 (some ⟨1, 1, 7, 0, toBytes "a"⟩)) ∈ s.history ∧
    (1, Effect.commitLogEntry 1 (some ⟨1, 1, 7, 0, toBytes "a"⟩)) ∈ s.history) ∧ AppliesAgree s := by
  obtain ⟨s, hr, hs⟩ := exists_reachable (c := .fifo) (G := onMessage SafeApplies) sharedCommit
    (fun s => (0, Effect.commitLogEntry 1 (some ⟨1, 1, 7, 0, toBytes "a"⟩)) ∈ s.history ∧
      (1, Effect.commitLogEntry 1 (some ⟨1, 1, 7, 0, toBytes "a"⟩)) ∈ s.history) (by decide +kernel)
  exact ⟨s, ⟨hr, hs⟩, appliesAgree_of_safeApplies hr⟩

/-- Node 0 has committed a message when node 2, elected without it, commits another one at the same index. -/
def divergentCommit : List (Event 3) :=
  lostCommit ++ [.input 2 (.clientPutMessage 8 (toBytes "b")), .deliver 4 6, .deliver 4 7]

theorem not_appliesAgree_divergentCommit : ∃ s : Cluster 3, Reachable .fifo Free s ∧ ¬ AppliesAgree s := by
  obtain ⟨s, hr, ha, hb⟩ := exists_reachable (c := .fifo) (G := Free) divergentCommit
    (fun s => (0, Effect.commitLogEntry 1 (some ⟨1, 1, 7, 0, toBytes "a"⟩)) ∈ s.history ∧
      (2, Effect.commitLogEntry 1 (some ⟨1, 2, 8, 0, toBytes "b"⟩)) ∈ s.history) (by decide +kernel)
  exact ⟨s, hr, fun h => absurd (h 0 2 1 _ _ ha hb) (by decide)⟩

end Cluster

end FlowMQ
