import FlowMQ.Replication

/-!
# Soundness of `matched_index_`

What the invariants of replication say about a leader that handles a successful
append response: the index it notes is inside its log, the follower agreed with
it up to there when it sent the response, and a commit that follows rests on a
majority.
-/

namespace FlowMQ

open TermLog (IsMajority)

theorem majority_of_synced {n : Nat} {m : IndexMap} {i : Fin n} {k : Int}
    (hkeys : ∀ x ∈ m, ∃ j : Fin n, x = j.val ∧ j ≠ i) (h : (n : Int) / 2 < Process.countSyncedNodes k m + 1) :
    ∃ Q : Finset (Fin n), IsMajority Q ∧ ∀ j ∈ Q, j = i ∨ ∃ v, m[(j.val : Int)]? = some v ∧ k ≤ v := by
  classical
  let S : Finset (Fin n) := Finset.univ.filter fun j => ∃ v, m[(j.val : Int)]? = some v ∧ k ≤ v
  let ks : List Int := (m.toList.filter fun p => decide (k ≤ p.2)).map Prod.fst
  have hget : ∀ {x : Int}, x ∈ ks → ∃ v, m[x]? = some v ∧ k ≤ v := by
    intro x hx
    obtain ⟨p, hp, rfl⟩ := List.mem_map.mp hx
    obtain ⟨hp, hle⟩ := List.mem_filter.mp hp
    exact ⟨p.2, Std.ExtTreeMap.mem_toList_iff_getElem?_eq_some.mp hp, of_decide_eq_true hle⟩
  have hnodup : ks.Nodup := by
    have hd := Std.ExtTreeMap.distinct_keys_toList (t := m)
    have hd' : m.toList.Pairwise fun a b => a.1 ≠ b.1 := hd.imp fun hab heq => hab (compare_eq_iff_eq.mpr heq)
    exact List.pairwise_map.mpr (hd'.filter _)
  have hsub : ks.toFinset ⊆ S.image fun j => (j.val : Int) := by
    intro x hx
    obtain ⟨v, hv, hle⟩ := hget (List.mem_toFinset.mp hx)
    obtain ⟨j, rfl, -⟩ := hkeys x (Maps.mem_of_getElem? hv)
    exact Finset.mem_image.mpr ⟨j, by simp [S, hv, hle], rfl⟩
  have hcount : Process.countSyncedNodes k m = ks.length := by
    simp only [Process.countSyncedNodes, ks, List.length_map, List.countP_eq_length_filter]
  have hi : i ∉ S := by
    intro hi
    obtain ⟨v, hv, -⟩ := (Finset.mem_filter.mp hi).2
    obtain ⟨j, hj, hne⟩ := hkeys i.val (Maps.mem_of_getElem? hv)
    exact hne (Fin.ext (by omega))
  refine ⟨insert i S, TermLog.isMajority_of_half_lt (v := ks.length + 1) ?_ ?_, ?_⟩
  · have hle := (Finset.card_le_card hsub).trans Finset.card_image_le
    rw [List.toFinset_card_of_nodup hnodup] at hle
    rw [Finset.card_insert_of_notMem hi]
    omega
  · rw [Fintype.card_fin]
    omega
  · intro j hj
    rcases Finset.mem_insert.mp hj with rfl | hj
    · exact Or.inl rfl
    · exact Or.inr (Finset.mem_filter.mp hj).2

theorem Trans.commits {r r' : RaftState} {q : AppendEntriesResponse} {l : List Effect}
    (h : Trans r (some (.appendEntriesResponse q)) r' l) (hne : r'.commitIndex ≠ r.commitIndex) :
    r.commits q ∧ r'.commitIndex = q.lastIndexSynced ∧ r'.logEntries = r.logEntries := by
  cases h with
  | replySuccess q h c hc =>
    rcases hc with ⟨rfl, -⟩ | hc
    · exact absurd rfl hne
    · exact ⟨hc.1, hc.2, rfl⟩
  | _ => exact absurd rfl hne

namespace Cluster

variable {n : Nat} {c : Channel}

theorem lastLog_seen (r : Execution n c) {v : Fin n} {t : Int} {k : Nat} (hk : k ≤ r.length)
    (h : (past r k).lastLog v t ≠ []) :
    ∃ j ≤ k, ((r.states j).procs v).logEntries = (past r k).lastLog v t := by
  revert h
  refine r.induct (P := fun k => (past r k).lastLog v t ≠ [] →
    ∃ j ≤ k, ((r.states j).procs v).logEntries = (past r k).lastLog v t) ?_ ?_ k hk
  · intro h
    obtain ⟨partitionId, serverNodes, garbage, hs⟩ := r.starts
    have hlog : ((r.states 0).raft v).logEntries = [LogEntry.dummy] := by rw [hs, raft_init]
    have hpast : (past r 0).lastLog v t = if t = 0 then [LogEntry.dummy] else [] := rfl
    rw [hpast] at h ⊢
    split at h
    · rename_i ht
      exact ⟨0, le_refl 0, by rw [if_pos ht]; exact hlog⟩
    · exact absurd rfl h
  · intro k hk ih h
    have hm := moves r hk
    revert h hm
    generalize past r (k + 1) = g'
    intro h hm
    cases hm with
    | lose =>
      obtain ⟨j, hj, hlog⟩ := ih h
      exact ⟨j, hj.trans (Nat.le_succ k), hlog⟩
    | @act i who msg net l hh ht ho hn =>
      by_cases hi : v = i ∧ t = ((r.states (k + 1)).raft i).curTerm
      · obtain ⟨rfl, rfl⟩ := hi
        exact ⟨k + 1, le_refl _, (Ghost.record_lastLog_self ..).symm⟩
      · rw [Ghost.record_lastLog_of_ne hi] at h ⊢
        obtain ⟨j, hj, hlog⟩ := ih h
        exact ⟨j, hj.trans (Nat.le_succ k), hlog⟩

theorem holds_seen (r : Execution n c) {k : Nat} (hk : k ≤ r.length) {v : Fin n} {t : Int} {m : Nat}
    (h : (past r k).Holds v t m) :
    ∃ j ≤ k, ∀ i ≤ m, ((r.states j).procs v).logEntries[i]? = ((past r k).log t)[i]? := by
  obtain ⟨hm, hp⟩ := h
  have hne : (past r k).lastLog v t ≠ [] := by
    intro h0
    rw [h0, List.prefix_nil, List.take_eq_nil_iff] at hp
    rcases hp with hp | hp
    · cases hp
    · rw [hp] at hm; cases hm
  obtain ⟨j, hj, hlog⟩ := lastLog_seen r hk hne
  refine ⟨j, hj, fun i hi => ?_⟩
  rw [hlog, get_of_take_isPrefix hp hm (Nat.lt_succ_of_le hi)]

theorem majority_of_commits {s : Cluster n} {g : Ghost n} (hb : BaseInv s g) (h : MatchInv s g) {pk : Packet n}
    {q : AppendEntriesResponse} (hpk : pk ∈ s.net) (hmsg : pk.msg = .appendEntriesResponse q)
    (hl : (s.raft pk.dst).state = .leader) (hterm : q.term = (s.raft pk.dst).curTerm)
    (hcom : (s.raft pk.dst).commits q) :
    ∃ m : Nat, q.lastIndexSynced = m ∧ ∃ Q, IsMajority Q ∧ ∀ v ∈ Q, g.Holds v q.term m := by
  obtain ⟨hs, hlt, hmaj⟩ := hcom
  obtain ⟨hfol, -, m, hm, hhold⟩ := h.reply pk hpk q hmsg hs
  refine ⟨m, hm, ?_⟩
  have hkeys : ∀ x ∈ (s.raft pk.dst).matchedIndex.insert q.followerId q.lastIndexSynced,
      ∃ j : Fin n, x = j.val ∧ j ≠ pk.dst := by
    intro x hx
    rw [Std.ExtTreeMap.mem_insert] at hx
    rcases hx with hx | hx
    · exact ⟨pk.src, by have := compare_eq_iff_eq.mp hx; omega, hb.election.links pk hpk⟩
    · exact h.keys _ x hx
  unfold RaftState.majorityAt at hmaj
  rw [(hb.election.ids pk.dst).2] at hmaj
  obtain ⟨Q, hQ, hall⟩ := majority_of_synced hkeys hmaj
  refine ⟨Q, hQ, fun v hv => ?_⟩
  have hmlt := hhold.1
  rcases hall v hv with rfl | ⟨x, hx, hle⟩
  · refine ⟨hmlt, ?_⟩
    rw [hterm, hb.logs.current, hb.log_leader hl]
    exact List.take_prefix _ _
  · rw [Std.ExtTreeMap.getElem?_insert] at hx
    split at hx
    · rename_i hcmp
      have hsrc : pk.src = v := Fin.ext (by have := compare_eq_iff_eq.mp hcmp; omega)
      exact hsrc ▸ hhold
    · rcases h.matched pk.dst hl v x hx with hle' | ⟨m', hm', hhold'⟩
      · omega
      · rw [← hterm] at hhold'
        refine ⟨hmlt, List.IsPrefix.trans ?_ hhold'.2⟩
        exact List.take_prefix_take_left (by omega)

theorem curTerm_run (r : Execution n c) (i : Fin n) {j k : Nat} (hjk : j ≤ k) (hk : k ≤ r.length) :
    ((r.states j).raft i).curTerm ≤ ((r.states k).raft i).curTerm :=
  r.stable (P := fun k => ((r.states j).raft i).curTerm ≤ ((r.states k).raft i).curTerm)
    (fun _ hm h => h.trans (curTerm_moves (moves r hm) i)) hjk hk (le_refl _)

def SentAt (r : Execution n c) (j : Nat) (pk : Packet n) : Prop :=
  j < r.length ∧ ∃ e, (pk.src, e) ∈ (r.states (j + 1)).history.drop (r.states j).history.length ∧
    pk ∈ packets pk.src e

theorem SentAt.sent {r : Execution n c} {j : Nat} {pk : Packet n} (h : SentAt r j pk) :
    ∃ who msg net l, Handles c (r.states j) (r.events j) pk.src who msg net ∧
      Trans ((r.states j).raft pk.src) msg ((r.states (j + 1)).raft pk.src) l ∧
      pk ∈ l.flatMap (packets pk.src) ∧
      pk ∈ (r.states (j + 1)).net := by
  obtain ⟨hj, e, he, hpk⟩ := h
  obtain ⟨g, hm⟩ : ∃ g, Moves c (r.states j) (past r j) (r.events j) (r.states (j + 1)) g := ⟨_, moves r hj⟩
  cases hm with
  | lose hn hn' hr ha => simp [ha] at he
  | @act i who msg net l hh ht ho hn ha =>
    obtain ⟨out, hl, hout, -⟩ := ha
    rw [hout, List.drop_left, List.mem_map] at he
    obtain ⟨e', he', heq⟩ := he
    obtain ⟨rfl, rfl⟩ := Prod.mk.inj heq
    have hmem : pk ∈ l.flatMap (packets pk.src) := by
      rw [hl, ← packets_sends]
      exact List.mem_flatMap.mpr ⟨e', he', hpk⟩
    exact ⟨who, msg, net, l, hh, ht, hmem, by rw [hn]; exact List.mem_append_right _ hmem⟩

theorem exists_sentAt (r : Execution n c) {pk : Packet n} {k : Nat} (hk : k ≤ r.length)
    (h : pk ∈ (r.states k).net) : ∃ j < k, SentAt r j pk := by
  revert h
  refine r.induct (P := fun k => pk ∈ (r.states k).net → ∃ j < k, SentAt r j pk) ?_ ?_ k hk
  · intro h
    obtain ⟨partitionId, serverNodes, garbage, hs⟩ := r.starts
    rw [hs] at h
    cases h
  · intro k hk ih h
    have hold : pk ∈ (r.states k).net → ∃ j < k + 1, SentAt r j pk := fun h => by
      obtain ⟨j, hj, hs⟩ := ih h
      exact ⟨j, hj.trans (Nat.lt_succ_self k), hs⟩
    obtain ⟨g, hm⟩ : ∃ g, Moves c (r.states k) (past r k) (r.events k) (r.states (k + 1)) g := ⟨_, moves r hk⟩
    cases hm with
    | lose hn hn' hr ha => exact hold (mem_of_lose hn hn' pk h)
    | @act i who msg net l hh ht ho hn ha =>
      obtain ⟨out, hl, hout, -⟩ := ha
      rw [hn] at h
      rcases List.mem_append.mp h with h | h
      · exact hold (hh.subset pk h)
      · rw [hl, ← packets_sends] at h
        obtain ⟨e, he, hpk⟩ := List.mem_flatMap.mp h
        have hsrc := (mem_packets hpk).1
        refine ⟨k, Nat.lt_succ_self k, hk, e, ?_, hsrc ▸ hpk⟩
        rw [hout, List.drop_left, hsrc]
        exact List.mem_map.mpr ⟨e, he, rfl⟩

def HandlesReply (r : Execution n c) (k : Nat) (pk : Packet n) (q : AppendEntriesResponse) : Prop :=
  k < r.length ∧ (∃ m now, r.events k = .deliver m now ∧ (r.states k).net[m]? = some pk) ∧
    pk.msg = .appendEntriesResponse q ∧ q.appendResultSuccess ≠ 0 ∧
    ((r.states k).procs pk.dst).state = .leader

/-- The noted index is inside the leader's log, when the follower sent the
response the two logs were equal up to it, and what the leader commits on it is
inside its log and was held by a majority. -/
def MatchSound (r : Execution n c) (k : Nat) (pk : Packet n) (q : AppendEntriesResponse) : Prop :=
  q.lastIndexSynced < ((r.states k).procs pk.dst).logEntries.length ∧
  ((∃ j < k, SentAt r j pk) ∧ ∀ j < k, SentAt r j pk → ∀ i : Nat, i ≤ q.lastIndexSynced →
    ((r.states (j + 1)).procs pk.src).logEntries[i]? = ((r.states (j + 1)).procs pk.dst).logEntries[i]?) ∧
  (((r.states (k + 1)).procs pk.dst).commitIndex ≠ ((r.states k).procs pk.dst).commitIndex →
    ((r.states (k + 1)).procs pk.dst).commitIndex < ((r.states k).procs pk.dst).logEntries.length ∧
    ∃ Q, IsMajority Q ∧ ∀ v ∈ Q, ∃ j ≤ k, ∀ i : Nat, i ≤ ((r.states (k + 1)).procs pk.dst).commitIndex →
      ((r.states j).procs v).logEntries[i]? = ((r.states k).procs pk.dst).logEntries[i]?)

section
variable (hc : c ≠ .duplicating) (r : Execution n c) (hg : r.Always (onMessage SoundReplies))
include hc hg

theorem HandlesReply.facts {k : Nat} {pk : Packet n} {q : AppendEntriesResponse} (h : HandlesReply r k pk q) :
    q.term = ((r.states k).raft pk.dst).curTerm ∧ pk ∈ (r.states k).net ∧ q.followerId = pk.src.val ∧
      ∃ m : Nat, q.lastIndexSynced = m ∧ (past r k).Holds pk.src q.term m ∧
        (past r k).log q.term = ((r.states k).procs pk.dst).logEntries := by
  obtain ⟨hk, ⟨i, now, he, hi⟩, hmsg, hs, hl⟩ := h
  have hpk := List.mem_of_getElem? hi
  have hb := baseInv_sound hc r hg hk.le
  obtain ⟨hfol, -, m, hm, hh⟩ := (matchInv hc r hg hk.le).reply pk hpk q hmsg hs
  have hgk := hg k hk
  rw [he] at hgk
  have hcur := (hgk pk hi).2.2.1
  rw [hmsg] at hcur
  have hterm : q.term = ((r.states k).raft pk.dst).curTerm := hcur hl hs
  refine ⟨hterm, hpk, hfol, m, hm, hh, ?_⟩
  rw [hterm]
  exact hb.log_leader hl

theorem sentAt_agree {j k : Nat} (hjk : j < k) {pk : Packet n} {q : AppendEntriesResponse}
    (h : HandlesReply r k pk q) (hj : SentAt r j pk) {i : Nat} (hi : i ≤ q.lastIndexSynced) :
    ((r.states (j + 1)).procs pk.src).logEntries[i]? = ((r.states (j + 1)).procs pk.dst).logEntries[i]? := by
  obtain ⟨hterm, -, -, -⟩ := h.facts hc r hg
  obtain ⟨hk, -, hmsg, hs, -⟩ := h
  obtain ⟨who, msg, net, l, hh, ht, hmem, hnet⟩ := hj.sent
  have hj' : j < r.length := hj.1
  have hb := baseInv_sound hc r hg hj'.le
  have hb' := baseInv_sound hc r hg (k := j + 1) hj'
  have hmi := matchInv hc r hg hj'.le
  obtain ⟨-, hwon, -⟩ := (matchInv hc r hg (k := j + 1) hj').reply pk hnet q hmsg hs
  obtain ⟨q₀, rfl, hle, hsync, hlog, hct, hq, -⟩ := ht.replies (hmsg ▸ carries_of_mem hmem) hs
  have hv := hh.condition (onMessage_mono (fun _ _ h => h.2.2.2.1) _ _ (hg j hj')) _ rfl
  have hpre := (prefix_of_accepted hb hmi hh hle hsync hv).trans (grow_moves hc hb hb' (moves r hj') _)
  rw [← hlog] at hpre
  have hqt : q.term = q₀.term := by rw [hq]
  have hdst : ((r.states (j + 1)).raft pk.dst).curTerm = q.term := by
    refine le_antisymm ?_ (hb'.election.won _ _ hwon).2.1
    rw [hterm]
    exact curTerm_run r pk.dst hjk hk.le
  have hL : (past r (j + 1)).log q.term = ((r.states (j + 1)).raft pk.dst).logEntries := by
    unfold Ghost.log
    rw [hwon, ← hdst]
    exact hb'.logs.current pk.dst
  rw [← hqt, hL] at hpre
  have hlast : q.lastIndexSynced = (((r.states (j + 1)).raft pk.src).logEntries.length : Int) - 1 := by
    rw [hq]
    exact (hb'.shape.logs pk.src).back_index
  have hi' : i < ((r.states (j + 1)).raft pk.src).logEntries.length := by
    have := (hb'.shape.logs pk.src).pos
    omega
  have hget := List.prefix_iff_getElem?.mp hpre i hi'
  show ((r.states (j + 1)).raft pk.src).logEntries[i]? = ((r.states (j + 1)).raft pk.dst).logEntries[i]?
  rw [hget, List.getElem?_eq_getElem]

theorem commit_majority {k : Nat} {pk : Packet n} {q : AppendEntriesResponse} (h : HandlesReply r k pk q)
    (hne : ((r.states (k + 1)).procs pk.dst).commitIndex ≠ ((r.states k).procs pk.dst).commitIndex) :
    ((r.states k).raft pk.dst).commits q ∧ ((r.states (k + 1)).procs pk.dst).commitIndex = q.lastIndexSynced ∧
      ((r.states (k + 1)).procs pk.dst).logEntries = ((r.states k).procs pk.dst).logEntries ∧
      ∃ m : Nat, q.lastIndexSynced = m ∧ ∃ Q, IsMajority Q ∧ ∀ v ∈ Q, (past r k).Holds v q.term m := by
  obtain ⟨hterm, hpk, -⟩ := h.facts hc r hg
  obtain ⟨hk, ⟨i, now, he, hi⟩, hmsg, hs, hl⟩ := h
  have hstep := r.steps k hk
  rw [he] at hstep
  have ht := (acts_deliver hstep hi).trans
  rw [hmsg] at ht
  obtain ⟨hcom, hidx, hlog⟩ := ht.commits hne
  exact ⟨hcom, hidx, hlog,
    majority_of_commits (baseInv_sound hc r hg hk.le) (matchInv hc r hg hk.le) hpk hmsg hl hterm hcom⟩

theorem matchSound {k : Nat} {pk : Packet n} {q : AppendEntriesResponse} (h : HandlesReply r k pk q) :
    MatchSound r k pk q := by
  obtain ⟨-, hpk, -, m, hm, hhold, hL⟩ := h.facts hc r hg
  have hlt := hhold.1
  rw [hL] at hlt
  refine ⟨by omega, ⟨exists_sentAt r h.1.le hpk, fun j hj hs i hi => sentAt_agree hc r hg hj h hs hi⟩,
    fun hne => ?_⟩
  obtain ⟨-, hidx, -, m', hm', Q, hQ, hall⟩ := commit_majority hc r hg h hne
  refine ⟨by omega, Q, hQ, fun v hv => ?_⟩
  obtain ⟨j, hj, hget⟩ := holds_seen r h.1.le (hall v hv)
  refine ⟨j, hj, fun i hi => ?_⟩
  rw [hget i (by omega), hL]

end

/-- A leader's notes about its followers are right as long as it keeps to the
term it won, responses are handled in the leadership they belong to, followers
have no tail the request leaves unverified, and a new leader starts afresh. -/
theorem matchSound_of_soundReplies (r : Execution n .fifo) (hg : r.Always (onMessage SoundReplies)) {k : Nat}
    {pk : Packet n} {q : AppendEntriesResponse} (h : HandlesReply r k pk q) : MatchSound r k pk q :=
  matchSound (by decide) r hg h

theorem committedPut_isSome : (Runs.exec (step .fifo) (fresh 3) committedPut).isSome := by decide +kernel

def committedPutRun : Execution 3 .fifo :=
  Runs.Run.ofEvents (fresh 3) starts_three committedPut committedPut_isSome

theorem matchSound_committedPut :
    HandlesReply committedPutRun 6 ⟨1, 0, .appendEntriesResponse ⟨1, 1, 1, 1⟩⟩ ⟨1, 1, 1, 1⟩ ∧
    MatchSound committedPutRun 6 ⟨1, 0, .appendEntriesResponse ⟨1, 1, 1, 1⟩⟩ ⟨1, 1, 1, 1⟩ := by
  have h : HandlesReply committedPutRun 6 ⟨1, 0, .appendEntriesResponse ⟨1, 1, 1, 1⟩⟩ ⟨1, 1, 1, 1⟩ := by
    refine ⟨by decide, ⟨2, 3, rfl, ?_⟩, rfl, by decide, ?_⟩
    · decide +kernel
    · decide +kernel
  exact ⟨h, matchSound_of_soundReplies _ (Runs.Run.ofEvents_always (by decide +kernel)) h⟩

theorem not_matchSound_tailReply :
    ∃ (r : Execution 3 .fifo) (k : Nat) (pk : Packet 3) (q : AppendEntriesResponse),
    HandlesReply r k pk q ∧ ¬ MatchSound r k pk q := by
  refine ⟨Runs.Run.ofEvents (fresh 3) starts_fresh tailReply (by decide +kernel), 13,
    ⟨1, 2, .appendEntriesResponse ⟨2, 1, 1, 1⟩⟩, ⟨2, 1, 1, 1⟩,
    ⟨by decide, ⟨5, 7, rfl, ?_⟩, rfl, by decide, ?_⟩, ?_⟩
  · decide +kernel
  · decide +kernel
  · intro h
    exact absurd h.1 (by decide +kernel)

end Cluster

end FlowMQ
