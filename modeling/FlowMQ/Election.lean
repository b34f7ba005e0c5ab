import FlowMQ.Votes

/-!
# Elections

Votes carry no names, and a term is taken over in five places. Still, the
votes a node has counted for the term it is in are those of distinct nodes that
voted for it in that term, because a vote request, the vote it earns and the
counting of that vote are one token that moves from node to node.
-/

namespace FlowMQ

namespace Cluster

variable {n : Nat}

def ballot (c v : Fin n) (t : Int) (pk : Packet n) : Bool :=
  match pk.msg with
  | .requestVoteRequest q => pk.src = c ∧ pk.dst = v ∧ q.term = t
  | .requestVoteResponse q => pk.src = v ∧ pk.dst = c ∧ q.term = t ∧ q.voteResultTermGranted ≠ 0
  | _ => false

/-- The ballots of `v` for `c` in term `t`, in flight or counted. -/
def tokens (s : Cluster n) (g : Ghost n) (c v : Fin n) (t : Int) : Nat :=
  s.net.countP (ballot c v t) + if v ∈ g.counted c ∧ t = (s.raft c).curTerm then 1 else 0

structure ElectionInv (s : Cluster n) (g : Ghost n) : Prop where
  ids : ∀ i, (s.raft i).nodeId = i.val ∧ (s.raft i).totalNodes = n
  links : ∀ pk ∈ s.net, pk.src ≠ pk.dst
  voted : ∀ i, g.voted i (s.raft i).curTerm = (s.raft i).votedFor
  future : ∀ i t, (s.raft i).curTerm < t → g.voted i t = -1
  asked : ∀ i t, g.asked i t → t ≤ (s.raft i).curTerm
  self : ∀ i, g.asked i (s.raft i).curTerm → (s.raft i).votedFor = i.val
  idle : ∀ i, (s.raft i).votedFor = -1 → (s.raft i).voteRequestTimers = 0 ∨ (s.raft i).votesCollected = 0
  counted : ∀ i v, v ∈ g.counted i → g.asked i (s.raft i).curTerm ∧ g.voted v (s.raft i).curTerm = i.val
  votes : ∀ i, g.asked i (s.raft i).curTerm → (s.raft i).votesCollected = (g.counted i).card
  request : ∀ pk ∈ s.net, ∀ q, pk.msg = .requestVoteRequest q →
    q.candidateId = pk.src.val ∧ g.asked pk.src q.term
  grant : ∀ pk ∈ s.net, ∀ q, pk.msg = .requestVoteResponse q → q.voteResultTermGranted ≠ 0 →
    q.voteResultTermGranted = 1 ∧ g.voted pk.src q.term = pk.dst.val ∧ g.asked pk.dst q.term
  tokens : ∀ c v t, c ≠ v → s.tokens g c v t ≤ 1
  won : ∀ t w, g.won t = some w → (∃ Q, TermLog.IsMajority Q ∧ ∀ v ∈ Q, g.voted v t = w.val) ∧
    t ≤ (s.raft w).curTerm ∧ ((s.raft w).curTerm = t → (s.raft w).state = .leader)

theorem electionInv_starts {s : Cluster n} (h : Starts s) : ElectionInv s (Ghost.start n) := by
  obtain ⟨partitionId, serverNodes, garbage, rfl⟩ := h
  have hr := raft_init (n := n) partitionId serverNodes garbage
  constructor
  · intro i; rw [hr]; exact ⟨rfl, rfl⟩
  · intro pk hpk; cases hpk
  · intro i; rw [hr]; rfl
  · intro i t _; rfl
  · intro i t ha; cases ha
  · intro i ha; cases ha
  · intro i _; rw [hr]; exact Or.inl rfl
  · intro i v hv; cases hv
  · intro i ha; cases ha
  · intro pk hpk; cases hpk
  · intro pk hpk; cases hpk
  · intro c v t _; simp [Cluster.tokens, init, Ghost.start]
  · intro t w hw; cases hw

section
variable {c : Channel} {s s' : Cluster n} {g g' : Ghost n} {e : Event n}

theorem curTerm_moves (hm : Moves c s g e s' g') (i : Fin n) : (s.raft i).curTerm ≤ (s'.raft i).curTerm := by
  cases hm with
  | lose hn hn' hr => rw [hr]
  | @act j who msg net l hh ht ho hn =>
    by_cases hi : i = j
    · subst hi; exact ht.curTerm_le
    · rw [ho i hi]

theorem asked_moves (hm : Moves c s g e s' g') {i : Fin n} {t : Int} (h : g.asked i t) : g'.asked i t := by
  cases hm with
  | lose => exact h
  | act => exact Ghost.record_asked h

variable (h : ElectionInv s g) (hm : Moves c s g e s' g')
include h hm

theorem voted_moves {v w : Fin n} {t : Int} (hv : g.voted v t = w.val) : g'.voted v t = w.val := by
  cases hm with
  | lose => exact hv
  | @act i who msg net l hh ht ho hn =>
    by_cases hi : v = i ∧ t = (s'.raft i).curTerm
    · obtain ⟨rfl, rfl⟩ := hi
      rw [Ghost.record_voted_self]
      rcases ht.curTerm_le.lt_or_eq with hlt | heq
      · have := h.future v _ hlt
        omega
      · rw [← heq, h.voted] at hv
        rw [ht.votes.votedFor_stable heq.symm (by omega), hv]
    · rw [Ghost.record_voted_of_ne hi]
      exact hv

theorem ids_moves (i : Fin n) : (s'.raft i).nodeId = i.val ∧ (s'.raft i).totalNodes = n := by
  cases hm with
  | lose hn hn' hr => rw [hr]; exact h.ids i
  | @act j who msg net l hh ht ho hn =>
    by_cases hi : i = j
    · subst hi
      obtain ⟨h₁, h₂⟩ := ht.ids
      rw [h₁, h₂]
      exact h.ids i
    · rw [ho i hi]; exact h.ids i

theorem links_moves (pk : Packet n) (hpk : pk ∈ s'.net) : pk.src ≠ pk.dst := by
  cases hm.inFlight hpk with
  | old hpk => exact h.links pk hpk
  | sent hh ht ho hpk =>
    obtain ⟨hs, hd, -⟩ := mem_sent hpk
    rw [hs]
    exact hd.symm

theorem voted_current (i : Fin n) : g'.voted i (s'.raft i).curTerm = (s'.raft i).votedFor := by
  cases hm with
  | lose hn hn' hr => rw [hr]; exact h.voted i
  | @act j who msg net l hh ht ho hn =>
    by_cases hi : i = j
    · subst hi; exact Ghost.record_voted_self ..
    · rw [ho i hi, Ghost.record_voted_of_ne fun hj => hi hj.1]
      exact h.voted i

theorem voted_future (i : Fin n) (t : Int) (ht : (s'.raft i).curTerm < t) : g'.voted i t = -1 := by
  have hold := h.future i t (lt_of_le_of_lt (curTerm_moves hm i) ht)
  cases hm with
  | lose => exact hold
  | @act j who msg net l hh _ ho hn =>
    rw [Ghost.record_voted_of_ne fun hj => by obtain ⟨rfl, rfl⟩ := hj; exact lt_irrefl _ ht]
    exact hold

theorem asked_past (i : Fin n) (t : Int) (ha : g'.asked i t) : t ≤ (s'.raft i).curTerm := by
  have hle := curTerm_moves hm i
  cases hm with
  | lose => exact (h.asked i t ha).trans hle
  | act hh ht ho hn =>
    rcases ha with ha | ⟨-, -, rfl, rfl⟩
    · exact (h.asked i t ha).trans hle
    · exact le_refl _

omit hm in
theorem grant_handled {i who : Fin n} {q : RequestVoteResponse} {net : List (Packet n)} (hc : c ≠ .duplicating)
    (hh : Handles c s e i who (some (.requestVoteResponse q)) net) (hg : q.voteResultTermGranted ≠ 0)
    (hle : (s.raft i).curTerm ≤ q.term) :
    who ≠ i ∧ q.voteResultTermGranted = 1 ∧ q.term = (s.raft i).curTerm ∧ g.asked i (s.raft i).curTerm ∧
      g.voted who (s.raft i).curTerm = i.val ∧ who ∉ g.counted i ∧
      ∃ l₁ l₂ pk, pk.dst = i ∧ pk.src = who ∧ pk.msg = .requestVoteResponse q ∧ s.net = l₁ ++ pk :: l₂ ∧
        net = l₁ ++ l₂ := by
  obtain ⟨pk, rfl, rfl, hmsg, hl, -⟩ := hh.message_inv
  obtain ⟨l₁, l₂, hs, hnet⟩ := hl.split hc
  have hpk : pk ∈ s.net := hl.subset.1
  obtain ⟨h₁, hv, ha⟩ := h.grant pk hpk q hmsg hg
  have ht : q.term = (s.raft pk.dst).curTerm := le_antisymm (h.asked _ _ ha) hle
  rw [ht] at hv ha
  refine ⟨h.links pk hpk, h₁, ht, ha, hv, ?_, l₁, l₂, pk, rfl, rfl, hmsg, hs, hnet⟩
  intro hmem
  have htok := h.tokens pk.dst pk.src (s.raft pk.dst).curTerm (h.links pk hpk).symm
  have hpos : 0 < s.net.countP (ballot pk.dst pk.src (s.raft pk.dst).curTerm) :=
    List.countP_pos_iff.mpr ⟨pk, hpk, by simp [ballot, hmsg, ht, hg]⟩
  simp only [Cluster.tokens, hmem, and_self, if_true] at htok
  omega

theorem self_moves (hc : c ≠ .duplicating) (i : Fin n) (ha : g'.asked i (s'.raft i).curTerm) :
    (s'.raft i).votedFor = i.val := by
  have hids := h.ids i
  cases hm with
  | lose hn hn' hr => rw [hr] at ha ⊢; exact h.self i ha
  | @act j who msg net l hh ht ho hn =>
    by_cases hi : i = j
    · subst hi
      by_cases hold : g.asked i (s'.raft i).curTerm
      · have heq := le_antisymm (h.asked i _ hold) ht.curTerm_le
        rw [heq] at hold
        have hv := h.self i hold
        rw [ht.votes.votedFor_stable heq (by omega), hv]
      · obtain ⟨hcnt, hwho, -, -⟩ := ha.resolve_left hold
        rcases ht.votes.counts hcnt with ⟨-, -, -, hv, -⟩ | ⟨-, q, rfl, hg, hle⟩
        · rw [hv, hids.1]
        · exact absurd hwho (grant_handled h hc hh hg hle).1
    · rw [ho i hi] at ha ⊢
      exact h.self i (Ghost.asked_of_record ha fun hj => hi hj.2.2)

theorem idle_moves (hc : c ≠ .duplicating) (i : Fin n) (hv : (s'.raft i).votedFor = -1) :
    (s'.raft i).voteRequestTimers = 0 ∨ (s'.raft i).votesCollected = 0 := by
  have hids := h.ids i
  cases hm with
  | lose hn hn' hr => rw [hr] at hv ⊢; exact h.idle i hv
  | @act j who msg net l hh ht ho hn =>
    by_cases hi : i = j
    · subst hi
      have hold := h.idle i
      have hself := h.self i
      revert hv
      generalize s'.raft i = r' at ht
      intro hv
      cases ht.votes with
      | quiet hq =>
        rw [hq.votedFor] at hv
        have := hq.timers
        rcases hq.votes with hvc | ⟨-, hvc⟩
        · rw [hvc]
          exact (hold hv).imp (fun h0 => by omega) id
        · exact Or.inr hvc
      | start => exact Or.inr rfl
      | ask h' ht' =>
        simp only [hids.1] at hv
        omega
      | grant q h' hst =>
        obtain ⟨pk, rfl, rfl, hmsg, hl, -⟩ := hh.message_inv
        have hcand := (h.request pk hl.subset.1 q hmsg).1
        simp only [hcand] at hv
        omega
      | count q hst hg hle =>
        have hv' : (s.raft i).votedFor = -1 := hv
        have := hself (grant_handled h hc hh hg hle).2.2.2.1
        omega
    · rw [ho i hi] at hv ⊢
      exact h.idle i hv

theorem counted_moves (hc : c ≠ .duplicating) (i v : Fin n) (hv : v ∈ g'.counted i) :
    g'.asked i (s'.raft i).curTerm ∧ g'.voted v (s'.raft i).curTerm = i.val := by
  have hvoted := @voted_moves n c s s' g g' e h hm
  have hasked := @asked_moves n c s s' g g' e hm
  have hids := h.ids i
  cases hm with
  | lose hn hn' hr => rw [hr]; exact h.counted i v hv
  | @act j who msg net l hh ht ho hn =>
    by_cases hi : i = j
    · subst hi
      by_cases hcnt : Counts (s.raft i) (s'.raft i)
      · rw [Ghost.record_counted_counts hcnt, Finset.mem_insert] at hv
        rcases ht.votes.counts hcnt with ⟨rfl, hv₀, -, hvf, -⟩ | ⟨-, q, rfl, hg, hle⟩
        · obtain ⟨rfl, -⟩ := hh.who_of_none
          refine ⟨Or.inr ⟨hcnt, rfl, rfl, rfl⟩, ?_⟩
          rcases hv with rfl | hv
          · rw [Ghost.record_voted_self, hvf, hids.1]
          · have := h.self who (h.counted who v hv).1
            omega
        · obtain ⟨-, -, -, ha, hvo, -⟩ := grant_handled h hc hh hg hle
          rw [hcnt.1]
          refine ⟨hasked ha, ?_⟩
          rcases hv with rfl | hv
          · exact hvoted hvo
          · exact hvoted (h.counted i v hv).2
      · by_cases hct : (s'.raft i).curTerm = (s.raft i).curTerm
        · rw [Ghost.record_counted_keeps hcnt hct] at hv
          obtain ⟨ha, hvo⟩ := h.counted i v hv
          rw [hct]
          exact ⟨hasked ha, hvoted hvo⟩
        · rw [Ghost.record_counted_leaves hct] at hv
          cases hv
    · rw [Ghost.record_counted_of_ne hi] at hv
      obtain ⟨ha, hvo⟩ := h.counted i v hv
      rw [ho i hi]
      exact ⟨hasked ha, hvoted hvo⟩

theorem votes_moves (hc : c ≠ .duplicating) (i : Fin n) (ha : g'.asked i (s'.raft i).curTerm) :
    (s'.raft i).votesCollected = (g'.counted i).card := by
  cases hm with
  | lose hn hn' hr => rw [hr] at ha ⊢; exact h.votes i ha
  | @act j who msg net l hh ht ho hn =>
    by_cases hi : i = j
    · subst hi
      by_cases hcnt : Counts (s.raft i) (s'.raft i)
      · rw [Ghost.record_counted_counts hcnt, hcnt.2]
        rcases ht.votes.counts hcnt with ⟨rfl, hv₀, htm, -⟩ | ⟨-, q, rfl, hg, hle⟩
        · have hempty : g.counted i = ∅ := by
            refine Finset.eq_empty_of_forall_notMem fun v hv => ?_
            have := h.self i (h.counted i v hv).1
            omega
          rcases h.idle i hv₀ with h0 | h0
          · omega
          · rw [hempty, h0]
            simp
        · obtain ⟨-, -, -, hask, -, hnew, -⟩ := grant_handled h hc hh hg hle
          rw [Finset.card_insert_of_notMem hnew, h.votes i hask]
          push_cast
          rfl
      · have hold := Ghost.asked_of_record ha fun hj => hcnt hj.1
        have heq := le_antisymm (h.asked i _ hold) ht.curTerm_le
        rw [Ghost.record_counted_keeps hcnt heq, ← h.votes i (heq ▸ hold)]
        revert hcnt heq
        generalize s'.raft i = r' at ht
        intro hcnt heq
        cases ht.votes with
        | quiet hq =>
          rcases hq.votes with hvc | ⟨hlt, -⟩
          · exact hvc
          · omega
        | start => simp at heq
        | ask => exact absurd ⟨rfl, rfl⟩ hcnt
        | grant q h' hst =>
          simp only at heq
          exact if_neg (by omega)
        | count q hst hg hle v hv =>
          obtain ⟨-, h1, -⟩ := grant_handled h hc hh hg hle
          exact absurd ⟨heq, by simpa [h1] using hv⟩ hcnt
    · rw [ho i hi] at ha ⊢
      rw [Ghost.record_counted_of_ne hi]
      exact h.votes i (Ghost.asked_of_record ha fun hj => hi hj.2.2)

theorem request_moves (pk : Packet n) (hpk : pk ∈ s'.net) (q : RequestVoteRequest)
    (hq : pk.msg = .requestVoteRequest q) : q.candidateId = pk.src.val ∧ g'.asked pk.src q.term := by
  have hasked := @asked_moves n c s s' g g' e hm
  have hids := h.ids
  cases hm.inFlight hpk with
  | old hpk =>
    obtain ⟨h₁, h₂⟩ := h.request pk hpk q hq
    exact ⟨h₁, hasked h₂⟩
  | @sent i who msg net l hh ht ho hpk =>
    have hcar := hq ▸ carries_of_mem hpk
    obtain ⟨hsrc, -, -⟩ := mem_sent hpk
    rw [hsrc]
    generalize s'.raft i = r' at ht ⊢
    cases ht.votes with
    | quiet hqt => exact absurd trivial (hqt.casts _ hcar)
    | start => simp at hcar
    | ask h' ht' =>
      cases carries_broadCast.mp hcar
      obtain ⟨rfl, -⟩ := hh.who_of_none
      exact ⟨(hids who).1, Or.inr ⟨⟨rfl, rfl⟩, rfl, rfl, rfl⟩⟩
    | grant => simp at hcar
    | count => simp at hcar

theorem grant_moves (pk : Packet n) (hpk : pk ∈ s'.net) (q : RequestVoteResponse)
    (hq : pk.msg = .requestVoteResponse q) (hg : q.voteResultTermGranted ≠ 0) :
    q.voteResultTermGranted = 1 ∧ g'.voted pk.src q.term = pk.dst.val ∧ g'.asked pk.dst q.term := by
  have hvoted := @voted_moves n c s s' g g' e h hm
  have hasked := @asked_moves n c s s' g g' e hm
  cases hm.inFlight hpk with
  | old hpk =>
    obtain ⟨h₁, h₂, h₃⟩ := h.grant pk hpk q hq hg
    exact ⟨h₁, hvoted h₂, hasked h₃⟩
  | @sent i who msg net l hh ht ho hpk =>
    have hcar := hq ▸ carries_of_mem hpk
    obtain ⟨hsrc, -, hsent⟩ := mem_sent hpk
    rw [hsrc]
    clear hvoted
    generalize s'.raft i = r' at ht hasked ⊢
    cases ht.votes with
    | quiet hqt => exact absurd hg (hqt.casts _ hcar)
    | start => simp at hcar
    | ask => simp at hcar
    | grant q' h' hst =>
      simp only [hq, List.mem_singleton, Effect.writeMessage.injEq, RaftMessage.requestVoteResponse.injEq,
        reduceCtorEq, or_false] at hsent
      obtain ⟨hdst, rfl⟩ := hsent
      obtain ⟨pk', rfl, rfl, hmsg, hl, -⟩ := hh.message_inv
      obtain ⟨hcand, ha⟩ := h.request pk' hl.subset.1 q' hmsg
      have heq : pk.dst = pk'.src := Fin.ext (by omega)
      refine ⟨rfl, ?_, heq ▸ hasked ha⟩
      rw [hdst]
      exact Ghost.record_voted_self ..
    | count => simp at hcar

omit h hm in
theorem ballot_casts {a v : Fin n} {t : Int} {pk : Packet n} (hb : ballot a v t pk = true) :
    Casts pk.msg := by
  unfold ballot at hb
  split at hb
  · rename_i q hq
    rw [hq]
    trivial
  · rename_i q hq
    rw [hq]
    simp only [decide_eq_true_eq] at hb
    exact hb.2.2.2
  · cases hb

omit h hm in
theorem countP_sent_zero {a v i : Fin n} {t : Int} {l : List Effect} (hl : ∀ m, Carries l m → ¬ Casts m) :
    (l.flatMap (packets i)).countP (ballot a v t) = 0 := by
  rw [List.countP_eq_zero]
  intro pk hpk hb
  exact hl _ (carries_of_mem hpk) (ballot_casts hb)

omit hm in
theorem countP_not_asked {a v : Fin n} {t : Int} (ha : ¬ g.asked a t) : s.net.countP (ballot a v t) = 0 := by
  rw [List.countP_eq_zero]
  intro pk hpk hb
  unfold ballot at hb
  split at hb
  · rename_i q hq
    simp only [decide_eq_true_eq] at hb
    obtain ⟨rfl, -, rfl⟩ := hb
    exact ha (h.request pk hpk q hq).2
  · rename_i q hq
    simp only [decide_eq_true_eq] at hb
    obtain ⟨-, rfl, rfl, hg⟩ := hb
    exact ha (h.grant pk hpk q hq hg).2.2
  · cases hb

omit hm in
theorem ballots_moves (hc : c ≠ .duplicating) {i who a v : Fin n} {t : Int} {msg : Option RaftMessage}
    {r' : RaftState} {net : List (Packet n)} {l : List Effect} (hh : Handles c s e i who msg net)
    (ht : Trans (s.raft i) msg r' l) (hne : ¬ (Counts (s.raft i) r' ∧ a = i)) :
    net.countP (ballot a v t) + (l.flatMap (packets i)).countP (ballot a v t) ≤
      s.net.countP (ballot a v t) := by
  have hsub : net.countP (ballot a v t) ≤ s.net.countP (ballot a v t) := by
    cases hh with
    | input => exact le_refl _
    | message hl hg =>
      obtain ⟨l₁, l₂, h₁, h₂⟩ := hl.split hc
      rw [h₁, h₂]
      simp only [List.countP_append, List.countP_cons]
      omega
  cases ht.votes with
  | quiet hq => rw [countP_sent_zero hq.casts]; exact hsub
  | start => exact hsub
  | count => exact hsub
  | ask =>
    have ha : a ≠ i := fun ha => hne ⟨⟨rfl, rfl⟩, ha⟩
    have hzero : ([Effect.broadCast (.requestVoteRequest (s.raft i).voteRequest)].flatMap (packets i)).countP
        (ballot a v t) = 0 := by
      rw [List.countP_eq_zero]
      intro pk hpk hb
      obtain ⟨hsrc, -, hmsg⟩ := mem_sent hpk
      simp only [List.mem_singleton, reduceCtorEq, Effect.broadCast.injEq, false_or] at hmsg
      simp only [ballot, hmsg, decide_eq_true_eq] at hb
      exact ha (hb.1.symm.trans hsrc)
    rw [hzero]
    exact hsub
  | grant q h' hst =>
    obtain ⟨pk, rfl, rfl, hmsg, hl, -⟩ := hh.message_inv
    obtain ⟨l₁, l₂, h₁, h₂⟩ := hl.split hc
    have hcand := (h.request pk hl.subset.1 q hmsg).1
    by_cases hb : ballot a v t pk = true
    · have hone : ([Effect.writeMessage q.candidateId (.requestVoteResponse ⟨q.term, 1⟩)].flatMap
          (packets pk.dst)).countP (ballot a v t) ≤ 1 := by
        rw [List.flatMap_singleton]
        refine countP_packets_le (v := pk.src) fun pk' hpk' _ => ?_
        obtain ⟨-, -, he | he⟩ := mem_packets hpk'
        · exact Fin.ext (by have := (Effect.writeMessage.inj he).1; omega)
        · cases he
      rw [h₁, h₂]
      simp only [List.countP_append, List.countP_cons, hb, if_true] at hone ⊢
      omega
    · have hzero : ([Effect.writeMessage q.candidateId (.requestVoteResponse ⟨q.term, 1⟩)].flatMap
          (packets pk.dst)).countP (ballot a v t) = 0 := by
        rw [List.countP_eq_zero]
        intro pk' hpk' hb'
        obtain ⟨hsrc, -, he⟩ := mem_sent hpk'
        simp only [List.mem_singleton, Effect.writeMessage.injEq, reduceCtorEq, or_false] at he
        simp only [ballot, he.2, decide_eq_true_eq] at hb'
        refine hb ?_
        simp only [ballot, hmsg, decide_eq_true_eq]
        exact ⟨Fin.ext (by rw [← hb'.2.1]; omega), hsrc.symm.trans hb'.1, hb'.2.2.1⟩
      rw [hzero]
      exact hsub

omit hm in
theorem ballots_ask {i v : Fin n} (hiv : i ≠ v) (hv₀ : (s.raft i).votedFor = -1) (t : Int) :
    s.net.countP (ballot i v t) +
      (packets i (.broadCast (.requestVoteRequest (s.raft i).voteRequest))).countP (ballot i v t) ≤ 1 := by
  have hask : ¬ g.asked i (s.raft i).curTerm := fun ha => by
    have := h.self i ha
    omega
  by_cases htm : t = (s.raft i).curTerm
  · rw [htm, countP_not_asked h hask, zero_add]
    refine countP_packets_le (v := v) fun pk hpk hb => ?_
    obtain ⟨-, -, he⟩ := mem_packets hpk
    simp only [reduceCtorEq, Effect.broadCast.injEq, false_or] at he
    simp only [ballot, ← he, decide_eq_true_eq] at hb
    exact hb.2.1
  · have hzero :
        (packets i (.broadCast (.requestVoteRequest (s.raft i).voteRequest))).countP (ballot i v t) = 0 := by
      rw [List.countP_eq_zero]
      intro pk hpk hb
      obtain ⟨-, -, he⟩ := mem_packets hpk
      simp only [reduceCtorEq, Effect.broadCast.injEq, false_or] at he
      simp only [ballot, ← he, decide_eq_true_eq] at hb
      exact htm hb.2.2.symm
    have htok := h.tokens i v t hiv
    unfold Cluster.tokens at htok
    omega

omit hm in
theorem tokens_count (hc : c ≠ .duplicating) {i who v : Fin n} {q : RequestVoteResponse} {net : List (Packet n)}
    (hh : Handles c s e i who (some (.requestVoteResponse q)) net) (hg : q.voteResultTermGranted ≠ 0)
    (hle : (s.raft i).curTerm ≤ q.term) (hiv : i ≠ v) (t : Int) :
    net.countP (ballot i v t) + (if v ∈ insert who (g.counted i) ∧ t = (s.raft i).curTerm then 1 else 0) ≤ 1 := by
  have htok := h.tokens i v t hiv
  obtain ⟨-, -, hqt, -, -, -, l₁, l₂, pk, hd, hsrc, hmsg, h₁, h₂⟩ := grant_handled h hc hh hg hle
  unfold Cluster.tokens at htok
  rw [h₁] at htok
  rw [h₂]
  simp only [List.countP_append, List.countP_cons] at htok ⊢
  by_cases hv : v = who ∧ t = (s.raft i).curTerm
  · have hb : ballot i v t pk = true := by
      simp only [ballot, hmsg, decide_eq_true_eq]
      exact ⟨hsrc.trans hv.1.symm, hd, hqt.trans hv.2.symm, hg⟩
    rw [if_pos hb] at htok
    split <;> omega
  · have himp : v ∈ insert who (g.counted i) ∧ t = (s.raft i).curTerm → v ∈ g.counted i ∧
        t = (s.raft i).curTerm := by
      rintro ⟨hv', ht'⟩
      exact ⟨(Finset.mem_insert.mp hv').resolve_left fun h => hv ⟨h, ht'⟩, ht'⟩
    split
    · rw [if_pos (himp ‹_›)] at htok
      omega
    · omega

omit h hm in
theorem counted_of_record {i who a v : Fin n} {t : Int} (ho : ∀ j, j ≠ i → s'.raft j = s.raft j)
    (hne : ¬ (Counts (s.raft i) (s'.raft i) ∧ a = i))
    (hv : v ∈ (g.record i who (s.raft i) (s'.raft i)).counted a ∧ t = (s'.raft a).curTerm) :
    v ∈ g.counted a ∧ t = (s.raft a).curTerm := by
  obtain ⟨hv, heq⟩ := hv
  by_cases ha : a = i
  · subst ha
    have hcnt : ¬ Counts (s.raft a) (s'.raft a) := fun hh => hne ⟨hh, rfl⟩
    by_cases hct : (s'.raft a).curTerm = (s.raft a).curTerm
    · rw [Ghost.record_counted_keeps hcnt hct] at hv
      exact ⟨hv, heq.trans hct⟩
    · rw [Ghost.record_counted_leaves hct] at hv
      cases hv
  · rw [Ghost.record_counted_of_ne ha] at hv
    rw [ho a ha] at heq
    exact ⟨hv, heq⟩

theorem tokens_moves (hc : c ≠ .duplicating) (a v : Fin n) (t : Int) (hav : a ≠ v) :
    s'.tokens g' a v t ≤ 1 := by
  have htok := h.tokens a v t hav
  unfold Cluster.tokens at htok ⊢
  cases hm with
  | lose hn hn' hr =>
    rw [hr, hn']
    rw [hn] at htok
    simp only [List.countP_append, List.countP_cons] at htok ⊢
    omega
  | @act i who msg net l hh ht ho hn =>
    rw [hn, List.countP_append]
    by_cases hcnt : Counts (s.raft i) (s'.raft i) ∧ a = i
    · obtain ⟨hcnt, rfl⟩ := hcnt
      rw [Ghost.record_counted_counts hcnt, hcnt.1]
      rcases ht.votes.counts hcnt with ⟨rfl, hv₀, -, -, rfl⟩ | ⟨rfl, q, rfl, hg, hle⟩
      · obtain ⟨rfl, rfl⟩ := hh.who_of_none
        have hnot : v ∉ insert who (g.counted who) := fun hv => by
          rcases Finset.mem_insert.mp hv with rfl | hv
          · exact hav rfl
          · have := h.self who (h.counted who v hv).1
            omega
        rw [if_neg fun hv => hnot hv.1, List.flatMap_singleton, add_zero]
        exact ballots_ask h hav hv₀ t
      · rw [List.flatMap_nil, List.countP_nil, add_zero]
        exact tokens_count h hc hh hg hle hav t
    · have hle := ballots_moves h hc hh ht hcnt (v := v) (t := t)
      split
      · rename_i hv
        rw [if_pos (counted_of_record ho hcnt hv)] at htok
        omega
      · omega

theorem majority_of_wins (hc : c ≠ .duplicating) {i : Fin n} (hw : Wins (s.raft i) (s'.raft i)) :
    (s'.raft i).curTerm = (s.raft i).curTerm ∧ TermLog.IsMajority (g'.counted i) ∧
      ∀ v ∈ g'.counted i, g'.voted v (s'.raft i).curTerm = i.val := by
  have hcounted := counted_moves h hm hc i
  have hvotes := votes_moves h hm hc i
  have hasked := @asked_moves n c s s' g g' e hm
  have htotal := (h.ids i).2
  obtain ⟨who, msg, net, l, hh, ht, -⟩ := hm.of_wins hw
  obtain ⟨q, rfl, hg, hle, hct, hmaj, -⟩ := ht.votes.wins hw
  obtain ⟨-, -, hqt, ha, -, -, -⟩ := grant_handled h hc hh hg hle
  have heq := hct.trans hqt
  refine ⟨heq, ?_, fun v hv => (hcounted v hv).2⟩
  have hcard := hvotes (heq ▸ hasked ha)
  refine TermLog.isMajority_of_half_lt hcard.le ?_
  rw [Fintype.card_fin]
  omega

theorem won_moves (hc : c ≠ .duplicating) (t : Int) (w : Fin n) (hw : g'.won t = some w) :
    (∃ Q, TermLog.IsMajority Q ∧ ∀ v ∈ Q, g'.voted v t = w.val) ∧
      t ≤ (s'.raft w).curTerm ∧ ((s'.raft w).curTerm = t → (s'.raft w).state = .leader) := by
  have hvoted := @voted_moves n c s s' g g' e h hm
  have hmaj := @majority_of_wins n c s s' g g' e h hm hc
  have hle := curTerm_moves hm w
  cases hm with
  | lose hn hn' hr => rw [hr]; exact h.won t w hw
  | @act i who msg net l hh ht ho hn =>
    by_cases hnew : Wins (s.raft i) (s'.raft i) ∧ t = (s'.raft i).curTerm
    · obtain ⟨hwin, rfl⟩ := hnew
      rw [Ghost.record_won_wins hwin] at hw
      cases hw
      obtain ⟨-, h₁, h₂⟩ := hmaj hwin
      exact ⟨⟨_, h₁, h₂⟩, le_refl _, fun _ => hwin.2⟩
    · rw [Ghost.record_won_of_not hnew] at hw
      obtain ⟨⟨Q, hQ, hv⟩, hle', hlead⟩ := h.won t w hw
      refine ⟨⟨Q, hQ, fun v hv' => hvoted (hv v hv')⟩, hle'.trans hle, fun heq => ?_⟩
      by_cases hi : w = i
      · subst hi
        have hct : (s.raft w).curTerm = t := le_antisymm (heq ▸ hle) hle'
        have hl := hlead hct
        have hsame := heq.trans hct.symm
        revert hsame
        generalize s'.raft w = r' at ht
        intro hsame
        cases ht.votes with
        | quiet hq => exact hq.stays hl hsame
        | start h' => exact absurd hl h'
        | ask => exact hl
        | grant => exact hl
        | count q hst => rw [hl] at hst; cases hst
      · rw [ho w hi] at heq ⊢
        exact hlead heq

theorem ElectionInv.moves (hc : c ≠ .duplicating) : ElectionInv s' g' where
  ids := ids_moves h hm
  links := links_moves h hm
  voted := voted_current h hm
  future := voted_future h hm
  asked := asked_past h hm
  self := self_moves h hm hc
  idle := idle_moves h hm hc
  counted := counted_moves h hm hc
  votes := votes_moves h hm hc
  request := request_moves h hm
  grant := grant_moves h hm
  tokens := tokens_moves h hm hc
  won := won_moves h hm hc

theorem won_none_of_wins (hc : c ≠ .duplicating) {i : Fin n} (hw : Wins (s.raft i) (s'.raft i)) :
    g.won (s'.raft i).curTerm = none := by
  cases hwon : g.won (s'.raft i).curTerm with
  | none => rfl
  | some w =>
    obtain ⟨heq, hmaj, hv⟩ := majority_of_wins h hm hc hw
    obtain ⟨⟨Q, hQ, hv'⟩, -, hlead⟩ := h.won _ w hwon
    obtain ⟨v, hvi, hvQ⟩ := hmaj.meet hQ
    have h₁ := hv v hvi
    have h₂ := voted_moves h hm (hv' v hvQ)
    have hwi : w = i := Fin.ext (by omega)
    subst hwi
    have := hlead heq.symm
    rw [hw.1] at this
    cases this

theorem won_stable (hc : c ≠ .duplicating) {t : Int} {w : Fin n} (hw : g.won t = some w) :
    g'.won t = some w := by
  have hnone := @won_none_of_wins n c s s' g g' e h hm hc
  cases hm with
  | lose => exact hw
  | @act i who msg net l hh ht ho hn =>
    by_cases hnew : Wins (s.raft i) (s'.raft i) ∧ t = (s'.raft i).curTerm
    · obtain ⟨hwin, rfl⟩ := hnew
      rw [hnone hwin] at hw
      cases hw
    · rw [Ghost.record_won_of_not hnew]
      exact hw

omit h in
theorem won_of_wins {i : Fin n} (hw : Wins (s.raft i) (s'.raft i)) :
    g'.won (s'.raft i).curTerm = some i ∧ g'.electLog (s'.raft i).curTerm = (s'.raft i).logEntries := by
  obtain ⟨who, msg, net, l, -, -, rfl⟩ := hm.of_wins hw
  exact ⟨Ghost.record_won_wins hw, Ghost.record_electLog_wins hw⟩

end

/-! ## Runs -/

theorem electionInv {c : Channel} (hc : c ≠ .duplicating) (r : Execution n c) :
    ∀ k ≤ r.length, ElectionInv (r.states k) (past r k) :=
  r.induct (electionInv_starts r.starts) fun _ hk ih => ih.moves (moves r hk) hc

def WinsAt {c : Channel} (r : Execution n c) (k : Nat) (i : Fin n) (t : Int) : Prop :=
  k < r.length ∧ ((r.states k).procs i).state = .candidate ∧ ((r.states (k + 1)).procs i).state = .leader ∧
    ((r.states (k + 1)).procs i).curTerm = t

theorem won_after {c : Channel} (hc : c ≠ .duplicating) (r : Execution n c) {j k : Nat} {i : Fin n} {t : Int}
    (hw : WinsAt r j i t) (hjk : j < k) (hk : k ≤ r.length) : (past r k).won t = some i := by
  obtain ⟨hj, h₁, h₂, rfl⟩ := hw
  refine r.stable (P := fun k => (past r k).won _ = some i) ?_ hjk hk ?_
  · intro m hm hwon
    exact won_stable (electionInv hc r m hm.le) (moves r hm) hc hwon
  · exact (won_of_wins (moves r hj) ⟨h₁, h₂⟩).1

theorem not_won_before {c : Channel} (hc : c ≠ .duplicating) (r : Execution n c) {k : Nat} {i : Fin n} {t : Int}
    (hw : WinsAt r k i t) : (past r k).won t = none := by
  obtain ⟨hk, h₁, h₂, rfl⟩ := hw
  exact won_none_of_wins (electionInv hc r k hk.le) (moves r hk) hc ⟨h₁, h₂⟩

theorem electLog_of_wins {c : Channel} (r : Execution n c) {k : Nat} {i : Fin n} {t : Int} (hw : WinsAt r k i t) :
    (past r (k + 1)).electLog t = ((r.states (k + 1)).procs i).logEntries := by
  obtain ⟨hk, h₁, h₂, rfl⟩ := hw
  exact (won_of_wins (moves r hk) ⟨h₁, h₂⟩).2

/-- In every run over links that deliver a message at most once, each term has at most one election winner. -/
theorem one_winner_per_term (r : Execution n .unordered) {j k : Nat} {a b : Fin n} {t : Int}
    (ha : WinsAt r j a t) (hb : WinsAt r k b t) : j = k ∧ a = b := by
  have hc : Channel.unordered ≠ .duplicating := by decide
  rcases Nat.lt_trichotomy j k with hlt | rfl | hlt
  · have h₁ := won_after hc r ha hlt hb.1.le
    rw [not_won_before hc r hb] at h₁
    cases h₁
  · have h₁ := won_after hc r ha (Nat.lt_succ_self j) ha.1
    rw [won_after hc r hb (Nat.lt_succ_self j) ha.1] at h₁
    exact ⟨rfl, (Option.some.inj h₁).symm⟩
  · have h₁ := won_after hc r hb hlt ha.1.le
    rw [not_won_before hc r ha] at h₁
    cases h₁

instance {c : Channel} (r : Execution n c) (k : Nat) (i : Fin n) (t : Int) : Decidable (WinsAt r k i t) :=
  inferInstanceAs (Decidable (_ ∧ _))

theorem electZero_isSome : (Runs.exec (step .unordered) (fresh 3) electZero).isSome := by decide +kernel

def electZeroRun : Execution 3 .unordered :=
  Runs.Run.ofEvents (fresh 3) starts_three electZero electZero_isSome

theorem one_winner_per_term_electZero : WinsAt electZeroRun 3 0 1 ∧ (3 = 3 ∧ (0 : Fin 3) = 0) :=
  have h : WinsAt electZeroRun 3 0 1 := by decide +kernel
  ⟨h, one_winner_per_term electZeroRun h h⟩

end Cluster

/-! ## Leaders -/

/-- The handlers that raise the term of a leader and leave it leader are not asked to. -/
def KeepsTerm (r : RaftState) (m : RaftMessage) : Prop :=
  onVoteRequest (fun r q => r.state = .leader → q.term ≤ r.curTerm) r m ∧
    onAppendResponse (fun r q => r.state = .leader → q.appendResultSuccess = 0 → q.term ≤ r.curTerm) r m

instance (r : RaftState) (m : RaftMessage) : Decidable (KeepsTerm r m) := inferInstanceAs (Decidable (_ ∧ _))

theorem Trans.leads {r r' : RaftState} {msg : Option RaftMessage} {l : List Effect} (h : Trans r msg r' l)
    (hk : ∀ m, msg = some m → KeepsTerm r m) (hl : r'.state = .leader) (hw : ¬ Wins r r') :
    r.state = .leader ∧ r'.curTerm = r.curTerm := by
  have haccept : ∀ (q : AppendEntriesRequest) (now : Int), r.curTerm ≤ q.term →
      (r.acceptLeader now q).state = .leader → r.state = .leader ∧ q.term = r.curTerm := by
    intro q now hq hs
    simp only [RaftState.acceptLeader] at hs
    split at hs
    · cases hs
    · rename_i hn
      refine ⟨hs, le_antisymm ?_ hq⟩
      exact not_lt.mp fun hlt => hn (Or.inr ⟨hs, hlt⟩)
  cases h with
  | startElection => cases hl
  | refuseAppend q now h => exact haccept q now h hl
  | acceptAppend q now h => exact haccept q now h hl
  | replyTerm q h ht => exact absurd ((hk _ rfl).2 hl h) (not_le.mpr ht)
  | grantVote q h hst => exact absurd hl hst
  | ignoreVote q h hst =>
    refine ⟨hl, le_antisymm ((hk _ rfl).1 hl) ?_⟩
    rcases h with h | h
    · exact h.le
    · exact h.1.ge
  | win q hst => exact absurd ⟨hst, rfl⟩ hw
  | _ => exact ⟨hl, rfl⟩

namespace Cluster

variable {n : Nat}

def LeadersWon (s : Cluster n) (g : Ghost n) : Prop :=
  ∀ i, (s.raft i).state = .leader → g.won (s.raft i).curTerm = some i

theorem Handles.condition {c : Channel} {s : Cluster n} {e : Event n} {i who : Fin n}
    {msg : Option RaftMessage} {net : List (Packet n)} (h : Handles c s e i who msg net)
    {p : RaftState → RaftMessage → Prop} (hp : onMessage p s e) : ∀ m, msg = some m → p (s.raft i) m := by
  rintro m rfl
  obtain ⟨pk, -, -, -, -, hg⟩ := h.message_inv
  exact hg p hp

theorem LeadersWon.moves {c : Channel} (hc : c ≠ .duplicating) {s s' : Cluster n} {g g' : Ghost n} {e : Event n}
    (h : LeadersWon s g) (he : ElectionInv s g) (hm : Moves c s g e s' g') (hk : onMessage KeepsTerm s e) :
    LeadersWon s' g' := by
  intro i hl
  have hstable := @won_stable n c s s' g g' e he hm hc
  have hwin := @won_of_wins n c s s' g g' e hm i
  cases hm with
  | lose hn hn' hr => rw [hr] at hl ⊢; exact h i hl
  | @act j who msg net l hh ht ho hn =>
    by_cases hi : i = j
    · subst hi
      by_cases hw : Wins (s.raft i) (s'.raft i)
      · exact (hwin hw).1
      · obtain ⟨hl₀, hct⟩ := ht.leads (hh.condition hk) hl hw
        rw [hct]
        exact hstable (h i hl₀)
    · rw [ho i hi] at hl ⊢
      exact hstable (h i hl)

theorem leadersWon {c : Channel} (hc : c ≠ .duplicating) (r : Execution n c)
    (hr : r.Always (onMessage KeepsTerm)) :
    ∀ k ≤ r.length, LeadersWon (r.states k) (past r k) := by
  refine r.induct ?_ fun k hk ih => ih.moves hc (electionInv hc r k hk.le) (moves r hk) (hr k hk)
  intro i hl
  obtain ⟨partitionId, serverNodes, garbage, hs⟩ := r.starts
  rw [hs, raft_init] at hl
  cases hl

def OneLeader (s : Cluster n) : Prop :=
  ∀ i j, (s.procs i).state = .leader → (s.procs j).state = .leader →
    (s.procs i).curTerm = (s.procs j).curTerm → i = j

instance (s : Cluster n) : Decidable (OneLeader s) := inferInstanceAs (Decidable (∀ _, _))

/-- There is one leader per term as long as no leader is told a higher term by a vote request or a
failed append. -/
theorem oneLeader_of_keepsTerm {s : Cluster n} (h : Reachable .fifo (onMessage KeepsTerm) s) :
    OneLeader s := by
  obtain ⟨r, hr, rfl⟩ := h.exists_run
  have hl := leadersWon (by decide) r hr _ (le_refl _)
  intro i j hi hj hij
  have h₁ := hl i hi
  have h₂ := hl j hj
  rw [show ((r.states r.length).raft i).curTerm = ((r.states r.length).raft j).curTerm from hij, h₂] at h₁
  exact (Option.some.inj h₁).symm

/-- Node 2 wins term 2 while node 0, out of its reach, still leads term 1. -/
def secondElection : List (Event 3) :=
  electZero ++ [.input 2 (.voteTimer 2), .input 2 (.voteTimer 3), .input 2 .voteRequestTimer, .lose 1, .deliver 1 4,
    .deliver 1 5]

theorem oneLeader_secondElection :
    ∃ s, Runs.exec (Runs.guarded (onMessage KeepsTerm) (step .fifo)) (fresh 3) secondElection = some s ∧
      OneLeader s := by
  obtain ⟨s, hs⟩ := Option.isSome_iff_exists.mp
    (show (Runs.exec (Runs.guarded (onMessage KeepsTerm) (step .fifo)) (fresh 3) secondElection).isSome = true by
      decide +kernel)
  exact ⟨s, hs, oneLeader_of_keepsTerm (reachable_of_exec starts_fresh hs)⟩

/-- The same election, but the vote request reaches node 0, which moves to term 2 as its leader. -/
def disturbedLeader : List (Event 3) :=
  electZero ++ [.input 2 (.voteTimer 2), .input 2 (.voteTimer 3), .input 2 .voteRequestTimer, .deliver 1 4,
    .deliver 1 4, .deliver 1 5]

theorem not_oneLeader_disturbedLeader : ∃ s : Cluster 3, Reachable .fifo Free s ∧ ¬ OneLeader s :=
  exists_reachable disturbedLeader _ (by decide +kernel)

end Cluster

end FlowMQ
