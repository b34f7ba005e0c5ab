import FlowMQ.Election

/-!
# How many leaders there can be

A leader does not step down when a newer one is elected, and keeps the state
when it is told a higher term. Two leaders can even share a term. But the nodes
that voted for the newest winner are not leaders: a leader grants no vote, and
one that was elected later would be the newest itself.
-/

namespace FlowMQ

section
variable {r r' : RaftState} {msg : Option RaftMessage} {l : List Effect}

theorem Trans.votedFor_leader (h : Trans r msg r' l)
    (hl : r.state = .leader) (hv : r.votedFor ≠ -1) : r'.votedFor = r.votedFor := by
  cases h.votes with
  | quiet hq => exact hq.votedFor
  | start hst => exact absurd hl hst
  | ask hv' => exact absurd hv' hv
  | grant q _ hst => exact absurd hl hst
  | count => rfl

theorem Trans.leader_or_wins (h : Trans r msg r' l)
    (hl : r'.state = .leader) : r.state = .leader ∨ Wins r r' := by
  cases h.votes with
  | quiet hq => exact Or.inl (hq.leads hl)
  | start => cases hl
  | ask => exact Or.inl hl
  | grant => exact Or.inl hl
  | count q hst => exact Or.inr ⟨hst, hl⟩

end

namespace Cluster

variable {n : Nat}

def leaders (s : Cluster n) : Finset (Fin n) := Finset.univ.filter fun i => (s.procs i).state = .leader

/-- A leader won some term, and has not voted for another node in a term after it. -/
def SinceWin (s : Cluster n) (g : Ghost n) : Prop :=
  ∀ i, (s.raft i).state = .leader → (s.raft i).votedFor = i.val ∧
    ∃ w, g.won w = some i ∧ ∀ t, w < t → g.voted i t = -1 ∨ g.voted i t = i.val

section
variable {c : Channel} {s s' : Cluster n} {g g' : Ghost n} {e : Event n}

theorem votedFor_of_wins (hc : c ≠ .duplicating) (h : ElectionInv s g) (hm : Moves c s g e s' g') {i : Fin n}
    (hw : Wins (s.raft i) (s'.raft i)) : (s'.raft i).votedFor = i.val := by
  refine (h.moves hm hc).self i ?_
  obtain ⟨heq, -, -⟩ := majority_of_wins h hm hc hw
  rw [heq]
  obtain ⟨who, msg, net, l, hh, ht, -⟩ := hm.of_wins hw
  obtain ⟨q, rfl, hg, hle, -⟩ := ht.votes.wins hw
  exact asked_moves hm (grant_handled h hc hh hg hle).2.2.2.1

theorem SinceWin.moves (hc : c ≠ .duplicating) (h : SinceWin s g) (he : ElectionInv s g)
    (hm : Moves c s g e s' g') :
    SinceWin s' g' := by
  intro i hl
  have hstable := @won_stable n c s s' g g' e he hm hc
  have he' := he.moves hm hc
  by_cases hw : Wins (s.raft i) (s'.raft i)
  · refine ⟨votedFor_of_wins hc he hm hw, _, (won_of_wins hm hw).1, fun t ht => Or.inl (he'.future i t ht)⟩
  · cases hm with
    | lose hn hn' hr => rw [hr] at hl ⊢; exact h i hl
    | @act j who msg net l hh ht ho hn =>
      by_cases hi : i = j
      · subst hi
        have hl₀ := (ht.leader_or_wins hl).resolve_right hw
        obtain ⟨hv, w, hwon, hlater⟩ := h i hl₀
        have hv' := (ht.votedFor_leader hl₀ (by omega)).trans hv
        refine ⟨hv', w, hstable hwon, fun t hwt => ?_⟩
        by_cases htc : t = (s'.raft i).curTerm
        · subst htc
          rw [Ghost.record_voted_self]
          exact Or.inr hv'
        · rw [Ghost.record_voted_of_ne fun hj => htc hj.2]
          exact hlater t hwt
      · rw [ho i hi] at hl ⊢
        obtain ⟨hv, w, hwon, hlater⟩ := h i hl
        refine ⟨hv, w, hstable hwon, fun t hwt => ?_⟩
        rw [Ghost.record_voted_of_ne fun hj => hi hj.1]
        exact hlater t hwt

end

theorem sinceWin {c : Channel} (hc : c ≠ .duplicating) (r : Execution n c) :
    ∀ k ≤ r.length, SinceWin (r.states k) (past r k) := by
  refine r.induct ?_ fun k hk ih => ih.moves hc (electionInv hc r k hk.le) (moves r hk)
  intro i hl
  obtain ⟨partitionId, serverNodes, garbage, hs⟩ := r.starts
  rw [hs, raft_init] at hl
  cases hl

theorem exists_newest {s : Cluster n} {g : Ghost n} (he : ElectionInv s g) (h : SinceWin s g)
    (hne : s.leaders.Nonempty) :
    ∃ m Q, TermLog.IsMajority Q ∧ ∀ v ∈ Q, v ∈ s.leaders → v = m := by
  have hwin : ∀ i ∈ s.leaders, ∃ w, g.won w = some i ∧ ∀ t, w < t → g.voted i t = -1 ∨ g.voted i t = i.val :=
    fun i hi => (h i (Finset.mem_filter.mp hi).2).2
  choose! w hwon hlater using hwin
  obtain ⟨m, hm, hmax⟩ := s.leaders.exists_max_image w hne
  obtain ⟨⟨Q, hQ, hv⟩, -, -⟩ := he.won _ _ (hwon m hm)
  refine ⟨m, Q, hQ, fun v hvQ hvl => ?_⟩
  rcases (hmax v hvl).lt_or_eq with hlt | heq
  · have hvote := hv v hvQ
    rcases hlater v hvl _ hlt with h₁ | h₁
    · omega
    · exact Fin.ext (by omega)
  · have hsame := hwon v hvl
    rw [heq, hwon m hm] at hsame
    exact (Option.some.inj hsame).symm

/-- On links that deliver nothing twice, never more than half of the nodes, rounded up, are leaders at
a time. -/
theorem two_mul_leaders_le {c : Channel} (hc : c ≠ .duplicating) {s : Cluster n} (h : Reachable c Free s) :
    2 * s.leaders.card ≤ n + 1 := by
  obtain ⟨r, -, rfl⟩ := h.exists_run
  rcases (r.states r.length).leaders.eq_empty_or_nonempty with hempty | hne
  · rw [hempty, Finset.card_empty]
    omega
  · obtain ⟨m, Q, hQ, honly⟩ := exists_newest (electionInv hc r _ le_rfl) (sinceWin hc r _ le_rfl) hne
    have hinter : (Q ∩ (r.states r.length).leaders).card ≤ 1 := by
      refine Finset.card_le_one.mpr fun v hv u hu => ?_
      obtain ⟨h₁, h₂⟩ := Finset.mem_inter.mp hv
      obtain ⟨h₃, h₄⟩ := Finset.mem_inter.mp hu
      exact (honly v h₁ h₂).trans (honly u h₃ h₄).symm
    have hunion := Finset.card_union_add_card_inter Q (r.states r.length).leaders
    have hle := Finset.card_le_univ (Q ∪ (r.states r.length).leaders)
    unfold TermLog.IsMajority at hQ
    rw [Fintype.card_fin] at hQ hle
    omega

theorem two_mul_leaders_le_disturbed :
    ∃ s : Cluster 3, Reachable .unordered Free s ∧ s.leaders = {0, 2} ∧ 2 * s.leaders.card ≤ 3 + 1 := by
  obtain ⟨s, hs, hl⟩ := exists_reachable (c := .unordered) (G := Free) disturbedLeader
    (fun s => s.leaders = ({0, 2} : Finset (Fin 3))) (by decide +kernel)
  exact ⟨s, hs, hl, two_mul_leaders_le (by decide) hs⟩

end Cluster

end FlowMQ
