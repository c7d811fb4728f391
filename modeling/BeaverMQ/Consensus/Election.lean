import BeaverMQ.Consensus.System
import BeaverMQ.Lib.Quorum

/-!
# BeaverMQ — election safety

The votes of a run are recorded in `Ballots`: for whom each node voted in each term, and
whose votes each candidate counted. `Elect` relates the record to the votes on the wire,
to what the disks hold and to the counters of the candidates; every step keeps it
(`elect_micro`). A leader has counted a quorum, so two leaders of one term share a voter.
-/

namespace BeaverMQ

open Relation (ReflTransGen)
open List

/-! ## The record of votes -/

/-- For whom a node voted in a term, and whose votes a candidate counted in a term. -/
structure Ballots where
  voted : Nat → Nat → Option Nat := fun _ _ => none
  counted : Nat → Nat → Finset Nat := fun _ _ => ∅

def Ballots.cast (g : Ballots) (v t c : Nat) : Ballots :=
  { g with voted := fun x u => if x = v ∧ u = t then some c else g.voted x u }

def Ballots.count (g : Ballots) (c t v : Nat) : Ballots :=
  { g with counted := fun x u => if x = c ∧ u = t then insert v (g.counted x u)
                                 else g.counted x u }

structure Ballots.Le (g g' : Ballots) : Prop where
  voted : ∀ v t c, g.voted v t = some c → g'.voted v t = some c
  counted : ∀ c t, g.counted c t ⊆ g'.counted c t

theorem Ballots.Le.refl (g : Ballots) : g.Le g := ⟨fun _ _ _ h => h, fun _ _ => subset_rfl⟩

theorem Ballots.Le.trans {g₁ g₂ g₃ : Ballots} (h₁ : g₁.Le g₂) (h₂ : g₂.Le g₃) : g₁.Le g₃ where
  voted v t c h := h₂.voted v t c (h₁.voted v t c h)
  counted c t := (h₁.counted c t).trans (h₂.counted c t)

variable {t src dst : Nat} {g' : Ballots} {effs : List Effect} {f : Frame}

theorem Ballots.le_cast {g : Ballots} {v c : Nat}
    (hFree : g.voted v t = none ∨ g.voted v t = some c) : g.Le (g.cast v t c) where
  voted x u d h := by
    simp only [Ballots.cast]
    split
    · rename_i hxu
      obtain ⟨rfl, rfl⟩ := hxu
      rcases hFree with hFree | hFree
      · rw [hFree] at h
        cases h
      · rw [← hFree, h]
    · exact h
  counted _ _ := subset_rfl

theorem Ballots.le_count (g : Ballots) (c t v : Nat) : g.Le (g.count c t v) where
  voted _ _ _ h := h
  counted x u := by
    simp only [Ballots.count]
    split
    · exact Finset.subset_insert _ _
    · exact subset_rfl

theorem Ballots.mem_count {g : Ballots} {x u c v w : Nat}
    (hw : w ∈ (g.count c t v).counted x u) : w ∈ g.counted x u ∨ x = c ∧ u = t ∧ w = v := by
  simp only [Ballots.count] at hw
  split at hw
  · rename_i hxu
    exact (Finset.mem_insert.mp hw).symm.imp_right fun hEq => ⟨hxu.1, hxu.2, hEq⟩
  · exact .inl hw

variable {S : Setup} {s s' : System} {g : Ballots}

/-! ## The invariant -/

def isReq (t : Nat) : Frame → Bool
  | .voteReq u _ _ => u = t
  | _ => false

def isGrant (t : Nat) : Frame → Bool
  | .voteResp u true => u = t
  | _ => false

/-- The ballots of term `t` on their way between candidate `c` and voter `v`. -/
def System.ballots (s : System) (c v t : Nat) : Nat :=
  (s.flight c v).countP (isReq t) + (s.flight v c).countP (isGrant t)

/-- A candidate has counted each vote once: a voter that is still to be asked has no ballot
under way, any other voter has one ballot at most, counted or under way. -/
structure CandidateOk (g : Ballots) (s : System) (i : Nat) : Prop where
  votes : (s.voter i).votes = (g.counted i (s.voter i).term).card
  nodup : (s.voter i).ask.Nodup
  peers : ∀ v ∈ (s.voter i).ask, v ≠ i
  once : ∀ v, v ≠ i → s.ballots i v (s.voter i).term +
    (if v ∈ g.counted i (s.voter i).term then 1 else 0) ≤ if v ∈ (s.voter i).ask then 0 else 1

structure Elect (S : Setup) (g : Ballots) (s : System) : Prop where
  current : ∀ i, g.voted i (s.voter i).term = (s.voter i).votedFor
  future : ∀ i t, (s.voter i).term < t → g.voted i t = none
  countedVoted : ∀ c t v, v ∈ g.counted c t → g.voted v t = some c ∧ v < S.nnodes
  countedTerm : ∀ c t v, v ∈ g.counted c t → t ≤ (s.voter c).term
  request : ∀ c v t li lt, Frame.voteReq t li lt ∈ s.flight c v →
    t ≤ (s.voter c).term ∧ c ≠ v
  granted : ∀ v c t, Frame.voteResp t true ∈ s.flight v c →
    g.voted v t = some c ∧ v < S.nnodes ∧ t ≤ (s.voter c).term ∧ v ≠ c
  candidate : ∀ i, (s.voter i).role = .candidate → CandidateOk g s i
  leader : ∀ i, (s.voter i).role = .leader →
    (S.freshNode i).cfg.quorum ≤ (g.counted i (s.voter i).term).card

/-- **Two leaders of one term are one**, also when they led at different moments. -/
theorem Elect.unique (h : Elect S g s) (h' : Elect S g' s') (hLe : g.Le g')
    {i j : Nat} (hi : (s.voter i).role = .leader) (hj : (s'.voter j).role = .leader)
    (hTerm : (s.voter i).term = (s'.voter j).term) : i = j := by
  have hMajority : ∀ {g : Ballots} {s : System} (_ : Elect S g s) {k : Nat},
      (s.voter k).role = .leader → Quorum.Majority S.nnodes (g.counted k (s.voter k).term) := by
    intro g s h k hk
    refine Quorum.majority_of_card (fun v hv => (h.countedVoted _ _ v hv).2) ?_
    exact h.leader k hk
  obtain ⟨v, hvi, hvj⟩ := (hMajority h hi).meet (hMajority h' hj)
  have hVotedI := hLe.voted v _ i (h.countedVoted _ _ v hvi).1
  have hVotedJ := (h'.countedVoted _ _ v hvj).1
  rw [hTerm, hVotedJ] at hVotedI
  exact (Option.some.inj hVotedI).symm

/-! ## Steps that put no ballot on the way -/

structure Fewer (s s' : System) : Prop where
  mem : ∀ a b f, f ∈ s'.flight a b → f.ballot = true → f ∈ s.flight a b
  ballots : ∀ c v t, s'.ballots c v t ≤ s.ballots c v t

theorem Fewer.no_new {P : Prop} (h : Fewer s s') (hBallot : f.ballot = true)
    (hf : f ∈ s'.flight src dst) (hOld : f ∉ s.flight src dst) : P :=
  absurd (h.mem src dst f hf hBallot) hOld

theorem fewer_of_sublist (h : ∀ a b, (s'.flight a b).Sublist (s.flight a b)) : Fewer s s' where
  mem a b _ hf _ := (h a b).subset hf
  ballots c v _ := Nat.add_le_add (h c v).countP_le (h v c).countP_le

theorem mem_sentBy {i : Nat}
    (hf : f ∈ sentBy i src dst effs) : src = i ∧ Effect.send dst f ∈ effs := by
  unfold sentBy at hf
  split at hf
  · rename_i hSrc
    refine ⟨hSrc, ?_⟩
    simp only [sentTo, mem_filterMap] at hf
    obtain ⟨e, he, hSome⟩ := hf
    cases e with
    | send d h =>
      dsimp only at hSome
      split at hSome
      · rename_i hd
        cases hSome
        exact hd ▸ he
      · cases hSome
    | _ => cases hSome
  · cases hf

theorem ballot_of_isReq (h : isReq t f = true) : f.ballot = true := by
  cases f <;> first | rfl | cases h

theorem ballot_of_isGrant (h : isGrant t f = true) : f.ballot = true := by
  cases f with
  | voteResp u granted =>
    cases granted with
    | true => rfl
    | false => cases h
  | _ => cases h

theorem fewer_act {i : Nat} {b : Voter} (hHand : b.hand = (s.voter i).hand ∨ b.hand = none)
    (hQuiet : ∀ p f, Effect.send p f ∈ effs → f.ballot = false) :
    Fewer s ((s.perform i effs).setVoter i b) := by
  have hNew : ∀ a c f, f ∈ sentBy i a c effs → f.ballot = false :=
    fun a c f hf => hQuiet c f (mem_sentBy hf).2
  have hCount : ∀ (P : Frame → Bool), (∀ f, P f = true → f.ballot = true) → ∀ a c,
      (((s.perform i effs).setVoter i b).flight a c).countP P ≤ (s.flight a c).countP P := by
    intro P hP a c
    have hZero : (sentBy i a c effs).countP P = 0 := by
      rw [countP_eq_zero]
      intro f hf hPf
      have hBallot := hP f hPf
      rw [hNew a c f hf] at hBallot
      cases hBallot
    have hLe := (flight_act_sublist s i effs hHand a c).countP_le (p := P)
    rwa [countP_append, hZero, Nat.add_zero] at hLe
  refine ⟨fun a c f hf hBallot => ?_, fun c v t => ?_⟩
  · rcases mem_append.mp ((flight_act_sublist s i effs hHand a c).subset hf) with h | h
    · exact h
    · rw [hNew a c f h] at hBallot
      cases hBallot
  · exact Nat.add_le_add (hCount _ (fun f => ballot_of_isReq) c v)
      (hCount _ (fun f => ballot_of_isGrant) v c)

theorem CandidateOk.kept {j : Nat} (h : CandidateOk g s j)
    (hTerm : (s'.voter j).term = (s.voter j).term) (hVotes : (s'.voter j).votes = (s.voter j).votes)
    (hAsk : (s'.voter j).ask.Sublist (s.voter j).ask)
    (hCounted : g'.counted j (s.voter j).term = g.counted j (s.voter j).term)
    (hBallots : ∀ v, v ≠ j → s'.ballots j v (s.voter j).term ≤ s.ballots j v (s.voter j).term) :
    CandidateOk g' s' j := by
  obtain ⟨hCard, hNodup, hPeers, hOnce⟩ := h
  refine ⟨?_, hNodup.sublist hAsk, fun v hv => hPeers v (hAsk.subset hv), fun v hv => ?_⟩
  · rw [hVotes, hTerm, hCounted]
    exact hCard
  · have hLe := hBallots v hv
    have hOld := hOnce v hv
    rw [hTerm, hCounted]
    -- a voter no longer to be asked is allowed one ballot
    have hAllow : (if v ∈ (s.voter j).ask then 0 else 1) ≤
        if v ∈ (s'.voter j).ask then 0 else 1 := by
      by_cases hNew : v ∈ (s'.voter j).ask
      · rw [if_pos hNew, if_pos (hAsk.subset hNew)]
      · rw [if_neg hNew]
        split <;> omega
    omega

/-! ## Steps of an election -/

/-- What has to be shown about a step of node `i` to the voter `b`: only what is new in the
record. -/
structure Recorded (S : Setup) (g g' : Ballots) (s : System) (i : Nat) (b : Voter) : Prop where
  le : g.Le g'
  term : (s.voter i).term ≤ b.term
  current : g'.voted i b.term = b.votedFor
  votedRest : ∀ v t, v ≠ i → g'.voted v t = g.voted v t
  future : ∀ t, b.term < t → g'.voted i t = none
  counted : ∀ c t v, v ∈ g'.counted c t → v ∉ g.counted c t →
    g'.voted v t = some c ∧ v < S.nnodes ∧ c = i ∧ t ≤ b.term
  countedRest : ∀ j t, j ≠ i → g'.counted j t = g.counted j t
  leader : b.role = .leader → (S.freshNode i).cfg.quorum ≤ (g'.counted i b.term).card

structure Delta (S : Setup) (g g' : Ballots) (s s' : System) (i : Nat) (b : Voter) : Prop
    extends Recorded S g g' s i b where
  request : ∀ c v t li lt, Frame.voteReq t li lt ∈ s'.flight c v →
    Frame.voteReq t li lt ∉ s.flight c v → c = i ∧ t ≤ b.term ∧ c ≠ v
  granted : ∀ v c t, Frame.voteResp t true ∈ s'.flight v c →
    Frame.voteResp t true ∉ s.flight v c →
    g'.voted v t = some c ∧ v < S.nnodes ∧ t ≤ (s.voter c).term ∧ v ≠ c
  bystander : ∀ j v t, j ≠ i → s'.ballots j v t ≤ s.ballots j v t
  candidate : b.role = .candidate → CandidateOk g' s' i

theorem Elect.moved {i : Nat} (h : Elect S g s) (hRest : ∀ j, j ≠ i → s'.voter j = s.voter j)
    (hDelta : Delta S g g' s s' i (s'.voter i)) : Elect S g' s' := by
  obtain ⟨⟨hLe, hTermI, hCurrent, hVotedRest, hFuture, hCounted, hSame, hLeader⟩, hRequest, hGranted,
    hBystander, hCandidate⟩ := hDelta
  have hTerm : ∀ j, (s.voter j).term ≤ (s'.voter j).term := by
    intro j
    by_cases hj : j = i
    · subst hj
      exact hTermI
    · rw [hRest j hj]
  refine ⟨fun j => ?_, fun j t ht => ?_, fun c t v hv => ?_, fun c t v hv => ?_,
    fun c v t li lt hf => ?_, fun v c t hf => ?_, fun j hj => ?_, fun j hj => ?_⟩
  · by_cases hj : j = i
    · subst hj
      exact hCurrent
    · rw [hRest j hj, hVotedRest j _ hj]
      exact h.current j
  · by_cases hj : j = i
    · subst hj
      exact hFuture t ht
    · rw [hVotedRest j t hj]
      exact h.future j t (Nat.lt_of_le_of_lt (hTerm j) ht)
  · by_cases hOld : v ∈ g.counted c t
    · obtain ⟨hVoted, hBound⟩ := h.countedVoted c t v hOld
      exact ⟨hLe.voted v t c hVoted, hBound⟩
    · obtain ⟨hVoted, hBound, -⟩ := hCounted c t v hv hOld
      exact ⟨hVoted, hBound⟩
  · by_cases hOld : v ∈ g.counted c t
    · exact (h.countedTerm c t v hOld).trans (hTerm c)
    · obtain ⟨-, -, rfl, hNew⟩ := hCounted c t v hv hOld
      exact hNew
  · by_cases hOld : Frame.voteReq t li lt ∈ s.flight c v
    · obtain ⟨hOldTerm, hNe⟩ := h.request c v t li lt hOld
      exact ⟨hOldTerm.trans (hTerm c), hNe⟩
    · obtain ⟨rfl, hNew⟩ := hRequest c v t li lt hf hOld
      exact hNew
  · by_cases hOld : Frame.voteResp t true ∈ s.flight v c
    · obtain ⟨hVoted, hBound, hOldTerm, hNe⟩ := h.granted v c t hOld
      exact ⟨hLe.voted v t c hVoted, hBound, hOldTerm.trans (hTerm c), hNe⟩
    · obtain ⟨hVoted, hBound, hNew, hNe⟩ := hGranted v c t hf hOld
      exact ⟨hVoted, hBound, hNew.trans (hTerm c), hNe⟩
  · by_cases hji : j = i
    · subst hji
      exact hCandidate hj
    · refine (h.candidate j (hRest j hji ▸ hj)).kept (by rw [hRest j hji]) (by rw [hRest j hji])
        (by rw [hRest j hji]) (hSame j _ hji) fun v _ => hBystander j v _ hji
  · by_cases hji : j = i
    · subst hji
      exact hLeader hj
    · rw [hRest j hji] at hj ⊢
      exact (h.leader j hj).trans (Finset.card_le_card (hLe.counted _ _))

theorem Elect.step {i : Nat} {b : Voter} (h : Elect S g s)
    (hDelta : Delta S g g' s ((s.perform i effs).setVoter i b) i b) :
    Elect S g' ((s.perform i effs).setVoter i b) := by
  refine h.moved (i := i) (fun j hj => by simp [hj]) ?_
  rw [System.setVoter_voter_self]
  exact hDelta

theorem Recorded.delta {i : Nat} {b : Voter} (h : Recorded S g g' s i b) (hFewer : Fewer s s')
    (hCandidate : b.role = .candidate → CandidateOk g' s' i) : Delta S g g' s s' i b :=
  { h with
    request := fun _ _ _ _ _ => hFewer.no_new rfl
    granted := fun _ _ _ => hFewer.no_new rfl
    bystander := fun j v t _ => hFewer.ballots j v t
    candidate := hCandidate }

theorem Elect.quiet_step {i : Nat} {b : Voter} (h : Elect S g s) (hRecord : Recorded S g g' s i b)
    (hHand : b.hand = (s.voter i).hand ∨ b.hand = none)
    (hQuiet : ∀ p f, Effect.send p f ∈ effs → f.ballot = false)
    (hCandidate : Fewer s ((s.perform i effs).setVoter i b) → b.role = .candidate →
      CandidateOk g' ((s.perform i effs).setVoter i b) i) :
    Elect S g' ((s.perform i effs).setVoter i b) :=
  h.step (hRecord.delta (fewer_act hHand hQuiet) (hCandidate (fewer_act hHand hQuiet)))

theorem sentBy_send (i p : Nat) (f : Frame) (a b : Nat) :
    sentBy i a b [.send p f] = if a = i ∧ p = b then [f] else [] := by
  by_cases ha : a = i <;> by_cases hb : p = b <;> simp [sentBy, sentTo, ha, hb]

theorem eq_of_mem_sent {x : Frame} {old kept : List Frame} {i p a b : Nat} (hKept : kept ⊆ old)
    (hf : f ∈ kept ++ if a = i ∧ p = b then [x] else []) (hOld : f ∉ old) :
    a = i ∧ p = b ∧ f = x := by
  rcases mem_append.mp hf with hf | hf
  · exact absurd (hKept hf) hOld
  split at hf
  · rename_i hab
    exact ⟨hab.1, hab.2, mem_singleton.mp hf⟩
  · cases hf

section Steps

variable {i : Nat} (h : Elect S g s)
include h

variable {t p : Nat}

theorem Elect.same {b : Voter} (hTerm : b.term = (s.voter i).term)
    (hVote : b.votedFor = (s.voter i).votedFor)
    (hLeader : b.role = .leader → (S.freshNode i).cfg.quorum ≤ (g.counted i b.term).card) :
    Recorded S g g s i b where
  le := .refl g
  term := hTerm.ge
  current := by rw [hTerm, hVote]; exact h.current i
  votedRest _ _ _ := rfl
  future u hu := h.future i u (hTerm ▸ hu)
  counted _ _ _ hv hOld := absurd hv hOld
  countedRest _ _ _ := rfl
  leader := hLeader

theorem Elect.keep (hRest : ∀ j, j ≠ i → s'.voter j = s.voter j) (hFewer : Fewer s s')
    (hTerm : (s'.voter i).term = (s.voter i).term)
    (hVote : (s'.voter i).votedFor = (s.voter i).votedFor)
    (hCandidate : (s'.voter i).role = .candidate → (s.voter i).role = .candidate ∧
      (s'.voter i).votes = (s.voter i).votes ∧ (s'.voter i).ask.Sublist (s.voter i).ask)
    (hLeader : (s'.voter i).role = .leader → (s.voter i).role = .leader) : Elect S g s' := by
  refine h.moved hRest ((h.same hTerm hVote fun hLead => ?_).delta hFewer fun hRole => ?_)
  · rw [hTerm]
    exact h.leader i (hLeader hLead)
  · obtain ⟨hOld, hVotes, hAsk⟩ := hCandidate hRole
    exact (h.candidate i hOld).kept hTerm hVotes hAsk rfl fun v _ => hFewer.ballots i v _

theorem Elect.take {rest : List Frame} (hChan : (f :: rest) <:+ s.chan src dst)
    (hIdle : (s.voter dst).hand = none) :
    Elect S g ((s.setChan src dst rest).setVoter dst
      { s.voter dst with hand := some (src, f) }) := by
  refine h.keep (i := dst) (fun j hj => by simp [hj])
    (fewer_of_sublist (flight_take_sublist hChan hIdle)) ?_ ?_ ?_ ?_ <;>
    rw [System.setVoter_voter_self]
  · exact fun hRole => ⟨hRole, rfl, List.Sublist.refl _⟩
  · exact id

theorem Elect.lose {rest : List Frame} (hChan : rest <:+ s.chan src dst) :
    Elect S g (s.setChan src dst rest) :=
  h.keep (i := dst) (fun _ _ => rfl) (fewer_of_sublist (flight_lose_sublist hChan)) rfl rfl
    (fun hRole => ⟨hRole, rfl, List.Sublist.refl _⟩) id

theorem Elect.restart (hSound : Sound S s) (i : Nat) (cut : Cut) :
    Elect S g (s.restart S i ((s.disk i).crash cut)) := by
  obtain ⟨-, -, hTerm, hVote, -⟩ := boot_facts (S := S) i ((s.disk i).crash cut)
  have hRole : (S.boot i ((s.disk i).crash cut)).role = .follower := by
    unfold Setup.boot persistLoad
    cases ((s.disk i).crash cut).snap <;> rfl
  refine h.keep (i := i) (fun j hj => by simp [hj])
    (fewer_of_sublist (flight_restart_sublist s S i _)) ?_ ?_ ?_ ?_ <;>
    rw [System.restart_voter_self]
  · exact hTerm.trans (hSound i).term
  · exact hVote.trans (hSound i).vote
  · simp [Node.voter, hRole]
  · simp [Node.voter, hRole]

theorem Elect.adopt (hNew : (s.voter i).term < t) :
    Elect S g ((s.perform i [.setMeta t none]).setVoter i
      { s.voter i with term := t, votedFor := none, role := .follower }) := by
  refine h.quiet_step {
    le := .refl g
    term := hNew.le
    current := h.future i t hNew
    votedRest := fun _ _ _ => rfl
    future := fun u hu => h.future i u (hNew.trans hu)
    counted := fun _ _ _ hv hOld => absurd hv hOld
    countedRest := fun _ _ _ => rfl
    leader := nofun } (.inl rfl) (by simp) fun _ => nofun

theorem Elect.campaign (hSelf : (s.voter i).cfg.selfId = i) (hi : i < S.nnodes) :
    Elect S ((g.cast i ((s.voter i).term + 1) i).count i ((s.voter i).term + 1) i)
      ((s.perform i [.setMeta ((s.voter i).term + 1) (some i)]).setVoter i
        { s.voter i with
          term := (s.voter i).term + 1, votedFor := some i, role := .candidate,
          votes := 1, ask := (s.voter i).cfg.peerIds }) := by
  -- no vote of the new term was counted, asked for or granted before
  have hEmpty : g.counted i ((s.voter i).term + 1) = ∅ := by
    rw [Finset.eq_empty_iff_forall_notMem]
    intro v hv
    have := h.countedTerm i _ v hv
    omega
  have hNone : ∀ v, s.ballots i v ((s.voter i).term + 1) = 0 := by
    intro v
    unfold System.ballots
    rw [Nat.add_eq_zero_iff, countP_eq_zero, countP_eq_zero]
    constructor
    · intro f hf hReq
      cases f with
      | voteReq u li lt =>
        have hOld := (h.request i v u li lt hf).1
        simp only [isReq, decide_eq_true_eq] at hReq
        omega
      | _ => cases hReq
    · intro f hf hGrant
      cases f with
      | voteResp u granted =>
        cases granted with
        | true =>
          have hOld := (h.granted v i u hf).2.2.1
          simp only [isGrant, decide_eq_true_eq] at hGrant
          omega
        | false => cases hGrant
      | _ => cases hGrant
  have hFree : g.voted i ((s.voter i).term + 1) = none := h.future i _ (Nat.lt_succ_self _)
  refine h.quiet_step {
    le := (Ballots.le_cast (.inl hFree)).trans (Ballots.le_count _ _ _ _)
    term := Nat.le_succ _
    current := by simp [Ballots.cast, Ballots.count]
    votedRest := fun v t hv => by simp [Ballots.cast, Ballots.count, hv]
    future := fun u hu => ?_
    counted := fun c t v hv hOld => ?_
    countedRest := fun j _ hj => by simp [Ballots.cast, Ballots.count, hj]
    leader := nofun } (.inl rfl) (by simp) fun hFewer _ => ?_
  · have hNext : (s.voter i).term + 1 < u := hu
    simpa [Ballots.cast, Ballots.count, hNext.ne'] using h.future i u (by omega)
  · obtain ⟨rfl, rfl, rfl⟩ := (Ballots.mem_count hv).resolve_left hOld
    simpa [Ballots.cast, Ballots.count] using hi
  · have hPeers : ∀ v ∈ (s.voter i).cfg.peerIds, v ≠ i := by
      intro v hv
      simp only [Config.peerIds, mem_filter, decide_eq_true_eq, hSelf] at hv
      exact hv.2
    refine ⟨?_, ?_, ?_, fun v hv => ?_⟩ <;> rw [System.setVoter_voter_self]
    · simp [Ballots.count, Ballots.cast, hEmpty]
    · exact List.Nodup.filter _ nodup_range
    · exact hPeers
    · have hLe := hFewer.ballots i v ((s.voter i).term + 1)
      rw [hNone v] at hLe
      have hNot : v ∉ ((g.cast i ((s.voter i).term + 1) i).count i ((s.voter i).term + 1) i).counted
          i ((s.voter i).term + 1) := by
        simp [Ballots.count, Ballots.cast, hEmpty, hv]
      rw [if_neg hNot, Nat.add_zero]
      exact hLe.trans (Nat.zero_le _)

theorem Elect.request_step {li lt : Nat} {rest : List Nat} (hAsk : (s.voter i).ask = p :: rest)
    (hRole : (s.voter i).role = .candidate) (hBound : (s.voter i).term < 2 ^ 32) :
    Elect S g ((s.perform i [.send p (.voteReq (u32 (s.voter i).term) li lt)]).setVoter i
      { s.voter i with ask := rest }) := by
  obtain ⟨hVotes, hNodup, hPeers, hOnce⟩ := h.candidate i hRole
  rw [hAsk, nodup_cons] at hNodup
  have hWire : u32 (s.voter i).term = (s.voter i).term := Nat.mod_eq_of_lt hBound
  rw [hWire]
  set s' := (s.perform i [.send p (.voteReq (s.voter i).term li lt)]).setVoter i
    { s.voter i with ask := rest } with hs'
  have hFlight : ∀ a b, s'.flight a b =
      s.flight a b ++ if a = i ∧ p = b then [.voteReq (s.voter i).term li lt] else [] := by
    intro a b
    rw [← sentBy_send]
    exact flight_act s i _ (b := { s.voter i with ask := rest }) rfl a b
  have hpi : p ≠ i := hPeers p (by rw [hAsk]; exact mem_cons_self)
  -- only the ballots between this candidate and `p` grow, by the new request
  have hBallots : ∀ c v t, s'.ballots c v t ≤ s.ballots c v t + if c = i ∧ p = v then 1 else 0 := by
    intro c v t
    unfold System.ballots
    rw [hFlight, hFlight, countP_append, countP_append]
    have hReq : (if c = i ∧ p = v then [Frame.voteReq (s.voter i).term li lt] else []).countP
        (isReq t) ≤ if c = i ∧ p = v then 1 else 0 := by
      split
      · exact countP_le_length
      · simp
    have hGrant : (if v = i ∧ p = c then [Frame.voteReq (s.voter i).term li lt] else []).countP
        (isGrant t) = 0 := by
      split <;> simp [isGrant]
    omega
  refine h.step { h.same rfl rfl (by simp [hRole]) with
    request := fun c v u li' lt' hf hOld => ?_
    granted := fun v c u hf hOld => ?_
    bystander := fun j v t hj => by simpa [hj] using hBallots j v t
    candidate := fun _ => ?_ }
  · obtain ⟨rfl, rfl, hEq⟩ := eq_of_mem_sent (List.Subset.refl _) (hFlight c v ▸ hf) hOld
    cases hEq
    exact ⟨rfl, le_rfl, hpi.symm⟩
  · obtain ⟨-, -, hEq⟩ := eq_of_mem_sent (List.Subset.refl _) (hFlight v c ▸ hf) hOld
    cases hEq
  · refine ⟨?_, ?_, ?_, fun v hv => ?_⟩ <;> rw [System.setVoter_voter_self]
    · exact hVotes
    · exact hNodup.2
    · exact fun v hv => hPeers v (by rw [hAsk]; exact mem_cons_of_mem _ hv)
    · show s'.ballots i v _ + _ ≤ _
      have hLe := hBallots i v (s.voter i).term
      have hOld := hOnce v hv
      rw [hAsk] at hOld
      dsimp only
      by_cases hvp : v = p
      · subst hvp
        simp only [mem_cons_self, if_true, true_and, hNodup.1, if_false] at hOld hLe ⊢
        omega
      have hvp' : p ≠ v := fun hEq => hvp hEq.symm
      simp only [mem_cons, hvp, hvp', false_or, and_false, if_false, Nat.add_zero]
        at hOld hLe
      omega

theorem Elect.vote_step (hFree : (s.voter i).votedFor = none ∨ (s.voter i).votedFor = some p) :
    Elect S (g.cast i (s.voter i).term p)
      ((s.perform i [.setMeta (s.voter i).term (some p)]).setVoter i
        { s.voter i with votedFor := some p }) := by
  refine h.quiet_step {
    le := Ballots.le_cast (by rw [h.current i]; exact hFree)
    term := le_rfl
    current := by simp [Ballots.cast]
    votedRest := fun v t hv => by simp [Ballots.cast, hv]
    future := fun u hu => by simpa [Ballots.cast, hu.ne'] using h.future i u hu
    counted := fun _ _ _ hv hOld => absurd hv hOld
    countedRest := fun _ _ _ => rfl
    leader := h.leader i } (.inl rfl) (by simp) fun hFewer hRole => ?_
  exact (h.candidate i hRole).kept (by simp) (by simp) (by simp) rfl fun v _ => hFewer.ballots i v _

theorem Elect.grant_step {li lt : Nat} (hHand : (s.voter i).hand = some (p, .voteReq t li lt))
    (hTerm : t = (s.voter i).term) (hVoted : (s.voter i).votedFor = some p) (hi : i < S.nnodes)
    (hBound : (s.voter i).term < 2 ^ 32) :
    Elect S g ((s.perform i [.send p (.voteResp (u32 (s.voter i).term) true)]).setVoter i
      { s.voter i with hand := none }) := by
  have hWire : u32 (s.voter i).term = (s.voter i).term := Nat.mod_eq_of_lt hBound
  rw [hWire]
  obtain ⟨hAsked, hpi⟩ := h.request p i t li lt (mem_flight_of_hand hHand)
  set s' := (s.perform i [.send p (.voteResp (s.voter i).term true)]).setVoter i
    { s.voter i with hand := none }
  have hFlight : ∀ a b, s'.flight a b = (if b = i then s.chan a b else s.flight a b) ++
      if a = i ∧ p = b then [.voteResp (s.voter i).term true] else [] := by
    intro a b
    rw [← sentBy_send]
    exact flight_done s i _ (b := { s.voter i with hand := none }) rfl a b
  have hKept : ∀ a b, (if b = i then s.chan a b else s.flight a b).Sublist (s.flight a b) := by
    intro a b
    split
    · exact sublist_append_right _ _
    · exact List.Sublist.refl _
  have hNew : ∀ {a b f}, f ∈ s'.flight a b → f ∉ s.flight a b →
      a = i ∧ p = b ∧ f = .voteResp (s.voter i).term true := by
    intro a b f hf hOld
    exact eq_of_mem_sent (hKept a b).subset (hFlight a b ▸ hf) hOld
  have hBallots : ∀ c v u, s'.ballots c v u ≤ s.ballots c v u := by
    intro c v u
    unfold System.ballots
    rw [hFlight, hFlight, countP_append, countP_append]
    have hNoReq : (if c = i ∧ p = v then [Frame.voteResp (s.voter i).term true] else []).countP
        (isReq u) = 0 := by
      split <;> simp [isReq]
    have hReqs := (hKept c v).countP_le (p := isReq u)
    have hGrants := (hKept v c).countP_le (p := isGrant u)
    by_cases hvc : v = i ∧ p = c
    · -- the request leaves the hand as the grant enters the channel
      obtain ⟨rfl, rfl⟩ := hvc
      have hReq : (s.flight p v).countP (isReq u) =
          (s.chan p v).countP (isReq u) + if isReq u (.voteReq t li lt) then 1 else 0 := by
        rw [flight_of_hand hHand, countP_cons]
      have hGrant : ([Frame.voteResp (s.voter v).term true]).countP (isGrant u) =
          if isReq u (.voteReq t li lt) then 1 else 0 := by
        simp [countP_cons, isReq, isGrant, hTerm]
      rw [hNoReq, if_pos rfl, if_neg hpi, if_pos ⟨rfl, rfl⟩, hGrant]
      omega
    · rw [if_neg hvc, countP_nil]
      omega
  refine h.step { h.same rfl rfl (h.leader i) with
    request := fun c v u li lt hf hOld => ?_
    granted := fun v c u hf hOld => ?_
    bystander := fun j v t _ => hBallots j v t
    candidate := fun hRole => (h.candidate i hRole).kept (by simp) (by simp) (by simp) rfl
      fun v _ => hBallots i v _ }
  · obtain ⟨-, -, hEq⟩ := hNew hf hOld
    cases hEq
  · obtain ⟨rfl, rfl, hEq⟩ := hNew hf hOld
    cases hEq
    exact ⟨(h.current v).trans hVoted, hi, hTerm ▸ hAsked, hpi.symm⟩

theorem Elect.count_step (hHand : (s.voter i).hand = some (p, .voteResp t true))
    (hRole : (s.voter i).role = .candidate) (hTerm : t = (s.voter i).term) :
    Elect S (g.count i (s.voter i).term p) ((s.perform i []).setVoter i
      { s.voter i with votes := (s.voter i).votes + 1, hand := none }) := by
  obtain ⟨hGrant, hpBound, -, hpi⟩ := h.granted p i t (mem_flight_of_hand hHand)
  obtain ⟨hVotes, hNodup, hPeers, hOnce⟩ := h.candidate i hRole
  set s' := (s.perform i []).setVoter i
    { s.voter i with votes := (s.voter i).votes + 1, hand := none } with hs'
  have hGone : s'.ballots i p (s.voter i).term + 1 ≤ s.ballots i p (s.voter i).term := by
    unfold System.ballots
    have hReqs : (s'.flight i p).countP (isReq (s.voter i).term) ≤
        (s.flight i p).countP (isReq (s.voter i).term) := by
      have hEq := flight_done s i [] (b := { s.voter i with
        votes := (s.voter i).votes + 1, hand := none }) rfl i p
      rw [hs', hEq, if_neg hpi]
      simp [sentBy, sentTo]
    have hGrants : (s'.flight p i).countP (isGrant (s.voter i).term) + 1 =
        (s.flight p i).countP (isGrant (s.voter i).term) := by
      have hEq := flight_done s i [] (b := { s.voter i with
        votes := (s.voter i).votes + 1, hand := none }) rfl p i
      rw [hs', hEq, if_pos rfl, flight_of_hand hHand]
      simp [sentBy, sentTo, isGrant, hTerm]
    omega
  have hFirst := hOnce p hpi
  have hNotCounted : p ∉ g.counted i (s.voter i).term := by
    intro hIn
    rw [if_pos hIn] at hFirst
    split at hFirst <;> omega
  refine h.quiet_step {
    le := Ballots.le_count _ _ _ _
    term := le_rfl
    current := h.current i
    votedRest := fun _ _ _ => rfl
    future := h.future i
    counted := fun c u v hv hOld => ?_
    countedRest := fun j _ hj => by simp [Ballots.count, hj]
    leader := by simp [hRole] } (.inr rfl) (by simp) fun hFewer _ => ?_
  · obtain ⟨rfl, rfl, rfl⟩ := (Ballots.mem_count hv).resolve_left hOld
    exact ⟨hTerm ▸ hGrant, hpBound, rfl, le_rfl⟩
  · refine ⟨?_, ?_, ?_, fun v hv => ?_⟩ <;> rw [System.setVoter_voter_self]
    · simp [Ballots.count, Finset.card_insert_of_notMem hNotCounted, hVotes]
    · exact hNodup
    · exact hPeers
    · show s'.ballots i v _ + _ ≤ _
      dsimp only
      have hOld := hOnce v hv
      by_cases hvp : v = p
      · subst hvp
        rw [if_neg hNotCounted] at hOld
        simp only [Ballots.count, and_self, if_true, Finset.mem_insert_self]
        omega
      have hLe : s'.ballots i v (s.voter i).term ≤ _ := hFewer.ballots i v _
      simp only [Ballots.count, and_self, if_true, Finset.mem_insert, hvp, false_or]
      omega

theorem Elect.lead_step (hCfg : (s.voter i).cfg = (S.freshNode i).cfg)
    (hRole : (s.voter i).role = .candidate) (hQuorum : (s.voter i).cfg.quorum ≤ (s.voter i).votes) :
    Elect S g ((s.perform i []).setVoter i { s.voter i with role := .leader }) := by
  refine h.quiet_step (h.same rfl rfl fun _ => ?_) (.inl rfl) (by simp) fun _ => nofun
  rw [← (h.candidate i hRole).votes, ← hCfg]
  exact hQuorum

theorem Elect.other_step {effs : List Effect} {b : Voter} (hTerm : b.term = (s.voter i).term)
    (hVote : b.votedFor = (s.voter i).votedFor) (hVotes : b.votes = (s.voter i).votes)
    (hAsk : b.ask.Sublist (s.voter i).ask) (hRole : b.role = (s.voter i).role ∨ b.role = .follower)
    (hHand : b.hand = (s.voter i).hand ∨ b.hand = none) (hQuiet : ∀ e ∈ effs, e.casts = false) :
    Elect S g ((s.perform i effs).setVoter i b) := by
  refine h.keep (i := i) (fun j hj => by simp [hj])
    (fewer_act hHand fun p f hf => hQuiet (.send p f) hf) ?_ ?_ ?_ ?_ <;>
    rw [System.setVoter_voter_self]
  · exact hTerm
  · exact hVote
  · intro hCandidate
    rcases hRole with hSame | hDown
    · exact ⟨hSame ▸ hCandidate, hVotes, hAsk⟩
    · rw [hDown] at hCandidate
      cases hCandidate
  · intro hLead
    rcases hRole with hSame | hDown
    · exact hSame ▸ hLead
    · rw [hDown] at hLead
      cases hLead

end Steps

/-- **Every step of a node has its place in the record.** -/
theorem Elect.act {i : Nat} {b : Voter} (h : Elect S g s) (hSound : Sound S s) (hi : i < S.nnodes)
    (hBound : (s.voter i).term < 2 ^ 32) (hStep : VoterStep (s.voter i) effs b) :
    ∃ g', g.Le g' ∧ Elect S g' ((s.perform i effs).setVoter i b) := by
  have hCfg := (hSound i).cfg
  have hSelf : (s.voter i).cfg.selfId = i := by rw [hCfg]; rfl
  cases hStep with
  | adopt t hNew => exact ⟨g, .refl g, h.adopt hNew⟩
  | campaign hAsk =>
    have hFree : g.voted i ((s.voter i).term + 1) = none := h.future i _ (Nat.lt_succ_self _)
    rw [hSelf]
    exact ⟨_, (Ballots.le_cast (.inl hFree)).trans (Ballots.le_count _ _ _ _),
      h.campaign hSelf hi⟩
  | request p rest li lt hAsk hRole => exact ⟨g, .refl g, h.request_step hAsk hRole hBound⟩
  | vote p t li lt hHand hTerm hFree =>
    exact ⟨_, Ballots.le_cast (by rw [h.current i]; exact hFree), h.vote_step hFree⟩
  | grant p t li lt hHand hTerm hVoted =>
    exact ⟨g, .refl g, h.grant_step hHand hTerm hVoted hi hBound⟩
  | count p t hHand hRole hTerm =>
    exact ⟨_, Ballots.le_count _ _ _ _, h.count_step hHand hRole hTerm⟩
  | lead hRole hQuorum =>
    exact ⟨g, .refl g, h.lead_step hCfg hRole hQuorum⟩
  | other effs b _ hTerm hVote hVotes hAsk hRole hHand hQuiet =>
    exact ⟨g, .refl g, h.other_step hTerm hVote hVotes hAsk hRole hHand hQuiet⟩

/-! ## Runs -/

theorem elect_micro (h : Elect S g s) (hSound : Sound S s)
    (hBound : ∀ i, i < S.nnodes → (s.voter i).term < 2 ^ 32) (hStep : Micro S s s') :
    ∃ g', g.Le g' ∧ Elect S g' s' := by
  cases hStep with
  | act i hi effs c hStep =>
    exact h.act hSound hi (hBound i hi) hStep
  | take src dst f rest hDst hChan hIdle => exact ⟨g, .refl g, h.take hChan hIdle⟩
  | lose src dst rest hChan => exact ⟨g, .refl g, h.lose hChan⟩
  | restart i hi cut => exact ⟨g, .refl g, h.restart hSound i cut⟩

/-- **The election invariant holds along every bounded run.** -/
theorem elect_run (h : Elect S g s) (hSound : Sound S s)
    (hBound : ∀ i, i < S.nnodes → (s.voter i).term < 2 ^ 32)
    (hRun : ReflTransGen (Bounded S) s s') :
    ∃ g', g.Le g' ∧ Elect S g' s' ∧ Sound S s' ∧
      ∀ i, i < S.nnodes → (s'.voter i).term < 2 ^ 32 := by
  induction hRun with
  | refl => exact ⟨g, .refl g, h, hSound, hBound⟩
  | tail _ hStep ih =>
    obtain ⟨g₁, hLe₁, h₁, hSound₁, hBound₁⟩ := ih
    obtain ⟨g₂, hLe₂, h₂⟩ := elect_micro h₁ hSound₁ hBound₁ hStep.1
    exact ⟨g₂, hLe₁.trans hLe₂, h₂, sound_micro hSound₁ hStep.1, hStep.2⟩

theorem elect_init : Elect S {} S.init.system where
  current _ := rfl
  future _ _ _ := rfl
  countedVoted _ _ _ hv := absurd hv (Finset.notMem_empty _)
  countedTerm _ _ _ hv := absurd hv (Finset.notMem_empty _)
  request _ _ _ _ _ hf := absurd hf not_mem_nil
  granted _ _ _ hf := absurd hf not_mem_nil
  candidate i hi := by cases hi
  leader i hi := by cases hi

/-! ## Election safety -/

/-- **Election safety.** In a run with durable terms and votes, no two nodes ever lead in
the same term, whether at the same moment or at different ones. -/
theorem election_safety {S : Setup} {c₁ c₂ : Cluster}
    (h₁ : Run.Reach (Cluster.step S) (DurableMeta S) S.init c₁)
    (h₂ : Run.Reach (Cluster.step S) (DurableMeta S) c₁ c₂) {i j t : Nat}
    (hi : (c₁.node i).role = .leader ∧ (c₁.node i).term = t)
    (hj : (c₂.node j).role = .leader ∧ (c₂.node j).term = t) : i = j := by
  obtain ⟨hRun₁, hFit₁⟩ := reach_micro fit_init h₁
  obtain ⟨hRun₂, -⟩ := reach_micro hFit₁ h₂
  obtain ⟨g₁, -, hElect₁, hSound₁, hBound₁⟩ :=
    elect_run elect_init fit_init.sound (fun _ _ => Nat.two_pow_pos 32) hRun₁
  obtain ⟨g₂, hLe, hElect₂, -⟩ := elect_run hElect₁ hSound₁ hBound₁ hRun₂
  exact hElect₁.unique hElect₂ hLe hi.1 hj.1 (hi.2.trans hj.2.symm)

def checkDurableMeta (S : Setup) (_ : Cluster) (ev : Event) (c' : Cluster) : Bool :=
  ev.keepsMeta && (List.range S.nnodes).all fun i => (c'.node i).term < 2 ^ 32

theorem checkDurableMeta_sound {S : Setup} (c : Cluster) (ev : Event) (c' : Cluster)
    (h : checkDurableMeta S c ev c' = true) : DurableMeta S c ev c' := by
  simp only [checkDurableMeta, Bool.and_eq_true, all_eq_true, mem_range,
    decide_eq_true_eq] at h
  exact h

/-- Three nodes elect node 0, which still leads after a heartbeat: nobody else does. -/
theorem election_safety_three_nodes :
    ∃ c₁ c₂, Run.Reach (Cluster.step { nnodes := 3 }) (DurableMeta { nnodes := 3 })
        (Setup.init { nnodes := 3 }) c₁ ∧
      Run.Reach (Cluster.step { nnodes := 3 }) (DurableMeta { nnodes := 3 }) c₁ c₂ ∧
      ((c₁.node 0).role = .leader ∧ (c₁.node 0).term = 1) ∧
      ∀ j, (c₂.node j).role = .leader ∧ (c₂.node j).term = 1 → 0 = j := by
  have hRun : (Run.runChecked (Cluster.step { nnodes := 3 }) (checkDurableMeta { nnodes := 3 })
      (Setup.init { nnodes := 3 }) (Event.link 0 1 ++ Event.link 0 2 ++ Event.elect 0 1)).any
      (fun c => decide (((c.node 0).role = .leader ∧ (c.node 0).term = 1) ∧
        (Run.runChecked (Cluster.step { nnodes := 3 }) (checkDurableMeta { nnodes := 3 }) c
          [.own 0 .heartbeat]).isSome)) = true := by
    decide +kernel
  obtain ⟨c₁, h₁, hLead, hNext⟩ := Run.exists_of_runChecked checkDurableMeta_sound _ hRun
  obtain ⟨c₂, hc₂⟩ := Option.isSome_iff_exists.mp hNext
  have h₂ := Run.reach_of_runChecked checkDurableMeta_sound hc₂
  exact ⟨c₁, c₂, h₁, h₂, hLead, fun j hj => election_safety h₁ h₂ hLead hj⟩

/-! ## One vote in a term -/

theorem term_le_run (hSound : Sound S s) (hRun : ReflTransGen (Bounded S) s s') (i : Nat) :
    (s.voter i).term ≤ (s'.voter i).term := by
  induction hRun using ReflTransGen.head_induction_on with
  | refl => exact le_rfl
  | head hStep _ ih =>
    exact (term_le_micro hSound hStep.1 i).trans (ih (sound_micro hSound hStep.1))

/-- A run in which terms and votes are durable. -/
abbrev DurableRun (S : Setup) : Cluster → Cluster → Prop :=
  Run.Reach (Cluster.step S) (DurableMeta S)

/-- **One vote in a term.** In a run with durable terms and votes no crash takes a node back to an
earlier term; it keeps its vote as long as it stays in a term, and the votes it grants in one
term, at whatever moments they are under way, are for one candidate. -/
theorem one_vote_run {S : Setup} {c₁ c₂ : Cluster} (h₁ : DurableRun S S.init c₁)
    (h₂ : DurableRun S c₁ c₂) (v : Nat) :
    (c₁.node v).term ≤ (c₂.node v).term ∧
      (∀ a, (c₁.node v).votedFor = some a → (c₂.node v).term = (c₁.node v).term →
        (c₂.node v).votedFor = some a) ∧
      ∀ t a b, .voteResp t true ∈ c₁.chan v a → .voteResp t true ∈ c₂.chan v b → a = b := by
  obtain ⟨hRun₁, hFit₁⟩ := reach_micro fit_init h₁
  obtain ⟨hRun₂, -⟩ := reach_micro hFit₁ h₂
  obtain ⟨g₁, -, hElect₁, hSound₁, hBound₁⟩ :=
    elect_run elect_init fit_init.sound (fun _ _ => Nat.two_pow_pos 32) hRun₁
  obtain ⟨g₂, hLe, hElect₂, -⟩ := elect_run hElect₁ hSound₁ hBound₁ hRun₂
  refine ⟨term_le_run hSound₁ hRun₂ v, ?_, ?_⟩
  · intro a hVote hTerm
    -- the record has the vote of the earlier state, and only grows
    have hVoted := hLe.voted v _ a ((hElect₁.current v).trans hVote)
    exact (hElect₂.current v).symm.trans ((congrArg (g₂.voted v) hTerm).trans hVoted)
  · intro t a b ha hb
    -- both grants are in the later record
    have hVoted₁ := hLe.voted v t a (hElect₁.granted v a t (mem_append_right _ ha)).1
    have hVoted₂ := (hElect₂.granted v b t (mem_append_right _ hb)).1
    exact Option.some.inj (hVoted₁.symm.trans hVoted₂)

/-- Node 1 grants its vote to node 0 and crashes: it still has voted. -/
theorem one_vote_crash : ∃ (S : Setup) (c₁ c₂ : Cluster), DurableRun S S.init c₁ ∧
    DurableRun S c₁ c₂ ∧ .voteResp 1 true ∈ c₁.chan 1 0 ∧ (c₂.node 1).votedFor = some 0 := by
  have hRun : (Run.runChecked (Cluster.step { nnodes := 3 }) (checkDurableMeta { nnodes := 3 })
      (Setup.init { nnodes := 3 }) (Event.link 0 1 ++ (Event.elect 0 1).dropLast)).any
      (fun c => decide (.voteResp 1 true ∈ c.chan 1 0 ∧ (c.node 1).votedFor = some 0 ∧
        (Run.runChecked (Cluster.step { nnodes := 3 }) (checkDurableMeta { nnodes := 3 }) c
          [.crash 1 ⟨0, 0⟩]).any (fun c' => decide ((c'.node 1).term = (c.node 1).term)))) = true := by
    decide +kernel
  obtain ⟨c₁, h₁, hSent, hVote, hNext⟩ := Run.exists_of_runChecked checkDurableMeta_sound _ hRun
  obtain ⟨c₂, h₂, hTerm⟩ := Run.exists_of_runChecked checkDurableMeta_sound _ hNext
  exact ⟨_, c₁, c₂, h₁, h₂, hSent, (one_vote_run h₁ h₂ 1).2.1 0 hVote hTerm⟩

end BeaverMQ
