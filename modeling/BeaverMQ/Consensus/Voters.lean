import BeaverMQ.Consensus.Moves

/-!
# BeaverMQ — what a callback does to a voter

`Voter` is the part of a node that an election depends on, with what the running callback still
holds in its hands. `VoterStep` lists the changes a handler can make to it, so that a crash
inside a callback is a run of voter steps that stops early.
-/

namespace BeaverMQ

open List

/-! ## Voters -/

/-- The part of a node in elections. The last two fields are local to the running callback: the
frame being handled and the peers still to be asked for their vote. -/
structure Voter where
  cfg : Config
  term : Nat
  votedFor : Option Nat
  role : Role
  votes : Nat
  hand : Option (Nat × Frame) := none
  ask : List Nat := []

def Node.voter (n : Node) : Voter where
  cfg := n.cfg
  term := n.term
  votedFor := n.votedFor
  role := n.role
  votes := n.votesGranted

/-- Frames that carry a ballot: a request for a vote, or a granted one. -/
def Frame.ballot : Frame → Bool
  | .voteReq _ _ _ | .voteResp _ true => true
  | _ => false

def Effect.casts : Effect → Bool
  | .setMeta _ _ => true
  | .send _ f => f.ballot
  | _ => false

/-- One step of a voter: its effects and what it is afterwards. -/
inductive VoterStep (a : Voter) : List Effect → Voter → Prop
  /-- `observe_term` on a higher term. -/
  | adopt (t : Nat) (hNew : a.term < t) :
      VoterStep a [.setMeta t none] { a with term := t, votedFor := none, role := .follower }
  /-- `become_candidate`. -/
  | campaign (hAsk : a.ask = []) :
      VoterStep a [.setMeta (a.term + 1) (some a.cfg.selfId)]
        { a with term := a.term + 1, votedFor := some a.cfg.selfId, role := .candidate
                 votes := 1, ask := a.cfg.peerIds }
  /-- `send_vote_request`, to one peer. -/
  | request (p : Nat) (rest : List Nat) (li lt : Nat) (hAsk : a.ask = p :: rest)
      (hRole : a.role = .candidate) :
      VoterStep a [.send p (.voteReq (u32 a.term) li lt)] { a with ask := rest }
  /-- `CL_FRAME_VOTE_REQ`: the vote becomes durable ... -/
  | vote (p t li lt : Nat) (hHand : a.hand = some (p, .voteReq t li lt)) (hTerm : t = a.term)
      (hFree : a.votedFor = none ∨ a.votedFor = some p) :
      VoterStep a [.setMeta a.term (some p)] { a with votedFor := some p }
  /-- ... and is then answered. -/
  | grant (p t li lt : Nat) (hHand : a.hand = some (p, .voteReq t li lt)) (hTerm : t = a.term)
      (hVoted : a.votedFor = some p) :
      VoterStep a [.send p (.voteResp (u32 a.term) true)] { a with hand := none }
  /-- `CL_FRAME_VOTE_RESP`. -/
  | count (p t : Nat) (hHand : a.hand = some (p, .voteResp t true))
      (hRole : a.role = .candidate) (hTerm : t = a.term) :
      VoterStep a [] { a with votes := a.votes + 1, hand := none }
  /-- `become_leader`. -/
  | lead (hRole : a.role = .candidate) (hQuorum : a.cfg.quorum ≤ a.votes) :
      VoterStep a [] { a with role := .leader }
  /-- Everything else casts nothing and at most gives up a role. -/
  | other (effs : List Effect) (b : Voter) (hCfg : b.cfg = a.cfg) (hTerm : b.term = a.term)
      (hVote : b.votedFor = a.votedFor) (hVotes : b.votes = a.votes)
      (hAsk : b.ask.Sublist a.ask) (hRole : b.role = a.role ∨ b.role = .follower)
      (hHand : b.hand = a.hand ∨ b.hand = none) (hQuiet : ∀ e ∈ effs, e.casts = false) :
      VoterStep a effs b

inductive VoterSteps : Voter → List Effect → Voter → Prop
  | refl (a : Voter) : VoterSteps a [] a
  | cons {a b c : Voter} {e es : List Effect} (hStep : VoterStep a e b)
      (hSteps : VoterSteps b es c) : VoterSteps a (e ++ es) c

theorem VoterSteps.single {a b : Voter} {es : List Effect} (hStep : VoterStep a es b) :
    VoterSteps a es b := by
  have hSteps := VoterSteps.cons hStep (.refl b)
  rwa [append_nil] at hSteps

theorem VoterSteps.trans {a b c : Voter} {es fs : List Effect} (hab : VoterSteps a es b)
    (hbc : VoterSteps b fs c) : VoterSteps a (es ++ fs) c := by
  induction hab with
  | refl => exact hbc
  | cons hStep _ ih =>
    rw [append_assoc]
    exact .cons hStep (ih hbc)

theorem VoterStep.take {a b : Voter} {es : List Effect} (hStep : VoterStep a es b) (k : Nat) :
    ∃ c, VoterSteps a (es.take k) c := by
  by_cases hAll : es.length ≤ k
  · rw [take_of_length_le hAll]
    exact ⟨b, .single hStep⟩
  cases hStep with
  | other effs b hCfg hTerm hVote hVotes hAsk hRole hHand hQuiet =>
    refine ⟨a, .single (.other _ _ rfl rfl rfl rfl (List.Sublist.refl _) (.inl rfl) (.inl rfl) ?_)⟩
    exact fun e he => hQuiet e (mem_of_mem_take he)
  | _ =>
    -- the only effect did not happen
    obtain rfl : k = 0 := by grind
    exact ⟨a, .refl a⟩

theorem VoterSteps.take {a c : Voter} {es : List Effect} (hSteps : VoterSteps a es c) (k : Nat) :
    ∃ b, VoterSteps a (es.take k) b := by
  induction hSteps generalizing k with
  | refl a => exact ⟨a, by simpa using VoterSteps.refl a⟩
  | @cons a b c e es hStep hRest ih =>
    rw [take_append]
    by_cases hShort : k ≤ e.length
    · obtain ⟨d, hd⟩ := hStep.take k
      exact ⟨d, by rwa [Nat.sub_eq_zero_of_le hShort, take_zero, append_nil]⟩
    obtain ⟨d, hd⟩ := ih (k - e.length)
    rw [take_of_length_le (by omega)]
    exact ⟨d, .cons hStep hd⟩

/-! ## Callbacks as runs of voter steps -/

structure Held where
  frame : Option (Nat × Frame) := none
  ask : List Nat := []

def Node.voterIn (n : Node) (h : Held) : Voter :=
  { n.voter with hand := h.frame, ask := h.ask }

/-- As long as the vote file can be written, `n'` comes from `n` by voter steps, the effects of
which were appended to `out`. -/
def Sim (a b : Held) (n n' : Node) : Prop :=
  n.io.metaOk = true → n'.io.metaOk = true ∧
    ∃ effs, n'.out = n.out ++ effs ∧ VoterSteps (n.voterIn a) effs (n'.voterIn b)

variable {a b c : Held} {n n₁ n₂ : Node}

theorem Sim.refl : Sim a a n n := fun hMeta => ⟨hMeta, [], by simp, .refl _⟩

theorem Sim.trans (h₁ : Sim a b n n₁) (h₂ : Sim b c n₁ n₂) : Sim a c n n₂ := by
  intro hMeta
  obtain ⟨hMeta₁, e₁, hOut₁, hSteps₁⟩ := h₁ hMeta
  obtain ⟨hMeta₂, e₂, hOut₂, hSteps₂⟩ := h₂ hMeta₁
  refine ⟨hMeta₂, e₁ ++ e₂, ?_, hSteps₁.trans hSteps₂⟩
  rw [hOut₂, hOut₁, append_assoc]

theorem Sim.one {e : List Effect} (hIo : n₁.io = n.io) (hOut : n₁.out = n.out ++ e)
    (hStep : VoterStep (n.voterIn a) e (n₁.voterIn b)) : Sim a b n n₁ :=
  fun hMeta => ⟨hIo ▸ hMeta, e, hOut, .single hStep⟩

theorem Sim.done (h : Sim a b n n₁) : Sim a {} n n₁ := by
  refine h.trans (.one rfl (append_nil _).symm ?_)
  refine .other _ _ rfl rfl rfl rfl ?_ (.inl rfl) (.inr rfl) fun e he => absurd he not_mem_nil
  exact nil_sublist _

/-! ### Storage -/

/-- What a storage call leaves alone; a failure costs a leader its role. -/
structure Stowed (n n' : Node) : Prop where
  cfg : n'.cfg = n.cfg
  io : n'.io = n.io
  term : n'.term = n.term
  vote : n'.votedFor = n.votedFor
  votes : n'.votesGranted = n.votesGranted
  role : n'.role = n.role ∨ n'.role = .follower
  out : ∃ effs, n'.out = n.out ++ effs ∧ ∀ e ∈ effs, e.casts = false

theorem Stowed.trans (h₁ : Stowed n n₁) (h₂ : Stowed n₁ n₂) : Stowed n n₂ := by
  obtain ⟨effs, hOut, hQuiet⟩ := h₁.out
  obtain ⟨effs', hOut', hQuiet'⟩ := h₂.out
  refine ⟨h₂.cfg.trans h₁.cfg, h₂.io.trans h₁.io, h₂.term.trans h₁.term, h₂.vote.trans h₁.vote,
    h₂.votes.trans h₁.votes, ?_, effs ++ effs', by rw [hOut', hOut, append_assoc], ?_⟩
  · rcases h₂.role with hSame | hDown
    · rw [hSame]
      exact h₁.role
    · exact .inr hDown
  · intro e he
    exact (mem_append.mp he).elim (hQuiet e) (hQuiet' e)

theorem Stowed.wrote {effs : List Effect} (hVoter : n₁.voter = n.voter) (hIo : n₁.io = n.io)
    (hOut : n₁.out = n.out ++ effs) (hQuiet : ∀ e ∈ effs, e.casts = false) : Stowed n n₁ where
  cfg := congrArg Voter.cfg hVoter
  io := hIo
  term := congrArg Voter.term hVoter
  vote := congrArg Voter.votedFor hVoter
  votes := congrArg Voter.votes hVoter
  role := .inl (congrArg Voter.role hVoter)
  out := ⟨effs, hOut, hQuiet⟩

theorem Stowed.same (hVoter : n₁.voter = n.voter) (hIo : n₁.io = n.io) (hOut : n₁.out = n.out) :
    Stowed n n₁ := .wrote hVoter hIo (hOut.trans (append_nil _).symm) (by simp)

theorem Stowed.emit {e : Effect} (hVoter : n₁.voter = n.voter) (hIo : n₁.io = n.io)
    (hOut : n₁.out = n.out ++ [e]) (hQuiet : e.casts = false) : Stowed n n₁ :=
  .wrote hVoter hIo hOut (by simpa using hQuiet)

theorem stowed_fail : Stowed n (storageWriteFailed n) := by
  rw [storageWriteFailed_eq]
  exact ⟨rfl, rfl, rfl, rfl, rfl, Role.demote_cases _, [], (append_nil _).symm,
    fun e he => absurd he not_mem_nil⟩

theorem stowed_flush : Stowed n (persistWriteFlush n) := by
  have hFlush := flushes_persistWriteFlush n
  generalize persistWriteFlush n = m at hFlush
  cases hFlush with
  | idle => exact .same rfl rfl rfl
  | write size effs _ hReserved =>
    refine ⟨rfl, rfl, rfl, rfl, rfl, .inl rfl, _, append_assoc .., ?_⟩
    rcases hReserved with rfl | rfl <;> simp [Effect.casts]
  | lost size effs _ hReserved =>
    refine ⟨rfl, rfl, rfl, rfl, rfl, Role.demote_cases _, _, rfl, ?_⟩
    rcases hReserved with rfl | rfl <;> simp [Effect.casts]

theorem stowed_sync : Stowed n (persistSync n) := by
  unfold persistSync
  refine stowed_flush.trans ?_
  dsimp only
  split
  · exact .same rfl rfl rfl
  split
  · split
    · exact .emit rfl rfl rfl rfl
    · exact stowed_fail
  · exact .same rfl rfl rfl

theorem stowed_splice (prev : Nat) (es : List Entry) :
    Stowed n (es.foldl logAppend (logTruncateFrom n (prev + 1))) := by
  obtain ⟨m, persist, hCut, hEq⟩ := replaceTail_eq n prev es
  rw [hEq]
  suffices hFile : Stowed n m from hFile.trans (.same rfl rfl rfl)
  rcases hCut with rfl | rfl
  · exact .same rfl rfl rfl
  unfold persistTruncate
  split
  · exact .same rfl rfl rfl
  refine stowed_flush.trans ?_
  generalize persistWriteFlush n = m
  dsimp only
  split
  · exact .emit rfl rfl rfl rfl
  · exact .same rfl rfl rfl

theorem stowed_install (base bt : Nat) (topo : List TopoRec) :
    Stowed n (installSnapshot n base bt topo) := by
  unfold installSnapshot
  dsimp only
  by_cases hIo : n.io.truncateOk = true
  · rw [if_pos hIo]
    split <;> exact .emit (e := .file (.truncate 0)) rfl rfl rfl rfl
  · rw [if_neg hIo]
    split <;> exact .same rfl rfl rfl

theorem stowed_compact (upto : Nat) : Stowed n (logCompactTo n upto) := by
  by_cases hGo : n.io.snapshotOk = true ∧
      n.log.baseIndex + clCompactBatch ≤ compactIndex n upto
  · rw [logCompactTo_eq hGo.1 hGo.2]
    have hWritten : Stowed n (n.emit (.snapshot (boundarySnap n (compactIndex n upto)))) :=
      .emit rfl rfl rfl rfl
    refine (hWritten.trans stowed_flush).trans ?_
    unfold rebaseTo
    dsimp only
    split
    · exact .emit rfl rfl rfl rfl
    · exact .same rfl rfl rfl
  · rw [logCompactTo_none hGo]
    exact .same rfl rfl rfl

theorem Stores.stowed {G : Gate} (h : Stores G n n₁) : Stowed n n₁ := by
  cases h with
  | flush => exact stowed_flush
  | sync => exact stowed_sync
  | append e hRole hTerm hGate => exact .same rfl rfl rfl
  | splice prev es hGate => exact stowed_splice prev es
  | install base bt topo hGate => exact stowed_install base bt topo
  | compact upto => exact stowed_compact upto
  | snapshot base bt off =>
    unfold snapshotWrite
    split
    · exact .emit rfl rfl rfl rfl
    · exact .same rfl rfl rfl

/-! ### Stages without ballots -/

/-- No ballot is cast, asked for or counted, whoever leads was elected, and the vote file can
be written. -/
def voterGate : StageGate where
  lead n := n.role = .candidate ∧ n.cfg.quorum ≤ n.votesGranted
  campaign := False
  ballot := False
  io io := io.metaOk = true

theorem Effect.casts_of_passing {e : Effect} (h : e.lasting = false) : e.casts = false := by
  cases e with
  | send p f =>
    cases f with
    | voteReq t li lt => cases h
    | voteResp t granted =>
      cases granted with
      | true => cases h
      | false => rfl
    | _ => rfl
  | _ => cases h

theorem Stowed.sim (h : Stowed n n₁) : Sim a a n n₁ := by
  intro hMeta
  obtain ⟨effs, hOut, hQuiet⟩ := h.out
  exact ⟨h.io ▸ hMeta, effs, hOut, .single (.other _ _ h.cfg h.term h.vote h.votes
    (List.Sublist.refl _) h.role (.inl rfl) hQuiet)⟩

theorem sim_stage (hStage : Stage voterGate n n₁) : Sim a a n n₁ := by
  cases hStage with
  | turn hTurn hGround =>
    obtain ⟨effs, hOut, hPassing⟩ := hTurn.passing hGround
    exact Stowed.sim ⟨congrArg Ground.cfg hGround, congrArg Ground.io hGround,
      congrArg Ground.term hGround, congrArg Ground.votedFor hGround,
      congrArg Ground.votes hGround, .inl (congrArg Ground.role hGround), effs, hOut,
      fun e he => Effect.casts_of_passing (hPassing e he)⟩
  | store hStores => exact hStores.stowed.sim
  | adopt t hNew =>
    intro hMeta
    unfold persistMeta
    rw [if_pos hMeta]
    exact Sim.one rfl rfl (.adopt t hNew) hMeta
  | campaign hGate => exact hGate.elim
  | vote p hFree hBallot => exact hBallot.elim
  | grant p hGate hBallot => exact hBallot.elim
  | request p t li lt hBallot => exact hBallot.elim
  | count hBallot => exact hBallot.elim
  | follow =>
    exact .one rfl (append_nil _).symm (.other _ _ rfl rfl rfl rfl (List.Sublist.refl _)
      (.inr rfl) (.inl rfl) fun e he => absurd he not_mem_nil)
  | lead hGate => exact .one rfl (append_nil _).symm (.lead hGate.1 hGate.2)
  | setIo io hGate =>
    exact fun _ => ⟨hGate, [], (append_nil _).symm, .refl _⟩

theorem sim_stages (hStages : Stages voterGate n n₁) : Sim a a n n₁ := by
  induction hStages with
  | refl => exact .refl
  | next _ hStage ih => exact ih.trans (sim_stage hStage)

/-! ### Elections -/

theorem sim_askAll (ps : List Nat) (hRole : n.role = .candidate) (li lt : Nat) :
    Sim { a with ask := ps } { a with ask := [] } n
      (ps.foldl (fun m p => if (m.peer p).linkState = .up then
        clSend m p (.voteReq n.wireTerm li lt) else m) n) := by
  induction ps generalizing n with
  | nil => exact .refl
  | cons p ps ih =>
    rw [foldl_cons]
    split
    · refine Sim.trans (b := { a with ask := ps }) ?_
        (ih (n := clSend n p (.voteReq n.wireTerm li lt)) hRole)
      exact .one rfl rfl (.request p ps li lt rfl hRole)
    refine Sim.trans (b := { a with ask := ps }) ?_ (ih hRole)
    exact .one rfl (append_nil _).symm (.other _ _ rfl rfl rfl rfl
      (sublist_cons_self _ _) (.inl rfl) (.inl rfl) fun e he => absurd he not_mem_nil)

theorem sim_becomeCandidate (hAsk : a.ask = []) : Sim a a n (becomeCandidate n) := by
  intro hMeta
  unfold becomeCandidate persistMeta
  rw [if_pos hMeta]
  extract_lets m
  have hCampaign : Sim a { a with ask := n.cfg.peerIds } n m := .one rfl rfl (.campaign hAsk)
  have hEq : a = { a with ask := [] } := by rw [← hAsk]
  split
  · rename_i hQuorum
    -- nobody is asked
    have hNone : Sim { a with ask := n.cfg.peerIds } a m m :=
      .one rfl (append_nil _).symm (.other _ _ rfl rfl rfl rfl
        (by rw [show (m.voterIn a).ask = [] from hAsk]; exact nil_sublist _)
        (.inl rfl) (.inl rfl) fun e he => absurd he not_mem_nil)
    have hLead : Stages voterGate m (becomeLeader m) :=
      stages_becomeLeader ⟨rfl, hQuorum⟩ trivial
    exact ((hCampaign.trans hNone).trans (sim_stages hLead)) hMeta
  · have hAll := sim_askAll (a := a) (n := m) n.cfg.peerIds rfl m.log.lastIndex
      (logTermAt m.log m.log.lastIndex)
    rw [← hEq] at hAll
    exact (hCampaign.trans hAll) hMeta

theorem sim_startPrevote (hAsk : a.ask = []) : Sim a a n (startPrevote n) := by
  unfold startPrevote
  extract_lets m
  have hOpen : Stages voterGate n m := .one (.turn (.poll (.quiet rfl) trivial rfl) rfl)
  split
  · exact (sim_stages hOpen).trans (sim_becomeCandidate hAsk)
  · exact sim_stages (hOpen.trans (stages_sendVoteRequest true (fun _ => trivial) nofun))

theorem sim_onPrevoteResp (t : Nat) (granted : Bool) (hAsk : a.ask = []) :
    Sim a a n (onPrevoteResp n t granted) := by
  unfold onPrevoteResp
  refine observeTerm_elim (P := fun m => Sim a a n m) (sim_stages (stages_observeTerm t)) fun _ => ?_
  split
  · extract_lets m
    have hCounted : Sim a a n m := sim_stages (.one (.turn (.poll (.quiet rfl) trivial rfl) rfl))
    split
    · exact hCounted.trans (sim_becomeCandidate hAsk)
    · exact hCounted
  · exact .refl

theorem sim_onVoteReq (p t li lt : Nat) :
    Sim { frame := some (p, .voteReq t li lt) } {} n (onVoteReq n p t li lt) := by
  unfold onVoteReq
  refine Sim.trans (sim_stages (stages_observeTerm t)) ?_
  generalize (observeTerm n t).1 = m
  dsimp only
  split
  · rename_i hGrant
    obtain ⟨hTerm, -, hFree⟩ := hGrant
    intro hMeta
    unfold persistMeta
    rw [if_pos hMeta]
    -- the vote reaches the disk before the answer is sent
    have hVote : Sim { frame := some (p, .voteReq t li lt) }
        { frame := some (p, .voteReq t li lt) } m
        ({ m with votedFor := some p }.emit (.setMeta m.term (some p))) :=
      .one rfl rfl (.vote p t li lt rfl hTerm hFree)
    exact hVote.trans (.one rfl rfl (.grant p t li lt rfl hTerm rfl)) hMeta
  · exact (sim_stages (stages_clSend rfl)).done

theorem sim_onVoteResp (p t : Nat) (granted : Bool) :
    Sim { frame := some (p, .voteResp t granted) } {} n (onVoteResp n t granted) := by
  unfold onVoteResp
  refine observeTerm_elim (P := fun m => Sim { frame := some (p, .voteResp t granted) } {} n m)
    (sim_stages (stages_observeTerm t)).done fun _ => ?_
  split
  · rename_i hCount
    obtain ⟨hRole, hTerm, rfl⟩ := hCount
    have hCount : Sim { frame := some (p, .voteResp t true) } {} n (counted n) :=
      .one rfl (append_nil _).symm (.count p t rfl hRole hTerm)
    dsimp only
    split
    · rename_i hQuorum
      have hLead : Stages voterGate (counted n) (becomeLeader (counted n)) :=
        stages_becomeLeader ⟨hRole, hQuorum⟩ trivial
      exact hCount.trans (sim_stages hLead)
    · exact hCount
  · exact Sim.refl.done

/-! ### Callbacks -/

/-- **A received frame is a run of voter steps.** -/
theorem sim_clDispatch (p : Nat) (f : Frame) :
    Sim { frame := some (p, f) } {} n (clDispatch n p f) := by
  have hQuiet : FrameGate voterGate.toGate n p f → voterGate.toTurnGate.frame n f →
      voterGate.frame f → Sim { frame := some (p, f) } {} n (clDispatch n p f) :=
    fun hGate hDesk hBallot => (sim_stages (stages_clDispatch p f hGate hDesk hBallot)).done
  cases f with
  | prevoteResp t g => exact (sim_onPrevoteResp t g rfl).done
  | voteReq t li lt => exact sim_onVoteReq p t li lt
  | voteResp t g => exact sim_onVoteResp p t g
  | append t prev pt lc ci cong es => exact hQuiet ⟨trivial, fun _ => trivial⟩ trivial trivial
  | appendResp t ok hint dur => exact hQuiet trivial (fun _ => trivial) trivial
  | forward t ops => exact hQuiet (fun _ => ⟨trivial, fun _ _ => trivial⟩) trivial trivial
  | snapBegin t base bt topo => exact hQuiet (fun _ => trivial) trivial trivial
  | _ => exact hQuiet trivial trivial trivial

/-- **So is a timer or a request of the data plane**, as long as it leaves the vote file
writable. -/
theorem sim_callback (cb : Callback) (hIo : ∀ io, cb = .setIo io → io.metaOk = true) :
    Sim {} {} n (cb.run n) := by
  have hQuiet : CallbackGate voterGate.toGate n cb → voterGate.toTurnGate.callback n cb →
      voterGate.callback cb → Sim {} {} n (cb.run n) :=
    fun hGate hDesk hVotes => sim_stages (stages_callback cb hGate hDesk hVotes)
  cases cb with
  | electionTimeout =>
    show Sim {} {} n (electionTimerCb n)
    unfold electionTimerCb
    split
    · exact .refl
    · exact sim_startPrevote rfl
  | drain => exact hQuiet (fun _ => ⟨trivial, fun _ _ => trivial⟩) (fun _ => trivial) trivial
  | fsyncTimer | readDone => exact hQuiet trivial (fun _ => trivial) trivial
  | setIo io => exact hQuiet trivial trivial (hIo io rfl)
  | _ => exact hQuiet trivial trivial trivial

end BeaverMQ
