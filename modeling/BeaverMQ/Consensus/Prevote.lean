import BeaverMQ.Consensus.Moves
import Mathlib.Data.Finset.Card

/-!
# BeaverMQ — the quorum of a PreVote

A node raises its term when its PreVote counter reaches a quorum. The counter counts answers,
not peers, and an answer to an earlier round counts like any other. So the rounds are numbered
here: each PREVOTE is marked with the round that sent it, each answer with the mark of the PREVOTE
it answers, and `granted` collects the peers whose granted answers to the current round were read.

As long as a node starts a round only when no PREVOTE of its last one and no granted answer is
under way, each peer has at most one of them at a time, and the count is one of peers.
-/

namespace BeaverMQ

open List

/-! # Who takes part

A PreVote is one counter of the asking node and two frames without a memory. The counter is
touched in three handlers. Everything else a node does sends no PreVote frame and lets the round
go on or ends it (`Apart`). -/

section Apart

variable {n n₁ n₂ : Node} {T : TurnGate}

/-- No PreVote frame is sent, and a round that is still open was open before with the same
count. -/
structure Apart (n n' : Node) : Prop where
  cfg : n'.cfg = n.cfg
  sent : n'.poll.sent = n.poll.sent
  counting : n'.inPrevote = true → n.inPrevote = true ∧ n'.prevotesGranted = n.prevotesGranted

theorem Apart.of_poll (hCfg : n₁.cfg = n.cfg) (hPoll : n₁.poll = n.poll) : Apart n n₁ where
  cfg := hCfg
  sent := congrArg Poll.sent hPoll
  counting := fun hOpen => ⟨(congrArg Poll.inPrevote hPoll).symm.trans hOpen
    , congrArg Poll.prevotesGranted hPoll⟩

theorem Apart.trans (h₁ : Apart n n₁) (h₂ : Apart n₁ n₂) : Apart n n₂ where
  cfg := h₂.cfg.trans h₁.cfg
  sent := h₂.sent.trans h₁.sent
  counting := by
    intro hOpen
    obtain ⟨hMid, hCount⟩ := h₂.counting hOpen
    obtain ⟨hStart, hCount'⟩ := h₁.counting hMid
    exact ⟨hStart, hCount.trans hCount'⟩

theorem Apart.closed (h : Apart n n₁) (hClosed : n.inPrevote = false) : n₁.inPrevote = false := by
  cases hOpen : n₁.inPrevote with
  | false => rfl
  | true => exact (h.counting hOpen).1.symm.trans hClosed

/-- A move in office: only `become_leader` takes a follower out of its role within a term. -/
theorem Move.office {G : Gate} (hMove : Move G n n₁) :
    n₁.cfg = n.cfg ∧
      (n₁.term = n.term → n.role = .follower → n₁.role = .follower ∨ G.lead n) := by
  cases hMove with
  | quiet hKept =>
    exact ⟨congrArg Tracked.cfg hKept, fun _ h => .inl ((congrArg Tracked.role hKept).trans h)⟩
  | fail =>
    rw [storageWriteFailed_eq]
    refine ⟨rfl, fun _ h => .inl ?_⟩
    show n.role.demote = .follower
    rw [h]
    rfl
  | campaign => exact ⟨rfl, fun h _ => absurd h (Nat.succ_ne_self n.term)⟩
  | follow | adopt => exact ⟨rfl, fun _ _ => .inl rfl⟩
  | lead hGate => exact ⟨rfl, fun _ _ => .inr hGate⟩
  | _ => exact ⟨rfl, fun _ h => .inl h⟩

theorem apart_of_turns (hPoll : ¬ T.poll) (h : Turns T n n₁) : Apart n n₁ := by
  induction h with
  | refl => exact .of_poll rfl rfl
  | next _ hTurn ih =>
    refine ih.trans ?_
    cases hTurn with
    | move hMove hDesk => exact .of_poll hMove.office.1 (congrArg Desk.poll hDesk)
    | adopt | campaign => exact .of_poll rfl rfl
    | endRound => exact ⟨rfl, rfl, fun h => (Bool.false_ne_true h).elim⟩
    | poll hMove hGate _ => exact absurd hGate hPoll
    | advance k hNew _ =>
      exact .of_poll (congrArg Tracked.cfg applyCommitted_kept.1)
        (congrArg Desk.poll applyCommitted_kept.2.1)
    | install base bt hGate => exact .of_poll rfl rfl

/-- Nobody is asked or answered, and no term is raised by the node itself. -/
def apartGate (n : Node) : TurnGate where
  lead := fun m => m.term ≤ n.term
  campaign := False
  poll := False

theorem follower_of_turns (h : Turns (apartGate n) n n₁) :
    n.term < n₁.term → n₁.role = .follower := by
  induction h with
  | refl => exact fun h => absurd h (lt_irrefl _)
  | @next m m₁ _ hTurn ih =>
    have hSame : ∀ {m' : Node}, Move (apartGate n).toGate m m' → m'.term = m.term →
        n.term < m'.term → m'.role = .follower := by
      intro m' hMove hTerm hUp
      rw [hTerm] at hUp
      rcases hMove.office.2 hTerm (ih hUp) with hDown | hLead
      · exact hDown
      · exact absurd hLead (Nat.not_le_of_lt hUp)
    cases hTurn with
    | move hMove hDesk => exact hSame hMove (congrArg Desk.term hDesk)
    | adopt t hNew => exact fun _ => rfl
    | campaign hGate => exact hGate.elim
    | endRound | install => exact ih
    | poll _ hGate _ => exact hGate.elim
    | advance k hNew _ =>
      intro hUp
      rw [show (applyCommitted _).term = _ from congrArg Tracked.term applyCommitted_kept.1] at hUp
      exact (congrArg Tracked.role applyCommitted_kept.1).trans (ih hUp)

/-- What every callback but the handlers of a PreVote keeps to. -/
def KeepsApart (n n' : Node) : Prop := Apart n n' ∧ (n.term < n'.term → n'.role = .follower)

theorem keepsApart_of_turns (h : Turns (apartGate n) n n₁) : KeepsApart n n₁ :=
  ⟨apart_of_turns id h, follower_of_turns h⟩

theorem apart_clDispatch (p : Nat) {f : Frame} (hPlain : isPoll (.send p f) = false) :
    KeepsApart n (clDispatch n p f) := by
  refine keepsApart_of_turns (turns_clDispatch p f ?_ ?_)
  · cases f with
    | prevote | prevoteResp => cases hPlain
    | voteReq t li lt => exact fun _ => trivial
    | voteResp t g => exact fun _ => ⟨le_refl n.term, trivial⟩
    | append t prev pt lc ci cong es => exact ⟨trivial, fun _ => trivial⟩
    | forward t ops => exact fun _ => ⟨trivial, fun _ _ => trivial⟩
    | snapBegin t base bt topo => exact fun _ => trivial
    | _ => trivial
  · cases f with
    | prevote | prevoteResp => cases hPlain
    | appendResp t ok hint dur => exact fun _ => trivial
    | _ => trivial

theorem apart_callback {cb : Callback} (hPlain : cb = .electionTimeout → n.role = .leader) :
    KeepsApart n (cb.run n) := by
  by_cases hTimer : cb = .electionTimeout
  · subst hTimer
    show KeepsApart n (electionTimerCb n)
    unfold electionTimerCb
    rw [if_pos (hPlain rfl)]
    exact keepsApart_of_turns .refl
  refine keepsApart_of_turns (turns_callback cb ?_ ?_)
  · cases cb with
    | electionTimeout => exact absurd rfl hTimer
    | drain => exact fun _ => ⟨trivial, fun _ _ => trivial⟩
    | _ => trivial
  · cases cb with
    | electionTimeout => exact absurd rfl hTimer
    | fsyncTimer | drain | readDone => exact fun _ => trivial
    | _ => trivial

/-! ## The handlers of a PreVote -/

structure Closes (n n' : Node) : Prop where
  cfg : n'.cfg = n.cfg
  sent : n'.poll.sent = n.poll.sent
  closed : n'.inPrevote = false

theorem closes_becomeCandidate : Closes n (becomeCandidate n) := by
  let m : Node := { n with inPrevote := false, term := n.term + 1, votedFor := some n.cfg.selfId
                           role := .candidate, leaderId := none, votesGranted := 1 }
  have hTurns : Turns { poll := False } m (becomeCandidate n) := by
    unfold becomeCandidate
    dsimp only
    refine turns_persistMeta.trans ?_
    split
    · exact .of (stages_becomeLeader trivial trivial)
    · exact .of (stages_sendVoteRequest false (by simp) fun _ => trivial)
  have hApart := apart_of_turns id hTurns
  exact ⟨hApart.cfg, hApart.sent, hApart.closed rfl⟩

theorem broadcast_eq (f : Frame) (ps : List Nat) (n : Node) :
    ps.foldl (fun n p => if (n.peer p).linkState = .up then clSend n p f else n) n =
      { n with out := n.out ++
          (ps.filter fun p => (n.peer p).linkState = .up).map fun p => .send p f } := by
  induction ps generalizing n with
  | nil => rw [foldl_nil, filter_nil, map_nil, append_nil]
  | cons p ps ih =>
    rw [foldl_cons]
    by_cases hUp : (n.peer p).linkState = .up
    · rw [if_pos hUp, ih, filter_cons_of_pos (by rw [hUp]; rfl), map_cons]
      show ({ n with out := (n.out ++ [.send p f]) ++ _ } : Node) = _
      rw [append_assoc, singleton_append]
      rfl
    · rw [if_neg hUp, ih, filter_cons_of_neg (by rw [decide_eq_true_eq]; exact hUp)]

def Node.prevoteFrame (n : Node) : Frame :=
  .prevote (u32 (n.term + 1)) n.log.lastIndex (logTermAt n.log n.log.lastIndex)

/-- A new round: the count starts again, and the peers `ps` are asked. -/
structure Asks (n : Node) (ps : List Nat) (n' : Node) : Prop where
  cfg : n'.cfg = n.cfg
  sent : n'.poll.sent = n.poll.sent ++ ps.map fun p => .send p n.prevoteFrame
  counting : n'.inPrevote = true → n'.prevotesGranted = 1
  term : n.term < n'.term → n.cfg.quorum ≤ 1

/-- `start_prevote` asks no peer twice; only a node that is a quorum by itself does not wait
for answers. -/
theorem asks_startPrevote : ∃ ps, ps.Sublist n.cfg.peerIds ∧ Asks n ps (startPrevote n) := by
  unfold startPrevote
  extract_lets m
  split
  · rename_i hAlone
    have hCloses := closes_becomeCandidate (n := m)
    refine ⟨[], nil_sublist _, hCloses.cfg, ?_, fun h => ?_, fun _ => hAlone⟩
    · rw [hCloses.sent]
      exact (append_nil _).symm
    · rw [hCloses.closed] at h
      cases h
  · refine ⟨n.cfg.peerIds.filter fun p => (n.peer p).linkState = .up, filter_sublist, ?_⟩
    have hSent := broadcast_eq n.prevoteFrame m.cfg.peerIds m
    rw [show sendVoteRequest m true = _ from hSent]
    refine ⟨rfl, ?_, fun _ => rfl, fun h => absurd h (lt_irrefl _)⟩
    have hAll : ∀ ps : List Nat, (ps.map fun p => Effect.send p n.prevoteFrame).filter isPoll =
        ps.map fun p => .send p n.prevoteFrame := by
      intro ps
      rw [filter_eq_self]
      intro e he
      obtain ⟨p, -, rfl⟩ := mem_map.mp he
      rfl
    show (n.out ++ _).filter isPoll = _
    rw [filter_append, hAll]
    rfl

/-- One answer, with the verdict `granted`. -/
structure Answers (n : Node) (p : Nat) (granted : Bool) (n' : Node) : Prop where
  cfg : n'.cfg = n.cfg
  sent : n'.poll.sent = n.poll.sent ++ [.send p (.prevoteResp n.wireTerm granted)]
  counting : n'.inPrevote = n.inPrevote ∧ n'.prevotesGranted = n.prevotesGranted
  term : n'.term = n.term

theorem answers_onPrevote (p t li lt : Nat) :
    ∃ granted, Answers n p granted (onPrevote n p t li lt) := by
  have hSent : ∀ g, Answers n p g (clSend n p (.prevoteResp n.wireTerm g)) := fun g =>
    ⟨rfl, filter_append _ _, ⟨rfl, rfl⟩, rfl⟩
  exact ⟨_, hSent _⟩

/-- An answer is taken: it counts if it was granted and a round is open, and with a quorum the
node campaigns. -/
structure Counts (n : Node) (granted : Bool) (n' : Node) : Prop where
  cfg : n'.cfg = n.cfg
  sent : n'.poll.sent = n.poll.sent
  counting : n'.inPrevote = true → n.inPrevote = true ∧
    n'.prevotesGranted ≤ n.prevotesGranted + if granted then 1 else 0
  term : n.term < n'.term → n'.role ≠ .follower →
    n.inPrevote = true ∧ granted = true ∧ n.cfg.quorum ≤ n.prevotesGranted + 1

theorem KeepsApart.counts {granted : Bool} (h : KeepsApart n n₁) : Counts n granted n₁ where
  cfg := h.1.cfg
  sent := h.1.sent
  counting := fun hOpen =>
    ⟨(h.1.counting hOpen).1, (h.1.counting hOpen).2.le.trans (Nat.le_add_right _ _)⟩
  term := fun hTerm hRole => absurd (h.2 hTerm) hRole

theorem counts_onPrevoteResp (t : Nat) (granted : Bool) :
    Counts n granted (onPrevoteResp n t granted) := by
  unfold onPrevoteResp
  refine observeTerm_elim (P := fun m => Counts n granted m)
    (keepsApart_of_turns (.of (stages_observeTerm t))).counts fun _ => ?_
  split
  · rename_i hCounted
    obtain ⟨hOpen, hGranted⟩ := hCounted
    extract_lets m
    split
    · rename_i hQuorum
      have hCloses := closes_becomeCandidate (n := m)
      refine ⟨hCloses.cfg, hCloses.sent, fun h => ?_, fun _ _ => ⟨hOpen, hGranted, hQuorum⟩⟩
      rw [hCloses.closed] at h
      cases h
    · refine ⟨rfl, rfl, fun _ => ⟨hOpen, ?_⟩, fun h => absurd h (lt_irrefl _)⟩
      rw [if_pos hGranted]
  · exact (keepsApart_of_turns .refl).counts

end Apart

/-! ## Numbered rounds -/

def isPrevote : Frame → Bool
  | .prevote _ _ _ => true
  | _ => false

def isConsent : Frame → Bool
  | .prevoteResp _ true => true
  | _ => false

/-- The rounds of the nodes: how many each has started, the frames under way with the round they
belong to, and the peers whose consent to the current round was read. -/
structure Rounds where
  round : Nat → Nat := fun _ => 0
  line : Nat → Nat → List (Frame × Nat) := fun _ _ => []
  granted : Nat → Finset Nat := fun _ => ∅

structure Polled where
  cluster : Cluster
  rounds : Rounds := {}

def StartsRound (n : Node) (inp : Input) : Prop := inp = .own .electionTimeout ∧ n.role ≠ .leader

instance (n : Node) (inp : Input) : Decidable (StartsRound n inp) :=
  inferInstanceAs (Decidable (_ ∧ _))

namespace Rounds

variable (g : Rounds)

def read (i : Nat) : Input → Option (Nat × Frame × Nat)
  | .frame src => (g.line src i).head?.map fun x => (src, x)
  | _ => none

/-- The round of node `i` after the callback. -/
def roundAfter (n : Node) (i : Nat) (inp : Input) : Nat :=
  if StartsRound n inp then g.round i + 1 else g.round i

/-- The peers that have granted the current round of node `i` after the callback. -/
def heard (n : Node) (i : Nat) (inp : Input) : Finset Nat :=
  if StartsRound n inp then ∅
  else match g.read i inp with
    | some (src, f, r) =>
      if isConsent f = true ∧ r = g.round i then insert src (g.granted i) else g.granted i
    | none => g.granted i

def mark (n : Node) (i : Nat) (inp : Input) : Frame → Nat
  | .prevote _ _ _ => g.roundAfter n i inp
  | .prevoteResp _ _ => (g.read i inp).elim 0 fun x => x.2.2
  | _ => 0

/-- A callback of node `i` that leaves the channels of `c₁` and then sends `effects`. -/
def callback (c c₁ : Cluster) (i : Nat) (inp : Input) (effects : List Effect) : Rounds where
  round := fun j => if j = i then g.roundAfter (c.node i) i inp else g.round j
  line := fun a b => (g.line a b).drop ((c.chan a b).length - (c₁.chan a b).length) ++
    if a = i then (sentTo b effects).map fun f => (f, g.mark (c.node i) i inp f) else []
  granted := fun j => if j = i then g.heard (c.node i) i inp else g.granted j

def restart (i : Nat) : Rounds := { g with line := fun a b => if b = i then [] else g.line a b }

end Rounds

def Polled.roundsOf (a : Polled) : Event → Rounds
  | .step i inp =>
    match a.cluster.begin i inp with
    | some (c₁, m) => a.rounds.callback a.cluster c₁ i inp m.out
    | none => a.rounds
  | .crashIn i inp k _ =>
    match a.cluster.begin i inp with
    | some (c₁, m) => (a.rounds.callback a.cluster c₁ i inp (m.out.take k)).restart i
    | none => a.rounds
  | .crash i _ | .wipe i => a.rounds.restart i

def Polled.step (s : Setup) (a : Polled) (e : Event) : Option Polled :=
  (a.cluster.step s e).map fun c' => ⟨c', a.roundsOf e⟩

/-- No PREVOTE of node `i` and no consent to one is under way. -/
def Cluster.roundClear (c : Cluster) (i : Nat) : Bool :=
  (c.node i).cfg.peerIds.all fun p =>
    (c.chan i p).all (fun f => !isPrevote f) && (c.chan p i).all (fun f => !isConsent f)

/-- A node starts a round only after its last one has left the network. -/
def RoundsApart (c : Cluster) : Event → Prop
  | .step i inp | .crashIn i inp _ _ => StartsRound (c.node i) inp → c.roundClear i = true
  | .crash _ _ | .wipe _ => True

instance (c : Cluster) (e : Event) : Decidable (RoundsApart c e) := by
  cases e <;> unfold RoundsApart <;> infer_instance

/-! ## What goes out -/

def prevotesTo (b : Nat) (effects : List Effect) : Nat := (sentTo b effects).countP isPrevote

def consentsTo (b : Nat) (effects : List Effect) : Nat := (sentTo b effects).countP isConsent

theorem countP_sentTo {P : Frame → Bool} (hPoll : ∀ d f, P f = true → isPoll (.send d f) = true)
    (b : Nat) (effects : List Effect) :
    (sentTo b effects).countP P = (sentTo b (effects.filter isPoll)).countP P := by
  unfold sentTo
  rw [countP_filterMap, countP_filterMap, countP_filter]
  refine countP_congr fun e _ => ?_
  rw [Bool.and_eq_true, iff_self_and]
  intro he
  cases e with
  | send d f =>
    refine hPoll d f ?_
    by_cases hTo : d = b
    · simpa [hTo] using he
    · simp [hTo] at he
  | _ => cases he

theorem counts_poll (m : Node) (b : Nat) :
    prevotesTo b m.out = prevotesTo b m.poll.sent ∧ consentsTo b m.out = consentsTo b m.poll.sent :=
  ⟨countP_sentTo (fun d f h => by cases f <;> first | rfl | cases h) b m.out,
    countP_sentTo (fun d f h => by cases f <;> first | rfl | cases h) b m.out⟩

theorem silent_counts {m : Node} (hSent : m.poll.sent = []) (b k : Nat) {P : Prop} :
    prevotesTo b m.out ≤ k ∧ consentsTo b m.out ≤ 1 ∧ (consentsTo b m.out ≠ 0 → P) := by
  rw [(counts_poll m b).1, (counts_poll m b).2, hSent]
  exact ⟨Nat.zero_le _, Nat.zero_le _, fun h => absurd rfl h⟩

theorem peerIds_nodup (c : Config) : c.peerIds.Nodup := List.Nodup.filter _ nodup_range

theorem asks_counts {n m : Node} {ps : List Nat} (hSub : ps.Sublist n.cfg.peerIds)
    (hSent : m.poll.sent = ps.map fun p => .send p n.prevoteFrame) (b : Nat) :
    prevotesTo b m.out ≤ (if b ∈ n.cfg.peerIds then 1 else 0) ∧ consentsTo b m.out = 0 := by
  have hCount : ∀ P : Frame → Bool, (sentTo b (ps.map fun p => .send p n.prevoteFrame)).countP P =
      if P n.prevoteFrame then ps.count b else 0 := by
    intro P
    unfold sentTo
    rw [countP_filterMap, countP_map]
    cases hP : P n.prevoteFrame with
    | true =>
      refine countP_congr fun p _ => ?_
      by_cases hTo : p = b <;> simp [hTo, hP]
    | false =>
      refine countP_eq_zero.mpr fun p _ => ?_
      by_cases hTo : p = b <;> simp [hTo, hP]
  rw [(counts_poll m b).1, (counts_poll m b).2, hSent, prevotesTo, consentsTo, hCount, hCount]
  refine ⟨?_, rfl⟩
  refine (show ps.count b ≤ n.cfg.peerIds.count b from hSub.count_le b).trans ?_
  split
  · exact nodup_iff_count_le_one.mp (peerIds_nodup n.cfg) b
  · rename_i hNot
    exact (count_eq_zero.mpr hNot).le

theorem answers_counts {m : Node} {p w : Nat} {granted : Bool}
    (hSent : m.poll.sent = [.send p (.prevoteResp w granted)]) (b : Nat) :
    prevotesTo b m.out = 0 ∧ consentsTo b m.out ≤ if p = b then 1 else 0 := by
  rw [(counts_poll m b).1, (counts_poll m b).2, hSent, prevotesTo, consentsTo]
  by_cases hTo : p = b
  · subst hTo
    cases granted <;> simp [sentTo, isPrevote, isConsent]
  · simp [sentTo, hTo]

/-! ## What comes in -/

theorem setChan_suffix {c : Cluster} {src dst : Nat} {fs : List Frame}
    (hSuffix : fs <:+ c.chan src dst) (a b : Nat) :
    (c.setChan src dst fs).chan a b <:+ c.chan a b := by
  show (if a = src ∧ b = dst then fs else c.chan a b) <:+ _
  split
  · rename_i hEq
    obtain ⟨rfl, rfl⟩ := hEq
    exact hSuffix
  · exact suffix_rfl

theorem begin_suffix {c c₁ : Cluster} {i : Nat} {inp : Input} {m : Node}
    (hBegin : c.begin i inp = some (c₁, m)) :
    (∀ a b, c₁.chan a b <:+ c.chan a b) ∧
      ∀ src, inp = .frame src → (c₁.chan src i).length < (c.chan src i).length := by
  have hTake : ∀ {src f rest}, (inp = .frame src ∨ inp = .accept src) →
      f :: rest <:+ c.chan src i → (∀ a b, c₁.chan a b <:+ (c.setChan src i rest).chan a b) →
      (∀ a b, c₁.chan a b <:+ c.chan a b) ∧
        ∀ src, inp = .frame src → (c₁.chan src i).length < (c.chan src i).length := by
    intro src f rest hFrom hChan hLess
    have hRest := (suffix_cons f rest).trans hChan
    refine ⟨fun a b => (hLess a b).trans (setChan_suffix hRest a b), fun p hp => ?_⟩
    obtain rfl : src = p := by
      rcases hFrom with rfl | rfl <;> cases hp
      rfl
    have hShort := (hLess src i).length_le
    rw [show (c.setChan src i rest).chan src i = rest from if_pos ⟨rfl, rfl⟩] at hShort
    exact (Nat.lt_succ_of_le hShort).trans_le hChan.length_le
  cases begins hBegin with
  | own hOn hCut =>
    refine ⟨fun a b => ?_, fun src h => nomatch h⟩
    rcases hCut with rfl | ⟨p, -, rfl⟩
    · exact suffix_rfl
    · exact setChan_suffix nil_suffix a b
  | lost hFrom hChan => exact hTake hFrom hChan fun _ _ => suffix_rfl
  | dropped hFrom hChan => exact hTake hFrom hChan (setChan_suffix nil_suffix)
  | dispatched hFrom hChan hEnds =>
    refine hTake hFrom hChan fun a b => ?_
    rcases hEnds with rfl | rfl
    · exact suffix_rfl
    · exact setChan_suffix nil_suffix a b

/-! ## The part of a callback in the rounds -/

section Callback

variable {c c₁ : Cluster} {i : Nat} {inp : Input} {m : Node}

/-- What a callback of node `i` may do: keep apart, start a round, answer the PREVOTE it reads or
count the answer it reads. -/
inductive Part (c : Cluster) (i : Nat) : Input → Node → Prop
  | apart {inp : Input} {m : Node} (hStart : ¬ StartsRound (c.node i) inp)
      (hNode : KeepsApart (c.node i) m) : Part c i inp m
  | asks {inp : Input} {m : Node} {ps : List Nat} (hStart : StartsRound (c.node i) inp)
      (hSub : ps.Sublist (c.node i).cfg.peerIds) (hNode : Asks (c.node i) ps m) : Part c i inp m
  | answers {m : Node} {src t li lt : Nat} {rest : List Frame} {granted : Bool}
      (hChan : c.chan src i = .prevote t li lt :: rest)
      (hNode : Answers (c.node i) src granted m) : Part c i (.frame src) m
  | counts {m : Node} {src t : Nat} {rest : List Frame} {granted : Bool}
      (hChan : c.chan src i = .prevoteResp t granted :: rest)
      (hNode : Counts (c.node i) granted m) : Part c i (.frame src) m

theorem part_of_begin (hBegin : c.begin i inp = some (c₁, m)) : Part c i inp m := by
  have hNone : ∀ {src}, (inp = .frame src ∨ inp = .accept src) → ¬ StartsRound (c.node i) inp := by
    rintro src (rfl | rfl) ⟨hTimer, -⟩ <;> cases hTimer
  cases begins hBegin with
  | @own cb =>
    by_cases hStart : StartsRound (c.node i) (.own cb)
    · obtain ⟨hTimer, hRole⟩ := hStart
      cases hTimer
      obtain ⟨ps, hSub, hAsks⟩ := asks_startPrevote (n := c.node i)
      refine .asks ⟨rfl, hRole⟩ hSub ?_
      show Asks _ ps (electionTimerCb (c.node i))
      unfold electionTimerCb
      rw [if_neg hRole]
      exact hAsks
    · refine .apart hStart (apart_callback fun hTimer => ?_)
      by_contra hRole
      exact hStart ⟨hTimer ▸ rfl, hRole⟩
  | lost hFrom => exact .apart (hNone hFrom) (keepsApart_of_turns .refl)
  | dropped hFrom =>
    exact .apart (hNone hFrom) (keepsApart_of_turns (.of (stages_dropPeerLink _)))
  | @dispatched inp src f _ _ hFrom _ _ hTaken =>
    cases hTaken with
    | shake hShake =>
      refine .apart (hNone hFrom) (apart_clDispatch src ?_)
      cases f <;> first | rfl | cases hShake
    | next hChan _ =>
      cases f with
      | prevote t li lt =>
        obtain ⟨granted, hNode⟩ := answers_onPrevote (n := c.node i) src t li lt
        exact .answers hChan hNode
      | prevoteResp t granted => exact .counts hChan (counts_onPrevoteResp t granted)
      | _ => exact .apart (hNone hFrom) (apart_clDispatch src rfl)

/-- A callback asks when it starts a round, each peer once, and consents to the sender of the
PREVOTE it reads. -/
theorem Part.sends (hPart : Part c i inp m) (hOut : (c.node i).out = []) (b : Nat) :
    prevotesTo b m.out ≤
        (if StartsRound (c.node i) inp ∧ b ∈ (c.node i).cfg.peerIds then 1 else 0) ∧
      consentsTo b m.out ≤ 1 ∧
      (consentsTo b m.out ≠ 0 →
        inp = .frame b ∧ ∃ f rest, c.chan b i = f :: rest ∧ isPrevote f = true) := by
  have hNone : (c.node i).poll.sent = [] := by
    show (c.node i).out.filter isPoll = []
    rw [hOut]
    rfl
  cases hPart with
  | apart hStart hNode => exact silent_counts (hNode.1.sent.trans hNone) b _
  | asks hStart hSub hNode =>
    obtain ⟨hAsk, hConsent⟩ := asks_counts hSub (hNode.sent.trans (by rw [hNone]; rfl)) b
    rw [hConsent]
    refine ⟨hAsk.trans ?_, Nat.zero_le _, fun h => absurd rfl h⟩
    split
    · rename_i hPeer
      rw [if_pos ⟨hStart, hPeer⟩]
    · exact Nat.zero_le _
  | @answers m src t li lt rest granted hChan hNode =>
    obtain ⟨hAsk, hConsent⟩ := answers_counts (hNode.sent.trans (by rw [hNone]; rfl)) b
    rw [hAsk]
    refine ⟨Nat.zero_le _, hConsent.trans (by split <;> omega), fun hSome => ?_⟩
    have hTo : src = b := by
      by_contra hOther
      rw [if_neg hOther] at hConsent
      exact hSome (Nat.le_zero.mp hConsent)
    subst hTo
    exact ⟨rfl, _, rest, hChan, rfl⟩
  | counts hChan hNode => exact silent_counts (hNode.sent.trans hNone) b _

end Callback

/-! ## The invariant of the frames under way -/

namespace Rounds

variable (g : Rounds)

def asking (i p : Nat) : Nat := (g.line i p).countP fun x => isPrevote x.1

def agreeing (p i : Nat) : Nat := (g.line p i).countP fun x => isConsent x.1

end Rounds

/-- The marks are those of the frames under way, each belongs to the current round of the node
that asked, and a peer stands for at most one PREVOTE, consent or counted consent. -/
structure Lined (s : Setup) (chan : Nat → Nat → List Frame) (g : Rounds) : Prop where
  lines : ∀ a b, (g.line a b).map Prod.fst = chan a b
  asked : ∀ i p, ∀ x ∈ g.line i p, isPrevote x.1 = true → x.2 = g.round i
  answered : ∀ i p, ∀ x ∈ g.line p i, isConsent x.1 = true → x.2 = g.round i
  once : ∀ i p, g.asking i p + g.agreeing p i + (if p ∈ g.granted i then 1 else 0) ≤
    if p ∈ (s.freshNode i).cfg.peerIds then 1 else 0

section Lined

variable {s : Setup} {c c₁ : Cluster} {g : Rounds} {i : Nat} {inp : Input} {m : Node}

/-- Before a round starts, nothing of the last one is under way, to and from any node. -/
theorem Lined.clear (h : Lined s c.chan g) (hCfg : (c.node i).cfg = (s.freshNode i).cfg)
    (hClear : c.roundClear i = true) (p : Nat) : g.asking i p = 0 ∧ g.agreeing p i = 0 := by
  have hOnce := h.once i p
  by_cases hPeer : p ∈ (s.freshNode i).cfg.peerIds
  · have hBoth := all_eq_true.mp hClear p (hCfg ▸ hPeer)
    rw [Bool.and_eq_true, all_eq_true, all_eq_true] at hBoth
    rw [← h.lines, ← h.lines] at hBoth
    refine ⟨countP_eq_zero.mpr fun x hx => ?_, countP_eq_zero.mpr fun x hx => ?_⟩
    · simpa using hBoth.1 x.1 (mem_map_of_mem hx)
    · simpa using hBoth.2 x.1 (mem_map_of_mem hx)
  · rw [if_neg hPeer] at hOnce
    omega

theorem Lined.head (h : Lined s c.chan g) {src : Nat} {f : Frame} {rest : List Frame}
    (hChan : c.chan src i = f :: rest) : ∃ r tail, g.line src i = (f, r) :: tail := by
  have hLine := (h.lines src i).trans hChan
  obtain ⟨⟨f', r⟩, tail, hEq, rfl, -⟩ := map_eq_cons_iff.mp hLine
  exact ⟨r, tail, hEq⟩

theorem Lined.taken (h : Lined s c.chan g) {src : Nat} {f : Frame} {rest : List Frame}
    (hBegin : c.begin i (.frame src) = some (c₁, m)) (hChan : c.chan src i = f :: rest)
    {P : Frame → Bool} (hIs : P f = true) :
    1 ≤ ((g.line src i).take ((c.chan src i).length - (c₁.chan src i).length)).countP
      fun x => P x.1 := by
  obtain ⟨r, tail, hLine⟩ := h.head hChan
  have hLess := (begin_suffix hBegin).2 src rfl
  refine one_le_countP_iff.mpr ⟨(f, r), ?_, hIs⟩
  rw [hLine]
  obtain ⟨k, hk⟩ := Nat.exists_eq_add_of_lt (Nat.sub_pos_of_lt hLess)
  rw [hk, Nat.zero_add]
  exact mem_cons_self

theorem countP_callback (P : Frame → Bool) (effects : List Effect) (a b : Nat) :
    ((g.callback c c₁ i inp effects).line a b).countP (fun x => P x.1) =
      ((g.line a b).drop ((c.chan a b).length - (c₁.chan a b).length)).countP (fun x => P x.1) +
        if a = i then (sentTo b effects).countP P else 0 := by
  show (_ ++ _ : List (Frame × Nat)).countP _ = _
  rw [countP_append]
  split
  · rw [countP_map]
    rfl
  · rfl

theorem Lined.heard (h : Lined s c.chan g) (hBegin : c.begin i inp = some (c₁, m))
    (hStart : ¬ StartsRound (c.node i) inp) (p : Nat) :
    (if p ∈ g.heard (c.node i) i inp then 1 else 0) ≤
      (if p ∈ g.granted i then 1 else 0) +
        ((g.line p i).take ((c.chan p i).length - (c₁.chan p i).length)).countP
          fun x => isConsent x.1 := by
  have hOld : ∀ k : Nat, (if p ∈ g.granted i then 1 else 0) ≤
      (if p ∈ g.granted i then 1 else 0) + k := fun k => Nat.le_add_right _ _
  unfold Rounds.heard
  rw [if_neg hStart]
  split
  · rename_i src f r hRead
    split
    · rename_i hConsent
      by_cases hSrc : p = src
      · -- The sender is counted now: its consent has just left the channel.
        subst hSrc
        cases inp with
        | frame src =>
          obtain ⟨x, hHead, hx⟩ := Option.map_eq_some_iff.mp hRead
          obtain ⟨rfl, rfl⟩ : src = p ∧ x = (f, r) := by simpa using hx
          obtain ⟨l, hLine⟩ := head?_eq_some_iff.mp hHead
          have hChan : c.chan src i = f :: l.map Prod.fst := by
            rw [← h.lines, hLine]
            rfl
          have hTaken := h.taken hBegin hChan hConsent.1
          split <;> omega
        | own | accept => cases hRead
      · simp only [Finset.mem_insert, hSrc, false_or]
        exact hOld _
    · exact hOld _
  · exact hOld _

def Cluster.sending (c₁ : Cluster) (i : Nat) (effects : List Effect) (a b : Nat) : List Frame :=
  if a = i then c₁.chan a b ++ sentTo b effects else c₁.chan a b

theorem Lined.once_callback (h : Lined s c.chan g) (hBegin : c.begin i inp = some (c₁, m))
    (hOut : (c.node i).out = []) (hCfg : (c.node i).cfg = (s.freshNode i).cfg)
    (hClear : StartsRound (c.node i) inp → c.roundClear i = true) {effects : List Effect}
    (hSent : effects.Sublist m.out) (j p : Nat) :
    (g.callback c c₁ i inp effects).asking j p + (g.callback c c₁ i inp effects).agreeing p j +
        (if p ∈ (g.callback c c₁ i inp effects).granted j then 1 else 0) ≤
      if p ∈ (s.freshNode j).cfg.peerIds then 1 else 0 := by
  have hPart := part_of_begin hBegin
  have hOnce := h.once j p
  have hAsk : prevotesTo p effects ≤ prevotesTo p m.out := (hSent.filterMap _).countP_le
  have hAgree : consentsTo j effects ≤ consentsTo j m.out := (hSent.filterMap _).countP_le
  have hAsks := (hPart.sends hOut p).1
  obtain ⟨-, hAgrees, hReads⟩ := hPart.sends hOut j
  -- What was under way splits into what has left its channel and what has not.
  have hSplit : ∀ (P : Frame → Bool) (a b : Nat), (g.line a b).countP (fun x => P x.1) =
      ((g.line a b).take ((c.chan a b).length - (c₁.chan a b).length)).countP (fun x => P x.1) +
      ((g.line a b).drop ((c.chan a b).length - (c₁.chan a b).length)).countP (fun x => P x.1) := by
    intro P a b
    rw [← countP_append, take_append_drop]
  have hAsking := hSplit isPrevote j p
  have hAgreeing := hSplit isConsent p j
  unfold Rounds.asking Rounds.agreeing at hOnce ⊢
  rw [countP_callback, countP_callback]
  change _ + (if j = i then prevotesTo p effects else 0) +
    (_ + (if p = i then consentsTo j effects else 0)) +
      (if p ∈ (if j = i then g.heard (c.node i) i inp else g.granted j) then 1 else 0) ≤ _
  by_cases hStart : StartsRound (c.node i) inp
  · have hNoAgree : consentsTo j m.out = 0 := by
      by_contra hSome
      have hFrame := (hReads hSome).1.symm.trans hStart.1
      cases hFrame
    have hNoNew : (if p = i then consentsTo j effects else 0) = 0 := by split <;> omega
    rw [hNoNew]
    by_cases hj : j = i
    · subst hj
      have hNone := h.clear hCfg (hClear hStart) p
      unfold Rounds.asking Rounds.agreeing at hNone
      have hHeard : p ∉ g.heard (c.node j) j inp := by
        rw [Rounds.heard, if_pos hStart]
        exact Finset.notMem_empty p
      rw [if_pos rfl, if_pos rfl, if_neg hHeard]
      rw [hCfg] at hAsks
      simp only [hStart, true_and] at hAsks
      omega
    · rw [if_neg hj, if_neg hj]
      omega
  · rw [if_neg fun hBoth => hStart hBoth.1] at hAsks
    have hNoAsk : (if j = i then prevotesTo p effects else 0) = 0 := by split <;> omega
    rw [hNoAsk]
    -- A consent goes out only for a PREVOTE that has left its channel.
    have hPaid : (if p = i then consentsTo j effects else 0) ≤
        ((g.line j p).take ((c.chan j p).length - (c₁.chan j p).length)).countP
          (fun x => isPrevote x.1) := by
      split
      · rename_i hp
        subst hp
        rcases Nat.eq_zero_or_pos (consentsTo j m.out) with hNone | hSome
        · omega
        · obtain ⟨rfl, f, rest, hChan, hIs⟩ := hReads hSome.ne'
          exact (hAgree.trans hAgrees).trans (h.taken hBegin hChan hIs)
      · exact Nat.zero_le _
    by_cases hj : j = i
    · subst hj
      rw [if_pos rfl]
      have hHeard := h.heard hBegin hStart p
      omega
    · rw [if_neg hj]
      omega

theorem Lined.callback (h : Lined s c.chan g) (hBegin : c.begin i inp = some (c₁, m))
    (hOut : (c.node i).out = []) (hCfg : (c.node i).cfg = (s.freshNode i).cfg)
    (hClear : StartsRound (c.node i) inp → c.roundClear i = true) {effects : List Effect}
    (hSent : effects.Sublist m.out) :
    Lined s (c₁.sending i effects) (g.callback c c₁ i inp effects) := by
  -- A round moves on only when nothing of it is under way.
  have hRound : ∀ j, (∀ p, g.asking j p = 0 ∧ g.agreeing p j = 0) ∨
      (g.callback c c₁ i inp effects).round j = g.round j := by
    intro j
    show _ ∨ (if j = i then g.roundAfter (c.node i) i inp else g.round j) = g.round j
    by_cases hj : j = i
    · subst hj
      by_cases hStart : StartsRound (c.node j) inp
      · exact .inl (h.clear hCfg (hClear hStart))
      · rw [if_pos rfl, Rounds.roundAfter, if_neg hStart]
        exact .inr rfl
    · exact .inr (if_neg hj)
  have hNew : ∀ {a b : Nat} {x : Frame × Nat}, x ∈ (if a = i then (sentTo b effects).map
      fun f => (f, g.mark (c.node i) i inp f) else []) →
      a = i ∧ x.1 ∈ sentTo b effects ∧ x.2 = g.mark (c.node i) i inp x.1 := by
    intro a b x hx
    split at hx
    · rename_i ha
      obtain ⟨f, hf, rfl⟩ := mem_map.mp hx
      exact ⟨ha, hf, rfl⟩
    · cases hx
  refine ⟨fun a b => ?_, fun j p x hx hIs => ?_, fun j p x hx hIs => ?_
    , fun j p => h.once_callback hBegin hOut hCfg hClear hSent j p⟩
  · show (_ ++ _ : List (Frame × Nat)).map Prod.fst = _
    rw [map_append, map_drop, h.lines,
      ← suffix_iff_eq_drop.mp ((begin_suffix hBegin).1 a b)]
    unfold Cluster.sending
    split
    · rw [map_map]
      exact congrArg _ (map_id _)
    · exact append_nil _
  · rcases mem_append.mp hx with hOld | hMade
    · have hIn := mem_of_mem_drop hOld
      rcases hRound j with hNone | hKept
      · exact absurd hIs (countP_eq_zero.mp (hNone p).1 x hIn)
      · rw [hKept]
        exact h.asked j p x hIn hIs
    · obtain ⟨rfl, -, hMark⟩ := hNew hMade
      rw [hMark]
      obtain ⟨f, r⟩ := x
      cases f with
      | prevote t li lt => exact (if_pos rfl).symm
      | _ => cases hIs
  · rcases mem_append.mp hx with hOld | hMade
    · have hIn := mem_of_mem_drop hOld
      rcases hRound j with hNone | hKept
      · exact absurd hIs (countP_eq_zero.mp (hNone p).2 x hIn)
      · rw [hKept]
        exact h.answered j p x hIn hIs
    · -- A new consent carries the mark of the PREVOTE that was read.
      obtain ⟨rfl, hIn, hMark⟩ := hNew hMade
      have hSome : consentsTo j m.out ≠ 0 := by
        have hPos : 0 < consentsTo j effects := countP_pos_iff.mpr ⟨x.1, hIn, hIs⟩
        exact (hPos.trans_le (hSent.filterMap _).countP_le).ne'
      obtain ⟨rfl, f, rest, hChan, hAsked⟩ := ((part_of_begin hBegin).sends hOut j).2.2 hSome
      obtain ⟨r, tail, hLine⟩ := h.head hChan
      have hAt := h.asked j p (f, r) (by rw [hLine]; exact mem_cons_self) hAsked
      have hKept : (g.callback c c₁ p (.frame j) effects).round j = g.round j := by
        show (if j = p then g.roundAfter (c.node p) p (.frame j) else g.round j) = g.round j
        have hStart : ¬ StartsRound (c.node p) (.frame j) := fun h => nomatch h.1
        split
        · rename_i hEq
          rw [Rounds.roundAfter, if_neg hStart, hEq]
        · rfl
      rw [hMark, hKept, ← hAt]
      obtain ⟨f', r'⟩ := x
      cases f' with
      | prevoteResp t granted =>
        show (g.read p (.frame j)).elim 0 (fun x => x.2.2) = r
        rw [Rounds.read, hLine]
        rfl
      | _ => cases hIs

theorem Lined.restart {chan : Nat → Nat → List Frame} (h : Lined s chan g) (i : Nat) :
    Lined s (fun a b => if b = i then [] else chan a b) (g.restart i) := by
  have hSub : ∀ a b, ((g.restart i).line a b).Sublist (g.line a b) := by
    intro a b
    show (if b = i then [] else g.line a b).Sublist _
    split
    · exact nil_sublist _
    · exact List.Sublist.refl _
  refine ⟨fun a b => ?_, fun j p x hx => h.asked j p x ((hSub j p).subset hx)
    , fun j p x hx => h.answered j p x ((hSub p j).subset hx), fun j p => ?_⟩
  · show (if b = i then [] else g.line a b).map Prod.fst = _
    split
    · rfl
    · exact h.lines a b
  · refine le_trans ?_ (h.once j p)
    exact Nat.add_le_add_right (Nat.add_le_add (hSub j p).countP_le (hSub p j).countP_le) _

theorem heard_mono (hStart : ¬ StartsRound (c.node i) inp) :
    g.granted i ⊆ g.heard (c.node i) i inp := by
  unfold Rounds.heard
  rw [if_neg hStart]
  split
  · split
    · exact Finset.subset_insert _ _
    · exact subset_rfl
  · exact subset_rfl

theorem Lined.heard_peers (h : Lined s c.chan g) (hBegin : c.begin i inp = some (c₁, m)) :
    ∀ p ∈ g.heard (c.node i) i inp, p ∈ (s.freshNode i).cfg.peerIds := by
  intro p hp
  by_cases hStart : StartsRound (c.node i) inp
  · rw [Rounds.heard, if_pos hStart] at hp
    exact absurd hp (Finset.notMem_empty p)
  have hHeard := h.heard hBegin hStart p
  have hOnce := h.once i p
  have hTake : ((g.line p i).take ((c.chan p i).length - (c₁.chan p i).length)).countP
      (fun x => isConsent x.1) ≤ g.agreeing p i := (take_sublist _ _).countP_le
  rw [if_pos hp] at hHeard
  by_contra hOther
  rw [if_neg hOther] at hOnce
  omega

theorem Lined.heard_card (h : Lined s c.chan g) {src t : Nat} {rest : List Frame}
    (hChan : c.chan src i = .prevoteResp t true :: rest) :
    (g.heard (c.node i) i (.frame src)).card = (g.granted i).card + 1 := by
  obtain ⟨r, tail, hLine⟩ := h.head hChan
  have hIn : (Frame.prevoteResp t true, r) ∈ g.line src i := by
    rw [hLine]
    exact mem_cons_self
  have hRound : r = g.round i := h.answered i src _ hIn rfl
  have hAgrees : 1 ≤ g.agreeing src i := one_le_countP_iff.mpr ⟨_, hIn, rfl⟩
  have hFresh : src ∉ g.granted i := by
    intro hOld
    have hOnce := h.once i src
    rw [if_pos hOld] at hOnce
    split at hOnce <;> omega
  have hRead : g.read i (.frame src) = some (src, .prevoteResp t true, r) := by
    rw [Rounds.read, hLine]
    rfl
  have hHeard : g.heard (c.node i) i (.frame src) = insert src (g.granted i) := by
    rw [Rounds.heard, if_neg (fun hStart => nomatch hStart.1), hRead]
    exact if_pos (c := isConsent (.prevoteResp t true) = true ∧ r = g.round i) ⟨rfl, hRound⟩
  rw [hHeard]
  exact Finset.card_insert_of_notMem hFresh

end Lined

/-! ## The count is one of peers -/

/-- Between callbacks a node has nothing to send, and has counted no answer but those of the
peers in `granted`. -/
structure Counted (s : Setup) (i : Nat) (n : Node) (granted : Finset Nat) : Prop where
  cfg : n.cfg = (s.freshNode i).cfg
  out : n.out = []
  count : n.inPrevote = true → n.prevotesGranted ≤ granted.card + 1

theorem counted_rebooted (s : Setup) (i : Nat) (d : Disk) (old : Node) (granted : Finset Nat) :
    Counted s i (s.rebooted i d old) granted where
  cfg := (boot_facts (S := s) i d).1
  out := rfl
  count := by
    have hClosed : (s.boot i d).inPrevote = false := by
      unfold Setup.boot persistLoad
      cases d.snap <;> rfl
    intro hOpen
    exact absurd (hClosed.symm.trans hOpen) Bool.false_ne_true

structure Polled.Ok (s : Setup) (a : Polled) : Prop where
  nodes : ∀ i, Counted s i (a.cluster.node i) (a.rounds.granted i)
  lined : Lined s a.cluster.chan a.rounds

section Run

variable {s : Setup} {a b : Polled} {c₁ : Cluster} {i : Nat} {inp : Input} {m : Node}

theorem Polled.Ok.counted (h : a.Ok s) (hBegin : a.cluster.begin i inp = some (c₁, m)) :
    Counted s i m.settle (a.rounds.heard (a.cluster.node i) i inp) := by
  obtain ⟨hCfg, -, hCount⟩ := h.nodes i
  have hGrows : ∀ inp', ¬ StartsRound (a.cluster.node i) inp' →
      (a.rounds.granted i).card ≤ (a.rounds.heard (a.cluster.node i) i inp').card :=
    fun _ hStart => Finset.card_le_card (heard_mono hStart)
  cases part_of_begin hBegin with
  | apart hStart hNode =>
    refine ⟨hNode.1.cfg.trans hCfg, rfl, fun hOpen => ?_⟩
    obtain ⟨hWas, hSame⟩ := hNode.1.counting hOpen
    have hLe := hGrows _ hStart
    have hOld := hCount hWas
    show m.prevotesGranted ≤ _
    omega
  | asks hStart hSub hNode =>
    refine ⟨hNode.cfg.trans hCfg, rfl, fun hOpen => ?_⟩
    exact (hNode.counting hOpen).le.trans (Nat.le_add_left _ _)
  | @answers m src t li lt rest granted hChan hNode =>
    refine ⟨hNode.cfg.trans hCfg, rfl, fun hOpen => ?_⟩
    have hLe := hGrows (.frame src) fun hStart => nomatch hStart.1
    have hOld := hCount (hNode.counting.1.symm.trans hOpen)
    have hSame := hNode.counting.2
    show m.prevotesGranted ≤ _
    omega
  | @counts m src t rest granted hChan hNode =>
    refine ⟨hNode.cfg.trans hCfg, rfl, fun hOpen => ?_⟩
    obtain ⟨hWas, hNext⟩ := hNode.counting hOpen
    have hOld := hCount hWas
    show m.prevotesGranted ≤ _
    cases granted with
    | true =>
      rw [h.lined.heard_card hChan]
      exact hNext.trans (Nat.add_le_add_right hOld 1)
    | false =>
      have hLe := hGrows (.frame src) fun hStart => nomatch hStart.1
      have hNext' : m.prevotesGranted ≤ (a.cluster.node i).prevotesGranted := hNext
      omega

theorem Polled.Ok.callback (h : a.Ok s) (hBegin : a.cluster.begin i inp = some (c₁, m))
    (hApart : StartsRound (a.cluster.node i) inp → a.cluster.roundClear i = true)
    {effects : List Effect} (hSent : effects.Sublist m.out) :
    Lined s (c₁.sending i effects) (a.rounds.callback a.cluster c₁ i inp effects) :=
  h.lined.callback hBegin (h.nodes i).out (h.nodes i).cfg hApart hSent

theorem Polled.Ok.restarted (h : a.Ok s) (i : Nat) (d : Disk) (j : Nat) :
    Counted s j ((a.cluster.restart s i d).node j) (a.rounds.granted j) := by
  show Counted s j (if j = i then s.rebooted i d (a.cluster.node i) else a.cluster.node j) _
  split
  · rename_i hj
    subst hj
    exact counted_rebooted s j _ _ _
  · exact h.nodes j

theorem Polled.Ok.begun {c : Cluster} {n : Node} {i : Nat} {granted : Finset Nat} (h : a.Ok s)
    (hNode : c.node = a.cluster.node) (hHere : Counted s i n granted) (j : Nat) :
    Counted s j (if j = i then n else c.node j)
      (if j = i then granted else a.rounds.granted j) := by
  split
  · rename_i hj
    exact hj ▸ hHere
  · rw [hNode]
    exact h.nodes j

theorem polled_step {e : Event} (h : a.Ok s) (hStep : a.step s e = some b)
    (hApart : RoundsApart a.cluster e) : b.Ok s := by
  obtain ⟨c', hNext, rfl⟩ := Option.map_eq_some_iff.mp hStep
  cases e with
  | step i inp =>
    obtain ⟨-, hNext⟩ := Option.ite_none_right_eq_some.mp hNext
    obtain ⟨⟨c₁, m⟩, hBegin, rfl⟩ := Option.map_eq_some_iff.mp hNext
    have hNode := begin_node hBegin
    have hRounds : a.roundsOf (.step i inp) = a.rounds.callback a.cluster c₁ i inp m.out := by
      simp only [Polled.roundsOf, hBegin]
    rw [hRounds]
    exact ⟨h.begun hNode (h.counted hBegin), h.callback hBegin hApart (List.Sublist.refl _)⟩
  | crashIn i inp k cut =>
    obtain ⟨-, hNext⟩ := Option.ite_none_right_eq_some.mp hNext
    obtain ⟨⟨c₁, m⟩, hBegin, rfl⟩ := Option.map_eq_some_iff.mp hNext
    have hNode := begin_node hBegin
    have hRounds : a.roundsOf (.crashIn i inp k cut) =
        (a.rounds.callback a.cluster c₁ i inp (m.out.take k)).restart i := by
      simp only [Polled.roundsOf, hBegin]
    rw [hRounds]
    exact ⟨h.begun hNode (counted_rebooted s i _ _ _),
      (h.callback hBegin hApart (take_sublist k m.out)).restart i⟩
  | crash | wipe =>
    obtain ⟨-, ⟨⟩⟩ := Option.ite_none_right_eq_some.mp hNext
    exact ⟨h.restarted _ _, h.lined.restart _⟩

theorem polled_init (s : Setup) : Polled.Ok s { cluster := s.init } where
  nodes := fun i => counted_rebooted s i {} (s.boot i {}) ∅
  lined := {
    lines := fun _ _ => rfl
    asked := fun _ _ _ hx => nomatch hx
    answered := fun _ _ _ hx => nomatch hx
    once := fun _ _ => Nat.zero_le _ }

/-- **PreVote quorum.** In a run in which no round starts while a PREVOTE or a consent of the
last one is under way, a node that raises its term by itself has read granted answers to the
PREVOTE of its current round from enough peers for a quorum. (A term that was adopted from a
frame leaves a follower.) -/
theorem prevote_quorum (hReach : Run.Reach (Polled.step s)
      (fun a e _ => RoundsApart a.cluster e) { cluster := s.init } a)
    (hBegin : a.cluster.begin i inp = some (c₁, m))
    (hRaised : (a.cluster.node i).term < m.term) (hOwn : m.role ≠ .follower) :
    (∀ p ∈ a.rounds.heard (a.cluster.node i) i inp, p ∈ (a.cluster.node i).cfg.peerIds) ∧
      (a.cluster.node i).cfg.quorum - 1 ≤ (a.rounds.heard (a.cluster.node i) i inp).card := by
  have h : a.Ok s := Run.Reach.invariant (P := fun a => a.Ok s)
    (fun _ _ _ hOk hStep hApart => polled_step hOk hStep hApart) (polled_init s) hReach
  refine ⟨fun p hp => (h.nodes i).cfg ▸ h.lined.heard_peers hBegin p hp, ?_⟩
  cases part_of_begin hBegin with
  | apart hStart hNode => exact absurd (hNode.2 hRaised) hOwn
  | asks hStart hSub hNode =>
    have hAlone := hNode.term hRaised
    omega
  | answers hChan hNode => exact absurd hNode.term hRaised.ne'
  | counts hChan hNode =>
    obtain ⟨hOpen, rfl, hQuorum⟩ := hNode.term hRaised hOwn
    have hCount := (h.nodes i).count hOpen
    rw [h.lined.heard_card hChan]
    omega

end Run

/-- Node 0 of three reads the consent of node 1 and campaigns. -/
theorem prevote_quorum_granted : ∃ a c₁ m, Run.Reach (Polled.step { nnodes := 3 })
      (fun a e _ => RoundsApart a.cluster e) { cluster := Setup.init { nnodes := 3 } } a ∧
      a.cluster.begin 0 (.frame 1) = some (c₁, m) ∧ (a.cluster.node 0).term < m.term ∧
      (a.cluster.node 0).cfg.quorum - 1 ≤
        (a.rounds.heard (a.cluster.node 0) 0 (.frame 1)).card := by
  obtain ⟨a, hReach, hEnd⟩ : ∃ a, Run.Reach (Polled.step { nnodes := 3 })
      (fun a e _ => RoundsApart a.cluster e) { cluster := Setup.init { nnodes := 3 } } a ∧
      ((a.cluster.begin 0 (.frame 1)).any fun x =>
        decide ((a.cluster.node 0).term < x.2.term ∧ x.2.role ≠ .follower)) = true :=
    Run.exists_reach (Event.link 0 1 ++ [.own 1 (.tick 1000), .own 0 .electionTimeout,
      .deliver 0 1]) (by decide +kernel)
  obtain ⟨⟨c₁, m⟩, hBegin, hUp⟩ := Option.any_eq_true _ _ |>.mp hEnd
  obtain ⟨hRaised, hOwn⟩ := of_decide_eq_true hUp
  exact ⟨a, c₁, m, hReach, hBegin, hRaised, (prevote_quorum hReach hBegin hRaised hOwn).2⟩

/-- Node 0 of three asks, node 1 consents, and the election timer of node 0 fires again before
the answer arrives. The answer then counts for the second round, whose PREVOTE nobody has
read. -/
theorem prevote_quorum_stale : ∃ a c₁ m, Run.Reach (Polled.step { nnodes := 3 })
      (fun _ _ _ => True) { cluster := Setup.init { nnodes := 3 } } a ∧
      a.cluster.begin 0 (.frame 1) = some (c₁, m) ∧ (a.cluster.node 0).term < m.term ∧
      m.role = .candidate ∧ a.rounds.round 0 = 2 ∧
      (a.rounds.heard (a.cluster.node 0) 0 (.frame 1)).card <
        (a.cluster.node 0).cfg.quorum - 1 := by
  obtain ⟨a, hReach, hEnd⟩ : ∃ a, Run.Reach (Polled.step { nnodes := 3 }) (fun _ _ _ => True)
      { cluster := Setup.init { nnodes := 3 } } a ∧
      ((a.cluster.begin 0 (.frame 1)).any fun x =>
        decide ((a.cluster.node 0).term < x.2.term ∧ x.2.role = .candidate ∧
          a.rounds.round 0 = 2 ∧ (a.rounds.heard (a.cluster.node 0) 0 (.frame 1)).card <
            (a.cluster.node 0).cfg.quorum - 1)) = true :=
    Run.exists_reach (Event.link 0 1 ++ [.own 1 (.tick 1000), .own 0 .electionTimeout,
      .deliver 0 1, .own 0 .electionTimeout]) (by decide +kernel)
  obtain ⟨⟨c₁, m⟩, hBegin, hUp⟩ := Option.any_eq_true _ _ |>.mp hEnd
  exact ⟨a, c₁, m, hReach, hBegin, of_decide_eq_true hUp⟩

end BeaverMQ
