import BeaverMQ.Consensus.Moves

/-!
# BeaverMQ — the commit index and the end of the log

`commit_index` moves in three places: a leader counts a quorum, a follower follows its
leader, and a snapshot boundary is installed. The first is bounded by the log because the
entry at the new index has to carry the leader's term, and `log_term_at` is 0 behind the
end; so a node that counts has to be past term 0. `Office` carries that along.
-/

namespace BeaverMQ

variable {n n₁ n₂ : Node}

/-! ## Office -/

/-- A node that leads or stands, or still has a leader's appends to flush, has left term 0. -/
structure Node.Office (n : Node) : Prop where
  role : n.role ≠ .follower → 0 < n.term
  dirty : n.logDirty = true → 0 < n.term

/-- Nobody leads or counts in term 0; an accepted APPEND is one with `S`, and a boundary is
installed only if `I`. -/
def officeGate (S : Log → Nat → List Entry → Prop) (I : Prop) : TurnGate where
  lead := fun m => 0 < m.term
  splice := fun l _ prev es => S l prev es
  install := fun _ _ _ => I
  office := fun t => 0 < t

variable {S : Log → Nat → List Entry → Prop} {I : Prop}

theorem Node.Office.move (h : n.Office) (hMove : Move (officeGate S I).toGate n n₁) :
    n₁.Office := by
  cases hMove with
  | quiet hKept =>
    have hRole : n₁.role = n.role := congrArg Tracked.role hKept
    have hTerm : n₁.term = n.term := congrArg Tracked.term hKept
    have hDirty : n₁.logDirty = n.logDirty := congrArg Tracked.dirty hKept
    refine ⟨fun h' => ?_, fun h' => ?_⟩
    · rw [hTerm]
      exact h.role (hRole ▸ h')
    · rw [hTerm]
      exact h.dirty (hDirty ▸ h')
  | fail =>
    rw [storageWriteFailed_eq]
    refine ⟨fun hRole => h.role fun hDown => hRole ?_, h.dirty⟩
    show n.role.demote = .follower
    rw [hDown]
    rfl
  | adopt t hNew => exact ⟨fun hRole => absurd rfl hRole, fun hDirty => (h.dirty hDirty).trans hNew⟩
  | campaign => exact ⟨fun _ => Nat.succ_pos _, fun _ => Nat.succ_pos _⟩
  | follow => exact ⟨fun hRole => absurd rfl hRole, h.dirty⟩
  | lead hGate => exact ⟨fun _ => hGate, h.dirty⟩
  | flag dirty hLead => exact ⟨h.role, fun hDirty => h.role (by rw [hLead hDirty]; decide)⟩
  | _ => exact ⟨h.role, h.dirty⟩

theorem Node.Office.turns (h : n.Office) (hTurns : Turns (officeGate S I) n n₁) : n₁.Office := by
  have hMoves := hTurns.moves
  clear hTurns
  induction hMoves with
  | refl => exact h
  | next _ hMove ih => exact ih.move hMove

def FrameSplices (S : Log → Nat → List Entry → Prop) (n : Node) : Frame → Prop
  | .append t prev pt _ _ _ es => Accepts n t prev pt → S n.log prev es
  | _ => True

def FrameInstalls (n : Node) : Frame → Prop
  | .snapBegin t base _ _ => Installs n t base
  | _ => False

theorem campaignOk_office (m : Node) : CampaignOk (officeGate S I).toGate m := by
  refine fun _ => ⟨?_, trivial⟩
  show 0 < (campaigning m).term
  unfold campaigning
  rw [persistMeta_term]
  exact Nat.succ_pos _

theorem turns_frame_office (p : Nat) (f : Frame) (h : n.Office) (hSplice : FrameSplices S n f)
    (hInstall : FrameInstalls n f → I) : Turns (officeGate S I) n (clDispatch n p f) := by
  have hLead : n.role = .leader → 0 < n.term := fun hRole => h.role (by rw [hRole]; decide)
  refine turns_clDispatch p f ?_ ?_
  · cases f with
    | prevoteResp t g => exact fun _ m _ => campaignOk_office m
    | voteReq t li lt => exact fun _ => trivial
    | voteResp t g => exact fun hElects => ⟨h.role (by rw [hElects.1]; decide), trivial⟩
    | append t prev pt lc ci cong es => exact ⟨trivial, hSplice⟩
    | forward t ops => exact fun _ => ⟨trivial, fun _ _ => trivial⟩
    | snapBegin t base bt topo => exact hInstall
    | _ => trivial
  · cases f with
    | appendResp t ok hint dur => exact hLead
    | prevoteResp t g => exact ⟨trivial, trivial⟩
    | _ => trivial

theorem turns_callback_office (cb : Callback) (h : n.Office) :
    Turns (officeGate S I) n (cb.run n) := by
  have hLead : n.role = .leader → 0 < n.term := fun hRole => h.role (by rw [hRole]; decide)
  refine turns_callback cb ?_ ?_
  · cases cb with
    | electionTimeout => exact fun _ m _ => campaignOk_office m
    | drain => exact fun _ => ⟨trivial, fun _ _ => trivial⟩
    | _ => trivial
  · cases cb with
    | electionTimeout => exact ⟨trivial, trivial⟩
    | fsyncTimer | drain => exact hLead
    | readDone => exact h.dirty
    | _ => trivial

/-! ## Inside the log -/

/-- The commit and applied index are inside the log, and a node that leads, or still has a
leader's appends to flush, has left term 0. -/
structure Node.Inside (n : Node) : Prop where
  commit : n.log.commitIndex ≤ n.log.lastIndex
  applied : n.log.appliedIndex ≤ max n.log.commitIndex n.log.baseIndex
  role : n.role ≠ .follower → 0 < n.term
  dirty : n.logDirty = true → 0 < n.term

theorem Node.Inside.settle (h : n.Inside) : n.settle.Inside :=
  ⟨h.commit, h.applied, h.role, h.dirty⟩

def Log.Inside (l : Log) : Prop :=
  l.commitIndex ≤ l.lastIndex ∧ l.appliedIndex ≤ max l.commitIndex l.baseIndex

def ReachesCommit (l : Log) (prev : Nat) (es : List Entry) : Prop :=
  l.commitIndex ≤ (spliceLog l prev es).lastIndex

theorem le_last_of_termAt {l : Log} {k : Nat} (hTerm : 0 < logTermAt l k) : k ≤ l.lastIndex := by
  unfold logTermAt at hTerm
  split at hTerm
  · rename_i hBase
    unfold Log.lastIndex
    omega
  split at hTerm
  · rename_i e hAt
    exact (logAt_le_last hAt).2
  · exact absurd hTerm (lt_irrefl 0)

/-- The entry that a leader counted carries a term past 0. -/
theorem le_last_of_counted {k : Nat}
    (hIn : k ≤ n.log.lastIndex ∨ logTermAt n.log k = n.term ∧ 0 < n.term) :
    k ≤ n.log.lastIndex := by
  rcases hIn with hLast | ⟨hTerm, hOffice⟩
  · exact hLast
  · exact le_last_of_termAt (hTerm.symm ▸ hOffice)

theorem inside_boot (s : Setup) (i : Nat) (d : Disk) : (s.boot i d).Inside := by
  unfold Setup.boot persistLoad
  cases d.snap with
  | none => exact ⟨Nat.zero_le _, Nat.zero_le _, fun hRole => absurd rfl hRole, nofun⟩
  | some snap =>
    exact ⟨Nat.zero_le _, le_max_right _ _, fun hRole => absurd rfl hRole, nofun⟩

theorem inside_rebooted (s : Setup) (i : Nat) (d : Disk) (old : Node) :
    (s.rebooted i d old).Inside :=
  have h := inside_boot s i d
  ⟨h.commit, h.applied, h.role, h.dirty⟩

/-! ## What an APPEND does to the log -/

/-- The node of an accepted APPEND when its entries are in the log and on their way to the
file. -/
def appended (n : Node) (prev : Nat) (es : List Entry) : Node :=
  persistWriteFlush (es.foldl logAppend (logTruncateFrom n (prev + 1)))

theorem appended_log (prev : Nat) (es : List Entry) :
    (appended n prev es).log = spliceLog n.log prev es := by
  refine (flushed_persistWriteFlush _).log.trans ?_
  obtain ⟨m, persist, -, hEq⟩ := replaceTail_eq n prev es
  rw [hEq]

/-- The node of an accepted APPEND when it has followed the leader's commit index. -/
def followed (n : Node) (leaderCommit : Nat) : Node :=
  let n := { n with leaderCommitSeen := leaderCommit }
  if n.log.commitIndex < min leaderCommit n.log.lastIndex then
    applyCommitted { n with log := { n.log with commitIndex := min leaderCommit n.log.lastIndex } }
  else n

theorem acceptAppend_eq (p prev lc ci : Nat) (es : List Entry) :
    acceptAppend n p prev lc ci es =
      if (appended n prev es).storageFailed then
        sendAppendResp (appended n prev es) p false (appended n prev es).log.lastIndex
      else
        sendAppendResp { compactPayloads (followed (appended n prev es) lc) ci with
          compactHint := ci } p true (appended n prev es).log.lastIndex := rfl

theorem followed_log (lc : Nat) :
    ∃ c a, (followed n lc).log = { n.log with commitIndex := c, appliedIndex := a } := by
  unfold followed
  dsimp only
  split
  · exact ⟨_, _, congrArg Tracked.log applyCommitted_kept.1⟩
  · exact ⟨_, _, rfl⟩

theorem acceptAppend_log (p prev lc ci : Nat) (es : List Entry) :
    ∃ c a f, (acceptAppend n p prev lc ci es).log =
      { spliceLog n.log prev es with commitIndex := c, appliedIndex := a, compactedTo := f } := by
  have hLog := appended_log (n := n) prev es
  rw [acceptAppend_eq]
  split
  · exact ⟨_, _, _, hLog⟩
  obtain ⟨c, a, hFollow⟩ := followed_log (n := appended n prev es) lc
  refine ⟨c, a, max (spliceLog n.log prev es).compactedTo (min ci c), ?_⟩
  simp only [sendAppendResp, clSend, Node.emit, compactPayloads]
  rw [hFollow, hLog]

theorem onAppend_cases (p t prev pt lc ci : Nat) (cong : Bool) (es : List Entry) :
    (¬ Accepts n t prev pt ∧ ∃ m hint,
        onAppend n p t prev pt lc ci cong es = sendAppendResp m p false hint) ∨
      Accepts n t prev pt ∧ ∃ m, m.log = n.log ∧ m.role = .follower ∧
        onAppend n p t prev pt lc ci cong es = acceptAppend m p prev lc ci es := by
  have hObs := observeTerm_fields n t
  unfold onAppend
  generalize (observeTerm n t).1 = m at hObs
  have hTerm := hObs.term
  dsimp only
  split
  · refine .inl ⟨fun hOk => ?_, m, _, rfl⟩
    have := hOk.1
    omega
  rename_i hCurrent
  split
  · rename_i hShort
    refine .inl ⟨fun hOk => ?_, _, _, rfl⟩
    rw [hObs.log] at hShort
    exact absurd hOk.2.1 (Nat.not_le_of_lt hShort)
  rename_i hLong
  rw [hObs.log] at hLong
  split
  · rename_i hDiffer
    refine .inl ⟨fun hOk => ?_, _, _, rfl⟩
    rw [hObs.log] at hDiffer
    exact hDiffer.2 (hOk.2.2 hDiffer.1)
  rename_i hMatch
  rw [hObs.log] at hMatch
  refine .inr ⟨⟨by omega, Nat.le_of_not_lt hLong, fun hPos => ?_⟩
    , { m with role := .follower, leaderId := some p, inPrevote := false
               lastLeaderContact := m.now, throttle := cong }, hObs.log, rfl, rfl⟩
  by_contra hNe
  exact hMatch ⟨hPos, hNe⟩

end BeaverMQ
