import BeaverMQ.Consensus.Books

/-!
# BeaverMQ — where an APPEND puts its entries, and what it takes away

A follower that accepts an APPEND cuts its log behind `prevIndex`, but never inside the compacted
prefix, and appends what the frame carries. It looks neither at the index an entry has on the
wire nor at what stands behind the cut. So the entries land at `spliceFrom`, and what stood there
before is gone unless the frame brings it back.
-/

namespace BeaverMQ

open List

variable {n : Node} {l : Log} {prev : Nat} {es : List Entry}

/-! ## The log after the surgery -/

theorem logAt_splice (hPrev : prev ≤ l.lastIndex) (i : Nat) :
    logAt (spliceLog l prev es) i =
      if i < spliceFrom l prev then logAt l i else es[i - spliceFrom l prev]? := by
  have hKept : (l.entries.take (prev - l.baseIndex)).length = prev - l.baseIndex := by
    rw [length_take]
    unfold Log.lastIndex at hPrev
    omega
  unfold logAt spliceLog spliceFrom
  dsimp only
  by_cases hBase : i ≤ l.baseIndex
  · rw [if_pos hBase, if_pos (by omega), if_pos hBase]
  rw [if_neg hBase]
  by_cases hCut : i < max prev l.baseIndex + 1
  · rw [if_pos hCut, if_neg hBase, getElem?_append_left (by omega)]
    exact getElem?_take_of_lt (by omega)
  rw [if_neg hCut, getElem?_append_right (by omega), hKept]
  congr 1
  omega

theorem spliceLog_last (hPrev : prev ≤ l.lastIndex) :
    (spliceLog l prev es).lastIndex = max prev l.baseIndex + es.length := by
  unfold spliceLog Log.lastIndex at *
  simp only [length_append, length_take]
  omega

theorem onAppend_log {t pt : Nat} (p lc ci : Nat) (cong : Bool) (es : List Entry)
    (hOk : Accepts n t prev pt) :
    (onAppend n p t prev pt lc ci cong es).log.baseIndex = n.log.baseIndex ∧
      (onAppend n p t prev pt lc ci cong es).log.lastIndex =
        max prev n.log.baseIndex + es.length ∧
      ∀ i, logAt (onAppend n p t prev pt lc ci cong es).log i =
        if i < spliceFrom n.log prev then logAt n.log i else es[i - spliceFrom n.log prev]? := by
  rcases onAppend_cases (n := n) p t prev pt lc ci cong es with
    ⟨hNot, -⟩ | ⟨-, m, hSame, -, hEq⟩
  · exact absurd hOk hNot
  · obtain ⟨c, a, f, hLog⟩ := acceptAppend_log (n := m) p prev lc ci es
    rw [hSame] at hLog
    rw [hEq, hLog]
    exact ⟨rfl, spliceLog_last hOk.2.1, fun i => logAt_splice hOk.2.1 i⟩

/-! ## Where the entries land -/

/-- The last thing the handler did was to confirm the APPEND to `p`. -/
def Confirms (n : Node) (p : Nat) : Prop :=
  ∃ t hint dur, n.out.getLast? = some (.send p (.appendResp t true hint dur))

theorem not_confirms_reject (p q hint : Nat) : ¬ Confirms (sendAppendResp n q false hint) p := by
  rintro ⟨t, hint', dur, hLast⟩
  simp [sendAppendResp, clSend, Node.emit] at hLast

theorem accepts_of_confirms {p t pt lc ci : Nat} {cong : Bool}
    (hYes : Confirms (onAppend n p t prev pt lc ci cong es) p) : Accepts n t prev pt := by
  rcases onAppend_cases (n := n) p t prev pt lc ci cong es with
    ⟨-, m, hint, hEq⟩ | ⟨hOk, -⟩
  · rw [hEq] at hYes
    exact absurd hYes (not_confirms_reject p p hint)
  · exact hOk

/-- The log ends where the frame ends, and each entry of the frame that is not below the
compaction base is at its index. -/
def Placed (l : Log) (prev : Nat) (es : List Entry) : Prop :=
  l.lastIndex = prev + es.length ∧
    ∀ j e, es[j]? = some e → l.baseIndex < prev + (j + 1) → logAt l (prev + (j + 1)) = some e

/-- A confirmed APPEND is placed where its indexes say exactly when it does not start below
the compaction base. -/
theorem append_placement_iff (n : Node) (p t prev pt lc ci : Nat) (cong : Bool) (es : List Entry)
    (hYes : Confirms (onAppend n p t prev pt lc ci cong es) p) :
    Placed (onAppend n p t prev pt lc ci cong es).log prev es ↔ n.log.baseIndex ≤ prev := by
  obtain ⟨hBase, hLast, hAt⟩ := onAppend_log p lc ci cong es (accepts_of_confirms hYes)
  constructor
  · intro hPlaced
    have hEnd := hPlaced.1
    omega
  · intro hAbove
    refine ⟨by omega, fun j e hj _ => ?_⟩
    have hFrom : spliceFrom n.log prev = prev + 1 := by
      unfold spliceFrom
      omega
    rw [hAt, hFrom, if_neg (by omega), show prev + (j + 1) - (prev + 1) = j by omega]
    exact hj

def followerWith (l : Log) : Node :=
  { cfg := { selfId := 1, nnodes := 3 }, term := 1, log := l }

/-- One more entry for a follower that has one. -/
theorem append_placement_next :
    Confirms (onAppend (followerWith { entries := [⟨1, 0, []⟩] }) 0 1 1 1 0 0 false
      [⟨1, 1, [7]⟩]) 0 ∧
    (Placed (onAppend (followerWith { entries := [⟨1, 0, []⟩] }) 0 1 1 1 0 0 false
      [⟨1, 1, [7]⟩]).log 1 [⟨1, 1, [7]⟩] ↔ 0 ≤ 1) := by
  have hYes : Confirms (onAppend (followerWith { entries := [⟨1, 0, []⟩] }) 0 1 1 1 0 0 false
      [⟨1, 1, [7]⟩]) 0 := ⟨1, 2, 0, by decide +kernel⟩
  exact ⟨hYes, append_placement_iff _ 0 1 1 1 0 0 false _ hYes⟩

/-- A follower whose log starts behind index 2 confirms an APPEND of the entries 1 and 2 and
has them at 3 and 4. -/
theorem append_misplaced :
    Confirms (onAppend (followerWith { baseIndex := 2, baseTerm := 1 }) 0 1 0 0 0 0 false
      [⟨1, 0, []⟩, ⟨1, 1, [7]⟩]) 0 ∧
    (onAppend (followerWith { baseIndex := 2, baseTerm := 1 }) 0 1 0 0 0 0 false
      [⟨1, 0, []⟩, ⟨1, 1, [7]⟩]).log.lastIndex = 4 ∧
    logAt (onAppend (followerWith { baseIndex := 2, baseTerm := 1 }) 0 1 0 0 0 0 false
      [⟨1, 0, []⟩, ⟨1, 1, [7]⟩]).log 3 = some ⟨1, 0, []⟩ ∧
    ¬ Placed (onAppend (followerWith { baseIndex := 2, baseTerm := 1 }) 0 1 0 0 0 0 false
      [⟨1, 0, []⟩, ⟨1, 1, [7]⟩]).log 0 [⟨1, 0, []⟩, ⟨1, 1, [7]⟩] := by
  refine ⟨⟨1, 4, 0, by decide +kernel⟩, by decide +kernel, by decide +kernel, fun hPlaced => ?_⟩
  have hEnd := hPlaced.1
  revert hEnd
  decide +kernel

/-! ## What an APPEND takes away -/

/-- The entry the frame carries for index `i`. -/
def covering (prev : Nat) (es : List Entry) (i : Nat) : Option Entry :=
  if prev < i then es[i - prev - 1]? else none

/-- Some entry the frame covers has another term than the frame's. -/
def Conflicts (l : Log) (prev : Nat) (es : List Entry) : Prop :=
  ∃ i e e', logAt l i = some e ∧ covering prev es i = some e' ∧ e.term ≠ e'.term

/-- The entry `e` at `i` has no reason to go: the frame covers it with the same term, or it is
behind a frame that conflicts with nothing, or it is committed. -/
def MustStay (l : Log) (prev : Nat) (es : List Entry) (i : Nat) (e : Entry) : Prop :=
  logAt l i = some e ∧
    ((∃ e', covering prev es i = some e' ∧ e'.term = e.term) ∨
      (¬ Conflicts l prev es ∧ prev + es.length < i) ∨ i ≤ l.commitIndex)

/-- Whatever stands behind the cut and has to stay is written back by the frame. -/
def AppendKeeps (l : Log) (prev : Nat) (es : List Entry) : Prop :=
  ∀ i e, MustStay l prev es i e → spliceFrom l prev ≤ i → es[i - spliceFrom l prev]? = some e

theorem keeps_iff {p t pt lc ci : Nat} {cong : Bool} (hOk : Accepts n t prev pt) :
    (∀ i e, MustStay n.log prev es i e →
        logAt (onAppend n p t prev pt lc ci cong es).log i = some e) ↔
      AppendKeeps n.log prev es := by
  obtain ⟨-, -, hAt⟩ := onAppend_log p lc ci cong es hOk
  constructor
  · intro hStay i e hMust hBehind
    have hHeld := hStay i e hMust
    rwa [hAt, if_neg (Nat.not_lt.mpr hBehind)] at hHeld
  · intro hKeeps i e hMust
    rw [hAt]
    split
    · exact hMust.1
    · rename_i hBehind
      exact hKeeps i e hMust (Nat.le_of_not_lt hBehind)

theorem AppendKeeps.commit_le (hKeeps : AppendKeeps l prev es) (hPrev : prev ≤ l.lastIndex)
    (hCommit : l.commitIndex ≤ l.lastIndex) : l.commitIndex ≤ (spliceLog l prev es).lastIndex := by
  rw [spliceLog_last hPrev]
  by_cases hCut : l.commitIndex < spliceFrom l prev
  · unfold spliceFrom at hCut
    omega
  -- the committed entry with the highest index is behind the cut, so it is in the frame
  have hBase : l.baseIndex < l.commitIndex := by
    unfold spliceFrom at hCut
    omega
  obtain ⟨e, he⟩ := exists_logAt hBase hCommit
  have hBack := hKeeps _ e ⟨he, .inr (.inr le_rfl)⟩ (Nat.le_of_not_lt hCut)
  have hLen := (List.getElem?_eq_some_iff.mp hBack).1
  unfold spliceFrom at hLen hCut
  omega

/-! ## Runs -/

/-- The APPEND that a step delivers, if it is accepted, writes back what has to stay. -/
def AppendsKeep (c : Cluster) : Event → Prop
  | .step i (.frame src) =>
    match c.chan src i with
    | .append t prev pt _ _ _ es :: _ =>
      ((c.node i).peer src).linkState = .up → Accepts (c.node i) t prev pt →
        AppendKeeps (c.node i).log prev es
    | _ => True
  | _ => True

theorem stepSplices_of_appendsKeep {c : Cluster} {e : Event} {i : Nat} (hIn : (c.node i).Inside)
    (hKeep : AppendsKeep c e) : StepSplices ReachesCommit c i e := by
  unfold StepSplices
  split
  · rintro rfl hUp f rest hChan
    cases f with
    | append t prev pt lc ci cong es =>
      intro hOk
      simp only [AppendsKeep, hChan] at hKeep
      exact (hKeep hUp hOk).commit_le hOk.2.1 hIn.commit
    | _ => trivial
  · trivial

/-- An accepted APPEND removes nothing it must not exactly when it writes back what stands
behind its cut; and in every run in which all of them do, no commit index is ever ahead of
its log. -/
theorem append_keeps_run (s : Setup) :
    (∀ (n : Node) (p t prev pt lc ci : Nat) (cong : Bool) (es : List Entry),
      Accepts n t prev pt →
        ((∀ i e, MustStay n.log prev es i e →
            logAt (onAppend n p t prev pt lc ci cong es).log i = some e) ↔
          AppendKeeps n.log prev es)) ∧
    ∀ c : Cluster, Run.Reach (Cluster.step s) (fun c e _ => AppendsKeep c e) s.init c →
      ∀ i, (c.node i).log.commitIndex ≤ (c.node i).log.lastIndex := by
  refine ⟨fun n p t prev pt lc ci cong es hOk => keeps_iff hOk, fun c hReach i => ?_⟩
  have hIn : ∀ i, (c.node i).Inside := by
    refine Run.Reach.invariant (P := fun c => ∀ i, (c.node i).Inside) ?_ ?_ hReach
    · exact fun _ _ _ hIn hStep hKeep i =>
        inside_step (hIn i) hStep (stepSplices_of_appendsKeep (hIn i) hKeep)
    · exact fun i => (inside_boot s i {}).settle
  exact (hIn i).commit

theorem appendKeeps_of_noTail (hTail : droppedTail l prev = []) : AppendKeeps l prev es := by
  intro i e hMust hBehind
  have hLast := (logAt_le_last hMust.1).2
  have hEnd := (droppedTail_eq_nil_iff l prev).mp hTail
  omega

def plainAppend (c : Cluster) : Event → Bool
  | .step i (.frame src) =>
    match c.chan src i with
    | .append _ prev _ _ _ _ _ :: _ => decide (droppedTail (c.node i).log prev = [])
    | _ => true
  | _ => true

theorem appendsKeep_of_plain {c : Cluster} {e : Event} (hPlain : plainAppend c e = true) :
    AppendsKeep c e := by
  unfold plainAppend at hPlain
  unfold AppendsKeep
  split
  · rename_i i src
    dsimp only at hPlain
    split
    · rename_i hChan
      rw [hChan] at hPlain
      exact fun _ _ => appendKeeps_of_noTail (of_decide_eq_true hPlain)
    · trivial
  · trivial

/-- Two nodes elect a leader and commit a proposal on both. -/
theorem append_keeps_commit : ∃ c,
    Run.Reach (Cluster.step { nnodes := 2 }) (fun c e _ => AppendsKeep c e)
      ({ nnodes := 2 } : Setup).init c ∧
    0 < (c.node 1).log.commitIndex ∧ (c.node 1).log.commitIndex ≤ (c.node 1).log.lastIndex ∧
    (Accepts (followerWith { entries := [⟨1, 0, []⟩] }) 1 1 1 ∧
      ((∀ i e, MustStay { entries := [⟨1, 0, []⟩] } 1 [⟨1, 1, [7]⟩] i e →
          logAt (onAppend (followerWith { entries := [⟨1, 0, []⟩] }) 0 1 1 1 0 0 false
            [⟨1, 1, [7]⟩]).log i = some e) ↔
        AppendKeeps { entries := [⟨1, 0, []⟩] } 1 [⟨1, 1, [7]⟩])) := by
  have hRun : (Run.runChecked (Cluster.step { nnodes := 2 }) (fun c e _ => plainAppend c e)
      ({ nnodes := 2 } : Setup).init (Event.link 0 1 ++ Event.elect 0 1 ++ Event.agree 0 1 ++
        [.own 0 .heartbeat, .deliver 0 1])).any
      (fun c => decide (0 < (c.node 1).log.commitIndex)) = true := by decide +kernel
  obtain ⟨c, hReach, hEnd⟩ :=
    Run.exists_of_runChecked (fun _ _ _ => appendsKeep_of_plain) _ hRun
  have hOk : Accepts (followerWith { entries := [⟨1, 0, []⟩] }) 1 1 1 := by decide
  exact ⟨c, hReach, hEnd, (append_keeps_run _).2 c hReach 1, hOk,
    (append_keeps_run { nnodes := 2 }).1 _ 0 1 1 1 0 0 false _ hOk⟩

/-- A follower with two committed entries gets the first of them once more. The frame agrees
with its log, and the second entry is gone: the commit index is ahead of the log. -/
theorem append_cuts_committed :
    Accepts (followerWith { entries := [⟨1, 0, []⟩, ⟨1, 1, [7]⟩], commitIndex := 2 }) 1 0 0 ∧
    MustStay { entries := [⟨1, 0, []⟩, ⟨1, 1, [7]⟩], commitIndex := 2 } 0 [⟨1, 0, []⟩] 2
      ⟨1, 1, [7]⟩ ∧
    logAt (onAppend (followerWith
      { entries := [⟨1, 0, []⟩, ⟨1, 1, [7]⟩], commitIndex := 2 }) 0 1 0 0 2 0 false
      [⟨1, 0, []⟩]).log 2 = none ∧
    (onAppend (followerWith
      { entries := [⟨1, 0, []⟩, ⟨1, 1, [7]⟩], commitIndex := 2 }) 0 1 0 0 2 0 false
      [⟨1, 0, []⟩]).log.lastIndex <
    (onAppend (followerWith
      { entries := [⟨1, 0, []⟩, ⟨1, 1, [7]⟩], commitIndex := 2 }) 0 1 0 0 2 0 false
      [⟨1, 0, []⟩]).log.commitIndex := by
  refine ⟨by decide, ⟨by decide, .inr (.inr (by decide))⟩, by decide +kernel, by decide +kernel⟩

end BeaverMQ
