import BeaverMQ.Consensus.Books
import BeaverMQ.Lib.Quorum

/-!
# BeaverMQ — the commit rule and the application of the log

`advance_commit` sorts the progress values of the nodes and takes the quorum-th. It is the
largest index that a quorum has reached, and the commit index moves there if the entry is of the
leader's own term. `apply_committed` then applies index after index; neither the leader's nor the
follower's path ever skips one or applies one twice.
-/

namespace BeaverMQ

open List

variable {n : Node}

/-! ## The exchange sort -/

theorem perm_exchangePass (x : Nat) (ys : List Nat) :
    ((exchangePass x ys).1 :: (exchangePass x ys).2).Perm (x :: ys) := by
  induction ys generalizing x with
  | nil => exact .refl _
  | cons y ys ih =>
    unfold exchangePass
    split
    · exact (List.Perm.swap _ _ _).trans ((ih y).cons x)
    · exact (List.Perm.swap _ _ _).trans (((ih x).cons y).trans (.swap _ _ _))

theorem le_exchangePass (x : Nat) (ys : List Nat) :
    x ≤ (exchangePass x ys).1 ∧ ∀ y ∈ (exchangePass x ys).2, y ≤ (exchangePass x ys).1 := by
  induction ys generalizing x with
  | nil => exact ⟨le_rfl, fun y hy => nomatch hy⟩
  | cons y ys ih =>
    unfold exchangePass
    split
    · rename_i hLt
      obtain ⟨hHead, hRest⟩ := ih y
      refine ⟨hLt.le.trans hHead, fun z hz => ?_⟩
      rcases mem_cons.mp hz with rfl | hz
      · exact hLt.le.trans hHead
      · exact hRest z hz
    rename_i hGe
    obtain ⟨hHead, hRest⟩ := ih x
    refine ⟨hHead, fun z hz => ?_⟩
    rcases mem_cons.mp hz with rfl | hz
    · exact (Nat.le_of_not_lt hGe).trans hHead
    · exact hRest z hz

theorem exchangeSort_sorts {k : Nat} {v : List Nat} (hLength : v.length ≤ k) :
    (exchangeSort k v).Perm v ∧ (exchangeSort k v).Pairwise (· ≥ ·) := by
  induction k generalizing v with
  | zero =>
    obtain rfl := length_eq_zero_iff.mp (Nat.le_zero.mp hLength)
    exact ⟨.refl _, .nil⟩
  | succ k ih =>
    cases v with
    | nil => exact ⟨.refl _, .nil⟩
    | cons x xs =>
      have hPerm := perm_exchangePass x xs
      have hMax := (le_exchangePass x xs).2
      unfold exchangeSort
      generalize exchangePass x xs = res at hPerm hMax
      obtain ⟨m, rest⟩ := res
      have hRest : rest.length ≤ k := by
        have hEq := hPerm.length_eq
        simp only [length_cons] at hEq hLength
        omega
      obtain ⟨hSub, hSorted⟩ := ih hRest
      refine ⟨(hSub.cons m).trans hPerm, pairwise_cons.mpr ⟨fun y hy => ?_, hSorted⟩⟩
      exact hMax y (hSub.mem_iff.mp hy)

theorem commitVotes_length (hSelf : n.cfg.selfId < n.cfg.nnodes) :
    (commitVotes n).length = n.cfg.nnodes := by
  have hPeers : n.cfg.peerIds.length = n.cfg.nnodes - 1 := by
    have hErase : (List.range n.cfg.nnodes).erase n.cfg.selfId = n.cfg.peerIds := by
      rw [nodup_range.erase_eq_filter]
      exact filter_congr fun p _ => (decide_not (p := p = n.cfg.selfId)).symm
    rw [← hErase, length_erase_of_mem (mem_range.mpr hSelf), length_range]
  unfold commitVotes
  split <;> (rw [length_cons, length_map, hPeers]; omega)

/-- **The quorum-th value is the largest index that a quorum has reached.** -/
theorem isGreatest_quorumIndex (hSelf : n.cfg.selfId < n.cfg.nnodes) :
    IsGreatest {N | n.cfg.quorum ≤ (commitVotes n).countP (N ≤ ·)} (quorumIndex n) := by
  have hLength := commitVotes_length hSelf
  obtain ⟨hPerm, hSorted⟩ := exchangeSort_sorts (v := commitVotes n) (k := n.cfg.nnodes) hLength.le
  have hQuorum : 0 < n.cfg.quorum ∧ n.cfg.quorum ≤ n.cfg.nnodes := by
    unfold Config.quorum
    omega
  have hGreatest := Quorum.isGreatest_reached hSorted hQuorum.1
    (by rw [hPerm.length_eq, hLength]; exact hQuorum.2)
  simp only [hPerm.countP_eq] at hGreatest
  exact hGreatest

theorem advanceCommit_commit :
    (advanceCommit n).log.commitIndex =
      if n.log.commitIndex < quorumIndex n ∧ logTermAt n.log (quorumIndex n) = n.term then
        quorumIndex n
      else n.log.commitIndex := by
  unfold advanceCommit compactPayloads
  dsimp only
  split
  · rw [resolveFwdAcks_log]
    rw [show (applyCommitted _).log = _ from congrArg Tracked.log applyCommitted_kept.1]
  · rfl

/-! ## Every index is applied once -/

/-- Everything up to the commit index has been applied, each index once and in order. -/
structure Books.Exact (b : Books) : Prop where
  base : b.log.baseIndex ≤ b.log.appliedIndex
  applied : b.log.appliedIndex = b.log.commitIndex
  history : b.history.map Prod.fst = List.range' 1 b.log.appliedIndex

theorem entriesAt_indexes {l : Log} {first count : Nat} (hBase : l.baseIndex < first)
    (hLast : first + count ≤ l.lastIndex + 1) :
    (entriesAt l first count).map Prod.fst = List.range' first count := by
  induction count generalizing first with
  | zero => rfl
  | succ count ih =>
    obtain ⟨e, hAt⟩ := exists_logAt (l := l) hBase (by omega)
    rw [entriesAt_succ, hAt, map_append, ih (by omega) (by omega), range'_succ]
    rfl

/-- **An operation other than an install applies each index once.** -/
theorem exact_step {b b' : Books} {d : Deed} (h : b.Exact) (hStep : b.step d = some b')
    (hPlain : b.Admits (fun _ _ _ => True) False d) : b'.Exact := by
  cases d with
  | install base bt => exact hPlain.elim
  | advance k =>
    simp only [Books.step] at hStep
    split at hStep <;> cases hStep
    rename_i hOk
    have hEq := h.applied
    have hMax : max b.log.appliedIndex k = b.log.appliedIndex + (k - b.log.appliedIndex) := by
      omega
    refine ⟨h.base.trans (le_max_left _ _), ?_, ?_⟩
    · show max b.log.appliedIndex k = k
      omega
    · have hBase := h.base
      show (b.history ++ _).map Prod.fst = List.range' 1 (max b.log.appliedIndex k)
      rw [map_append, h.history, entriesAt_indexes (by omega) (by omega), hMax,
        Nat.add_comm b.log.appliedIndex 1]
      exact range'_append_1
  | rebase upto =>
    simp only [Books.step] at hStep
    split at hStep <;> cases hStep
    rename_i hOk
    exact ⟨hOk.2, h.applied, h.history⟩
  | _ =>
    cases hStep
    exact ⟨h.base, h.applied, h.history⟩

theorem exact_run {b b' : Books} (h : b.Exact) (hRun : BooksRun (fun _ _ _ => True) False b b') :
    b'.Exact :=
  Run.Reach.invariant (P := Books.Exact) (fun _ _ _ hb hStep hPlain => exact_step hb hStep hPlain) h
    hRun

/-! ## Runs -/

/-- Node `i` is in office only past term 0, and has applied each index up to its commit index
once. -/
structure OnceApplied (n : Node) : Prop where
  office : n.Office
  books : n.books.Exact

theorem OnceApplied.settle (h : OnceApplied n) : OnceApplied n.settle :=
  ⟨⟨h.office.role, h.office.dirty⟩, ⟨h.books.base, h.books.applied, h.books.history⟩⟩

theorem onceApplied_boot (s : Setup) (i : Nat) : OnceApplied (s.boot i {}) :=
  ⟨office_boot s i {}, ⟨le_rfl, rfl, rfl⟩⟩

theorem onceApplied_step {s : Setup} {c c' : Cluster} {e : Event} {i : Nat}
    (h : OnceApplied (c.node i)) (hStep : c.step s e = some c') (hUp : ¬ e.restarts i)
    (hPlain : ¬ StepInstalls c i e) : OnceApplied (c'.node i) := by
  rcases callback_of_step hStep hUp with hSame | ⟨inp, c₁, m, rfl, hBegin, hNode⟩
  · rw [hSame]
    exact h
  obtain ⟨hOffice, hRun⟩ := books_begin (I := False) hBegin stepSplices_true hPlain h.office
  rw [hNode]
  exact (OnceApplied.mk hOffice (exact_run h.books hRun)).settle

/-- **The commit rule.** In every leader state `advance_commit` moves the commit index to the
largest index that a quorum has reached, if that is higher and its entry of the current term; and
while a node is neither restarted nor given a snapshot, each index up to its commit index has
been applied exactly once. -/
theorem commit_rule :
    (∀ n : Node, n.role = .leader → n.cfg.selfId < n.cfg.nnodes → n.cfg.nnodes ≤ 5 →
      ∃ N, IsGreatest {N | n.cfg.quorum ≤ (commitVotes n).countP (N ≤ ·)} N ∧
        (advanceCommit n).log.commitIndex =
          if n.log.commitIndex < N ∧ logTermAt n.log N = n.term then N
          else n.log.commitIndex) ∧
    ∀ (s : Setup) (i : Nat) (c : Cluster),
      Run.Reach (Cluster.step s) (fun c e _ => ¬ e.restarts i ∧ ¬ StepInstalls c i e) s.init c →
        ((c.node i).role = .leader → 0 < (c.node i).term) ∧
          (c.node i).history.map Prod.fst = List.range' 1 (c.node i).log.commitIndex := by
  refine ⟨fun n _ hSelf _ => ⟨quorumIndex n, isGreatest_quorumIndex hSelf, advanceCommit_commit⟩, ?_⟩
  intro s i c hReach
  have hOnce : OnceApplied (c.node i) := by
    refine Run.Reach.invariant (P := fun c => OnceApplied (c.node i)) ?_ ?_ hReach
    · exact fun _ _ _ h hStep hGood => onceApplied_step h hStep hGood.1 hGood.2
    · exact (onceApplied_boot s i).settle
  refine ⟨fun hLead => hOnce.office.role (by rw [hLead]; decide), ?_⟩
  have hApplied : (c.node i).log.appliedIndex = (c.node i).log.commitIndex := hOnce.books.applied
  rw [← hApplied]
  exact hOnce.books.history

/-- A test for steps that restart no node and deliver no SNAP_BEGIN. -/
def calmEvent (c : Cluster) : Event → Bool
  | .step i (.frame src) =>
    match c.chan src i with
    | .snapBegin _ _ _ _ :: _ => false
    | _ => true
  | .step _ _ => true
  | _ => false

theorem plain_of_calmEvent {c : Cluster} {e : Event} (i : Nat) (hCalm : calmEvent c e = true) :
    ¬ e.restarts i ∧ ¬ StepInstalls c i e := by
  cases e with
  | step j inp =>
    cases inp with
    | frame src =>
      refine ⟨id, ?_⟩
      rintro ⟨rfl, -, f, rest, hChan, hInstalls⟩
      simp only [calmEvent, hChan] at hCalm
      cases f <;> first | exact hInstalls | cases hCalm
    | own | accept => exact ⟨id, id⟩
  | _ => cases hCalm

/-- Two nodes elect a leader, which commits its first entries. -/
theorem commit_rule_pair : ∃ c,
    Run.Reach (Cluster.step { nnodes := 2 })
      (fun c e _ => ¬ e.restarts 0 ∧ ¬ StepInstalls c 0 e) ({ nnodes := 2 } : Setup).init c ∧
    (c.node 0).role = .leader ∧ 0 < (c.node 0).log.commitIndex ∧
    (c.node 0).history.map Prod.fst = List.range' 1 (c.node 0).log.commitIndex ∧
    ∃ N, IsGreatest {N | (c.node 0).cfg.quorum ≤ (commitVotes (c.node 0)).countP (N ≤ ·)} N := by
  have hRun : (Run.runChecked (Cluster.step { nnodes := 2 }) (fun c e _ => calmEvent c e)
      ({ nnodes := 2 } : Setup).init (Event.link 0 1 ++ Event.elect 0 1 ++ Event.agree 0 1)).any
      (fun c => decide ((c.node 0).role = .leader ∧ 0 < (c.node 0).log.commitIndex ∧
        (c.node 0).cfg.selfId < (c.node 0).cfg.nnodes ∧ (c.node 0).cfg.nnodes ≤ 5)) = true := by
    decide +kernel
  obtain ⟨c, hReach, hLead, hCommit, hSelf, hNodes⟩ :=
    Run.exists_of_runChecked (fun _ _ _ => plain_of_calmEvent 0) _ hRun
  obtain ⟨N, hGreatest, -⟩ := commit_rule.1 (c.node 0) hLead hSelf hNodes
  exact ⟨c, hReach, hLead, hCommit, (commit_rule.2 _ 0 c hReach).2, N, hGreatest⟩

end BeaverMQ
