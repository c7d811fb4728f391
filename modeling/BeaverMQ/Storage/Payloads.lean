import BeaverMQ.Consensus.Books

/-!
# BeaverMQ — payloads of log entries

The model of a node keeps the bytes of every log entry. The source frees them: `compact_payloads`
when every node has them on disk, the other operations with the entries themselves. Here each
entry says whether it still owns its payload, and two operations can fail: one that copies or
applies a freed payload, and a `log_compact_to` beyond `last_index`.

The first never happens. The second takes a follower whose APPEND cut committed entries: the index
it compacts to is bounded by `applied_index` alone, so the source frees the payloads behind
`last_index` again, and the length of its `memmove` wraps. A node that does so has ended, and
nothing is said about it until it is started again.
-/

namespace BeaverMQ

open List

/-! ## Payload pointers -/

abbrev Owned := List Bool

inductive Fault
  /-- A payload is read after it was freed. -/
  | freed
  /-- `log_compact_to` walks past the last entry. -/
  | beyond

/-- The payload of index `i` can be read: there is no such entry, it has no payload, or the
entry owns it. -/
def Owned.readable (o : Owned) (l : Log) (i : Nat) : Bool :=
  match logAt l i with
  | none => true
  | some e => e.len = 0 || o.getD (i - l.baseIndex - 1) false

def Owned.after (o : Owned) (b : Books) : Deed → Except Fault Owned
  | .append _ => .ok (o ++ [true])
  | .splice prev es =>
    .ok (o.take (prev - b.log.baseIndex) ++ replicate es.length true)
  | .advance k =>
    if (List.range' (b.log.appliedIndex + 1) (k - b.log.appliedIndex)).all (o.readable b.log) then
      .ok o
    else .error .freed
  | .free upto =>
    -- `compact_payloads` frees `(compacted_to, min upto commit_index]`
    .ok (o.mapIdx fun j own =>
      own && !decide (b.log.compactedTo < b.log.baseIndex + j + 1 ∧
        b.log.baseIndex + j + 1 ≤ min upto b.log.commitIndex))
  | .rebase upto =>
    -- `survivors = last - upto` is unsigned
    if upto ≤ b.log.lastIndex then .ok (o.drop (upto - b.log.baseIndex)) else .error .beyond
  | .install _ _ => .ok []
  | .sync => .ok o
  | .send ni =>
    if (List.range' ni (batchFrom b.log ni).length).all (o.readable b.log) then .ok o
    else .error .freed

/-- The payloads after a sequence of operations on the books, or the first fault. -/
def Owned.follow (o : Owned) (b : Books) : List Deed → Except Fault Owned
  | [] => .ok o
  | d :: ds =>
    match o.after b d, b.step d with
    | .ok o', some b' => o'.follow b' ds
    | .ok o', none => .ok o'
    | .error f, _ => .error f

theorem Owned.follow_append {b b₁ : Books} {o o₁ : Owned} {ds es : List Deed}
    (hBooks : Run.runList Books.step b ds = some b₁) (hOwned : o.follow b ds = .ok o₁) :
    o.follow b (ds ++ es) = o₁.follow b₁ es := by
  induction ds generalizing b o with
  | nil =>
    cases hBooks
    cases hOwned
    rfl
  | cons d ds ih =>
    obtain ⟨b', hStep, hRest⟩ := Option.bind_eq_some_iff.mp hBooks
    rw [Owned.follow, hStep] at hOwned
    rw [List.cons_append, Owned.follow, hStep]
    cases hAfter : o.after b d with
    | error f =>
      rw [hAfter] at hOwned
      cases hOwned
    | ok o' =>
      rw [hAfter] at hOwned
      exact ih hRest hOwned

/-! ## The invariant -/

/-- What lies above `compacted_to` is owned, and `compacted_to` is between the base and what has
been applied. -/
structure Owning (b : Books) (o : Owned) : Prop where
  length : o.length = b.log.entries.length
  base : b.log.baseIndex ≤ b.log.compactedTo
  compacted : b.log.compactedTo ≤ b.log.appliedIndex
  commit : b.log.commitIndex ≤ b.log.appliedIndex
  owned : ∀ j, j < o.length → b.log.compactedTo < b.log.baseIndex + j + 1 → o[j]? = some true

variable {b b' : Books} {o : Owned}

theorem Owning.readable (h : Owning b o) {i : Nat} (hi : b.log.compactedTo < i) :
    o.readable b.log i = true := by
  unfold Owned.readable
  cases hAt : logAt b.log i with
  | none => rfl
  | some e =>
    obtain ⟨hBase, hLast⟩ := logAt_le_last hAt
    unfold Log.lastIndex at hLast
    have hj : i - b.log.baseIndex - 1 < o.length := by
      rw [h.length]
      omega
    have hOwn := h.owned _ hj (by omega)
    simp only [getD_eq_getElem?_getD, hOwn, Option.getD_some, Bool.or_true]

theorem Owning.readable_all (h : Owning b o) {first count : Nat}
    (hFirst : b.log.compactedTo < first) :
    (List.range' first count).all (o.readable b.log) = true := by
  rw [all_eq_true]
  intro i hi
  have := mem_range'_1.mp hi
  exact h.readable (by omega)

/-- **No operation reads a freed payload, and what lies above `compacted_to` stays owned.** The
only fault is a compaction beyond the log. -/
theorem Owning.step (h : Owning b o) {d : Deed} (hStep : b.step d = some b') :
    (∃ o', o.after b d = .ok o' ∧ Owning b' o') ∨
      (o.after b d = .error .beyond ∧ b.log.lastIndex < b.log.appliedIndex) := by
  have hDone : ∀ o', o.after b d = .ok o' → Owning b' o' →
      (∃ o', o.after b d = .ok o' ∧ Owning b' o') ∨
        (o.after b d = .error .beyond ∧ b.log.lastIndex < b.log.appliedIndex) :=
    fun o' hAfter hNew => .inl ⟨o', hAfter, hNew⟩
  have hBase := h.base
  have hCompacted := h.compacted
  have hCommit := h.commit
  cases d with
  | append e =>
    refine hDone _ rfl ?_
    cases hStep
    refine ⟨by simp [h.length], hBase, hCompacted, hCommit, fun j hj hAbove => ?_⟩
    rw [length_append, length_singleton] at hj
    by_cases hOld : j < o.length
    · rw [getElem?_append_left hOld]
      exact h.owned j hOld hAbove
    · have hNew : j = o.length := by omega
      rw [hNew, getElem?_concat_length]
  | splice prev es =>
    refine hDone _ rfl ?_
    cases hStep
    refine ⟨?_, hBase, hCompacted, hCommit, fun j hj hAbove => ?_⟩
    · simp [spliceLog, h.length]
    · by_cases hOld : j < (o.take (prev - b.log.baseIndex)).length
      · rw [getElem?_append_left hOld]
        rw [length_take] at hOld
        rw [getElem?_take_of_lt (by omega)]
        exact h.owned j (by omega) hAbove
      · rw [getElem?_append_right (Nat.le_of_not_lt hOld), getElem?_replicate, if_pos]
        rw [length_append, length_replicate] at hj
        omega
  | advance k =>
    simp only [Books.step] at hStep
    split at hStep
    · rename_i hOk
      -- the indexes to apply are behind the applied ones, so above `compacted_to`
      refine hDone o (if_pos (h.readable_all (by omega))) ?_
      cases hStep
      exact ⟨h.length, hBase, hCompacted.trans (le_max_left _ _), le_max_right _ _, h.owned⟩
    · cases hStep
  | free upto =>
    refine hDone _ rfl ?_
    cases hStep
    refine ⟨by simp [h.length], hBase.trans (le_max_left _ _), ?_, hCommit, fun j hj hAbove => ?_⟩
    · show max b.log.compactedTo (min upto b.log.commitIndex) ≤ b.log.appliedIndex
      omega
    · rw [length_mapIdx] at hj
      have hAbove' : max b.log.compactedTo (min upto b.log.commitIndex) <
          b.log.baseIndex + j + 1 := hAbove
      rw [getElem?_mapIdx, h.owned j hj (by omega), Option.map_some, Bool.true_and,
        decide_eq_false (by omega)]
      rfl
  | rebase upto =>
    simp only [Books.step] at hStep
    split at hStep
    · rename_i hOk
      -- nothing but `applied_index` bounds the index that is compacted to
      by_cases hLast : upto ≤ b.log.lastIndex
      · refine hDone _ (if_pos hLast) ?_
        cases hStep
        refine ⟨by simp [rebaseLog, h.length], le_max_right _ _, max_le hCompacted hOk.2,
          hCommit, fun j hj hAbove => ?_⟩
        rw [length_drop] at hj
        have hAbove' : max b.log.compactedTo upto < upto + j + 1 := hAbove
        rw [getElem?_drop]
        exact h.owned _ (by omega) (by omega)
      · exact .inr ⟨if_neg hLast, (Nat.lt_of_not_le hLast).trans_le hOk.2⟩
    · cases hStep
  | install base bt =>
    refine hDone _ rfl ?_
    cases hStep
    exact ⟨rfl, le_rfl, le_rfl, le_rfl, fun j hj _ => absurd hj (Nat.not_lt_zero j)⟩
  | sync =>
    refine hDone _ rfl ?_
    cases hStep
    exact ⟨h.length, hBase, hCompacted, hCommit, h.owned⟩
  | send ni =>
    refine hDone o (if_pos ?_) ?_
    · by_cases hBelow : ni ≤ b.log.compactedTo
      · have hNone : batchFrom b.log ni = [] := if_pos hBelow
        rw [hNone]
        rfl
      · exact h.readable_all (Nat.lt_of_not_le hBelow)
    · cases hStep
      exact ⟨h.length, hBase, hCompacted, hCommit, h.owned⟩

/-- Along a sequence of operations only a compaction can fail. -/
theorem Owning.run (h : Owning b o) {ds : List Deed} (hRun : Run.runList Books.step b ds = some b') :
    (∃ o', o.follow b ds = .ok o' ∧ Owning b' o') ∨ o.follow b ds = .error .beyond := by
  induction ds generalizing b o with
  | nil =>
    cases hRun
    exact .inl ⟨o, rfl, h⟩
  | cons d ds ih =>
    obtain ⟨b₁, hStep, hRest⟩ := Option.bind_eq_some_iff.mp hRun
    rw [Owned.follow, hStep]
    rcases h.step hStep with ⟨o₁, hAfter, h₁⟩ | ⟨hBeyond, -⟩
    · rw [hAfter]
      exact ih h₁ hRest
    · rw [hBeyond]
      exact .inr rfl

/-! ## Committed entries that stay -/

/-- Operations that cut no committed entry can be followed to the end. -/
theorem Owning.run_inside (h : Owning b o) (hIn : b.log.Inside)
    (hRun : BooksRun ReachesCommit True b b') :
    ∃ ds o', Run.runList Books.step b ds = some b' ∧ o.follow b ds = .ok o' ∧
      Owning b' o' := by
  induction hRun with
  | refl => exact ⟨[], o, rfl, rfl, h⟩
  | @next b₁ b₂ d hBefore hStep _ ih =>
    obtain ⟨ds, o₁, hDeeds, hFollow, h₁⟩ := ih
    refine ⟨ds ++ [d], ?_⟩
    have hDeeds' : Run.runList Books.step b (ds ++ [d]) = some b₂ := by
      rw [Run.runList_append, hDeeds, Option.bind_some, Run.runList, hStep]
      rfl
    rcases h₁.step hStep with ⟨o₂, hAfter, h₂⟩ | ⟨-, hBeyond⟩
    · refine ⟨o₂, hDeeds', ?_, h₂⟩
      rw [Owned.follow_append hDeeds hFollow, Owned.follow, hAfter, hStep]
      rfl
    · obtain ⟨hCommit, hApplied⟩ := logInside_of_run hIn hBefore
      unfold Log.lastIndex at hBeyond hCommit
      omega

/-! ## Runs of the cluster -/

/-- What a step of the cluster does to the payloads of node `i`: a callback runs the operations it
consists of, a restart reads the log back from the file. -/
inductive PayloadStep (c : Cluster) (e : Event) (c' : Cluster) (i : Nat) :
    Except Fault Owned → Except Fault Owned → Prop
  | same {r : Except Fault Owned} (hNode : c'.node i = c.node i) (hUp : ¬ e.restarts i) :
      PayloadStep c e c' i r r
  | callback {inp : Input} {c₁ : Cluster} {m : Node} {ds : List Deed} {o : Owned}
      (hEvent : e = .step i inp) (hBegin : c.begin i inp = some (c₁, m))
      (hNode : c'.node i = m.settle)
      (hBooks : Run.runList Books.step (c.node i).books ds = some m.books) :
      PayloadStep c e c' i (.ok o) (o.follow (c.node i).books ds)
  | ended {f : Fault} (hUp : ¬ e.restarts i) : PayloadStep c e c' i (.error f) (.error f)
  | restart {r : Except Fault Owned} (hDown : e.restarts i) :
      PayloadStep c e c' i r (.ok (replicate (c'.node i).log.entries.length true))

/-- A run of the cluster with the payloads that each node owns at the end, or the fault that
ended it. -/
inductive PayloadRun (s : Setup) : Cluster → (Nat → Except Fault Owned) → Prop
  | init : PayloadRun s s.init fun _ => .ok []
  | step {c c' : Cluster} {e : Event} {o o' : Nat → Except Fault Owned} (hRun : PayloadRun s c o)
      (hStep : c.step s e = some c') (hOwned : ∀ i, PayloadStep c e c' i (o i) (o' i)) :
      PayloadRun s c' o'

/-- A node whose payloads are as they should be, or that has ended in a compaction. -/
def Accounted (b : Books) (r : Except Fault Owned) : Prop :=
  (∃ o, r = .ok o ∧ Owning b o) ∨ r = .error .beyond

theorem Owning.settle {n : Node} (h : Owning n.books o) : Owning n.settle.books o :=
  ⟨h.length, h.base, h.compacted, h.commit, h.owned⟩

theorem owning_rebooted (s : Setup) (i : Nat) (d : Disk) (old : Node) :
    Owning (s.rebooted i d old).books
      (replicate (s.rebooted i d old).log.entries.length true) := by
  have hMarks : (s.rebooted i d old).log.baseIndex = (s.rebooted i d old).log.compactedTo ∧
      (s.rebooted i d old).log.compactedTo = (s.rebooted i d old).log.appliedIndex ∧
      (s.rebooted i d old).log.commitIndex = 0 := by
    unfold Setup.rebooted Setup.boot persistLoad
    cases d.snap with
    | none | some => exact ⟨rfl, rfl, rfl⟩
  obtain ⟨hBase, hCompacted, hCommit⟩ := hMarks
  refine ⟨length_replicate, hBase.le, hCompacted.le, ?_, fun j hj _ => ?_⟩
  · exact hCommit.le.trans (Nat.zero_le _)
  · rw [length_replicate] at hj
    rw [getElem?_replicate, if_pos hj]

/-- **Along every run** the books say which payloads are owned. -/
theorem accounted_run {s : Setup} {c : Cluster} {o : Nat → Except Fault Owned}
    (hRun : PayloadRun s c o) (i : Nat) : Accounted (c.node i).books (o i) ∧ (c.node i).Office := by
  induction hRun with
  | init =>
    refine ⟨.inl ⟨[], rfl, rfl, le_rfl, le_rfl, le_rfl, fun j hj _ => ?_⟩, ?_⟩
    · exact absurd hj (Nat.not_lt_zero j)
    · exact ⟨(office_boot s i {}).role, (office_boot s i {}).dirty⟩
  | @step c c' e o o' _ hStep hOwned ih =>
    obtain ⟨hOld, hOffice⟩ := ih
    -- the model's node goes on whatever became of its payloads
    have hOffice' : (c'.node i).Office := by
      by_cases hDown : e.restarts i
      · obtain ⟨d, hNode⟩ := rebooted_of_step hStep hDown
        rw [hNode]
        exact ⟨(office_boot s i d).role, (office_boot s i d).dirty⟩
      rcases callback_of_step hStep hDown with hSame | ⟨inp, c₁, m, rfl, hBegin, hNode⟩
      · rw [hSame]
        exact hOffice
      · obtain ⟨hNew, -⟩ := books_begin (I := True) hBegin stepSplices_true (fun _ => trivial) hOffice
        rw [hNode]
        exact ⟨hNew.role, hNew.dirty⟩
    refine ⟨?_, hOffice'⟩
    have hMine := hOwned i
    generalize o i = r, o' i = r' at hMine hOld
    cases hMine with
    | same hNode hUp =>
      rw [hNode]
      exact hOld
    | callback hEvent hBegin hNode hBooks =>
      rcases hOld with ⟨o₁, hOk, hOwn⟩ | hBeyond
      · cases hOk
        rw [hNode]
        rcases hOwn.run hBooks with ⟨o₂, hFollow, hNew⟩ | hBeyond
        · exact .inl ⟨o₂, hFollow, hNew.settle⟩
        · exact .inr hBeyond
      · cases hBeyond
    | ended hUp =>
      rcases hOld with ⟨o₁, hOk, -⟩ | hBeyond
      · cases hOk
      · exact .inr hBeyond
    | restart hDown =>
      obtain ⟨d, hNode⟩ := rebooted_of_step hStep hDown
      rw [hNode]
      exact .inl ⟨_, rfl, owning_rebooted s i d _⟩

theorem payloadStep_of_step {s : Setup} {c c' : Cluster} {e : Event} {o : Nat → Except Fault Owned}
    (hRun : PayloadRun s c o) (hStep : c.step s e = some c') (i : Nat) :
    ∃ r, PayloadStep c e c' i (o i) r := by
  obtain ⟨hOld, hOffice⟩ := accounted_run hRun i
  by_cases hDown : e.restarts i
  · exact ⟨_, .restart hDown⟩
  rcases hOld with ⟨o₁, hOk, -⟩ | hBeyond
  · rw [hOk]
    rcases callback_of_step hStep hDown with hSame | ⟨inp, c₁, m, hEvent, hBegin, hNode⟩
    · exact ⟨_, .same hSame hDown⟩
    obtain ⟨-, hBooks⟩ := books_begin (I := True) hBegin stepSplices_true (fun _ => trivial) hOffice
    obtain ⟨ds, hDeeds⟩ := hBooks.exists_runList
    exact ⟨_, .callback hEvent hBegin hNode hDeeds⟩
  · rw [hBeyond]
    exact ⟨_, .ended hDown⟩

/-! ## Runs in which no committed entry is cut -/

/-- The APPEND that a step delivers, if it is accepted, leaves no commit index ahead of its log. -/
def commitStays (c : Cluster) : Event → Bool
  | .step i (.frame src) =>
    match c.chan src i with
    | .append t prev pt _ _ _ es :: _ =>
      decide (Accepts (c.node i) t prev pt →
        (c.node i).log.commitIndex ≤ (spliceLog (c.node i).log prev es).lastIndex)
    | _ => true
  | _ => true

theorem stepSplices_of_commitStays {c : Cluster} {e : Event} (hStays : commitStays c e = true)
    (i : Nat) : StepSplices ReachesCommit c i e := by
  unfold StepSplices
  split
  · rintro rfl _ f rest hChan
    cases f with
    | append t prev pt lc ci cong es =>
      simp only [commitStays, hChan, decide_eq_true_eq] at hStays
      exact hStays
    | _ => trivial
  · trivial

/-- A run as far as it was followed without a fault, with every commit index inside its log. -/
def Unfailing (s : Setup) (c : Cluster) : Prop :=
  (∃ o : Nat → Owned, PayloadRun s c fun i => .ok (o i)) ∧ ∀ i, (c.node i).Inside

theorem unfailing_step {s : Setup} {c c' : Cluster} {e : Event} (h : Unfailing s c)
    (hStep : c.step s e = some c') (hStays : commitStays c e = true) : Unfailing s c' := by
  obtain ⟨⟨o, hRun⟩, hIn⟩ := h
  have hSplices := stepSplices_of_commitStays hStays
  have hNode : ∀ i, ∃ p, PayloadStep c e c' i (.ok (o i)) (.ok p) := by
    intro i
    obtain ⟨hOld, hOffice⟩ := accounted_run hRun i
    by_cases hDown : e.restarts i
    · exact ⟨_, .restart hDown⟩
    rcases callback_of_step hStep hDown with hSame | ⟨inp, c₁, m, rfl, hBegin, hNode⟩
    · exact ⟨_, .same hSame hDown⟩
    rcases hOld with ⟨p, hOk, hOwn⟩ | hBeyond
    · cases hOk
      obtain ⟨-, hBooks⟩ := books_begin (I := True) hBegin (hSplices i) (fun _ => trivial) hOffice
      obtain ⟨ds, p', hDeeds, hFollow, -⟩ :=
        hOwn.run_inside ⟨(hIn i).commit, (hIn i).applied⟩ hBooks
      refine ⟨p', ?_⟩
      rw [← hFollow]
      exact .callback rfl hBegin hNode hDeeds
    · cases hBeyond
  choose o' hOwned using hNode
  exact ⟨⟨o', .step hRun hStep hOwned⟩, fun i => inside_step (hIn i) hStep (hSplices i)⟩

/-- **Payloads are there when they are read.** Every run of the cluster can be followed, and no
node of it ever reads a freed payload, whatever operations on its log come next. While a node has
not ended in a compaction beyond its log, `compacted_to` is between the base and what has been
applied, and every entry above it that has a payload still owns it. No node ends so in a run in
which no APPEND cuts a committed entry. -/
theorem payload_availability {s : Setup} {c : Cluster}
    (hReach : Run.Reach (Cluster.step s) (fun _ _ _ => True) s.init c) :
    (∃ o, PayloadRun s c o) ∧
    (∀ o, PayloadRun s c o → ∀ i, o i ≠ .error .freed ∧ ∀ p, o i = .ok p →
      (c.node i).log.baseIndex ≤ (c.node i).log.compactedTo ∧
      (c.node i).log.compactedTo ≤ max (c.node i).log.appliedIndex (c.node i).log.baseIndex ∧
      (∀ idx e, (c.node i).log.compactedTo < idx → logAt (c.node i).log idx = some e →
        0 < e.len → p[idx - (c.node i).log.baseIndex - 1]? = some true) ∧
      ∀ ds b, Run.runList Books.step (c.node i).books ds = some b →
        p.follow (c.node i).books ds ≠ .error .freed) ∧
    (Run.Reach (Cluster.step s) (fun c e _ => commitStays c e = true) s.init c →
      ∃ o : Nat → Owned, PayloadRun s c fun i => .ok (o i)) := by
  refine ⟨?_, fun o hRun i => ?_, fun hStays => ?_⟩
  · refine Run.Reach.invariant (P := fun c => ∃ o, PayloadRun s c o) ?_ ⟨_, .init⟩ hReach
    rintro c e c' ⟨o, hRun⟩ hStep -
    choose o' hOwned using fun i => payloadStep_of_step hRun hStep i
    exact ⟨o', .step hRun hStep hOwned⟩
  · rcases (accounted_run hRun i).1 with ⟨p, hOk, hOwn⟩ | hBeyond
    · rw [hOk]
      refine ⟨fun hFreed => ?_, ?_⟩
      · cases hFreed
      rintro _ ⟨⟩
      refine ⟨hOwn.base, hOwn.compacted.trans (le_max_left _ _), ?_, ?_⟩
      · intro idx e hAbove hAt _
        obtain ⟨hBase, hLast⟩ := logAt_le_last hAt
        unfold Log.lastIndex at hLast
        have hLength : p.length = (c.node i).log.entries.length := hOwn.length
        refine hOwn.owned _ (by omega) ?_
        show (c.node i).log.compactedTo < (c.node i).log.baseIndex + _ + 1
        omega
      · intro ds b hDeeds hFreed
        rcases hOwn.run hDeeds with ⟨p', hFollow, -⟩ | hBeyond
        · rw [hFollow] at hFreed
          cases hFreed
        · rw [hBeyond] at hFreed
          cases hFreed
    · rw [hBeyond]
      refine ⟨fun hFreed => ?_, fun p hOk => ?_⟩
      · cases hFreed
      · cases hOk
  · refine (Run.Reach.invariant (P := Unfailing s) ?_ ⟨⟨_, .init⟩, fun i => ?_⟩ hStays).1
    · exact fun _ _ _ h hStep hGood => unfailing_step h hStep hGood
    · exact (inside_boot s i {}).settle

/-- A leader has freed what both nodes have on disk, and owns the entry behind it. -/
theorem payload_availability_pair : ∃ c,
    Run.Reach (Cluster.step { nnodes := 2 }) (fun c e _ => commitStays c e = true)
      ({ nnodes := 2 } : Setup).init c ∧
    (c.node 0).log.compactedTo = 1 ∧ (c.node 0).log.lastIndex = 2 ∧
    ∃ o : Nat → Owned, (PayloadRun { nnodes := 2 } c fun i => .ok (o i)) ∧
      (o 0)[1]? = some true := by
  obtain ⟨c, hStays, hCompacted, hBase, hLast, hEntry⟩ : ∃ c,
      Run.Reach (Cluster.step { nnodes := 2 }) (fun c e _ => commitStays c e = true)
        ({ nnodes := 2 } : Setup).init c ∧
      (c.node 0).log.compactedTo = 1 ∧ (c.node 0).log.baseIndex = 0 ∧
      (c.node 0).log.lastIndex = 2 ∧
      ((logAt (c.node 0).log 2).any fun e => 0 < e.len) = true :=
    Run.exists_reach (Event.link 0 1 ++ Event.elect 0 1 ++ Event.agree 0 1 ++ [.own 0 .drain])
      (by decide +kernel)
  obtain ⟨-, hAll, hWhole⟩ := payload_availability (hStays.mono fun _ _ _ _ => trivial)
  obtain ⟨o, hOwned⟩ := hWhole hStays
  obtain ⟨-, -, hOwn, -⟩ := (hAll _ hOwned 0).2 (o 0) rfl
  refine ⟨c, hStays, hCompacted, hLast, o, hOwned, ?_⟩
  cases hAt : logAt (c.node 0).log 2 with
  | none =>
    rw [hAt] at hEntry
    cases hEntry
  | some e =>
    rw [hAt] at hEntry
    have hMine := hOwn 2 e (by omega) hAt (of_decide_eq_true hEntry)
    rwa [hBase] at hMine

end BeaverMQ
