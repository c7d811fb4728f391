import BeaverMQ.Consensus.Bounds

/-!
# BeaverMQ — the books of a node

The log of a node, the record of what it applied and the batches it sent, as a machine of its
own. Its steps are the operations of the source on `cluster_log_t`; raising the commit index and
applying up to it is one step, because `apply_committed` runs at once wherever the commit index is
stored. A step is refused where the source could not have made it.
-/

namespace BeaverMQ

variable {n n₁ n₂ : Node}

/-! ## The machine -/

/-- The batches of the APPEND frames among the effects, each with its `prevIndex`. -/
def sentBatches (out : List Effect) : List (Nat × List Entry) :=
  out.filterMap fun
    | .send _ (.append _ prev _ _ _ _ es) => some (prev, es)
    | _ => none

structure Books where
  log : Log
  history : List (Nat × Entry)
  sent : List (Nat × List Entry)

def Node.books (n : Node) : Books := ⟨n.log, n.history, sentBatches n.out⟩

inductive Deed
  /-- `log_append` by a leader. -/
  | append (e : Entry)
  /-- `log_truncate_from` and `log_append` of an accepted APPEND. -/
  | splice (prev : Nat) (es : List Entry)
  /-- The commit index is stored, and `apply_committed`. -/
  | advance (k : Nat)
  /-- `compact_payloads`. -/
  | free (upto : Nat)
  /-- `log_compact_to`, which never asks where the log ends: beyond `last_index` the step here
  empties the log, and what the source does is said by `Owned.after`. -/
  | rebase (upto : Nat)
  /-- `CL_FRAME_SNAP_BEGIN`, installed. -/
  | install (base bt : Nat)
  /-- The durable index is stored. -/
  | sync
  /-- The copy loop of `send_append`. -/
  | send (ni : Nat)

def batchFrom (l : Log) (ni : Nat) : List Entry :=
  if ni ≤ l.compactedTo then [] else takeBatch (entriesFrom l ni) 0 clAppendFixed

def Books.step (b : Books) : Deed → Option Books
  | .append e => some { b with log := { b.log with entries := b.log.entries ++ [e] } }
  | .splice prev es => some { b with log := spliceLog b.log prev es }
  | .advance k =>
    if b.log.commitIndex < k ∧ k ≤ b.log.lastIndex then
      some { b with
        log := { b.log with commitIndex := k, appliedIndex := max b.log.appliedIndex k }
        history := b.history ++
          entriesAt b.log (b.log.appliedIndex + 1) (k - b.log.appliedIndex) }
    else none
  | .free upto =>
    some { b with log := { b.log with
      compactedTo := max b.log.compactedTo (min upto b.log.commitIndex) } }
  | .rebase upto =>
    if b.log.baseIndex < upto ∧ upto ≤ b.log.appliedIndex then
      some { b with log := rebaseLog b.log upto }
    else none
  | .install base bt => some { b with log := installLog base bt }
  | .sync => some { b with log := { b.log with durableIndex := b.log.lastIndex } }
  | .send ni => some { b with sent := b.sent ++ [(ni - 1, batchFrom b.log ni)] }

/-- An accepted APPEND is one with `S`, and a boundary is installed only if `I`. -/
def Books.Admits (S : Log → Nat → List Entry → Prop) (I : Prop) (b : Books) : Deed → Prop
  | .splice prev es => S b.log prev es
  | .install _ _ => I
  | _ => True

abbrev BooksRun (S : Log → Nat → List Entry → Prop) (I : Prop) : Books → Books → Prop :=
  Run.Reach Books.step fun b d _ => b.Admits S I d

/-! ## Turns are operations on the books -/

/-- From `n` to `n'` by operations on the books, with office kept. -/
def Acts (S : Log → Nat → List Entry → Prop) (I : Prop) (n n' : Node) : Prop :=
  n.Office → n'.Office ∧ BooksRun S I n.books n'.books

variable {S : Log → Nat → List Entry → Prop} {I : Prop}

theorem sentBatches_concat (out : List Effect) (e : Effect) :
    sentBatches (out ++ [e]) = sentBatches out ++ sentBatches [e] := List.filterMap_append

theorem books_emit {e : Effect} (hPlain : sentBatches [e] = []) : (n.emit e).books = n.books := by
  unfold Node.books Node.emit
  rw [sentBatches_concat, hPlain, List.append_nil]

theorem sentBatches_of_plain {e : Effect} (hPlain : e.named = false) : sentBatches [e] = [] := by
  unfold sentBatches
  rw [List.filterMap_cons_none, List.filterMap_nil]
  split
  · cases hPlain
  · rfl

theorem books_of_tracked (hKept : n₁.tracked = n.tracked) : n₁.books = n.books := by
  have hLog : n₁.log = n.log := congrArg Tracked.log hKept
  have hHist : n₁.history = n.history := congrArg Tracked.history hKept
  have hOut : n₁.out = n.out := congrArg Tracked.out hKept
  unfold Node.books
  rw [hLog, hHist, hOut]

theorem booksRun_of_move (hMove : Move (officeGate S I).toGate n n₁)
    (hCommit : n₁.log.commitIndex = n.log.commitIndex)
    (hApplied : n₁.log.appliedIndex = n.log.appliedIndex) : BooksRun S I n.books n₁.books := by
  have hSame : n₁.books = n.books → BooksRun S I n.books n₁.books := by
    intro hBooks
    rw [hBooks]
    exact .refl
  have hOne : ∀ d : Deed, n.books.step d = some n₁.books → n.books.Admits S I d →
      BooksRun S I n.books n₁.books := fun d hStep hInstall => .next .refl hStep hInstall
  cases hMove with
  | quiet hKept => exact hSame (books_of_tracked hKept)
  | emit e hPlain => exact hSame (books_emit (sentBatches_of_plain hPlain))
  | fail =>
    refine hSame ?_
    rw [storageWriteFailed_eq]
    rfl
  | grant | ack => exact hSame (books_emit rfl)
  | sendAppend p ni cong hPos =>
    refine hOne (.send ni) ?_ trivial
    simp only [Books.step, Node.books, clSend, Node.emit]
    rw [sentBatches_concat]
    rfl
  | append e hRole hTerm hGate => exact hOne (.append e) rfl trivial
  | splice prev es hGate => exact hOne (.splice prev es) rfl hGate
  | install base bt hGate => exact hOne (.install base bt) rfl hGate
  | rebase upto hNew hUpto => exact hOne (.rebase upto) (if_pos ⟨hNew, hUpto⟩) trivial
  | sync => exact hOne .sync rfl trivial
  | commit k hNew => exact absurd hCommit hNew.ne'
  | apply hNew => exact absurd hApplied (Nat.succ_ne_self _)
  | free upto => exact hOne (.free upto) rfl trivial
  | _ => exact hSame rfl

theorem books_advance {k : Nat} (hNew : n.log.commitIndex < k) (hLast : k ≤ n.log.lastIndex) :
    n.books.step (.advance k) =
      some (applyCommitted { n with log := { n.log with commitIndex := k } }).books := by
  have hKept := (applyCommitted_kept
    (n := { n with log := { n.log with commitIndex := k } })).1
  have hOut := congrArg Tracked.out hKept
  have hLog := congrArg Tracked.log hKept
  have hHistory := congrArg Tracked.history hKept
  simp only [Node.tracked] at hOut hLog hHistory
  unfold Node.books
  rw [hOut, hLog, hHistory]
  exact if_pos ⟨hNew, hLast⟩

theorem acts_of_turns (hTurns : Turns (officeGate S I) n n₁) : Acts S I n n₁ := by
  intro h
  refine ⟨h.turns hTurns, ?_⟩
  induction hTurns with
  | refl => exact .refl
  | @next m m₁ hBefore hTurn ih =>
    refine ih.trans ?_
    have hMoved : ∀ {m'}, Move (officeGate S I).toGate m m' → m'.desk.commit = m.desk.commit →
        m'.desk.applied = m.desk.applied → BooksRun S I m.books m'.books :=
      fun hMove hCommit hApplied => booksRun_of_move hMove hCommit hApplied
    cases hTurn with
    | move hMove hDesk => exact hMoved hMove (by rw [hDesk]) (by rw [hDesk])
    | poll hMove _ hDesk => exact hMoved hMove (by rw [hDesk]) (by rw [hDesk])
    | advance k hNew hIn =>
      exact .next .refl (books_advance hNew (le_last_of_counted hIn)) trivial
    | install base bt hGate => exact .next (e := .install base bt) .refl rfl hGate
    | _ => exact .refl

/-- **A timer or a request of the data plane.** -/
theorem books_callback (cb : Callback) : Acts S I n (cb.run n) :=
  fun h => acts_of_turns (turns_callback_office cb h) h

/-- **A received frame.** -/
theorem books_clDispatch (p : Nat) (f : Frame) (hS : FrameSplices S n f)
    (hI : FrameInstalls n f → I) : Acts S I n (clDispatch n p f) :=
  fun h => acts_of_turns (turns_frame_office p f h hS hI) h

/-! ## Inside the log -/

/-- **An operation that cuts no committed entry keeps the commit index inside the log.** -/
theorem logInside_of_deed {b b' : Books} (h : b.log.Inside) {d : Deed} (hAdmits : b.Admits ReachesCommit I d)
    (hStep : b.step d = some b') : b'.log.Inside := by
  cases d with
  | append e =>
    cases hStep
    refine ⟨h.1.trans ?_, h.2⟩
    unfold Log.lastIndex
    simp only [List.length_append]
    omega
  | splice prev es =>
    cases hStep
    exact ⟨hAdmits, h.2⟩
  | advance k =>
    simp only [Books.step] at hStep
    split at hStep <;> cases hStep
    rename_i hOk
    have hOld := h.2
    refine ⟨hOk.2, ?_⟩
    dsimp only
    omega
  | rebase upto =>
    simp only [Books.step] at hStep
    split at hStep <;> cases hStep
    obtain ⟨hIn, hOld⟩ := h
    unfold Log.lastIndex at hIn
    unfold Log.Inside Log.lastIndex rebaseLog
    simp only [List.length_drop]
    omega
  | install base bt =>
    cases hStep
    exact ⟨le_rfl, le_max_left _ _⟩
  | _ =>
    cases hStep
    exact h

theorem logInside_of_run {b b' : Books} (h : b.log.Inside) (hRun : BooksRun ReachesCommit I b b') :
    b'.log.Inside := by
  induction hRun with
  | refl => exact h
  | next _ hStep hAdmits ih => exact logInside_of_deed ih hAdmits hStep

/-! ## Steps of the cluster -/

def StepInstalls (c : Cluster) (i : Nat) : Event → Prop
  | .step j (.frame src) =>
    j = i ∧ ((c.node i).peer src).linkState = .up ∧
      ∃ f rest, c.chan src i = f :: rest ∧ FrameInstalls (c.node i) f
  | _ => False

/-- The APPEND that a step delivers to node `i`, if it is accepted, is one with `S`. -/
def StepSplices (S : Log → Nat → List Entry → Prop) (c : Cluster) (i : Nat) : Event → Prop
  | .step j (.frame src) =>
    j = i → ((c.node i).peer src).linkState = .up →
      ∀ f rest, c.chan src i = f :: rest → FrameSplices S (c.node i) f
  | _ => True

theorem frameSplices_true {f : Frame} : FrameSplices (fun _ _ _ => True) n f := by
  cases f <;> first | trivial | exact fun _ => trivial

theorem stepSplices_true {c : Cluster} {i : Nat} {e : Event} :
    StepSplices (fun _ _ _ => True) c i e := by
  unfold StepSplices
  split
  · exact fun _ _ f rest _ => frameSplices_true
  · trivial

theorem books_begin {c c' : Cluster} {i : Nat} {inp : Input} {m : Node}
    (hBegin : c.begin i inp = some (c', m)) (hS : StepSplices S c i (.step i inp))
    (hI : StepInstalls c i (.step i inp) → I) : Acts S I (c.node i) m := by
  cases begins hBegin with
  | own => exact books_callback _
  | lost => exact fun h => ⟨h, .refl⟩
  | dropped => exact fun h => ⟨⟨h.role, h.dirty⟩, .refl⟩
  | @dispatched inp src f _ _ _ _ _ hTaken =>
    cases hTaken with
    | shake hShake =>
      refine books_clDispatch src f ?_ fun hInstalls => ?_
      · cases f <;> trivial
      · cases f <;> first | exact hInstalls.elim | cases hShake
    | next hChan hUp =>
      exact books_clDispatch src f (hS rfl hUp f _ hChan) fun hInstalls =>
        hI ⟨rfl, hUp, f, _, hChan, hInstalls⟩

theorem callback_of_step {s : Setup} {c c' : Cluster} {e : Event} {i : Nat}
    (hStep : c.step s e = some c') (hUp : ¬ e.restarts i) :
    c'.node i = c.node i ∨ ∃ inp c₁ m, e = .step i inp ∧ c.begin i inp = some (c₁, m) ∧
      c'.node i = m.settle := by
  have hNode := nodeStep_of_step hStep i
  generalize c'.node i = n, c'.disk i = d at hNode
  cases hNode with
  | same => exact .inl rfl
  | callback hBegin => exact .inr ⟨_, _, _, rfl, hBegin, rfl⟩
  | restart d hDown => exact absurd hDown hUp

theorem rebooted_of_step {s : Setup} {c c' : Cluster} {e : Event} {i : Nat}
    (hStep : c.step s e = some c') (hDown : e.restarts i) :
    ∃ d, c'.node i = s.rebooted i d (c.node i) := by
  have hNode := nodeStep_of_step hStep i
  generalize c'.node i = n, c'.disk i = d at hNode
  cases hNode with
  | same hUp => exact absurd hDown hUp
  | callback => exact hDown.elim
  | restart d => exact ⟨d, rfl⟩

/-- A step that cuts no committed entry leaves every commit index inside its log. -/
theorem inside_step {s : Setup} {c c' : Cluster} {e : Event} {i : Nat} (hIn : (c.node i).Inside)
    (hStep : c.step s e = some c') (hS : StepSplices ReachesCommit c i e) : (c'.node i).Inside := by
  by_cases hDown : e.restarts i
  · obtain ⟨d, hNode⟩ := rebooted_of_step hStep hDown
    rw [hNode]
    exact inside_rebooted s i d _
  rcases callback_of_step hStep hDown with hSame | ⟨inp, c₁, m, rfl, hBegin, hNode⟩
  · rw [hSame]
    exact hIn
  · obtain ⟨hOffice, hRun⟩ := books_begin (I := True) hBegin hS (fun _ => trivial)
      ⟨hIn.role, hIn.dirty⟩
    have hLog : m.log.Inside := logInside_of_run ⟨hIn.commit, hIn.applied⟩ hRun
    rw [hNode]
    exact ⟨hLog.1, hLog.2, hOffice.role, hOffice.dirty⟩

theorem office_boot (s : Setup) (i : Nat) (d : Disk) : (s.boot i d).Office :=
  ⟨(inside_boot s i d).role, (inside_boot s i d).dirty⟩

end BeaverMQ
