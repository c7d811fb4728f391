import BeaverMQ.Model.Confirms

/-!
# BeaverMQ — what a confirmed publisher is told

On the local path a publish that every matching queue refuses is answered with Basic.Nack. On
the replicated path the answer follows the status of the proposal and nothing else: an op that
commits is acknowledged even if applying it left the message nowhere.
-/

namespace BeaverMQ

open List

namespace Confirms

variable {s : Setup} {a a' : State} {id : Nat}

/-! ## Queues that take every message -/

/-- The queue under `key` is registered and either drops its head when it is full or has no
limit. -/
def admits (b : Broker) (key : Bytes) : Bool :=
  (b.queues.get key).any fun q => q.overflow = .dropHead ||
    (q.maxLength = 0 && b.defMaxLength = 0 && q.maxBytes = 0 && b.defMaxBytes = 0)

theorem not_refuses_of_admits {b : Broker} {key : Bytes} (h : admits b key = true) (m : Msg) :
    refusesAt b m key = false := by
  unfold admits at h
  unfold refusesAt
  cases hGet : b.queues.get key with
  | none => simp [hGet] at h
  | some q =>
    rw [hGet, Option.any_some, Bool.or_eq_true, decide_eq_true_eq] at h
    rw [Option.all_some, Option.isNone_eq_false_iff]
    unfold queueEnqueue
    rcases h with hDrop | hUnlimited
    · rw [hDrop]
      split <;> rfl
    · rw [if_neg (by simp_all [queueWouldOverflow])]
      rfl

/-- On node `i` an op is applied whose publisher still waits: then no queue matches the message,
or one that takes every message. -/
def State.lenientAt (a : State) (i : Nat) (b : Broker) (idx : Nat) (e : Entry) : Bool :=
  a.placed.all fun x =>
    match a.published[x.1]? with
    | some (j, p) =>
      if x.2 = idx ∧ j = i ∧ e.op = ClOp.publish.code ∧ publishOp p = some e.payload ∧
          a.waits.any (fun w => w.id = x.1) then
        let targets := routeTargets b p.vhost (p.message idx)
        targets.isEmpty || targets.any (admits b)
      else true
    | none => true

def State.lenient (a : State) (i : Nat) : Applied → List (Nat × Entry) → Bool
  | _, [] => true
  | s, (idx, e) :: rest =>
    a.lenientAt i s.broker idx e && a.lenient i (applyOp s idx e.op e.payload) rest

/-- The condition on a step. A poll finds COMMITTED only after the op was applied on the node;
and as long as the publisher waits, applying its op there finds a matching queue that takes every
message, or none that matches. -/
def Lenient (a : State) (e : Step) (a' : State) : Bool :=
  match e with
  | .poll k =>
    (a.waits[k]?).all fun w =>
      statusOf (a.cluster.node w.node) w.op.seq ≠ .committed || (a.resultOf w.id).isSome
  | .cluster (.step i _) =>
    a.lenient i (a.cluster.node i).applied
      ((a'.cluster.node i).history.drop (a.cluster.node i).history.length)
  | _ => true

/-! ## Results -/

/-- What a result that is there stays: later results of the same publish are behind it. -/
theorem resultOf_append (a : State) (id : Nat) (more : List (Nat × Outcome)) :
    ({ a with results := a.results ++ more } : State).resultOf id =
      (a.resultOf id).or ((more.find? fun x => x.1 = id).map Prod.snd) := by
  unfold State.resultOf
  rw [find?_append]
  cases a.results.find? fun x => x.1 = id with
  | none | some x => rfl

theorem not_refused_of_lenient {i : Nat} {entries : List (Nat × Entry)} {t : Applied}
    (h : a.lenient i t entries = true) {x : Nat × Outcome} (hMem : x ∈ a.resultsOf i t entries)
    (hWaits : ∃ w ∈ a.waits, w.id = x.1) : x.2 ≠ .refused := by
  induction entries generalizing t with
  | nil => cases hMem
  | cons entry rest ih =>
    obtain ⟨hHere, hRest⟩ := Bool.and_eq_true_iff.mp h
    rcases mem_append.mp hMem with hNow | hLater
    · obtain ⟨y, hPlaced, hSome⟩ := mem_filterMap.mp hNow
      have hAt := all_eq_true.mp hHere y hPlaced
      dsimp only at hSome hAt
      split at hSome
      · rename_i j p hPublished
        split_ifs at hSome with hOwn
        cases hSome
        obtain ⟨w, hw, hId⟩ := hWaits
        have hAny : a.waits.any (fun w => w.id = y.1) = true :=
          any_eq_true.mpr ⟨w, hw, by simpa using hId⟩
        rw [hPublished] at hAt
        simp only [hOwn, hAny, and_self, if_true, Bool.or_eq_true, List.isEmpty_iff,
          any_eq_true] at hAt
        unfold routeOutcome
        split_ifs with hNone hAll
        · exact fun h => by cases h
        · -- one of the targets takes the message
          obtain ⟨key, hKey, hAdmits⟩ := hAt.resolve_left hNone
          have hRefuses := all_eq_true.mp hAll key hKey
          rw [not_refuses_of_admits hAdmits] at hRefuses
          cases hRefuses
        · exact fun h => by cases h
      · cases hSome
    · exact ih hRest hLater

/-! ## Runs -/

/-- Who was told Basic.Ack has a result, and it is not a refusal; of no publish that waits the op
was refused; results are of publishes. -/
structure Told (a : State) : Prop where
  acked : ∀ id, (id, false) ∈ a.verdicts →
    (a.resultOf id).isSome ∧ a.resultOf id ≠ some .refused
  waiting : ∀ w ∈ a.waits, a.resultOf w.id ≠ some .refused
  known : ∀ x ∈ a.results, x.1 < a.published.length

theorem known_resultsOf {i : Nat} {entries : List (Nat × Entry)} {t : Applied} {x : Nat × Outcome}
    (hMem : x ∈ a.resultsOf i t entries) : x.1 < a.published.length := by
  induction entries generalizing t with
  | nil => cases hMem
  | cons entry rest ih =>
    rcases mem_append.mp hMem with hNow | hLater
    · obtain ⟨y, -, hSome⟩ := mem_filterMap.mp hNow
      split at hSome
      · rename_i hPublished
        split_ifs at hSome
        cases hSome
        exact (List.getElem?_eq_some_iff.mp hPublished).1
      · cases hSome
    · exact ih hLater

/-- The cluster moves: results are added, and no wait. -/
theorem Told.results (h : Told a) {more : List (Nat × Outcome)} {c : Cluster} {waits : List Waiting}
    (hWaits : waits ⊆ a.waits) (hKnown : ∀ x ∈ more, x.1 < a.published.length)
    (hMore : ∀ x ∈ more, (∃ w ∈ a.waits, w.id = x.1) → x.2 ≠ .refused) :
    Told { a with cluster := c, waits, results := a.results ++ more } where
  acked := by
    intro id hMem
    obtain ⟨hSome, hNot⟩ := h.acked id hMem
    obtain ⟨o, ho⟩ := Option.isSome_iff_exists.mp hSome
    have hKeep : State.resultOf { a with cluster := c, waits, results := a.results ++ more } id =
        some o := by
      refine (resultOf_append a id more).trans ?_
      rw [ho, Option.some_or]
    rw [ho] at hNot
    exact ⟨by rw [hKeep]; rfl, hKeep ▸ hNot⟩
  waiting := by
    intro w hw hRefused
    have hKeep := resultOf_append a w.id more
    have hOld := h.waiting w (hWaits hw)
    have hNew : (a.resultOf w.id).or ((more.find? fun x => x.1 = w.id).map Prod.snd) =
        some .refused := hKeep.symm.trans hRefused
    cases hHere : a.resultOf w.id with
    | some o =>
      rw [hHere, Option.some_or] at hNew
      exact hOld (hHere.trans hNew)
    | none =>
      rw [hHere, Option.none_or] at hNew
      obtain ⟨x, hFind, hOutcome⟩ := Option.map_eq_some_iff.mp hNew
      have hId : x.1 = w.id := by simpa using find?_some hFind
      exact hMore x (mem_of_find?_eq_some hFind) ⟨w, hWaits hw, hId.symm⟩ hOutcome
  known := fun x hx => (mem_append.mp hx).elim (h.known x) (hKnown x)

theorem resultOf_new (h : Told a) : a.resultOf a.published.length = none := by
  unfold State.resultOf
  rw [Option.map_eq_none_iff, find?_eq_none]
  intro x hx hEq
  exact (h.known x hx).ne (by simpa using hEq)

theorem told_step {e : Step} (h : Told a) (hStep : step s a e = some a')
    (hCond : Lenient a e a' = true) : Told a' := by
  cases e with
  | cluster e =>
    obtain ⟨c, -, rfl⟩ := Option.map_eq_some_iff.mp hStep
    cases e with
    | step i inp =>
      exact h.results (Subset.refl _) (fun _ => known_resultsOf)
        fun _ hx hWaits => not_refused_of_lenient hCond hx hWaits
    | crashIn i | crash i | wipe i =>
      -- the publishers of a node that dies are not told anything
      have hNone := h.results (c := c) (filter_sublist (p := fun w : Waiting => w.node ≠ i)).subset
        (forall_mem_nil _) (forall_mem_nil _)
      rw [append_nil] at hNone
      exact hNone
  | publish i channel tag p =>
    simp only [step] at hStep
    split_ifs at hStep
    obtain ⟨data, -, rfl⟩ := Option.map_eq_some_iff.mp hStep
    refine ⟨h.acked, fun w hw => ?_, fun x hx => ?_⟩
    · rcases mem_cons.mp hw with rfl | hOld
      · show a.resultOf a.published.length ≠ _
        rw [resultOf_new h]
        decide
      · exact h.waiting w hOld
    · show x.1 < (a.published ++ _).length
      rw [length_append]
      exact Nat.lt_add_right _ (h.known x hx)
  | place id idx =>
    cases hStep
    exact ⟨h.acked, h.waiting, h.known⟩
  | poll k =>
    simp only [step] at hStep
    split at hStep
    · cases hStep
    rename_i w hWait
    split at hStep
    · cases hStep
      exact h
    rename_i nack hVerdict
    cases hStep
    refine ⟨fun id hMem => ?_, fun x hx => h.waiting x (eraseIdx_subset hx), h.known⟩
    rcases mem_append.mp hMem with hOld | hNew
    · exact h.acked id hOld
    -- an ack: the status was COMMITTED, so the op was applied while the publisher waited
    obtain ⟨rfl, rfl⟩ := Prod.mk.inj (mem_singleton.mp hNew)
    have hCommitted : statusOf (a.cluster.node w.node) w.op.seq = .committed := by
      unfold confirmVerdict at hVerdict
      split_ifs at hVerdict
      simpa using hVerdict
    have hApplied : (a.resultOf w.id).isSome = true := by
      simpa [Lenient, hWait, hCommitted] using hCond
    exact ⟨hApplied, h.waiting w (mem_of_getElem? hWait)⟩
  | cancel k =>
    cases hStep
    exact ⟨h.acked, fun w hw => h.waiting w (eraseIdx_subset hw), h.known⟩

def oneSlot : Setup := { nnodes := 3, durableCommit := false, defMaxLength := 1 }

def note : Publish where
  vhost := [47]
  exchange := []
  routingKey := [113]
  props := [16, 0, 2]
  body := [1]

/-- Node 0 leads, and every node has the queue `q`. -/
def declared : List Event :=
  Event.link 0 1 ++ Event.elect 0 1 ++
    [.own 0 (.propose ClOp.declareQueue.code ([2] ++ wrStr [47] ++ wrStr [113])), .own 0 .drain
    , .deliver 0 1, .deliver 1 0, .deliver 0 1, .deliver 1 0, .own 0 .heartbeat, .deliver 0 1
    , .deliver 1 0]

/-- Two publishes on node 1 fill the queue and overrun it. The link goes down before node 1 knows
that they are committed; both polls time out, and only then are the ops applied. -/
def lateRun : List Step :=
  declared.map .cluster ++ [.publish 1 1 1 note, .publish 1 1 2 note] ++
    [Event.own 1 .drain, .deliver 1 0, .own 0 .readDone].map .cluster ++ [.place 0 4, .place 1 5] ++
    [Event.deliver 0 1, .deliver 1 0, .own 0 (.linkDown 1), .own 1 (.linkDown 0)
    , .own 1 (.tick 5000)].map .cluster ++ [.poll 0, .poll 0] ++
    (Event.link 0 1 ++ [Event.own 0 .heartbeat, .deliver 0 1]).map .cluster

/-- The same publishes on the leader: both ops commit, the second finds the queue full, and both
are acknowledged. -/
def fullRun : List Step :=
  declared.map .cluster ++ [.publish 0 1 1 note, .publish 0 1 2 note, .cluster (.own 0 .drain)
    , .place 0 4, .place 1 5] ++
    [Event.deliver 0 1, .deliver 1 0].map .cluster ++ [.poll 1, .poll 0]

end Confirms
end BeaverMQ
