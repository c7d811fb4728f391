import BeaverMQ.Model.Node
import BeaverMQ.Queues.Watermark

/-!
# BeaverMQ — the compaction floor

`log_compact_to` keeps every entry from `broker_min_live_cluster_id` on, so that value has to
be at most the id of every replicated message that is still ready, in hand or unsettled. Of
each queue it looks at one id only: the oldest tracked one, or, when none is tracked, the
first replicated one of the ring.

One id is enough as long as the untracked messages stay in the order of the log: those in the
ring ascend, and are younger than everything tracked and everything in the hands of a worker. A
manual `Basic.Get` and a delivery that fails before it is recorded break that order. What a
worker has in its hands is not looked at: it is safe only behind an older tracked id.
-/

namespace BeaverMQ

open List Station

/-! ## What the scan looks at -/

/-- The scan finds an id up to `x` in the queue. -/
def Queue.Shows (q : Queue) (x : Nat) : Prop :=
  ∃ c, queueOldestLiveClusterId q = some c ∧ c ≤ x

theorem floor_le_of_shows {b : Broker} {key : Bytes} {q : Queue} {x : Nat}
    (hGet : b.queues.get key = some q) (hShows : q.Shows x) :
    ∃ f, brokerMinLiveClusterId b = some f ∧ f ≤ x := by
  obtain ⟨c, hOldest, hLe⟩ := hShows
  have hMem : c ∈ b.queues.values.filterMap queueOldestLiveClusterId :=
    mem_filterMap.mpr ⟨q, Table.mem_values_iff.mpr ⟨key, hGet⟩, hOldest⟩
  unfold brokerMinLiveClusterId
  cases hMin : (b.queues.values.filterMap queueOldestLiveClusterId).min? with
  | none =>
    rw [min?_eq_none_iff] at hMin
    rw [hMin] at hMem
    cases hMem
  | some f => exact ⟨f, rfl, ((min?_eq_some_iff.mp hMin).2 c hMem).trans hLe⟩

/-! ## Untracked messages -/

/-- The ids of the replicated messages of a list that are not tracked, in order. -/
def untracked (unacked : List Nat) (ms : List Msg) : List Nat :=
  (ms.map Msg.clusterId).filter fun c => 0 < c && c ∉ unacked

variable {u : List Nat} {ms : List Msg} {m : Msg} {c : Nat}

theorem mem_untracked : c ∈ untracked u ms ↔ (∃ m ∈ ms, m.clusterId = c) ∧ 0 < c ∧ c ∉ u := by
  simp [untracked]

theorem untracked_append (u : List Nat) (ms ms' : List Msg) :
    untracked u (ms ++ ms') = untracked u ms ++ untracked u ms' := by
  simp [untracked]

/-- A message that is local or tracked is not among them. -/
theorem untracked_append_known (h : 0 < m.clusterId → m.clusterId ∈ u) :
    untracked u (ms ++ [m]) = untracked u ms := by
  have hNone : untracked u [m] = [] := by simpa [untracked] using h
  rw [untracked_append, hNone, append_nil]

theorem untracked_sublist {u' : List Nat} {ms' : List Msg} (hSub : ms'.Sublist ms)
    (hTracked : u ⊆ u') : (untracked u' ms').Sublist (untracked u ms) := by
  refine (monotone_filter_right _ fun c hc => ?_).trans ((hSub.map _).filter _)
  simp only [Bool.and_eq_true, decide_eq_true_eq] at hc ⊢
  exact ⟨hc.1, fun hIn => hc.2 (hTracked hIn)⟩

/-- An id that no message of the list has may be tracked or not. -/
theorem untracked_erase (h : ∀ m ∈ ms, 0 < m.clusterId → m.clusterId ≠ c) :
    untracked (u.erase c) ms = untracked u ms := by
  refine filter_congr fun x hx => ?_
  obtain ⟨m, hm, rfl⟩ := mem_map.mp hx
  by_cases hPos : 0 < m.clusterId
  · simp [mem_erase_of_ne (h m hm hPos)]
  · simp [hPos]

/-- The untracked messages of the ring, and those in the hands of workers. -/
def Station.ring (s : Station) : List Nat := untracked s.queue.unacked s.queue.ready

def Station.hands (s : Station) : List Nat :=
  untracked s.queue.unacked (s.inHand.map Prod.snd)

/-! ## The order of the log -/

/-- The ids of one queue: what is unsettled is tracked, and the untracked messages of the ring
ascend behind everything that is tracked or in hand. -/
structure InOrder (s : Station) : Prop extends Numbered s where
  held : ∀ m ∈ s.unsettled, 0 < m.clusterId → m.clusterId ∈ s.queue.unacked
  pulled : ∀ e ∈ s.inHand, e.1 = .get false → e.2.clusterId = 0
  ring : s.ring.Pairwise (· < ·)
  behind : ∀ r ∈ s.ring, (∀ c ∈ s.queue.unacked, c < r) ∧ ∀ c ∈ s.hands, c < r

/-- What keeps the queue `s` in order: messages come in the order of the log, a `Basic.Get` with
manual acknowledgement takes no replicated message, and a delivery that fails had been recorded
before. -/
def KeepsOrder (s : Station) : QueueCmd → Prop
  | .enqueue m => m.clusterId = 0 ∨ s.newest < m.clusterId
  | .dequeue taker => taker = .get false → ∀ m ∈ s.queue.ready.head?, m.clusterId = 0
  | .giveBack k => ∀ e ∈ s.inHand[k]?, 0 < e.2.clusterId → e.2.clusterId ∈ s.queue.unacked
  | .deliver _ | .settle _ | .requeue _ => True

instance (s : Station) (cmd : QueueCmd) : Decidable (KeepsOrder s cmd) :=
  match cmd with
  | .enqueue _ => inferInstanceAs (Decidable (_ ∨ _))
  | .dequeue _ => inferInstanceAs (Decidable (_ → ∀ m ∈ s.queue.ready.head?, _))
  | .giveBack k => inferInstanceAs (Decidable (∀ e ∈ s.inHand[k]?, _ → _))
  | .deliver _ | .settle _ | .requeue _ => .isTrue trivial

section Steps

variable {b : Broker} {s t : Station} {k : Nat}

theorem mem_ids_ready (hMem : m ∈ s.queue.ready) (hPos : 0 < m.clusterId) : m.clusterId ∈ s.ids :=
  mem_ids.mpr ⟨hPos, m, mem_append_left _ hMem, rfl⟩

theorem mem_ids_inHand {e : Taker × Msg} (hMem : e ∈ s.inHand) (hPos : 0 < e.2.clusterId) :
    e.2.clusterId ∈ s.ids :=
  mem_ids.mpr
    ⟨hPos, e.2, mem_append_right _ (mem_append_left _ (mem_map_of_mem hMem)), rfl⟩

/-- The untracked messages of the ring and the tracked ids stay what they were. -/
theorem InOrder.moved (h : InOrder s) (hNumbered : Numbered t)
    (hUnacked : t.queue.unacked = s.queue.unacked) (hHeld : t.unsettled ⊆ s.unsettled)
    (hHands : t.inHand ⊆ s.inHand) (hRing : t.ring = s.ring) : InOrder t where
  toNumbered := hNumbered
  held := fun m hm => hUnacked ▸ h.held m (hHeld hm)
  pulled := fun e he => h.pulled e (hHands he)
  ring := hRing ▸ h.ring
  behind := by
    intro r hr
    obtain ⟨hTracked, hBefore⟩ := h.behind r (hRing ▸ hr)
    refine ⟨hUnacked ▸ hTracked, fun c hc => hBefore c ?_⟩
    obtain ⟨⟨m, hm, rfl⟩, hPos, hNot⟩ := mem_untracked.mp hc
    exact mem_untracked.mpr ⟨⟨m, map_subset _ hHands hm, rfl⟩, hPos, hUnacked ▸ hNot⟩

/-- A new message has a higher id than every one before it, or none. -/
theorem InOrder.enqueue (h : InOrder s) (hNumbered : Numbered (s.enqueue b m))
    (hNew : m.clusterId = 0 ∨ s.newest < m.clusterId) : InOrder (s.enqueue b m) := by
  rcases s.enqueue_cases b m with hEq | ⟨kept, hSuffix, hEq⟩ <;> rw [hEq] at hNumbered ⊢
  · exact h.moved hNumbered rfl (Subset.refl _) (Subset.refl _) rfl
  -- first the eviction, then the newcomer behind everything
  have hKept : (untracked s.queue.unacked kept).Sublist s.ring :=
    untracked_sublist hSuffix.sublist (Subset.refl _)
  have hRing : ∀ r ∈ untracked s.queue.unacked (kept ++ [m]), r ∈ s.ring ∨ s.newest < r := by
    intro r hr
    rw [untracked_append, mem_append] at hr
    rcases hr with hOld | hr
    · exact .inl (hKept.subset hOld)
    · obtain ⟨⟨x, hx, rfl⟩, hPos, -⟩ := mem_untracked.mp hr
      cases mem_singleton.mp hx
      exact .inr (hNew.resolve_left (by omega))
  have hHands : ∀ c ∈ s.hands, c ≤ s.newest := by
    intro c hc
    obtain ⟨⟨x, hx, rfl⟩, hPos, -⟩ := mem_untracked.mp hc
    obtain ⟨e, he, rfl⟩ := mem_map.mp hx
    exact h.bound _ (mem_ids_inHand he hPos)
  refine ⟨hNumbered, h.held, h.pulled, ?_, fun r hr => ?_⟩
  · show (untracked s.queue.unacked (kept ++ [m])).Pairwise _
    rw [untracked_append, pairwise_append]
    refine ⟨h.ring.sublist hKept, (pairwise_singleton _ _).filter _, fun a ha r hr => ?_⟩
    obtain ⟨⟨x, hx, rfl⟩, hPos, -⟩ := mem_untracked.mp hr
    cases mem_singleton.mp hx
    obtain ⟨⟨y, hy, rfl⟩, hPos', -⟩ := mem_untracked.mp ha
    have := h.bound _ (mem_ids_ready (hSuffix.subset hy) hPos')
    omega
  · rcases hRing r hr with hOld | hLt
    · exact h.behind r hOld
    · exact ⟨fun c hc => (h.unacked c hc).2.trans_lt hLt, fun c hc => (hHands c hc).trans_lt hLt⟩

theorem InOrder.dequeue {taker : Taker} (h : InOrder s) (hStep : s.dequeue taker = some t)
    (hNumbered : Numbered t)
    (hPull : taker = .get false → ∀ m ∈ s.queue.ready.head?, m.clusterId = 0) : InOrder t := by
  unfold Station.dequeue at hStep
  split at hStep
  · cases hStep
  rename_i m rest hReady
  cases hStep
  rw [hReady] at hPull
  have hRing : s.ring = untracked s.queue.unacked [m] ++ untracked s.queue.unacked rest := by
    rw [Station.ring, hReady, ← untracked_append]
    rfl
  have hSplit := pairwise_append.mp (hRing ▸ h.ring)
  refine ⟨hNumbered, h.held, ?_, hSplit.2.1, fun r hr => ?_⟩
  · intro e he hTaker
    rcases mem_append.mp he with hOld | hLast
    · exact h.pulled e hOld hTaker
    · cases mem_singleton.mp hLast
      exact hPull hTaker m rfl
  · obtain ⟨hTracked, hBefore⟩ := h.behind r (hRing ▸ mem_append_right _ hr)
    refine ⟨hTracked, fun c hc => ?_⟩
    -- the message that was taken was in front of the others
    rw [Station.hands, map_append, untracked_append, mem_append] at hc
    rcases hc with hOld | hLast
    · exact hBefore c hOld
    · exact hSplit.2.2 c hLast r hr

/-- A delivery takes the message in hand, wherever it is among them. -/
theorem InOrder.deliver (h : InOrder s) (hStep : s.deliver k = some t) (hNumbered : Numbered t) :
    InOrder t := by
  unfold Station.deliver at hStep
  rcases hAt : s.inHand[k]? with _ | ⟨taker, m⟩ <;> rw [hAt] at hStep
  · cases hStep
  have hMem : (taker, m) ∈ s.inHand := mem_of_getElem? hAt
  have hFewer : s.inHand.eraseIdx k ⊆ s.inHand := eraseIdx_subset ..
  have hNoAck := queueConsumeOnDeliver_lists s.queue m.clusterId true
  rw [if_neg (by simp)] at hNoAck
  have hRing : untracked (queueConsumeOnDeliver s.queue m.clusterId true).unacked
      (queueConsumeOnDeliver s.queue m.clusterId true).ready = s.ring := by
    rw [hNoAck.1, hNoAck.2]
    rfl
  rcases taker with (_ | _) | (_ | _) <;> cases hStep
  · -- recorded: the id moves from the hands to the tracked ones
    obtain ⟨hReady, hUnacked⟩ := queueConsumeOnDeliver_lists s.queue m.clusterId false
    have hIn : ∀ c, c ∈ (queueConsumeOnDeliver s.queue m.clusterId false).unacked ↔
        c ∈ s.queue.unacked ∨ 0 < m.clusterId ∧ c = m.clusterId := by
      intro c
      rw [hUnacked]
      by_cases hPos : 0 < m.clusterId
      · simp [hPos, mem_insertUnacked, or_comm]
      · simp [hPos]
    have hGrow : s.queue.unacked ⊆ (queueConsumeOnDeliver s.queue m.clusterId false).unacked :=
      fun c hc => (hIn c).mpr (.inl hc)
    have hSub : (untracked (queueConsumeOnDeliver s.queue m.clusterId false).unacked
        (queueConsumeOnDeliver s.queue m.clusterId false).ready).Sublist s.ring :=
      untracked_sublist (hReady ▸ .refl _) hGrow
    refine ⟨hNumbered, ?_, fun e he => h.pulled e (hFewer he), h.ring.sublist hSub,
      fun r hr => ?_⟩
    · intro x hx hPos
      rcases mem_append.mp hx with hOld | hLast
      · exact hGrow (h.held x hOld hPos)
      · cases mem_singleton.mp hLast
        exact (hIn _).mpr (.inr ⟨hPos, rfl⟩)
    · obtain ⟨hTracked, hBefore⟩ := h.behind r (hSub.subset hr)
      refine ⟨fun c hc => ?_, fun c hc => hBefore c ?_⟩
      · rcases (hIn c).mp hc with hOld | ⟨hPos, rfl⟩
        · exact hTracked c hOld
        · by_cases hKnown : m.clusterId ∈ s.queue.unacked
          · exact hTracked _ hKnown
          · exact hBefore _ (mem_untracked.mpr ⟨⟨m, mem_map_of_mem hMem, rfl⟩, hPos, hKnown⟩)
      · exact (untracked_sublist ((eraseIdx_sublist ..).map _) hGrow).subset hc
  · exact h.moved hNumbered hNoAck.2 (Subset.refl _) hFewer hRing
  · refine ⟨hNumbered, ?_, fun e he => h.pulled e (hFewer he), h.ring, fun r hr => ?_⟩
    · intro x hx hPos
      rcases mem_append.mp hx with hOld | hLast
      · exact h.held x hOld hPos
      · cases mem_singleton.mp hLast
        exact absurd (h.pulled _ hMem rfl) hPos.ne'
    · obtain ⟨hTracked, hBefore⟩ := h.behind r hr
      exact ⟨hTracked, fun c hc => hBefore c
        ((untracked_sublist ((eraseIdx_sublist ..).map _) (Subset.refl _)).subset hc)⟩
  · exact h.moved hNumbered hNoAck.2 (Subset.refl _) hFewer hRing

theorem InOrder.settle (h : InOrder s) (hStep : s.settle k = some t) (hNumbered : Numbered t) :
    InOrder t := by
  obtain ⟨m, hAt, hQueue, -, hPerm⟩ := settle_facts hStep
  have hGone := not_mem_ids_of_left h.toNumbered hPerm
  unfold Station.settle at hStep
  rw [hAt] at hStep
  cases hStep
  by_cases hZero : m.clusterId = 0
  · have hSame : queueConsumeOnAck s.queue m.clusterId = s.queue := if_pos hZero
    have hLists : s.unsettled.eraseIdx k ⊆ s.unsettled := eraseIdx_subset ..
    rw [hSame] at hNumbered ⊢
    exact h.moved hNumbered rfl hLists (Subset.refl _) rfl
  -- no other live message has the id, so dropping it changes nothing for the others
  have hAck : queueConsumeOnAck s.queue m.clusterId = { s.queue with
      unacked := s.queue.unacked.erase m.clusterId
      delivered := s.queue.delivered.eraseP (fun x => x.clusterId = m.clusterId) } := if_neg hZero
  rw [hAck] at hNumbered hGone ⊢
  have hRing : untracked (s.queue.unacked.erase m.clusterId) s.queue.ready = s.ring :=
    untracked_erase fun x hx hPos hEq => hGone (hEq ▸ mem_ids_ready hx hPos)
  have hHands : untracked (s.queue.unacked.erase m.clusterId) (s.inHand.map Prod.snd) =
      s.hands := by
    refine untracked_erase fun x hx hPos hEq => hGone ?_
    obtain ⟨e, he, rfl⟩ := mem_map.mp hx
    exact hEq ▸ mem_ids_inHand he hPos
  refine ⟨hNumbered, ?_, h.pulled, ?_, fun r hr => ?_⟩
  · intro x hx hPos
    have hNe : x.clusterId ≠ m.clusterId := by
      intro hEq
      refine hGone (hEq ▸ mem_ids.mpr ⟨hPos, x, ?_, rfl⟩)
      exact mem_append_right _ (mem_append_right _ hx)
    exact (mem_erase_of_ne hNe).mpr (h.held x (eraseIdx_subset hx) hPos)
  · show (untracked _ _).Pairwise _
    rw [hRing]
    exact h.ring
  · obtain ⟨hTracked, hBefore⟩ := h.behind r (hRing ▸ hr)
    exact ⟨fun c hc => hTracked c (mem_of_mem_erase hc), fun c hc => hBefore c (hHands ▸ hc)⟩

/-- **One locked operation keeps the queue in order.** -/
theorem inOrder_step {cmd : QueueCmd} (h : InOrder s) (hStep : s.step b cmd = some t)
    (hKeeps : KeepsOrder s cmd) : InOrder t := by
  have hNumbered : Numbered t := by
    refine numbered_step h.toNumbered hStep ?_
    rintro m rfl
    exact hKeeps
  cases cmd with
  | enqueue m =>
    cases hStep
    exact h.enqueue hNumbered hKeeps
  | dequeue taker => exact h.dequeue hStep hNumbered hKeeps
  | deliver k => exact h.deliver hStep hNumbered
  | giveBack k =>
    have hStep' : s.giveBack k = some t := hStep
    unfold Station.giveBack at hStep'
    split at hStep'
    · rename_i noAck m hAt
      cases hStep'
      refine h.moved hNumbered rfl (Subset.refl _) (eraseIdx_subset ..) ?_
      exact untracked_append_known (hKeeps _ hAt)
    · cases hStep'
  | settle k => exact h.settle hStep hNumbered
  | requeue k =>
    have hStep' : s.requeue k = some t := hStep
    unfold Station.requeue at hStep'
    split at hStep'
    · cases hStep'
    · rename_i m hAt
      cases hStep'
      refine h.moved hNumbered rfl (eraseIdx_subset ..) (Subset.refl _) ?_
      exact untracked_append_known (h.held m (mem_of_getElem? hAt))

end Steps

/-! ## What one queue shows -/

/-- Of every replicated message in the hands of a worker the queue tracks the id, or an older
one. -/
def Station.Recorded (s : Station) : Prop :=
  ∀ e ∈ s.inHand, 0 < e.2.clusterId → ∃ c ∈ s.queue.unacked, c ≤ e.2.clusterId

instance (s : Station) : Decidable s.Recorded :=
  inferInstanceAs (Decidable (∀ e ∈ s.inHand, _ → _))

/-- **What a queue in order shows is as old as all it has, exactly if its hands are recorded.** -/
theorem shows_iff_recorded {s : Station} (h : InOrder s) :
    (∀ x ∈ s.ids, s.queue.Shows x) ↔ s.Recorded := by
  unfold Queue.Shows queueOldestLiveClusterId
  cases hList : s.queue.unacked with
  | cons oldest rest =>
    -- the oldest tracked id is the least of them
    have hLeast : ∀ c ∈ s.queue.unacked, oldest ≤ c := by
      intro c hc
      rcases mem_cons.mp (hList ▸ hc) with rfl | hRest
      · exact le_rfl
      · exact ((pairwise_cons.mp (hList ▸ h.sorted)).1 c hRest).le
    have hOldest : oldest ∈ s.queue.unacked := hList ▸ mem_cons_self
    constructor
    · intro hShows e he hPos
      obtain ⟨c, hEq, hLe⟩ := hShows _ (mem_ids_inHand he hPos)
      cases hEq
      exact ⟨oldest, hOldest, hLe⟩
    · intro hRecorded x hx
      refine ⟨oldest, rfl, ?_⟩
      obtain ⟨hPos, m, hm, rfl⟩ := mem_ids.mp hx
      rcases mem_append.mp hm with hReady | hm
      · by_cases hKnown : m.clusterId ∈ s.queue.unacked
        · exact hLeast _ hKnown
        · exact ((h.behind _ (mem_untracked.mpr ⟨⟨m, hReady, rfl⟩, hPos, hKnown⟩)).1 oldest
            hOldest).le
      rcases mem_append.mp hm with hHand | hHeld
      · obtain ⟨e, he, rfl⟩ := mem_map.mp hHand
        obtain ⟨c, hc, hLe⟩ := hRecorded e he hPos
        exact (hLeast c hc).trans hLe
      · exact hLeast _ (h.held m hHeld hPos)
  | nil =>
    have hFresh : ∀ c, c ∉ s.queue.unacked := by simp [hList]
    -- the first replicated message of the ring is its oldest one
    have hFirst : ∀ m ∈ s.queue.ready, 0 < m.clusterId →
        ∃ r, s.queue.ready.find? (fun m => m.clusterId ≠ 0) = some r ∧
          r.clusterId ≤ m.clusterId := by
      intro m hm hPos
      have hSome : (s.queue.ready.find? (fun m => m.clusterId ≠ 0)).isSome :=
        find?_isSome.mpr ⟨m, hm, by simpa using hPos.ne'⟩
      obtain ⟨r, hFind⟩ := Option.isSome_iff_exists.mp hSome
      refine ⟨r, hFind, ?_⟩
      obtain ⟨hRep, before, after, hSplit, hNone⟩ := find?_eq_some_iff_append.mp hFind
      have hPos' : 0 < r.clusterId := Nat.pos_of_ne_zero (by simpa using hRep)
      rw [hSplit] at hm
      rcases mem_append.mp hm with hBefore | hm
      · exact absurd (hNone m hBefore) (by simpa using hPos.ne')
      rcases mem_cons.mp hm with rfl | hAfter
      · exact le_rfl
      have hRing := h.ring
      rw [Station.ring, hSplit, untracked_append, pairwise_append] at hRing
      have hTail : r.clusterId :: untracked s.queue.unacked after =
          untracked s.queue.unacked (r :: after) := by
        simp [untracked, hPos', hFresh]
      rw [← hTail] at hRing
      exact ((pairwise_cons.mp hRing.2.1).1 _
        (mem_untracked.mpr ⟨⟨m, hAfter, rfl⟩, hPos, hFresh _⟩)).le
    constructor
    · intro hShows e he hPos
      obtain ⟨c, hEq, hLe⟩ := hShows _ (mem_ids_inHand he hPos)
      obtain ⟨r, hFind, rfl⟩ := Option.map_eq_some_iff.mp hEq
      -- the ring is younger than what is in hand
      have hRep : 0 < r.clusterId := Nat.pos_of_ne_zero (by simpa using find?_some hFind)
      have hIn : r.clusterId ∈ s.ring :=
        mem_untracked.mpr ⟨⟨r, mem_of_find?_eq_some hFind, rfl⟩, hRep, hFresh _⟩
      have hHand : e.2.clusterId ∈ s.hands :=
        mem_untracked.mpr ⟨⟨e.2, mem_map_of_mem he, rfl⟩, hPos, hFresh _⟩
      have := (h.behind _ hIn).2 _ hHand
      omega
    · intro hRecorded x hx
      obtain ⟨hPos, m, hm, rfl⟩ := mem_ids.mp hx
      rcases mem_append.mp hm with hReady | hm
      · obtain ⟨r, hFind, hLe⟩ := hFirst m hReady hPos
        exact ⟨r.clusterId, Option.map_eq_some_iff.mpr ⟨r, hFind, rfl⟩, hLe⟩
      rcases mem_append.mp hm with hHand | hHeld
      · obtain ⟨e, he, rfl⟩ := mem_map.mp hHand
        obtain ⟨c, hc, -⟩ := hRecorded e he hPos
        exact absurd hc (hFresh c)
      · exact absurd (h.held m hHeld hPos) (hFresh _)

/-! ## Runs -/

/-- `x` is the id of a live replicated message of a registered queue. -/
def Workshop.LiveId (w : Workshop) (x : Nat) : Prop :=
  ∃ key s, w.station key = some s ∧ x ∈ s.ids

def FloorOk (w : Workshop) (cmd : Bytes × QueueCmd) (_ : Workshop) : Prop :=
  ∀ s ∈ w.station cmd.1, KeepsOrder s cmd.2

instance (w : Workshop) (cmd : Bytes × QueueCmd) (w' : Workshop) : Decidable (FloorOk w cmd w') :=
  inferInstanceAs (Decidable (∀ s ∈ w.station cmd.1, _))

def Broker.workshop (b : Broker) : Workshop where
  broker := { b with queues := b.queues.mapVal fun q => q.station.queue }

theorem station_queue {w : Workshop} {key : Bytes} {s : Station} (h : w.station key = some s) :
    w.broker.queues.get key = some s.queue := by
  unfold Workshop.station at h
  obtain ⟨q, hGet, rfl⟩ := Option.map_eq_some_iff.mp h
  exact hGet

theorem put_station (w : Workshop) (key key' : Bytes) (t : Station) :
    (w.put key t).station key' = if key' = key then some t else w.station key' := by
  by_cases hKey : key' = key
  · simp [Workshop.station, Workshop.put, Table.get_insert, hKey]
  · simp [Workshop.station, Workshop.put, Table.get_insert, hKey]

theorem Workshop.step_cases {w w' : Workshop} {cmd : Bytes × QueueCmd} (h : w.step cmd = some w') :
    ∃ s t, w.station cmd.1 = some s ∧ s.step w.broker cmd.2 = some t ∧ w' = w.put cmd.1 t := by
  obtain ⟨s, hStation, hStep⟩ := Option.bind_eq_some_iff.mp h
  obtain ⟨t, hStationStep, rfl⟩ := Option.map_eq_some_iff.mp hStep
  exact ⟨s, t, hStation, hStationStep, rfl⟩

def FloorInv (w : Workshop) : Prop := ∀ key s, w.station key = some s → InOrder s

theorem inOrder_station (q : Queue) : InOrder q.station where
  toNumbered := numbered_station q
  held := fun m hm => by cases hm
  pulled := fun e he => by cases he
  ring := List.Pairwise.nil
  behind := fun r hr => by cases hr

theorem floorInv_workshop (b : Broker) : FloorInv b.workshop := by
  intro key s hStation
  obtain ⟨q, hGet, rfl⟩ := Option.map_eq_some_iff.mp hStation
  rw [show b.workshop.broker.queues = b.queues.mapVal fun q => q.station.queue from rfl,
    Table.get_mapVal] at hGet
  obtain ⟨q', -, rfl⟩ := Option.map_eq_some_iff.mp hGet
  exact inOrder_station q'

theorem floorInv_step {w w' : Workshop} {cmd : Bytes × QueueCmd} (h : FloorInv w)
    (hStep : w.step cmd = some w') (hOk : FloorOk w cmd w') : FloorInv w' := by
  obtain ⟨s, t, hStation, hRun, rfl⟩ := Workshop.step_cases hStep
  intro key u hAt
  rw [put_station] at hAt
  split at hAt
  · cases hAt
    exact inOrder_step (h _ s hStation) hRun (hOk s hStation)
  · exact h key u hAt

theorem compactIndex_lt {n : Node} {x : Nat} (hPos : 0 < x)
    (hFloor : ∃ f, brokerMinLiveClusterId n.applied.broker = some f ∧ f ≤ x) (upto : Nat) :
    compactIndex n upto < x := by
  obtain ⟨f, hMin, hLe⟩ := hFloor
  unfold compactIndex
  rw [hMin]
  dsimp only
  split <;> omega

def demoBroker : Broker :=
  { queues := AList.insert [113] demoQueue (AList.insert [114] { demoQueue with name := [114] } ∅) }

/-- Two messages are delivered; the older one is acknowledged, the younger one requeued and
taken off the ring again. -/
def redelivers : List (Bytes × QueueCmd) :=
  [([113], .enqueue (replicated 1)), ([113], .enqueue (replicated 2)),
    ([113], .dequeue (.consumer false)), ([113], .deliver 0),
    ([113], .dequeue (.consumer false)), ([113], .deliver 0),
    ([113], .settle 0), ([113], .requeue 0), ([113], .dequeue (.consumer false))]

end BeaverMQ
