import BeaverMQ.Lib.Run
import BeaverMQ.Model.Consume
import BeaverMQ.Queues.Routing

/-!
# BeaverMQ — the consume watermark

A replica drops its copies of all messages up to the watermark that the consuming node
replicates, so the watermark has to stay below every replicated message that is still ready,
in hand or unsettled. What keeps it safe is that every live message up to the largest recorded id
(`deliver_hi`) is tracked (`unacked`). A delivery that is recorded while an older live message is
not tracked breaks this: one in another worker's hands, one that a failed delivery put behind
younger ones, or one held by a manual `Basic.Get`.
-/

namespace BeaverMQ

open List Station

/-! ## What one operation does -/

section Operations

variable {b : Broker} {s t : Station}

theorem Station.enqueue_cases (b : Broker) (s : Station) (m : Msg) :
    s.enqueue b m = { s with newest := max s.newest m.clusterId } ∨
      ∃ kept, kept <:+ s.queue.ready ∧
        s.enqueue b m = { s with queue := { s.queue with ready := kept ++ [m] }
                                 newest := max s.newest m.clusterId } := by
  unfold Station.enqueue
  cases hEnq : queueEnqueue b s.queue m with
  | none => exact .inl rfl
  | some r =>
    obtain ⟨kept, hSuffix, hEq⟩ := queueEnqueue_queue hEnq
    exact .inr ⟨kept, hSuffix, by dsimp only; rw [hEq]⟩

theorem Station.dequeue_facts {taker : Taker} (h : s.dequeue taker = some t) :
    ∃ m rest, s.queue.ready = m :: rest ∧ t.queue = { s.queue with ready := rest } ∧
      t.newest = s.newest ∧ s.live.Perm t.live := by
  unfold Station.dequeue at h
  cases hReady : s.queue.ready with
  | nil =>
    rw [hReady] at h
    cases h
  | cons m rest =>
    rw [hReady] at h
    cases h
    refine ⟨m, rest, rfl, rfl, rfl, ?_⟩
    simp only [live, hReady, map_append, map_cons, map_nil,
      append_assoc, cons_append, nil_append]
    rw [← append_assoc rest]
    refine List.Perm.trans ?_ (List.Perm.of_eq (append_assoc _ _ _))
    exact (perm_middle (a := m)).symm

variable {k : Nat} {m : Msg}

theorem perm_eraseIdx {α : Type} {l : List α} {x : α} (h : l[k]? = some x) :
    l.Perm (x :: l.eraseIdx k) := by
  obtain ⟨hk, rfl⟩ := List.getElem?_eq_some_iff.mp h
  exact (getElem_cons_eraseIdx_perm hk).symm

theorem live_perm_inHand {taker : Taker} (h : s.inHand[k]? = some (taker, m)) :
    s.live.Perm (m :: ({ s with inHand := s.inHand.eraseIdx k } : Station).live) := by
  have hPerm := (perm_eraseIdx h).map Prod.snd
  exact ((hPerm.append_right s.unsettled).append_left s.queue.ready).trans perm_middle

theorem live_perm_unsettled (h : s.unsettled[k]? = some m) :
    s.live.Perm (m :: ({ s with unsettled := s.unsettled.eraseIdx k } : Station).live) := by
  have hPerm := perm_eraseIdx h
  refine ((hPerm.append_left (s.inHand.map Prod.snd)).append_left s.queue.ready).trans ?_
  exact (perm_middle.append_left s.queue.ready).trans perm_middle

/-- How a delivery ends: settled at once and recorded, recorded and held, or only held. -/
theorem Station.deliver_cases (h : s.deliver k = some t) :
    ∃ taker m, s.inHand[k]? = some (taker, m) ∧ t.newest = s.newest ∧
      (((taker = .consumer true ∨ taker = .get true) ∧
          t.queue = queueConsumeOnDeliver s.queue m.clusterId true ∧ s.live.Perm (m :: t.live)) ∨
        (taker = .consumer false ∧
          t.queue = queueConsumeOnDeliver s.queue m.clusterId false ∧ s.live.Perm t.live) ∨
        (taker = .get false ∧ t.queue = s.queue ∧ s.live.Perm t.live)) := by
  have hReady : ∀ noAck m, (queueConsumeOnDeliver s.queue m noAck).ready = s.queue.ready := by
    intro noAck m
    unfold queueConsumeOnDeliver
    split
    · rfl
    · split <;> rfl
  unfold Station.deliver at h
  rcases hAt : s.inHand[k]? with _ | ⟨taker, m⟩ <;> rw [hAt] at h
  · cases h
  have hPerm := live_perm_inHand hAt
  -- a held message moves to the end of `unsettled`
  have hHeld : s.live.Perm (({ s with inHand := s.inHand.eraseIdx k } : Station).live ++ [m]) :=
    hPerm.trans (perm_append_singleton m _).symm
  refine ⟨taker, m, rfl, ?_⟩
  rcases taker with (_ | _) | (_ | _) <;> cases h
  · refine ⟨rfl, .inr (.inl ⟨rfl, rfl, ?_⟩)⟩
    simpa only [live, hReady, append_assoc] using hHeld
  · refine ⟨rfl, .inl ⟨.inl rfl, rfl, ?_⟩⟩
    simpa only [live, hReady] using hPerm
  · refine ⟨rfl, .inr (.inr ⟨rfl, rfl, ?_⟩)⟩
    simpa only [live, append_assoc] using hHeld
  · refine ⟨rfl, .inl ⟨.inr rfl, rfl, ?_⟩⟩
    simpa only [live, hReady] using hPerm

/-- The message goes back to the queue. -/
structure Station.Returns (s t : Station) (m : Msg) : Prop where
  queue : t.queue = queueRequeueInternal s.queue m
  newest : t.newest = s.newest
  live : s.live.Perm t.live

theorem live_perm_return {u : Station} (h : s.live.Perm (m :: u.live)) :
    s.live.Perm ({ u with queue := queueRequeueInternal u.queue m } : Station).live := by
  refine h.trans ?_
  simp only [live, queueRequeueInternal, append_assoc, singleton_append]
  exact perm_middle.symm

theorem Station.giveBack_returns (h : s.giveBack k = some t) : ∃ m, s.Returns t m := by
  unfold Station.giveBack at h
  split at h
  · next m hAt =>
    cases h
    exact ⟨m, rfl, rfl, live_perm_return (live_perm_inHand hAt)⟩
  · cases h

theorem Station.requeue_returns (h : s.requeue k = some t) : ∃ m, s.Returns t m := by
  unfold Station.requeue at h
  split at h
  · cases h
  next m hAt =>
  cases h
  exact ⟨m, rfl, rfl, live_perm_return (live_perm_unsettled hAt)⟩

theorem Station.settle_facts (h : s.settle k = some t) :
    ∃ m, s.unsettled[k]? = some m ∧ t.queue = queueConsumeOnAck s.queue m.clusterId ∧
      t.newest = s.newest ∧ s.live.Perm (m :: t.live) := by
  have hReady : ∀ cid, (queueConsumeOnAck s.queue cid).ready = s.queue.ready := by
    intro cid
    unfold queueConsumeOnAck
    split <;> rfl
  unfold Station.settle at h
  split at h
  · cases h
  next m hAt =>
  cases h
  refine ⟨m, hAt, rfl, rfl, ?_⟩
  have hPerm := live_perm_unsettled hAt
  simpa only [live, hReady] using hPerm

end Operations

/-! ## The tracked ids -/

variable {c : Nat}

theorem mem_insertUnacked {x : Nat} {l : List Nat} : x ∈ insertUnacked c l ↔ x = c ∨ x ∈ l := by
  induction l with
  | nil => simp [insertUnacked]
  | cons y l ih =>
    unfold insertUnacked
    split
    · simp
    split
    · next hEq =>
      subst hEq
      simp
    · rw [mem_cons, ih, mem_cons]
      tauto

theorem pairwise_insertUnacked {l : List Nat} (h : l.Pairwise (· < ·)) :
    (insertUnacked c l).Pairwise (· < ·) := by
  induction l with
  | nil => exact pairwise_singleton _ _
  | cons y l ih =>
    obtain ⟨hHead, hTail⟩ := pairwise_cons.mp h
    unfold insertUnacked
    split
    · next hLt =>
      refine pairwise_cons.mpr ⟨fun z hz => ?_, h⟩
      rcases mem_cons.mp hz with rfl | hz
      · exact hLt
      · exact hLt.trans (hHead z hz)
    split
    · exact h
    refine pairwise_cons.mpr ⟨fun z hz => ?_, ih hTail⟩
    rcases mem_insertUnacked.mp hz with rfl | hz
    · omega
    · exact hHead z hz

def Station.ids (s : Station) : List Nat := (s.live.map Msg.clusterId).filter (0 < ·)

theorem Station.mem_ids {s : Station} : c ∈ s.ids ↔ 0 < c ∧ ∃ m ∈ s.live, m.clusterId = c := by
  simp [ids, and_comm]

theorem ids_perm {s t : Station} (h : s.live.Perm t.live) : s.ids.Perm t.ids :=
  (h.map Msg.clusterId).filter _

theorem ids_perm_cons {s t : Station} {m : Msg} (h : s.live.Perm (m :: t.live)) :
    s.ids.Perm (if 0 < m.clusterId then m.clusterId :: t.ids else t.ids) := by
  have hPerm := (h.map Msg.clusterId).filter (fun c => decide (0 < c))
  rw [map_cons, filter_cons] at hPerm
  simp only [decide_eq_true_eq] at hPerm
  exact hPerm

/-! ## Numbers -/

/-- What the ids of a queue are like as long as messages come in the order of the log. -/
structure Numbered (s : Station) : Prop where
  nodup : s.ids.Nodup
  bound : ∀ c ∈ s.ids, c ≤ s.newest
  sorted : s.queue.unacked.Pairwise (· < ·)
  unacked : ∀ c ∈ s.queue.unacked, 0 < c ∧ c ≤ s.newest

section Numbers

variable {b : Broker} {s t : Station} {m : Msg}

theorem ids_subperm (h : s.live.Perm (m :: t.live)) : t.ids.Subperm s.ids := by
  refine List.Subperm.trans ?_ (ids_perm_cons h).symm.subperm
  split
  · exact (sublist_cons_self ..).subperm
  · exact (List.Sublist.refl _).subperm

/-- Nothing new comes in: what is tracked was live or tracked before. -/
theorem Numbered.fewer (h : Numbered s) (hIds : t.ids.Subperm s.ids)
    (hSorted : t.queue.unacked.Pairwise (· < ·))
    (hUnacked : ∀ c ∈ t.queue.unacked, c ∈ s.queue.unacked ∨ c ∈ s.ids)
    (hNewest : t.newest = s.newest) : Numbered t where
  nodup := by
    obtain ⟨l, hPerm, hSub⟩ := hIds
    exact hPerm.nodup_iff.mp (h.nodup.sublist hSub)
  bound := fun c hc => hNewest ▸ h.bound c (hIds.subset hc)
  sorted := hSorted
  unacked := by
    intro c hc
    rw [hNewest]
    rcases hUnacked c hc with hOld | hLive
    · exact h.unacked c hOld
    · exact ⟨(mem_ids.mp hLive).1, h.bound c hLive⟩

theorem Numbered.moved (h : Numbered s) (hPerm : s.live.Perm t.live)
    (hUnacked : t.queue.unacked = s.queue.unacked) (hNewest : t.newest = s.newest) : Numbered t :=
  h.fewer (ids_perm hPerm).symm.subperm (hUnacked ▸ h.sorted) (fun _ hc => .inl (hUnacked ▸ hc))
    hNewest

/-- The ids after an enqueue: the newcomer's, if it was taken, and some of the old ones. -/
theorem ids_enqueue (b : Broker) (s : Station) (m : Msg) :
    ∃ old, old.Sublist s.ids ∧ ((s.enqueue b m).ids = old ∨
      0 < m.clusterId ∧ (s.enqueue b m).ids.Perm (m.clusterId :: old)) := by
  rcases s.enqueue_cases b m with hEq | ⟨kept, hSuffix, hEq⟩ <;> rw [hEq]
  · exact ⟨s.ids, .refl _, .inl rfl⟩
  -- what the eviction leaves, before the new message is put behind it
  refine ⟨({ s with queue := { s.queue with ready := kept } } : Station).ids,
    ((hSuffix.sublist.append_right _).map Msg.clusterId).filter _, ?_⟩
  by_cases hPos : 0 < m.clusterId
  · refine .inr ⟨hPos, ?_⟩
    refine List.Perm.trans (ids_perm_cons (m := m) ?_) (.of_eq (if_pos hPos))
    simp only [live, append_assoc, singleton_append]
    exact perm_middle
  · refine .inl ?_
    simp [ids, live, filter_append, hPos]

theorem Numbered.enqueue (h : Numbered s) (hNew : m.clusterId = 0 ∨ s.newest < m.clusterId) :
    Numbered (s.enqueue b m) := by
  have hLe : s.newest ≤ max s.newest m.clusterId := le_max_left _ _
  have hSame : (s.enqueue b m).queue.unacked = s.queue.unacked ∧
      (s.enqueue b m).newest = max s.newest m.clusterId := by
    rcases s.enqueue_cases b m with hEq | ⟨kept, -, hEq⟩ <;> rw [hEq] <;> exact ⟨rfl, rfl⟩
  obtain ⟨old, hSub, hIds⟩ := ids_enqueue b s m
  refine ⟨?_, fun c hc => ?_, hSame.1 ▸ h.sorted, fun c hc => ?_⟩
  · rcases hIds with hEq | ⟨hPos, hPerm⟩
    · rw [hEq]
      exact h.nodup.sublist hSub
    · refine hPerm.nodup_iff.mpr (nodup_cons.mpr ⟨fun hIn => ?_, h.nodup.sublist hSub⟩)
      have := h.bound _ (hSub.subset hIn)
      omega
  · rw [hSame.2]
    rcases hIds with hEq | ⟨-, hPerm⟩
    · exact (h.bound c (hSub.subset (hEq ▸ hc))).trans hLe
    · rcases mem_cons.mp (hPerm.mem_iff.mp hc) with rfl | hOld
      · exact le_max_right _ _
      · exact (h.bound c (hSub.subset hOld)).trans hLe
  · rw [hSame.1] at hc
    rw [hSame.2]
    exact ⟨(h.unacked c hc).1, (h.unacked c hc).2.trans hLe⟩

theorem queueConsumeOnDeliver_lists (q : Queue) (cid : Nat) (noAck : Bool) :
    (queueConsumeOnDeliver q cid noAck).ready = q.ready ∧
      (queueConsumeOnDeliver q cid noAck).unacked =
        if 0 < cid ∧ noAck = false then insertUnacked cid q.unacked else q.unacked := by
  unfold queueConsumeOnDeliver
  by_cases hZero : cid = 0
  · simp [hZero]
  · cases noAck <;> simp [hZero, Nat.pos_of_ne_zero hZero]

theorem unacked_queueConsumeOnAck (q : Queue) (cid : Nat) :
    (queueConsumeOnAck q cid).unacked = if cid = 0 then q.unacked else q.unacked.erase cid := by
  unfold queueConsumeOnAck
  split <;> rfl

/-- **One locked operation keeps the ids in order**, if messages come in the order of the log. -/
theorem numbered_step {cmd : QueueCmd} (h : Numbered s) (hStep : s.step b cmd = some t)
    (hOrder : ∀ m, cmd = .enqueue m → m.clusterId = 0 ∨ s.newest < m.clusterId) : Numbered t := by
  cases cmd with
  | enqueue m =>
    cases hStep
    exact h.enqueue (hOrder m rfl)
  | dequeue taker =>
    obtain ⟨m, rest, -, hQueue, hNewest, hPerm⟩ := dequeue_facts hStep
    exact h.moved hPerm (by rw [hQueue]) hNewest
  | deliver k =>
    obtain ⟨taker, m, hAt, hNewest, hCases⟩ := deliver_cases hStep
    rcases hCases with ⟨-, hQueue, hPerm⟩ | ⟨-, hQueue, hPerm⟩ | ⟨-, hQueue, hPerm⟩
    · have hSame : t.queue.unacked = s.queue.unacked := by
        rw [hQueue, (queueConsumeOnDeliver_lists _ _ _).2, if_neg (by simp)]
      exact h.fewer (ids_subperm hPerm) (hSame ▸ h.sorted) (fun _ hc => .inl (hSame ▸ hc)) hNewest
    · have hUnacked := (queueConsumeOnDeliver_lists s.queue m.clusterId false).2
      rw [← hQueue] at hUnacked
      refine h.fewer (ids_perm hPerm).symm.subperm ?_ ?_ hNewest <;> rw [hUnacked]
      · split
        · exact pairwise_insertUnacked h.sorted
        · exact h.sorted
      · intro c hc
        split at hc
        · next hPos =>
          rcases mem_insertUnacked.mp hc with rfl | hOld
          · have hLive : m ∈ s.live := (live_perm_inHand hAt).mem_iff.mpr mem_cons_self
            exact .inr (mem_ids.mpr ⟨hPos.1, m, hLive, rfl⟩)
          · exact .inl hOld
        · exact .inl hc
    · exact h.moved hPerm (by rw [hQueue]) hNewest
  | giveBack k =>
    obtain ⟨m, hQueue, hNewest, hPerm⟩ := giveBack_returns hStep
    exact h.moved hPerm (by rw [hQueue]; rfl) hNewest
  | settle k =>
    obtain ⟨m, -, hQueue, hNewest, hPerm⟩ := settle_facts hStep
    have hUnacked := unacked_queueConsumeOnAck s.queue m.clusterId
    rw [← hQueue] at hUnacked
    refine h.fewer (ids_subperm hPerm) ?_ ?_ hNewest <;> rw [hUnacked]
    · split
      · exact h.sorted
      · exact h.sorted.sublist erase_sublist
    · intro c hc
      split at hc
      · exact .inl hc
      · exact .inl (mem_of_mem_erase hc)
  | requeue k =>
    obtain ⟨m, hQueue, hNewest, hPerm⟩ := requeue_returns hStep
    exact h.moved hPerm (by rw [hQueue]; rfl) hNewest

end Numbers

/-! ## Tracking -/

/-- Every live replicated message up to `deliver_hi` is tracked. -/
structure Tracks (s : Station) : Prop extends Numbered s where
  unackedHi : ∀ c ∈ s.queue.unacked, c ≤ s.queue.deliverHi
  hi : s.queue.deliverHi ≤ s.newest
  tracked : ∀ c ∈ s.ids, c ≤ s.queue.deliverHi → c ∈ s.queue.unacked

theorem Tracks.watermark_lt {s : Station} (h : Tracks s) (hLive : c ∈ s.ids) :
    queueConsumeWatermark s.queue < c := by
  have hTracked := h.tracked c hLive
  have hSorted := h.sorted
  have hUnacked := h.unacked
  unfold queueConsumeWatermark
  cases hList : s.queue.unacked with
  | nil =>
    rw [hList] at hTracked
    exact Nat.lt_of_not_le fun hLe => by cases hTracked hLe
  | cons oldest rest =>
    rw [hList] at hTracked hSorted hUnacked
    have hPos := (hUnacked oldest mem_cons_self).1
    have hHi := h.unackedHi oldest (by rw [hList]; exact mem_cons_self)
    show oldest - 1 < c
    by_cases hLe : c ≤ s.queue.deliverHi
    · rcases mem_cons.mp (hTracked hLe) with rfl | hRest
      · omega
      · have := (pairwise_cons.mp hSorted).1 c hRest
        omega
    · omega

section Steps

variable {b : Broker} {s t : Station}

theorem Tracks.moved (h : Tracks s) (hNumbered : Numbered t) (hIds : t.ids ⊆ s.ids)
    (hUnacked : t.queue.unacked = s.queue.unacked)
    (hHi : t.queue.deliverHi = s.queue.deliverHi) (hNewest : s.newest ≤ t.newest) : Tracks t := by
  refine ⟨hNumbered, ?_, ?_, ?_⟩
  · rw [hUnacked, hHi]
    exact h.unackedHi
  · rw [hHi]
    exact h.hi.trans hNewest
  · intro c hc
    rw [hHi, hUnacked]
    exact h.tracked c (hIds hc)

variable {m : Msg}

theorem Tracks.enqueue (h : Tracks s) (hNew : m.clusterId = 0 ∨ s.newest < m.clusterId) :
    Tracks (s.enqueue b m) := by
  have hNumbered : Numbered (s.enqueue b m) := h.toNumbered.enqueue hNew
  have hSame : (s.enqueue b m).queue.unacked = s.queue.unacked ∧
      (s.enqueue b m).queue.deliverHi = s.queue.deliverHi ∧
      s.newest ≤ (s.enqueue b m).newest := by
    rcases s.enqueue_cases b m with hEq | ⟨kept, -, hEq⟩ <;> rw [hEq] <;>
      exact ⟨rfl, rfl, le_max_left _ _⟩
  obtain ⟨old, hSub, hEq | ⟨-, hPerm⟩⟩ := ids_enqueue b s m
  · exact h.moved hNumbered (hEq ▸ hSub.subset) hSame.1 hSame.2.1 hSame.2.2
  refine ⟨hNumbered, ?_, hSame.2.1 ▸ h.hi.trans hSame.2.2, fun c hc hLe => ?_⟩
  · rw [hSame.1, hSame.2.1]
    exact h.unackedHi
  · rw [hSame.2.1] at hLe
    rw [hSame.1]
    rcases mem_cons.mp (hPerm.mem_iff.mp hc) with rfl | hOld
    · -- the newcomer is above everything that was recorded
      have hHi := h.hi
      have hPos := (mem_ids.mp hc).1
      omega
    · exact h.tracked c (hSub.subset hOld) hLe

/-- Every live replicated message older than `c` is tracked. -/
def OlderTracked (s : Station) (c : Nat) : Prop := ∀ x ∈ s.ids, x < c → x ∈ s.queue.unacked

instance (s : Station) (c : Nat) : Decidable (OlderTracked s c) :=
  inferInstanceAs (Decidable (∀ x ∈ s.ids, _))

/-- The record of a delivery: with or without acknowledgement the largest recorded id grows. -/
theorem Tracks.record (h : Tracks s) (hNumbered : Numbered t) {noAck : Bool}
    (hIds : t.ids ⊆ s.ids) (hQueue : t.queue = queueConsumeOnDeliver s.queue m.clusterId noAck)
    (hGone : noAck = true → m.clusterId ∉ t.ids) (hLive : m ∈ s.live)
    (hNewest : t.newest = s.newest) (hOlder : OlderTracked s m.clusterId) : Tracks t := by
  by_cases hZero : m.clusterId = 0
  · rw [queueConsumeOnDeliver, if_pos hZero] at hQueue
    exact h.moved hNumbered hIds (by rw [hQueue]) (by rw [hQueue]) hNewest.ge
  have hPos := Nat.pos_of_ne_zero hZero
  have hBound := h.bound _ (mem_ids.mpr ⟨hPos, m, hLive, rfl⟩)
  have hHi : t.queue.deliverHi = max s.queue.deliverHi m.clusterId := by
    rw [hQueue, queueConsumeOnDeliver, if_neg hZero]
    split <;> rfl
  have hUnacked := (queueConsumeOnDeliver_lists s.queue m.clusterId noAck).2
  rw [← hQueue] at hUnacked
  have hMem : ∀ c, c ∈ t.queue.unacked ↔
      c ∈ s.queue.unacked ∨ noAck = false ∧ c = m.clusterId := by
    intro c
    rw [hUnacked]
    cases noAck with
    | true => simp
    | false => simp [hPos, mem_insertUnacked, or_comm]
  refine ⟨hNumbered, fun c hc => ?_, ?_, fun c hc hLe => ?_⟩
  · rw [hHi]
    rcases (hMem c).mp hc with hOld | ⟨-, rfl⟩
    · exact (h.unackedHi c hOld).trans (le_max_left _ _)
    · exact le_max_right _ _
  · rw [hHi, hNewest]
    exact max_le h.hi hBound
  · rw [hHi] at hLe
    by_cases hOld : c ≤ s.queue.deliverHi
    · exact (hMem c).mpr (.inl (h.tracked c (hIds hc) hOld))
    by_cases hEq : c = m.clusterId
    · -- the message itself is tracked, or gone
      refine (hMem c).mpr (.inr ⟨eq_false_of_ne_true fun hNoAck => hGone hNoAck (hEq ▸ hc), hEq⟩)
    · exact (hMem c).mpr (.inl (hOlder c (hIds hc) (by omega)))

theorem not_mem_ids_of_left (h : Numbered s) (hPerm : s.live.Perm (m :: t.live)) :
    m.clusterId ∉ t.ids := by
  intro hIn
  have hPos := (mem_ids.mp hIn).1
  have hIds := ids_perm_cons hPerm
  rw [if_pos hPos] at hIds
  exact (nodup_cons.mp (hIds.nodup_iff.mp h.nodup)).1 hIn

theorem Tracks.settle (h : Tracks s) (hNumbered : Numbered t) (hPerm : s.live.Perm (m :: t.live))
    (hQueue : t.queue = queueConsumeOnAck s.queue m.clusterId) (hNewest : t.newest = s.newest) :
    Tracks t := by
  have hIds := (ids_subperm hPerm).subset
  have hUnacked := unacked_queueConsumeOnAck s.queue m.clusterId
  have hHi : t.queue.deliverHi = s.queue.deliverHi := by
    rw [hQueue, queueConsumeOnAck]
    split <;> rfl
  rw [← hQueue] at hUnacked
  by_cases hZero : m.clusterId = 0
  · rw [if_pos hZero] at hUnacked
    exact h.moved hNumbered hIds hUnacked hHi hNewest.ge
  rw [if_neg hZero] at hUnacked
  refine ⟨hNumbered, fun c hc => ?_, by rw [hHi, hNewest]; exact h.hi, fun c hc hLe => ?_⟩
  · rw [hUnacked] at hc
    rw [hHi]
    exact h.unackedHi c (mem_of_mem_erase hc)
  · rw [hHi] at hLe
    have hNe : c ≠ m.clusterId := fun hEq => not_mem_ids_of_left h.toNumbered hPerm (hEq ▸ hc)
    rw [hUnacked]
    exact (mem_erase_of_ne hNe).mpr (h.tracked c (hIds hc) hLe)

/-- The steps that keep the watermark safe: a delivery is recorded only when every older live
replicated message is tracked. Replicated messages come in the order of the log. -/
def RecordsInOrder (s : Station) (cmd : QueueCmd) (_ : Station) : Prop :=
  match cmd with
  | .enqueue m => m.clusterId = 0 ∨ s.newest < m.clusterId
  | .deliver k => ∀ e ∈ s.inHand[k]?, e.1 ≠ .get false → OlderTracked s e.2.clusterId
  | _ => True

instance (s : Station) (cmd : QueueCmd) (t : Station) : Decidable (RecordsInOrder s cmd t) :=
  match cmd with
  | .enqueue _ => inferInstanceAs (Decidable (_ ∨ _))
  | .deliver k => inferInstanceAs (Decidable (∀ e ∈ s.inHand[k]?, _))
  | .dequeue _ | .giveBack _ | .settle _ | .requeue _ => .isTrue trivial

/-- **One locked operation keeps the tracking invariant.** -/
theorem tracks_step {cmd : QueueCmd} (h : Tracks s) (hStep : s.step b cmd = some t)
    (hOrder : RecordsInOrder s cmd t) : Tracks t := by
  have hNumbered : Numbered t := by
    refine numbered_step h.toNumbered hStep ?_
    rintro m rfl
    exact hOrder
  cases cmd with
  | enqueue m =>
    cases hStep
    exact h.enqueue hOrder
  | dequeue taker =>
    obtain ⟨m, rest, -, hQueue, hNewest, hPerm⟩ := dequeue_facts hStep
    exact h.moved hNumbered (ids_perm hPerm).symm.subset (by rw [hQueue]) (by rw [hQueue])
      hNewest.ge
  | deliver k =>
    obtain ⟨taker, m, hAt, hNewest, hCases⟩ := deliver_cases hStep
    have hOlder : taker ≠ .get false → OlderTracked s m.clusterId := hOrder (taker, m) hAt
    have hLive : m ∈ s.live := (live_perm_inHand hAt).mem_iff.mpr mem_cons_self
    rcases hCases with ⟨hTaker, hQueue, hPerm⟩ | ⟨rfl, hQueue, hPerm⟩ | ⟨rfl, hQueue, hPerm⟩
    · refine h.record hNumbered (ids_subperm hPerm).subset hQueue
        (fun _ => not_mem_ids_of_left h.toNumbered hPerm) hLive hNewest (hOlder ?_)
      rcases hTaker with rfl | rfl <;> decide
    · exact h.record hNumbered (ids_perm hPerm).symm.subset hQueue
        (fun hNoAck => (Bool.noConfusion hNoAck)) hLive hNewest (hOlder (by decide))
    · exact h.moved hNumbered (ids_perm hPerm).symm.subset (by rw [hQueue]) (by rw [hQueue])
        hNewest.ge
  | giveBack k =>
    obtain ⟨m, hQueue, hNewest, hPerm⟩ := giveBack_returns hStep
    exact h.moved hNumbered (ids_perm hPerm).symm.subset (by rw [hQueue]; rfl)
      (by rw [hQueue]; rfl) hNewest.ge
  | settle k =>
    obtain ⟨m, -, hQueue, hNewest, hPerm⟩ := settle_facts hStep
    exact h.settle hNumbered hPerm hQueue hNewest
  | requeue k =>
    obtain ⟨m, hQueue, hNewest, hPerm⟩ := requeue_returns hStep
    exact h.moved hNumbered (ids_perm hPerm).symm.subset (by rw [hQueue]; rfl)
      (by rw [hQueue]; rfl) hNewest.ge

end Steps

/-! ## Runs -/

/-- A queue that nothing was enqueued to yet. -/
def Queue.station (q : Queue) : Station where
  queue := { q with ready := [], deliverHi := 0, unacked := [] }

theorem numbered_station (q : Queue) : Numbered q.station where
  nodup := nodup_nil
  bound := fun c hc => by cases hc
  sorted := List.Pairwise.nil
  unacked := fun c hc => by cases hc

theorem tracks_station (q : Queue) : Tracks q.station where
  toNumbered := numbered_station q
  unackedHi := fun c hc => by cases hc
  hi := Nat.le_refl _
  tracked := fun c hc => by cases hc

/-- **The watermark stays below every live replicated message** of the queue along every
interleaving in which deliveries are recorded in order. -/
theorem watermark_run {b : Broker} {q : Queue} {s : Station}
    (hRun : Run.Reach (Station.step b) RecordsInOrder q.station s) {m : Msg} (hLive : m ∈ s.live)
    (hReplicated : 0 < m.clusterId) : queueConsumeWatermark s.queue < m.clusterId := by
  have hTracks : Tracks s :=
    Run.Reach.invariant (P := Tracks) (fun _ _ _ h => tracks_step h) (tracks_station q) hRun
  exact hTracks.watermark_lt (mem_ids.mpr ⟨hReplicated, m, hLive, rfl⟩)

def demoQueue : Queue := { vhost := [], name := [113], flags := 2, gen := 0 }

def replicated (cid : Nat) : Msg :=
  { exchange := [], routingKey := [113], props := [], body := [], clusterId := cid }

/-- Message 1 waits for its ack while message 2 is pulled with auto-ack. -/
def pullBehind : List QueueCmd :=
  [.enqueue (replicated 1), .enqueue (replicated 2), .dequeue (.consumer false), .deliver 0,
    .dequeue (.get true), .deliver 0]

theorem watermark_run_pulled : ∃ s, Run.runList (Station.step {}) demoQueue.station pullBehind =
      some s ∧ replicated 1 ∈ s.live ∧ queueConsumeWatermark s.queue < 1 := by
  have hRun : Run.runChecked (Station.step {}) (fun s cmd t => decide (RecordsInOrder s cmd t))
      demoQueue.station pullBehind = some _ := rfl
  have hReach : Run.Reach (Station.step {}) RecordsInOrder demoQueue.station _ :=
    Run.reach_of_runChecked (fun _ _ _ => of_decide_eq_true) hRun
  exact ⟨_, rfl, by decide, watermark_run hReach (m := replicated 1) (by decide) (by decide)⟩

/-- Two workers on one queue: the second records the delivery of message 2 while message 1
is still in the hands of the first. The watermark then covers message 1. -/
theorem watermark_overtakes : ∃ s, Run.runList (Station.step {}) demoQueue.station
      [.enqueue (replicated 1), .enqueue (replicated 2), .dequeue (.consumer false),
        .dequeue (.consumer false), .deliver 1] = some s ∧
    (.consumer false, replicated 1) ∈ s.inHand ∧ queueConsumeWatermark s.queue = 1 :=
  ⟨_, rfl, by decide, by decide⟩

/-! ## No copy is lost or doubled -/

def QueueCmd.brings : QueueCmd → List Msg
  | .enqueue m => [m]
  | _ => []

/-- What leaves for good with a command: a refused newcomer or what it evicts, a message that
is delivered without acknowledgement, a settled one. -/
def Station.sheds (b : Broker) (s : Station) : QueueCmd → List Msg
  | .enqueue m =>
    match queueEnqueue b s.queue m with
    | none => [m]
    | some (q, _) => s.queue.ready.take (s.queue.ready.length + 1 - q.ready.length)
  | .deliver k =>
    match s.inHand[k]? with
    | some (.consumer true, m) | some (.get true, m) => [m]
    | _ => []
  | .settle k => (s.unsettled[k]?).toList
  | _ => []

/-- No step loses a message or makes one. -/
theorem sheds_step {b : Broker} {s t : Station} {cmd : QueueCmd} (hStep : s.step b cmd = some t) :
    (cmd.brings ++ s.live).Perm (s.sheds b cmd ++ t.live) := by
  cases cmd with
  | enqueue m =>
    cases hStep
    simp only [Station.enqueue, sheds, QueueCmd.brings]
    cases hEnq : queueEnqueue b s.queue m with
    | none => exact .refl _
    | some r =>
      obtain ⟨kept, ⟨front, hFront⟩, hQueue⟩ := queueEnqueue_queue hEnq
      -- what was evicted is the front that is no longer there
      have hTake : (front ++ kept).take ((front ++ kept).length + 1 - (kept ++ [m]).length) =
          front := take_left' (by simp)
      simp only [live, hQueue, ← hFront, hTake, perm_iff_count, count_append]
      omega
  | dequeue taker =>
    obtain ⟨m, rest, -, -, -, hPerm⟩ := dequeue_facts hStep
    exact hPerm
  | deliver k =>
    obtain ⟨taker, m, hAt, -, hCases⟩ := deliver_cases hStep
    simp only [sheds, hAt]
    rcases hCases with ⟨rfl | rfl, -, hPerm⟩ | ⟨rfl, -, hPerm⟩ | ⟨rfl, -, hPerm⟩ <;> exact hPerm
  | settle k =>
    obtain ⟨m, hAt, -, -, hPerm⟩ := settle_facts hStep
    simp only [sheds, hAt]
    exact hPerm
  | giveBack k =>
    obtain ⟨m, hReturns⟩ := giveBack_returns hStep
    exact hReturns.live
  | requeue k =>
    obtain ⟨m, hReturns⟩ := requeue_returns hStep
    exact hReturns.live

/-- A queue with its consumers, all that was ever put into it, and all that left for good. -/
structure Custody where
  station : Station
  came : List Msg := []
  gone : List Msg := []

def Custody.Balanced (a : Custody) : Prop := a.came.Perm (a.gone ++ a.station.live)

/-- A command that is possible is carried out. -/
def Custody.take (b : Broker) (a : Custody) (cmd : QueueCmd) : Custody :=
  match a.station.step b cmd with
  | none => a
  | some t => ⟨t, cmd.brings ++ a.came, a.station.sheds b cmd ++ a.gone⟩

theorem balanced_take {b : Broker} {a : Custody} (h : a.Balanced) (cmd : QueueCmd) :
    (a.take b cmd).Balanced := by
  unfold Custody.take
  split
  · exact h
  next t hStep =>
  -- the copies of one message, before and after
  have hMoved := sheds_step hStep
  simp only [Custody.Balanced, perm_iff_count, count_append] at h hMoved ⊢
  intro x
  have := h x
  have := hMoved x
  omega

end BeaverMQ
