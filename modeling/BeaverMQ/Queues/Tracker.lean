import BeaverMQ.Queues.Watermark
import Mathlib.Data.List.Induction

/-!
# BeaverMQ — the ids that wait for an acknowledgement

A queue keeps the replicated messages that were delivered and not acknowledged as an ascending
array of their ids. A delivery looks for the place of its id from the end, moves what is above by
one cell and writes the id; an acknowledgement closes the gap. The other modules insert into a
list from the front (`insertUnacked`); on an ascending array the two do the same.
-/

namespace BeaverMQ.Tracker

open List

/-- The fields of `struct beaver_queue` that track deliveries. -/
structure State where
  unacked : List Nat := []
  deliverHi : Nat := 0

/-- The id gets its cell in the array, given from its end: the larger ids move up, and an id that
has a cell keeps it. -/
def trackFrom (cid : Nat) : List Nat → List Nat
  | [] => [cid]
  | x :: below =>
    if cid < x then x :: trackFrom cid below else if x = cid then x :: below else cid :: x :: below

/-- The scan of `queue_consume_on_deliver` from the end, and the move. -/
def track (unacked : List Nat) (cid : Nat) : List Nat := (trackFrom cid unacked.reverse).reverse

/-- `queue_consume_on_deliver`. -/
def onDeliver (s : State) (cid : Nat) (noAck : Bool) : State :=
  if cid = 0 then s
  else if noAck then { s with deliverHi := max s.deliverHi cid }
  else { unacked := track s.unacked cid, deliverHi := max s.deliverHi cid }

/-- `queue_consume_on_ack`. -/
def onAck (s : State) (cid : Nat) : State :=
  if cid = 0 then s else { s with unacked := s.unacked.erase cid }

/-- `queue_consume_watermark`. -/
def watermark (s : State) : Nat :=
  if s.unacked.length ≠ 0 then s.unacked.getD 0 0 - 1 else s.deliverHi

/-! ## The array and the list -/

variable {l : List Nat} {c x : Nat}

theorem insertUnacked_append (r : List Nat) (hAll : ∀ y ∈ l, y < c) :
    insertUnacked c (l ++ r) = l ++ insertUnacked c r := by
  induction l with
  | nil => rfl
  | cons y l ih =>
    have hy := hAll y mem_cons_self
    rw [cons_append, insertUnacked, if_neg (by omega), if_neg (by omega),
      ih fun z hz => hAll z (mem_cons_of_mem y hz), cons_append]

theorem insertUnacked_below (hLt : c < x) (l : List Nat) :
    insertUnacked c (l ++ [x]) = insertUnacked c l ++ [x] := by
  induction l with
  | nil => simp [insertUnacked, hLt]
  | cons y l ih =>
    simp only [cons_append, insertUnacked, ih]
    split
    · rfl
    · split <;> rfl

/-- On an ascending array the source's scan from the end finds the place of the list's insertion
from the front. -/
theorem track_eq_insertUnacked (h : l.Pairwise (· < ·)) : track l c = insertUnacked c l := by
  induction l using reverseRecOn with
  | nil => rfl
  | append_singleton l y ih =>
    obtain ⟨hl, -, hLast⟩ := pairwise_append.mp h
    rw [track, reverse_append, reverse_singleton, singleton_append, trackFrom]
    by_cases hLt : c < y
    · -- the last id moves up: what happens below it is the induction hypothesis
      rw [if_pos hLt, reverse_cons, insertUnacked_below hLt, ← ih hl]
      rfl
    -- the scan stops at the end, where the id is or belongs
    have hLow : ∀ z ∈ l, z < c := fun z hz =>
      (hLast z hz y mem_cons_self).trans_le (not_lt.mp hLt)
    rw [if_neg hLt, insertUnacked_append [y] hLow, insertUnacked, if_neg hLt]
    by_cases hEq : c = y
    · simp [hEq]
    · simp [hEq, Ne.symm hEq, insertUnacked]

/-! ## Calls -/

inductive Call
  | deliver (cid : Nat) (noAck : Bool)
  | ack (cid : Nat)

def Call.cid : Call → Nat
  | .deliver cid _ | .ack cid => cid

def Call.run (s : State) : Call → State
  | .deliver cid noAck => onDeliver s cid noAck
  | .ack cid => onAck s cid

def Call.delivered : Call → Option Nat
  | .deliver cid _ => some cid
  | .ack _ => none

/-- The id was delivered with manual acknowledgement and not acknowledged since. -/
def Outstanding (calls : List Call) (cid : Nat) : Prop :=
  ∃ before after, calls = before ++ .deliver cid false :: after ∧ .ack cid ∉ after

theorem outstanding_concat {calls : List Call} {call : Call} :
    Outstanding (calls ++ [call]) x ↔
      call = .deliver x false ∨ Outstanding calls x ∧ call ≠ .ack x := by
  constructor
  · rintro ⟨before, after, hEq, hNo⟩
    induction after using reverseRecOn with
    | nil => exact .inl (append_inj' hEq rfl |>.2 |> List.cons.inj |>.1)
    | append_singleton after last _ =>
      obtain ⟨rfl, hLast⟩ := append_inj' (hEq.trans (append_assoc before (_ :: after) [last]).symm) rfl
      obtain rfl := (List.cons.inj hLast).1
      simp only [mem_append, mem_singleton, not_or] at hNo
      exact .inr ⟨⟨before, after, rfl, hNo.1⟩, Ne.symm hNo.2⟩
  · rintro (rfl | ⟨⟨before, after, rfl, hNo⟩, hNe⟩)
    · exact ⟨calls, [], rfl, not_mem_nil⟩
    · refine ⟨before, after ++ [call], by simp, ?_⟩
      simp only [mem_append, mem_singleton, not_or]
      exact ⟨hNo, Ne.symm hNe⟩

/-- The array is ascending and has the outstanding ids, and `deliver_hi` is the largest id that was
delivered. -/
structure Tracked (calls : List Call) (s : State) : Prop where
  sorted : s.unacked.Pairwise (· < ·)
  outstanding : ∀ x, x ∈ s.unacked ↔ Outstanding calls x
  hi : s.deliverHi = (calls.filterMap Call.delivered).foldl max 0

theorem tracked_step {calls : List Call} {call : Call} {s : State} (h : Tracked calls s)
    (hId : call.cid ≠ 0) : Tracked (calls ++ [call]) (call.run s) := by
  obtain ⟨hSorted, hMem, hHi⟩ := h
  have hLast : ∀ hi, hi = (call.delivered.toList).foldl max s.deliverHi →
      hi = ((calls ++ [call]).filterMap Call.delivered).foldl max 0 := by
    rintro hi rfl
    cases call <;> simp [filterMap_cons, Call.delivered, hHi]
  cases call with
  | deliver cid noAck =>
    simp only [Call.run, onDeliver, if_neg (show cid ≠ 0 from hId)]
    cases noAck with
    | true => exact ⟨hSorted, fun x => by simp [outstanding_concat, hMem], hLast _ rfl⟩
    | false =>
      rw [if_neg Bool.false_ne_true, track_eq_insertUnacked hSorted]
      refine ⟨pairwise_insertUnacked hSorted, fun x => ?_, hLast _ rfl⟩
      simp [mem_insertUnacked, outstanding_concat, hMem, eq_comm]
  | ack cid =>
    simp only [Call.run, onAck, if_neg (show cid ≠ 0 from hId)]
    refine ⟨hSorted.sublist erase_sublist, fun x => ?_, hLast _ rfl⟩
    have hNodup : s.unacked.Nodup := hSorted.imp Nat.ne_of_lt
    rw [hNodup.mem_erase_iff, hMem, outstanding_concat]
    simp [and_comm, eq_comm]

theorem tracked_run {calls : List Call} (hIds : ∀ call ∈ calls, call.cid ≠ 0) :
    Tracked calls (calls.foldl Call.run {}) := by
  induction calls using reverseRecOn with
  | nil => exact ⟨.nil, fun x => ⟨nofun, fun ⟨_, _, hEq, _⟩ => by simp at hEq⟩, rfl⟩
  | append_singleton calls call ih =>
    rw [foldl_append]
    exact tracked_step (ih fun call hIn => hIds call (mem_append_left _ hIn)) (hIds call (by simp))

/-- **The tracker is a finite set**: whatever ids are delivered and acknowledged in whatever order,
the array is ascending, it has exactly the outstanding ids, `deliver_hi` is the largest id ever
delivered, and the watermark is just below the smallest outstanding id, or `deliver_hi` when there
is none. -/
theorem tracker_refines_set (calls : List Call) (hIds : ∀ call ∈ calls, call.cid ≠ 0) :
    Tracked calls (calls.foldl Call.run {}) ∧
      (∀ x, IsLeast {x | Outstanding calls x} x → watermark (calls.foldl Call.run {}) = x - 1) ∧
      ((∀ x, ¬ Outstanding calls x) →
        watermark (calls.foldl Call.run {}) = (calls.foldl Call.run {}).deliverHi) := by
  have h := tracked_run hIds
  refine ⟨h, fun x hLeast => ?_, fun hNone => ?_⟩ <;> unfold watermark
  · -- the first cell of an ascending array is its least id
    have hIn := (h.outstanding x).mpr hLeast.1
    cases hCells : (calls.foldl Call.run {}).unacked with
    | nil =>
      rw [hCells] at hIn
      cases hIn
    | cons y rest =>
      have hLe : x ≤ y := hLeast.2 ((h.outstanding y).mp (hCells ▸ mem_cons_self))
      have hSorted := h.sorted
      rw [hCells] at hIn hSorted
      rcases mem_cons.mp hIn with rfl | hRest
      · simp
      · have := (pairwise_cons.mp hSorted).1 x hRest
        omega
  · have hEmpty := eq_nil_iff_forall_not_mem.mpr fun x hx => hNone x ((h.outstanding x).mp hx)
    simp [hEmpty]

/-- Three deliveries out of order, one of them a second time, and an acknowledgement. -/
theorem tracker_refines_set_three :
    let calls : List Call := [.deliver 7 false, .deliver 3 false, .deliver 9 true,
      .deliver 7 false, .ack 3]
    (calls.foldl Call.run {}).unacked = [7] ∧ watermark (calls.foldl Call.run {}) = 6 ∧
      Outstanding calls 7 := by
  intro calls
  have hSet := tracker_refines_set calls (by decide)
  exact ⟨by decide, by decide, (hSet.1.outstanding 7).mp (by decide)⟩

end BeaverMQ.Tracker
