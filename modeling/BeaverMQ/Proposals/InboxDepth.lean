import BeaverMQ.Lib.Run
import BeaverMQ.Model.Inbox
import BeaverMQ.Wire.Sizes

/-!
# BeaverMQ — the balance of the inbox counter

`inbox_depth` is raised once for each proposal that `propose_internal` links, and lowered when the
loop has put a proposal on the wire or into the log. The same `forward_batch_to_leader` also sends
what waits in `fwd_pending` a second time, and lowers the counter again, or puts it back into the
inbox without raising it.
-/

namespace BeaverMQ

open List

namespace Inbox

variable {s t : Inbox}

def owed (s : Inbox) : Int := s.linked.length + s.loop.inHand.length - s.uncounted

theorem takeSlice_le (prs : List Proposal) : (takeSlice prs 0 4).length ≤ prs.length := by
  rw [takeSlice_eq]
  exact (Batch.take_isFront _ _ _).length_le

/-- **A step moves the counter with the proposals**, except that a retransmission takes hold of
proposals that were counted out before. -/
theorem balance_step {e : Step} (hStep : s.step e = some t) :
    t.owed - t.depth = s.owed - s.depth + s.resentBy e := by
  cases e with
  | link =>
    cases hStep
    simp only [owed, propose, resentBy, length_append, length_singleton]
    omega
  | count | relay | acked =>
    simp only [step] at hStep
    split at hStep <;> cases hStep
    simp only [owed, propose, resentBy, length_append, length_singleton]
    omega
  | drain leader =>
    simp only [step] at hStep
    split at hStep <;> cases hStep
    rename_i hIdle
    cases leader with
    | false | true => simp [owed, resentBy, LoopAt.inHand, hIdle]
  | resend =>
    simp only [step] at hStep
    split at hStep <;> try cases hStep
    rename_i hIdle
    split at hStep <;> cases hStep
    · rename_i hNone
      simp [resentBy, hNone]
    · -- the batch was counted out when it was sent for the first time
      simp only [owed, resentBy, LoopAt.inHand, hIdle, length_nil]
      omega
  | send =>
    simp only [step] at hStep
    split at hStep <;> cases hStep
    rename_i pr prs hLoop
    have hSlice := takeSlice_le (pr :: prs)
    simp only [owed, resentBy, LoopAt.inHand, hLoop, length_drop]
    omega
  | giveUp | append | rewrap =>
    simp only [step] at hStep
    split at hStep <;> cases hStep
    rename_i hLoop
    simp only [owed, propose, resentBy, LoopAt.inHand, hLoop, length_append, length_cons,
      length_nil]
    omega
  | finish =>
    simp only [step] at hStep
    split at hStep <;> cases hStep
    all_goals
      rename_i hLoop
      simp [owed, resentBy, LoopAt.inHand, hLoop]

/-- **What the counter lacks is what was retransmitted.** -/
theorem balance_run {es : List Step} (hRun : Run.runList step s es = some t) :
    t.owed - t.depth = s.owed - s.depth + resentIn s es := by
  induction es generalizing s with
  | nil =>
    cases hRun
    simp [resentIn]
  | cons e es ih =>
    obtain ⟨u, hStep, hRest⟩ := Option.bind_eq_some_iff.mp hRun
    have hFirst := balance_step hStep
    have hThen := ih hRest
    rw [resentIn, hStep, Option.map_some, Option.getD_some]
    push_cast
    omega

/-- The counter stays within 32 bits while the proposals in the lists, the workers that have still to
count and the retransmissions so far do. -/
theorem depth_range {es : List Step} (hRun : Run.runList step {} es = some s)
    (hOwed : s.linked.length + s.loop.inHand.length < 2 ^ 31)
    (hLacks : s.uncounted + resentIn {} es ≤ 2 ^ 31) : -2 ^ 31 ≤ s.depth ∧ s.depth < 2 ^ 31 := by
  have hBalance := balance_run hRun
  have hStart : owed {} - (depth {}) = 0 := rfl
  rw [hStart, owed] at hBalance
  omega

/-! ## The node's loop takes these steps -/

variable {n : Node} {d : Int} {g : Bool} {u k : Nat} {list : List Proposal}

/-- Steps with `k` retransmissions take the lists to those of the node, at the end of a call. -/
def Reaches (s : Inbox) (n : Node) (k : Nat) : Prop :=
  ∃ es d g u, Run.runList step s es = some ⟨n.fwd.inbox, n.fwd.pending, d, g, u, .idle⟩ ∧
    resentIn s es = k

theorem Reaches.step (e : Step) (h : t.Reaches n k) (hStep : s.step e = some t) :
    s.Reaches n (s.resentBy e + k) := by
  obtain ⟨es, d, g, u, hRun, rfl⟩ := h
  refine ⟨e :: es, d, g, u, Option.bind_eq_some_iff.mpr ⟨t, hStep, hRun⟩, ?_⟩
  rw [resentIn, hStep]
  rfl

theorem reaches_nil : Reaches ⟨n.fwd.inbox, n.fwd.pending, d, g, u, .forwarding []⟩ n 0 :=
  .step .finish ⟨[], _, _, _, rfl, rfl⟩ rfl

/-- `forward_batch_to_leader` sends slice after slice, and puts the rest back. -/
theorem reaches_forwardLoop (hFuel : list.length ≤ k) :
    Reaches ⟨n.fwd.inbox, n.fwd.pending, d, g, u, .forwarding list⟩ (forwardLoop k n list) 0 := by
  fun_induction forwardLoop k n list generalizing d with
  | case1 =>
    obtain rfl := length_eq_zero_iff.mp (Nat.le_zero.mp hFuel)
    exact reaches_nil
  | case2 => exact reaches_nil
  | case3 k n pr prs lid hLid hUp slice =>
    rename_i ih
    -- a slice has at least one proposal, so that the fuel lasts
    have hSome : 0 < slice.length := by simp [slice, takeSlice, clFwdMaxOps]
    refine .step .send (ih ?_) rfl
    rw [length_drop]
    omega
  | case4 => exact .step .giveUp reaches_nil rfl
  | case5 => exact .step .giveUp reaches_nil rfl

/-- The leader's loop appends what it has in hand, or proposes it again. -/
theorem reaches_drainLoop :
    Reaches ⟨n.fwd.inbox, n.fwd.pending, d, g, u, .appending list⟩ (list.foldl drainOne n) 0 := by
  induction list generalizing n d g with
  | nil => exact .step .finish ⟨[], _, _, _, rfl, rfl⟩ rfl
  | cons pr prs ih =>
    rw [foldl_cons]
    by_cases hRole : n.role = .leader
    · obtain ⟨hInbox, hPending⟩ : (drainOne n pr).fwd.inbox = n.fwd.inbox ∧
          (drainOne n pr).fwd.pending = n.fwd.pending := by
        rw [drainOne, leaderAppend, if_pos hRole, if_pos hRole]
        dsimp only
        unfold pushFwdAckPending
        split <;> exact ⟨rfl, rfl⟩
      rw [← hInbox, ← hPending]
      exact .step .append ih rfl
    · rw [drainOne, if_neg hRole]
      exact .step (.rewrap (n.fwd.seqNext + 1)) ih rfl

/-- **`drain_inbox` is a run of these steps**: at a leader up to `leader_flush`, which works on the
log and leaves both lists alone. -/
theorem reaches_drainInbox : Reaches ⟨n.fwd.inbox, n.fwd.pending, d, g, u, .idle⟩
    (if n.role ≠ .leader then drainInbox n
      else n.fwd.inbox.foldl drainOne { n with fwd := { n.fwd with inbox := [] } }) 0 := by
  split
  · rename_i hRole
    rw [drainInbox, if_pos hRole]
    exact .step (.drain false) (reaches_forwardLoop le_rfl) rfl
  · exact .step (.drain true) reaches_drainLoop rfl

/-- **The retransmission is one too**, and what it takes in hand was counted out before. -/
theorem reaches_resendPending (hSome : n.fwd.pending ≠ []) :
    Reaches ⟨n.fwd.inbox, n.fwd.pending, d, g, u, .idle⟩ (resendPending n)
      n.fwd.pending.length :=
  .step .resend (reaches_forwardLoop le_rfl) (if_neg hSome)

/-! ## The counter -/

/-- **The counter is right exactly as long as nothing was retransmitted.** In a state where no
worker has still to count and the loop is idle, `inbox_depth` is the length of the inbox if and only
if every retransmission of the run found `fwd_pending` empty. -/
theorem inbox_accounting_iff {es : List Step} (hRun : Run.runList step {} es = some s)
    (hQuiet : s.Quiet) : s.depth = s.linked.length ↔ resentIn {} es = 0 := by
  have hBalance := balance_run hRun
  have hStart : owed {} - (depth {}) = 0 := rfl
  obtain ⟨hCounted, hIdle⟩ := hQuiet
  rw [hStart] at hBalance
  have hOwed : s.owed = s.linked.length := by
    simp [owed, hCounted, hIdle, LoopAt.inHand]
  rw [hOwed] at hBalance
  omega

/-- A proposal that is drained and sent once is counted in and out. -/
theorem inbox_accounting_once : let pr : Proposal := ⟨2, [1], 1⟩
    let es : List Step := [.link pr, .count, .drain false, .send, .finish, .acked 1, .resend]
    ∃ s, Run.runList step {} es = some s ∧ s.Quiet ∧ s.depth = s.linked.length := by
  intro pr es
  have hRun : Run.runList step {} es = some {} := by decide
  exact ⟨{}, hRun, ⟨rfl, rfl⟩, (inbox_accounting_iff hRun ⟨rfl, rfl⟩).mpr (by decide)⟩

/-- A proposal that is sent again before its ack came is counted out twice; one that is put back
into the inbox instead is not counted in. -/
theorem inbox_accounting_resent : let pr : Proposal := ⟨2, [1], 1⟩
    let es : List Step := [.link pr, .count, .drain false, .send, .finish, .resend]
    (∃ s, Run.runList step {} (es ++ [.send, .finish]) = some s ∧ s.Quiet ∧
        s.linked = [] ∧ s.depth = -1) ∧
      ∃ s, Run.runList step {} (es ++ [.giveUp, .finish]) = some s ∧ s.Quiet ∧
        s.linked = [pr] ∧ s.depth = 0 := by
  intro pr es
  refine ⟨⟨{ pending := [pr], depth := -1 }, by decide, ⟨rfl, rfl⟩, rfl, rfl⟩, ?_⟩
  exact ⟨{ linked := [pr] }, by decide, ⟨rfl, rfl⟩, rfl, rfl⟩

end Inbox

end BeaverMQ
