import BeaverMQ.Model.Authlimit

/-!
# BeaverMQ — the slots for password hashes

`g_inflight` of `authlimit.c` bounds the password verifications that run at one time. Logins on
any worker and HTTP requests take a slot with a compare and swap, and give it back when an
allocation or `uv_queue_work` fails, or else in the callback after the work, on a connection that
may be gone by then. One step here is one access to the counter or one call of the source.
-/

namespace BeaverMQ.HashSlots

open List Authlimit

/-! ## One attempt -/

/-- Where an attempt stands. `handle_connection` with StartOk and `mgmt_auth_start` take the same
steps; they differ in what they answer. -/
inductive Phase
  | arrived
  /-- In the loop of `authlimit_hash_begin`. -/
  | trying (cur : Int)
  /-- `authlimit_hash_begin` returned 0. -/
  | begun
  /-- There is a work object. -/
  | allocated
  /-- `uv_queue_work` took it; `conn` is false once the connection is torn down. -/
  | queued (conn : Bool)
  /-- The password was hashed and the callback is due. -/
  | hashed (conn : Bool)
  /-- Refused, failed, answered, or cleaned up behind a connection that is gone. -/
  | over
  deriving DecidableEq

inductive Move
  /-- `authlimit_retry_after_ms` wants the client to wait. -/
  | throttle
  /-- The first read of the counter, without ordering: `seen` may be an old value. -/
  | load (seen : Int)
  /-- The loop of `authlimit_hash_begin` ends without a slot. -/
  | refuse
  /-- The weak compare and swap, which may fail for no reason; then `cur` is `seen`. -/
  | exchange (spurious : Bool) (seen : Int)
  | calloc (ok : Bool)
  | queueWork (ok : Bool)
  | teardown
  | work
  /-- The callback; a work that did not run may be cancelled. -/
  | after

/-- One step of an attempt, with the counter before and after it. -/
def next (inflight : Int) : Phase → Move → Option (Phase × Int)
  | .arrived, .throttle => some (.over, inflight)
  | .arrived, .load seen => some (.trying seen, inflight)
  | .trying cur, .refuse =>
    if cur < hashConcurrency then none else some (.over, inflight)
  | .trying cur, .exchange spurious seen =>
    if cur < hashConcurrency then
      if inflight = cur ∧ spurious = false then some (.begun, cur + 1)
      else some (.trying seen, inflight)
    else none
  | .begun, .calloc ok => some (if ok then (.allocated, inflight) else (.over, inflight - 1))
  | .allocated, .queueWork ok =>
    some (if ok then (.queued true, inflight) else (.over, inflight - 1))
  | .queued _, .teardown => some (.queued false, inflight)
  | .hashed _, .teardown => some (.hashed false, inflight)
  | .queued conn, .work => some (.hashed conn, inflight)
  | .queued _, .after => some (.over, inflight - 1)
  | .hashed _, .after => some (.over, inflight - 1)
  | _, _ => none

def Phase.verifying : Phase → Bool
  | .begun | .allocated | .queued _ | .hashed _ => true
  | _ => false

/-- The change of the counter is the change of what the attempt holds, and the counter stays
within the limit: a swap takes place only at the value that was compared with it. -/
theorem next_moves {n n' : Int} {phase phase' : Phase} {m : Move}
    (h : next n phase m = some (phase', n')) :
    n' - n = phase'.verifying.toNat - phase.verifying.toNat ∧
      (n ≤ hashConcurrency → n' ≤ hashConcurrency) := by
  cases phase with
  | arrived => cases m <;> cases h <;> simp [Phase.verifying]
  | trying cur =>
    cases m with
    | refuse =>
      rw [next] at h
      split at h <;> cases h
      simp [Phase.verifying]
    | exchange spurious seen =>
      rw [next] at h
      split at h
      · rename_i hLess
        split at h
        · rename_i hSwap
          cases h
          refine ⟨?_, fun _ => by omega⟩
          rw [hSwap.1]
          simp [Phase.verifying]
        · cases h
          simp [Phase.verifying]
      · cases h
    | _ => cases h
  | begun | allocated =>
    cases m with
    | calloc ok | queueWork ok => cases ok <;> cases h <;> simp [Phase.verifying] <;> omega
    | _ => cases h
  | queued | hashed =>
    cases m <;> cases h
    all_goals simp [Phase.verifying]
    all_goals omega
  | _ => cases m <;> cases h

/-! ## All attempts -/

/-- A login, of either protocol. -/
structure Attempt where
  phase : Phase := .arrived

structure Slots where
  inflight : Int := 0
  attempts : List Attempt := []

inductive Event
  /-- Credentials come in. -/
  | attempt
  | move (i : Nat) (m : Move)

def Slots.step (s : Slots) : Event → Option Slots
  | .attempt => some { s with attempts := s.attempts ++ [{}] }
  | .move i m =>
    s.attempts[i]?.bind fun a => (next s.inflight a.phase m).map fun r =>
      { inflight := r.2, attempts := s.attempts.set i { a with phase := r.1 } }

def Slots.running (s : Slots) : Nat := s.attempts.countP fun a => a.phase.verifying

def Slots.Balanced (s : Slots) : Prop :=
  s.inflight = s.running ∧ s.inflight ≤ hashConcurrency

theorem balanced_step {s s' : Slots} {e : Event} (h : s.Balanced) (hStep : s.step e = some s') :
    s'.Balanced := by
  obtain ⟨hCount, hLimit⟩ := h
  cases e with
  | attempt =>
    cases hStep
    refine ⟨hCount.trans ?_, hLimit⟩
    simp [Slots.running, Phase.verifying]
  | move i m =>
    obtain ⟨a, hGet, hNext⟩ := Option.bind_eq_some_iff.mp hStep
    obtain ⟨⟨phase, n⟩, hMove, rfl⟩ := Option.map_eq_some_iff.mp hNext
    obtain ⟨hDelta, hKept⟩ := next_moves hMove
    obtain ⟨hi, rfl⟩ := List.getElem?_eq_some_iff.mp hGet
    refine ⟨?_, hKept hLimit⟩
    -- the attempt that moves was counted if it held a slot
    have hOld : (s.attempts[i].phase.verifying).toNat ≤ s.running := by
      cases hHeld : s.attempts[i].phase.verifying with
      | false => exact Nat.zero_le _
      | true => exact countP_pos_iff.mpr ⟨_, getElem_mem hi, hHeld⟩
    have hOne : ∀ b : Bool, (if b = true then 1 else 0) = b.toNat := by decide
    unfold Slots.running at hCount hOld ⊢
    rw [countP_set hi, hOne, hOne]
    dsimp only
    omega

/-- **The slots for password hashes.** Over every interleaving of attempts, teardowns and
failures the counter is the number of verifications that were started and are not completed; it
is never negative, never above the limit, and 0 when no verification runs. -/
theorem hash_slots_run {s : Slots} (hReach : Run.Reach Slots.step (fun _ _ _ => True) {} s) :
    s.inflight = s.running ∧ 0 ≤ s.inflight ∧ s.inflight ≤ hashConcurrency ∧
      ((∀ a ∈ s.attempts, a.phase.verifying = false) → s.inflight = 0) := by
  have hStart : ({} : Slots).Balanced := ⟨rfl, by decide⟩
  obtain ⟨hCount, hLimit⟩ := hReach.invariant (P := Slots.Balanced)
    (fun _ _ _ h hStep _ => balanced_step h hStep) hStart
  refine ⟨hCount, by omega, hLimit, fun hNone => ?_⟩
  rw [hCount, Slots.running, countP_eq_zero.mpr (by simpa using hNone)]
  rfl

/-- Two logins run at one time; the second finds the counter changed and tries again, loses its
connection, and gives its slot back. -/
theorem hash_slots_run_two : ∃ s : Slots,
    (s.inflight = 1 ∧ s.attempts.map Attempt.phase = [.queued true, .over]) ∧
      s.inflight = s.running := by
  obtain ⟨s, hReach, hEnd⟩ : ∃ s, Run.Reach Slots.step (fun _ _ _ => True) {} s ∧
      (s.inflight = 1 ∧ s.attempts.map Attempt.phase = [.queued true, .over]) :=
    Run.exists_reach [.attempt, .attempt, .move 0 (.load 0), .move 1 (.load 0),
      .move 0 (.exchange false 0), .move 1 (.exchange false 1), .move 1 (.exchange false 1),
      .move 0 (.calloc true), .move 0 (.queueWork true), .move 1 (.calloc true),
      .move 1 (.queueWork true), .move 1 .teardown, .move 1 .work, .move 1 .after]
      (by decide +kernel)
  exact ⟨s, hEnd, (hash_slots_run hReach).1⟩

end BeaverMQ.HashSlots
