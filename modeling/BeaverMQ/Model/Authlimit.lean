import BeaverMQ.Lib.Run
import BeaverMQ.Model.Types

/-!
# BeaverMQ — login backoff

`authlimit.c`: one table of failed logins per client address, under one mutex. A login attempt
reads its event loop's clock once; it asks the table whether it may go on, and when the hash is
done it records the outcome under the time it started at. Attempts of several loops are in flight
at once, so the table does not see their times in order.

A slot that is not `used` is empty here. Times are `uint64_t` and differences of them wrap.
-/

namespace BeaverMQ.Authlimit

/-- `AUTHLIMIT_TABLE`. -/
def tableSize : Nat := 1024

/-- `AUTHLIMIT_KEYLEN`. -/
def keyLen : Nat := 64

/-- `AUTHLIMIT_FREE_ATTEMPTS`. -/
def freeAttempts : Nat := 5

/-- `AUTHLIMIT_BASE_MS`. -/
def baseMs : Nat := 500

/-- `AUTHLIMIT_MAX_MS`. -/
def maxMs : Nat := 30000

/-- `AUTHLIMIT_IDLE_RESET_MS`. -/
def idleResetMs : Nat := 900000

/-- `AUTHLIMIT_HASH_CONCURRENCY`. -/
def hashConcurrency : Nat := 8

/-- `entry_t`. -/
structure Entry where
  key : Bytes
  failures : Nat := 0
  nextMs : Nat := 0
  lastMs : Nat
  deriving DecidableEq

/-- `g_tab`. -/
abbrev Table := Fin tableSize → Option Entry

/-- `norm_key`: the string up to its terminator, cut to what the buffer holds. -/
def normKey (key : Bytes) : Bytes := (key.takeWhile (· ≠ 0)).take (keyLen - 1)

def holds (key : Bytes) (slot : Option Entry) : Bool := slot.any fun e => decide (e.key = key)

/-- `find_locked`: the first slot of the key. -/
def findLocked (t : Table) (key : Bytes) : Option (Fin tableSize) :=
  (List.finRange tableSize).find? fun i => holds key (t i)

def touchedMs (slot : Option Entry) : Nat := slot.elim 0 (·.lastMs)

/-- The scan of `find_or_create_locked` for a slot: the first free one, or else the stalest. -/
def freeSlot (t : Table) : Fin tableSize :=
  match (List.finRange tableSize).find? fun i => (t i).isNone with
  | some i => i
  | none =>
    (List.finRange tableSize).foldl
      (fun oldest i => if touchedMs (t i) < touchedMs (t oldest) then i else oldest)
      ⟨0, by decide⟩

/-- `find_or_create_locked`: the slot and the entry in it. -/
def findOrCreateLocked (t : Table) (key : Bytes) (nowMs : Nat) : Fin tableSize × Entry :=
  match findLocked t key with
  | some i => (i, (t i).getD { key, lastMs := nowMs })
  | none => (freeSlot t, { key, lastMs := nowMs })

/-- `authlimit_retry_after_ms`: the table afterwards and how long to wait. -/
def authlimitRetryAfterMs (t : Table) (key : Bytes) (nowMs : Nat) : Table × Nat :=
  if normKey key = [] then (t, 0)
  else
    match findLocked t (normKey key) with
    | none => (t, 0)
    | some i =>
      match t i with
      | none => (t, 0)
      | some e =>
        if idleResetMs < sub64 nowMs e.lastMs then (Function.update t i none, 0)
        else if nowMs < e.nextMs then (t, e.nextMs - nowMs) else (t, 0)

/-- The doubling loop of `authlimit_record_failure`; `k` turns are left. -/
def doubled : Nat → Nat → Nat
  | 0, d => d
  | k + 1, d => if d < maxMs then doubled k (2 * d) else d

def delayMs (failures : Nat) : Nat :=
  if freeAttempts < failures then min (doubled (failures - freeAttempts - 1) baseMs) maxMs else 0

def Entry.fail (e : Entry) (nowMs : Nat) : Entry :=
  let before := if idleResetMs < sub64 nowMs e.lastMs then 0 else e.failures
  let failures := (before + 1) % 2 ^ 32
  { e with failures, lastMs := nowMs, nextMs := (nowMs + delayMs failures) % 2 ^ 64 }

def authlimitRecordFailure (t : Table) (key : Bytes) (nowMs : Nat) : Table :=
  if normKey key = [] then t
  else
    let (i, e) := findOrCreateLocked t (normKey key) nowMs
    Function.update t i (some (e.fail nowMs))

def authlimitRecordSuccess (t : Table) (key : Bytes) : Table :=
  if normKey key = [] then t
  else
    match findLocked t (normKey key) with
    | some i => Function.update t i none
    | none => t

/-! ## Login attempts -/

/-- An attempt whose password is being hashed: the address and the time it started at. -/
structure Attempt where
  key : Bytes
  startMs : Nat

/-- The table and the hashes in flight (`g_inflight` counts them). -/
structure State where
  table : Table := fun _ => none
  inflight : List Attempt := []

inductive Event
  /-- An attempt starts; it goes on to the hash unless the table or the cap refuse it. -/
  | start (key : Bytes) (nowMs : Nat)
  /-- An attempt without a user name fails at once. -/
  | reject (key : Bytes) (nowMs : Nat)
  /-- The hash of an attempt is done. -/
  | finish (i : Nat) (ok : Bool)
  /-- Its connection is gone by then. -/
  | abandon (i : Nat)

def step (s : State) : Event → Option State
  | .start key nowMs =>
    match authlimitRetryAfterMs s.table key nowMs with
    | (table, wait) =>
      if 0 < wait ∨ hashConcurrency ≤ s.inflight.length then some { s with table }
      else some { table, inflight := s.inflight ++ [⟨key, nowMs⟩] }
  | .reject key nowMs => some { s with table := authlimitRecordFailure s.table key nowMs }
  | .finish i ok =>
    (s.inflight[i]?).map fun x =>
      { table := if ok then authlimitRecordSuccess s.table x.key
                 else authlimitRecordFailure s.table x.key x.startMs
        inflight := s.inflight.eraseIdx i }
  | .abandon i => (s.inflight[i]?).map fun _ => { s with inflight := s.inflight.eraseIdx i }

end BeaverMQ.Authlimit
