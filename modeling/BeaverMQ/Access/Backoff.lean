import BeaverMQ.Model.Authlimit

/-!
# BeaverMQ — the failure count of the login backoff

A key's entry is forgotten, or its count reset, when a call comes too long after the entry was
last touched. The difference is unsigned: a call with an older time looks as if it came after a
very long pause. Attempts that overlap make such calls, and one of their failures wipes out what
the others recorded. The run is audited with the failures recorded for each key.
-/

namespace BeaverMQ.Authlimit

open List Function

/-! ## The audited run -/

/-- A state with the failures recorded for each key and the keys a success was recorded for. -/
structure Audit where
  state : State := {}
  failures : Bytes → Nat := fun _ => 0
  cleared : Bytes → Bool := fun _ => false

/-- The key an event records a failure for; an empty key is not recorded. -/
def failed (s : State) : Event → Option Bytes
  | .reject key _ => if normKey key = [] then none else some (normKey key)
  | .finish i false =>
    (s.inflight[i]?).bind fun x => if normKey x.key = [] then none else some (normKey x.key)
  | _ => none

def succeeded (s : State) : Event → Option Bytes
  | .finish i true => (s.inflight[i]?).map fun x => normKey x.key
  | _ => none

def Audit.step (a : Audit) (e : Event) : Option Audit :=
  (Authlimit.step a.state e).map fun s =>
    { state := s
      failures := fun k => if failed a.state e = some k then a.failures k + 1 else a.failures k
      cleared := fun k => a.cleared k || decide (succeeded a.state e = some k) }

def failureCount (t : Table) (k : Bytes) : Nat :=
  match findLocked t k with
  | some i => (t i).elim 0 (·.failures)
  | none => 0

def keysInUse (t : Table) : Nat := (finRange tableSize).countP fun i => (t i).isSome

/-! ## Slots -/

variable {t : Table} {k key : Bytes} {i : Fin tableSize} {T nowMs : Nat}

theorem holds_iff {slot : Option Entry} : holds k slot = true ↔ ∃ e, slot = some e ∧ e.key = k := by
  cases slot <;> simp [holds]

theorem findLocked_some (hFind : findLocked t k = some i) : ∃ e, t i = some e ∧ e.key = k := by
  unfold findLocked at hFind
  have hHolds := find?_some hFind
  exact holds_iff.mp hHolds

theorem findLocked_none (hFind : findLocked t k = none) {e : Entry} (hSlot : t i = some e) :
    e.key ≠ k := by
  intro hKey
  have hNot := find?_eq_none.mp hFind i (mem_finRange i)
  exact hNot (holds_iff.mpr ⟨e, hSlot, hKey⟩)

theorem freeSlot_free (hRoom : keysInUse t < tableSize) : t (freeSlot t) = none := by
  unfold freeSlot
  split
  · rename_i i hFind
    simpa using find?_some hFind
  rename_i hFind
  -- no free slot: then all are in use
  have hAll : ∀ i ∈ finRange tableSize, (t i).isSome = true := by
    intro i hi
    have hNot := find?_eq_none.mp hFind i hi
    rwa [Bool.not_eq_true, Option.isNone_eq_false_iff] at hNot
  have hCount := countP_eq_length.mpr hAll
  rw [length_finRange] at hCount
  unfold keysInUse at hRoom
  omega

/-! ## Calls -/

/-- The table tracks `count`: no key has two slots, every entry was touched inside the window
that starts at `T`, and a key with a known count has an entry with that count, or none when
the count is 0. -/
structure Tracks (T : Nat) (t : Table) (count : Bytes → Option Nat) : Prop where
  unique : ∀ {i j e e'}, t i = some e → t j = some e' → e.key = e'.key → i = j
  window : ∀ {i e}, t i = some e → T ≤ e.lastMs ∧ e.lastMs ≤ T + idleResetMs
  known : ∀ {k m}, count k = some m →
    (m = 0 ∧ ∀ i e, t i = some e → e.key ≠ k) ∨
      (0 < m ∧ ∃ i e, t i = some e ∧ e.key = k ∧ e.failures = m)

def InWindow (T nowMs : Nat) : Prop := T ≤ nowMs ∧ nowMs ≤ T + idleResetMs

/-- The call comes no earlier than the last one for its key, and the count does not wrap. -/
def InOrder (t : Table) (key : Bytes) (nowMs : Nat) : Prop :=
  ∀ i, ∀ e ∈ t i, e.key = normKey key → e.lastMs ≤ nowMs ∧ e.failures + 1 < 2 ^ 32

section

variable {count : Bytes → Option Nat}

theorem not_stale (h : Tracks T t count) (hNow : InWindow T nowMs)
    {e : Entry} (hSlot : t i = some e) (hLe : e.lastMs ≤ nowMs) :
    ¬ idleResetMs < sub64 nowMs e.lastMs := by
  have hLow := (h.window hSlot).1
  have hHigh := hNow.2
  unfold sub64
  rw [if_pos hLe]
  omega

theorem retry_same (h : Tracks T t count) (hNow : InWindow T nowMs)
    (hOrder : InOrder t key nowMs) : (authlimitRetryAfterMs t key nowMs).1 = t := by
  unfold authlimitRetryAfterMs
  split
  · rfl
  split
  · rfl
  rename_i i hFind
  obtain ⟨e, hSlot, hKey⟩ := findLocked_some hFind
  rw [hSlot]
  dsimp only
  rw [if_neg (not_stale h hNow hSlot (hOrder i e hSlot hKey).1)]
  split <;> rfl

theorem tracks_recordFailure (h : Tracks T t count) (hNow : InWindow T nowMs)
    (hOrder : InOrder t key nowMs) (hRoom : keysInUse t < tableSize) (hKey : normKey key ≠ []) :
    Tracks T (authlimitRecordFailure t key nowMs)
      (fun k => if k = normKey key then (count k).map (· + 1) else count k) := by
  -- the slot the failure goes to, what was in it, and what is in it now
  obtain ⟨i, e, hAt, hOld, hSame, hName, hTouched, hCount⟩ : ∃ i e,
      authlimitRecordFailure t key nowMs = update t i (some e) ∧
      (∀ j e', t j = some e' → e'.key = normKey key → j = i) ∧
      (∀ e', t i = some e' → e'.key = normKey key) ∧
      e.key = normKey key ∧ e.lastMs = nowMs ∧
      (∀ m, count (normKey key) = some m → e.failures = m + 1) := by
    unfold authlimitRecordFailure findOrCreateLocked
    rw [if_neg hKey]
    cases hFind : findLocked t (normKey key) with
    | some i =>
      obtain ⟨e, hSlot, hMine⟩ := findLocked_some hFind
      obtain ⟨hLe, hFit⟩ := hOrder i e hSlot hMine
      have hFresh := not_stale h hNow hSlot hLe
      refine ⟨i, e.fail nowMs, by simp only [hSlot, Option.getD_some], ?_, ?_, hMine, rfl, ?_⟩
      · intro j e' hj hk
        exact h.unique hj hSlot (hk.trans hMine.symm)
      · intro e' he'
        rw [hSlot] at he'
        cases he'
        exact hMine
      · intro m hm
        rcases h.known hm with ⟨-, hNone⟩ | ⟨-, j, e', hj, hk, hf⟩
        · exact absurd hMine (hNone i e hSlot)
        obtain rfl : j = i := h.unique hj hSlot (hk.trans hMine.symm)
        rw [hSlot] at hj
        cases hj
        simp only [Entry.fail, if_neg hFresh]
        rw [Nat.mod_eq_of_lt hFit, hf]
    | none =>
      refine ⟨freeSlot t, Entry.fail { key := normKey key, lastMs := nowMs } nowMs, rfl, ?_, ?_,
        rfl, rfl, ?_⟩
      · intro j e' hj hk
        exact absurd hk (findLocked_none hFind hj)
      · intro e' he'
        rw [freeSlot_free hRoom] at he'
        cases he'
      · intro m hm
        rcases h.known hm with ⟨rfl, -⟩ | ⟨-, j, e', hj, hk, -⟩
        · have hZero : ¬ idleResetMs < sub64 nowMs nowMs := by simp [sub64]
          simp [Entry.fail, hZero]
        · exact absurd hk (findLocked_none hFind hj)
  rw [hAt]
  have hOther : ∀ {j e'}, update t i (some e) j = some e' → j = i ∧ e' = e ∨
      j ≠ i ∧ t j = some e' ∧ e'.key ≠ normKey key := by
    intro j e' hj
    by_cases hEq : j = i
    · subst hEq
      rw [update_self, Option.some.injEq] at hj
      exact .inl ⟨rfl, hj.symm⟩
    · rw [update_of_ne hEq] at hj
      exact .inr ⟨hEq, hj, fun hk => hEq (hOld j e' hj hk)⟩
  refine ⟨?_, ?_, ?_⟩
  · intro a b ea eb ha hb hk
    rcases hOther ha with ⟨rfl, rfl⟩ | ⟨-, ha', hNa⟩ <;>
      rcases hOther hb with ⟨rfl, rfl⟩ | ⟨-, hb', hNb⟩
    · rfl
    · exact absurd (hk.symm.trans hName) hNb
    · exact absurd (hk.trans hName) hNa
    · exact h.unique ha' hb' hk
  · intro j e' hj
    rcases hOther hj with ⟨rfl, rfl⟩ | ⟨-, hj', -⟩
    · rw [hTouched]
      exact hNow
    · exact h.window hj'
  · intro k m hm
    by_cases hk : k = normKey key
    · subst hk
      rw [if_pos rfl, Option.map_eq_some_iff] at hm
      obtain ⟨m, hm, rfl⟩ := hm
      exact .inr ⟨Nat.succ_pos m, i, e, update_self _ _ _, hName, hCount m hm⟩
    rw [if_neg hk] at hm
    rcases h.known hm with ⟨hZero, hNone⟩ | ⟨hPos, j, e', hj, hMine, hf⟩
    · refine .inl ⟨hZero, fun j e' hj => ?_⟩
      rcases hOther hj with ⟨rfl, rfl⟩ | ⟨-, hj', -⟩
      · rw [hName]
        exact Ne.symm hk
      · exact hNone j e' hj'
    refine .inr ⟨hPos, j, e', ?_, hMine, hf⟩
    -- the slot the failure went to was free or held the other key
    have hNe : j ≠ i := by
      rintro rfl
      exact hk (hMine.symm.trans (hSame e' hj))
    rw [update_of_ne hNe]
    exact hj

theorem tracks_recordSuccess (h : Tracks T t count) (key : Bytes) :
    Tracks T (authlimitRecordSuccess t key)
      (fun k => if k = normKey key then none else count k) := by
  have hKeep : Tracks T t (fun k => if k = normKey key then none else count k) := by
    refine ⟨h.unique, h.window, fun {k m} hm => ?_⟩
    by_cases hk : k = normKey key
    · rw [if_pos hk] at hm
      cases hm
    · rw [if_neg hk] at hm
      exact h.known hm
  unfold authlimitRecordSuccess
  split
  · exact hKeep
  split
  · rename_i i hFind
    obtain ⟨e, hSlot, hMine⟩ := findLocked_some hFind
    have hOther : ∀ {j e'}, update t i none j = some e' → t j = some e' := by
      intro j e' hj
      by_cases hEq : j = i
      · subst hEq
        rw [update_self] at hj
        cases hj
      · rwa [update_of_ne hEq] at hj
    refine ⟨fun ha hb => h.unique (hOther ha) (hOther hb), fun hj => h.window (hOther hj)
      , fun {k m} hm => ?_⟩
    rcases hKeep.known hm with ⟨hZero, hNone⟩ | ⟨hPos, j, e', hj, hk, hf⟩
    · exact .inl ⟨hZero, fun j e' hj => hNone j e' (hOther hj)⟩
    refine .inr ⟨hPos, j, e', ?_, hk, hf⟩
    have hNe : j ≠ i := by
      rintro rfl
      rw [hSlot] at hj
      cases hj
      have hIs : k = normKey key := hk.symm.trans hMine
      rw [if_pos hIs] at hm
      cases hm
    rw [update_of_ne hNe]
    exact hj
  · exact hKeep

theorem Tracks.failureCount_eq (h : Tracks T t count) {m : Nat}
    (hm : count k = some m) : failureCount t k = m ∧ ((findLocked t k).isSome = true ↔ 0 < m) := by
  unfold failureCount
  cases hFind : findLocked t k with
  | none =>
    rcases h.known hm with ⟨rfl, -⟩ | ⟨-, i, e, hSlot, hKey, -⟩
    · exact ⟨rfl, by simp⟩
    · exact absurd hKey (findLocked_none hFind hSlot)
  | some i =>
    obtain ⟨e, hSlot, hMine⟩ := findLocked_some hFind
    rcases h.known hm with ⟨-, hNone⟩ | ⟨hPos, j, e', hj, hKey, hf⟩
    · exact absurd hMine (hNone i e hSlot)
    obtain rfl : j = i := h.unique hj hSlot (hKey.trans hMine.symm)
    refine ⟨?_, by simpa using hPos⟩
    dsimp only
    rw [hj]
    exact hf

end

/-! ## Runs -/

/-- What the event asks of the clock: an attempt starts inside the window. -/
def Timely (T : Nat) : Event → Prop
  | .start _ nowMs | .reject _ nowMs => InWindow T nowMs
  | _ => True

def Ordered (s : State) : Event → Prop
  | .start key nowMs | .reject key nowMs => InOrder s.table key nowMs
  | .finish i false => ∀ x ∈ s.inflight[i]?, InOrder s.table x.key x.startMs
  | _ => True

/-- The counts an audit knows: those of the keys without a success. -/
def Audit.count (a : Audit) (k : Bytes) : Option Nat :=
  if a.cleared k then none else some (a.failures k)

/-- The audited table tracks the counts, and attempts in flight started inside the window. -/
structure Audit.Sound (T : Nat) (a : Audit) : Prop where
  tracks : Tracks T a.state.table a.count
  started : ∀ x ∈ a.state.inflight, InWindow T x.startMs

theorem tracks_congr {count count' : Bytes → Option Nat} (h : Tracks T t count)
    (hEq : ∀ k, count' k = count k) : Tracks T t count' := by
  rwa [funext hEq]

theorem sound_failure {a : Audit} (h : a.Sound T) (hNow : InWindow T nowMs)
    (hRoom : keysInUse a.state.table < tableSize) (hOrder : InOrder a.state.table key nowMs) :
    Tracks T (authlimitRecordFailure a.state.table key nowMs) fun k =>
      if a.cleared k then none
      else some (if (if normKey key = [] then none else some (normKey key)) = some k
        then a.failures k + 1 else a.failures k) := by
  by_cases hKey : normKey key = []
  · rw [authlimitRecordFailure, if_pos hKey, if_pos hKey]
    exact tracks_congr h.tracks fun k => by simp [Audit.count]
  refine tracks_congr (tracks_recordFailure h.tracks hNow hOrder hRoom hKey) fun k => ?_
  rw [if_neg hKey]
  by_cases hk : k = normKey key
  · subst hk
    cases hClear : a.cleared (normKey key) <;> simp [Audit.count, hClear]
  · simp [Audit.count, hk, Ne.symm hk]

theorem sound_step {a b : Audit} {e : Event} (h : a.Sound T) (hStep : a.step e = some b)
    (hTime : Timely T e) (hRoom : keysInUse a.state.table < tableSize)
    (hOrder : Ordered a.state e) : b.Sound T := by
  unfold Audit.step at hStep
  obtain ⟨s, hs, rfl⟩ := Option.map_eq_some_iff.mp hStep
  have hErase : ∀ i, ∀ x ∈ a.state.inflight.eraseIdx i, InWindow T x.startMs :=
    fun i x hx => h.started x (mem_of_mem_eraseIdx hx)
  cases e with
  | start key nowMs =>
    have hSame := retry_same h.tracks hTime hOrder
    simp only [step] at hs
    generalize authlimitRetryAfterMs a.state.table key nowMs = res at hSame hs
    obtain ⟨table, wait⟩ := res
    dsimp only at hSame hs
    subst hSame
    split at hs
    · cases hs
      exact ⟨tracks_congr h.tracks fun k => by simp [Audit.count, failed, succeeded], h.started⟩
    cases hs
    refine ⟨tracks_congr h.tracks fun k => by simp [Audit.count, failed, succeeded], ?_⟩
    intro x hx
    rcases mem_append.mp hx with hx | hx
    · exact h.started x hx
    · rw [mem_singleton.mp hx]
      exact hTime
  | reject key nowMs =>
    simp only [step, Option.some.injEq] at hs
    subst hs
    have hTracks := sound_failure h hTime hRoom hOrder
    refine ⟨tracks_congr hTracks fun k => ?_, h.started⟩
    simp [Audit.count, failed, succeeded]
  | finish i ok =>
    obtain ⟨x, hx, rfl⟩ := Option.map_eq_some_iff.mp hs
    have hStarted := h.started x (mem_of_getElem? hx)
    cases ok with
    | false =>
      have hTracks := sound_failure h hStarted hRoom (hOrder x hx)
      refine ⟨tracks_congr hTracks fun k => ?_, hErase i⟩
      simp [Audit.count, failed, succeeded, hx]
    | true =>
      refine ⟨tracks_congr (tracks_recordSuccess h.tracks x.key) fun k => ?_, hErase i⟩
      by_cases hk : k = normKey x.key
      · simp [Audit.count, succeeded, hx, hk]
      · simp [Audit.count, failed, succeeded, hx, hk, Ne.symm hk]
  | abandon i =>
    obtain ⟨x, hx, rfl⟩ := Option.map_eq_some_iff.mp hs
    exact ⟨tracks_congr h.tracks fun k => by simp [Audit.count, failed, succeeded], hErase i⟩

/-- The times of all attempts lie within the idle time of each other, and fewer keys are in
use than the table has slots. -/
def Usual (T : Nat) (a : Audit) (e : Event) : Prop :=
  Timely T e ∧ keysInUse a.state.table < tableSize

/-- In every run of login attempts whose times lie within `AUTHLIMIT_IDLE_RESET_MS` of each
other, with slots to spare, and whose calls come in the order of their times, key by key: as
long as no success is recorded for a key, the table counts every failure recorded for it. -/
theorem backoff_run {T : Nat} {a : Audit}
    (hReach : Run.Reach Audit.step (fun a e _ => Usual T a e ∧ Ordered a.state e) {} a)
    (k : Bytes) (hNo : a.cleared k = false) :
    failureCount a.state.table k = a.failures k ∧
      ((findLocked a.state.table k).isSome = true ↔ 0 < a.failures k) := by
  have hSound : a.Sound T := by
    refine Run.Reach.invariant (P := fun a => a.Sound T) ?_ ?_ hReach
    · exact fun a e b h hStep hGood => sound_step h hStep hGood.1.1 hGood.1.2 hGood.2
    · refine ⟨⟨nofun, nofun, fun {k m} hm => .inl ⟨?_, nofun⟩⟩, nofun⟩
      simpa [Audit.count] using hm.symm
  exact hSound.tracks.failureCount_eq (by simp [Audit.count, hNo])

instance (T nowMs : Nat) : Decidable (InWindow T nowMs) := inferInstanceAs (Decidable (_ ∧ _))

instance (t : Table) (key : Bytes) (nowMs : Nat) : Decidable (InOrder t key nowMs) := by
  unfold InOrder
  infer_instance

instance (T : Nat) (e : Event) : Decidable (Timely T e) := by
  cases e <;> unfold Timely <;> infer_instance

instance (s : State) (e : Event) : Decidable (Ordered s e) := by
  unfold Ordered
  split <;> infer_instance

instance (T : Nat) (a : Audit) (e : Event) : Decidable (Usual T a e) :=
  inferInstanceAs (Decidable (_ ∧ _))

def clientKey : Bytes := [49, 48, 46, 48, 46, 48, 46, 49]

/-- Two attempts that overlap, with the first to start also the first to fail. -/
theorem backoff_run_two : ∃ a,
    Run.Reach Audit.step (fun a e _ => Usual 1000 a e ∧ Ordered a.state e) {} a ∧
    a.failures clientKey = 2 ∧ failureCount a.state.table clientKey = a.failures clientKey := by
  obtain ⟨a, hReach, hTwo, hNo⟩ : ∃ a,
      Run.Reach Audit.step (fun a e _ => Usual 1000 a e ∧ Ordered a.state e) {} a ∧
      a.failures clientKey = 2 ∧ a.cleared clientKey = false :=
    Run.exists_reach [.start clientKey 1000, .start clientKey 2000, .finish 0 false,
      .finish 0 false] (by decide +kernel)
  exact ⟨a, hReach, hTwo, (backoff_run hReach clientKey hNo).1⟩

/-- The attempt that starts at 1000 fails after the one that starts at 2000: its failure
resets the count. -/
theorem backoff_reset : ∃ a,
    Run.Reach Audit.step (fun a e _ => Usual 1000 a e) {} a ∧
    a.cleared clientKey = false ∧ a.failures clientKey = 2 ∧
    failureCount a.state.table clientKey = 1 :=
  Run.exists_reach [.start clientKey 1000, .start clientKey 2000, .finish 1 false,
    .finish 0 false] (by decide +kernel)

end BeaverMQ.Authlimit
