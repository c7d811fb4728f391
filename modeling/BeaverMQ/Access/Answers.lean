import BeaverMQ.Access.Management

/-!
# BeaverMQ — one answer on a management connection

A connection is closed behind its response, and `responded` keeps a second response back until
then. `http_respond_401` neither looks at the flag nor sets it, and bytes are still read while
its response is written: what comes behind a 401 is answered once more.
-/

namespace BeaverMQ.Http

open Amqp (ascii)
open List

/-- What is handed to `uv_write`. -/
def Output.isResponse : Output → Bool
  | .cfgApply _ => false
  | _ => true

def World.responses (w : World) : Nat := w.log.countP fun e => e.output.isResponse

def World.refused (w : World) : Bool := w.log.any fun e => e.output = .unauthorized

def World.Fresh (w : World) : Prop := w.responses + (if w.responded then 0 else 1) ≤ 1

section Callback

variable {cfg : Cfg} {o : Oracle} {c : Ctx} {ok : Output → Prop} {w w' : World} {out : Output}

theorem answers_respond (c : Ctx) (w : World) (out : Output) :
    Answers c (fun _ => True) w (respond c w out) := .answer trivial

theorem responses_note (w : World) (c : Ctx) (out : Output) :
    (w.note c out).responses = w.responses + if out.isResponse then 1 else 0 := by
  simp [World.responses, World.note, countP_append, countP_cons]

theorem World.Fresh.respond (h : w.Fresh) (c : Ctx) (out : Output) : (respond c w out).Fresh := by
  unfold Http.respond
  split
  · exact h
  rename_i hSilent
  rw [Bool.or_eq_true, not_or, Bool.not_eq_true, Bool.not_eq_true] at hSilent
  have hNone : w.responses = 0 := by simpa [World.Fresh, hSilent.1] using h
  dsimp only
  split
  · show World.responses (World.note _ c out) + 0 ≤ 1
    rw [responses_note]
    show w.responses + _ + 0 ≤ 1
    split <;> omega
  · show w.responses + 0 ≤ 1
    omega

theorem Answers.fresh (h : Answers c ok w w') (hFresh : w.Fresh) :
    w'.responses ≤ 1 ∧ (w'.refused = false → w'.Fresh) := by
  have hMarked : ∀ {w' : World}, w'.Fresh → w'.responses ≤ 1 ∧ (w'.refused = false → w'.Fresh) :=
    fun h => ⟨Nat.le_of_add_right_le h, fun _ => h⟩
  cases h with
  | idle => exact hMarked hFresh
  | answer => exact hMarked (hFresh.respond ..)
  | refuse hSilent _ =>
    unfold respond401
    split
    · refine ⟨?_, fun hNo => by simp [World.refused, World.note] at hNo⟩
      rw [responses_note]
      simpa [World.Fresh, hSilent.2, Output.isResponse] using hFresh
    · exact hMarked hFresh
  | @change op =>
    have hNote : (w.note c (.cfgApply op)).Fresh := by
      unfold World.Fresh
      rw [responses_note]
      exact hFresh
    have hSame : (cfgApply c w op).1.Fresh := by
      unfold cfgApply
      dsimp only
      split
      · exact hNote
      · split <;> exact hNote
    exact hMarked (hSame.respond ..)

/-- The read callback waits for more, deals with the request at once, or starts a verification
and stops reading. -/
inductive Handles (w : World) : World → Prop
  | waits {inbuf : Bytes} : Handles w { w with inbuf }
  | answers {c : Ctx} {ok : Output → Prop} {w₁ w' : World} (h : Answers c ok w₁ w')
      (hLog : w₁.log = w.log) (hResponded : w₁.responded = w.responded)
      (hPending : w₁.pendingAuth = w.pendingAuth) : Handles w w'
  | starts {w' : World} (hLog : w'.log = w.log) (hResponded : w'.responded = w.responded)
      (hReading : w'.reading = false) : Handles w w'

theorem handles_onHttpRead (cfg : Cfg) (o : Oracle) (w : World) (data : Bytes) :
    Handles w (onHttpRead cfg o w data) := by
  unfold onHttpRead handleRequest mgmtAuthStart respondError
  dsimp only
  repeat' split
  all_goals
    first
    | exact .waits
    | exact .answers (answers_httpDispatchLevel ..) rfl rfl rfl
    | exact .answers (answers_respond ..) rfl rfl rfl
    | exact .starts rfl rfl rfl

end Callback

/-! ## Runs -/

structure Watched where
  world : World
  started : Nat := 0

def Watched.step (cfg : Cfg) (a : Watched) (ev : Event) : Option Watched :=
  (Http.step cfg a.world ev).map fun w =>
    { world := w
      started := a.started + if a.world.pendingAuth.isNone && w.pendingAuth.isSome then 1 else 0 }

def QuietAfter401 (a : Watched) (ev : Event) (_ : Watched) : Prop :=
  ∀ data o, ev = .read data o → a.world.refused = false

structure Once (a : Watched) : Prop where
  responses : a.world.responses ≤ 1
  fresh : a.world.refused = false → a.world.Fresh
  pending : a.world.pendingAuth.isSome → a.world.refused = false ∧ a.world.reading = false
  started : a.started ≤ 1 ∧ (a.world.reading = true → a.started = 0)

variable {cfg : Cfg} {a b : Watched}

/-- The connection after a callback that began and ended without a verification, or ended one. -/
theorem Once.answered {w₁ w' : World} {c : Ctx} {ok : Output → Prop} (h : Once a)
    (hOpen : a.world.refused = false) (hAnswers : Answers c ok w₁ w') (hLog : w₁.log = a.world.log)
    (hResponded : w₁.responded = a.world.responded) (hNone : w₁.pendingAuth = none)
    (hReading : w₁.reading = true → a.world.reading = true) :
    Once { world := w', started := a.started } := by
  have hFresh : w₁.Fresh := by
    have hOld := h.fresh hOpen
    unfold World.Fresh World.responses at hOld ⊢
    rwa [hLog, hResponded]
  obtain ⟨hOne, hMarked⟩ := hAnswers.fresh hFresh
  have hAdds := hAnswers.adds
  refine ⟨hOne, hMarked, fun hSome => ?_, h.started.1, fun hReads => h.started.2 (hReading ?_)⟩
  · rw [hAdds.pendingAuth, hNone] at hSome
    cases hSome
  · rw [← hAdds.reading]
    exact hReads

theorem Once.same {w' : World} (h : Once a) (hLog : w'.log = a.world.log)
    (hResponded : w'.responded = a.world.responded) (hReading : w'.reading = a.world.reading)
    (hPending : w'.pendingAuth = a.world.pendingAuth ∨ w'.pendingAuth = none) :
    Once { world := w', started := a.started } := by
  obtain ⟨hOne, hFresh, hWork, hStarted⟩ := h
  have hResponses : w'.responses = a.world.responses := by rw [World.responses, hLog]; rfl
  have hRefused : w'.refused = a.world.refused := by rw [World.refused, hLog]; rfl
  refine ⟨hResponses ▸ hOne, fun hNo => ?_, fun hSome => ?_, hStarted.1, hReading ▸ hStarted.2⟩
  · unfold World.Fresh
    rw [hResponses, hResponded]
    exact hFresh (hRefused ▸ hNo)
  · dsimp only at hSome ⊢
    rcases hPending with hPending | hPending <;> rw [hPending] at hSome
    · rw [hRefused, hReading]
      exact hWork hSome
    · cases hSome

theorem once_step {ev : Event} (h : Once a) (hStep : a.step cfg ev = some b)
    (hQuiet : QuietAfter401 a ev b) : Once b := by
  obtain ⟨w', hEvent, rfl⟩ := Option.map_eq_some_iff.mp hStep
  -- a verification is started by a read only
  have hCount : (a.world.pendingAuth.isNone && w'.pendingAuth.isSome) = false →
      a.started + (if a.world.pendingAuth.isNone && w'.pendingAuth.isSome then 1 else 0) =
        a.started := by
    intro hNo
    rw [hNo]
    rfl
  cases ev with
  | read data o =>
    rw [Http.step] at hEvent
    split at hEvent
    · rename_i hReads
      rw [Bool.and_eq_true] at hReads
      cases hEvent
      have hOpen := hQuiet data o rfl
      have hNone : a.world.pendingAuth = none := by
        by_contra hSome
        have hStopped := (h.pending (Option.isSome_iff_ne_none.mpr hSome)).2
        exact Bool.false_ne_true (hStopped.symm.trans hReads.1)
      have hHandles := handles_onHttpRead cfg o a.world data
      generalize onHttpRead cfg o a.world data = w' at hHandles hCount ⊢
      cases hHandles with
      | waits =>
        rw [hCount (by simp [hNone])]
        exact h.same rfl rfl rfl (.inl rfl)
      | answers hAnswers hLog hResponded hPending =>
        rw [hCount (by simp [hAnswers.adds.pendingAuth, hPending, hNone])]
        exact h.answered hOpen hAnswers hLog hResponded (hPending.trans hNone) fun _ => hReads.1
      | starts hLog hResponded hStopped =>
        have hKept : Once
            { world := { w' with reading := a.world.reading, pendingAuth := none }
              started := a.started } := h.same hLog hResponded rfl (.inr rfl)
        refine ⟨hKept.responses, hKept.fresh, fun _ => ⟨?_, hStopped⟩, ?_, fun hNo => ?_⟩
        · rw [World.refused, hLog]
          exact hOpen
        · dsimp only
          rw [h.started.2 hReads.1]
          split <;> omega
        · rw [hStopped] at hNo
          cases hNo
    · cases hEvent
  | hangUp =>
    cases hEvent
    rw [hCount (by cases hWork : a.world.pendingAuth <;> simp [World.close, hWork])]
    exact h.same rfl rfl rfl (.inl rfl)
  | handlesClosed =>
    rw [Http.step] at hEvent
    split at hEvent
    · cases hEvent
      rw [hCount (by simp)]
      exact h.same rfl rfl rfl (.inr rfl)
    · cases hEvent
  | authDone o =>
    obtain ⟨work, hWork, rfl⟩ := Option.map_eq_some_iff.mp hEvent
    have hOpen := (h.pending (by rw [hWork]; rfl)).1
    rw [hCount (by simp [hWork])]
    unfold httpAuthAfterCb
    dsimp only
    split <;> exact h.answered hOpen (answers_httpDispatchLevel ..) rfl rfl rfl id
  | storeChanges s =>
    cases hEvent
    rw [hCount (by cases a.world.pendingAuth <;> simp)]
    exact h.same rfl rfl rfl (.inl rfl)

/-- **One answer per connection.** Whatever bytes come in whatever pieces, at most one response
is written and at most one password is verified, as long as nothing is read behind a 401. -/
theorem one_answer_run (cfg : Cfg) (store : Option AuthDb.Store)
    (hReach : Run.Reach (Watched.step cfg) QuietAfter401 { world := start store } a) :
    a.world.responses ≤ 1 ∧ a.started ≤ 1 := by
  have hStart : Once { world := start store } :=
    ⟨Nat.zero_le _, fun _ => Nat.le_refl _, nofun, Nat.zero_le _, fun _ => rfl⟩
  have hOnce := hReach.invariant (P := Once) (fun _ _ _ h => once_step h) hStart
  exact ⟨hOnce.responses, hOnce.started.1⟩

/-- The request of the administrator in two pieces, and the end of its verification. -/
theorem one_answer_run_applied : ∃ a : Watched,
    (a.world.responses = 1 ∧ a.started = 1) ∧ a.world.responses ≤ 1 := by
  have hQuiet : ∀ (a : Watched) (ev : Event) (b : Watched),
      !a.world.refused = true → QuietAfter401 a ev b := fun a ev b h _ _ _ => by simpa using h
  obtain ⟨a, hReach, hEnd⟩ : ∃ a, Run.Reach (Watched.step gateCfg) QuietAfter401
      { world := start (some gateStore) } a ∧ a.world.responses = 1 ∧ a.started = 1 :=
    Run.exists_of_runChecked hQuiet gateEvents (by decide +kernel)
  exact ⟨a, hEnd, (one_answer_run gateCfg (some gateStore) hReach).1⟩

/-- A request without credentials is refused; one more byte, and it is refused again. -/
theorem answers_twice : ∃ w : World, Run.runList (step {}) (start none)
      [.read (ascii "GET / HTTP/1.1\r\n\r\n") {}, .read (ascii "x") {}] = some w ∧
    w.log.map Entry.output = [.unauthorized, .unauthorized] ∧ w.responses = 2 :=
  Run.exists_of_runList (by decide +kernel)

end BeaverMQ.Http
