import BeaverMQ.Server.Discipline

/-!
# BeaverMQ — one delivery pass

`service_group` hands out the messages of a queue one by one. For each it goes round the
consumers of the group, from where the last search stopped, until one can take it. The pass ends
when no consumer can, when the queue is empty, or when a delivery fails.
-/

namespace BeaverMQ.Amqp

open List Prog Dispatcher Server

variable {cfg : Cfg} {t : Thread}

/-! ## Objects under updates -/

variable (b : Broker) (r : QRef) {f : Queue → Queue}

theorem gen_updObject (hGen : ∀ q, object b r = some q → (f q).gen = q.gen) (key : Bytes) :
    ((updObject b r f).queues.get key).map Queue.gen = (b.queues.get key).map Queue.gen := by
  unfold updObject
  split
  · rename_i hLive
    rw [Broker.updQueue, Table.get_modify]
    split
    · rename_i hKey
      subst hKey
      cases hGet : b.queues.get r.key with
      | none => rfl
      | some q =>
        have hObject : object b r = some q := by rw [object, if_pos hLive, hGet]
        exact congrArg some (hGen q hObject)
    · rfl
  · rfl

theorem live_updObject (r' : QRef)
    (hGen : ∀ q, (f q).gen = q.gen) : live (updObject b r' f) r = live b r := by
  have hAny : ∀ b : Broker, live b r = ((b.queues.get r.key).map Queue.gen).any (· = r.gen) := by
    intro b
    rw [live, Option.any_map]
  rw [hAny, hAny, gen_updObject b r' fun q _ => hGen q]

/-- A change that keeps the generations does not change which queue is found. -/
theorem find?_gen (hGen : ∀ q, (f q).gen = q.gen) (qs : List Queue)
    (g g' : Nat) : (qs.map fun q => if q.gen = g' then f q else q).find? (fun q => q.gen = g) =
      (qs.find? fun q => q.gen = g).map fun q => if q.gen = g' then f q else q := by
  rw [find?_map]
  congr 2
  funext q
  by_cases hq : q.gen = g' <;> simp [hq, hGen]

theorem object_updObject
    (hGen : ∀ q, (f q).gen = q.gen) : object (updObject b r f) r = (object b r).map f := by
  unfold object
  rw [live_updObject b r r hGen]
  unfold updObject
  split
  · rw [Broker.updQueue, Table.get_modify, if_pos rfl]
  rw [find?_gen hGen]
  refine Option.map_congr fun q hq => ?_
  rw [if_pos (by simpa using find?_some hq)]

theorem ready_updObject (r' : QRef)
    (hGen : ∀ q, (f q).gen = q.gen) (hReady : ∀ q, (f q).ready = q.ready) :
    (object (updObject b r' f) r).map Queue.ready = (object b r).map Queue.ready := by
  unfold object
  rw [live_updObject b r r' hGen]
  unfold updObject
  split <;> split
  · rw [Broker.updQueue, Table.get_modify]
    split
    · rename_i hKey
      rw [hKey, Option.map_map]
      exact Option.map_congr fun q _ => hReady q
    · rfl
  · rfl
  · rfl
  · rw [find?_gen hGen, Option.map_map]
    refine Option.map_congr fun q _ => ?_
    by_cases hq : q.gen = r'.gen <;> simp [hq, hReady]

/-! ## The search for a consumer -/

/-- The consumer took no message at turn `rr` of its group: its connection is closing, paused or
full, its prefetch window is full, or no slot for an unacked delivery could be reserved. -/
def Server.Unavailable (s : Server) (t : Thread) (rr : Nat) (c : Consumer) : Prop :=
  ∀ conn, s.own t c.conn = some conn → conn.closing = true ∨ conn.sendPaused = true ∨
    conn.full = true ∨ (c.noAck = false ∧ c.prefetch ≠ 0 ∧ c.prefetch ≤ c.unacked.length) ∨
      (c.noAck = false ∧ c.reserveUnacked (s.grows c.id rr) = none)

theorem own_updConn (s : Server) (t : Thread) (c c' : Nat) {f : Conn → Conn}
    (hWorker : ∀ conn, (f conn).worker = conn.worker) :
    (s.updConn t c f).own t c' = (s.own t c').map fun conn => if c' = c then f conn else conn := by
  unfold own updConn
  rw [Table.get_modify]
  by_cases hEq : c' = c
  · subst hEq
    cases hGet : s.conns.get c' with
    | none => simp
    | some conn => by_cases hOwn : conn.worker = t <;> simp [Option.filter_some, hOwn, hWorker]
  · simp [hEq]

variable {c : Consumer} {g : Group} {α : Type}

theorem Server.Unavailable.pause {s : Server} {rr : Nat} (h : s.Unavailable t rr c) (n : Nat) :
    (s.updConn t n fun conn => { conn with sendPaused := true }).Unavailable t rr c := by
  intro conn' hOwn
  rw [own_updConn s t n c.conn (by exact fun _ => rfl)] at hOwn
  obtain ⟨conn, hConn, rfl⟩ := Option.map_eq_some_iff.mp hOwn
  split
  · exact .inr (.inl rfl)
  · exact h conn hConn

/-- What a search may change: the counter of the group, and connections it pauses. -/
structure Searched (t : Thread) (key : Bytes) (s s' : Server) : Prop where
  broker : s'.broker = s.broker
  consumers : (s'.dispatchers t).consumers = (s.dispatchers t).consumers
  group : ∀ g, (s.dispatchers t).groups.get key = some g →
    ∃ rr, (s'.dispatchers t).groups.get key = some { g with rr }
  unavailable : ∀ rr c, s.Unavailable t rr c → s'.Unavailable t rr c

variable {key : Bytes} {s s₁ s₂ : Server}

theorem Searched.trans (h₁ : Searched t key s s₁) (h₂ : Searched t key s₁ s₂) :
    Searched t key s s₂ where
  broker := h₂.broker.trans h₁.broker
  consumers := h₂.consumers.trans h₁.consumers
  group g hGet := by
    obtain ⟨_, hGet₁⟩ := h₁.group g hGet
    obtain ⟨rr, hGet₂⟩ := h₂.group _ hGet₁
    exact ⟨rr, hGet₂⟩
  unavailable rr c hc := h₂.unavailable rr c (h₁.unavailable rr c hc)

theorem searched_turn (s : Server) : Searched t key s
    (s.updDispatcher t (·.updGroup key fun g => { g with rr := g.rr + 1 })) where
  broker := rfl
  consumers := by simp [updDispatcher, updGroup]
  group g hGet := ⟨g.rr + 1, by
    simp [updDispatcher, updGroup, Table.get_modify, hGet]⟩
  unavailable _ _ hc := hc

theorem searched_pause (s : Server) (n : Nat) : Searched t key s
    (s.updConn t n fun conn => { conn with sendPaused := true }) where
  broker := rfl
  consumers := rfl
  group g hGet := ⟨g.rr, hGet⟩
  unavailable _ _ hc := hc.pause n

def Consumer.Room (c : Consumer) : Prop :=
  c.noAck = false → c.prefetch ≠ 0 → c.unacked.length < c.prefetch

def Dispatcher.candidate (d : Dispatcher) (g : Group) (rr : Nat) : Option Consumer :=
  (g.arr[rr % g.arr.length]?).bind d.find

/-- The array of the unacked deliveries of the consumer may have grown, and nothing else. -/
def Reserved (t : Thread) (c : Consumer) (s s' : Server) : Prop :=
  s' = s ∨ ∃ cap, s' = s.updDispatcher t (·.updConsumer c.id fun c => { c with capUnacked := cap })

/-- One turn of a search: the candidate is unavailable and the search goes on, or it is taken. -/
theorem pick_succ (hGroup : (s.dispatchers t).groups.get key = some g) (tries : Nat) :
    ∃ s₁, Searched t key s s₁ ∧
      (s₁.dispatchers t).groups.get key = some { g with rr := g.rr + 1 } ∧
      ((pick t key (tries + 1) s = pick t key tries s₁ ∧
          ∀ c, (s.dispatchers t).candidate g g.rr = some c → s₁.Unavailable t g.rr c) ∨
        ∃ c s₂, (s.dispatchers t).find c.id = some c ∧ c.Room ∧ Reserved t c s₁ s₂ ∧
          pick t key (tries + 1) s = (some c.id, s₂)) := by
  have hTurn : Searched t key s _ := searched_turn s
  have hGroup₁ : ((s.updDispatcher t (·.updGroup key fun g => { g with rr := g.rr + 1 })).dispatchers
      t).groups.get key = some { g with rr := g.rr + 1 } := by
    simp [updDispatcher, updGroup, Table.get_modify, hGroup]
  rw [pick]
  simp only [hGroup]
  generalize s.updDispatcher t (·.updGroup key fun g => { g with rr := g.rr + 1 }) = s₁
    at hTurn hGroup₁
  unfold candidate
  cases hCand : (g.arr[g.rr % g.arr.length]?).bind (s.dispatchers t).find with
  | none => exact ⟨s₁, hTurn, hGroup₁, .inl ⟨rfl, by simp⟩⟩
  | some c =>
    have hFind : (s.dispatchers t).find c.id = some c := by
      obtain ⟨id, -, hFind⟩ := Option.bind_eq_some_iff.mp hCand
      have hId : c.id = id := by simpa using find?_some hFind
      rw [hId]
      exact hFind
    dsimp only
    cases hOwn : s₁.own t c.conn with
    | none =>
      refine ⟨s₁, hTurn, hGroup₁, .inl ⟨rfl, ?_⟩⟩
      rintro _ ⟨⟩ conn hConn
      rw [hOwn] at hConn
      cases hConn
    | some conn =>
      have hOnly : ∀ P : Conn → Prop, P conn → ∀ x, s₁.own t c.conn = some x → P x := by
        intro P hP x hx
        rw [hOwn] at hx
        cases hx
        exact hP
      dsimp only
      split
      · rename_i hClosing
        refine ⟨s₁, hTurn, hGroup₁, .inl ⟨rfl, ?_⟩⟩
        rintro _ ⟨⟩
        exact hOnly _ (.inl hClosing)
      split
      · rename_i hPaused
        refine ⟨_, hTurn.trans (searched_pause s₁ c.conn), hGroup₁, .inl ⟨rfl, ?_⟩⟩
        rintro _ ⟨⟩
        refine Unavailable.pause (hOnly _ ?_) c.conn
        simp only [Bool.or_eq_true] at hPaused
        exact .inr (hPaused.imp id .inl)
      split
      · rename_i hFull
        refine ⟨s₁, hTurn, hGroup₁, .inl ⟨rfl, ?_⟩⟩
        rintro _ ⟨⟩
        refine hOnly _ (.inr (.inr (.inr (.inl ?_))))
        simpa [and_assoc] using hFull
      rename_i hFull
      have hRoom : c.Room := fun hAck hPrefetch => by simpa [hAck, hPrefetch] using hFull
      split
      · exact ⟨s₁, hTurn, hGroup₁, .inr ⟨c, s₁, hFind, hRoom, .inl rfl, rfl⟩⟩
      rename_i hAck
      split
      · rename_i hReserve
        refine ⟨s₁, hTurn, hGroup₁, .inl ⟨rfl, ?_⟩⟩
        rintro _ ⟨⟩
        exact hOnly _ (.inr (.inr (.inr (.inr ⟨Bool.not_eq_true _ ▸ hAck, hReserve⟩))))
      · rename_i cap _
        exact ⟨s₁, hTurn, hGroup₁, .inr ⟨c, _, hFind, hRoom, .inr ⟨cap, rfl⟩, rfl⟩⟩

/-- **A search** picks a consumer with room, or has turned to every candidate and seen that it is
unavailable. -/
theorem pick_spec (hGroup : (s.dispatchers t).groups.get key = some g) (tries : Nat) :
    ∃ picked s', pick t key tries s = (picked, s') ∧
      match picked with
      | some id => ∃ c s₁, Searched t key s s₁ ∧ (s.dispatchers t).find id = some c ∧ c.Room ∧
          Reserved t c s₁ s'
      | none => Searched t key s s' ∧
          (s'.dispatchers t).groups.get key = some { g with rr := g.rr + tries } ∧
          ∀ k < tries, ∀ c, (s.dispatchers t).candidate g (g.rr + k) = some c →
            s'.Unavailable t (g.rr + k) c := by
  induction tries generalizing s g with
  | zero =>
    exact ⟨none, s, rfl, ⟨rfl, rfl, fun g hGet => ⟨g.rr, hGet⟩, fun _ _ => id⟩, hGroup, by simp⟩
  | succ tries ih =>
    obtain ⟨s₁, hSearched, hGroup₁, ⟨hPick, hFirst⟩ | ⟨c, s₂, hFind, hRoom, hReserved, hPick⟩⟩ :=
      pick_succ hGroup tries
    · obtain ⟨picked, s', hRest, hPicked⟩ := ih hGroup₁
      refine ⟨picked, s', hPick.trans hRest, ?_⟩
      have hFind : (s₁.dispatchers t).find = (s.dispatchers t).find := by
        unfold find
        rw [hSearched.consumers]
      cases picked with
      | some id =>
        obtain ⟨c, s₂, hSearched', hc, hRoom, hReserved⟩ := hPicked
        exact ⟨c, s₂, hSearched.trans hSearched', hFind ▸ hc, hRoom, hReserved⟩
      | none =>
        obtain ⟨hSearched', hGroup', hRest'⟩ := hPicked
        refine ⟨hSearched.trans hSearched', ?_, ?_⟩
        · rw [hGroup', Nat.add_assoc, Nat.add_comm 1 tries]
        intro k hk c hc
        cases k with
        | zero => exact hSearched'.unavailable _ c (hFirst c hc)
        | succ k =>
          have hTurn : g.rr + 1 + k = g.rr + (k + 1) := by omega
          have hUnavailable := hRest' k (by omega) c
          dsimp only at hUnavailable
          rw [hTurn] at hUnavailable
          refine hUnavailable ?_
          rw [← hc]
          unfold candidate
          rw [hFind]
    · exact ⟨some c.id, s₂, hPick, c, s₁, hSearched, hFind, hRoom, hReserved⟩

theorem exists_turn (rr : Nat) {n j : Nat} (hj : j < n) : ∃ k < n, (rr + k) % n = j := by
  have hn : 0 < n := by omega
  have hLt := Nat.mod_lt rr hn
  refine ⟨(j + (n - rr % n)) % n, Nat.mod_lt _ hn, ?_⟩
  calc (rr + (j + (n - rr % n)) % n) % n
    _ = (rr % n + (j + (n - rr % n))) % n := by rw [Nat.add_mod_mod, Nat.mod_add_mod]
    _ = (j + n) % n := by rw [show rr % n + (j + (n - rr % n)) = j + n by omega]
    _ = j := by rw [Nat.add_mod_right, Nat.mod_eq_of_lt hj]

/-! ## The pass -/

def Server.depth (s : Server) (r : QRef) : Nat := (object s.broker r).elim 0 fun q => q.ready.length

/-- A consumer before and after a pass: it may have got deliveries, which do not go beyond its
prefetch window. -/
def Consumer.Served (c c' : Consumer) : Prop :=
  ∃ more cap, c' = { c with unacked := c.unacked ++ more, capUnacked := cap } ∧
    (more ≠ [] → c.noAck = false ∧ (c.prefetch ≠ 0 → c'.unacked.length ≤ c.prefetch))

theorem Consumer.Served.grown (c : Consumer) (cap : Nat) : c.Served { c with capUnacked := cap } :=
  ⟨[], cap, by simp, by simp⟩

theorem Consumer.Served.refl (c : Consumer) : c.Served c := grown c c.capUnacked

theorem Consumer.Served.trans {c' c'' : Consumer} (h : c.Served c') (h' : c'.Served c'') :
    c.Served c'' := by
  obtain ⟨more, _, rfl, hRoom⟩ := h
  obtain ⟨more', cap, rfl, hRoom'⟩ := h'
  refine ⟨more ++ more', cap, by simp, fun hMore => ?_⟩
  cases more' with
  | nil => simpa using hRoom (by simpa using hMore)
  | cons u us => exact hRoom' (cons_ne_nil u us)

/-- Consumers are only served, and the group keeps its members. -/
structure Passed (t : Thread) (key : Bytes) (s s' : Server) : Prop where
  consumers : ∃ f, (s'.dispatchers t).consumers = (s.dispatchers t).consumers.map f ∧
    ∀ c ∈ (s.dispatchers t).consumers, c.Served (f c)
  group : ∀ g, (s.dispatchers t).groups.get key = some g →
    ∃ rr, (s'.dispatchers t).groups.get key = some { g with rr }

theorem Passed.trans (h₁ : Passed t key s s₁) (h₂ : Passed t key s₁ s₂) : Passed t key s s₂ where
  consumers := by
    obtain ⟨f, hf, hServed⟩ := h₁.consumers
    obtain ⟨f', hf', hServed'⟩ := h₂.consumers
    refine ⟨f' ∘ f, by rw [hf', hf, map_map], fun c hc => ?_⟩
    refine (hServed c hc).trans (hServed' (f c) ?_)
    rw [hf]
    exact mem_map_of_mem hc
  group g hGet := by
    obtain ⟨_, hGet₁⟩ := h₁.group g hGet
    obtain ⟨rr, hGet₂⟩ := h₂.group _ hGet₁
    exact ⟨rr, hGet₂⟩

theorem Passed.ids (h : Passed t key s s₁)
    (hIds : ((s.dispatchers t).consumers.map Consumer.id).Nodup) :
    ((s₁.dispatchers t).consumers.map Consumer.id).Nodup := by
  obtain ⟨f, hf, hServed⟩ := h.consumers
  rw [hf, map_map]
  rwa [map_congr_left fun c hc => ?_]
  obtain ⟨more, cap, hEq, -⟩ := hServed c hc
  rw [Function.comp_apply, hEq]

theorem Passed.of_same (hConsumers : (s₁.dispatchers t).consumers = (s.dispatchers t).consumers)
    (hGroup : ∀ g, (s.dispatchers t).groups.get key = some g →
      ∃ rr, (s₁.dispatchers t).groups.get key = some { g with rr }) : Passed t key s s₁ :=
  ⟨⟨id, by rw [hConsumers, map_id], fun c _ => .refl c⟩, hGroup⟩

theorem Passed.of_dispatchers (h : s₁.dispatchers = s.dispatchers) : Passed t key s s₁ :=
  .of_same (by rw [h]) fun g hGet => ⟨g.rr, by rw [h]; exact hGet⟩

theorem passed_reserved (h : Reserved t c s s₁) : Passed t key s s₁ := by
  obtain rfl | ⟨cap, rfl⟩ := h
  · exact .of_dispatchers rfl
  refine ⟨⟨fun c' => if c'.id = c.id then { c' with capUnacked := cap } else c', ?_, fun c' _ => ?_⟩,
    fun g hGet => ⟨g.rr, ?_⟩⟩
  · simp [updDispatcher, updConsumer]
  · dsimp only
    split
    · exact .grown c' cap
    · exact .refl c'
  · simpa [updDispatcher, updConsumer] using hGet

theorem find_reserved (h : Reserved t c s s₁) (hFind : (s.dispatchers t).find c.id = some c)
    (hRoom : c.Room) : ∃ c', c'.id = c.id ∧ c'.Room ∧ (s₁.dispatchers t).find c.id = some c' := by
  obtain rfl | ⟨cap, rfl⟩ := h
  · exact ⟨c, rfl, hRoom, hFind⟩
  refine ⟨{ c with capUnacked := cap }, rfl, hRoom, ?_⟩
  have hSame : ((fun c' : Consumer => decide (c'.id = c.id)) ∘
      fun c' => if c'.id = c.id then { c' with capUnacked := cap } else c') =
        fun c' => decide (c'.id = c.id) := by
    funext c'
    by_cases hId : c'.id = c.id <;> simp [hId]
  have hConsumers : ∀ f, ((s.updDispatcher t (·.updConsumer c.id f)).dispatchers t).consumers =
      (s.dispatchers t).consumers.map fun c' => if c'.id = c.id then f c' else c' := by
    intro f
    simp [updDispatcher, updConsumer]
  rw [find] at hFind
  rw [find, hConsumers, find?_map, hSame, hFind, Option.map_some, if_pos rfl]

theorem passed_addUnacked (hIds : ((s.dispatchers t).consumers.map Consumer.id).Nodup)
    (hFind : (s.dispatchers t).find c.id = some c) (hAck : c.noAck = false)
    (hRoom : c.Room) (tag : Nat) : Passed t key s (s.addUnacked t c.id tag) := by
  unfold addUnacked
  split
  · exact .of_same rfl fun g hGet => ⟨g.rr, hGet⟩
  rename_i h _
  refine ⟨⟨fun c' => if c'.id = c.id then
    { c' with unacked := c'.unacked ++ [⟨tag, h.copy, h.msg⟩] } else c', ?_, fun c' hc' => ?_⟩, ?_⟩
  · simp [updDispatcher, setHand, updConsumer]
  · dsimp only
    split
    · rename_i hId
      obtain rfl : c' = c :=
        inj_on_of_nodup_map hIds hc' (mem_of_find?_eq_some hFind) hId
      refine ⟨[⟨tag, h.copy, h.msg⟩], c'.capUnacked, rfl, fun _ => ⟨hAck, fun hPrefetch => ?_⟩⟩
      rw [length_append]
      exact hRoom hAck hPrefetch
    · exact .refl c'
  · intro g hGet
    exact ⟨g.rr, by simpa [updDispatcher, setHand, updConsumer] using hGet⟩

variable {Q : List (Sigma Act.Ret) → α → Server → Prop}

theorem ensures_do {a : Act} {f : a.Ret → Proc α}
    (h : Ensures (Act.run cfg t) (f (a.run cfg t s).1) (a.run cfg t s).2
      fun done => Q (⟨a, (a.run cfg t s).1⟩ :: done)) :
    Ensures (Act.run cfg t) (act a >>= f) s Q :=
  ensures_act h

theorem ensures_ask {q : Query} {f : q.Ret → Proc α}
    (h : Ensures (Act.run cfg t) (f (q.answer cfg t s)) s
      fun done => Q (⟨.ask q, q.answer cfg t s⟩ :: done)) :
    Ensures (Act.run cfg t) (ask q >>= f) s Q :=
  ensures_act h

theorem ensures_send {c : Nat} {data : Bytes} {f : Bool → Proc α}
    (h : ∀ sent s', s'.broker = s.broker → s'.dispatchers = s.dispatchers →
      Ensures (Act.run cfg t) (f sent) s' fun done => Q (⟨.send c data, sent⟩ :: done)) :
    Ensures (Act.run cfg t) (act (.send c data) >>= f) s Q := by
  refine ensures_do (h (s.send t c data).1 (s.send t c data).2 ?_ ?_) <;>
    unfold send <;> split <;> (try split) <;> rfl

theorem depth_consumeOnDeliver (s : Server) (r r' : QRef) (cid : Nat) (noAck : Bool) :
    (s.updQueue r' (queueConsumeOnDeliver · cid noAck)).depth r = s.depth r := by
  have hElim : ∀ o : Option Queue, (o.elim 0 fun q => q.ready.length) =
      (o.map Queue.ready).elim 0 length := by
    intro o
    cases o <;> rfl
  unfold depth
  rw [hElim, hElim]
  refine congrArg (Option.elim · 0 length) (ready_updObject s.broker r r' ?_ ?_) <;>
    intro q <;> unfold queueConsumeOnDeliver <;> split_ifs <;> rfl

def Failed (done : List (Sigma Act.Ret)) : Prop := ∃ c data, ⟨.send c data, false⟩ ∈ done

/-- What a delivery leaves: the consumer has the message when it went out, and the queue it came
from is as it was. -/
theorem ensures_deliver (key : Bytes) (hIds : ((s.dispatchers t).consumers.map Consumer.id).Nodup)
    (hFind : (s.dispatchers t).find c.id = some c) (hRoom : c.Room) (m : Msg) (r : QRef) :
    Ensures (Act.run cfg t) (deliver c m) s fun done sent s' => Passed t key s s' ∧
      s'.depth r = s.depth r ∧ (sent = false → Failed done) := by
  unfold deliver
  refine ensures_do (ensures_ask (ensures_send fun sent s₂ hBroker hDispatchers => ?_))
  have hConsumers : (s₂.dispatchers t).consumers = (s.dispatchers t).consumers := by
    rw [hDispatchers]
    simp [Act.run, updDispatcher]
  have hSame₂ : Passed t key s s₂ := by
    refine .of_same hConsumers fun g hGet => ⟨g.rr, ?_⟩
    rw [hDispatchers]
    simpa [Act.run, updDispatcher] using hGet
  have hDepth₂ : s₂.depth r = s.depth r := by
    unfold depth
    rw [hBroker]
    rfl
  cases sent with
  | false =>
    exact ensures_pure ⟨hSame₂, hDepth₂, fun _ =>
      ⟨c.conn, _, mem_cons_of_mem _ (mem_cons_of_mem _ mem_cons_self)⟩⟩
  | true =>
    rw [← hConsumers] at hIds
    have hFind₂ : (s₂.dispatchers t).find c.id = some c := by
      unfold find
      rw [hConsumers]
      exact hFind
    have hNote : ∀ s₃ : Server, Passed t key s₂ s₃ → s₃.depth r = s₂.depth r →
        Passed t key s (s₃.updQueue c.queue (queueConsumeOnDeliver · m.clusterId c.noAck)) ∧
          (s₃.updQueue c.queue (queueConsumeOnDeliver · m.clusterId c.noAck)).depth r =
            s.depth r := by
      intro s₃ hPassed hDepth
      refine ⟨hSame₂.trans (hPassed.trans (.of_same rfl fun g hGet => ⟨g.rr, hGet⟩)), ?_⟩
      rw [← hDepth₂, ← hDepth]
      exact depth_consumeOnDeliver s₃ r c.queue m.clusterId c.noAck
    rw [if_pos rfl]
    dsimp only
    split
    · rename_i hAck
      have hAck' : c.noAck = false := by simpa using hAck
      have hAdded := hNote (s₂.addUnacked t c.id _)
        (passed_addUnacked hIds hFind₂ hAck' hRoom ((s.dispatchers t).nextDeliveryTag + 1))
        (by unfold addUnacked; split <;> rfl)
      exact ensures_do (ensures_do (ensures_pure ⟨hAdded.1, hAdded.2, by simp⟩))
    · have hPlain := hNote s₂ (.of_same rfl fun g hGet => ⟨g.rr, hGet⟩) rfl
      exact ensures_do (ensures_pure ⟨hPlain.1, hPlain.2, by simp⟩)

theorem dequeue_cases (s : Server) (t : Thread) (r : QRef) :
    (s.dequeue t r = (none, s) ∧ ∀ q, object s.broker r = some q → q.ready = []) ∨
      ∃ m s', s.dequeue t r = (some m, s') ∧ s'.dispatchers = s.dispatchers ∧
        s'.depth r + 1 = s.depth r := by
  unfold dequeue
  cases hObject : object s.broker r with
  | none => exact .inl ⟨rfl, by simp⟩
  | some q =>
    dsimp only
    cases hReady : q.ready with
    | nil =>
      refine .inl ⟨rfl, ?_⟩
      rintro _ ⟨⟩
      exact hReady
    | cons m rest =>
      refine .inr ⟨m, _, rfl, rfl, ?_⟩
      have hLeft := object_updObject s.broker r (f := fun q => { q with ready := rest }) fun _ => rfl
      rw [hObject] at hLeft
      have hBefore : s.depth r = rest.length + 1 := by
        rw [depth, hObject, Option.elim, hReady, length_cons]
      rw [hBefore]
      exact congrArg (fun o : Option Queue => o.elim 0 (fun q => q.ready.length) + 1) hLeft

/-- The last turn of the round robin to each consumer of the group, one round back at most, was in
vain. -/
def Server.Idle (s : Server) (t : Thread) (key : Bytes) (g : Group) : Prop :=
  ∃ rr, (s.dispatchers t).groups.get key = some { g with rr := rr + g.arr.length } ∧
    ∀ id ∈ g.arr, ∀ c, (s.dispatchers t).find id = some c →
      ∃ k < g.arr.length, g.arr[(rr + k) % g.arr.length]? = some id ∧ s.Unavailable t (rr + k) c

/-- **The loop over a group** ends with an empty queue, a failed send or no free consumer. -/
theorem ensures_serviceGroup (cfg : Cfg) {r : QRef} {fuel : Nat}
    (hGroup : ∃ rr, (s.dispatchers t).groups.get key = some { g with rr })
    (hIds : ((s.dispatchers t).consumers.map Consumer.id).Nodup) (hFuel : s.depth r < fuel) :
    Ensures (Act.run cfg t) (serviceGroup key r fuel) s fun done _ s' => Passed t key s s' ∧
      ((∀ q, object s'.broker r = some q → q.ready = []) ∨ Failed done ∨ s'.Idle t key g) := by
  induction fuel generalizing s with
  | zero => exact absurd hFuel (Nat.not_lt_zero _)
  | succ fuel ih =>
    obtain ⟨rr, hGroup⟩ := hGroup
    obtain ⟨picked, s₁, hPick, hPicked⟩ := pick_spec hGroup g.arr.length
    have hRun : (Act.pick key).run cfg t s = (picked, s₁) := by
      simp only [Act.run, hGroup, Option.elim]
      exact hPick
    rw [serviceGroup]
    refine ensures_do ?_
    rw [hRun]
    cases picked with
    | none =>
      obtain ⟨hSearched, hGroup₁, hVain⟩ := hPicked
      refine ensures_pure ⟨.of_same hSearched.consumers hSearched.group,
        .inr (.inr ⟨rr, hGroup₁, fun id hId c hFind => ?_⟩)⟩
      obtain ⟨j, hj, rfl⟩ := mem_iff_getElem.mp hId
      obtain ⟨k, hk, hTurn⟩ := exists_turn rr hj
      have hCand : g.arr[(rr + k) % g.arr.length]? = some g.arr[j] := by
        rw [hTurn, getElem?_eq_getElem hj]
      refine ⟨k, hk, hCand, hVain k hk c ?_⟩
      rw [candidate, hCand]
      unfold find at hFind ⊢
      rw [hSearched.consumers] at hFind
      exact hFind
    | some id =>
      obtain ⟨c₀, s₀, hSearched, hFind, hRoom₀, hReserved⟩ := hPicked
      obtain rfl : c₀.id = id := by simpa using find?_some hFind
      have hFind₀ : (s₀.dispatchers t).find c₀.id = some c₀ := by
        unfold find at hFind ⊢
        rw [hSearched.consumers]
        exact hFind
      have hPassed₁ : Passed t key s s₁ :=
        (Passed.of_same hSearched.consumers hSearched.group).trans (passed_reserved hReserved)
      -- the consumer, with the slot for this delivery
      obtain ⟨c, hId, hRoom, hFind₁⟩ := find_reserved hReserved hFind₀ hRoom₀
      refine ensures_ask ?_
      rw [show Query.answer cfg t s₁ (.consumer c₀.id) = some c from hFind₁]
      rw [← hId] at hFind₁
      refine ensures_do ?_
      obtain ⟨hNone, hEmpty⟩ | ⟨m, s₂, hSome, hDispatchers, hDepth⟩ := dequeue_cases s₁ t r
      · rw [show (Act.dequeue r).run cfg t s₁ = (none, s₁) from hNone]
        exact ensures_pure ⟨hPassed₁, .inl hEmpty⟩
      · rw [show (Act.dequeue r).run cfg t s₁ = (some m, s₂) from hSome]
        have hPassed₂ : Passed t key s s₂ :=
          hPassed₁.trans (.of_dispatchers hDispatchers)
        have hIds₂ := hPassed₂.ids hIds
        have hFind₂ : (s₂.dispatchers t).find c.id = some c := by
          rw [hDispatchers]
          exact hFind₁
        have hDepth₁ : s₁.depth r = s.depth r := by
          unfold depth
          rw [← hSearched.broker]
          obtain rfl | ⟨_, rfl⟩ := hReserved <;> rfl
        refine (ensures_deliver key hIds₂ hFind₂ hRoom m r).bind ?_
        rintro done sent s₃ ⟨hPassed₃, hDepth₃, hFailed⟩
        have hPassed := hPassed₂.trans hPassed₃
        cases sent with
        | false =>
          -- the message goes back and the pass ends
          obtain ⟨n, data, hSend⟩ := hFailed rfl
          refine ensures_do (ensures_pure ⟨hPassed.trans (.of_dispatchers ?_),
            .inr (.inl ⟨n, data, by simp [hSend]⟩)⟩)
          show (s₃.requeueHand t r).dispatchers = s₃.dispatchers
          unfold requeueHand
          split <;> rfl
        | true =>
          have hDropped : (s₃.unrefHand t).dispatchers = s₃.dispatchers ∧
              (s₃.unrefHand t).broker = s₃.broker := by
            unfold unrefHand
            split <;> exact ⟨rfl, rfl⟩
          have hPassed₄ := hPassed.trans (.of_dispatchers hDropped.1)
          have hDepth₄ : (s₃.unrefHand t).depth r = s₃.depth r := by
            unfold depth
            rw [hDropped.2]
          obtain ⟨rr₄, hGroup₄⟩ := hPassed₄.group _ hGroup
          refine ensures_do ((ih ⟨rr₄, hGroup₄⟩ (hPassed₄.ids hIds) ?_).mono ?_)
          · show (s₃.unrefHand t).depth r < fuel
            omega
          · rintro done' _ s' ⟨hRest, hEnd⟩
            refine ⟨hPassed₄.trans hRest, hEnd.imp_right (.imp_left ?_)⟩
            rintro ⟨n, data, hSend⟩
            exact ⟨n, data, by simp [hSend]⟩

/-- **A delivery pass returns**, and then the queue is empty, a write to a client failed, or every
consumer of the group is closing, paused, full or at its prefetch limit, or no slot could be
reserved for its next delivery. No consumer got more deliveries than its prefetch window has room
for. -/
theorem service_work_conserving {cfg : Cfg} {t : Thread} {key : Bytes} {s : Server} {g : Group}
    (hGroup : (s.dispatchers t).groups.get key = some g)
    (hIds : ((s.dispatchers t).consumers.map Consumer.id).Nodup) {fuel : Nat}
    (hFuel : s.depth g.queue < fuel) :
    ∃ done s', (serviceGroup key g.queue fuel).execute (Act.run cfg t) s = (done, some (), s') ∧
      ((∀ q, object s'.broker g.queue = some q → q.ready = []) ∨ Failed done ∨ s'.Idle t key g) ∧
      List.Forall₂ Consumer.Served (s.dispatchers t).consumers (s'.dispatchers t).consumers := by
  obtain ⟨done, _, s', hRun, hPassed, hEnd⟩ :=
    ensures_serviceGroup cfg (r := g.queue) ⟨g.rr, hGroup⟩ hIds hFuel
  refine ⟨done, s', hRun, hEnd, ?_⟩
  obtain ⟨f, hf, hServed⟩ := hPassed.consumers
  rw [hf, List.forall₂_map_right_iff, List.forall₂_same]
  exact hServed

/-- The queue of `busy`, and its group. -/
def busyQueue : QRef := ⟨ascii "/", ascii "q", 0, 0⟩

def busyGroup : Group := { queue := busyQueue, arr := [0, 1] }

/-- Three messages, and two consumers of one connection with a prefetch window of one. There is no
memory for the deliveries of the second. -/
def busy : Server where
  broker :=
    { queues := AList.insert busyQueue.key
        { vhost := ascii "/", name := ascii "q", flags := 0, gen := 0
          ready := replicate 3 ⟨[], ascii "q", [], [1], 0, 0⟩ } ∅ }
  dispatchers := fun _ =>
    { groups := AList.insert busyQueue.key busyGroup ∅
      consumers := [⟨0, 1, 1, ascii "a", busyQueue, false, 1, [], 0⟩,
        ⟨1, 1, 1, ascii "b", busyQueue, false, 1, [], 0⟩] }
  conns := AList.insert 1 { worker := .worker 0, stream := { proto := { conn := 1 } } } ∅
  grows := fun id _ => id = 0

theorem service_work_conserving_busy : busy.depth busyQueue < 4 ∧
    ∃ done s', (serviceGroup busyQueue.key busyQueue 4).execute (Act.run {} (.worker 0)) busy =
        (done, some (), s') ∧
      ((∀ q, object s'.broker busyQueue = some q → q.ready = []) ∨ Failed done ∨
        s'.Idle (.worker 0) busyQueue.key busyGroup) ∧
      List.Forall₂ Consumer.Served (busy.dispatchers (.worker 0)).consumers
        (s'.dispatchers (.worker 0)).consumers :=
  ⟨by decide +kernel,
    service_work_conserving (g := busyGroup) (by decide +kernel) (by decide) (by decide +kernel)⟩

end BeaverMQ.Amqp
