import BeaverMQ.Queues.Routing

/-!
# BeaverMQ — the dead-letter cascade ends

`broker_route` calls itself: an enqueue that evicts hands the evicted messages to
`broker_dead_letter_cb`, which routes a copy of each, which may evict again, also messages that
have fewer hops than the copy. Neither the number of stored messages nor the hop count of the
message at hand goes down.

What goes down is a charge. With `n` queues, a stored message that may still make `r` hops is
charged `cascadeCost n r`: one call, and the charge of at most `n` copies that may make `r - 1`
hops.
-/

namespace BeaverMQ

open List Table

/-! ## Charges -/

/-- The calls that a stored message can cause while it may make `r` more hops. -/
def cascadeCost (n : Nat) : Nat → Nat
  | 0 => 0
  | r + 1 => 1 + n * cascadeCost n r

theorem cascadeCost_le (n r : Nat) : cascadeCost n r ≤ (n + 1) ^ r := by
  induction r with
  | zero => exact Nat.zero_le _
  | succ r ih =>
    have hOne : 1 ≤ (n + 1) ^ r := Nat.one_le_pow _ _ (Nat.succ_pos n)
    calc cascadeCost n (r + 1) = 1 + n * cascadeCost n r := rfl
      _ ≤ (n + 1) ^ r + n * (n + 1) ^ r := Nat.add_le_add hOne (Nat.mul_le_mul_left n ih)
      _ = (n + 1) ^ (r + 1) := by ring

theorem cascadeCost_mono (n : Nat) : Monotone (cascadeCost n) := by
  refine monotone_nat_of_le_succ fun r => ?_
  induction r with
  | zero => exact Nat.zero_le _
  | succ r ih => exact Nat.add_le_add_left (Nat.mul_le_mul_left n ih) 1

def Msg.charge (n : Nat) (m : Msg) : Nat := cascadeCost n (brokerDlMaxHops - m.dlHops)

def Queue.charge (n : Nat) (q : Queue) : Nat := (q.ready.map (Msg.charge n)).sum

def Broker.charge (n : Nat) (b : Broker) : Nat := (b.queues.values.map (Queue.charge n)).sum

theorem Msg.charge_le (n : Nat) (m : Msg) : m.charge n ≤ (n + 1) ^ brokerDlMaxHops :=
  (cascadeCost_mono n (Nat.sub_le _ _)).trans (cascadeCost_le n _)

theorem Broker.charge_le (n : Nat) (b : Broker) :
    b.charge n ≤
      (b.queues.values.map fun q => q.ready.length).sum * (n + 1) ^ brokerDlMaxHops := by
  have hQueue : ∀ q : Queue, q.charge n ≤ q.ready.length * (n + 1) ^ brokerDlMaxHops := by
    intro q
    unfold Queue.charge
    induction q.ready with
    | nil => exact Nat.zero_le _
    | cons m ms ih =>
      rw [map_cons, sum_cons, length_cons, Nat.add_mul, Nat.one_mul, Nat.add_comm]
      exact Nat.add_le_add ih (m.charge_le n)
  unfold Broker.charge
  induction b.queues.values with
  | nil => exact Nat.zero_le _
  | cons q qs ih =>
    simp only [map_cons, sum_cons, Nat.add_mul]
    exact Nat.add_le_add (hQueue q) ih

/-! ## What one call pays -/

variable {n fuel : Nat} {q : Queue} {b : Broker} {m : Msg} {vhost : Bytes}

theorem charge_deadLetter {old dm : Msg} (h : deadLetterMsg q old = some dm) :
    old.charge n = 1 + n * dm.charge n ∧ dm.dlHops ≤ brokerDlMaxHops := by
  unfold deadLetterMsg at h
  split at h
  · cases h
  rename_i hHops
  split at h
  · cases h
  cases h
  have hRest : brokerDlMaxHops - old.dlHops = brokerDlMaxHops - (old.dlHops + 1) + 1 := by omega
  refine ⟨?_, by show old.dlHops + 1 ≤ brokerDlMaxHops; omega⟩
  unfold Msg.charge
  rw [hRest]
  rfl

theorem charge_enqueue {q' : Queue} {out : List Msg} (h : queueEnqueue b q m = some (q', out)) :
    q'.charge n + (out.map (Msg.charge n)).sum ≤ q.charge n + m.charge n := by
  obtain ⟨evicted, kept, hSplit, rfl, rfl, -⟩ := queueEnqueue_split h
  have hOut : ((if q.dlExchange = [] then [] else evicted).map (Msg.charge n)).sum ≤
      (evicted.map (Msg.charge n)).sum := by
    split
    · exact Nat.zero_le _
    · exact Nat.le_refl _
  unfold Queue.charge
  rw [hSplit]
  simp only [map_append, sum_append, map_cons, map_nil, sum_cons,
    sum_nil]
  omega

theorem charge_updQueue (n : Nat) {key : Bytes} (hGet : b.queues.get key = some q) (q' : Queue) :
    (b.updQueue key fun _ => q').charge n + q.charge n = b.charge n + q'.charge n :=
  sum_values_modify hGet (Queue.charge n) fun _ => q'

/-! ## The call returns -/

def routeIntoWithin (fuel : Nat) (m : Msg) (st : Broker × List Msg) (key : Bytes) :
    Option (Broker × List Msg) :=
  match st.1.queues.get key with
  | none => some st
  | some q =>
    match queueEnqueue st.1 q m with
    | none => some st
    | some (q', out) =>
      out.foldlM
        (fun st old =>
          match deadLetterMsg q old with
          | none => some st
          | some dm =>
            (brokerRouteWithin fuel st.1 q.vhost dm).map fun r => (r.1, st.2 ++ dm :: r.2))
        (st.1.updQueue key fun _ => q', st.2)

theorem brokerRouteWithin_succ (fuel : Nat) (b : Broker) (vhost : Bytes) (m : Msg) :
    brokerRouteWithin (fuel + 1) b vhost m =
      (routeTargets b vhost m).foldlM (routeIntoWithin fuel m) (b, []) :=
  rfl

/-- A state inside a cascade on the queues of `b`: they are still there, their charge is within
`bound`, and the messages built so far kept to the hop limit. -/
structure Paid (b : Broker) (bound : Nat) (st : Broker × List Msg) : Prop where
  there : ∀ key, (st.1.queues.get key).isSome = (b.queues.get key).isSome
  count : st.1.queues.values.length = b.queues.values.length
  charge : st.1.charge b.queues.values.length ≤ bound
  hops : ∀ dm ∈ st.2, dm.dlHops ≤ brokerDlMaxHops

/-- What `within_of_charge` says of the calls one level down. -/
def ReturnsWithin (fuel n : Nat) : Prop :=
  ∀ (b : Broker) (vhost : Bytes) (m : Msg), b.queues.values.length = n →
    b.charge n + n * m.charge n < fuel →
    ∃ st, brokerRouteWithin fuel b vhost m = some st ∧ Paid b (b.charge n + n * m.charge n) st

/-- The dead letters of one enqueue stay within what the message is charged for. -/
theorem paid_letters (hCalls : ReturnsWithin fuel n) (hCount : b.queues.values.length = n)
    (q : Queue) (out : List Msg) (bound : Nat) (hFuel : bound ≤ fuel) (st : Broker × List Msg)
    (hPaid : Paid b (bound - (out.map (Msg.charge n)).sum) st)
    (hRoom : (out.map (Msg.charge n)).sum ≤ bound) :
    ∃ st', out.foldlM
      (fun st old =>
        match deadLetterMsg q old with
        | none => some st
        | some dm =>
          (brokerRouteWithin fuel st.1 q.vhost dm).map fun r => (r.1, st.2 ++ dm :: r.2)) st
      = some st' ∧ Paid b bound st' := by
  induction out generalizing st with
  | nil => exact ⟨st, rfl, by simpa using hPaid⟩
  | cons old out ih =>
    rw [map_cons, sum_cons] at hPaid hRoom
    rw [foldlM_cons]
    cases hLetter : deadLetterMsg q old with
    | none => exact ih st { hPaid with charge := hPaid.charge.trans (by omega) } (by omega)
    | some dm =>
      obtain ⟨hPays, hHops⟩ := charge_deadLetter (n := n) hLetter
      have hCharge := hPaid.charge
      rw [hCount] at hCharge
      obtain ⟨r, hCall, hNext⟩ := hCalls st.1 q.vhost dm (hPaid.count.trans hCount) (by omega)
      have hNextCharge := hNext.charge
      rw [hPaid.count, hCount] at hNextCharge
      simp only [hCall, Option.map_some, Option.bind_eq_bind, Option.bind_some]
      refine ih (r.1, st.2 ++ dm :: r.2) ⟨fun key => (hNext.there key).trans (hPaid.there key),
        hNext.count.trans hPaid.count, ?_, ?_⟩ (by omega)
      · rw [hCount]
        exact hNextCharge.trans (by omega)
      · intro x hx
        rcases mem_append.mp hx with hx | hx
        · exact hPaid.hops x hx
        rcases mem_cons.mp hx with rfl | hx
        · exact hHops
        · exact hNext.hops x hx

/-- A queue that does not exist costs nothing. -/
theorem paid_routeInto (hCalls : ReturnsWithin fuel n) (hCount : b.queues.values.length = n)
    (m : Msg) (key : Bytes) (bound : Nat) (st : Broker × List Msg) (hPaid : Paid b bound st)
    (hFuel : bound + (if (b.queues.get key).isSome then m.charge n else 0) ≤ fuel) :
    ∃ st', routeIntoWithin fuel m st key = some st' ∧
      Paid b (bound + (if (b.queues.get key).isSome then m.charge n else 0)) st' := by
  have hThere := hPaid.there key
  unfold routeIntoWithin
  rcases Option.eq_none_or_eq_some (st.1.queues.get key) with hGet | ⟨q, hGet⟩
  · rw [hGet]
    exact ⟨st, rfl, { hPaid with charge := hPaid.charge.trans (Nat.le_add_right _ _) }⟩
  rw [hGet, Option.isSome_some] at hThere
  rw [← hThere, if_pos rfl] at hFuel ⊢
  rw [hGet]
  simp only
  cases hEnq : queueEnqueue st.1 q m with
  | none => exact ⟨st, rfl, { hPaid with charge := hPaid.charge.trans (Nat.le_add_right _ _) }⟩
  | some res =>
    obtain ⟨q', out⟩ := res
    have hStored := charge_enqueue (n := n) hEnq
    have hMoved := charge_updQueue n hGet q'
    have hCharge := hPaid.charge
    rw [hCount] at hCharge
    refine paid_letters hCalls hCount q out _ hFuel _ ⟨fun k => ?_, ?_, ?_, hPaid.hops⟩ (by omega)
    · rw [← hPaid.there k]
      unfold Broker.updQueue
      rw [get_modify]
      split
      · rename_i hKey
        rw [hKey, hGet]
        rfl
      · rfl
    · exact (length_values_modify _ _ _).trans hPaid.count
    · rw [hCount]
      show (st.1.updQueue key fun _ => q').charge n ≤ _
      omega

theorem paid_targets (hCalls : ReturnsWithin fuel n) (hCount : b.queues.values.length = n) (m : Msg)
    (ks : List Bytes) (bound : Nat) (st : Broker × List Msg) (hPaid : Paid b bound st)
    (hFuel : bound + (ks.filter fun k => (b.queues.get k).isSome).length * m.charge n ≤ fuel) :
    ∃ st', ks.foldlM (routeIntoWithin fuel m) st = some st' ∧
      Paid b (bound + (ks.filter fun k => (b.queues.get k).isSome).length * m.charge n) st' := by
  induction ks generalizing bound st with
  | nil => exact ⟨st, rfl, by simpa using hPaid⟩
  | cons key ks ih =>
    have hSum : bound + ((key :: ks).filter fun k => (b.queues.get k).isSome).length * m.charge n =
        bound + (if (b.queues.get key).isSome then m.charge n else 0) +
          (ks.filter fun k => (b.queues.get k).isSome).length * m.charge n := by
      rw [filter_cons]
      split
      · rw [length_cons, Nat.add_mul, Nat.one_mul]
        omega
      · omega
    rw [hSum] at hFuel ⊢
    obtain ⟨st₁, hFirst, hPaid₁⟩ := paid_routeInto hCalls hCount m key bound st hPaid (by omega)
    obtain ⟨st₂, hRest, hPaid₂⟩ := ih _ st₁ hPaid₁ hFuel
    refine ⟨st₂, ?_, hPaid₂⟩
    rw [foldlM_cons, hFirst]
    exact hRest

/-- **The charge bounds the nested calls.** -/
theorem within_of_charge (fuel n : Nat) : ReturnsWithin fuel n := by
  induction fuel with
  | zero => exact fun _ _ _ _ hLt => absurd hLt (Nat.not_lt_zero _)
  | succ fuel ih =>
    intro b vhost m hCount hLt
    -- a queue is among the targets at most once
    have hTargets := length_filter_isSome_le b.queues (nodup_routeTargets b vhost m)
    rw [hCount] at hTargets
    have hStored := Nat.mul_le_mul_right (m.charge n) hTargets
    rw [brokerRouteWithin_succ]
    obtain ⟨st, hRun, hPaid⟩ := paid_targets ih hCount m (routeTargets b vhost m) (b.charge n)
      (b, []) ⟨fun _ => rfl, rfl, by rw [hCount], fun _ h => nomatch h⟩ (by omega)
    exact ⟨st, hRun, { hPaid with charge := hPaid.charge.trans (by omega) }⟩

/-! ## What it returns -/

section Folds

variable {α β σ : Type} {f g : σ → α → Option σ}

theorem foldlM_of_steps (hStep : ∀ s x t, f s x = some t → g s x = some t) {xs : List α}
    {s t : σ} (h : xs.foldlM f s = some t) : xs.foldlM g s = some t := by
  induction xs generalizing s with
  | nil => exact h
  | cons x xs ih =>
    rw [foldlM_cons] at h ⊢
    obtain ⟨u, hFirst, hRest⟩ := Option.bind_eq_some_iff.mp h
    exact Option.bind_eq_some_iff.mpr ⟨u, hStep s x u hFirst, ih hRest⟩

theorem foldl_of_foldlM {k : β → α → β} {p : σ → β}
    (hStep : ∀ s x t, f s x = some t → k (p s) x = p t) {xs : List α} {s t : σ}
    (h : xs.foldlM f s = some t) : xs.foldl k (p s) = p t := by
  induction xs generalizing s with
  | nil =>
    cases h
    rfl
  | cons x xs ih =>
    rw [foldlM_cons] at h
    obtain ⟨u, hFirst, hRest⟩ := Option.bind_eq_some_iff.mp h
    rw [foldl_cons, hStep s x u hFirst]
    exact ih hRest

end Folds

theorem brokerRouteWithin_mono
    {st : Broker × List Msg} (h : brokerRouteWithin fuel b vhost m = some st) :
    brokerRouteWithin (fuel + 1) b vhost m = some st := by
  induction fuel generalizing b vhost m st with
  | zero => cases h
  | succ fuel ih =>
    rw [brokerRouteWithin_succ] at h ⊢
    refine foldlM_of_steps (fun s key t hInto => ?_) h
    unfold routeIntoWithin at hInto ⊢
    split at hInto
    · exact hInto
    split at hInto
    · exact hInto
    refine foldlM_of_steps (fun s old t hLetter => ?_) hInto
    split at hLetter
    · exact hLetter
    · obtain ⟨r, hCall, hEq⟩ := Option.map_eq_some_iff.mp hLetter
      exact Option.map_eq_some_iff.mpr ⟨r, ih hCall, hEq⟩

theorem brokerRouteFuel_of_within
    {st : Broker × List Msg} (h : brokerRouteWithin fuel b vhost m = some st) :
    brokerRouteFuel fuel b vhost m = st.1 := by
  induction fuel generalizing b vhost m st with
  | zero => cases h
  | succ fuel ih =>
    rw [brokerRouteWithin_succ] at h
    rw [brokerRouteFuel_succ]
    -- two loops, over the targets and over the letters of each
    refine foldl_of_foldlM (p := Prod.fst) (fun s key t hInto => ?_) h
    unfold routeIntoWithin at hInto
    unfold routeInto
    cases hGet : s.1.queues.get key with
    | none =>
      rw [hGet] at hInto
      cases hInto
      rfl
    | some q =>
      rw [hGet] at hInto
      simp only at hInto ⊢
      cases hEnq : queueEnqueue s.1 q m with
      | none =>
        rw [hEnq] at hInto
        cases hInto
        rfl
      | some r =>
        rw [hEnq] at hInto
        refine foldl_of_foldlM (p := Prod.fst) (fun s old t hLetter => ?_) hInto
        cases hDead : deadLetterMsg q old with
        | none =>
          rw [hDead] at hLetter
          cases hLetter
          rfl
        | some dm =>
          rw [hDead] at hLetter
          obtain ⟨r, hCall, rfl⟩ := Option.map_eq_some_iff.mp hLetter
          show _ = r.1
          exact ih hCall

theorem charge_le_routeBudget (b : Broker) (m : Msg) :
    b.charge b.queues.values.length + b.queues.values.length * m.charge b.queues.values.length ≤
      routeBudget b := by
  have hStored := b.charge_le b.queues.values.length
  have hCopies := Nat.mul_le_mul_left b.queues.values.length (m.charge_le b.queues.values.length)
  unfold routeBudget
  rw [Nat.add_mul]
  exact Nat.add_le_add hStored hCopies

theorem brokerRouteWithin_le {fuel' : Nat} (hLe : fuel ≤ fuel')
    {st : Broker × List Msg} (h : brokerRouteWithin fuel b vhost m = some st) :
    brokerRouteWithin fuel' b vhost m = some st := by
  induction hLe with
  | refl => exact h
  | step _ ih => exact brokerRouteWithin_mono ih

theorem route_paid (b : Broker) (vhost : Bytes) (m : Msg) : let n := b.queues.values.length
    ∃ made, brokerRouteWithin (b.charge n + n * m.charge n + 1) b vhost m =
        some (brokerRoute b vhost m, made) ∧
      ∀ dm ∈ made, dm.dlHops ≤ brokerDlMaxHops := by
  intro n
  obtain ⟨st, hCall, hPaid⟩ := within_of_charge (b.charge n + n * m.charge n + 1) n b vhost m rfl
    (Nat.lt_succ_self _)
  have hBudget := brokerRouteWithin_le (Nat.succ_le_succ (charge_le_routeBudget b m)) hCall
  have hEnd : brokerRoute b vhost m = st.1 := brokerRouteFuel_of_within hBudget
  refine ⟨st.2, ?_, hPaid.hops⟩
  rw [hEnd]
  exact hCall

/-- **Every routing returns**, with the broker `brokerRoute` gives, for any number of nested
calls above the budget; and every message that the cascade built made at most
`brokerDlMaxHops` hops. -/
theorem route_terminates (b : Broker) (vhost : Bytes) (m : Msg) :
    ∃ made, (∀ fuel, routeBudget b < fuel →
        brokerRouteWithin fuel b vhost m = some (brokerRoute b vhost m, made)) ∧
      ∀ dm ∈ made, dm.dlHops ≤ brokerDlMaxHops := by
  obtain ⟨made, hCall, hHops⟩ := route_paid b vhost m
  refine ⟨made, fun fuel hFuel => brokerRouteWithin_le ?_ hCall, hHops⟩
  exact (Nat.succ_le_succ (charge_le_routeBudget b m)).trans hFuel

/-! ## How deep the calls nest -/

/-- **The calls of `broker_route` nest at most one deeper than the charge**: what the stored
messages can still cause, and what the copies of the routed message can. Each message that a
nested call routes made at most `brokerDlMaxHops` hops; this limits the copies of one message and
not the depth, since every nested call may evict a message of its own. -/
theorem route_depth (b : Broker) (vhost : Bytes) (m : Msg) : let n := b.queues.values.length
    ∃ made, (∀ depth, b.charge n + n * m.charge n < depth →
        brokerRouteWithin depth b vhost m = some (brokerRoute b vhost m, made)) ∧
      ∀ dm ∈ made, dm.dlHops ≤ brokerDlMaxHops := by
  obtain ⟨made, hCall, hHops⟩ := route_paid b vhost m
  exact ⟨made, fun depth hDepth => brokerRouteWithin_le hDepth hCall, hHops⟩

/-- Full drop-head queues `a` to `j`, each of which dead-letters to the next. -/
def chain : Broker where
  queues := (range 10).foldl (fun qs i => qs.insert (vkey [] [97 + .ofNat i])
    { vhost := [], name := [97 + .ofNat i], flags := 0, gen := i, maxLength := 1
      overflow := .dropHead, dlExchange := [120], dlRoutingKey := [98 + .ofNat i]
      ready := [⟨[], [97 + .ofNat i], [], [], 0, 0⟩] }) ∅
  exchanges := (∅ : Table Bytes Exchange).insert (vkey [] [120])
    { vhost := [], name := [120], type := exchangeDirect, flags := 0
      bindings := (range 10).map fun i => ⟨[97 + .ofNat i], vkey [] [97 + .ofNat i]⟩ }

/-- A message for the first of them goes through more nested calls than a message may make
hops. -/
theorem route_depth_chain :
    brokerRouteWithin (brokerDlMaxHops + 1) chain [] ⟨[], [97], [], [], 0, 0⟩ = none := by
  decide +kernel

end BeaverMQ
