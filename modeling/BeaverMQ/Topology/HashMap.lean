import BeaverMQ.Model.Objects
import Mathlib.Data.Finset.Card

/-!
# BeaverMQ — `hashmap.c` is a finite map

The functions of `hashmap.c` on the chained map, with what they return. A run of calls goes
along with a partial function from keys to values: a put that succeeds and a remove change it at
one key, everything else leaves it alone.
-/

namespace BeaverMQ.Objects

open Function

variable {hash : Bytes → Nat} {ν : Type}

/-! ## The functions -/

def hashmapNew : ChainMap hash ν := .empty hashmapInitialBuckets initialBuckets_pos

def hashmapGet (m : ChainMap hash ν) (key : Bytes) : Option ν := m.get key

/-- `hashmap_put`: the return code and `*old`. -/
def hashmapPut (m : ChainMap hash ν) (key : Bytes) (value : ν) (resizeOk entryOk : Bool) :
    ChainMap hash ν × Int × Option ν :=
  let r := m.put key value resizeOk entryOk
  (r.1, if r.2 then 0 else -1, (m.findEntry key).map fun e => e.value)

/-- `hashmap_remove`: the value of the entry that was unlinked. -/
def hashmapRemove (m : ChainMap hash ν) (key : Bytes) : ChainMap hash ν × Option ν :=
  (m.remove key, (m.findEntry key).map fun e => e.value)

/-- The walk of `hashmap_iter`: what is passed to the callback, until it returns non-zero. -/
def visited (fn : Bytes → ν → Bool) : List (ChainMap.Entry Bytes ν) → List (Bytes × ν)
  | [] => []
  | e :: es => (e.key, e.value) :: if fn e.key e.value then [] else visited fn es

def hashmapIter (m : ChainMap hash ν) (fn : Bytes → ν → Bool) : List (Bytes × ν) :=
  visited fn m.entries

/-- A call that changes the map, with the luck of its allocations. -/
inductive MapCall (ν : Type)
  | put (key : Bytes) (value : ν) (resizeOk entryOk : Bool)
  | remove (key : Bytes)

/-! ## The function behind the map -/

/-- The entries of `f`, counted and found by key. -/
structure Represents (m : ChainMap hash ν) (f : Bytes → Option ν) : Prop where
  get : ∀ key, m.get key = f key
  count : m.count = m.keys.length

def MapCall.run (a : ChainMap hash ν × (Bytes → Option ν)) :
    MapCall ν → ChainMap hash ν × (Bytes → Option ν)
  | .put key value resizeOk entryOk =>
    let r := hashmapPut a.1 key value resizeOk entryOk
    (r.1, if r.2.1 = 0 then update a.2 key (some value) else a.2)
  | .remove key => ((hashmapRemove a.1 key).1, update a.2 key none)

theorem count_put (m : ChainMap hash ν) (key : Bytes) (value : ν) (resizeOk entryOk : Bool) :
    (m.put key value resizeOk entryOk).1.count =
      if (m.put key value resizeOk entryOk).2 ∧ m.get key = none then m.count + 1 else m.count := by
  unfold ChainMap.put
  by_cases hNew : m.get key = none
  · simp only [dif_pos hNew]
    split_ifs <;> simp_all [ChainMap.push, ChainMap.resize]
  · simp [hNew, ChainMap.modify]

theorem represents_put {m : ChainMap hash ν} {f : Bytes → Option ν} (h : Represents m f)
    (key : Bytes) (value : ν) (resizeOk entryOk : Bool) :
    Represents (m.put key value resizeOk entryOk).1
      (if (m.put key value resizeOk entryOk).2 then update f key (some value) else f) := by
  have hCount := count_put m key value resizeOk entryOk
  cases hOk : (m.put key value resizeOk entryOk).2 with
  | true =>
    refine ⟨fun key' => ?_, ?_⟩
    · rw [ChainMap.get_put_of_ok hOk, if_pos rfl, update_apply, h.get]
    · rw [hCount, hOk, ChainMap.length_keys_put_of_ok hOk, h.count]
      simp
  | false =>
    refine ⟨fun key' => ?_, ?_⟩
    · rw [ChainMap.get_put_of_fail hOk, h.get]
      rfl
    · rw [hCount, hOk, ChainMap.length_keys_put_of_fail hOk, h.count]
      simp

theorem represents_remove {m : ChainMap hash ν} {f : Bytes → Option ν} (h : Represents m f)
    (key : Bytes) : Represents (m.remove key) (update f key none) where
  get key' := by rw [ChainMap.get_remove, update_apply, h.get]
  count := by
    rw [ChainMap.length_keys_remove, ← h.count, ChainMap.get, Option.isSome_map]
    rfl

/-- **After every sequence of calls the map represents the function.** -/
theorem represents_run (calls : List (MapCall ν)) {a : ChainMap hash ν × (Bytes → Option ν)}
    (h : Represents a.1 a.2) :
    Represents (calls.foldl MapCall.run a).1 (calls.foldl MapCall.run a).2 := by
  induction calls generalizing a with
  | nil => exact h
  | cons call calls ih =>
    refine ih ?_
    cases call with
    | put key value resizeOk entryOk =>
      have hPut := represents_put h key value resizeOk entryOk
      unfold MapCall.run hashmapPut
      cases hOk : (a.1.put key value resizeOk entryOk).2 <;> simpa [hOk] using hPut
    | remove key => exact represents_remove h key

theorem visited_all (es : List (ChainMap.Entry Bytes ν)) :
    visited (fun _ _ => false) es = es.map fun e => (e.key, e.value) := by
  induction es with
  | nil => rfl
  | cons e es ih => simp [visited, ih]

end BeaverMQ.Objects
