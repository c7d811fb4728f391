import Mathlib.Data.List.FinRange

/-!
# A chained hash map

An array of buckets, each a chain of entries that carry the hash of their key. The map grows
when it gets too full, and its entries are then spread over the new buckets. It is part of the
type that an entry stands in the bucket of its hash, and that no key has two entries.

The hash function is arbitrary. `get` is what a map means to its user; the lemmas say what
each operation does to it, and that the walk over the chains meets every key.
-/

namespace ChainMap

structure Entry (κ ν : Type) where
  key : κ
  value : ν
  hash : Nat

end ChainMap

/-- A map from `κ` to `ν` under a hash function. -/
structure ChainMap {κ : Type} (hash : κ → Nat) (ν : Type) where
  size : Nat
  pos : 0 < size
  buckets : Fin size → List (ChainMap.Entry κ ν)
  count : Nat
  hashed : ∀ i, ∀ e ∈ buckets i, e.hash = hash e.key
  placed : ∀ i, ∀ e ∈ buckets i, e.hash % size = i
  nodup : ∀ i, ((buckets i).map (·.key)).Nodup

namespace ChainMap

open List

variable {κ ν : Type} {hash : κ → Nat} {k : κ} {v : ν} {e : Entry κ ν} (m : ChainMap hash ν)

/-! ## Looking up -/

def slotOf (n : Nat) (hn : 0 < n) (h : Nat) : Fin n := ⟨h % n, Nat.mod_lt h hn⟩

def slot (h : Nat) : Fin m.size := slotOf m.size m.pos h

theorem slot_of_mem {m : ChainMap hash ν} {i : Fin m.size} (hMem : e ∈ m.buckets i) :
    m.slot (hash e.key) = i := by
  have hPlaced := m.placed i e hMem
  rw [m.hashed i e hMem] at hPlaced
  exact Fin.ext hPlaced

theorem eq_of_key {m : ChainMap hash ν} {i : Fin m.size} {e' : Entry κ ν}
    (hMem : e ∈ m.buckets i) (hMem' : e' ∈ m.buckets i) (hKey : e.key = e'.key) : e = e' :=
  inj_on_of_nodup_map (m.nodup i) hMem hMem' hKey

def entries : List (Entry κ ν) := (finRange m.size).flatMap m.buckets

def keys : List κ := m.entries.map (·.key)

theorem mem_entries {m : ChainMap hash ν} : e ∈ m.entries ↔ ∃ i, e ∈ m.buckets i := by
  simp [entries]

theorem nodup_keys : m.keys.Nodup := by
  unfold keys entries
  rw [map_flatMap, nodup_flatMap]
  refine ⟨fun i _ => m.nodup i, (nodup_finRange m.size).imp fun {i j} hNe => ?_⟩
  -- one key in two buckets would have two hashes
  intro k hi hj
  obtain ⟨e, he, rfl⟩ := mem_map.mp hi
  obtain ⟨e', he', hKey⟩ := mem_map.mp hj
  refine hNe ?_
  rw [← slot_of_mem he, ← slot_of_mem he', hKey]

variable [DecidableEq κ]

/-- The test on the entries of a chain: the hash first, then the key. -/
def isKey (hash : κ → Nat) (k : κ) (e : Entry κ ν) : Bool := e.hash = hash k && e.key = k

def findEntry (k : κ) : Option (Entry κ ν) :=
  (m.buckets (m.slot (hash k))).find? (isKey hash k)

def get (k : κ) : Option ν := (m.findEntry k).map (·.value)

theorem isKey_iff {m : ChainMap hash ν} {i : Fin m.size} (hMem : e ∈ m.buckets i) :
    isKey hash k e = true ↔ e.key = k := by
  simp only [isKey, m.hashed i e hMem, Bool.and_eq_true, decide_eq_true_eq, and_iff_right_iff_imp]
  exact congrArg hash

theorem findEntry_eq_some {m : ChainMap hash ν} :
    m.findEntry k = some e ↔ e ∈ m.buckets (m.slot (hash k)) ∧ e.key = k := by
  unfold findEntry
  constructor
  · intro hFind
    have hMem := mem_of_find?_eq_some hFind
    exact ⟨hMem, (isKey_iff hMem).mp (find?_some hFind)⟩
  · rintro ⟨hMem, hKey⟩
    obtain ⟨e', hFind⟩ := Option.isSome_iff_exists.mp
      (find?_isSome.mpr ⟨e, hMem, (isKey_iff hMem).mpr hKey⟩)
    have hMem' := mem_of_find?_eq_some hFind
    have hKey' := (isKey_iff hMem').mp (find?_some hFind)
    rw [hFind, eq_of_key hMem' hMem (hKey'.trans hKey.symm)]

/-- What a map means: the value of a key is that of its entry. -/
theorem get_eq_some {m : ChainMap hash ν} :
    m.get k = some v ↔ ∃ e, e ∈ m.buckets (m.slot (hash k)) ∧ e.key = k ∧ e.value = v := by
  simp only [get, Option.map_eq_some_iff, findEntry_eq_some, and_assoc]

theorem get_eq_none {m : ChainMap hash ν} :
    m.get k = none ↔ ∀ e ∈ m.buckets (m.slot (hash k)), e.key ≠ k := by
  simp only [Option.eq_none_iff_forall_ne_some, ne_eq, get_eq_some, not_exists, not_and]
  exact ⟨fun h e hMem hKey => h e.value e hMem hKey rfl, fun h v e hMem hKey _ => h e hMem hKey⟩

theorem mem_keys {m : ChainMap hash ν} : k ∈ m.keys ↔ ∃ v, m.get k = some v := by
  constructor
  · intro hMem
    obtain ⟨e, he, rfl⟩ := mem_map.mp hMem
    obtain ⟨i, hi⟩ := mem_entries.mp he
    exact ⟨e.value, get_eq_some.mpr ⟨e, slot_of_mem hi ▸ hi, rfl, rfl⟩⟩
  · rintro ⟨v, hGet⟩
    obtain ⟨e, hMem, rfl, -⟩ := get_eq_some.mp hGet
    exact mem_map.mpr ⟨e, mem_entries.mpr ⟨_, hMem⟩, rfl⟩

/-! ## Changing -/

def empty (n : Nat) (hn : 0 < n) : ChainMap hash ν where
  size := n
  pos := hn
  buckets _ := []
  count := 0
  hashed _ _ hMem := nomatch hMem
  placed _ _ hMem := nomatch hMem
  nodup _ := nodup_nil

def modify (k : κ) (f : ν → ν) : ChainMap hash ν where
  size := m.size
  pos := m.pos
  buckets i := (m.buckets i).map fun e => if isKey hash k e then { e with value := f e.value } else e
  count := m.count
  hashed i e hMem := by
    obtain ⟨e₀, hMem₀, rfl⟩ := mem_map.mp hMem
    split <;> exact m.hashed i e₀ hMem₀
  placed i e hMem := by
    obtain ⟨e₀, hMem₀, rfl⟩ := mem_map.mp hMem
    split <;> exact m.placed i e₀ hMem₀
  nodup i := by
    rw [map_map]
    have hKeys : (fun e : Entry κ ν => e.key) ∘
        (fun e => if isKey hash k e then { e with value := f e.value } else e) = (·.key) := by
      funext e
      simp only [Function.comp_apply]
      split <;> rfl
    rw [hKeys]
    exact m.nodup i

theorem get_modify (k k' : κ) (f : ν → ν) :
    (m.modify k f).get k' = if k' = k then (m.get k).map f else m.get k' := by
  refine Option.ext fun v => ?_
  have hIs : ∀ e ∈ m.buckets (m.slot (hash k')), isKey hash k e = true ↔ e.key = k :=
    fun e hMem => isKey_iff hMem
  rw [get_eq_some]
  change (∃ e, e ∈ (m.buckets (m.slot (hash k'))).map _ ∧ _) ↔ _
  simp only [mem_map]
  by_cases hKey : k' = k
  · subst hKey
    rw [if_pos rfl, Option.map_eq_some_iff]
    simp only [get_eq_some]
    constructor
    · rintro ⟨-, ⟨e, hMem, rfl⟩, hEq, rfl⟩
      by_cases hTest : isKey hash k' e = true
      · exact ⟨_, ⟨e, hMem, (hIs e hMem).mp hTest, rfl⟩, by rw [if_pos hTest]⟩
      · rw [if_neg hTest] at hEq
        exact absurd ((hIs e hMem).mpr hEq) hTest
    · rintro ⟨v₀, ⟨e, hMem, hEq, rfl⟩, rfl⟩
      refine ⟨_, ⟨e, hMem, rfl⟩, ?_⟩
      rw [if_pos ((hIs e hMem).mpr hEq)]
      exact ⟨hEq, rfl⟩
  · rw [if_neg hKey, get_eq_some]
    constructor
    · rintro ⟨-, ⟨e, hMem, rfl⟩, hEq, rfl⟩
      by_cases hTest : isKey hash k e = true
      · rw [if_pos hTest] at hEq
        exact absurd (hEq.symm.trans ((hIs e hMem).mp hTest)) hKey
      · rw [if_neg hTest] at hEq ⊢
        exact ⟨e, hMem, hEq, rfl⟩
    · rintro ⟨e, hMem, hEq, rfl⟩
      have hTest : ¬ isKey hash k e = true := fun h =>
        hKey (hEq.symm.trans ((hIs e hMem).mp h))
      exact ⟨e, ⟨e, hMem, if_neg hTest⟩, hEq, rfl⟩

def push (k : κ) (v : ν) (hNew : m.get k = none) : ChainMap hash ν where
  size := m.size
  pos := m.pos
  buckets i := if m.slot (hash k) = i then ⟨k, v, hash k⟩ :: m.buckets i else m.buckets i
  count := m.count + 1
  hashed i e hMem := by
    split at hMem
    · rcases mem_cons.mp hMem with rfl | hOld
      · rfl
      · exact m.hashed i e hOld
    · exact m.hashed i e hMem
  placed i e hMem := by
    split at hMem
    · rename_i hSlot
      rcases mem_cons.mp hMem with rfl | hOld
      · exact congrArg Fin.val hSlot
      · exact m.placed i e hOld
    · exact m.placed i e hMem
  nodup i := by
    split
    · rename_i hSlot
      rw [map_cons, nodup_cons]
      refine ⟨fun hMem => ?_, m.nodup i⟩
      obtain ⟨e, he, hKey⟩ := mem_map.mp hMem
      exact get_eq_none.mp hNew e (hSlot ▸ he) hKey
    · exact m.nodup i

theorem get_push (k k' : κ) (v : ν) (hNew : m.get k = none) :
    (m.push k v hNew).get k' = if k' = k then some v else m.get k' := by
  refine Option.ext fun w => ?_
  rw [get_eq_some]
  change (∃ e, e ∈ (if m.slot (hash k) = m.slot (hash k') then _ else _) ∧ _) ↔ _
  by_cases hKey : k' = k
  · subst hKey
    rw [if_pos rfl, if_pos rfl, Option.some.injEq]
    constructor
    · rintro ⟨e, hMem, hEq, rfl⟩
      rcases mem_cons.mp hMem with rfl | hOld
      · rfl
      · exact absurd hEq (get_eq_none.mp hNew e hOld)
    · rintro rfl
      exact ⟨_, mem_cons_self, rfl, rfl⟩
  · rw [if_neg hKey, get_eq_some]
    refine exists_congr fun e => and_congr_left fun ⟨hEq, _⟩ => ?_
    split
    · rw [mem_cons]
      refine or_iff_right fun hHead => hKey ?_
      rw [← hEq, hHead]
    · rfl

/-- Entries put in front of the chains of `n` buckets, one after the other. -/
def spread (n : Nat) (hn : 0 < n) (es : List (Entry κ ν)) : Fin n → List (Entry κ ν) :=
  es.foldl (fun nb e => Function.update nb (slotOf n hn e.hash) (e :: nb (slotOf n hn e.hash)))
    fun _ => []

omit [DecidableEq κ] in
theorem spread_eq (n : Nat) (hn : 0 < n) (es : List (Entry κ ν)) (i : Fin n) :
    spread n hn es i = (es.filter fun e => slotOf n hn e.hash = i).reverse := by
  have hAll : ∀ nb : Fin n → List (Entry κ ν),
      es.foldl (fun nb e => Function.update nb (slotOf n hn e.hash) (e :: nb (slotOf n hn e.hash)))
        nb i = (es.filter fun e => slotOf n hn e.hash = i).reverse ++ nb i := by
    induction es with
    | nil => intro nb; rfl
    | cons e es ih =>
      intro nb
      rw [foldl_cons, ih, filter_cons]
      by_cases hSlot : slotOf n hn e.hash = i
      · subst hSlot
        simp
      · rw [Function.update_of_ne (Ne.symm hSlot)]
        simp [hSlot]
  rw [spread, hAll, append_nil]

def resize (n : Nat) (hn : 0 < n) : ChainMap hash ν where
  size := n
  pos := hn
  buckets := spread n hn m.entries
  count := m.count
  hashed i e hMem := by
    rw [spread_eq, mem_reverse, mem_filter] at hMem
    obtain ⟨j, hOld⟩ := mem_entries.mp hMem.1
    exact m.hashed j e hOld
  placed i e hMem := by
    rw [spread_eq, mem_reverse, mem_filter, decide_eq_true_eq] at hMem
    exact congrArg Fin.val hMem.2
  nodup i := by
    rw [spread_eq, map_reverse, nodup_reverse]
    exact m.nodup_keys.sublist (filter_sublist.map _)

@[simp] theorem get_resize (n : Nat) (hn : 0 < n) : (m.resize n hn).get k = m.get k := by
  refine Option.ext fun v => ?_
  rw [get_eq_some, get_eq_some]
  refine exists_congr fun e => and_congr_left fun ⟨hEq, _⟩ => ?_
  change e ∈ spread n hn m.entries (slotOf n hn (hash k)) ↔ _
  rw [spread_eq, mem_reverse, mem_filter, mem_entries, decide_eq_true_eq]
  constructor
  · rintro ⟨⟨i, hMem⟩, -⟩
    rw [← hEq, slot_of_mem hMem]
    exact hMem
  · intro hMem
    refine ⟨⟨_, hMem⟩, ?_⟩
    rw [m.hashed _ e hMem, hEq]

/-- Set the value of a key. A new key may make the map grow first; `resizeOk` and `entryOk`
say whether there is memory for the buckets and for the entry. The flag is false when there
was not. -/
def put (k : κ) (v : ν) (resizeOk entryOk : Bool) : ChainMap hash ν × Bool :=
  if hNew : m.get k = none then
    -- a load of more than 3/4
    if 3 * m.size < 4 * (m.count + 1) then
      if resizeOk then
        let m' := m.resize (m.size * 2) (Nat.mul_pos m.pos Nat.two_pos)
        if entryOk then (m'.push k v ((get_resize _ _ _).trans hNew), true) else (m', false)
      else (m, false)
    else if entryOk then (m.push k v hNew, true) else (m, false)
  else (m.modify k fun _ => v, true)

variable {resizeOk entryOk : Bool}

theorem get_put_of_ok {m : ChainMap hash ν} (hOk : (m.put k v resizeOk entryOk).2 = true) (k' : κ) :
    (m.put k v resizeOk entryOk).1.get k' = if k' = k then some v else m.get k' := by
  unfold put at hOk ⊢
  by_cases hNew : m.get k = none
  · simp only [dif_pos hNew] at hOk ⊢
    split_ifs at hOk ⊢ <;> simp_all [get_push]
  obtain ⟨w, hGet⟩ := Option.ne_none_iff_exists'.mp hNew
  rw [dif_neg hNew, get_modify, hGet]
  rfl

/-- A `put` that fails leaves every value, though it may have grown the map. -/
theorem get_put_of_fail {m : ChainMap hash ν}
    (hFail : (m.put k v resizeOk entryOk).2 = false) (k' : κ) :
    (m.put k v resizeOk entryOk).1.get k' = m.get k' := by
  unfold put at hFail ⊢
  by_cases hNew : m.get k = none
  · simp only [dif_pos hNew] at hFail ⊢
    split_ifs at hFail ⊢ <;> simp_all
  · rw [dif_neg hNew] at hFail
    cases hFail

def remove (k : κ) : ChainMap hash ν where
  size := m.size
  pos := m.pos
  buckets i := if m.slot (hash k) = i then (m.buckets i).eraseP (isKey hash k) else m.buckets i
  count := if (m.findEntry k).isSome then m.count - 1 else m.count
  hashed i e hMem := by
    split at hMem
    · exact m.hashed i e (mem_of_mem_eraseP hMem)
    · exact m.hashed i e hMem
  placed i e hMem := by
    split at hMem
    · exact m.placed i e (mem_of_mem_eraseP hMem)
    · exact m.placed i e hMem
  nodup i := by
    split
    · exact (m.nodup i).sublist ((eraseP_sublist).map _)
    · exact m.nodup i

theorem get_remove (k k' : κ) : (m.remove k).get k' = if k' = k then none else m.get k' := by
  refine Option.ext fun w => ?_
  rw [get_eq_some]
  change (∃ e, e ∈ (if m.slot (hash k) = m.slot (hash k') then
    (m.buckets (m.slot (hash k'))).eraseP (isKey hash k) else _) ∧ _) ↔ _
  by_cases hKey : k' = k
  · subst hKey
    rw [if_pos rfl, if_pos rfl]
    refine ⟨fun ⟨e, hMem, hEq, _⟩ => ?_, nofun⟩
    have hOld := mem_of_mem_eraseP hMem
    obtain ⟨a, l₁, l₂, hFront, ha, hSplit, hErase⟩ :=
      exists_of_eraseP hOld ((isKey_iff hOld).mpr hEq)
    have haMem : a ∈ m.buckets (m.slot (hash k')) := by rw [hSplit]; simp
    have haKey : a.key = k' := (isKey_iff haMem).mp ha
    -- the first entry with the key is gone, and there is no second
    rw [hErase, mem_append] at hMem
    rcases hMem with hLeft | hRight
    · exact absurd ((isKey_iff hOld).mpr hEq) (hFront e hLeft)
    have hNodup := m.nodup (m.slot (hash k'))
    rw [hSplit, map_append, map_cons, nodup_append, nodup_cons] at hNodup
    exact absurd (mem_map.mpr ⟨e, hRight, hEq.trans haKey.symm⟩) hNodup.2.1.1
  · rw [if_neg hKey, get_eq_some]
    refine exists_congr fun e => and_congr_left fun ⟨hEq, _⟩ => ?_
    split
    · have hBut (hMem : e ∈ m.buckets (m.slot (hash k'))) : ¬ isKey hash k e = true := fun h =>
        hKey (hEq.symm.trans ((isKey_iff hMem).mp h))
      refine ⟨mem_of_mem_eraseP, fun hMem => ?_⟩
      exact (mem_eraseP_of_neg (hBut hMem)).mpr hMem
    · rfl

/-! ## How many keys -/

/-- The walk over a map and the walk over a list of its keys meet the same keys, once each. -/
theorem perm_keys {m : ChainMap hash ν} {ks : List κ} (hNodup : ks.Nodup)
    (hMem : ∀ k, k ∈ ks ↔ ∃ v, m.get k = some v) : m.keys.Perm ks := by
  rw [perm_ext_iff_of_nodup m.nodup_keys hNodup]
  exact fun k => mem_keys.trans (hMem k).symm

theorem length_keys_put_of_ok {m : ChainMap hash ν}
    (hOk : (m.put k v resizeOk entryOk).2 = true) : (m.put k v resizeOk entryOk).1.keys.length =
      if m.get k = none then m.keys.length + 1 else m.keys.length := by
  have hGet := get_put_of_ok hOk
  split
  · rename_i hNew
    have hNodup : (k :: m.keys).Nodup := by
      refine nodup_cons.mpr ⟨?_, m.nodup_keys⟩
      rw [mem_keys, hNew]
      exact nofun
    refine (perm_keys hNodup fun k' => ?_).length_eq
    rw [hGet, mem_cons, mem_keys]
    by_cases hKey : k' = k <;> simp [hKey]
  · rename_i hOld
    refine (perm_keys m.nodup_keys fun k' => ?_).length_eq
    rw [hGet, mem_keys]
    by_cases hKey : k' = k
    · simpa [hKey] using Option.ne_none_iff_exists'.mp hOld
    · simp [hKey]

theorem length_keys_put_of_fail {m : ChainMap hash ν}
    (hFail : (m.put k v resizeOk entryOk).2 = false) :
    (m.put k v resizeOk entryOk).1.keys.length = m.keys.length := by
  refine (perm_keys m.nodup_keys fun k' => ?_).length_eq
  rw [get_put_of_fail hFail, mem_keys]

theorem length_keys_remove (k : κ) : (m.remove k).keys.length =
    if (m.get k).isSome then m.keys.length - 1 else m.keys.length := by
  have hPerm : (m.remove k).keys.Perm (m.keys.erase k) := by
    refine perm_keys (m.nodup_keys.erase k) fun k' => ?_
    rw [get_remove, m.nodup_keys.mem_erase_iff, mem_keys]
    by_cases hKey : k' = k <;> simp [hKey]
  rw [hPerm.length_eq, length_erase]
  by_cases hSome : (m.get k).isSome = true
  · rw [if_pos hSome, if_pos (mem_keys.mpr (Option.isSome_iff_exists.mp hSome))]
  · rw [if_neg hSome, if_neg fun hMem => hSome (Option.isSome_iff_exists.mpr (mem_keys.mp hMem))]

end ChainMap
