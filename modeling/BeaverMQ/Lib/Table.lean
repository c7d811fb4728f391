import Mathlib.Algebra.Ring.Nat
import Mathlib.Data.List.AList
import Mathlib.Algebra.BigOperators.Group.List.Basic

/-!
# Table — finite maps with per-key update and key filtering

A table is an association list with distinct keys (`AList` at a constant value
type). Three operations the library does not have are added: changing the value
of one present key or of all keys, and dropping every key a predicate rejects.
-/

/-- A finite map with distinct keys. -/
abbrev Table (α β : Type) := AList (fun _ : α => β)

namespace Table

open List

variable {α β : Type} [DecidableEq α] (t : Table α β)

def get (k : α) : Option β := t.lookup k

def modify (k : α) (f : β → β) : Table α β :=
  match t.get k with
  | some v => t.insert k (f v)
  | none => t

def filter (p : α → Bool) : Table α β :=
  ⟨t.entries.filter (fun e => p e.1), t.nodupKeys.sublist filter_sublist⟩

def mapVal (f : β → β) : Table α β :=
  ⟨t.entries.map (fun e => ⟨e.1, f e.2⟩), by
    have hKeys : (t.entries.map (fun e => (⟨e.1, f e.2⟩ : Sigma fun _ : α => β))).keys =
        t.entries.keys := by
      simp [List.keys, Function.comp_def]
    rw [List.NodupKeys, hKeys]
    exact t.nodupKeys⟩

def values : List β := t.entries.map (·.2)

@[simp] theorem get_empty (k : α) : get (∅ : Table α β) k = none := AList.lookup_empty k

theorem get_insert (k k' : α) (v : β) :
    get (t.insert k v) k' = if k' = k then some v else get t k' := by
  unfold get
  by_cases hKey : k' = k
  · subst hKey
    simp
  · rw [AList.lookup_insert_ne hKey, if_neg hKey]

theorem get_erase (k k' : α) : get (t.erase k) k' = if k' = k then none else get t k' := by
  unfold get
  by_cases hKey : k' = k
  · subst hKey
    simp
  · rw [AList.lookup_erase_ne hKey, if_neg hKey]

theorem get_insert_eq (k : α) (v : β) : get (t.insert k v) = Function.update (get t) k (some v) :=
  funext fun k' => by rw [get_insert, Function.update_apply]

theorem get_erase_eq (k : α) : get (t.erase k) = Function.update (get t) k none :=
  funext fun k' => by rw [get_erase, Function.update_apply]

theorem get_modify (k k' : α) (f : β → β) :
    get (t.modify k f) k' = if k' = k then (get t k).map f else get t k' := by
  unfold modify
  cases hGet : get t k with
  | some v => simp [get_insert]
  | none =>
    by_cases hKey : k' = k
    · subst hKey
      simp [hGet]
    · simp [hKey]

theorem get_filter (p : α → Bool) (k : α) : get (t.filter p) k = if p k then get t k else none := by
  apply Option.ext
  intro v
  have hMem : v ∈ get (t.filter p) k ↔ ⟨k, v⟩ ∈ t.entries ∧ p k = true := by
    unfold get
    rw [AList.mem_lookup_iff]
    simp [filter]
  have hOrig : v ∈ get t k ↔ (⟨k, v⟩ : Sigma fun _ : α => β) ∈ t.entries := by
    unfold get
    rw [AList.mem_lookup_iff]
  simp only [Option.mem_def] at hMem hOrig
  rw [hMem]
  by_cases hp : p k = true <;> simp [hp, hOrig]

theorem get_mapVal (f : β → β) (k : α) : get (t.mapVal f) k = (get t k).map f :=
  dlookup_map₂ (f := fun _ => f) k

theorem mem_values_of_get {t : Table α β} {k : α} {v : β} (hGet : get t k = some v) :
    v ∈ values t := by
  have hEntry : (⟨k, v⟩ : Sigma fun _ : α => β) ∈ t.entries := AList.mem_lookup_iff.mp hGet
  exact mem_map.mpr ⟨_, hEntry, rfl⟩

theorem mem_values_iff {t : Table α β} {v : β} : v ∈ values t ↔ ∃ k, get t k = some v := by
  refine ⟨fun hMem => ?_, fun ⟨_, hGet⟩ => mem_values_of_get hGet⟩
  obtain ⟨⟨k, _⟩, hEntry, rfl⟩ := mem_map.mp hMem
  exact ⟨k, AList.mem_lookup_iff.mpr hEntry⟩

/-! ## Sums over the values -/

theorem values_insert (k : α) (v : β) : values (t.insert k v) = v :: values (t.erase k) := rfl

/-- Taking a present key out of the table takes its value out of the list. -/
theorem values_perm {t : Table α β} {k : α} {v : β} (hGet : get t k = some v) :
    (values t).Perm (v :: values (t.erase k)) := by
  have hEntry : (⟨k, v⟩ : Sigma fun _ : α => β) ∈ t.entries := AList.mem_lookup_iff.mp hGet
  have hKey : k ∈ t.entries.keys := mem_keys_of_mem hEntry
  obtain ⟨w, front, back, -, hSplit, hErase⟩ := exists_of_kerase hKey
  have hSame : w = v := by
    have hThere : (⟨k, w⟩ : Sigma fun _ : α => β) ∈ t.entries := by
      rw [hSplit]
      exact mem_append_right _ mem_cons_self
    have hGet' : get t k = some w := AList.mem_lookup_iff.mpr hThere
    rw [hGet'] at hGet
    exact Option.some.inj hGet
  subst hSame
  have hLeft : values t = front.map (·.2) ++ w :: back.map (·.2) := by
    unfold values
    rw [hSplit, map_append, map_cons]
  have hRight : values (t.erase k) = front.map (·.2) ++ back.map (·.2) := by
    show (t.entries.kerase k).map (·.2) = _
    rw [hErase, map_append]
  rw [hLeft, hRight]
  exact perm_middle

theorem sum_values_modify {t : Table α β} {k : α} {v : β} (hGet : get t k = some v) (f : β → Nat)
    (g : β → β) : ((values (t.modify k g)).map f).sum + f v = ((values t).map f).sum + f (g v) := by
  have hNew : values (t.modify k g) = g v :: values (t.erase k) := by
    unfold modify
    rw [hGet]
    exact values_insert t k (g v)
  rw [hNew, ((values_perm hGet).map f).sum_eq, map_cons, map_cons, sum_cons,
    sum_cons]
  omega

theorem length_values_modify (k : α) (g : β → β) :
    (values (t.modify k g)).length = (values t).length := by
  rcases Option.eq_none_or_eq_some (get t k) with hGet | ⟨v, hGet⟩
  · unfold modify
    rw [hGet]
  have hNew : values (t.modify k g) = g v :: values (t.erase k) := by
    unfold modify
    rw [hGet]
    exact values_insert t k (g v)
  rw [hNew, (values_perm hGet).length_eq, length_cons, length_cons]

theorem length_filter_isSome_le {ks : List α} (hNodup : ks.Nodup) :
    (ks.filter fun k => (get t k).isSome).length ≤ (values t).length := by
  have hSub : (ks.filter fun k => (get t k).isSome) ⊆ t.entries.keys := by
    intro k hk
    obtain ⟨v, hGet⟩ := Option.isSome_iff_exists.mp (mem_filter.mp hk).2
    exact mem_keys_of_mem (AList.mem_lookup_iff.mp hGet)
  have hLen := (subperm_of_subset (hNodup.filter _) hSub).length_le
  rw [List.keys, length_map] at hLen
  rwa [values, length_map]

end Table
