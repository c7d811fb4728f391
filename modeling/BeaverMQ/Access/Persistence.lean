import BeaverMQ.Access.Bootstrap
import BeaverMQ.Model.Server

/-!
# BeaverMQ — the file of the access-control store says what the store says

The loader has no code to fill a store: it takes the rows of the file through the mutators, which
overwrite a row with the key of one that is there. A store that was made by the mutators has each
key once, so that the loader finds every row new and appends it.
-/

namespace BeaverMQ.AuthDb

open List

/-! ## Keys -/

/-- Each key has one row, a user sets the flag, and there is a path. -/
structure Store.Distinct (s : Store) : Prop where
  vhosts : s.vhosts.Nodup
  users : (s.users.map UserRow.name).Nodup
  perms : (s.perms.map fun p => (p.user, p.vhost)).Nodup
  flag : s.users ≠ [] → s.bootstrapCompleted = true
  path : s.persistPath = true

section Rows

variable {α κ : Type} {rows : List α} (key : α → κ) {same : α → Bool} {row : α}

theorem nodup_swapRemove {i : Nat} (hFind : rows.findIdx? same = some i)
    (h : (rows.map key).Nodup) : ((rows.swapRemove i).map key).Nodup := by
  obtain ⟨hLt, -⟩ := findIdx?_eq_some_iff_getElem.mp hFind
  have hPerm := (perm_swapRemove (getElem?_eq_getElem hLt)).map key
  exact (nodup_cons.mp (hPerm.nodup_iff.mp h)).2

theorem nodup_swapFilter (h : (rows.map key).Nodup) : ((rows.swapFilter same).map key).Nodup :=
  ((perm_swapFilter same rows).map key).nodup_iff.mpr
    (h.sublist ((filter_sublist (l := rows)).map key))

theorem putRow_new (hSame : ∀ x, same x = true ↔ key x = key row) (hNew : key row ∉ rows.map key) :
    putRow rows same row = rows ++ [row] := by
  have hNone : rows.findIdx? same = none := by
    refine findIdx?_eq_none_iff.mpr fun x hx => ?_
    exact Bool.eq_false_iff.mpr fun hIs => hNew (mem_map.mpr ⟨x, hx, (hSame x).mp hIs⟩)
  rw [putRow, hNone]

theorem nodup_putRow (hSame : ∀ x, same x = true ↔ key x = key row) (h : (rows.map key).Nodup) :
    ((putRow rows same row).map key).Nodup := by
  by_cases hNew : key row ∈ rows.map key
  · cases hFind : rows.findIdx? same with
    | none =>
      obtain ⟨x, hx, hKey⟩ := mem_map.mp hNew
      have hNot := findIdx?_eq_none_iff.mp hFind x hx
      rw [(hSame x).mpr hKey] at hNot
      cases hNot
    | some i =>
      obtain ⟨hLt, hIs, -⟩ := findIdx?_eq_some_iff_getElem.mp hFind
      have hOld : (rows.map key).set i (key row) = rows.map key := by
        rw [← (hSame _).mp hIs, ← getElem_map key (h := by simpa using hLt),
          set_getElem_self]
      simp only [putRow, hFind, map_set, hOld, h]
  · rw [putRow_new key hSame hNew, map_append]
    exact concat_eq_append ▸ h.concat hNew

end Rows

variable {s : Store}

theorem distinct_run (m : Mutation) (h : s.Distinct) : (m.run s).1.Distinct := by
  cases m with
  | addVhost v =>
    simp only [Mutation.run, authstoreAddVhost]
    split
    · exact h
    split
    · exact h
    · rename_i hNew
      exact { h with vhosts := concat_eq_append ▸ h.vhosts.concat hNew }
  | delVhost v =>
    simp only [Mutation.run, authstoreDelVhost]
    split
    · exact h
    rename_i i hFind
    have hRest := nodup_swapRemove id hFind (by rw [map_id]; exact h.vhosts)
    rw [map_id] at hRest
    exact { h with vhosts := hRest, perms := nodup_swapFilter _ h.perms }
  | addUser u hash tags =>
    simp only [Mutation.run, authstoreAddUser]
    split
    · exact { h with users := nodup_putRow _ (by simp) h.users, flag := fun _ => rfl }
    · exact h
  | delUser u =>
    simp only [Mutation.run, authstoreDelUser]
    split
    · exact h
    rename_i i hFind
    refine { h with users := nodup_swapRemove _ hFind h.users, perms := nodup_swapFilter _ h.perms
                    flag := fun _ => h.flag ?_ }
    rintro hNil
    simp [hNil] at hFind
  | setPerm u v c w r =>
    simp only [Mutation.run, authstoreSetPerm]
    split
    · exact { h with perms := nodup_putRow _ (by simp) h.perms }
    · exact h
  | clearPerm u v =>
    simp only [Mutation.run, authstoreClearPerm]
    split
    · exact h
    · rename_i i hFind
      exact { h with perms := nodup_swapRemove _ hFind h.perms }

theorem run_unsaved {m : Mutation} (hUnsaved : (m.run s).2 ≠ true) : (m.run s).1 = s := by
  revert hUnsaved
  cases m <;> simp only [Mutation.run, authstoreAddVhost, authstoreDelVhost, authstoreAddUser,
    authstoreDelUser, authstoreSetPerm, authstoreClearPerm] <;> repeat' split
  all_goals simp

/-! ## Reloading -/

theorem fit_str {cap : Nat} (v : Str cap) : fit cap v.bytes = some v := dif_pos ⟨v.short, v.noNul⟩

section Rows

variable {α κ : Type} [DecidableEq κ] (key : α → κ)

def put (rows : List α) (row : α) : List α := putRow rows (fun x => decide (key x = key row)) row

variable {key}

theorem put_cons (x row : α) (rows : List α) :
    put key (x :: rows) row = if key x = key row then row :: rows else x :: put key rows row := by
  unfold put putRow
  rw [findIdx?_cons]
  by_cases hSame : key x = key row
  · simp [hSame]
  · simp only [hSame, decide_false, Bool.false_eq_true, if_false]
    cases rows.findIdx? fun x => decide (key x = key row) <;> rfl

theorem foldl_put_new {rows new : List α} (h : ((rows ++ new).map key).Nodup) :
    new.foldl (put key) rows = rows ++ new := by
  induction new generalizing rows with
  | nil => simp
  | cons r new ih =>
    have hNew : key r ∉ rows.map key := by
      intro hOld
      rw [map_append] at h
      exact (nodup_append.mp h).2.2 _ hOld _ (mem_map_of_mem mem_cons_self) rfl
    rw [foldl_cons, put, putRow_new key (by simp) hNew, ih (by simpa using h)]
    simp

end Rows

theorem loadVhost_eq (s : Store) (v : Str authstoreNameMax) :
    loadVhost s v = { s with vhosts := put id s.vhosts v } := by
  have hPut : put id s.vhosts v = if v ∈ s.vhosts then s.vhosts else s.vhosts ++ [v] := by
    induction s.vhosts with
    | nil => rfl
    | cons w vs ih =>
      rw [put_cons, ih]
      by_cases hw : w = v
      · simp [hw]
      · have hv : ¬ v = w := fun h => hw h.symm
        by_cases hIn : v ∈ vs <;> simp [hw, hv, hIn]
  simp only [loadVhost, authstoreAddVhost, fit_str, hPut]
  split <;> rfl

theorem loadUser_eq (s : Store) (u : UserRow) : loadUser s u =
    { s with users := put UserRow.name s.users u, bootstrapCompleted := true } := by
  simp only [loadUser, authstoreAddUser, fit_str, put]

theorem loadPerm_eq (s : Store) (p : PermRow) : loadPerm s p =
    { s with perms := put (fun p => (p.user, p.vhost)) s.perms p } := by
  simp only [loadPerm, authstoreSetPerm, fit_str, put, Prod.mk.injEq]

theorem foldl_load (vs : List (Str authstoreNameMax)) (us : List UserRow) (ps : List PermRow)
    (s : Store) : ps.foldl loadPerm (us.foldl loadUser (vs.foldl loadVhost s)) =
      { s with
        vhosts := vs.foldl (put id) s.vhosts
        users := us.foldl (put UserRow.name) s.users
        perms := ps.foldl (put fun p => (p.user, p.vhost)) s.perms
        bootstrapCompleted := s.bootstrapCompleted || !us.isEmpty } := by
  induction vs generalizing s with
  | cons v vs ih => rw [foldl_cons, foldl_cons, ih, loadVhost_eq]
  | nil =>
    induction us generalizing s with
    | cons u us ih =>
      simp only [foldl_nil] at ih ⊢
      rw [foldl_cons, foldl_cons, ih, loadUser_eq]
      simp
    | nil =>
      induction ps generalizing s with
      | cons p ps ih =>
        simp only [foldl_nil] at ih ⊢
        rw [foldl_cons, foldl_cons, ih, loadPerm_eq]
      | nil => simp

/-- No row count of the file wraps. -/
def Store.Small (s : Store) : Prop :=
  s.vhosts.length < 2 ^ 32 ∧ s.users.length < 2 ^ 32 ∧ s.perms.length < 2 ^ 32

instance (s : Store) : Decidable s.Small :=
  inferInstanceAs (Decidable (_ ∧ _ ∧ _))

theorem reloaded_eq (h : s.Distinct) (hSmall : s.Small) :
    reloaded s = { s with bootstrapCompleted := !s.users.isEmpty, persistPath := false } := by
  rw [reloaded, Nat.mod_eq_of_lt hSmall.2.2, take_length, foldl_load, foldl_put_new (by simpa using h.vhosts),
    foldl_put_new (by simpa using h.users), foldl_put_new (by simpa using h.perms)]
  simp

/-- The file has the rows of the store, or there was nothing to save yet. -/
def Saved (file : Option Bytes) (s : Store) : Prop :=
  file = some (dbImage s) ∨ file = none ∧ s = { persistPath := true }

theorem boot_saved {d : Disk} (h : s.Distinct) (hSmall : s.Small) (hSaved : Saved d.file s) :
    boot d = s := by
  rcases hSaved with hFile | ⟨hFile, rfl⟩
  · rw [boot_of_load hFile (load_dbImage ⟨hSmall.1, hSmall.2.1⟩), reloaded_eq h hSmall]
    have hFlag : (!s.users.isEmpty || s.bootstrapCompleted) = s.bootstrapCompleted := by
      cases hUsers : s.users.isEmpty with
      | true => rfl
      | false => rw [h.flag (by simpa using hUsers)]; rfl
    have hPath := h.path
    cases s
    simp_all
  · rw [boot, hFile]
    rfl

/-! ## Permissions -/

/-- `compiled`: each pattern that is not empty compiles. -/
def PermRow.compiled (regcomp : Bytes → Bool) (p : PermRow) : Bool :=
  [p.conf, p.wr, p.rd].all fun pat => pat.bytes = [] || regcomp pat.bytes

def authstoreCheck (regcomp : Bytes → Bool) (regexec : Bytes → Bytes → Bool) (s : Store)
    (user vhost : Bytes) (kind : Amqp.AuthKind) (object : Bytes) : Bool :=
  (s.perms.find? fun p => decide (p.user.bytes = user ∧ p.vhost.bytes = vhost)).any fun p =>
    let pat := match kind with
      | .configure => p.conf.bytes
      | .write => p.wr.bytes
      | .read => p.rd.bytes
    p.compiled regcomp && pat ≠ [] && regexec pat object

/-! ## Every run -/

/-- The condition on a step: the store it saves has room for its row counts. -/
abbrev Roomy : State → Event → Prop := Saves Store.Small

theorem saved_step {a b : State} {e : Event} (hStep : step a e = some b) (hRoom : Roomy a e)
    (h : a.store.Distinct ∧ a.store.Small ∧ Saved a.disk.file a.store) :
    b.store.Distinct ∧ b.store.Small ∧ Saved b.disk.file b.store := by
  obtain ⟨hDistinct, hSmall, hSaved⟩ := h
  -- a start finds the store whose rows the file has
  have hBoot : ∀ {d : Disk} {s : Store}, s.Distinct → s.Small → Saved d.file s →
      (boot d).Distinct ∧ (boot d).Small ∧ Saved d.file (boot d) := by
    intro d s h₁ h₂ h₃
    rw [boot_saved h₁ h₂ h₃]
    exact ⟨h₁, h₂, h₃⟩
  have hPath : ∀ m : Mutation, (m.run a.store).1.persistPath = true :=
    fun m => (run_keeps m a.store).1.trans hDistinct.path
  cases e with
  | mutate m =>
    rw [step_mutate] at hStep
    cases hStep
    refine ⟨distinct_run m hDistinct, hRoom, ?_⟩
    by_cases hDone : (m.run a.store).2 = true
    · simp only [if_pos hDone, save, hPath m, if_true]
      exact .inl rfl
    · simp only [if_neg hDone, run_unsaved hDone]
      exact hSaved
  | crashIn m cp =>
    simp only [step] at hStep
    split at hStep <;> cases hStep
    cases cp with
    | writing k =>
      simp only [crashSave, hPath m, if_true]
      exact hBoot hDistinct hSmall hSaved
    | moving durable =>
      cases durable with
      | false =>
        simp only [crashSave, hPath m, if_true]
        exact hBoot hDistinct hSmall hSaved
      | true =>
        simp only [crashSave, save, hPath m, if_true]
        exact hBoot (distinct_run m hDistinct) hRoom (.inl rfl)
  | restart =>
    cases hStep
    exact hBoot hDistinct hSmall hSaved

/-- **A new process has the store of the one before**: after any mutations, restarts and crashes
inside a save in which no table reaches 2^32 rows, the file loads into a new store that has the
same rows in the same order, the same flag, and grants the same. -/
theorem persistence_round_trip {a : State}
    (hReach : Run.Reach step (fun a e _ => Roomy a e) start a) :
    boot a.disk = a.store ∧ ∀ regcomp regexec user vhost kind object,
      authstoreCheck regcomp regexec (boot a.disk) user vhost kind object =
        authstoreCheck regcomp regexec a.store user vhost kind object := by
  have hStart : start.store.Distinct ∧ start.store.Small ∧ Saved start.disk.file start.store :=
    ⟨⟨nodup_nil, nodup_nil, nodup_nil, (absurd rfl ·), rfl⟩, by decide,
      .inr ⟨rfl, rfl⟩⟩
  obtain ⟨hDistinct, hSmall, hSaved⟩ := Run.Reach.invariant (P := fun a : State =>
    a.store.Distinct ∧ a.store.Small ∧ Saved a.disk.file a.store)
    (fun a e b h hStep hRoom => saved_step hStep hRoom h) hStart hReach
  have hSame := boot_saved hDistinct hSmall hSaved
  exact ⟨hSame, fun _ _ _ _ _ _ => by rw [hSame]⟩

/-- A user with a permission, and a vhost that was removed from between two others. -/
theorem persistence_round_trip_rows : ∃ a : State,
    a.store.vhosts.map Str.bytes = [[47], [99]] ∧ a.store.users.length = 1 ∧
      a.store.perms.length = 1 ∧ boot a.disk = a.store := by
  obtain ⟨a, hReach, hVhosts, hUsers, hPerms⟩ : ∃ a,
      Run.Reach step (fun a e _ => Roomy a e) start a ∧
      a.store.vhosts.map Str.bytes = [[47], [99]] ∧ a.store.users.length = 1 ∧
      a.store.perms.length = 1 :=
    Run.exists_reach [.mutate (.addVhost [47]), .mutate (.addVhost [98]),
      .mutate (.addVhost [99]), .mutate (.addUser [97] [98] 1),
      .mutate (.setPerm [97] [47] [46] [46] []), .mutate (.delVhost [98])] (by decide +kernel)
  exact ⟨a, hVhosts, hUsers, hPerms, (persistence_round_trip hReach).1⟩

/-- With 2^32 vhosts the row count in the file is 0, and the next process has none of them. -/
theorem persistence_wrapped : ∃ (ms : List Mutation) (a : State),
    Run.runList step start (ms.map Event.mutate) = some a ∧ a.store.vhosts.length = 2 ^ 32 ∧
      (boot a.disk).vhosts = [] := by
  have hLength : (manyNames (2 ^ 32 - 2 + 1)).length = 2 ^ 32 := by
    rw [manyNames, length_cons, length_map, length_range]
    norm_num
  have hRun := run_addVhosts (manyNames (2 ^ 32 - 2 + 1)) start
    (manyNames_nodup (by omega)) rfl (by simp [manyNames])
  refine ⟨(manyNames (2 ^ 32 - 2 + 1)).map fun v => .addVhost v.bytes,
    start.withVhosts (manyNames (2 ^ 32 - 2 + 1)), ?_, hLength, ?_⟩
  · rw [map_map]
    exact hRun
  · rw [boot_wrapped rfl (by rw [hLength]; decide +kernel)]

/-! # What a load that fails leaves behind

`authstore_load` puts each row into the store as soon as it is read, and returns `-1` when a later
part of the file cannot be read. The rows read by then stay. -/

/-! ## What is read of a file -/

/-- The rows that a row loop reads before it stops, and the file behind them. -/
def readRows {α : Type} (get : Bytes → Option (α × Bytes)) : Nat → Bytes → List α × Option Bytes
  | 0, f => ([], some f)
  | n + 1, f =>
    match get f with
    | none => ([], none)
    | some (row, f) => (row :: (readRows get n f).1, (readRows get n f).2)

def readTable {α : Type} (get : Bytes → Option (α × Bytes)) (f : Bytes) : List α × Option Bytes :=
  match getU32 f with
  | none => ([], none)
  | some (n, f) => readRows get n.toNat f

/-- The rows in a file, up to the first place where it is damaged. -/
structure Contents where
  vhosts : List (Str authstoreNameMax) := []
  users : List UserRow := []
  perms : List PermRow := []
  intact : Bool := false

def contents (f : Bytes) : Contents :=
  match getHeader f with
  | none => {}
  | some (_, f) =>
    match readTable (getStr authstoreNameMax) f with
    | (vhosts, none) => { vhosts }
    | (vhosts, some f) =>
      match readTable getUser f with
      | (users, none) => { vhosts, users }
      | (users, some f) =>
        { vhosts, users, perms := (readTable getPerm f).1, intact := (readTable getPerm f).2.isSome }

section Reading

variable {α : Type} {get : Bytes → Option (α × Bytes)} {add : Store → α → Store}

theorem loadRows_eq (n : Nat) (s : Store) (f : Bytes) :
    loadRows get add n s f = ((readRows get n f).1.foldl add s, (readRows get n f).2) := by
  induction n generalizing s f with
  | zero => rfl
  | succ n ih =>
    unfold loadRows readRows
    cases get f with
    | none => rfl
    | some r => exact ih (add s r.1) r.2

theorem loadTable_eq (s : Store) (f : Bytes) :
    loadTable get add s f = ((readTable get f).1.foldl add s, (readTable get f).2) := by
  unfold loadTable readTable
  cases getU32 f with
  | none => rfl
  | some r => exact loadRows_eq r.1.toNat s r.2

end Reading

/-- **A load puts in what it reads**, and returns 0 when the file is intact. -/
theorem authstoreLoad_eq (s : Store) (f : Bytes) :
    (authstoreLoad s (some f)).2 = (contents f).intact ∧
      ((contents f).intact = false → (authstoreLoad s (some f)).1 = (contents f).perms.foldl loadPerm
        ((contents f).users.foldl loadUser ((contents f).vhosts.foldl loadVhost s))) := by
  unfold authstoreLoad contents
  simp only [loadTable_eq]
  cases getHeader f with
  | none => exact ⟨rfl, fun _ => rfl⟩
  | some r =>
    dsimp only
    generalize readTable (getStr authstoreNameMax) r.2 = t
    obtain ⟨vhosts, _ | f⟩ := t
    · exact ⟨rfl, fun _ => rfl⟩
    dsimp only
    generalize readTable getUser f = t
    obtain ⟨users, _ | f⟩ := t
    · exact ⟨rfl, fun _ => rfl⟩
    dsimp only
    generalize readTable getPerm f = t
    obtain ⟨perms, _ | f⟩ := t
    · exact ⟨rfl, fun _ => rfl⟩
    · exact ⟨rfl, by simp⟩

/-! ## Rows that are put into a table -/

section Rows

variable {α κ : Type} [DecidableEq κ] (key : α → κ)

/-- For every row that was read, the table has the last row that was read under its key. -/
def Current (rows read : List α) : Prop :=
  ∀ r ∈ read, rows.find? (fun x => decide (key x = key r)) =
    read.reverse.find? (fun x => decide (key x = key r))

variable {key}

theorem foldl_put_cons (x : α) (rows read : List α) :
    read.foldl (put key) (x :: rows) =
      (read.reverse.find? (fun y => decide (key y = key x))).getD x ::
        (read.filter (fun y => decide (key y ≠ key x))).foldl (put key) rows := by
  induction read generalizing x rows with
  | nil => rfl
  | cons r read ih =>
    rw [foldl_cons, put_cons, reverse_cons, find?_append]
    by_cases hSame : key x = key r
    · rw [if_pos hSame, ih, filter_cons_of_neg (by simp [hSame]), hSame]
      cases read.reverse.find? (fun y => decide (key y = key r)) <;> simp
    · have hOther : ¬ key r = key x := fun h => hSame h.symm
      rw [if_neg hSame, ih, filter_cons_of_pos (by simpa using hOther), foldl_cons]
      cases read.reverse.find? (fun y => decide (key y = key x)) <;> simp [hOther]

/-- **Rows that are put into a table leave it as it is** exactly when the last one of each key is
there already. -/
theorem foldl_put_eq_self_iff (rows read : List α) :
    read.foldl (put key) rows = rows ↔ Current key rows read := by
  induction rows generalizing read with
  | nil =>
    cases read with
    | nil => exact iff_of_true rfl (by rintro _ ⟨⟩)
    | cons r read =>
      refine iff_of_false ?_ fun h => ?_
      · rw [foldl_cons, show put key [] r = [r] from rfl, foldl_put_cons]
        exact cons_ne_nil _ _
      · have hFind := (find?_eq_none.mp (h r mem_cons_self).symm) r (by simp)
        simp at hFind
  | cons x rows ih =>
    rw [foldl_put_cons, cons.injEq, ih]
    -- the rows under the key of `x` decide about `x`, the others about the rest
    have hOthers : ∀ r, key r ≠ key x →
        ((x :: rows).find? (fun y => decide (key y = key r)) =
          rows.find? (fun y => decide (key y = key r)) ∧
        (read.filter (fun y => decide (key y ≠ key x))).reverse.find?
            (fun y => decide (key y = key r)) =
          read.reverse.find? (fun y => decide (key y = key r))) := by
      intro r hOther
      refine ⟨find?_cons_of_neg (by simpa using hOther.symm), ?_⟩
      rw [← filter_reverse, find?_filter]
      congr 1
      funext y
      by_cases hy : key y = key r <;> simp [hy, hOther]
    constructor
    · rintro ⟨hFirst, hRest⟩ r hr
      by_cases hSame : key r = key x
      · rw [hSame, find?_cons_of_pos (by simp)]
        obtain ⟨y, hy⟩ : ∃ y, read.reverse.find? (fun y => decide (key y = key x)) = some y :=
          Option.isSome_iff_exists.mp (by simpa using ⟨r, hr, hSame⟩)
        rw [hy] at hFirst ⊢
        exact congrArg some hFirst.symm
      · rw [(hOthers r hSame).1, ← (hOthers r hSame).2]
        exact hRest r (mem_filter.mpr ⟨hr, by simpa using hSame⟩)
    · intro h
      refine ⟨?_, fun r hr => ?_⟩
      · cases hy : read.reverse.find? (fun y => decide (key y = key x)) with
        | none => rfl
        | some y =>
          have hKey : key y = key x := by simpa using find?_some hy
          have hFind := h y (mem_reverse.mp (mem_of_find?_eq_some hy))
          rw [hKey, hy, find?_cons_of_pos (by simp)] at hFind
          exact (Option.some.inj hFind).symm
      · obtain ⟨hMem, hOther⟩ := mem_filter.mp hr
        have hNe : key r ≠ key x := by simpa using hOther
        rw [← (hOthers r hNe).1, (hOthers r hNe).2]
        exact h r hMem

end Rows

/-! ## Loads that fail -/

structure Contents.CurrentIn (c : Contents) (s : Store) : Prop where
  vhosts : Current id s.vhosts c.vhosts
  users : Current UserRow.name s.users c.users
  perms : Current (fun p => (p.user, p.vhost)) s.perms c.perms
  flag : c.users ≠ [] → s.bootstrapCompleted = true

/-- **A load that fails changes nothing** exactly when every row in front of the damage is in the
store already. -/
theorem load_unchanged_iff (s : Store) (f : Bytes) :
    ((authstoreLoad s (some f)).2 = false → (authstoreLoad s (some f)).1 = s) ↔
      ((contents f).intact = false → (contents f).CurrentIn s) := by
  obtain ⟨hFlag, hLoad⟩ := authstoreLoad_eq s f
  rw [hFlag]
  refine imp_congr_right fun hDamaged => ?_
  rw [hLoad hDamaged, foldl_load]
  constructor
  · intro h
    refine ⟨?_, ?_, ?_, fun hSome => ?_⟩
    · exact (foldl_put_eq_self_iff ..).mp (congrArg Store.vhosts h)
    · exact (foldl_put_eq_self_iff ..).mp (congrArg Store.users h)
    · exact (foldl_put_eq_self_iff ..).mp (congrArg Store.perms h)
    · have hBoot := congrArg Store.bootstrapCompleted h
      simpa [hSome] using hBoot
  · rintro ⟨hVhosts, hUsers, hPerms, hSet⟩
    have hBoot : (s.bootstrapCompleted || !(contents f).users.isEmpty) = s.bootstrapCompleted := by
      cases hRead : (contents f).users with
      | nil => simp
      | cons u us => simp [hSet (by simp [hRead])]
    rw [(foldl_put_eq_self_iff ..).mpr hVhosts, (foldl_put_eq_self_iff ..).mpr hUsers,
      (foldl_put_eq_self_iff ..).mpr hPerms, hBoot]

def tornFile : Bytes :=
  putU32 dbMagic ++ putU32 dbVersion ++ putU32 0 ++ putU32 2 ++ [0, 1, 97]

/-- The load of such a file fails, and the vhost is in the store. -/
theorem load_keeps_rows : (authstoreLoad {} (some tornFile)).2 = false ∧
    (authstoreLoad {} (some tornFile)).1 ≠ {} := by
  decide +kernel

end BeaverMQ.AuthDb
