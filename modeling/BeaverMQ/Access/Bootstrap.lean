import BeaverMQ.Model.AuthDb
import Mathlib.Data.Nat.Bitwise

/-!
# BeaverMQ — the bootstrap window closes once

Until the first user is created, the management API is open to whoever has the bootstrap
token. `authstore_add_user` closes that window for good: the flag it sets is part of the
file, and every start reads it back. What the file says about its own length, though, are
32-bit row counts, so it can be read back as long as neither the vhosts nor the users reach
2^32 rows. Nothing stands behind the permissions: if their count wraps, rows are lost and no more.
-/

namespace BeaverMQ.AuthDb

open List Bytes

variable {s : Store} {rest : Bytes}

/-! ## Reading back -/

theorem getU32_putU32 (v : UInt32) (rest : Bytes) : getU32 (putU32 v ++ rest) = some (v, rest) := by
  have hLen : (putU32 v).length = 4 := beBytes_length 4 _
  unfold getU32
  rw [if_neg (by rw [length_append, hLen]; omega), take_left' hLen,
    drop_left' hLen, putU32, beVal_beBytes_of_lt v.toNat_lt, UInt32.ofNat_toNat]

theorem getStr_putStr {cap : Nat} (hCap : cap ≤ 2 ^ 16) (str : Str cap) (rest : Bytes) :
    getStr cap (putStr str ++ rest) = some (str, rest) := by
  have hShort := str.short
  have hLen : (beBytes 2 str.bytes.length).length = 2 := beBytes_length 2 _
  have hVal : beVal (beBytes 2 str.bytes.length) = str.bytes.length :=
    beVal_beBytes_of_lt (by omega)
  unfold getStr putStr
  rw [append_assoc, if_neg (by rw [length_append, hLen]; omega)]
  simp only [take_left' hLen, drop_left' hLen, hVal]
  rw [dif_pos hShort, if_neg (by rw [length_append]; omega)]
  simp only [take_left, drop_left, cstr_eq str.noNul]

theorem getUser_putUser (u : UserRow) (rest : Bytes) : getUser (putUser u ++ rest) = some (u, rest) := by
  have hName : authstoreNameMax ≤ 2 ^ 16 := by decide
  have hHash : authstoreHashMax ≤ 2 ^ 16 := by decide
  simp [getUser, putUser, getStr_putStr hName, getStr_putStr hHash, getU32_putU32]

theorem getPerm_putPerm (p : PermRow) (rest : Bytes) : getPerm (putPerm p ++ rest) = some (p, rest) := by
  have hName : authstoreNameMax ≤ 2 ^ 16 := by decide
  have hRegex : authstoreRegexMax ≤ 2 ^ 16 := by decide
  simp [getPerm, putPerm, getStr_putStr hName, getStr_putStr hRegex]

section Tables

variable {α : Type} {put : α → Bytes} {get : Bytes → Option (α × Bytes)} {add : Store → α → Store}
  (hGet : ∀ row rest, get (put row ++ rest) = some (row, rest))
include hGet

/-- A loop that is told of fewer rows than there are stops in front of the others. -/
theorem loadRows_rows {k : Nat} {rows : List α} (hRows : k ≤ rows.length) (s : Store)
    (rest : Bytes) : loadRows get add k s (rows.flatMap put ++ rest) =
      ((rows.take k).foldl add s, some ((rows.drop k).flatMap put ++ rest)) := by
  induction k generalizing rows s with
  | zero => rfl
  | succ k ih =>
    cases rows with
    | nil => cases hRows
    | cons row rows =>
      simp only [loadRows, flatMap_cons, append_assoc, hGet, take_succ_cons, drop_succ_cons,
        foldl_cons]
      exact ih (Nat.le_of_succ_le_succ hRows) (add s row)

/-- The count in front of a table is cut to 32 bits. -/
theorem loadTable_wrapped (rows : List α) (s : Store) (rest : Bytes) :
    loadTable get add s (putTable put rows ++ rest) =
      ((rows.take (rows.length % 2 ^ 32)).foldl add s,
        some ((rows.drop (rows.length % 2 ^ 32)).flatMap put ++ rest)) := by
  unfold loadTable putTable
  rw [append_assoc, getU32_putU32]
  exact loadRows_rows hGet (Nat.mod_le ..) s rest

theorem loadTable_putTable (rows : List α) (hRows : rows.length < 2 ^ 32) (s : Store)
    (rest : Bytes) : loadTable get add s (putTable put rows ++ rest) =
      (rows.foldl add s, some rest) := by
  rw [loadTable_wrapped hGet, Nat.mod_eq_of_lt hRows, take_length, drop_length]
  rfl

end Tables

/-- The tables in front of the last one have room for their counts. -/
def Store.Framed (s : Store) : Prop :=
  s.vhosts.length < 2 ^ 32 ∧ s.users.length < 2 ^ 32

instance (s : Store) : Decidable s.Framed :=
  inferInstanceAs (Decidable (_ ∧ _))

theorem getHeader_dbImage (s : Store) :
    getHeader (dbImage s) = some (if s.bootstrapCompleted then 1 else 0,
      putTable putStr s.vhosts ++ (putTable putUser s.users ++ putTable putPerm s.perms)) := by
  simp only [getHeader, dbImage, append_assoc, getU32_putU32, if_true]

theorem authstoreLoad_of_parts {s₀ s₁ s₂ s₃ : Store} {f f₀ f₁ f₂ f₃ : Bytes} {flag : UInt32}
    (hHeader : getHeader f = some (flag, f₀))
    (hVhosts : loadTable (getStr authstoreNameMax) loadVhost s₀ f₀ = (s₁, some f₁))
    (hUsers : loadTable getUser loadUser s₁ f₁ = (s₂, some f₂))
    (hPerms : loadTable getPerm loadPerm s₂ f₂ = (s₃, some f₃)) :
    authstoreLoad s₀ (some f) =
      ({ s₃ with bootstrapCompleted := s₃.bootstrapCompleted || decide (flag ≠ 0)
                 persistPath := true }, true) := by
  simp only [authstoreLoad, hHeader, hVhosts, hUsers, hPerms]

/-- The rows of a file, taken through the mutators into a new store. -/
def reloaded (s : Store) : Store :=
  (s.perms.take (s.perms.length % 2 ^ 32)).foldl loadPerm
    (s.users.foldl loadUser (s.vhosts.foldl loadVhost {}))

theorem load_dbImage (hFramed : s.Framed) :
    authstoreLoad {} (some (dbImage s)) =
      ({ reloaded s with
          bootstrapCompleted := (reloaded s).bootstrapCompleted || s.bootstrapCompleted
          persistPath := true }, true) := by
  obtain ⟨hVhosts, hUsers⟩ := hFramed
  have hFlag : decide ((if s.bootstrapCompleted then (1 : UInt32) else 0) ≠ 0) =
      s.bootstrapCompleted := by
    cases s.bootstrapCompleted <;> rfl
  have hLast : loadTable getPerm loadPerm _ _ = _ := loadTable_wrapped getPerm_putPerm s.perms
    (s.users.foldl loadUser (s.vhosts.foldl loadVhost {})) []
  rw [append_nil] at hLast
  rw [authstoreLoad_of_parts (getHeader_dbImage s)
    (loadTable_putTable (getStr_putStr (by decide)) s.vhosts hVhosts {} _)
    (loadTable_putTable getUser_putUser s.users hUsers _ _) hLast, hFlag]
  rfl

/-! ## What stays -/

theorem run_keeps (m : Mutation) (s : Store) :
    (m.run s).1.persistPath = s.persistPath ∧
      (s.bootstrapCompleted = true → (m.run s).1.bootstrapCompleted = true) := by
  cases m with
  | addVhost v =>
    simp only [Mutation.run, authstoreAddVhost]
    split
    · exact ⟨rfl, id⟩
    · split <;> exact ⟨rfl, id⟩
  | addUser u h tags =>
    simp only [Mutation.run, authstoreAddUser]
    split
    · exact ⟨rfl, fun _ => rfl⟩
    · exact ⟨rfl, id⟩
  | delVhost v | delUser u | setPerm u v c w r | clearPerm u v =>
    simp only [Mutation.run, authstoreDelVhost, authstoreDelUser, authstoreSetPerm,
      authstoreClearPerm]
    split <;> exact ⟨rfl, id⟩

theorem run_addsUser {m : Mutation} (hAdds : m.addsUser = true) (s : Store) :
    (m.run s).1.bootstrapCompleted = true ∧ (m.run s).2 = true := by
  cases m with
  | addUser u h tags =>
    simp only [Mutation.addsUser, Bool.and_eq_true, Option.isSome_iff_exists] at hAdds
    obtain ⟨⟨name, hName⟩, hash, hHash⟩ := hAdds
    simp only [Mutation.run, authstoreAddUser, hName, hHash, and_self]
  | _ => cases hAdds

/-- What the file says: there is none and no user was created, or it is the image of a store
that has the flag if one was. -/
def FileKept (closed : Bool) (file : Option Bytes) : Prop :=
  (file = none ∧ closed = false) ∨
    ∃ s : Store, file = some (dbImage s) ∧ s.Framed ∧ (closed = true → s.bootstrapCompleted = true)

structure Kept (a : State) : Prop where
  path : a.store.persistPath = true
  flag : a.closed = true → a.store.bootstrapCompleted = true
  file : FileKept a.closed a.disk.file

theorem boot_of_load {d : Disk} {f : Bytes} {ok : Bool} (hFile : d.file = some f)
    (hLoad : authstoreLoad {} (some f) = (s, ok)) : boot d = s := by
  unfold boot
  rw [hFile, hLoad]

theorem boot_kept {closed : Bool} {d : Disk} (hFile : FileKept closed d.file) :
    (boot d).persistPath = true ∧ (closed = true → (boot d).bootstrapCompleted = true) := by
  rcases hFile with ⟨hNone, hOpen⟩ | ⟨s, hSome, hFramed, hFlag⟩
  · unfold boot
    rw [hNone]
    exact ⟨rfl, fun hClosed => by rw [hOpen] at hClosed; cases hClosed⟩
  rw [boot_of_load hSome (load_dbImage hFramed)]
  refine ⟨rfl, fun hClosed => ?_⟩
  dsimp only
  rw [hFlag hClosed, Bool.or_true]

/-- The condition on a step: the store it saves has the property. -/
def Saves (P : Store → Prop) (a : State) : Event → Prop
  | .mutate m | .crashIn m _ => P (m.run a.store).1
  | .restart => True

instance {P : Store → Prop} [DecidablePred P] (a : State) : ∀ e, Decidable (Saves P a e)
  | .mutate m | .crashIn m _ => inferInstanceAs (Decidable (P (m.run a.store).1))
  | .restart => .isTrue trivial

theorem step_mutate (a : State) (m : Mutation) : step a (.mutate m) =
    some { store := (m.run a.store).1
           disk := if (m.run a.store).2 then save (m.run a.store).1 a.disk else a.disk
           closed := a.closed || m.addsUser } := rfl

theorem kept_step {a b : State} {e : Event} (h : Kept a) (hStep : step a e = some b)
    (hRoom : Saves Store.Framed a e) : Kept b := by
  cases e with
  | mutate m =>
    obtain ⟨hPath, hFlag⟩ := run_keeps m a.store
    rw [step_mutate] at hStep
    cases hStep
    have hNew : (a.closed || m.addsUser) = true → (m.run a.store).1.bootstrapCompleted = true := by
      intro hClosed
      rcases (Bool.or_eq_true _ _).mp hClosed with hOld | hAdds
      · exact hFlag (h.flag hOld)
      · exact (run_addsUser hAdds a.store).1
    refine ⟨hPath.trans h.path, hNew, ?_⟩
    dsimp only
    by_cases hSaved : (m.run a.store).2 = true
    · rw [if_pos hSaved, save, if_pos (hPath.trans h.path)]
      exact .inr ⟨_, rfl, hRoom, hNew⟩
    -- nothing saved, so no user was added either
    have hNo : m.addsUser = false := by
      by_contra hYes
      exact hSaved (run_addsUser (by simpa using hYes) a.store).2
    rw [if_neg hSaved, hNo, Bool.or_false]
    exact h.file
  | crashIn m cp =>
    obtain ⟨hPath, hFlag⟩ := run_keeps m a.store
    simp only [step] at hStep
    split at hStep <;> cases hStep
    have hFile : FileKept a.closed (crashSave (m.run a.store).1 a.disk cp).file := by
      cases cp with
      | writing k =>
        simp only [crashSave]
        split <;> exact h.file
      | moving durable =>
        cases durable with
        | false =>
          simp only [crashSave]
          split <;> exact h.file
        | true =>
          rw [crashSave, save, if_pos (hPath.trans h.path)]
          exact .inr ⟨_, rfl, hRoom, fun hClosed => hFlag (h.flag hClosed)⟩
    obtain ⟨hPath', hFlag'⟩ := boot_kept hFile
    exact ⟨hPath', hFlag', hFile⟩
  | restart =>
    cases hStep
    obtain ⟨hPath, hFlag⟩ := boot_kept h.file
    exact ⟨hPath, hFlag, h.file⟩

/-- In every run of mutations, crashes inside a save and restarts in which neither the vhosts nor
the users reach 2^32 rows: once `authstore_add_user` has returned success, the window is closed. -/
theorem bootstrap_one_way {a : State}
    (hReach : Run.Reach step (fun a e _ => Saves Store.Framed a e) start a) (hClosed : a.closed = true) :
    authstoreIsOpen a.store = false := by
  have hKept : Kept a := by
    refine Run.Reach.invariant (P := Kept) ?_ ?_ hReach
    · exact fun a e b h hStep hRoom => kept_step h hStep hRoom
    · exact ⟨rfl, nofun, .inl ⟨rfl, rfl⟩⟩
  unfold authstoreIsOpen
  rw [hKept.flag hClosed]
  exact Bool.and_false _

/-- A user is created and removed again, and the process is killed inside a save and between
two: the window stays closed. -/
theorem bootstrap_one_way_restarts : ∃ a : State,
    (Run.Reach step (fun a e _ => Saves Store.Framed a e) start a ∧ a.store.users = [] ∧
        a.closed = true) ∧
      authstoreIsOpen a.store = false := by
  obtain ⟨a, hReach, hUsers, hClosed⟩ : ∃ a,
      Run.Reach step (fun a e _ => Saves Store.Framed a e) start a ∧
      a.store.users = [] ∧ a.closed = true :=
    Run.exists_reach [.mutate (.addVhost [47]), .mutate (.addUser [97] [98] 1), .restart,
      .mutate (.delUser [97]), .crashIn (.addVhost [99]) (.writing 7), .restart]
      (by decide +kernel)
  exact ⟨a, ⟨hReach, hUsers, hClosed⟩, bootstrap_one_way hReach hClosed⟩

/-! ## A row count that wraps -/

def State.withVhosts (a : State) (names : List (Str authstoreNameMax)) : State :=
  let s := { a.store with vhosts := a.store.vhosts ++ names }
  { store := s, disk := ⟨some (dbImage s), none⟩, closed := a.closed }

theorem step_addVhost {a : State} {v : Str authstoreNameMax} (hNew : v ∉ a.store.vhosts)
    (hPath : a.store.persistPath = true) :
    step a (.mutate (.addVhost v.bytes)) = some (a.withVhosts [v]) := by
  have hFit : fit authstoreNameMax v.bytes = some v := dif_pos ⟨v.short, v.noNul⟩
  have hAdd : authstoreAddVhost a.store v.bytes =
      ({ a.store with vhosts := a.store.vhosts ++ [v] }, true) := by
    simp only [authstoreAddVhost, hFit, if_neg hNew]
  rw [step_mutate]
  simp only [Mutation.run, hAdd, save, hPath, if_true, Mutation.addsUser, Bool.or_false,
    State.withVhosts]

theorem run_addVhosts (names : List (Str authstoreNameMax)) :
    ∀ a : State, (a.store.vhosts ++ names).Nodup → a.store.persistPath = true → names ≠ [] →
      Run.runList step a (names.map fun v => .mutate (.addVhost v.bytes)) =
        some (a.withVhosts names) := by
  induction names with
  | nil => intro a _ _ hNe; exact absurd rfl hNe
  | cons v names ih =>
    intro a hNodup hPath _
    have hNew : v ∉ a.store.vhosts := fun hMem =>
      (nodup_append.mp hNodup).2.2 v hMem v mem_cons_self rfl
    rw [map_cons, Run.runList, step_addVhost hNew hPath, Option.bind_some]
    by_cases hLast : names = []
    · rw [hLast]; rfl
    have hNodup' : ((a.withVhosts [v]).store.vhosts ++ names).Nodup := by
      simpa [State.withVhosts] using hNodup
    rw [ih (a.withVhosts [v]) hNodup' hPath hLast]
    simp only [State.withVhosts, append_assoc, singleton_append]

theorem authstoreLoad_of_bad_users {s₀ s₁ s₂ : Store} {f f₀ f₁ : Bytes} {flag : UInt32}
    (hHeader : getHeader f = some (flag, f₀))
    (hVhosts : loadTable (getStr authstoreNameMax) loadVhost s₀ f₀ = (s₁, some f₁))
    (hUsers : loadTable getUser loadUser s₁ f₁ = (s₂, none)) :
    authstoreLoad s₀ (some f) = (s₂, false) := by
  simp only [authstoreLoad, hHeader, hVhosts, hUsers]

theorem loadRows_bad {α : Type} {get : Bytes → Option (α × Bytes)} {add : Store → α → Store}
    {n : Nat} {f : Bytes} (hBad : get f = none) (hRows : 0 < n) :
    loadRows get add n s f = (s, none) := by
  obtain ⟨k, rfl⟩ := Nat.exists_eq_succ_of_ne_zero hRows.ne'
  simp only [loadRows, hBad]

theorem loadUsers_bad (rest : Bytes) :
    loadTable getUser loadUser s ([0, 1, 47, 0, 32, 97] ++ rest) = (s, none) := by
  have hCount : getU32 ([0, 1, 47, 0, 32, 97] ++ rest) =
      some (.ofNat (beVal [0, 1, 47, 0]), [32, 97] ++ rest) := by
    unfold getU32
    rw [if_neg (by simp)]
    rfl
  have hName : getStr authstoreNameMax ([32, 97] ++ rest) = none := by
    have hLong : ¬ beVal (([32, 97] ++ rest).take 2) < authstoreNameMax := by
      have hTake : ([32, 97] ++ rest).take 2 = [32, 97] := rfl
      rw [hTake]
      decide
    unfold getStr
    rw [if_neg (by simp), dif_neg hLong]
  have hUser : getUser ([32, 97] ++ rest) = none := by
    unfold getUser
    rw [hName]
    rfl
  unfold loadTable
  rw [hCount]
  exact loadRows_bad hUser (by decide +kernel)

/-- The row count of the vhosts says zero, so their names are read as the table of users: the
first bytes as a row count, and what follows as a name longer than any name. -/
theorem load_wrapped {more : List (Str authstoreNameMax)} {v w : Str authstoreNameMax}
    (hv : v.bytes = [47]) (hw : w.bytes = replicate 32 97)
    (hs : s.vhosts = v :: w :: more) (hWrap : UInt32.ofNat s.vhosts.length = 0) :
    authstoreLoad {} (some (dbImage s)) = ({}, false) := by
  have hRows (rest : Bytes) : s.vhosts.flatMap putStr ++ rest =
      [0, 1, 47, 0, 32, 97] ++ (replicate 31 97 ++ (more.flatMap putStr ++ rest)) := by
    have hOne : putStr v = [0, 1, 47] := by unfold putStr; rw [hv]; rfl
    have hTwo : putStr w = [0, 32, 97] ++ replicate 31 97 := by unfold putStr; rw [hw]; rfl
    rw [hs, flatMap_cons, flatMap_cons, hOne, hTwo]
    simp only [append_assoc, cons_append, nil_append]
  have hVhosts (rest : Bytes) : loadTable (getStr authstoreNameMax) loadVhost {}
      (putTable putStr s.vhosts ++ rest) = ({}, some (s.vhosts.flatMap putStr ++ rest)) := by
    unfold loadTable putTable
    rw [append_assoc, getU32_putU32, hWrap]
    rfl
  refine authstoreLoad_of_bad_users (getHeader_dbImage s) (hVhosts _) ?_
  rw [hRows]
  exact loadUsers_bad _

/-- Names of 32 letters, one for each number below 2^32. -/
def bitName (i : Nat) : Str authstoreNameMax where
  bytes := (range 32).map fun j => if i.testBit j then 98 else 97
  short := by rw [length_map, length_range]; decide
  noNul := by
    rw [mem_map]
    rintro ⟨j, -, hZero⟩
    split at hZero <;> cases hZero

theorem bitName_inj {i j : Nat} (hi : i < 2 ^ 32) (hj : j < 2 ^ 32) (hSame : bitName i = bitName j) :
    i = j := by
  refine Nat.eq_of_testBit_eq fun k => ?_
  by_cases hk : k < 32
  · have hBytes : (range 32).map (fun k => if i.testBit k then (98 : UInt8) else 97) =
        (range 32).map (fun k => if j.testBit k then 98 else 97) := congrArg Str.bytes hSame
    have hBit := map_inj_left.mp hBytes k (mem_range.mpr hk)
    by_cases hOne : i.testBit k <;> by_cases hTwo : j.testBit k <;> simp_all
  · have hPow : 2 ^ 32 ≤ 2 ^ k := Nat.pow_le_pow_right (by decide) (by omega)
    rw [Nat.testBit_lt_two_pow (hi.trans_le hPow), Nat.testBit_lt_two_pow (hj.trans_le hPow)]

/-- The vhost `/` and `n` more. -/
def manyNames (n : Nat) : List (Str authstoreNameMax) :=
  ⟨[47], by decide, by decide⟩ :: (range n).map bitName

theorem manyNames_nodup {n : Nat} (hn : n ≤ 2 ^ 32) : (manyNames n).Nodup := by
  refine nodup_cons.mpr ⟨fun hMem => ?_, ?_⟩
  · obtain ⟨i, -, hi⟩ := mem_map.mp hMem
    have hLen := congrArg (fun v : Str authstoreNameMax => v.bytes.length) hi
    simp [bitName] at hLen
  · refine List.Nodup.map_on (fun i hi j hj hSame => ?_) nodup_range
    exact bitName_inj ((mem_range.mp hi).trans_le hn) ((mem_range.mp hj).trans_le hn) hSame

/-- A start on the file of a state to which so many vhosts were added that the count wraps. -/
theorem boot_wrapped {a : State} {n : Nat} (hEmpty : a.store.vhosts = [])
    (hWrap : UInt32.ofNat (manyNames (n + 1)).length = 0) :
    boot (a.withVhosts (manyNames (n + 1))).disk = {} := by
  have hVhosts : (a.withVhosts (manyNames (n + 1))).store.vhosts = manyNames (n + 1) := by
    simp only [State.withVhosts, hEmpty, nil_append]
  have hSplit : manyNames (n + 1) = ⟨[47], by decide, by decide⟩ :: bitName 0 ::
      ((range n).map Nat.succ).map bitName := by
    rw [manyNames, range_succ_eq_map, map_cons]
  have hZero : UInt32.ofNat (a.withVhosts (manyNames (n + 1))).store.vhosts.length = 0 := by
    rw [hVhosts, hWrap]
  have hLoad := load_wrapped rfl (by decide) (hVhosts.trans hSplit) hZero
  exact boot_of_load rfl hLoad

theorem step_firstUser : ∃ a : State, step start (.mutate (.addUser [97] [98] 0)) = some a ∧
    a.store.vhosts = [] ∧ a.store.persistPath = true ∧ a.closed = true :=
  ⟨_, rfl, rfl, rfl, rfl⟩

/-- A user is created, then vhosts until their number is a multiple of 2^32, and the process
starts again. -/
theorem wrapped_run {n : Nat} (hn : n + 1 ≤ 2 ^ 32)
    (hWrap : UInt32.ofNat (manyNames (n + 1)).length = 0) :
    ∃ a : State, Run.runList step start (.mutate (.addUser [97] [98] 0) ::
        ((manyNames (n + 1)).map (fun v => .mutate (.addVhost v.bytes)) ++ [.restart])) = some a ∧
      a.closed = true ∧ authstoreIsOpen a.store = true := by
  obtain ⟨a, hUser, hEmpty, hPath, hClosed⟩ := step_firstUser
  have hNodup : (a.store.vhosts ++ manyNames (n + 1)).Nodup := by
    rw [hEmpty]
    exact manyNames_nodup hn
  refine ⟨{ a.withVhosts (manyNames (n + 1)) with store := {} }, ?_, hClosed, rfl⟩
  rw [Run.runList, hUser, Option.bind_some, Run.runList_append,
    run_addVhosts _ a hNodup hPath (by simp [manyNames]), Option.bind_some]
  simp only [Run.runList, step, boot_wrapped hEmpty hWrap, Option.bind_some]

/-- With 2^32 vhosts the file cannot be read, and a store without users, or the flag, is what
the next start has. -/
theorem bootstrap_reopened : ∃ (es : List Event) (a : State),
    Run.runList step start es = some a ∧ a.closed = true ∧ authstoreIsOpen a.store = true := by
  have hLength : (manyNames (2 ^ 32 - 2 + 1)).length = 2 ^ 32 := by
    rw [manyNames, length_cons, length_map, length_range]
    norm_num
  obtain ⟨a, hRun, hEnd⟩ := wrapped_run (n := 2 ^ 32 - 2) (by omega) (by rw [hLength]; decide +kernel)
  exact ⟨_, a, hRun, hEnd⟩

end BeaverMQ.AuthDb
