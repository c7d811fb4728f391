import BeaverMQ.Lib.Run
import BeaverMQ.Lib.Swap
import BeaverMQ.Model.Apply

/-!
# BeaverMQ — the access-control store of a standalone broker and its file

`authstore.c` with local persistence: three arrays of rows, the flag that says a user was
created once, and the file every change rewrites under a temporary name and renames; a crash
leaves the old file or the new one.

A `Str cap` is what a `char[cap]` field of a row can hold, so a row that is written is always
one that can be read back. Compiled patterns and the lock are not modelled.
-/

namespace BeaverMQ.AuthDb

open Bytes

/-- A C string that fits a buffer of `cap` bytes with its terminator. -/
@[ext] structure Str (cap : Nat) where
  bytes : Bytes
  short : bytes.length < cap
  noNul : 0 ∉ bytes
  deriving DecidableEq

/-- The check with `too_long`; `none` when the argument does not fit. -/
def fit (cap : Nat) (s : Bytes) : Option (Str cap) :=
  if h : s.length < cap ∧ 0 ∉ s then some ⟨s, h.1, h.2⟩ else none

/-- `user_t`. -/
structure UserRow where
  name : Str authstoreNameMax
  hash : Str authstoreHashMax
  tags : UInt32
  deriving DecidableEq

/-- `perm_t`. -/
structure PermRow where
  user : Str authstoreNameMax
  vhost : Str authstoreNameMax
  conf : Str authstoreRegexMax
  wr : Str authstoreRegexMax
  rd : Str authstoreRegexMax
  deriving DecidableEq

/-- `struct authstore`; `persistPath` says whether a path is set. -/
structure Store where
  vhosts : List (Str authstoreNameMax) := []
  users : List UserRow := []
  perms : List PermRow := []
  persistPath : Bool := false
  bootstrapCompleted : Bool := false
  deriving DecidableEq

variable (s : Store)

def authstoreIsOpen : Bool := s.users.isEmpty && !s.bootstrapCompleted

/-! ## Mutators

Each gives the store afterwards and whether it was saved. -/

def authstoreAddVhost (vhost : Bytes) : Store × Bool :=
  match fit authstoreNameMax vhost with
  | none => (s, false)
  | some v => if v ∈ s.vhosts then (s, false) else ({ s with vhosts := s.vhosts ++ [v] }, true)

def authstoreDelVhost (vhost : Bytes) : Store × Bool :=
  match s.vhosts.findIdx? (·.bytes = vhost) with
  | none => (s, false)
  | some i =>
    ({ s with vhosts := s.vhosts.swapRemove i
              perms := s.perms.swapFilter (·.vhost.bytes = vhost) }, true)

/-- The row of a key is overwritten, or a new one is added at the end. -/
def putRow {α : Type} (rows : List α) (same : α → Bool) (row : α) : List α :=
  match rows.findIdx? same with
  | some i => rows.set i row
  | none => rows ++ [row]

def authstoreAddUser (user passHash : Bytes) (tags : UInt32) : Store × Bool :=
  match fit authstoreNameMax user, fit authstoreHashMax passHash with
  | some name, some hash =>
    ({ s with users := putRow s.users (·.name = name) ⟨name, hash, tags⟩
              bootstrapCompleted := true }, true)
  | _, _ => (s, false)

def authstoreDelUser (user : Bytes) : Store × Bool :=
  match s.users.findIdx? (·.name.bytes = user) with
  | none => (s, false)
  | some i =>
    ({ s with users := s.users.swapRemove i
              perms := s.perms.swapFilter (·.user.bytes = user) }, true)

def authstoreSetPerm (user vhost configure write read : Bytes) : Store × Bool :=
  match fit authstoreNameMax user, fit authstoreNameMax vhost, fit authstoreRegexMax configure,
      fit authstoreRegexMax write, fit authstoreRegexMax read with
  | some user, some vhost, some conf, some wr, some rd =>
    let same (p : PermRow) := decide (p.user = user ∧ p.vhost = vhost)
    ({ s with perms := putRow s.perms same ⟨user, vhost, conf, wr, rd⟩ }, true)
  | _, _, _, _, _ => (s, false)

def authstoreClearPerm (user vhost : Bytes) : Store × Bool :=
  match s.perms.findIdx? (fun p => decide (p.user.bytes = user ∧ p.vhost.bytes = vhost)) with
  | none => (s, false)
  | some i => ({ s with perms := s.perms.swapRemove i }, true)

/-! ## The file -/

/-- `AUTHSTORE_DB_MAGIC`. -/
def dbMagic : UInt32 := 0x41535442

/-- `AUTHSTORE_DB_VERSION`. -/
def dbVersion : UInt32 := 1

def putU32 (v : UInt32) : Bytes := beBytes 4 v.toNat

def putStr {cap : Nat} (s : Str cap) : Bytes := beBytes 2 s.bytes.length ++ s.bytes

def putUser (u : UserRow) : Bytes := putStr u.name ++ putStr u.hash ++ putU32 u.tags

def putPerm (p : PermRow) : Bytes :=
  putStr p.user ++ putStr p.vhost ++ putStr p.conf ++ putStr p.wr ++ putStr p.rd

/-- A table: its row count, as `uint32_t`, and the rows. -/
def putTable {α : Type} (put : α → Bytes) (rows : List α) : Bytes :=
  putU32 (.ofNat rows.length) ++ rows.flatMap put

/-- What `authstore_save_locked` writes. -/
def dbImage : Bytes :=
  putU32 dbMagic ++ putU32 dbVersion ++ putU32 (if s.bootstrapCompleted then 1 else 0) ++
    putTable putStr s.vhosts ++ putTable putUser s.users ++ putTable putPerm s.perms

def getU32 (f : Bytes) : Option (UInt32 × Bytes) :=
  if f.length < 4 then none else some (.ofNat (beVal (f.take 4)), f.drop 4)

theorem cstr_length_le (b : Bytes) : (cstr b).length ≤ b.length :=
  (List.takeWhile_prefix _).length_le

theorem cstr_noNul (b : Bytes) : 0 ∉ cstr b := by
  intro hMem
  have hBut := List.mem_takeWhile_imp hMem
  simp at hBut

/-- `get_str` into a buffer of `cap` bytes. -/
def getStr (cap : Nat) (f : Bytes) : Option (Str cap × Bytes) :=
  if f.length < 2 then none
  else
    let n := beVal (f.take 2)
    let rest := f.drop 2
    if h : n < cap then
      if rest.length < n then none
      else some (⟨cstr (rest.take n)
        , ((cstr_length_le _).trans (List.length_take_le _ _)).trans_lt h, cstr_noNul _⟩
        , rest.drop n)
    else none

def getUser (f : Bytes) : Option (UserRow × Bytes) := do
  let (name, f) ← getStr authstoreNameMax f
  let (hash, f) ← getStr authstoreHashMax f
  let (tags, f) ← getU32 f
  return (⟨name, hash, tags⟩, f)

def getPerm (f : Bytes) : Option (PermRow × Bytes) := do
  let (user, f) ← getStr authstoreNameMax f
  let (vhost, f) ← getStr authstoreNameMax f
  let (conf, f) ← getStr authstoreRegexMax f
  let (wr, f) ← getStr authstoreRegexMax f
  let (rd, f) ← getStr authstoreRegexMax f
  return (⟨user, vhost, conf, wr, rd⟩, f)

/-- One row loop of `authstore_load`: rows go through the mutator one by one, and stay when a
later one cannot be read. -/
def loadRows {α : Type} (get : Bytes → Option (α × Bytes)) (add : Store → α → Store) :
    Nat → Store → Bytes → Store × Option Bytes
  | 0, s, f => (s, some f)
  | n + 1, s, f =>
    match get f with
    | none => (s, none)
    | some (row, f) => loadRows get add n (add s row) f

def loadTable {α : Type} (get : Bytes → Option (α × Bytes)) (add : Store → α → Store)
    (s : Store) (f : Bytes) : Store × Option Bytes :=
  match getU32 f with
  | none => (s, none)
  | some (n, f) => loadRows get add n.toNat s f

/-- The header: the bootstrap flag and what follows. -/
def getHeader (f : Bytes) : Option (UInt32 × Bytes) :=
  match getU32 f with
  | none => none
  | some (magic, f) =>
    if magic = dbMagic then
      match getU32 f with
      | none => none
      | some (version, f) => if version = dbVersion then getU32 f else none
    else none

def loadVhost (v : Str authstoreNameMax) : Store := (authstoreAddVhost s v.bytes).1

def loadUser (u : UserRow) : Store :=
  (authstoreAddUser s u.name.bytes u.hash.bytes u.tags).1

def loadPerm (p : PermRow) : Store :=
  (authstoreSetPerm s p.user.bytes p.vhost.bytes p.conf.bytes p.wr.bytes p.rd.bytes).1

/-- `authstore_load`; the flag is false for the return value -1. -/
def authstoreLoad : Option Bytes → Store × Bool
  | none => ({ s with persistPath := true }, true)
  | some f =>
    match getHeader f with
    | none => (s, false)
    | some (boot, f) =>
      match loadTable (getStr authstoreNameMax) loadVhost s f with
      | (s, none) => (s, false)
      | (s, some f) =>
        match loadTable getUser loadUser s f with
        | (s, none) => (s, false)
        | (s, some f) =>
          match loadTable getPerm loadPerm s f with
          | (s, none) => (s, false)
          | (s, some _) =>
            ({ s with bootstrapCompleted := s.bootstrapCompleted || decide (boot ≠ 0)
                      persistPath := true }, true)

/-! ## The process and its data directory -/

inductive Mutation
  | addVhost (vhost : Bytes)
  | delVhost (vhost : Bytes)
  | addUser (user passHash : Bytes) (tags : UInt32)
  | delUser (user : Bytes)
  | setPerm (user vhost configure write read : Bytes)
  | clearPerm (user vhost : Bytes)
  deriving DecidableEq

def Mutation.run : Mutation → Store × Bool
  | .addVhost v => authstoreAddVhost s v
  | .delVhost v => authstoreDelVhost s v
  | .addUser u h tags => authstoreAddUser s u h tags
  | .delUser u => authstoreDelUser s u
  | .setPerm u v c w r => authstoreSetPerm s u v c w r
  | .clearPerm u v => authstoreClearPerm s u v

/-- The mutation is an `authstore_add_user` that succeeds. -/
def Mutation.addsUser : Mutation → Bool
  | .addUser u h _ => (fit authstoreNameMax u).isSome && (fit authstoreHashMax h).isSome
  | _ => false

/-- The database file and the temporary one next to it. -/
structure Disk where
  file : Option Bytes := none
  tmp : Option Bytes := none
  deriving DecidableEq

/-- `authstore_save_locked` that completes. -/
def save (d : Disk) : Disk :=
  if s.persistPath then { file := some (dbImage s), tmp := none } else d

/-- Where a crash cuts `authstore_save_locked`: when the temporary file holds `k` bytes, or
around the rename, which is on the disk or not until the directory is flushed. -/
inductive CrashPoint
  | writing (k : Nat)
  | moving (durable : Bool)

/-- What such a crash leaves. -/
def crashSave (d : Disk) : CrashPoint → Disk
  | .writing k => if s.persistPath then { d with tmp := some ((dbImage s).take k) } else d
  | .moving false => if s.persistPath then { d with tmp := some (dbImage s) } else d
  | .moving true => save s d

/-- A running broker and its data directory. `closed` records that `authstore_add_user` has
returned success, so with its save completed. -/
structure State where
  store : Store
  disk : Disk := {}
  closed : Bool := false

def boot (d : Disk) : Store := (authstoreLoad {} d.file).1

inductive Event
  | mutate (m : Mutation)
  /-- The process dies inside the save of a mutation and is started again. -/
  | crashIn (m : Mutation) (cp : CrashPoint)
  /-- The process ends between two mutations and is started again. -/
  | restart

def step (a : State) : Event → Option State
  | .mutate m =>
    let (s, saved) := m.run a.store
    some { store := s, disk := if saved then save s a.disk else a.disk
           closed := a.closed || m.addsUser }
  | .crashIn m cp =>
    let (s, saved) := m.run a.store
    if saved then
      let disk := crashSave s a.disk cp
      some { a with store := boot disk, disk }
    else none
  | .restart => some { a with store := boot a.disk }

def start : State := { store := boot {} }

end BeaverMQ.AuthDb
