import BeaverMQ.Model.AuthDb

/-!
# BeaverMQ — what a refused change of the access store leaves behind

`authstore_add_vhost`, `authstore_add_user` and `authstore_set_perm` with all that can fail in
them: an argument that is too long, a table that cannot grow (`GROW` returns from the middle of
the function), and patterns that do not compile, which is found out when the row is written.
-/

namespace BeaverMQ.AuthDb

open List

/-- Which of the calls inside succeed, if they are made: `GROW`, `regcomp` of each pattern, and
the save. -/
structure Luck where
  grow : Bool := true
  conf : Bool := true
  wr : Bool := true
  rd : Bool := true
  save : Bool := true

/-- The tables, with the `compiled` flag of the row of each user and vhost, and the file. -/
structure Memory where
  store : Store := {}
  compiled : Bytes × Bytes → Bool := fun _ => false
  file : Option Bytes := none

/-- What a call leaves, whether it returns 0, and whether it keeps the lock. -/
structure Outcome where
  memory : Memory
  ok : Bool := true
  locked : Bool := false

def fits (cap : Nat) (s : Bytes) : Bool := (fit cap s).isSome

variable (a : Memory) (luck : Luck)

/-- What the three functions have in common: `too_long`, the lock, `GROW` for a new row, the
rows as they are after the change, and the save. -/
def guarded (fit new : Bool) (change : Store × Bool)
    (compiled : Bytes × Bytes → Bool) (ok : Bool) : Outcome :=
  if !fit then { memory := a, ok := false }
  else if new && !luck.grow then { memory := a, ok := false, locked := true }
  else
    let saves := change.2 && luck.save && change.1.persistPath
    { memory :=
        { store := change.1, compiled, file := if saves then some (dbImage change.1) else a.file }
      ok }

def addVhost (vhost : Bytes) : Outcome :=
  guarded a luck (fits authstoreNameMax vhost) (a.store.vhosts.all (·.bytes ≠ vhost))
    (authstoreAddVhost a.store vhost) a.compiled true

def addUser (user passHash : Bytes) (tags : UInt32) : Outcome :=
  guarded a luck (fits authstoreNameMax user && fits authstoreHashMax passHash)
    (a.store.users.all (·.name.bytes ≠ user)) (authstoreAddUser a.store user passHash tags)
    a.compiled true

/-- The patterns of `authstore_set_perm` compile; an empty one is not compiled. -/
def Luck.compiles (luck : Luck) (configure write read : Bytes) : Bool :=
  (configure = [] || luck.conf) && (write = [] || luck.wr) && (read = [] || luck.rd)

/-- The row that `authstore_set_perm` writes, unless an argument is too long. -/
def permRow (user vhost configure write read : Bytes) : Option PermRow :=
  match fit authstoreNameMax user, fit authstoreNameMax vhost, fit authstoreRegexMax configure,
      fit authstoreRegexMax write, fit authstoreRegexMax read with
  | some user, some vhost, some conf, some wr, some rd => some ⟨user, vhost, conf, wr, rd⟩
  | _, _, _, _, _ => none

def setPerm (user vhost configure write read : Bytes) : Outcome :=
  let ok := luck.compiles configure write read
  guarded a luck (permRow user vhost configure write read).isSome
    (a.store.perms.all fun p => decide ¬ (p.user.bytes = user ∧ p.vhost.bytes = vhost))
    (authstoreSetPerm a.store user vhost configure write read)
    (fun key => if key = (user, vhost) then ok else a.compiled key) ok

def Unchanged (o : Outcome) : Prop := o.memory = a ∧ o.locked = false

def Outcome.Clean (o : Outcome) : Prop := o.ok = false → Unchanged a o

/-- The row is there, with patterns that did not compile, and in the file. -/
def Memory.HasBad (user vhost : Bytes) (row : PermRow) : Prop :=
  a.store.perms.find? (fun p => decide (p.user = row.user ∧ p.vhost = row.vhost)) = some row ∧
  a.compiled (user, vhost) = false ∧
  (luck.save = true → a.store.persistPath = true → some (dbImage a.store) = a.file)

variable {a luck}

theorem guarded_clean_iff {fit new ok : Bool} {change : Store × Bool}
    {compiled : Bytes × Bytes → Bool} :
    (guarded a luck fit new change compiled ok).Clean a ↔
      (fit = true → (new = true → luck.grow = true) ∧ (ok = true ∨
        change.1 = a.store ∧ compiled = a.compiled ∧
        (change.2 && luck.save && change.1.persistPath → some (dbImage change.1) = a.file))) := by
  obtain ⟨store, flags, file⟩ := a
  unfold Outcome.Clean Unchanged guarded
  cases fit with
  | false => simp
  | true =>
    cases hGrow : new && !luck.grow with
    | true =>
      -- `GROW` has returned with the lock
      rw [Bool.and_eq_true, Bool.not_eq_true'] at hGrow
      simp [hGrow]
    | false =>
      have hRoom : new = true → luck.grow = true := by
        intro hNew
        simpa [hNew] using hGrow
      cases ok with
      | false => simpa using fun _ _ _ => hRoom
      | true => simpa using hRoom

theorem putRow_eq_self_iff {α : Type} {rows : List α} {same : α → Bool} {row : α} :
    putRow rows same row = rows ↔ rows.find? same = some row := by
  induction rows with
  | nil => simp [putRow]
  | cons x rows ih =>
    cases hx : same x with
    | true => simp [putRow, findIdx?_cons, hx, eq_comm]
    | false =>
      have hSkip : putRow (x :: rows) same row = x :: putRow rows same row := by
        unfold putRow
        rw [findIdx?_cons, hx]
        cases rows.findIdx? same <;> rfl
      rw [hSkip, find?_cons_of_neg (by simp [hx]), ← ih, cons.injEq]
      simp

theorem setPerm_store_iff {user vhost configure write read : Bytes} {row : PermRow}
    (hRow : permRow user vhost configure write read = some row) (s : Store) :
    (authstoreSetPerm s user vhost configure write read).2 = true ∧
    ((authstoreSetPerm s user vhost configure write read).1 = s ↔
      s.perms.find? (fun p => decide (p.user = row.user ∧ p.vhost = row.vhost)) = some row) := by
  unfold permRow at hRow
  split at hRow
  · cases hRow
    unfold authstoreSetPerm
    simp only [*, true_and]
    rw [← putRow_eq_self_iff]
    exact ⟨congrArg Store.perms, fun hPut => by rw [hPut]⟩
  · cases hRow

/-- **A refused change leaves nothing behind** exactly when no table fails to grow and the
patterns compile or were bad before. -/
theorem refused_unchanged_iff (a : Memory) (luck : Luck) :
    (∀ vhost, (addVhost a luck vhost).Clean a ↔ (fits authstoreNameMax vhost = true →
      (∀ v ∈ a.store.vhosts, v.bytes ≠ vhost) → luck.grow = true)) ∧
    (∀ user passHash tags, (addUser a luck user passHash tags).Clean a ↔
      (fits authstoreNameMax user = true ∧ fits authstoreHashMax passHash = true →
        (∀ u ∈ a.store.users, u.name.bytes ≠ user) → luck.grow = true)) ∧
    ∀ user vhost configure write read,
      (setPerm a luck user vhost configure write read).Clean a ↔
        ∀ row, permRow user vhost configure write read = some row →
          ((∀ p ∈ a.store.perms, ¬ (p.user.bytes = user ∧ p.vhost.bytes = vhost)) →
            luck.grow = true) ∧
          (luck.compiles configure write read = true ∨ a.HasBad luck user vhost row) := by
  refine ⟨fun vhost => ?_, fun user passHash tags => ?_, fun user vhost configure write read => ?_⟩
  · unfold addVhost
    rw [guarded_clean_iff]
    simp
  · unfold addUser
    rw [guarded_clean_iff]
    simp
  · unfold setPerm
    rw [guarded_clean_iff]
    cases hRow : permRow user vhost configure write read with
    | none => simp
    | some row =>
      obtain ⟨hSaved, hSame⟩ := setPerm_store_iff hRow a.store
      simp only [Option.isSome_some, true_imp_iff, Option.some.injEq, forall_eq', all_eq_true,
        decide_eq_true_iff]
      refine and_congr_right fun _ => ?_
      cases hOk : luck.compiles configure write read with
      | true => simp
      | false =>
        -- the flag of the row is cleared, and the rows are saved
        have hFlags : (fun key => if key = (user, vhost) then false else a.compiled key) =
            a.compiled ↔ a.compiled (user, vhost) = false := by
          rw [funext_iff]
          constructor
          · intro h
            simpa using (h (user, vhost)).symm
          · intro h key
            split
            · next hKey => rw [hKey, h]
            · rfl
        unfold Memory.HasBad
        rw [hFlags, ← hSame, hSaved]
        refine or_congr_right (and_congr_right fun hStore => and_congr_right fun _ => ?_)
        rw [hStore, Bool.true_and, Bool.and_eq_true, and_imp]

/-- Without room for one more vhost the lock stays taken, and a row with a malformed pattern is
there after the refusal. -/
theorem refused_changed : ¬ (addVhost {} { grow := false } [97]).Clean {} ∧
      ¬ (setPerm {} { conf := false } [97] [47] [40] [] []).Clean {} :=
  ⟨fun h => absurd (h (by decide)).2 (by decide),
    fun h => absurd (congrArg (·.store.perms.length) (h (by decide)).1) (by decide)⟩

end BeaverMQ.AuthDb
