import BeaverMQ.Lib.Cursor
import BeaverMQ.Wire.Envelope

/-!
# BeaverMQ — the field reader

`bmqp_reader_t` keeps a position and an error that stays. The other modules read from what is
left of the buffer and stop at an error; here the reader with its position is shown to do that,
without an access outside of its buffer.
-/

namespace BeaverMQ.Amqp

open Bytes (beBytes beVal)
open List

/-! ## The reader -/

structure Reader where
  pos : Nat := 0
  error : Bool := false
  deriving DecidableEq

/-- What is left, unless there was an error. -/
def Reader.rest (data : Bytes) (r : Reader) : Option Bytes :=
  if r.error then none else some (data.drop r.pos)

/-- Calls of `reader_take`, each with the bytes that it gives access to. Its callers ask for a
`uint32_t` at most. -/
inductive Calls (β : Type) where
  | ret (b : β)
  | take (need : UInt32) (k : Option Bytes → Calls β)

namespace Calls

variable {β : Type} {data : Bytes}

/-- The calls on a reader; an access outside of the buffer is `none`. -/
def run (data : Bytes) : Calls β → Reader → Option (β × Reader)
  | ret b, r => some (b, r)
  | take need k, r =>
    if r.error ∨ data.length < (r.pos + need.toNat) % 2 ^ 64 then
      (k none).run data { r with error := true }
    else
      ((Cursor.take data need.toNat).run r.pos).bind fun x =>
        (k (some x.1)).run data { r with pos := x.2 }

def on : Calls β → Option Bytes → β × Option Bytes
  | ret b, o => (b, o)
  | take need k, o => (k ((o.bind (readBytes need.toNat)).map Prod.fst)).on
      ((o.bind (readBytes need.toNat)).map Prod.snd)

/-- **The reader has no fault** and does to its buffer what the calls do to the rest; an error
stays. -/
theorem run_eq (hData : data.length < 2 ^ 63) (c : Calls β) {r : Reader}
    (hPos : r.pos ≤ data.length) : ∃ r', c.run data r = some ((c.on (r.rest data)).1, r') ∧
      r'.pos ≤ data.length ∧ r'.rest data = (c.on (r.rest data)).2 ∧
      (r.error = true → r' = r) := by
  induction c generalizing r with
  | ret b => exact ⟨r, rfl, hPos, rfl, fun _ => rfl⟩
  | take need k ih =>
    obtain ⟨pos, error⟩ := r
    dsimp only at hPos
    cases error with
    | true =>
      rw [run, if_pos (.inl rfl)]
      exact ih none hPos
    | false =>
      -- the sum does not wrap
      have hSum : (pos + need.toNat) % 2 ^ 64 = pos + need.toNat := by
        have := need.toNat_lt
        omega
      have hRest : (⟨pos, false⟩ : Reader).rest data = some (data.drop pos) := rfl
      rw [run, hSum, hRest, on, Option.bind_some]
      by_cases hRoom : pos + need.toNat ≤ data.length
      · have hRead : readBytes need.toNat (data.drop pos) =
            some ((data.drop pos).take need.toNat, data.drop (pos + need.toNat)) := by
          rw [readBytes, if_neg (by rw [length_drop]; omega), drop_drop]
        rw [if_neg (not_or.mpr ⟨by simp, not_lt.mpr hRoom⟩),
          Cursor.run_take (by rw [length_drop]; exact Nat.le_sub_of_add_le' hRoom), hRead]
        obtain ⟨r', hRun, hPos', hRest', -⟩ := ih _ (r := ⟨pos + need.toNat, false⟩) hRoom
        exact ⟨r', hRun, hPos', hRest', by simp⟩
      · have hRead : readBytes need.toNat (data.drop pos) = none :=
          if_pos (by rw [length_drop]; omega)
        rw [if_pos (.inr (not_le.mp hRoom)), hRead]
        obtain ⟨r', hRun, hPos', hRest', -⟩ := ih none (r := ⟨pos, true⟩) hPos
        exact ⟨r', hRun, hPos', hRest', by simp⟩

/-- `bmqp_read_u8`, `_u16`, `_u32` and `_u64`. -/
def uint (w : Nat) (k : Nat → Calls β) : Calls β := take (.ofNat w) fun b => k (b.elim 0 beVal)

/-- `bmqp_read_shortstr` and `_longstr`; `none` is `NULL`. -/
def str (w : Nat) (k : Option Bytes → Calls β) : Calls β := uint w fun n => take (.ofNat n) k

theorem on_uint_append {w v : Nat} (hw : w ≤ 8) (hv : v < 256 ^ w) (k : Nat → Calls β) (l : Bytes) :
    (uint w k).on (some (beBytes w v ++ l)) = (k v).on (some l) := by
  have hNeed : (UInt32.ofNat w).toNat = w :=
    UInt32.toNat_ofNat_of_lt' (hw.trans_lt (by decide))
  simp [uint, on, hNeed, readBytes, Bytes.beVal_beBytes_of_lt hv]

theorem on_str_append {w : Nat} {s : Bytes} (hw : w ≤ 4) (hs : s.length < 256 ^ w)
    (k : Option Bytes → Calls β) (l : Bytes) :
    (str w k).on (some (beBytes w s.length ++ (s ++ l))) = (k (some s)).on (some l) := by
  have hLt : s.length < 2 ^ 32 := hs.trans_le (Nat.pow_le_pow_right (by decide) hw)
  have hNeed : (UInt32.ofNat s.length).toNat = s.length := UInt32.toNat_ofNat_of_lt' hLt
  rw [str, on_uint_append (by omega) hs]
  simp [on, hNeed, readBytes]

end Calls

/-! ## Sequences of calls -/

/-- A `bmqp_read_*`: a number of `w` bytes, or a string with a length of `w` bytes. -/
inductive Field where
  | num (w : Nat)
  | str (w : Nat)

inductive Value where
  | num (v : Nat)
  | str (s : Option Bytes)
  deriving DecidableEq

def Calls.readAll {β : Type} : List Field → (List Value → Calls β) → Calls β
  | [], k => k []
  | .num w :: fs, k => uint w fun v => readAll fs fun vs => k (.num v :: vs)
  | .str w :: fs, k => str w fun s => readAll fs fun vs => k (.str s :: vs)

/-- A `bmqp_buf_put_*`. -/
inductive Item where
  | num (w v : Nat)
  | short (s : Bytes)
  | long (s : Bytes)

namespace Item

def field : Item → Field
  | num w _ => .num w
  | short _ => .str 1
  | long _ => .str 4

def value : Item → Value
  | num _ v => .num v
  | short s | long s => .str (some s)

def pieces : Item → List Bytes
  | num w v => [beBytes w v]
  | short s => [beBytes 1 (min s.length 255), s.take 255]
  | long s => [beBytes 4 s.length, s]

def Fits : Item → Prop
  | num w v => w ≤ 8 ∧ v < 256 ^ w
  | short s => s.length ≤ 255
  | long s => s.length < 2 ^ 32

end Item

theorem Calls.on_readAll_append {items : List Item} (h : ∀ i ∈ items, i.Fits) {β : Type}
    (k : List Value → Calls β) (l : Bytes) :
    (readAll (items.map Item.field) k).on (some ((items.flatMap Item.pieces).flatten ++ l)) =
      (k (items.map Item.value)).on (some l) := by
  induction items generalizing k with
  | nil => rfl
  | cons i items ih =>
    obtain ⟨hFits, hMore⟩ := forall_mem_cons.mp h
    rw [flatMap_cons, flatten_append, append_assoc, map_cons, map_cons]
    cases i with
    | num w v =>
      simp only [Item.pieces, Item.field, readAll, flatten_singleton]
      rw [on_uint_append hFits.1 hFits.2, ih hMore]
      rfl
    | short s =>
      have hShort : s.length ≤ 255 := hFits
      simp only [Item.pieces, Item.field, readAll, flatten_cons, flatten_nil, append_nil,
        append_assoc, Nat.min_eq_left hShort, take_of_length_le hShort]
      rw [on_str_append (by decide) (by omega), ih hMore]
      rfl
    | long s =>
      simp only [Item.pieces, Item.field, readAll, flatten_cons, flatten_nil, append_nil,
        append_assoc]
      rw [on_str_append (by decide) hFits, ih hMore]
      rfl

namespace OutBuf

/-- The `bmqp_buf_put_*` with `buf_reserve`: the length may wrap, and `realloc` may fail. The
length that is needed grows from one success to the next, so it names the call. -/
def putRoom (room : Nat → Bool) (b : OutBuf) (bytes : Bytes) : OutBuf :=
  if bytes = [] ∨ b.error then b
  else if b.data.length + bytes.length < 2 ^ 64 ∧ room (b.data.length + bytes.length) then
    { b with data := b.data ++ bytes }
  else { b with error := true }

def putItems (room : Nat → Bool) (b : OutBuf) (items : List Item) : OutBuf :=
  (items.flatMap Item.pieces).foldl (putRoom room) b

theorem foldl_putRoom {room : Nat → Bool} {pieces : List Bytes} {b : OutBuf}
    (h : (pieces.foldl (putRoom room) b).error = false) :
    b.error = false ∧ (pieces.foldl (putRoom room) b).data = b.data ++ pieces.flatten := by
  induction pieces generalizing b with
  | nil => exact ⟨h, by simp⟩
  | cons piece pieces ih =>
    obtain ⟨hError, hData⟩ := ih h
    rw [foldl_cons, hData, flatten_cons, ← append_assoc]
    unfold putRoom at hError ⊢
    split_ifs at hError ⊢ with hSkip hRoom
    · refine ⟨hError, ?_⟩
      rw [hSkip.resolve_right (by simp [hError]), append_nil]
    · exact ⟨hError, rfl⟩

end OutBuf

/-- **The reader stays in its buffer.** However it is called, it has no access outside; an error
stays, and the position with it; and what was written without an error is read back from exactly
these bytes. A buffer has at most `PTRDIFF_MAX` bytes. -/
theorem bounded_reader :
    (∀ (data : Bytes) (fs : List Field) (r : Reader), data.length < 2 ^ 63 → r.pos ≤ data.length →
      ∃ vs r', (Calls.readAll fs .ret).run data r = some (vs, r') ∧ r'.pos ≤ data.length ∧
        (r.error = true → r' = r)) ∧
    ∀ (room : Nat → Bool) (items : List Item) (b : OutBuf) (rest : Bytes),
      (∀ i ∈ items, i.Fits) → b = OutBuf.putItems room {} items → b.error = false →
        (b.data ++ rest).length < 2 ^ 63 →
          (Calls.readAll (items.map Item.field) .ret).run (b.data ++ rest) {} =
            some (items.map Item.value, { pos := b.data.length }) := by
  constructor
  · intro data fs r hData hPos
    obtain ⟨r', hRead, hPos', -, hKeep⟩ := Calls.run_eq hData (.readAll fs .ret) hPos
    exact ⟨_, r', hRead, hPos', hKeep⟩
  · intro room items b rest hFits hb hError hData
    have hBytes : b.data = (items.flatMap Item.pieces).flatten := by
      rw [hb] at hError ⊢
      exact (OutBuf.foldl_putRoom hError).2
    obtain ⟨⟨pos, error⟩, hRead, hPos, hRest, -⟩ :=
      Calls.run_eq hData (.readAll (items.map Item.field) .ret) (r := {}) (Nat.zero_le _)
    have hLeft : Reader.rest (b.data ++ rest) {} = some (b.data ++ rest) := rfl
    rw [hLeft, hBytes, Calls.on_readAll_append hFits, ← hBytes] at hRead hRest
    rw [hRead]
    -- what is left tells where the reader is
    cases error with
    | true => cases hRest
    | false =>
      have hLen := congrArg length (Option.some.inj hRest)
      simp only [length_drop, length_append] at hLen hPos
      rw [show pos = b.data.length by omega]
      rfl

theorem bounded_reader_fields :
    (Calls.readAll [.num 2, .str 1] .ret).run [0, 7, 2, 104, 105, 9] {} =
      some ([.num 7, .str (some [104, 105])], { pos := 5 }) :=
  bounded_reader.2 (fun _ => true) [.num 2 7, .short [104, 105]] ⟨[0, 7, 2, 104, 105], false⟩ [9]
    (by simp [Item.Fits]) (by decide +kernel) rfl (by decide +kernel)

/-! ## The delivery mode

`props_is_persistent` walks the section of basic properties up to the delivery mode, the fourth
one, over strings of any length that may or may not be there. -/

namespace Calls

variable {β : Type}

/-- A string property, read when its flag is set. -/
def skip (flag : Bool) (w : Nat) (c : Calls β) : Calls β := if flag then str w fun _ => c else c

/-- The properties up to the delivery mode, when it is there. -/
def mode (flags : Nat) : Calls (Option Nat) :=
  if flags.testBit 12 then
    skip (flags.testBit 15) 1 <| skip (flags.testBit 14) 1 <| skip (flags.testBit 13) 4 <|
      uint 1 fun dm => ret (some dm)
  else ret none

/-- `props_is_persistent`; `none` is an access outside of the section. -/
def propsIsPersistent (props : Bytes) : Option Bool :=
  if props.length < 2 then some false
  else ((uint 2 mode).run props {}).map fun x => !x.2.error && x.1 == some 2

def skipRest (flag : Bool) (w : Nat) (o : Option Bytes) : Option Bytes :=
  o.bind fun l => if flag then skipStr w l else some l

theorem on_skip (flag : Bool) {w : Nat} (hw : w ≤ 4) (c : Calls β) (o : Option Bytes) :
    (skip flag w c).on o = c.on (skipRest flag w o) := by
  cases flag with
  | false => cases o <;> rfl
  | true =>
    cases o with
    | none => rfl
    | some l =>
      have hNeed : (UInt32.ofNat w).toNat = w :=
        UInt32.toNat_ofNat_of_lt' (hw.trans_lt (by decide))
      simp only [skip, str, uint, on, skipRest, skipStr, readBytes, hNeed, if_true,
        Option.bind_some]
      by_cases hLen : l.length < w
      · simp [hLen, show l.length < w + beVal (l.take w) by omega]
      · have hLt := Bytes.beVal_lt (l.take w)
        rw [length_take, Nat.min_eq_left (not_lt.mp hLen)] at hLt
        have hCut : (UInt32.ofNat (beVal (l.take w))).toNat = beVal (l.take w) :=
          UInt32.toNat_ofNat_of_lt' (hLt.trans_le (Nat.pow_le_pow_right (by decide) hw))
        simp only [hLen, if_false, Option.map_some, Option.elim_some, Option.bind_some, hCut]
        rw [readBytes, length_drop, drop_drop]
        split_ifs <;> first | rfl | omega

theorem propsIsPersistent_on {props : Bytes} (hData : props.length < 2 ^ 63)
    (hLen : ¬ props.length < 2) : propsIsPersistent props =
      some (((uint 2 mode).on (some props)).2.isSome &&
        ((uint 2 mode).on (some props)).1 == some 2) := by
  obtain ⟨⟨pos, error⟩, hRun, -, hRest, -⟩ := run_eq hData (uint 2 mode) (r := {}) (Nat.zero_le _)
  have hLeft : Reader.rest props {} = some props := rfl
  rw [hLeft] at hRun hRest
  rw [propsIsPersistent, if_neg hLen, hRun, ← hRest]
  cases error <;> rfl

/-- The reader answers as the walk over the bytes does. -/
theorem propsIsPersistent_eq {props : Bytes} (hData : props.length < 2 ^ 63) :
    propsIsPersistent props = some (BeaverMQ.propsIsPersistent props) := by
  by_cases hLen : props.length < 2
  · simp [propsIsPersistent, BeaverMQ.propsIsPersistent, hLen]
  have hFlags : (uint 2 mode).on (some props) =
      (mode (beVal (props.take 2))).on (some (props.drop 2)) := by
    simp [uint, on, readBytes, hLen]
  rw [propsIsPersistent_on hData hLen, hFlags, BeaverMQ.propsIsPersistent]
  generalize beVal (props.take 2) = flags
  -- the walk is the one that the reader does
  have hWalk : (do
      let l ← if flags.testBit 15 then skipStr 1 (props.drop 2) else some (props.drop 2)
      let l ← if flags.testBit 14 then skipStr 1 l else some l
      if flags.testBit 13 then skipStr 4 l else some l) = skipRest (flags.testBit 13) 4
        (skipRest (flags.testBit 14) 1 (skipRest (flags.testBit 15) 1 (some (props.drop 2)))) := by
    cases flags.testBit 15 <;> cases flags.testBit 14 <;> simp [skipRest, Option.bind_assoc]
  simp only [hWalk, hLen]
  cases hMode : flags.testBit 12 with
  | false => simp [mode, hMode, on]
  | true =>
    simp only [mode, hMode, if_true, on_skip _ (show 1 ≤ 4 by decide), on_skip _ (le_refl 4)]
    generalize skipRest _ _ _ = o
    rcases o with _ | _ | ⟨m, l⟩
    · rfl
    · rfl
    · rw [Option.some_inj, Bool.eq_iff_iff]
      simp [uint, on, readBytes, beVal, ← UInt8.toNat_inj]

end Calls

/-- A section of properties: a word of flags, and the fields that it says are there. The flags
and the fields behind the delivery mode are free. -/
def propsSection (contentType contentEncoding headers : Option Bytes) (deliveryMode : Option UInt8)
    (others : Nat) (fields : Bytes) : Bytes :=
  beBytes 2 (contentType.isSome.toNat * 2 ^ 15 + contentEncoding.isSome.toNat * 2 ^ 14 +
      headers.isSome.toNat * 2 ^ 13 + deliveryMode.isSome.toNat * 2 ^ 12 + others) ++
    (contentType.elim [] putShortstr ++ (contentEncoding.elim [] putShortstr ++
      (headers.elim [] putLongstr ++ (deliveryMode.toList ++ fields))))

theorem testBit_flags (a b c d : Bool) {others flags : Nat} (h : others < 2 ^ 12)
    (hFlags : flags = a.toNat * 2 ^ 15 + b.toNat * 2 ^ 14 + c.toNat * 2 ^ 13 + d.toNat * 2 ^ 12 +
      others) : flags < 256 ^ 2 ∧ flags.testBit 15 = a ∧ flags.testBit 14 = b ∧
        flags.testBit 13 = c ∧ flags.testBit 12 = d := by
  subst hFlags
  simp only [Nat.testBit_eq_decide_div_mod_eq]
  cases a <;> cases b <;> cases c <;> cases d <;> simp <;> omega

theorem Calls.on_skip_elim {w : Nat} {s : Option Bytes} {f : Bytes → Bytes} (hw : w ≤ 4)
    (hs : ∀ t ∈ s, f t = beBytes w t.length ++ t ∧ t.length < 256 ^ w) {β : Type} (c : Calls β)
    (l : Bytes) : (skip s.isSome w c).on (some (s.elim [] f ++ l)) = c.on (some l) := by
  cases s with
  | none => rfl
  | some t =>
    obtain ⟨hPut, hLen⟩ := hs t rfl
    rw [Option.elim_some, hPut, append_assoc]
    exact on_str_append hw hLen _ l

/-- **A message is persistent when its delivery mode is 2**, whatever other properties it has;
and no section makes the reader leave it. -/
theorem propsIsPersistent_iff :
    (∀ contentType contentEncoding headers deliveryMode others fields props,
      (∀ s ∈ contentType, s.length ≤ 255) → (∀ s ∈ contentEncoding, s.length ≤ 255) →
      (∀ s ∈ headers, s.length < 2 ^ 32) → others < 2 ^ 12 →
      props = propsSection contentType contentEncoding headers deliveryMode others fields →
      props.length < 2 ^ 63 → Calls.propsIsPersistent props = some (deliveryMode == some 2)) ∧
    ∀ props : Bytes, props.length < 2 ^ 63 →
      Calls.propsIsPersistent props = some (BeaverMQ.propsIsPersistent props) := by
  refine ⟨?_, fun props hData => Calls.propsIsPersistent_eq hData⟩
  intro contentType contentEncoding headers deliveryMode others fields props hType hEncoding
    hHeaders hOthers hProps hData
  have hShort : ∀ s : Bytes, s.length ≤ 255 →
      putShortstr s = beBytes 1 s.length ++ s ∧ s.length < 256 ^ 1 := fun s hs =>
    ⟨by rw [putShortstr, Nat.min_eq_left hs, take_of_length_le hs], by omega⟩
  obtain ⟨hLt, h15, h14, h13, h12⟩ := testBit_flags contentType.isSome contentEncoding.isSome
    headers.isSome deliveryMode.isSome hOthers rfl
  have hLen : ¬ props.length < 2 := by
    rw [hProps, propsSection, length_append, Bytes.beBytes_length]
    omega
  rw [Calls.propsIsPersistent_on hData hLen, hProps, propsSection,
    Calls.on_uint_append (by decide) hLt, Calls.mode, h12, h13, h14, h15]
  cases deliveryMode with
  | none => rfl
  | some m =>
    rw [Option.isSome_some, if_pos rfl,
      Calls.on_skip_elim (by decide) fun s hs => hShort s (hType s hs),
      Calls.on_skip_elim (by decide) fun s hs => hShort s (hEncoding s hs),
      Calls.on_skip_elim (f := putLongstr) le_rfl fun s hs => ⟨rfl, hHeaders s hs⟩,
      Option.some_inj, Bool.eq_iff_iff]
    simp [Calls.uint, Calls.on, readBytes, beVal, ← UInt8.toNat_inj]

theorem propsIsPersistent_text :
    Calls.propsIsPersistent (propsSection (some [116]) none (some []) (some 2) 0x800 [9]) =
      some true :=
  propsIsPersistent_iff.1 _ _ _ _ _ _ _ (by decide) (by decide) (by decide) (by decide) rfl
    (by decide)

end BeaverMQ.Amqp
