import BeaverMQ.Model.Http

/-!
# BeaverMQ — base64

`b64_decode` keeps the bits it has not written yet at the low end of a masked accumulator. On
the encoding of RFC 4648 it gives the bytes back; what it writes, the closing NUL included, stays
inside the buffer as long as there is one.
-/

namespace BeaverMQ.Http

open List Amqp

/-! ## The buffer -/

/-- `b64_decode` behind `o` bytes: what it writes, each byte with its index, and what it returns. -/
def b64Write (cap : Nat) : Bytes → UInt32 → Nat → Nat → List (UInt8 × Nat) × Nat
  | [], _, _, o => ([(0, o)], o)
  | c :: rest, acc, bits, o =>
    if c = 61 then ([(0, o)], o)
    else match b64Val c with
      | none => ([], 0)
      | some v =>
        let acc := ((acc <<< 6) ||| v) &&& 0xFFFFFF
        if 8 ≤ bits + 6 then
          let bits := bits + 6 - 8
          if cap ≤ o + 1 then ([], 0)
          else
            let (writes, n) := b64Write cap rest acc bits (o + 1)
            ((((acc >>> UInt32.ofNat bits) &&& 0xFF).toUInt8, o) :: writes, n)
        else b64Write cap rest acc (bits + 6) o

theorem b64Write_lt {cap o : Nat} (hRoom : o < cap) (s : Bytes) (acc : UInt32) (bits : Nat) :
    ∀ w ∈ (b64Write cap s acc bits o).1, w.2 < cap := by
  fun_induction b64Write cap s acc bits o with
  | case1 | case2 => simpa using hRoom
  | case3 | case4 => simp
  | case5 c rest acc bits o _ v _ _ _ bits' hCap writes n hWrites ih =>
    intro w hMem
    rcases mem_cons.mp hMem with rfl | hMem
    · exact hRoom
    · exact ih (by omega) w (hWrites ▸ hMem)
  | case6 c rest acc bits o _ v _ _ _ ih => exact ih hRoom

/-- Where the loop ends well, the buffer holds what it gathered, and a NUL behind. -/
theorem b64Write_of_b64Loop {cap : Nat} {s out : Bytes} {acc : UInt32} {bits : Nat} {all : Bytes}
    (h : b64Loop cap s acc bits out = some all) :
    ∃ res, all = out ++ res ∧ b64Write cap s acc bits out.length =
      ((res ++ [0]).zipIdx out.length, all.length) := by
  fun_induction b64Loop cap s acc bits out with
  | case1 | case2 =>
    cases h
    exact ⟨[], by simp [b64Write]⟩
  | case3 | case4 => cases h
  | case5 c rest acc bits out hChar v hVal acc' hFull bits' hCap ih =>
    obtain ⟨res, rfl, hWrite⟩ := ih h
    refine ⟨((acc' >>> UInt32.ofNat bits') &&& 0xFF).toUInt8 :: res, by simp, ?_⟩
    rw [length_append, length_singleton] at hWrite
    simp only [b64Write, if_neg hChar, hVal, if_pos hFull, if_neg hCap]
    rw [hWrite]
    rfl
  | case6 c rest acc bits out hChar v hVal acc' hFull ih =>
    obtain ⟨res, rfl, hWrite⟩ := ih h
    refine ⟨res, rfl, ?_⟩
    simp only [b64Write, if_neg hChar, hVal, if_neg hFull]
    exact hWrite

/-! ## The encoding -/

/-- A character of the base64 alphabet. -/
def b64Char (v : Nat) : UInt8 :=
  (ascii "ABCDEFGHIJKLMNOPQRSTUVWXYZabcdefghijklmnopqrstuvwxyz0123456789+/").getD v 0

/-- The standard encoding: three bytes are four characters of six bits, and what is missing at
the end is padded. -/
def b64Encode : Bytes → Bytes
  | a :: b :: c :: rest =>
    let n := a.toNat * 65536 + b.toNat * 256 + c.toNat
    b64Char (n / 262144) :: b64Char (n / 4096 % 64) :: b64Char (n / 64 % 64) ::
      b64Char (n % 64) :: b64Encode rest
  | [a, b] =>
    let n := a.toNat * 256 + b.toNat
    [b64Char (n / 1024), b64Char (n / 16 % 64), b64Char (n % 16 * 4), 61]
  | [a] => [b64Char (a.toNat / 4), b64Char (a.toNat % 4 * 16), 61, 61]
  | [] => []

theorem b64Val_b64Char : ∀ v : Fin 64, b64Char v ≠ 61 ∧ b64Val (b64Char v) = some (.ofNat v) := by
  decide +kernel

/-- The accumulator with six bits more. -/
def b64Push (acc : UInt32) (v : Nat) : UInt32 := ((acc <<< 6) ||| UInt32.ofNat v) &&& 0xFFFFFF

theorem toNat_b64Push (acc : UInt32) {v : Nat} (hv : v < 64) :
    (b64Push acc v).toNat = (acc.toNat * 64 + v) % 2 ^ 24 := by
  have hShift : (acc <<< 6).toNat = (acc.toNat % 2 ^ 26) <<< 6 := by
    rw [UInt32.toNat_shiftLeft]
    simp only [Nat.shiftLeft_eq]
    simp
    omega
  have hVal : (UInt32.ofNat v).toNat = v := by
    simp
    omega
  rw [b64Push, UInt32.toNat_and, UInt32.toNat_or, hShift, hVal,
    ← Nat.shiftLeft_add_eq_or_of_lt hv, show (0xFFFFFF : UInt32).toNat = 2 ^ 24 - 1 from rfl,
    Nat.and_two_pow_sub_one_eq_mod, Nat.shiftLeft_eq]
  omega

theorem toUInt8_shiftRight (acc : UInt32) {bits : Nat} (hBits : bits < 32) {a : UInt8}
    (ha : acc.toNat / 2 ^ bits % 256 = a.toNat) :
    ((acc >>> UInt32.ofNat bits) &&& 0xFF).toUInt8 = a := by
  have hVal : (UInt32.ofNat bits).toNat % 32 = bits := by
    simp
    omega
  apply UInt8.toNat_inj.mp
  rw [UInt32.toNat_toUInt8, UInt32.toNat_and, UInt32.toNat_shiftRight, hVal,
    show (0xFF : UInt32).toNat = 2 ^ 8 - 1 from rfl, Nat.and_two_pow_sub_one_eq_mod,
    Nat.shiftRight_eq_div_pow, ← ha]
  exact Nat.mod_mod _ _

variable {cap v : Nat} {rest out : Bytes} {acc : UInt32}

/-- The first character of a group: six bits are not a byte yet. -/
theorem b64Loop_first (hv : v < 64) :
    b64Loop cap (b64Char v :: rest) acc 0 out = b64Loop cap rest (b64Push acc v) 6 out := by
  obtain ⟨hChar, hVal⟩ := b64Val_b64Char ⟨v, hv⟩
  simp only [b64Loop, if_neg hChar, hVal]
  rfl

/-- Every other one completes the byte `a` and leaves two bits less behind. -/
theorem b64Loop_next (hv : v < 64) (bits : Nat) (hBits : bits ≤ 4) (hRoom : out.length + 1 < cap)
    (a : UInt8) (ha : (b64Push acc v).toNat / 2 ^ bits % 256 = a.toNat) :
    b64Loop cap (b64Char v :: rest) acc (bits + 2) out =
      b64Loop cap rest (b64Push acc v) bits (out ++ [a]) := by
  obtain ⟨hChar, hVal⟩ := b64Val_b64Char ⟨v, hv⟩
  simp only [b64Loop, if_neg hChar, hVal]
  rw [if_pos (by omega), if_neg (by omega), ← toUInt8_shiftRight _ (by omega) ha]
  rfl

theorem b64Loop_end (bits : Nat) : b64Loop cap (61 :: rest) acc bits out = some out := rfl

theorem b64Loop_b64Encode (s : Bytes) (acc : UInt32) (out : Bytes)
    (hRoom : out.length + s.length < cap) :
    b64Loop cap (b64Encode s) acc 0 out = some (out ++ s) := by
  -- on groups of three: the accumulator may hold anything, no bit of it is pending
  fun_induction b64Encode s generalizing acc out with
  | case1 a b c rest n ih =>
    have ha := a.toNat_lt
    have hb := b.toNat_lt
    have hc := c.toNat_lt
    simp only [length_cons] at hRoom
    rw [b64Loop_first (by omega), b64Loop_next (by omega) 4 (by omega) (by omega) a,
      b64Loop_next (by omega) 2 (by omega) (by simp; omega) b,
      b64Loop_next (by omega) 0 (by omega) (by simp; omega) c, ih _ _ (by simp; omega)]
    · simp
    all_goals
      rw [toNat_b64Push _ (by omega), toNat_b64Push _ (by omega)]
      omega
  | case2 a b n =>
    have ha := a.toNat_lt
    have hb := b.toNat_lt
    simp only [length_cons, length_nil] at hRoom
    rw [b64Loop_first (by omega), b64Loop_next (by omega) 4 (by omega) (by omega) a,
      b64Loop_next (by omega) 2 (by omega) (by simp; omega) b, b64Loop_end]
    · simp
    all_goals
      rw [toNat_b64Push _ (by omega), toNat_b64Push _ (by omega)]
      omega
  | case3 a =>
    have ha := a.toNat_lt
    simp only [length_cons, length_nil] at hRoom
    rw [b64Loop_first (by omega), b64Loop_next (by omega) 4 (by omega) (by omega) a, b64Loop_end]
    rw [toNat_b64Push _ (by omega), toNat_b64Push _ (by omega)]
    omega
  | case4 => exact congrArg some (append_nil out).symm

/-! ## The call -/

/-- `b64_decode`: the bytes written, each with its index, and the value returned. -/
def b64DecodeTo (cap : Nat) (s : Bytes) : List (UInt8 × Nat) × Nat := b64Write cap s 0 0 0

/-- **`b64_decode` inverts the standard encoding and writes nothing behind its buffer**, which
has to have room for the closing NUL. -/
theorem b64DecodeTo_b64Encode :
    (∀ (s : Bytes) (cap : Nat), s.length < cap →
      b64DecodeTo cap (b64Encode s) = ((s ++ [0]).zipIdx, s.length)) ∧
    ∀ (s : Bytes) (cap : Nat), 0 < cap → ∀ w ∈ (b64DecodeTo cap s).1, w.2 < cap := by
  constructor
  · intro s cap hRoom
    obtain ⟨res, rfl, hWrite⟩ := b64Write_of_b64Loop
      (b64Loop_b64Encode s 0 [] (by simpa using hRoom))
    exact hWrite
  · intro s cap hRoom
    exact b64Write_lt hRoom s 0 0

theorem b64DecodeTo_b64Encode_two : b64Encode [77, 97] = ascii "TWE=" ∧
    b64DecodeTo 3 (b64Encode [77, 97]) = ([(77, 0), (97, 1), (0, 2)], 2) :=
  ⟨by decide +kernel, b64DecodeTo_b64Encode.1 [77, 97] 3 (by decide)⟩

/-- A buffer without room: the NUL is written behind its end. -/
theorem b64DecodeTo_no_room : (0, 0) ∈ (b64DecodeTo 0 []).1 := by decide

end BeaverMQ.Http
