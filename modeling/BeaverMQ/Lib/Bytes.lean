import Mathlib.Data.Nat.ModEq
import Mathlib.Data.List.Basic
import Mathlib.Tactic.Ring

/-!
# Bytes — big-endian integers over byte lists

Fixed-width unsigned integers in network byte order, as they are put into and
read out of a byte buffer, and splitting of a buffer at a known width.
-/

namespace Bytes

open List

/-- `v` written big-endian into exactly `w` bytes (the high bytes are lost when
`v` does not fit). -/
def beBytes : Nat → Nat → List UInt8
  | 0, _ => []
  | w + 1, v => UInt8.ofNat (v / 256 ^ w % 256) :: beBytes w v

def beVal : List UInt8 → Nat
  | [] => 0
  | b :: bs => b.toNat * 256 ^ bs.length + beVal bs

@[simp] theorem beBytes_length (w v : Nat) : (beBytes w v).length = w := by
  induction w with
  | zero => rfl
  | succ w ih => simp [beBytes, ih]

theorem beVal_beBytes (w v : Nat) : beVal (beBytes w v) = v % 256 ^ w := by
  induction w with
  | zero => simp [beBytes, beVal, Nat.mod_one]
  | succ w ih =>
    have hByte : (UInt8.ofNat (v / 256 ^ w % 256)).toNat = v / 256 ^ w % 256 := by
      simp
    rw [beBytes, beVal, ih, beBytes_length, hByte, pow_succ, Nat.mod_mul]
    ring

theorem beVal_beBytes_of_lt {w v : Nat} (hFits : v < 256 ^ w) : beVal (beBytes w v) = v := by
  rw [beVal_beBytes, Nat.mod_eq_of_lt hFits]

theorem beVal_lt (bs : List UInt8) : beVal bs < 256 ^ bs.length := by
  induction bs with
  | nil => simp [beVal]
  | cons b bs ih =>
    have hByte : b.toNat < 256 := b.toNat_lt
    calc beVal (b :: bs) = b.toNat * 256 ^ bs.length + beVal bs := rfl
      _ < b.toNat * 256 ^ bs.length + 256 ^ bs.length := by omega
      _ = (b.toNat + 1) * 256 ^ bs.length := by ring
      _ ≤ 256 * 256 ^ bs.length := Nat.mul_le_mul_right _ (by omega)
      _ = 256 ^ (b :: bs).length := by rw [length_cons, pow_succ]; ring

@[simp] theorem beVal_replicate_zero (k : Nat) : beVal (replicate k 0) = 0 := by
  induction k with
  | zero => rfl
  | succ k ih => simp [replicate_succ, beVal, ih]

theorem beVal_append (xs ys : List UInt8) :
    beVal (xs ++ ys) = beVal xs * 256 ^ ys.length + beVal ys := by
  induction xs with
  | nil => simp [beVal]
  | cons x xs ih =>
    rw [cons_append, beVal, ih, beVal, length_append, pow_add]
    ring

theorem beBytes_add_mul (w v k : Nat) : beBytes w (k * 256 ^ w + v) = beBytes w v := by
  induction w generalizing k with
  | zero => rfl
  | succ w ih =>
    have hPos : 0 < 256 ^ w := Nat.pow_pos (by decide)
    have hSplit : k * 256 ^ (w + 1) + v = v + 256 ^ w * (k * 256) := by ring
    have hHigh : (k * 256 ^ (w + 1) + v) / 256 ^ w % 256 = v / 256 ^ w % 256 := by
      rw [hSplit, Nat.add_mul_div_left _ _ hPos, Nat.add_mul_mod_self_right]
    have hLow : beBytes w (k * 256 ^ (w + 1) + v) = beBytes w v := by
      rw [← ih (k * 256)]
      congr 1
      ring
    rw [beBytes, beBytes, hHigh, hLow]

theorem beBytes_beVal (bs : List UInt8) : beBytes bs.length (beVal bs) = bs := by
  induction bs with
  | nil => rfl
  | cons b bs ih =>
    have hLt := beVal_lt bs
    have hDiv : (b.toNat * 256 ^ bs.length + beVal bs) / 256 ^ bs.length = b.toNat := by
      rw [Nat.mul_comm, Nat.mul_add_div (Nat.pow_pos (by decide)), Nat.div_eq_of_lt hLt,
        Nat.add_zero]
    have hByte : b.toNat % 256 = b.toNat := Nat.mod_eq_of_lt b.toNat_lt
    rw [length_cons, beBytes, beVal, hDiv, hByte, beBytes_add_mul, ih]
    simp

theorem beVal_inj {xs ys : List UInt8} (hLen : xs.length = ys.length)
    (hVal : beVal xs = beVal ys) : xs = ys := by
  rw [← beBytes_beVal xs, ← beBytes_beVal ys, hLen, hVal]

/-! ## Losing the tail of a buffer -/

/-- The buffer with everything from position `j` on replaced by zeros. -/
def zeroFrom (j : Nat) (bs : List UInt8) : List UInt8 :=
  bs.take j ++ replicate (bs.length - j) 0

@[simp] theorem zeroFrom_length (j : Nat) (bs : List UInt8) :
    (zeroFrom j bs).length = bs.length := by
  rw [zeroFrom, length_append, length_take, length_replicate]
  omega

theorem zeroFrom_of_le {j : Nat} {bs : List UInt8} (h : bs.length ≤ j) : zeroFrom j bs = bs := by
  rw [zeroFrom, take_of_length_le h, Nat.sub_eq_zero_of_le h, replicate_zero,
    append_nil]

@[simp] theorem zeroFrom_zero (bs : List UInt8) : zeroFrom 0 bs = replicate bs.length 0 := by
  simp [zeroFrom]

theorem zeroFrom_eq_iff (j : Nat) (bs : List UInt8) :
    zeroFrom j bs = bs ↔ ∀ b ∈ bs.drop j, b = 0 := by
  have hSplit : bs = bs.take j ++ bs.drop j := (take_append_drop j bs).symm
  constructor
  · intro hEq b hb
    have hDrop : bs.drop j = replicate (bs.length - j) 0 := by
      have hEq' : bs.take j ++ replicate (bs.length - j) 0 = bs.take j ++ bs.drop j := by
        rw [← hSplit]
        exact hEq
      exact (append_cancel_left hEq').symm
    rw [hDrop] at hb
    exact eq_of_mem_replicate hb
  · intro hZero
    have hDrop : bs.drop j = replicate (bs.length - j) 0 := by
      rw [eq_replicate_iff]
      exact ⟨by simp, hZero⟩
    unfold zeroFrom
    rw [← hDrop, take_append_drop]

theorem zeroFrom_append (j : Nat) (xs ys : List UInt8) :
    zeroFrom j (xs ++ ys) = zeroFrom j xs ++ zeroFrom (j - xs.length) ys := by
  unfold zeroFrom
  rw [take_append]
  by_cases hj : j ≤ xs.length
  · have hZero : j - xs.length = 0 := by omega
    have hLen : (xs ++ ys).length - j = (xs.length - j) + ys.length := by
      rw [length_append]
      omega
    rw [hZero, take_zero, append_nil, hLen, replicate_add]
    simp
  have hFull : xs.length - j = 0 := by omega
  have hLen : (xs ++ ys).length - j = ys.length - (j - xs.length) := by
    rw [length_append]
    omega
  rw [hFull, hLen]
  simp

theorem beVal_zeroFrom_le (j : Nat) (bs : List UInt8) : beVal (zeroFrom j bs) ≤ beVal bs := by
  have hSplit : beVal bs = beVal (bs.take j) * 256 ^ (bs.drop j).length + beVal (bs.drop j) := by
    rw [← beVal_append, take_append_drop]
  rw [zeroFrom, beVal_append, beVal_replicate_zero, hSplit, length_replicate,
    length_drop]
  omega

/-! ## Buffers that are found again at another place -/

theorem getElem?_of_prefix {xs ys : List UInt8} (h : xs <+: ys) {i : Nat} (hi : i < xs.length) :
    xs[i]? = ys[i]? := by
  obtain ⟨rest, rfl⟩ := h
  rw [getElem?_append_left hi]

/-- A buffer that is found again further on, where only zeros follow it, is all zeros. -/
theorem eq_zero_of_prefix_drop {bs : List UInt8} {d k : Nat} (hd : 0 < d)
    (h : bs <+: (bs ++ replicate k 0).drop d) : ∀ b ∈ bs, b = 0 := by
  -- from the last byte to the first: byte `i` equals byte `i + d`
  have hAll : ∀ m i, i < bs.length → bs.length ≤ i + m → bs[i]? = some 0 := by
    intro m
    induction m with
    | zero => intro i hi hm; omega
    | succ m ih =>
      intro i hi hm
      have hAt : bs[i]? = (bs ++ replicate k 0)[d + i]? := by
        rw [← getElem?_drop]
        exact getElem?_of_prefix h hi
      rw [hAt]
      by_cases hIn : d + i < bs.length
      · rw [getElem?_append_left hIn]
        exact ih (d + i) hIn (by omega)
      have hLen := h.length_le
      rw [length_drop, length_append, length_replicate] at hLen
      rw [getElem?_append_right (by omega), getElem?_replicate, if_pos (by omega)]
  intro b hb
  obtain ⟨i, hi, rfl⟩ := getElem_of_mem hb
  have hZero := hAll (bs.length - i) i hi (by omega)
  rw [getElem?_eq_getElem hi] at hZero
  exact Option.some.inj hZero

/-- A buffer that is found again further on, behind nothing but zeros, is all zeros. -/
theorem eq_zero_of_prefix_append {bs xs rest : List UInt8} (hx : xs ≠ [])
    (hZero : ∀ x ∈ xs, x = 0) (h : bs <+: xs ++ bs ++ rest) : ∀ b ∈ bs, b = 0 := by
  have hPos := length_pos_of_ne_nil hx
  -- from the first byte to the last: byte `i` equals byte `i - xs.length`
  have hAll : ∀ i, i < bs.length → bs[i]? = some 0 := by
    intro i
    induction i using Nat.strong_induction_on with
    | _ i ih =>
      intro hi
      have hAt : bs[i]? = (xs ++ (bs ++ rest))[i]? := by
        rw [← append_assoc]
        exact getElem?_of_prefix h hi
      rw [hAt]
      by_cases hIn : i < xs.length
      · rw [getElem?_append_left hIn, getElem?_eq_getElem hIn,
          hZero _ (getElem_mem hIn)]
      · rw [getElem?_append_right (by omega), getElem?_append_left (by omega)]
        exact ih (i - xs.length) (by omega) (by omega)
  intro b hb
  obtain ⟨i, hi, rfl⟩ := getElem_of_mem hb
  have hByte := hAll i hi
  rw [getElem?_eq_getElem hi] at hByte
  exact Option.some.inj hByte

end Bytes
