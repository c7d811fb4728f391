import BeaverMQ.Model.Amqp

/-!
# BeaverMQ — sizes in the configuration

`parse_size` of `config.c` reads a byte size with an optional suffix. It leaves sign and range
of the number to `strtoul`, and it multiplies by the suffix before it looks at the range.
-/

namespace BeaverMQ.Config

open List Amqp

/-! ## The source -/

def isSpace (c : UInt8) : Bool := 9 ≤ c && c ≤ 13 || c = 32

def isDigit (c : UInt8) : Bool := 48 ≤ c && c ≤ 57

def decimalValue (ds : Bytes) : Nat := ds.foldl (fun n d => 10 * n + (d.toNat - 48)) 0

/-- The sign that `strtoul` reads, and what stands behind it. -/
def readSign : Bytes → Bool × Bytes
  | c :: s => if c = 45 then (true, s) else if c = 43 then (false, s) else (false, c :: s)
  | [] => (false, [])

/-- What `strtoul` makes of the digits: it saturates, and a minus sign negates modulo `2 ^ 64`. -/
def toUlong (neg : Bool) (n : Nat) : Nat :=
  if 2 ^ 64 ≤ n then 2 ^ 64 - 1 else if neg then (2 ^ 64 - n) % 2 ^ 64 else n

/-- `strtoul` in base 10: the value and what `*end` points to, `none` for `end == v`. -/
def strtoul (v : Bytes) : Option (Nat × Bytes) :=
  let (neg, s) := readSign (v.dropWhile isSpace)
  let ds := s.takeWhile isDigit
  if ds = [] then none else some (toUlong neg (decimalValue ds), s.dropWhile isDigit)

/-- The factor of a suffix, and what stands behind it. -/
def readSuffix : Bytes → Nat × Bytes
  | c :: s =>
    if c = 107 ∨ c = 75 then (1024, s)
    else if c = 109 ∨ c = 77 then (1024 * 1024, s)
    else (1, c :: s)
  | [] => (1, [])

/-- `parse_size`: what it stores in `*out`, `none` for `-1`. -/
def parseSize (v : Bytes) : Option Nat :=
  match strtoul v with
  | none => none
  | some (n, s) =>
    let n := n * (readSuffix s).1 % 2 ^ 64
    if (readSuffix s).2 ≠ [] || 0xFFFFFFFF < n then none else some n

/-! ## How a size is spelled -/

def signs : List (Bytes × Bool) := [([], false), ([43], false), ([45], true)]

def suffixes : List (Bytes × Nat) :=
  [([], 1), ([107], 1024), ([75], 1024), ([109], 1024 * 1024), ([77], 1024 * 1024)]

/-- The string is a number, behind spaces and a sign and before a suffix. -/
inductive Spells : Bytes → Bool → Bytes → Nat → Prop
  | intro {spaces sign ds suffix : Bytes} {neg : Bool} {unit : Nat}
    (hSpaces : ∀ c ∈ spaces, isSpace c = true) (hSign : (sign, neg) ∈ signs)
    (hSome : ds ≠ []) (hDigits : ∀ c ∈ ds, isDigit c = true)
    (hSuffix : (suffix, unit) ∈ suffixes) :
    Spells (spaces ++ (sign ++ (ds ++ suffix))) neg ds unit

/-- What the scan finds: sign, digits, factor, and what is left over. -/
def parts (v : Bytes) : Bool × Bytes × Nat × Bytes :=
  let (neg, s) := readSign (v.dropWhile isSpace)
  (neg, s.takeWhile isDigit, readSuffix (s.dropWhile isDigit))

variable {v ds s : Bytes} {c : UInt8} {neg : Bool} {unit n : Nat}

theorem not_isSpace_of_isDigit (hDigit : isDigit c = true) :
    isSpace c = false ∧ c ≠ 45 ∧ c ≠ 43 := by
  simp [isDigit, isSpace, UInt8.le_iff_toNat_le, ← UInt8.toNat_inj] at hDigit ⊢
  omega

theorem readSign_append (hSign : (s, neg) ∈ signs) (hSome : ds ≠ [])
    (hDigits : ∀ c ∈ ds, isDigit c = true) (rest : Bytes) :
    readSign ((s ++ (ds ++ rest)).dropWhile isSpace) = (neg, ds ++ rest) := by
  obtain ⟨d, ds, rfl⟩ := exists_cons_of_ne_nil hSome
  obtain ⟨hSpace, hMinus, hPlus⟩ := not_isSpace_of_isDigit (hDigits d mem_cons_self)
  simp only [signs, mem_cons, Prod.mk.injEq, not_mem_nil, or_false] at hSign
  rcases hSign with ⟨rfl, rfl⟩ | ⟨rfl, rfl⟩ | ⟨rfl, rfl⟩
  · simp [readSign, hSpace, hMinus, hPlus]
  · rfl
  · rfl

theorem readSuffix_mem (hSuffix : (s, unit) ∈ suffixes) :
    s.takeWhile isDigit = [] ∧ readSuffix (s.dropWhile isDigit) = (unit, []) := by
  simp only [suffixes, mem_cons, Prod.mk.injEq, not_mem_nil, or_false] at hSuffix
  rcases hSuffix with ⟨rfl, rfl⟩ | ⟨rfl, rfl⟩ | ⟨rfl, rfl⟩ | ⟨rfl, rfl⟩ | ⟨rfl, rfl⟩ <;> decide

theorem exists_sign (v : Bytes) : ∃ sign, (sign, (readSign v).1) ∈ signs ∧
    v = sign ++ (readSign v).2 := by
  cases v with
  | nil => exact ⟨[], by decide, rfl⟩
  | cons c s =>
    dsimp only [readSign]
    split_ifs with hMinus hPlus
    · exact ⟨[45], by simp [signs], by rw [hMinus]; rfl⟩
    · exact ⟨[43], by simp [signs], by rw [hPlus]; rfl⟩
    · exact ⟨[], by simp [signs], rfl⟩

theorem mem_suffixes (h : readSuffix s = (unit, [])) : (s, unit) ∈ suffixes := by
  cases s with
  | nil =>
    cases h
    decide
  | cons c s =>
    dsimp only [readSuffix] at h
    split_ifs at h with hKilo hMega <;> cases h <;> simpa [suffixes]

/-- **The scan reads the string as it is spelled.** -/
theorem parts_eq_iff : Spells v neg ds unit ↔ ds ≠ [] ∧ parts v = (neg, ds, unit, []) := by
  constructor
  · rintro ⟨hSpaces, hSign, hSome, hDigits, hSuffix⟩
    refine ⟨hSome, ?_⟩
    unfold parts
    rw [dropWhile_append_of_pos hSpaces, readSign_append hSign hSome hDigits]
    obtain ⟨hNone, hUnit⟩ := readSuffix_mem hSuffix
    simp only [takeWhile_append_of_pos hDigits, dropWhile_append_of_pos hDigits, hNone, hUnit,
      append_nil]
  · rintro ⟨hSome, hParts⟩
    unfold parts at hParts
    obtain ⟨sign, hSign, hEq⟩ := exists_sign (v.dropWhile isSpace)
    set r := readSign (v.dropWhile isSpace)
    simp only [Prod.mk.injEq] at hParts
    obtain ⟨hNeg, hDigits, hUnit⟩ := hParts
    have hSpelled : v = v.takeWhile isSpace ++ (sign ++ (ds ++ r.2.dropWhile isDigit)) := by
      rw [← hDigits, takeWhile_append_dropWhile, ← hEq, takeWhile_append_dropWhile]
    rw [hSpelled]
    exact .intro (all_eq_true.mp all_takeWhile) (hNeg ▸ hSign) hSome
      (hDigits ▸ all_eq_true.mp all_takeWhile) (mem_suffixes hUnit)

theorem Spells.factor (h : Spells v neg ds unit) : unit = 1 ∨ unit = 1024 ∨ unit = 1024 * 1024 := by
  obtain ⟨-, -, -, -, hSuffix⟩ := h
  simp only [suffixes, mem_cons, Prod.mk.injEq, not_mem_nil, or_false] at hSuffix
  omega

/-! ## What is stored -/

/-- The number the source compares with the limit. -/
def stored (neg : Bool) (n unit : Nat) : Nat := toUlong neg n * unit % 2 ^ 64

/-- **A size is digits and at most one unit**, and fits 32 bits after the product. -/
theorem parseSize_eq_some {out : Nat} : parseSize v = some out ↔
    ∃ neg ds unit, Spells v neg ds unit ∧ stored neg (decimalValue ds) unit = out ∧
      out < 2 ^ 32 := by
  have hParse : parseSize v = if (parts v).2.1 = [] then none
      else if (parts v).2.2.2 ≠ [] ||
        0xFFFFFFFF < stored (parts v).1 (decimalValue (parts v).2.1) (parts v).2.2.1 then none
      else some (stored (parts v).1 (decimalValue (parts v).2.1) (parts v).2.2.1) := by
    unfold parseSize strtoul stored parts
    dsimp only
    by_cases hNone : (readSign (v.dropWhile isSpace)).2.takeWhile isDigit = []
    · rw [if_pos hNone, if_pos hNone]
    · rw [if_neg hNone, if_neg hNone]
  simp only [parts_eq_iff, hParse]
  obtain ⟨neg, ds, unit, rest⟩ := parts v
  dsimp only
  split_ifs with hNone hBad
  · refine ⟨nofun, ?_⟩
    rintro ⟨_, _, _, ⟨hSome, hEq⟩, -⟩
    cases hEq
    exact absurd hNone hSome
  · refine ⟨nofun, ?_⟩
    rintro ⟨_, _, _, ⟨-, hEq⟩, rfl, hFits⟩
    cases hEq
    simp only [Bool.or_eq_true, decide_eq_true_iff, ne_eq, not_true_eq_false, false_or] at hBad
    omega
  · constructor
    · intro h
      cases h
      simp only [Bool.or_eq_true, decide_eq_true_iff, not_or, ne_eq, not_not] at hBad
      exact ⟨neg, ds, unit, ⟨hNone, by rw [hBad.1]⟩, rfl, by omega⟩
    · rintro ⟨_, _, _, ⟨-, hEq⟩, rfl, -⟩
      cases hEq
      rfl

theorem stored_of_le (hSpells : Spells v neg ds unit) (hLarge : 2 ^ 64 ≤ n) :
    2 ^ 32 ≤ stored neg n unit := by
  unfold stored toUlong
  rw [if_pos hLarge]
  rcases hSpells.factor with rfl | rfl | rfl <;> decide

theorem stored_of_lt (hSmall : n < 2 ^ 64) (neg : Bool) :
    stored neg n unit = (if neg then (2 ^ 64 - n) * unit else n * unit) % 2 ^ 64 := by
  unfold stored toUlong
  rw [if_neg (by omega)]
  split
  · rw [Nat.mod_mul_mod]
  · rfl

/-- The size is parsed as it is meant: a number without a minus sign, if its value fits. -/
def Exact (v : Bytes) : Prop := ∀ out, parseSize v = some out ↔
  ∃ ds unit, Spells v false ds unit ∧ decimalValue ds * unit = out ∧ out ≤ 2 ^ 32 - 1

/-- **Sizes are exact unless the arithmetic wraps a number into the range**: one with a minus
sign, or one whose product with the factor of its suffix exceeds 64 bits. -/
theorem parse_size_exact_iff (v : Bytes) :
    Exact v ↔ ∀ neg ds unit, Spells v neg ds unit → decimalValue ds < 2 ^ 64 →
      if neg then 2 ^ 32 ≤ (2 ^ 64 - decimalValue ds) * unit % 2 ^ 64
      else 2 ^ 32 ≤ decimalValue ds * unit → 2 ^ 32 ≤ decimalValue ds * unit % 2 ^ 64 := by
  have hUnique : ∀ {neg ds unit neg' ds' unit'}, Spells v neg ds unit → Spells v neg' ds' unit' →
      neg = neg' ∧ ds = ds' ∧ unit = unit' := by
    intro neg ds unit neg' ds' unit' h h'
    have hEq := (parts_eq_iff.mp h).2.symm.trans (parts_eq_iff.mp h').2
    simp only [Prod.mk.injEq, and_true] at hEq
    exact hEq
  constructor
  · intro hExact neg ds unit hSpells hSmall
    -- whatever the source stores is the number as it is spelled
    have hOut : stored neg (decimalValue ds) unit < 2 ^ 32 → neg = false ∧
        decimalValue ds * unit = stored neg (decimalValue ds) unit := by
      intro hFits
      obtain ⟨ds', unit', hPlain, hEq, -⟩ :=
        (hExact _).mp (parseSize_eq_some.mpr ⟨neg, ds, unit, hSpells, rfl, hFits⟩)
      obtain ⟨rfl, rfl, rfl⟩ := hUnique hSpells hPlain
      exact ⟨rfl, hEq⟩
    rw [stored_of_lt hSmall] at hOut
    by_contra hNot
    cases neg with
    | true => exact absurd (hOut (by simpa using hNot)).1 (by decide)
    | false =>
      simp only [Bool.false_eq_true, if_false] at hNot hOut
      have := (hOut (by omega)).2
      omega
  · intro hHarmless out
    rw [parseSize_eq_some]
    constructor
    · rintro ⟨neg, ds, unit, hSpells, rfl, hFits⟩
      have hSmall : decimalValue ds < 2 ^ 64 := by
        by_contra hLarge
        exact absurd (stored_of_le hSpells (Nat.not_lt.mp hLarge)) (by omega)
      have hClear := hHarmless neg ds unit hSpells hSmall
      rw [stored_of_lt hSmall] at hFits ⊢
      cases neg with
      | true => simp only [if_true] at hClear hFits; omega
      | false =>
        simp only [Bool.false_eq_true, if_false] at hClear hFits ⊢
        have hValue : decimalValue ds * unit % 2 ^ 64 = decimalValue ds * unit := by omega
        exact ⟨ds, unit, hSpells, hValue.symm, by omega⟩
    · rintro ⟨ds, unit, hSpells, rfl, hFits⟩
      refine ⟨false, ds, unit, hSpells, ?_, by omega⟩
      have hSmall : decimalValue ds < 2 ^ 64 := by
        rcases hSpells.factor with rfl | rfl | rfl <;> omega
      rw [stored_of_lt hSmall]
      exact Nat.mod_eq_of_lt (by simp; omega)

theorem parse_size_wraps :
    (parseSize (ascii "18014398509481984k") = some 0 ∧ ¬ Exact (ascii "18014398509481984k")) ∧
      parseSize (ascii "-18446744073709551615") = some 1 ∧
      ¬ Exact (ascii "-18446744073709551615") := by
  refine ⟨⟨by decide +kernel, fun hExact => ?_⟩, by decide +kernel, fun hExact => ?_⟩
  · obtain ⟨ds, unit, hSpells, hEq, -⟩ := (hExact 0).mp (by decide +kernel)
    have hParts : parts (ascii "18014398509481984k") =
        (false, ascii "18014398509481984", 1024, []) := by decide +kernel
    obtain ⟨-, rfl, rfl, -⟩ := (parts_eq_iff.mp hSpells).2.symm.trans hParts
    exact absurd hEq (by decide +kernel)
  · obtain ⟨ds, unit, hSpells, -⟩ := (hExact 1).mp (by decide +kernel)
    have hMinus : (parts (ascii "-18446744073709551615")).1 = true := by decide +kernel
    rw [(parts_eq_iff.mp hSpells).2] at hMinus
    cases hMinus

end BeaverMQ.Config
