import BeaverMQ.Model.Broker
import Mathlib.Data.List.Infix

/-!
# BeaverMQ — topic patterns

`exchange_topic_match` splits pattern and key at the dots and walks over the words with a table
of the answers it has. Here the table is modelled cell by cell: an index that overflows an `int`
or leaves the table is a fault.
-/

namespace BeaverMQ

open List

/-! ## The matcher with its table -/

/-- `memo`: a cell is empty or has an answer. -/
abbrev Memo := List (Option Bool)

/-- What `match_tokens` does at `memo[pi * (nk + 1) + ki]`: answer from the cell, or work the
answer out and store it. `none` is a fault: the index overflows, or leaves the table. -/
def Memo.recall (memo : Memo) (nk pi ki : Nat) (body : Memo → Option (Bool × Memo)) :
    Option (Bool × Memo) :=
  let slot := pi * (nk + 1) + ki
  if 2 ^ 31 ≤ slot then none
  else match memo[slot]? with
    | none => none
    | some (some r) => some (r, memo)
    | some none => (body memo).map fun (r, memo) => (r, memo.set slot (some r))

/-- The loop for `#`: the rest of the pattern at each of the next `n` places, until it matches. -/
def searchFrom (test : Nat → Memo → Option (Bool × Memo)) : Nat → Nat → Memo →
    Option (Bool × Memo)
  | 0, _, memo => some (false, memo)
  | n + 1, k, memo => do
    let (r, memo) ← test k memo
    if r then return (true, memo) else searchFrom test n (k + 1) memo

/-- `match_tokens` for the last words of a pattern of `np` words; the source has the place `pi` of
the first of them. -/
def matchMemo (key : List Bytes) (np : Nat) : List Bytes → Nat → Memo → Option (Bool × Memo)
  | [], ki, memo => memo.recall key.length np ki fun memo => some (ki = key.length, memo)
  | p :: rest, ki, memo => memo.recall key.length (np - (rest.length + 1)) ki fun memo =>
    if p = [35] then searchFrom (matchMemo key np rest) (key.length + 1 - ki) ki memo
    else match key[ki]? with
      | none => some (false, memo)
      | some w =>
        if p = [42] ∨ p = w then matchMemo key np rest (ki + 1) memo else some (false, memo)

/-- `exchange_topic_match` with its table; `none` is a fault. -/
def topicMatch (pattern key : Bytes) : Option Bool :=
  let pw := splitWords pattern
  let kw := splitWords key
  (matchMemo kw pw.length pw 0 (replicate ((pw.length + 1) * (kw.length + 1)) none)).map
    Prod.fst

/-! ## The table -/

/-- The table has its size, and each answer in it is that of the walk without a table. -/
structure Filled (pat key : List Bytes) (memo : Memo) : Prop where
  length : memo.length = (pat.length + 1) * (key.length + 1)
  right : ∀ pi ki r, ki ≤ key.length → memo[pi * (key.length + 1) + ki]? = some (some r) →
    r = matchTokens (pat.drop pi) (key.drop ki)

variable {pat key : List Bytes} {memo : Memo}

theorem cell_lt (pat key : List Bytes) {pi ki : Nat} (hpi : pi ≤ pat.length)
    (hki : ki ≤ key.length) : pi * (key.length + 1) + ki < (pat.length + 1) * (key.length + 1) := by
  have hRow := Nat.mul_le_mul_right (key.length + 1) hpi
  rw [Nat.add_mul]
  omega

theorem Filled.set (h : Filled pat key memo) (pi : Nat) {ki : Nat} (hki : ki ≤ key.length)
    {r : Bool} (hr : r = matchTokens (pat.drop pi) (key.drop ki)) :
    Filled pat key (memo.set (pi * (key.length + 1) + ki) (some r)) where
  length := by rw [length_set, h.length]
  right pi' ki' r' hki' hCell := by
    -- the columns stop short of the next row, so the index determines both
    by_cases hSame : pi * (key.length + 1) + ki = pi' * (key.length + 1) + ki'
    · have hRow : pi = pi' := by
        have hDiv := congrArg (· / (key.length + 1)) hSame
        simpa [Nat.mul_add_div (Nat.succ_pos _), Nat.mul_comm _ (key.length + 1),
          Nat.div_eq_of_lt (Nat.lt_succ_of_le hki), Nat.div_eq_of_lt (Nat.lt_succ_of_le hki')]
          using hDiv
      subst hRow
      obtain rfl : ki = ki' := by omega
      rw [getElem?_set_self'] at hCell
      cases hOld : memo[pi * (key.length + 1) + ki]? with
      | none => rw [hOld] at hCell; exact absurd hCell (by simp)
      | some c =>
        rw [hOld] at hCell
        have hEq : r = r' := by simpa using hCell
        rw [← hEq, hr]
    · rw [getElem?_set_ne hSame] at hCell
      exact h.right pi' ki' r' hki' hCell

theorem filled_empty :
    Filled pat key (replicate ((pat.length + 1) * (key.length + 1)) none) where
  length := length_replicate
  right pi ki r _ hCell := by
    have hEmpty := eq_of_mem_replicate (mem_of_getElem? hCell)
    exact absurd hEmpty (by simp)

/-- What a call owes: the answer `r`, and a table as good as the one it got. -/
def Gives (pat key : List Bytes) (out : Option (Bool × Memo)) (r : Bool) : Prop :=
  ∃ memo, out = some (r, memo) ∧ Filled pat key memo

theorem tails_drop (key : List Bytes) {k : Nat} (hk : k ≤ key.length) :
    (key.drop k).tails = (List.range' k (key.length + 1 - k)).map key.drop := by
  apply ext_getElem
  · simp only [length_tails, length_drop, length_map, length_range']
    omega
  · intro i _ _
    simp [drop_drop]

theorem searchFrom_gives {test : Nat → Memo → Option (Bool × Memo)} {ans : Nat → Bool} (hi : Nat)
    (hTest : ∀ k memo, k < hi → Filled pat key memo → Gives pat key (test k memo) (ans k)) :
    ∀ n k memo, k + n ≤ hi → Filled pat key memo →
      Gives pat key (searchFrom test n k memo) ((List.range' k n).any ans) := by
  intro n
  induction n with
  | zero => exact fun k memo _ h => ⟨memo, rfl, h⟩
  | succ n ih =>
    intro k memo hn h
    obtain ⟨memo₁, hOut, h₁⟩ := hTest k memo (by omega) h
    rw [range'_succ, any_cons, searchFrom, hOut]
    cases hAns : ans k with
    | true => exact ⟨memo₁, rfl, h₁⟩
    | false => exact ih (k + 1) memo₁ (by omega) h₁

theorem Filled.recall (h : Filled pat key memo)
    (hFit : (pat.length + 1) * (key.length + 1) < 2 ^ 31) {pi ki : Nat} (hpi : pi ≤ pat.length)
    (hki : ki ≤ key.length) (body : Memo → Option (Bool × Memo))
    (hBody : Gives pat key (body memo) (matchTokens (pat.drop pi) (key.drop ki))) :
    Gives pat key (memo.recall key.length pi ki body)
      (matchTokens (pat.drop pi) (key.drop ki)) := by
  have hLt := cell_lt pat key hpi hki
  have hGuard : ¬ 2 ^ 31 ≤ pi * (key.length + 1) + ki := by omega
  cases hCell : memo[pi * (key.length + 1) + ki]? with
  | none => rw [getElem?_eq_none_iff, h.length] at hCell; omega
  | some c =>
    cases c with
    | some r =>
      have hr := h.right pi ki r hki hCell
      exact ⟨memo, by simp only [Memo.recall, if_neg hGuard, hCell, hr], h⟩
    | none =>
      obtain ⟨memo₁, hOut, h₁⟩ := hBody
      refine ⟨_, ?_, h₁.set pi hki rfl⟩
      simp only [Memo.recall, if_neg hGuard, hCell, hOut, Option.map_some]

/-- The memo holds the answers for the suffixes, as long as its index does not overflow. -/
theorem matchMemo_eq (hFit : (pat.length + 1) * (key.length + 1) < 2 ^ 31) :
    ∀ suf, suf <:+ pat → ∀ ki memo, ki ≤ key.length → Filled pat key memo →
      Gives pat key (matchMemo key pat.length suf ki memo) (matchTokens suf (key.drop ki)) := by
  intro suf
  induction suf with
  | nil =>
    intro _ ki memo hki h
    have hEnd : matchTokens (pat.drop pat.length) (key.drop ki) = decide (ki = key.length) := by
      rw [drop_length, matchTokens, Bool.eq_iff_iff]
      simp only [List.isEmpty_iff, drop_eq_nil_iff, decide_eq_true_eq]
      omega
    have hGives := h.recall hFit (Nat.le_refl pat.length) hki
      (fun memo => some (decide (ki = key.length), memo)) ⟨memo, by rw [hEnd], h⟩
    rwa [drop_length] at hGives
  | cons p rest ih =>
    intro hSuf ki memo hki h
    have hDrop := (suffix_iff_eq_drop.mp hSuf).symm
    have hRest := ih ((suffix_cons p rest).trans hSuf)
    rw [length_cons] at hDrop
    rw [matchMemo, ← hDrop]
    refine h.recall hFit (Nat.sub_le _ _) hki _ ?_
    rw [hDrop, matchTokens.eq_def]
    dsimp only
    split
    · -- `#`: each place from `ki` on up to the end of the key
      rw [tails_drop key hki, any_map]
      exact searchFrom_gives (key.length + 1)
        (fun k memo hk hFilled => hRest k memo (by omega) hFilled) _ ki memo (by omega) h
    cases hKey : key[ki]? with
    | none =>
      rw [drop_eq_nil_of_le (getElem?_eq_none_iff.mp hKey)]
      exact ⟨memo, rfl, h⟩
    | some w =>
      obtain ⟨hLt, rfl⟩ := List.getElem?_eq_some_iff.mp hKey
      rw [drop_eq_getElem_cons hLt]
      dsimp only
      rw [← Bool.decide_or]
      by_cases hWord : p = [42] ∨ p = key[ki]
      · rw [if_pos hWord, decide_eq_true hWord]
        exact hRest (ki + 1) memo hLt h
      · rw [if_neg hWord, decide_eq_false hWord]
        exact ⟨memo, rfl, h⟩

/-! ## What the patterns mean -/

/-- What a word of a pattern may stand for: `#` for any words, `*` for one, another for itself. -/
def StandsFor (p : Bytes) (part : List Bytes) : Prop :=
  if p = [35] then True else if p = [42] then part.length = 1 else part = [p]

theorem standsFor_word {p : Bytes} (hp : p ≠ [35]) {part : List Bytes} :
    StandsFor p part ↔ ∃ w, part = [w] ∧ (p = [42] ∨ p = w) := by
  rw [StandsFor, if_neg hp]
  split
  · rename_i hStar
    simp only [length_eq_one_iff, hStar, true_or, and_true]
  rename_i hStar
  constructor
  · exact fun h => ⟨p, h, .inr rfl⟩
  · rintro ⟨w, rfl, h | rfl⟩
    · exact absurd h hStar
    · rfl

/-- A pattern matches if its words stand for parts of the key, one after the other. -/
theorem matchTokens_iff (pat key : List Bytes) : matchTokens pat key = true ↔
    ∃ parts, List.Forall₂ StandsFor pat parts ∧ parts.flatten = key := by
  induction pat generalizing key with
  | nil =>
    simp only [matchTokens, List.isEmpty_iff, List.forall₂_nil_left_iff, exists_eq_left,
      flatten_nil]
    exact eq_comm
  | cons p pat ih =>
    -- a word of the pattern takes its part from the front, the rest of the pattern the others
    have hStep : (∃ parts, List.Forall₂ StandsFor (p :: pat) parts ∧ parts.flatten = key) ↔
        ∃ part rest, part ++ rest = key ∧ StandsFor p part ∧ matchTokens pat rest = true := by
      constructor
      · rintro ⟨_, hAll, rfl⟩
        obtain ⟨part, parts, hPart, hParts, rfl⟩ := List.forall₂_cons_left_iff.mp hAll
        exact ⟨part, parts.flatten, rfl, hPart, (ih _).mpr ⟨parts, hParts, rfl⟩⟩
      · rintro ⟨part, rest, rfl, hPart, hRest⟩
        obtain ⟨parts, hParts, rfl⟩ := (ih rest).mp hRest
        exact ⟨part :: parts, .cons hPart hParts, rfl⟩
    rw [hStep, matchTokens.eq_def]
    dsimp only
    by_cases hp : p = [35]
    · simp only [if_pos hp, any_eq_true, mem_tails, StandsFor, true_and]
      exact ⟨fun ⟨rest, ⟨part, h⟩, hRest⟩ => ⟨part, rest, h, hRest⟩,
        fun ⟨part, rest, h, hRest⟩ => ⟨rest, ⟨part, h⟩, hRest⟩⟩
    simp only [if_neg hp, standsFor_word hp]
    cases key with
    | nil => simp
    | cons w ws =>
      simp only [Bool.and_eq_true, Bool.or_eq_true, decide_eq_true_eq]
      constructor
      · exact fun ⟨hWord, hRest⟩ => ⟨[w], ws, rfl, ⟨w, rfl, hWord⟩, hRest⟩
      · rintro ⟨_, rest, hKey, ⟨v, rfl, hWord⟩, hRest⟩
        obtain ⟨rfl, rfl⟩ := List.cons.inj hKey
        exact ⟨hWord, hRest⟩

theorem splitWords_eq (s : Bytes) : splitWords s = s.splitOn 46 := by
  induction s with
  | nil => rfl
  | cons c s ih =>
    rw [splitWords, ih, splitOn_cons_eq_if_modifyHead]
    cases hWords : s.splitOn 46 with
    | nil => exact absurd hWords (splitOn_ne_nil 46 s)
    | cons w ws => simp only [beq_iff_eq, modifyHead_cons]

theorem topicMatch_eq {p k : Bytes}
    (hFit : ((splitWords p).length + 1) * ((splitWords k).length + 1) < 2 ^ 31) :
    topicMatch p k = some (exchangeTopicMatch p k) := by
  obtain ⟨memo, hOut, -⟩ := matchMemo_eq hFit _ (suffix_refl _) 0 _ (Nat.zero_le _)
    filled_empty
  simp only [topicMatch, hOut, Option.map_some, drop_zero, exchangeTopicMatch]

/-- `exchange_topic_match` answers that the key fits the pattern exactly if the words of the key
come from those of the pattern by a replacement of its wildcards. -/
theorem topic_match_iff (p k : Bytes)
    (hFit : ((p.splitOn 46).length + 1) * ((k.splitOn 46).length + 1) < 2 ^ 31) :
    ∃ r, topicMatch p k = some r ∧
      (r = true ↔ ∃ parts, List.Forall₂ StandsFor (p.splitOn 46) parts ∧
        parts.flatten = k.splitOn 46) := by
  rw [← splitWords_eq, ← splitWords_eq] at hFit ⊢
  exact ⟨_, topicMatch_eq hFit, matchTokens_iff _ _⟩

/-- `a.#.b` and `a.x..b`. -/
theorem topic_match_gap : ∃ r, topicMatch [97, 46, 35, 46, 98] [97, 46, 120, 46, 46, 98] = some r ∧
    (r = true ↔ ∃ parts, List.Forall₂ StandsFor (List.splitOn 46 [97, 46, 35, 46, 98]) parts ∧
      parts.flatten = List.splitOn 46 [97, 46, 120, 46, 46, 98]) :=
  topic_match_iff _ _ (by decide +kernel)

end BeaverMQ
