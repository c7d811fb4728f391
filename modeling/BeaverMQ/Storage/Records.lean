import BeaverMQ.Model.Wal

/-!
# BeaverMQ — reading WAL records back

`persist_load` reads the log file record by record. What it sees is the byte string of
the file from the base offset on, so the loop is restated over byte strings
(`parseRecords`) and then over the strings the node writes: encoded records, followed by
zeros, the last record possibly torn.
-/

namespace BeaverMQ

open Bytes List

/-! ## The bytes of a file -/

theorem LogFile.content_length (f : LogFile) : f.content.length = f.size := by
  have hBound := f.bound
  unfold LogFile.content
  rw [length_append, length_replicate]
  omega

theorem LogFile.pread_eq (f : LogFile) (off len : Nat) :
    f.pread off len = (f.content.drop off).take len := by
  have hBound := f.bound
  have hGot : (f.data.drop off).take (min len (f.size - off)) = (f.data.drop off).take len := by
    by_cases hLen : len ≤ f.size - off
    · rw [Nat.min_eq_left hLen]
    · rw [Nat.min_eq_right (by omega), take_of_length_le, take_of_length_le] <;>
        rw [length_drop] <;> omega
  unfold LogFile.pread LogFile.content
  dsimp only
  rw [hGot, drop_append, take_append, drop_replicate, take_replicate]
  congr 2
  simp only [length_take, length_drop]
  omega

/-! ## The read loop over byte strings -/

/-- `readRecord` over the bytes from the record's offset on. -/
def parseRecord (index : Nat) (bs : Bytes) : Option Entry :=
  if bs.length < clRecHdr then none
  else
    let len := beVal ((bs.drop 20).take 4)
    if clusterMaxPayload < len ∨ beVal ((bs.drop 8).take 8) ≠ index then none
    else if bs.length < clRecHdr + len then none
    else some { term := beVal (bs.take 8), op := beVal ((bs.drop 16).take 4)
                payload := (bs.drop clRecHdr).take len }

def parseRecords : Nat → Nat → Bytes → List Entry
  | 0, _, _ => []
  | fuel + 1, index, bs =>
    match parseRecord index bs with
    | none => []
    | some e => e :: parseRecords fuel (index + 1) (bs.drop (recSize e))

/-- Reading at an offset is parsing what the file holds from there. -/
theorem readRecord_eq (f : LogFile) (index off : Nat) :
    readRecord f index off = parseRecord index (f.content.drop off) := by
  set bs := f.content.drop off with hbs
  have hHdr : f.pread off clRecHdr = bs.take clRecHdr := by rw [LogFile.pread_eq]
  have hPay : ∀ len, f.pread (off + clRecHdr) len = (bs.drop clRecHdr).take len := by
    intro len
    rw [LogFile.pread_eq, hbs, drop_drop]
  unfold readRecord parseRecord
  rw [hHdr]
  by_cases hShort : bs.length < clRecHdr
  · rw [if_pos (by rw [length_take]; omega), if_pos hShort]
  rw [if_neg (by rw [length_take]; omega), if_neg hShort]
  -- the header fields lie inside the first 24 bytes
  have hField : ∀ a b, a + b ≤ clRecHdr → ((bs.take clRecHdr).drop a).take b =
      (bs.drop a).take b := by
    intro a b hab
    rw [drop_take, take_take, Nat.min_eq_left (by omega)]
  have hFirst : (bs.take clRecHdr).take 8 = bs.take 8 := by
    rw [take_take]
    rfl
  rw [hField 8 8 (by decide), hField 16 4 (by decide), hField 20 4 (by decide), hFirst]
  dsimp only
  by_cases hBad : clusterMaxPayload < beVal ((bs.drop 20).take 4) ∨
      beVal ((bs.drop 8).take 8) ≠ index
  · rw [if_pos (by simpa using hBad), if_pos hBad]
  rw [if_neg (by simpa using hBad), if_neg hBad, hPay]
  by_cases hTorn : bs.length < clRecHdr + beVal ((bs.drop 20).take 4)
  · rw [if_pos (by rw [length_take, length_drop]; omega), if_pos hTorn]
  · rw [if_neg (by rw [length_take, length_drop]; omega), if_neg hTorn]

theorem readRecords_eq (f : LogFile) (fuel index off : Nat) :
    readRecords f fuel index off = parseRecords fuel index (f.content.drop off) := by
  induction fuel generalizing index off with
  | zero => rfl
  | succ fuel ih =>
    unfold readRecords parseRecords
    rw [readRecord_eq]
    cases parseRecord index (f.content.drop off) with
    | none => rfl
    | some e =>
      dsimp only
      rw [ih, drop_drop]

/-- **What `persist_load` finds depends on the bytes from the base offset on.** -/
theorem recoverEntries_eq (f : LogFile) (baseIndex baseOffset : Nat) :
    recoverEntries f baseIndex baseOffset =
      parseRecords (f.size + 1) (baseIndex + 1) (f.content.drop baseOffset) :=
  readRecords_eq f _ _ _

/-! ## Records that were written whole -/

/-- The fields fit their C types. -/
structure Entry.Typed (e : Entry) : Prop where
  term : e.term < 2 ^ 64
  op : e.op < 2 ^ 32
  len : e.len < 2 ^ 32

def Entry.Short (e : Entry) : Prop := e.len ≤ clusterMaxPayload

instance (e : Entry) : Decidable e.Short := inferInstanceAs (Decidable (_ ≤ _))

theorem encRecord_length (index : Nat) (e : Entry) : (encRecord index e).length = recSize e := by
  simp only [encRecord, length_append, beBytes_length, recSize, clRecHdr, Entry.len]

theorem encRecords_append (index : Nat) (xs ys : List Entry) :
    encRecords index (xs ++ ys) = encRecords index xs ++ encRecords (index + xs.length) ys := by
  induction xs generalizing index with
  | nil => simp [encRecords]
  | cons x xs ih =>
    rw [cons_append, encRecords, encRecords, ih, append_assoc, length_cons]
    congr 3
    omega

theorem recsSize_append (xs ys : List Entry) : recsSize (xs ++ ys) = recsSize xs + recsSize ys := by
  simp [recsSize]

@[simp] theorem recsSize_nil : recsSize [] = 0 := rfl

@[simp] theorem recsSize_cons (e : Entry) (es : List Entry) :
    recsSize (e :: es) = recSize e + recsSize es := by
  simp [recsSize]

theorem encRecords_length (index : Nat) (es : List Entry) :
    (encRecords index es).length = recsSize es := by
  induction es generalizing index with
  | nil => rfl
  | cons e es ih => rw [encRecords, length_append, encRecord_length, ih, recsSize_cons]

theorem length_le_recsSize (es : List Entry) : es.length ≤ recsSize es := by
  induction es with
  | nil => exact Nat.le_refl _
  | cons e es ih =>
    rw [length_cons, recsSize_cons, recSize, clRecHdr]
    omega

section Header

variable {T I O L : Bytes} (rest : Bytes) (hT : T.length = 8) (hI : I.length = 8)
  (hO : O.length = 4) (hL : L.length = 4)
include hT hI hO hL

theorem header_fields :
    (T ++ I ++ O ++ L ++ rest).take 8 = T ∧ ((T ++ I ++ O ++ L ++ rest).drop 8).take 8 = I ∧
      ((T ++ I ++ O ++ L ++ rest).drop 16).take 4 = O ∧
      ((T ++ I ++ O ++ L ++ rest).drop 20).take 4 = L ∧
      (T ++ I ++ O ++ L ++ rest).drop clRecHdr = rest ∧
      (T ++ I ++ O ++ L ++ rest).length = clRecHdr + rest.length := by
  have hSkip : ∀ {xs ys : Bytes} {k : Nat} (n : Nat), xs.length = k →
      (xs ++ ys).drop (k + n) = ys.drop n := by
    intro xs ys k n hk
    rw [← hk]
    exact drop_length_add_append n
  rw [append_assoc, append_assoc, append_assoc]
  refine ⟨take_left' hT, ?_, ?_, ?_, ?_, ?_⟩
  · rw [hSkip 0 hT]
    exact take_left' hI
  · rw [hSkip 8 hT, hSkip 0 hI]
    exact take_left' hO
  · rw [hSkip 12 hT, hSkip 4 hI, hSkip 0 hO]
    exact take_left' hL
  · rw [clRecHdr, hSkip 16 hT, hSkip 8 hI, hSkip 4 hO, hSkip 0 hL]
    rfl
  · simp only [length_append, hT, hI, hO, hL, clRecHdr]
    omega

theorem parseRecord_fields (index : Nat) :
    parseRecord index (T ++ I ++ O ++ L ++ rest) =
      if clusterMaxPayload < beVal L ∨ beVal I ≠ index then none
      else if rest.length < beVal L then none
      else some { term := beVal T, op := beVal O, payload := rest.take (beVal L) } := by
  obtain ⟨hTake, hIdx, hOp, hLen, hRest, hAll⟩ := header_fields rest hT hI hO hL
  unfold parseRecord
  rw [hTake, hIdx, hOp, hLen, hRest, hAll, if_neg (by omega)]
  dsimp only
  congr 1
  simp only [Nat.add_lt_add_iff_left]

end Header

theorem parseRecord_encRecord {index : Nat} {e : Entry} (hIndex : index < 2 ^ 64)
    (hTyped : e.Typed) (rest : Bytes) :
    parseRecord index (encRecord index e ++ rest) = if e.Short then some e else none := by
  have hTerm : beVal (beBytes 8 e.term) = e.term := beVal_beBytes_of_lt hTyped.term
  have hIdx : beVal (beBytes 8 index) = index := beVal_beBytes_of_lt hIndex
  have hOp : beVal (beBytes 4 e.op) = e.op := beVal_beBytes_of_lt hTyped.op
  have hLen : beVal (beBytes 4 e.len) = e.len := beVal_beBytes_of_lt hTyped.len
  unfold encRecord
  rw [append_assoc _ e.payload rest, parseRecord_fields (e.payload ++ rest)
    (beBytes_length 8 _) (beBytes_length 8 _) (beBytes_length 4 _) (beBytes_length 4 _) index,
    hTerm, hIdx, hOp, hLen]
  by_cases hShort : e.Short
  · have hNot : ¬ clusterMaxPayload < e.len := Nat.not_lt.mpr hShort
    have hRoom : ¬ (e.payload ++ rest).length < e.len := by
      rw [length_append, Entry.len]
      omega
    have hPay : (e.payload ++ rest).take e.len = e.payload := by
      rw [Entry.len, take_left]
    rw [if_neg (by simpa using hNot), if_neg hRoom, hPay, if_pos hShort]
  · have hLong : clusterMaxPayload < e.len := Nat.lt_of_not_le hShort
    rw [if_pos (.inl hLong), if_neg hShort]

theorem parseRecord_zeros {index : Nat} (hPos : 0 < index) (k : Nat) :
    parseRecord index (replicate k 0) = none := by
  unfold parseRecord
  split
  · rfl
  have hIdx : beVal (((replicate k (0 : UInt8)).drop 8).take 8) ≠ index := by
    rw [drop_replicate, take_replicate, beVal_replicate_zero]
    omega
  dsimp only
  rw [if_pos (.inr hIdx)]

theorem parseRecords_zeros {index : Nat} (hPos : 0 < index) (fuel k : Nat) :
    parseRecords fuel index (replicate k 0) = [] := by
  cases fuel with
  | zero => rfl
  | succ fuel =>
    unfold parseRecords
    rw [parseRecord_zeros hPos]

/-- **Records that were written whole are read back**, up to the first over-long one. -/
theorem parseRecords_encRecords {index fuel : Nat} {es : List Entry} (hTyped : ∀ e ∈ es, e.Typed)
    (hIndex : index + es.length < 2 ^ 64) (rest : Bytes) (hFuel : es.length ≤ fuel) :
    parseRecords fuel index (encRecords index es ++ rest) =
      if ∀ e ∈ es, e.Short then es ++ parseRecords (fuel - es.length) (index + es.length) rest
      else es.takeWhile (fun e => decide e.Short) := by
  induction es generalizing index fuel with
  | nil => simp [encRecords]
  | cons e es ih =>
    obtain ⟨fuel, rfl⟩ : ∃ k, fuel = k + 1 := ⟨fuel - 1, by simp at hFuel; omega⟩
    rw [length_cons] at hIndex hFuel
    have hHead := parseRecord_encRecord (show index < 2 ^ 64 by omega)
      (hTyped e mem_cons_self) (encRecords (index + 1) es ++ rest)
    rw [encRecords, append_assoc, parseRecords, hHead]
    by_cases hShort : e.Short
    · rw [if_pos hShort]
      have hDrop : (encRecord index e ++ (encRecords (index + 1) es ++ rest)).drop (recSize e) =
          encRecords (index + 1) es ++ rest := by
        rw [← encRecord_length index e, drop_left]
      dsimp only
      rw [hDrop, ih (fun x hx => hTyped x (mem_cons_of_mem _ hx)) (by omega) (by omega)]
      by_cases hAll : ∀ x ∈ es, x.Short
      · have hAll' : ∀ x ∈ e :: es, x.Short := forall_mem_cons.mpr ⟨hShort, hAll⟩
        rw [if_pos hAll, if_pos hAll', cons_append, length_cons]
        congr 3 <;> omega
      have hAll' : ¬ ∀ x ∈ e :: es, x.Short :=
        fun h => hAll (forall_mem_cons.mp h).2
      rw [if_neg hAll, if_neg hAll', takeWhile_cons, if_pos (by simpa using hShort)]
    · have hAll' : ¬ ∀ x ∈ e :: es, x.Short := fun h => hShort (forall_mem_cons.mp h).1
      rw [if_neg hShort, if_neg hAll', takeWhile_cons, if_neg (by simpa using hShort)]

/-! ## Torn records -/

/-- When a record that lost everything from byte `j` on, zeros taking its place, does no harm:
a byte of its index is lost that was not zero, or nothing but zeros is lost, or the length
that is left of it is over `CLUSTER_MAX_PAYLOAD`. -/
def TornOk (index : Nat) (e : Entry) (j : Nat) : Prop :=
  (∃ b ∈ ((encRecord index e).take 16).drop j, b ≠ 0) ∨
    (∀ b ∈ (encRecord index e).drop j, b = 0) ∨
    clusterMaxPayload < beVal (((zeroFrom j (encRecord index e)).drop 20).take 4)

instance (index : Nat) (e : Entry) (j : Nat) : Decidable (TornOk index e j) :=
  inferInstanceAs (Decidable (_ ∨ _ ∨ _))

theorem zeroFrom_encRecord (index : Nat) (e : Entry) (j : Nat) :
    zeroFrom j (encRecord index e) =
      zeroFrom j (beBytes 8 e.term) ++ zeroFrom (j - 8) (beBytes 8 index) ++
        zeroFrom (j - 16) (beBytes 4 e.op) ++ zeroFrom (j - 20) (beBytes 4 e.len) ++
        zeroFrom (j - 24) e.payload := by
  unfold encRecord
  rw [zeroFrom_append, zeroFrom_append, zeroFrom_append, zeroFrom_append]
  simp only [length_append, beBytes_length]

section Torn

variable {index j k : Nat} {e : Entry}

theorem parseRecord_torn (hTyped : e.Typed) :
    parseRecord index (zeroFrom j (encRecord index e) ++ replicate k 0) =
      if clusterMaxPayload < beVal (zeroFrom (j - 20) (beBytes 4 e.len)) ∨
          beVal (zeroFrom (j - 8) (beBytes 8 index)) ≠ index then none
      else some { term := beVal (zeroFrom j (beBytes 8 e.term))
                  op := beVal (zeroFrom (j - 16) (beBytes 4 e.op))
                  payload := (zeroFrom (j - 24) e.payload).take
                    (beVal (zeroFrom (j - 20) (beBytes 4 e.len))) } := by
  have hLe : beVal (zeroFrom (j - 20) (beBytes 4 e.len)) ≤ (zeroFrom (j - 24) e.payload).length := by
    calc beVal (zeroFrom (j - 20) (beBytes 4 e.len)) ≤ beVal (beBytes 4 e.len) :=
          beVal_zeroFrom_le _ _
      _ = e.len := beVal_beBytes_of_lt hTyped.len
      _ = (zeroFrom (j - 24) e.payload).length := (zeroFrom_length _ _).symm
  rw [zeroFrom_encRecord, append_assoc, parseRecord_fields _ (by simp) (by simp)
    (by simp) (by simp) index]
  congr 1
  rw [if_neg (by rw [length_append]; omega), take_append_of_le_length hLe]

theorem torn_length_field : ((zeroFrom j (encRecord index e)).drop 20).take 4 =
    zeroFrom (j - 20) (beBytes 4 e.len) := by
  rw [zeroFrom_encRecord]
  exact (header_fields _ (by simp) (by simp) (by simp) (by simp)).2.2.2.1

/-- The index of a torn record is right exactly when no byte of it that is not zero is lost. -/
theorem torn_index_iff (hPos : 0 < index) (hIndex : index < 2 ^ 64) :
    beVal (zeroFrom (j - 8) (beBytes 8 index)) = index ↔
      ∀ b ∈ ((encRecord index e).take 16).drop j, b = 0 := by
  have hVal : beVal (beBytes 8 index) = index := beVal_beBytes_of_lt hIndex
  have hTake : (encRecord index e).take 16 = beBytes 8 e.term ++ beBytes 8 index := by
    unfold encRecord
    rw [append_assoc, append_assoc, take_append_of_le_length (by simp),
      take_of_length_le (by simp)]
  have hEq : beVal (zeroFrom (j - 8) (beBytes 8 index)) = index ↔
      ∀ b ∈ (beBytes 8 index).drop (j - 8), b = 0 := by
    rw [← zeroFrom_eq_iff]
    constructor
    · intro h
      exact beVal_inj (by simp) (h.trans hVal.symm)
    · intro h
      rw [h, hVal]
  rw [hEq, hTake, drop_append, beBytes_length]
  constructor
  · intro hLost b hb
    rcases mem_append.mp hb with hb | hb
    · -- a lost term byte means that the whole index is lost, which is not zero
      have hj : j < 8 := by
        by_contra hj
        rw [drop_eq_nil_of_le (by rw [beBytes_length]; omega)] at hb
        cases hb
      have hZero : zeroFrom 0 (beBytes 8 index) = beBytes 8 index := by
        rw [zeroFrom_eq_iff]
        rwa [Nat.sub_eq_zero_of_le hj.le] at hLost
      have hNull : beVal (zeroFrom 0 (beBytes 8 index)) = 0 := by
        rw [zeroFrom, take_zero, nil_append, beVal_replicate_zero]
      rw [hZero, hVal] at hNull
      omega
    · exact hLost b hb
  · exact fun hLost b hb => hLost b (mem_append_right _ hb)

theorem zeroFrom_of_beVal {w v : Nat} (hv : v < 256 ^ w)
    (hVal : beVal (zeroFrom j (beBytes w v)) = v) : zeroFrom j (beBytes w v) = beBytes w v := by
  refine beVal_inj (by simp) ?_
  rw [hVal, beVal_beBytes_of_lt hv]

/-- **A torn record is either refused or read as it was written exactly when it is harmless.** -/
theorem parseRecord_torn_iff (hTyped : e.Typed) (hPos : 0 < index) (hIndex : index < 2 ^ 64) :
    (∀ x, parseRecord index (zeroFrom j (encRecord index e) ++ replicate k 0) = some x →
      x = e) ↔ TornOk index e j := by
  have hIdx := torn_index_iff (e := e) (j := j) hPos hIndex
  rw [parseRecord_torn hTyped]
  unfold TornOk
  rw [torn_length_field]
  by_cases hLong : clusterMaxPayload < beVal (zeroFrom (j - 20) (beBytes 4 e.len))
  · simp [hLong]
  by_cases hIndexOk : beVal (zeroFrom (j - 8) (beBytes 8 index)) = index
  · have hNone : ¬ ∃ b ∈ ((encRecord index e).take 16).drop j, b ≠ 0 := by
      rintro ⟨b, hb, hne⟩
      exact hne (hIdx.mp hIndexOk b hb)
    rw [if_neg (by simp [hLong, hIndexOk])]
    simp only [Option.some.injEq, hNone, false_or, hLong, or_false, forall_eq']
    rw [← zeroFrom_eq_iff]
    constructor
    · -- equal entries have equal fields, and equal fields equal bytes
      intro hEntry
      have hTerm := zeroFrom_of_beVal (j := j) hTyped.term (congrArg Entry.term hEntry)
      have hOp := zeroFrom_of_beVal (j := j - 16) hTyped.op (congrArg Entry.op hEntry)
      have hPay := congrArg Entry.payload hEntry
      dsimp only at hPay
      have hLen : zeroFrom (j - 20) (beBytes 4 e.len) = beBytes 4 e.len := by
        refine zeroFrom_of_beVal hTyped.len ?_
        have hCount := congrArg length hPay
        rw [length_take, zeroFrom_length] at hCount
        have hLe := beVal_zeroFrom_le (j - 20) (beBytes 4 e.len)
        rw [beVal_beBytes_of_lt hTyped.len] at hLe
        unfold Entry.len at hLe hCount ⊢
        omega
      have hIndexEq := zeroFrom_of_beVal (j := j - 8) hIndex hIndexOk
      have hPayload : zeroFrom (j - 24) e.payload = e.payload := by
        rw [hLen, beVal_beBytes_of_lt hTyped.len, take_of_length_le] at hPay
        · exact hPay
        · rw [zeroFrom_length, Entry.len]
      rw [zeroFrom_encRecord, hTerm, hIndexEq, hOp, hLen, hPayload]
      rfl
    · intro hSame
      have hWhole := @parseRecord_torn index j k e hTyped
      rw [if_neg (by simp [hLong, hIndexOk]), hSame, parseRecord_encRecord hIndex hTyped]
        at hWhole
      split at hWhole
      · exact (Option.some.inj hWhole).symm
      · cases hWhole
  · have hLost : ∃ b ∈ ((encRecord index e).take 16).drop j, b ≠ 0 := by
      by_contra hNone
      refine hIndexOk (hIdx.mpr fun b hb => ?_)
      by_contra hne
      exact hNone ⟨b, hb, hne⟩
    rw [if_pos (.inr hIndexOk)]
    exact ⟨fun _ => .inl hLost, fun _ x hx => by cases hx⟩

end Torn

/-! ## What was read is what the bytes encode -/

/-- **What the loader accepts is a record**, with fields in their types and not over-long. -/
theorem parseRecord_some {index : Nat} {bs : Bytes} {e : Entry}
    (h : parseRecord index bs = some e) :
    bs = encRecord index e ++ bs.drop (recSize e) ∧ e.Typed ∧ e.Short := by
  unfold parseRecord at h
  split at h
  · cases h
  rename_i hHdr
  dsimp only at h
  split at h
  · cases h
  rename_i hOk
  split at h
  · cases h
  rename_i hRoom
  obtain ⟨hLong, hIdx⟩ := not_or.mp hOk
  rw [not_not] at hIdx
  cases h
  rw [clRecHdr, Nat.not_lt] at hHdr hRoom
  set len := beVal ((bs.drop 20).take 4) with hLen
  have hPayLen : ((bs.drop clRecHdr).take len).length = len := by
    rw [length_take, length_drop, clRecHdr]
    omega
  have hT := beBytes_beVal (bs.take 8)
  have hI := beBytes_beVal ((bs.drop 8).take 8)
  have hO := beBytes_beVal ((bs.drop 16).take 4)
  have hL := beBytes_beVal ((bs.drop 20).take 4)
  rw [length_take, Nat.min_eq_left (by omega)] at hT
  rw [length_take, length_drop, Nat.min_eq_left (by omega)] at hI hO hL
  have hBelow : ∀ a b, a + b ≤ bs.length → beVal ((bs.drop a).take b) < 256 ^ b := by
    intro a b hab
    have hLt := beVal_lt ((bs.drop a).take b)
    rwa [length_take, length_drop, Nat.min_eq_left (by omega)] at hLt
  refine ⟨?_, ⟨?_, ?_, ?_⟩, ?_⟩
  · unfold encRecord recSize Entry.len
    dsimp only
    rw [hPayLen, hT, ← hIdx, hI, hO, hL]
    -- the fields are consecutive slices
    have hSlice : ∀ a b, bs.drop a = (bs.drop a).take b ++ bs.drop (a + b) := by
      intro a b
      rw [← drop_drop, take_append_drop]
    have h0 := hSlice 0 8
    rw [drop_zero] at h0
    conv_lhs => rw [h0, hSlice (0 + 8) 8, hSlice (0 + 8 + 8) 4, hSlice (0 + 8 + 8 + 4) 4,
      hSlice (0 + 8 + 8 + 4 + 4) len]
    simp [clRecHdr]
  · exact hBelow 0 8 (by omega)
  · exact hBelow 16 4 (by omega)
  · show ((bs.drop clRecHdr).take len).length < _
    rw [hPayLen]
    exact hBelow 20 4 (by omega)
  · show ((bs.drop clRecHdr).take len).length ≤ _
    rw [hPayLen]
    exact Nat.not_lt.mp hLong

/-- **What the loader reads is encoded in the bytes it read.** -/
theorem encRecords_parseRecords (fuel index : Nat) (bs : Bytes) :
    (∃ rest, bs = encRecords index (parseRecords fuel index bs) ++ rest) ∧
      ∀ e ∈ parseRecords fuel index bs, e.Typed ∧ e.Short := by
  induction fuel generalizing index bs with
  | zero => exact ⟨⟨bs, rfl⟩, fun e he => by cases he⟩
  | succ fuel ih =>
    unfold parseRecords
    cases hHead : parseRecord index bs with
    | none => exact ⟨⟨bs, rfl⟩, fun e he => by cases he⟩
    | some e =>
      obtain ⟨hBytes, hTyped, hShort⟩ := parseRecord_some hHead
      obtain ⟨⟨rest, hRest⟩, hAll⟩ := ih (index + 1) (bs.drop (recSize e))
      dsimp only
      refine ⟨⟨rest, ?_⟩, fun x hx => ?_⟩
      · rw [encRecords, append_assoc, ← hRest]
        exact hBytes
      · rcases mem_cons.mp hx with rfl | hx
        · exact ⟨hTyped, hShort⟩
        · exact hAll x hx

end BeaverMQ
