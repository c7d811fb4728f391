import BeaverMQ.Lib.Batch
import BeaverMQ.Model.Publish
import BeaverMQ.Storage.Records

/-!
# BeaverMQ — sizes of published messages on the cluster plane

A persistent message leaves the AMQP layer as one `CL_OP_PUBLISH` op, which then travels in
FORWARD and APPEND frames, stands in the log file as one record, and is dumped into CHUNK
frames. The frames are filled greedily and always take their first element. The receiver drops
the link on a frame above `CLUSTER_MAX_PAYLOAD`, and `persist_load` stops at a record above it.
-/

namespace BeaverMQ

open Bytes List

/-! ## The op of a message -/

theorem wrStr_eq {s : Bytes} (hLen : s.length < 256) : wrStr s = beBytes 2 s.length ++ s := by
  unfold wrStr
  dsimp only
  rw [Nat.mod_eq_of_lt (by omega), take_of_length_le (Nat.le_refl _)]

theorem rd16_eq {p : Bytes} (hLen : 2 ≤ p.length) : rd16 p = (beVal (p.take 2), p.drop 2) := by
  match p, hLen with
  | a :: b :: rest, _ => simp [rd16, beVal]

theorem rdStr_wrStr {s : Bytes} (hLen : s.length < 256) (hNul : 0 ∉ s) (rest : Bytes) :
    rdStr (wrStr s ++ rest) = some (s, rest) := by
  have hVal : beVal (beBytes 2 s.length) = s.length := beVal_beBytes_of_lt (by omega)
  have hRd : rd16 (wrStr s ++ rest) = (s.length, s ++ rest) := by
    rw [wrStr_eq hLen, append_assoc, rd16_eq (by simp), take_left' (beBytes_length 2 _),
      drop_left' (beBytes_length 2 _), hVal]
  unfold rdStr
  rw [hRd]
  dsimp only
  rw [if_neg (by simp; omega), take_left' rfl, drop_left' rfl, cstr_eq hNul]

theorem rdBlock_append {bs : Bytes} (hLen : bs.length < 2 ^ 32) (rest : Bytes) :
    rdBlock (beBytes 4 bs.length ++ (bs ++ rest)) = some (bs, rest) := by
  have hVal : beVal (beBytes 4 bs.length) = bs.length := beVal_beBytes_of_lt hLen
  have hTake : (beBytes 4 bs.length ++ (bs ++ rest)).take 4 = beBytes 4 bs.length :=
    take_left' (beBytes_length 4 _)
  have hDrop : (beBytes 4 bs.length ++ (bs ++ rest)).drop 4 = bs ++ rest :=
    drop_left' (beBytes_length 4 _)
  unfold rdBlock
  rw [if_neg (by simp), hTake, hDrop, hVal, if_neg (by simp), take_left' rfl,
    drop_left' rfl]

theorem encodePublishOp_length {p : Publish} {payload : Bytes}
    (h : encodePublishOp p = some payload) :
    payload.length = 14 + p.vhost.length + p.exchange.length + p.routingKey.length +
      p.props.length + p.body.length := by
  unfold encodePublishOp at h
  split at h
  · cases h
  next hNames =>
  simp only [Bool.or_eq_true, decide_eq_true_eq, not_or, Nat.not_lt] at hNames
  obtain ⟨⟨hVhost, hExchange⟩, hKey⟩ := hNames
  cases h
  rw [wrStr_eq (by omega), wrStr_eq (by omega), wrStr_eq (by omega)]
  simp only [length_append, beBytes_length]
  omega

theorem applyPublish_parts {p p₁ p₂ p₃ p₄ p₅ vhost exchange routingKey props body : Bytes}
    (hVhost : rdStr p = some (vhost, p₁)) (hExchange : rdStr p₁ = some (exchange, p₂))
    (hKey : rdStr p₂ = some (routingKey, p₃)) (hProps : rdBlock p₃ = some (props, p₄))
    (hBody : rdBlock p₄ = some (body, p₅)) (b : Broker) (index : Nat) :
    applyPublish b index p =
      brokerRoute b vhost { exchange, routingKey, props, body, clusterId := index } := by
  simp only [applyPublish, hVhost, hExchange, hKey, hProps, hBody]

/-! ## The greedy loops -/

theorem takeBatch_eq (es : List Entry) (cnt size : Nat) :
    takeBatch es cnt size =
      Batch.take recSize (fun cnt => cnt < clMaxAppendEntries) clMaxAppendBytes es cnt size := by
  induction es generalizing cnt size with
  | nil => rfl
  | cons e es ih =>
    unfold takeBatch Batch.take
    rw [ih]
    by_cases hRoom : clMaxAppendEntries ≤ cnt
    · rw [if_pos hRoom, if_neg (by simp; omega)]
    rw [if_neg hRoom]
    by_cases hCap : 0 < cnt ∧ clMaxAppendBytes < size + recSize e
    · rw [if_pos hCap, if_neg (by simp; omega)]
    · rw [if_neg hCap, if_pos (by simp; omega)]

theorem takeSlice_eq (prs : List Proposal) (cnt size : Nat) :
    takeSlice prs cnt size =
      Batch.take (fun pr => 16 + pr.data.length) (fun cnt => cnt < clFwdMaxOps) clFwdMaxBytes prs
        cnt size := by
  induction prs generalizing cnt size with
  | nil => rfl
  | cons pr prs ih =>
    unfold takeSlice Batch.take
    rw [ih]
    simp only [decide_eq_true_eq, Nat.add_assoc]

theorem takeChunk_eq (recs : List SnapRec) (cnt size : Nat) :
    takeChunk recs cnt size =
      Batch.take snapRecordSize (fun _ => true) clSnapChunkBytes recs cnt size := by
  induction recs generalizing cnt size with
  | nil => rfl
  | cons r recs ih =>
    unfold takeChunk Batch.take
    rw [ih]
    simp only [true_and]

/-! ## What gets through -/

def publishEntry (term : Nat) (payload : Bytes) : Entry :=
  { term, op := ClOp.publish.code, payload }

/-- An op with this payload, dumped as `r` once it is applied, gets through: every frame that
the sender fills with it is one the receiver takes, and its record is one the loader takes. -/
structure Carried (payload : Bytes) (r : SnapRec) : Prop where
  append : ∀ (es : List Entry) (term t prev pt lc ci : Nat) (cong : Bool),
    publishEntry term payload ∈ takeBatch es 0 clAppendFixed →
      (Frame.append t prev pt lc ci cong (takeBatch es 0 clAppendFixed)).length ≤ clusterMaxPayload
  forward : ∀ (list : List Proposal) (seq t : Nat),
    { op := ClOp.publish.code, data := payload, seq } ∈ takeSlice list 0 4 →
      (Frame.forward t (takeSlice list 0 4)).length ≤ clusterMaxPayload
  chunk : ∀ (recs : List SnapRec) (t : Nat), r ∈ takeChunk recs 0 4 →
    (Frame.snapChunk t (takeChunk recs 0 4)).length ≤ clusterMaxPayload
  wal : ∀ (f : LogFile) (term base : Nat), term < 2 ^ 64 → base + 2 < 2 ^ 64 →
    f.content = encRecord (base + 1) (publishEntry term payload) →
      recoverEntries f base 0 = [publishEntry term payload]

theorem append_length (t prev pt lc ci : Nat) (cong : Bool) (es : List Entry) :
    (Frame.append t prev pt lc ci cong es).length = clAppendFixed + (es.map recSize).sum := rfl

/-- **The sizes that get through**: 64 bytes around the op in an APPEND frame and 4 around the
dumped record in a CHUNK frame. -/
theorem carried_iff (payload : Bytes) (r : SnapRec) :
    Carried payload r ↔
      64 + payload.length ≤ clusterMaxPayload ∧ 4 + snapRecordSize r ≤ clusterMaxPayload := by
  have hCaps : clMaxAppendBytes ≤ clusterMaxPayload ∧ clFwdMaxBytes ≤ clusterMaxPayload ∧
      clSnapChunkBytes ≤ clusterMaxPayload := by decide
  obtain ⟨hAppendCap, hFwdCap, hChunkCap⟩ := hCaps
  have hRec : ∀ term, recSize (publishEntry term payload) = 24 + payload.length := fun _ => rfl
  have hFixed : clAppendFixed = 40 := rfl
  constructor
  · -- the op and the record alone in their frames
    intro h
    have hAppend := h.append [publishEntry 0 payload] 0 0 0 0 0 0 false
    have hChunk := h.chunk [r] 0
    rw [takeBatch_eq, Batch.take_singleton _ _ (by decide), append_length] at hAppend
    rw [takeChunk_eq, Batch.take_singleton _ _ rfl] at hChunk
    have hAlone := hAppend mem_cons_self
    have hDump := hChunk mem_cons_self
    rw [map_singleton, sum_singleton, hRec] at hAlone
    refine ⟨by omega, ?_⟩
    simpa [Frame.length] using hDump
  · rintro ⟨hOp, hDump⟩
    refine ⟨fun es term t prev pt lc ci cong hMem => ?_, fun list seq t hMem => ?_,
      fun recs t hMem => ?_, fun f term base hTerm hBase hFile => ?_⟩
    · rw [takeBatch_eq] at hMem ⊢
      rw [append_length]
      refine (Batch.total_le_of_mem hMem).trans (max_le ?_ hAppendCap)
      rw [hRec]
      omega
    · rw [takeSlice_eq] at hMem ⊢
      refine (Batch.total_le_of_mem hMem).trans (max_le ?_ hFwdCap)
      show 4 + (16 + payload.length) ≤ clusterMaxPayload
      omega
    · rw [takeChunk_eq] at hMem ⊢
      exact (Batch.total_le_of_mem hMem).trans (max_le hDump hChunkCap)
    · have hShort : payload.length ≤ clusterMaxPayload := by omega
      have hTyped : ∀ e ∈ [publishEntry term payload], e.Typed := by
        intro e he
        rw [mem_singleton.mp he]
        refine ⟨hTerm, by show ClOp.publish.code < 2 ^ 32; decide, ?_⟩
        show payload.length < 2 ^ 32
        unfold clusterMaxPayload at hShort
        omega
      have hContent : f.content.drop 0 = encRecords (base + 1) [publishEntry term payload] ++ [] := by
        rw [drop_zero, hFile]
        simp [encRecords]
      rw [recoverEntries_eq, hContent, parseRecords_encRecords hTyped (by simp; omega) []
        (by simp), if_pos]
      · -- nothing follows the record
        have hEnd : ∀ fuel index, parseRecords fuel index [] = [] := by
          intro fuel index
          cases fuel with
          | zero => rfl
          | succ fuel => simp [parseRecords, parseRecord, clRecHdr]
        rw [hEnd]
        rfl
      · intro e he
        rw [mem_singleton.mp he]
        exact hShort

/-- **The messages that get through**: an admitted message is carried by the cluster plane to
a queue exactly when its op leaves room for the larger of the two frames around it. -/
theorem publish_carried_iff {p : Publish} {payload : Bytes} (hOp : publishOp p = some payload)
    (q : Queue) (hVhost : q.vhost = p.vhost) (index : Nat) :
    Carried payload (snapRecord q (p.message index)) ↔
      14 + p.vhost.length + p.exchange.length + p.routingKey.length + p.props.length +
        p.body.length + max 64 (14 + q.name.length) ≤ clusterMaxPayload := by
  have hEncode : encodePublishOp p = some payload := by
    unfold publishOp at hOp
    split at hOp
    · exact hOp
    · cases hOp
  rw [carried_iff, encodePublishOp_length hEncode]
  have hDump : 4 + snapRecordSize (snapRecord q (p.message index)) =
      14 + p.vhost.length + p.exchange.length + p.routingKey.length + p.props.length +
        p.body.length + (14 + q.name.length) := by
    simp only [snapRecordSize, snapRecord, Publish.message, hVhost]
    omega
  rw [hDump]
  omega

/-- A persistent message to the queue `q` of the vhost `/`. -/
def samplePublish (body : Bytes) : Publish where
  vhost := [47]
  exchange := []
  routingKey := [113]
  props := [0x10, 0x00, 2]
  body

def sampleQueue : Queue := { vhost := [47], name := [113], flags := 2, gen := 0 }

theorem publish_carried_short : ∃ payload, publishOp (samplePublish [1, 2, 3]) = some payload ∧
    Carried payload (snapRecord sampleQueue ((samplePublish [1, 2, 3]).message 1)) :=
  ⟨_, rfl, (publish_carried_iff rfl sampleQueue rfl 1).mpr (by decide)⟩

theorem sample_admitted {body : Bytes} (hBody : body.length ≤ defaultMaxMessageSize) :
    (samplePublish body).Admitted defaultMaxMessageSize amqpDefaultFrameMax where
  vhost := by simp [samplePublish]
  exchange := by simp [samplePublish]
  routingKey := by simp [samplePublish]
  header := by simp [samplePublish, amqpDefaultFrameMax]
  frameMax := Nat.le_refl _
  body := hBody

/-- A body of exactly the default `max_message_size` is admitted, but its op has no room left
for what an APPEND frame puts around it: the follower drops the link on it, each time. -/
theorem publish_not_carried : ∃ p payload, p.Admitted defaultMaxMessageSize amqpDefaultFrameMax ∧
    publishOp p = some payload ∧ ∀ r, ¬ Carried payload r := by
  have hOp : ∀ body, ∃ payload, publishOp (samplePublish body) = some payload ∧
      body.length ≤ payload.length := by
    intro body
    have hPersistent : propsIsPersistent (samplePublish body).props = true := by
      show propsIsPersistent [0x10, 0x00, 2] = true
      decide
    have hNames : ¬ (decide (250 < (samplePublish body).vhost.length) ||
        decide (250 < (samplePublish body).exchange.length) ||
        decide (250 < (samplePublish body).routingKey.length)) = true := by
      simp [samplePublish]
    refine ⟨_, by rw [publishOp, if_pos hPersistent, encodePublishOp, if_neg hNames], ?_⟩
    rw [length_append]
    exact Nat.le_add_left _ _
  obtain ⟨payload, hPayload, hLen⟩ := hOp (List.replicate defaultMaxMessageSize 0)
  rw [length_replicate] at hLen
  refine ⟨_, payload, sample_admitted (length_replicate.le), hPayload, fun r hCarried => ?_⟩
  have hFits := ((carried_iff payload r).mp hCarried).1
  have hSame : clusterMaxPayload = defaultMaxMessageSize := rfl
  omega

end BeaverMQ
