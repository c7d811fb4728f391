import BeaverMQ.Model.Mesh
import BeaverMQ.Wire.Sizes

/-!
# BeaverMQ — the bytes of the snapshot file

`snapshot_write` puts a header, the topology records and a checksum in front of the messages, and
`snapshot_load` reads them back at fixed offsets. The length of the topology has 32 bits in the
header, and so has the number of messages; a file whose topology is longer is not what was written.
-/

namespace BeaverMQ

open List Bytes

/-! ## Writing -/

def clSnapMagic : Nat := 0x424D5153
def clSnapHdr : Nat := 36

/-- `n->topo`: each record has its op, its length and its data. -/
def topoBytes (rs : List TopoRec) : Bytes :=
  rs.flatMap fun r => beBytes 4 r.op ++ beBytes 4 r.data.length ++ r.data

def snapWriteRecord (r : SnapRec) : Bytes :=
  wrStr r.vhost ++ wrStr r.queue ++ wrStr r.exchange ++ wrStr r.routingKey ++
    (beBytes 4 r.props.length ++ r.props) ++ (beBytes 4 r.body.length ++ r.body) ++
    beBytes 8 r.clusterId

namespace SnapFile

/-- What the checksum is over. -/
def head (s : SnapFile) : Bytes :=
  beBytes 4 clSnapMagic ++ beBytes 4 2 ++ beBytes 8 s.baseIndex ++ beBytes 8 s.baseTerm ++
    beBytes 8 s.baseOffset ++ beBytes 4 (topoBytes s.topo).length ++ topoBytes s.topo

/-- The file that `snapshot_write` leaves. -/
def bytes (s : SnapFile) : Bytes :=
  s.head ++ beBytes 4 (clusterCrc32 s.head) ++ beBytes 4 s.msgs.length ++
    s.msgs.flatMap snapWriteRecord

end SnapFile

/-! ## Reading -/

/-- The checks of `snapshot_load`, and the bytes that it takes over into `n->topo`. -/
def snapshotTopo (f : Bytes) : Option Bytes :=
  if f.length < clSnapHdr + 4 ∨ be32At f 0 ≠ clSnapMagic then none
  else
    let crcAt := clSnapHdr + be32At f 32
    if f.length < crcAt + 4 ∨ clusterCrc32 (f.take crcAt) ≠ be32At f crcAt then none
    else some ((f.take crcAt).drop clSnapHdr)

/-- `snapshot_load`, with the record loop of `persist_load` over the topology. -/
def snapshotLoad (f : Bytes) : Option SnapFile :=
  (snapshotTopo f).map fun topo =>
    let dump := f.drop (clSnapHdr + topo.length + 4)
    { baseIndex := be64At f 8, baseTerm := be64At f 16, baseOffset := be64At f 24
      topo := rdTopo topo.length topo
      msgs := if dump.length < 4 then [] else rdSnapRecs (be32At dump 0) (dump.drop 4) }

/-! ## Reading back -/

variable {s : SnapFile}

theorem drop_beBytes {w i : Nat} (h : w ≤ i) (v : Nat) : (beBytes w v).drop i = [] :=
  drop_eq_nil_of_le ((beBytes_length w v).trans_le h)

/-- Each field of the header is cut to its width. -/
theorem head_fields (s : SnapFile) (rest : Bytes) :
    be32At (s.head ++ rest) 0 = clSnapMagic ∧ be64At (s.head ++ rest) 8 = s.baseIndex % 2 ^ 64 ∧
      be64At (s.head ++ rest) 16 = s.baseTerm % 2 ^ 64 ∧
      be64At (s.head ++ rest) 24 = s.baseOffset % 2 ^ 64 ∧
      be32At (s.head ++ rest) 32 = (topoBytes s.topo).length % 2 ^ 32 := by
  simp [SnapFile.head, be32At, be64At, drop_append, drop_beBytes, beVal_beBytes, clSnapMagic]

theorem head_length (s : SnapFile) : s.head.length = clSnapHdr + (topoBytes s.topo).length := by
  simp only [SnapFile.head, length_append, beBytes_length]
  rfl

theorem be32At_front {v : Nat} (hv : v < 2 ^ 32) (rest : Bytes) :
    be32At (beBytes 4 v ++ rest) 0 = v := by
  simpa [be32At, take_append, beVal_beBytes] using hv

/-- **A file whose topology has fewer than 2^32 bytes passes the checks**, and its topology is read
as it was written. -/
theorem snapshotTopo_bytes (hTopo : (topoBytes s.topo).length < 2 ^ 32) :
    snapshotTopo s.bytes = some (topoBytes s.topo) := by
  have hHead := head_length s
  simp only [SnapFile.bytes, append_assoc]
  generalize beBytes 4 s.msgs.length ++ s.msgs.flatMap snapWriteRecord = dump
  obtain ⟨hMagic, -, -, -, hLen⟩ := head_fields s (beBytes 4 (clusterCrc32 s.head) ++ dump)
  rw [Nat.mod_eq_of_lt hTopo] at hLen
  have hCrc : be32At (s.head ++ (beBytes 4 (clusterCrc32 s.head) ++ dump))
      (clSnapHdr + (topoBytes s.topo).length) = clusterCrc32 s.head := by
    rw [be32At, drop_left' hHead]
    exact be32At_front (v := clusterCrc32 s.head) (UInt32.toNat_lt _) dump
  unfold snapshotTopo
  dsimp only
  rw [hLen, take_left' hHead, hCrc, if_neg (by simp [hMagic, hHead]; omega), if_neg (by simp [hHead])]
  exact congrArg some (drop_left' (by simp [clSnapHdr]))

/-- The record has room in the fields of `snap_write_record`, and its names are C strings. -/
@[mk_iff]
structure SnapRec.Fits (r : SnapRec) : Prop where
  names : ∀ x ∈ [r.vhost, r.queue, r.exchange, r.routingKey], x.length < 256 ∧ 0 ∉ x
  props : r.props.length < 2 ^ 32
  body : r.body.length < 2 ^ 32
  clusterId : r.clusterId < 2 ^ 64

theorem rdSnapRec_snapWriteRecord {r : SnapRec} (h : r.Fits) (rest : Bytes) :
    rdSnapRec (snapWriteRecord r ++ rest) = some (r, rest) := by
  have hName : ∀ x ∈ [r.vhost, r.queue, r.exchange, r.routingKey], ∀ rest,
      rdStr (wrStr x ++ rest) = some (x, rest) :=
    fun x hx rest => rdStr_wrStr (h.names x hx).1 (h.names x hx).2 rest
  have hId : be64At (beBytes 8 r.clusterId ++ rest) 0 = r.clusterId := by
    simpa [be64At, take_append, beVal_beBytes] using h.clusterId
  simp only [mem_cons, not_mem_nil, or_false, forall_eq_or_imp, forall_eq] at hName
  obtain ⟨hVhost, hQueue, hExchange, hKey⟩ := hName
  unfold snapWriteRecord rdSnapRec
  simp only [append_assoc]
  rw [hVhost, Option.bind_eq_bind, Option.bind_some, hQueue, Option.bind_some, hExchange,
    Option.bind_some, hKey, Option.bind_some, rdBlock_append h.props, Option.bind_some,
    rdBlock_append h.body, Option.bind_some]
  dsimp only
  rw [if_neg (by simp), hId, drop_left' (beBytes_length 8 _)]

theorem rdSnapRecs_snapWriteRecord {rs : List SnapRec} (h : ∀ r ∈ rs, r.Fits) :
    rdSnapRecs rs.length (rs.flatMap snapWriteRecord) = rs := by
  induction rs with
  | nil => rfl
  | cons r rs ih =>
    rw [flatMap_cons, length_cons, rdSnapRecs, rdSnapRec_snapWriteRecord (h r mem_cons_self)]
    exact congrArg _ (ih fun r hr => h r (mem_cons_of_mem _ hr))

theorem topoBytes_cons (r : TopoRec) (rs : List TopoRec) : topoBytes (r :: rs) =
    beBytes 4 r.op ++ beBytes 4 r.data.length ++ (r.data ++ topoBytes rs) := by
  simp [topoBytes]

/-- The topology loop has read every record when the bytes end. -/
theorem rdTopo_topoBytes {rs : List TopoRec} (hOps : ∀ r ∈ rs, r.op < 2 ^ 32) {k : Nat}
    (hFuel : (topoBytes rs).length ≤ k) (hTopo : (topoBytes rs).length < 2 ^ 32) :
    rdTopo k (topoBytes rs) = rs := by
  induction rs generalizing k with
  | nil => cases k <;> rfl
  | cons r rs ih =>
    rw [topoBytes_cons] at hFuel hTopo ⊢
    simp only [length_append, beBytes_length] at hFuel hTopo
    obtain ⟨k, rfl⟩ : ∃ j, k = j + 1 := ⟨k - 1, by omega⟩
    set q := beBytes 4 r.op ++ beBytes 4 r.data.length ++ (r.data ++ topoBytes rs) with hq
    have hOp : be32At q 0 = r.op := by
      rw [hq, append_assoc, be32At_front (hOps r mem_cons_self)]
    have hLen : be32At q 4 = r.data.length := by
      have hFits : r.data.length < 2 ^ 32 := by omega
      simpa [hq, be32At, drop_append, take_append, drop_beBytes, beVal_beBytes] using hFits
    have hDrop : q.drop 8 = r.data ++ topoBytes rs := drop_left' (by simp)
    unfold rdTopo
    dsimp only
    rw [hOp, hLen, hDrop, if_neg (by simp [hq]; omega), if_neg (by simp), take_left,
      ← drop_drop, hDrop, drop_left]
    exact congrArg _ (ih (fun r hr => hOps r (mem_cons_of_mem _ hr)) (by omega) (by omega))

/-- What the fields of the file have room for. -/
structure SnapFile.Fits (s : SnapFile) : Prop where
  index : s.baseIndex < 2 ^ 64
  term : s.baseTerm < 2 ^ 64
  offset : s.baseOffset < 2 ^ 64
  topo : (topoBytes s.topo).length < 2 ^ 32
  ops : ∀ r ∈ s.topo, r.op < 2 ^ 32
  count : s.msgs.length < 2 ^ 32
  msgs : ∀ r ∈ s.msgs, r.Fits

/-- **The file is read back as it was written.** -/
theorem snapshotLoad_bytes (h : s.Fits) : snapshotLoad s.bytes = some s := by
  obtain ⟨-, hIndex, hTerm, hOffset, -⟩ := head_fields s (beBytes 4 (clusterCrc32 s.head) ++
    (beBytes 4 s.msgs.length ++ s.msgs.flatMap snapWriteRecord))
  simp only [← append_assoc, Nat.mod_eq_of_lt h.index, Nat.mod_eq_of_lt h.term,
    Nat.mod_eq_of_lt h.offset] at hIndex hTerm hOffset
  have hDump : s.bytes.drop (clSnapHdr + (topoBytes s.topo).length + 4) =
      beBytes 4 s.msgs.length ++ s.msgs.flatMap snapWriteRecord := by
    rw [SnapFile.bytes, append_assoc]
    exact drop_left' (by simp [head_length])
  rw [snapshotLoad, snapshotTopo_bytes h.topo, Option.map_some]
  dsimp only
  rw [hDump, show be64At s.bytes 8 = _ from hIndex, show be64At s.bytes 16 = _ from hTerm,
    show be64At s.bytes 24 = _ from hOffset, be32At_front h.count, if_neg (by simp),
    drop_left' (beBytes_length 4 _), rdSnapRecs_snapWriteRecord h.msgs,
    rdTopo_topoBytes h.ops (Nat.le_refl _) h.topo]

end BeaverMQ
