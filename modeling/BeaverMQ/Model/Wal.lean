import BeaverMQ.Model.Types

/-!
# BeaverMQ — the replicated log in memory, its records and its file

The in-memory log (`cluster_log_t`), the on-disk record format, the log file with
the operations the node performs on it, and the volatile bookkeeping of
`cl_persist_t`. A file is its explicit bytes followed by zeros up to its size, so
that the `posix_fallocate`d tail costs nothing. What a power loss leaves of the
file is described by `Disk.crashImage`: the bytes of the last `fsync`, the
operations issued after it up to some point, and a prefix of one more write.
-/

namespace BeaverMQ

open List Bytes

/-! ## The in-memory log -/

/-- `cluster_log_t`. `entries` holds the indexes `baseIndex + 1 .. last_index`. -/
structure Log where
  baseIndex : Nat := 0
  baseTerm : Nat := 0
  entries : List Entry := []
  commitIndex : Nat := 0
  appliedIndex : Nat := 0
  durableIndex : Nat := 0
  compactedTo : Nat := 0
  deriving DecidableEq

def Log.lastIndex (l : Log) : Nat := l.baseIndex + l.entries.length

def logAt (l : Log) (idx : Nat) : Option Entry :=
  if idx ≤ l.baseIndex then none else l.entries[idx - l.baseIndex - 1]?

/-- `log_term_at`: the base term at the boundary, 0 for an index that is not there. -/
def logTermAt (l : Log) (idx : Nat) : Nat :=
  if idx = l.baseIndex then l.baseTerm
  else match logAt l idx with
    | some e => e.term
    | none => 0

/-! ## Record format -/

def clRecHdr : Nat := 24

def clusterMaxPayload : Nat := 16 * 1024 * 1024

/-- One WAL record: term, index, op type and length, then the payload. -/
def encRecord (index : Nat) (e : Entry) : Bytes :=
  beBytes 8 e.term ++ beBytes 8 index ++ beBytes 4 e.op ++
    beBytes 4 e.len ++ e.payload

def encRecords : Nat → List Entry → Bytes
  | _, [] => []
  | index, e :: es => encRecord index e ++ encRecords (index + 1) es

def recSize (e : Entry) : Nat := clRecHdr + e.len

def recOffsets : Nat → List Entry → List Nat
  | _, [] => []
  | off, e :: es => off :: recOffsets (off + recSize e) es

def recsSize (es : List Entry) : Nat := (es.map recSize).sum

/-! ## The log file -/

variable (f : LogFile)

theorem bound_nil : ([] : Bytes).length ≤ 0 := le_rfl

/-- The file: explicit bytes, then zeros up to `size`. -/
structure LogFile where
  data : Bytes := []
  size : Nat := 0
  bound : data.length ≤ size := by exact bound_nil

def LogFile.content : Bytes :=
  f.data ++ replicate (f.size - f.data.length) 0

/-- `pread`: the bytes from `off`, at most `len` and not past the end of the file. -/
def LogFile.pread (off len : Nat) : Bytes :=
  let avail := min len (f.size - off)
  let got := (f.data.drop off).take avail
  got ++ replicate (avail - got.length) 0

/-- The calls the node makes on the log file: `lseek` and `write`, `ftruncate`,
`posix_fallocate` up to a size, and punching a hole over the first bytes. -/
inductive FileOp
  | write (pos : Nat) (bs : Bytes)
  | truncate (size : Nat)
  | falloc (size : Nat)
  | punch (upto : Nat)
  deriving DecidableEq

def LogFile.write (pos : Nat) (bs : Bytes) : LogFile where
  data := (f.data ++ replicate (pos - f.data.length) 0).take pos ++ bs ++
    f.data.drop (pos + bs.length)
  size := max f.size (pos + bs.length)
  bound := by
    have hBound := f.bound
    simp only [length_append, length_take, length_replicate, length_drop]
    omega

def LogFile.truncate (size : Nat) : LogFile where
  data := f.data.take size
  size := size
  bound := by simp

def LogFile.falloc (size : Nat) : LogFile where
  data := f.data
  size := max f.size size
  bound := le_trans f.bound (le_max_left _ _)

def LogFile.punch (upto : Nat) : LogFile where
  data := replicate (min upto f.data.length) 0 ++ f.data.drop upto
  size := f.size
  bound := by
    have hBound := f.bound
    simp only [length_append, length_replicate, length_drop]
    omega

def FileOp.apply : FileOp → LogFile
  | .write pos bs => f.write pos bs
  | .truncate size => f.truncate size
  | .falloc size => f.falloc size
  | .punch upto => f.punch upto

/-- The first `k` bytes of a write; other calls are all or nothing. -/
def FileOp.torn (k : Nat) : FileOp → Option FileOp
  | .write pos bs => some (.write pos (bs.take k))
  | _ => none

/-! ## Volatile bookkeeping of the log file -/

/-- `cl_persist_t`. `offsets` has `off_cap` cells; `heap` is what a cell that
`realloc` just added happens to contain. -/
structure Persist where
  logSize : Nat := 0
  writePos : Nat := 0
  allocSize : Nat := 0
  offsets : List Nat := []
  baseIndex : Nat := 0
  baseOffset : Nat := 0
  wbuf : Bytes := []
  dirty : Bool := false
  heap : Nat → Nat := fun _ => 0

/-- The capacity doubling loop of `off_ensure`. -/
def growCap (need : Nat) : Nat → Nat → Nat
  | 0, cap => cap
  | fuel + 1, cap => if cap < need then growCap need fuel (2 * cap) else cap

def offEnsure (ps : Persist) (need : Nat) : Persist :=
  let cap := ps.offsets.length
  if need ≤ cap then ps
  else
    let newCap := growCap need need (if cap = 0 then 64 else cap)
    { ps with offsets :=
        ps.offsets ++ (range (newCap - cap)).map (fun k => ps.heap (cap + k)) }

/-- `memmove(offsets, offsets + drop, live)`. -/
def shiftOffsets (offsets : List Nat) (drop live : Nat) : List Nat :=
  (offsets.drop drop).take live ++ offsets.drop live

/-! ## Stable storage -/

/-- The snapshot file (`cluster-<id>.snap`): boundary, topology and live messages. -/
structure SnapFile where
  baseIndex : Nat
  baseTerm : Nat
  baseOffset : Nat
  topo : List TopoRec
  msgs : List SnapRec
  deriving DecidableEq

/-- What a handler does outside the node's memory, in program order. -/
inductive Effect
  | send (dst : Nat) (f : Frame)
  | setMeta (term : Nat) (votedFor : Option Nat)
  | file (op : FileOp)
  | fsync
  | snapshot (s : SnapFile)
  deriving DecidableEq

/-- A node's data directory. `log` is the file as the kernel shows it, `stable` as of
the last `fsync`, and `pending` the calls since then. -/
structure Disk where
  term : Nat := 0
  votedFor : Option Nat := none
  log : LogFile := {}
  stable : LogFile := {}
  pending : List FileOp := []
  snap : Option SnapFile := none

def Disk.apply (d : Disk) : Effect → Disk
  | .send _ _ => d
  | .setMeta term votedFor => { d with term, votedFor }
  | .file op => { d with log := op.apply d.log, pending := d.pending ++ [op] }
  | .fsync => { d with stable := d.log, pending := [] }
  | .snapshot s => { d with snap := some s }

def Disk.applyAll (d : Disk) (effects : List Effect) : Disk := effects.foldl Disk.apply d

/-- Where a crash cuts the pending calls: `ops` of them took effect, and `bytes` bytes of
the next one if that is a write. -/
structure Cut where
  ops : Nat
  bytes : Nat

/-- The log file a crash leaves. -/
def Disk.crashImage (d : Disk) (cut : Cut) : LogFile :=
  let f := (d.pending.take cut.ops).foldl FileOp.apply d.stable
  match (d.pending[cut.ops]?).bind (FileOp.torn cut.bytes) with
  | some op => op.apply f
  | none => f

def Disk.crash (d : Disk) (cut : Cut) : Disk :=
  { d with log := d.crashImage cut, stable := d.crashImage cut, pending := [] }

/-! ## Reading the log back -/

/-- One turn of the read loop of `persist_load`: the record at `off`, when it is complete,
not over-long and carries the expected index. -/
def readRecord (index off : Nat) : Option Entry :=
  let hdr := f.pread off clRecHdr
  if hdr.length ≠ clRecHdr then none
  else
    let term := beVal (hdr.take 8)
    let idx := beVal ((hdr.drop 8).take 8)
    let op := beVal ((hdr.drop 16).take 4)
    let len := beVal ((hdr.drop 20).take 4)
    if clusterMaxPayload < len || idx ≠ index then none
    else
      let payload := f.pread (off + clRecHdr) len
      if payload.length ≠ len then none else some { term, op, payload }

/-- The read loop of `persist_load`. Each record takes at least a header, so the file
size bounds the number of turns. -/
def readRecords (f : LogFile) : Nat → Nat → Nat → List Entry
  | 0, _, _ => []
  | fuel + 1, index, off =>
    match readRecord f index off with
    | none => []
    | some e => e :: readRecords f fuel (index + 1) (off + recSize e)

def recoverEntries (baseIndex baseOffset : Nat) : List Entry :=
  readRecords f (f.size + 1) (baseIndex + 1) baseOffset

end BeaverMQ
