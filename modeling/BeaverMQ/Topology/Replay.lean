import BeaverMQ.Lib.Replay
import BeaverMQ.Topology.Registry

/-!
# BeaverMQ — replaying the topology accumulator

`apply_op` hands every topology and access-control op to `topo_add`, which keeps one copy of
each distinct record. A snapshot carries these records, and `persist_load` and `SNAP_BEGIN`
apply them again. An op that undoes another is kept in its first place, so a record that
comes back after it was undone is not replayed where it belongs.
-/

namespace BeaverMQ

open List

variable (s : Applied)

/-- `apply_op` for a log, each entry with its index. -/
def applyAll (log : List (Nat × TopoRec)) : Applied :=
  log.foldl (fun s x => applyOp s x.1 x.2.op x.2.data) s

/-- The record is one of those `apply_op` hands to `topo_add`. -/
def TopoRec.kept (r : TopoRec) : Bool := (ClOp.ofCode r.op).any ClOp.isTopo

theorem applyAll_concat (log : List (Nat × TopoRec)) (x : Nat × TopoRec) :
    applyAll s (log ++ [x]) = applyOp (applyAll s log) x.1 x.2.op x.2.data := by
  simp [applyAll]

theorem topology_applyAll (log : List (Nat × TopoRec)) :
    (applyAll s log).topology = (log.map Prod.snd).foldl Topology.step s.topology := by
  induction log using reverseRecOn with
  | nil => rfl
  | append_singleton log x ih =>
    rw [applyAll_concat, topology_applyOp, ih, map_append, foldl_append]
    rfl

theorem topo_applySwitch (index : Nat) (op : ClOp) (p : Bytes) :
    (applySwitch s index op p).topo = s.topo := by
  cases op <;> simp only [applySwitch] <;> split <;> rfl

theorem topo_applyOp (index : Nat) (r : TopoRec) :
    (applyOp s index r.op r.data).topo = if r.kept then Replay.record s.topo r else s.topo := by
  unfold applyOp TopoRec.kept
  cases ClOp.ofCode r.op with
  | none => rfl
  | some op =>
    simp only [Option.any_some]
    split
    · rw [topo_applySwitch]
      rfl
    · exact topo_applySwitch s index op r.data

/-- The accumulator holds each kept record once. -/
theorem topo_applyAll {s : Applied} (hTopo : s.topo = []) (log : List (Nat × TopoRec)) :
    (applyAll s log).topo = Replay.recorded ((log.map Prod.snd).filter TopoRec.kept) := by
  induction log using reverseRecOn with
  | nil => exact hTopo
  | append_singleton log x ih =>
    rw [applyAll_concat, topo_applyOp, ih, map_append, filter_append]
    by_cases hKept : x.2.kept = true
    · simp [hKept, Replay.recorded_concat]
    · simp [hKept]

theorem replayTopo_eq (base : Nat) (topo : List TopoRec) :
    replayTopo s base topo = applyAll { s with topo := topo } (topo.map fun r => (base, r)) := by
  unfold replayTopo applyAll
  rw [foldl_map]

theorem topology_replayTopo (base : Nat) (topo : List TopoRec) :
    (replayTopo s base topo).topology = topo.foldl Topology.step s.topology := by
  rw [replayTopo_eq, topology_applyAll, map_map]
  exact congrArg (List.foldl _ _) (map_id topo)

/-- For every log of topology and access-control ops: the states after all its prefixes can
be replayed from the accumulator if and only if every op that repeats an earlier one, byte
for byte, finds its effect already there. -/
theorem replayTopo_iff {fresh : Applied} (hFresh : fresh.topo = [])
    {log : List (Nat × TopoRec)} (hOps : ∀ x ∈ log, x.2.kept = true) (base : Nat) :
    (∀ pre, pre <+: log → (replayTopo fresh base (applyAll fresh pre).topo).topology =
        (applyAll fresh pre).topology) ↔
      ∀ pre x, pre ++ [x] <+: log → x.2 ∈ pre.map Prod.snd →
        (applyAll fresh (pre ++ [x])).topology = (applyAll fresh pre).topology := by
  have hReplay : ∀ pre, pre <+: log →
      (replayTopo fresh base (applyAll fresh pre).topo).topology =
        (Replay.recorded (pre.map Prod.snd)).foldl Topology.step fresh.topology := by
    intro pre hPre
    rw [topology_replayTopo, topo_applyAll hFresh, filter_eq_self.mpr]
    intro r hr
    obtain ⟨x, hx, rfl⟩ := mem_map.mp hr
    exact hOps x (hPre.subset hx)
  have hIff := Replay.replay_iff Topology.step fresh.topology (log.map Prod.snd)
  constructor
  · intro hAll pre x hPre hMem
    have hIdle := hIff.mp fun rs hrs => by
      obtain ⟨pre, hPre, rfl⟩ := prefix_map_iff.mp hrs
      rw [← hReplay pre hPre, hAll pre hPre, topology_applyAll]
    rw [applyAll_concat, topology_applyOp, topology_applyAll]
    refine hIdle (pre.map Prod.snd) x.2 ?_ hMem
    simpa using hPre.map Prod.snd
  · intro hIdle pre hPre
    rw [hReplay pre hPre, topology_applyAll]
    refine hIff.mpr ?_ _ (hPre.map Prod.snd)
    intro rs r hrs hMem
    -- a prefix of the records is the records of a prefix
    obtain ⟨pre, hPre, hEq⟩ := prefix_map_iff.mp hrs
    obtain ⟨before, last, rfl, rfl, hLast⟩ := map_eq_append_iff.mp hEq.symm
    obtain ⟨x, rfl, rfl⟩ := map_eq_singleton_iff.mp hLast
    have hSame := hIdle before x hPre hMem
    rw [applyAll_concat, topology_applyOp, topology_applyAll] at hSame
    exact hSame

def addUserU : TopoRec := ⟨ClOp.addUser.code, [0, 1, 117, 0, 1, 104, 0, 0, 0, 0]⟩

def delUserU : TopoRec := ⟨ClOp.delUser.code, [0, 1, 117]⟩

def declareQ : TopoRec := ⟨ClOp.declareQueue.code, [2, 0, 1, 118, 0, 1, 113]⟩

def deleteQ : TopoRec := ⟨ClOp.deleteQueue.code, [0, 1, 118, 0, 1, 113]⟩

/-- Without a repeated record everything can be replayed. -/
theorem replayTopo_iff_distinct :
    (replayTopo {} 4 (applyAll {} [(1, addUserU), (2, declareQ), (3, delUserU), (4, deleteQ)]).topo
      ).topology = (applyAll {} [(1, addUserU), (2, declareQ), (3, delUserU), (4, deleteQ)]
      ).topology := by
  refine (replayTopo_iff rfl (by decide) 4).mpr (fun pre x hPre hMem => ?_) _ prefix_rfl
  have hNodup : ((pre ++ [x]).map Prod.snd).Nodup :=
    (hPre.map Prod.snd).sublist.nodup (by decide)
  rw [map_append, nodup_append] at hNodup
  exact absurd rfl (hNodup.2.2 x.2 hMem x.2 (by simp))

/-- Deleting a user twice, with the user added in between, leaves DEL, ADD in the
accumulator: the replay brings the user back. Declaring a queue twice, with a delete in
between, leaves DECLARE, DELETE: the replay loses the queue. -/
theorem replayTopo_reappears :
    (applyAll {} [(1, delUserU), (2, addUserU), (3, delUserU)]).topology.users [117] = none ∧
      (replayTopo {} 3 (applyAll {} [(1, delUserU), (2, addUserU), (3, delUserU)]).topo
        ).topology.users [117] = some ⟨[104], 0⟩ ∧
      ((applyAll {} [(1, declareQ), (2, deleteQ), (3, declareQ)]).topology.queues
        (vkey [118] [113])).isSome = true ∧
      (replayTopo {} 3 (applyAll {} [(1, declareQ), (2, deleteQ), (3, declareQ)]).topo
        ).topology.queues (vkey [118] [113]) = none := by
  refine ⟨?_, ?_, ?_, ?_⟩ <;> decide +kernel

end BeaverMQ
