import BeaverMQ.Consensus.Voters

/-!
# BeaverMQ — the cluster as a system of voters

`System` keeps of a cluster the voters, the disks and the channels. A callback of the
cluster is a run of `Micro` steps: a frame is taken into the hands of its receiver, the
receiver moves one voter step at a time, and a crash is a restart at any point of that run.
-/

namespace BeaverMQ

open Relation (ReflTransGen)
open List

/-! ## Systems -/

@[ext]
structure System where
  voter : Nat → Voter
  disk : Nat → Disk
  chan : Nat → Nat → List Frame

def System.setVoter (s : System) (i : Nat) (a : Voter) : System :=
  { s with voter := fun j => if j = i then a else s.voter j }

def System.setChan (s : System) (src dst : Nat) (fs : List Frame) : System :=
  { s with chan := fun a b => if a = src ∧ b = dst then fs else s.chan a b }

def System.perform (s : System) (i : Nat) (effects : List Effect) : System :=
  { s with
    disk := fun j => if j = i then (s.disk i).applyAll effects else s.disk j
    chan := fun a b => if a = i then s.chan a b ++ sentTo b effects else s.chan a b }

def System.restart (s : System) (S : Setup) (i : Nat) (d : Disk) : System where
  voter := fun j => if j = i then (S.boot i d).voter else s.voter j
  disk := fun j => if j = i then d.applyAll (S.boot i d).out else s.disk j
  chan := fun a b => if b = i then [] else s.chan a b

def Cluster.system (c : Cluster) : System where
  voter := fun i => (c.node i).voter
  disk := c.disk
  chan := c.chan

inductive Micro (S : Setup) (s : System) : System → Prop
  /-- A node takes one step of the callback it is in, or starts one. -/
  | act (i : Nat) (hi : i < S.nnodes) (effs : List Effect) (a : Voter)
      (hStep : VoterStep (s.voter i) effs a) : Micro S s ((s.perform i effs).setVoter i a)
  /-- A node takes a frame from a channel; frames before it may be lost. -/
  | take (src dst : Nat) (f : Frame) (rest : List Frame) (hDst : dst < S.nnodes)
      (hChan : (f :: rest) <:+ s.chan src dst) (hIdle : (s.voter dst).hand = none) :
      Micro S s ((s.setChan src dst rest).setVoter dst
        { s.voter dst with hand := some (src, f) })
  /-- Frames are lost with their connection. -/
  | lose (src dst : Nat) (rest : List Frame) (hChan : rest <:+ s.chan src dst) :
      Micro S s (s.setChan src dst rest)
  /-- A node crashes and restarts. -/
  | restart (i : Nat) (hi : i < S.nnodes) (cut : Cut) :
      Micro S s (s.restart S i ((s.disk i).crash cut))

/-! ## A run of voter steps inside the system -/

theorem sentTo_append (dst : Nat) (es fs : List Effect) :
    sentTo dst (es ++ fs) = sentTo dst es ++ sentTo dst fs := by
  simp [sentTo]

section Access

variable (s : System) (i j : Nat)

theorem System.perform_nil : s.perform i [] = s := by
  unfold System.perform
  congr 1
  · funext j
    by_cases hj : j = i <;> simp [hj, Disk.applyAll]
  · funext a b
    by_cases ha : a = i <;> simp [ha, sentTo]

theorem System.perform_append (es fs : List Effect) :
    s.perform i (es ++ fs) = (s.perform i es).perform i fs := by
  unfold System.perform
  congr 1
  · funext j
    by_cases hj : j = i <;> simp [hj, applyAll_append]
  · funext a b
    by_cases ha : a = i <;> simp [ha, sentTo_append]

theorem System.setVoter_setVoter (a b : Voter) :
    (s.setVoter i a).setVoter i b = s.setVoter i b := by
  unfold System.setVoter
  congr 1
  funext j
  by_cases hj : j = i <;> simp [hj]

theorem System.setVoter_self : s.setVoter i (s.voter i) = s := by
  unfold System.setVoter
  congr 1
  funext j
  by_cases hj : j = i <;> simp [hj]

/-! ### What the pieces of a step read -/

@[simp] theorem System.setVoter_voter_self (c : Voter) : (s.setVoter i c).voter i = c := if_pos rfl

@[simp] theorem System.setVoter_voter_ne (c : Voter) (h : j ≠ i) :
    (s.setVoter i c).voter j = s.voter j := if_neg h

@[simp] theorem System.setVoter_disk (c : Voter) : (s.setVoter i c).disk = s.disk := rfl

@[simp] theorem System.setVoter_chan (c : Voter) : (s.setVoter i c).chan = s.chan := rfl

@[simp] theorem System.setChan_voter (fs : List Frame) : (s.setChan i j fs).voter = s.voter := rfl

@[simp] theorem System.setChan_disk (fs : List Frame) : (s.setChan i j fs).disk = s.disk := rfl

@[simp] theorem System.perform_voter (es : List Effect) : (s.perform i es).voter = s.voter := rfl

@[simp] theorem System.perform_disk_self (es : List Effect) :
    (s.perform i es).disk i = (s.disk i).applyAll es := if_pos rfl

@[simp] theorem System.perform_disk_ne (es : List Effect) (h : j ≠ i) :
    (s.perform i es).disk j = s.disk j := if_neg h

variable (S : Setup) (d : Disk)

@[simp] theorem System.restart_voter_self :
    (s.restart S i d).voter i = (S.boot i d).voter := if_pos rfl

@[simp] theorem System.restart_voter_ne (h : j ≠ i) :
    (s.restart S i d).voter j = s.voter j := if_neg h

@[simp] theorem System.restart_disk_self :
    (s.restart S i d).disk i = d.applyAll (S.boot i d).out := if_pos rfl

@[simp] theorem System.restart_disk_ne (h : j ≠ i) : (s.restart S i d).disk j = s.disk j := if_neg h

end Access

variable {S : Setup}

variable {a b : Voter} {effs : List Effect} {dst : Nat} {f : Frame} {c' : Cluster} {s s' : System}

theorem voterSteps_micro {i : Nat} (hi : i < S.nnodes) (hSteps : VoterSteps a effs b) :
    ReflTransGen (Micro S) (s.setVoter i a) ((s.perform i effs).setVoter i b) := by
  induction hSteps generalizing s with
  | refl a => rw [System.perform_nil]
  | @cons a b c e es hStep hSteps ih =>
    have hAct := Micro.act (S := S) (s := s.setVoter i a) i hi e b
      (by simpa [System.setVoter] using hStep)
    have hEq : ((s.setVoter i a).perform i e).setVoter i b = (s.perform i e).setVoter i b :=
      System.setVoter_setVoter (s.perform i e) i a b
    rw [hEq] at hAct
    have hRest := ih (s := s.perform i e)
    rw [← System.perform_append] at hRest
    exact .head hAct hRest

/-! ## Frames on their way -/

/-- The frame of `src` that a node holds. -/
def Voter.handFrom (c : Voter) (src : Nat) : List Frame :=
  match c.hand with
  | some (p, f) => if p = src then [f] else []
  | none => []

/-- What is on its way from `src` to `dst`: in the receiver's hands or in the channel. -/
def System.flight (s : System) (src dst : Nat) : List Frame :=
  (s.voter dst).handFrom src ++ s.chan src dst

theorem handFrom_eq_nil {c : Voter} (hHand : c.hand = none) (src : Nat) : c.handFrom src = [] := by
  unfold Voter.handFrom
  rw [hHand]

theorem mem_flight_of_hand {p : Nat}
    (hHand : (s.voter dst).hand = some (p, f)) : f ∈ s.flight p dst := by
  simp [System.flight, Voter.handFrom, hHand]

theorem flight_of_hand {p : Nat}
    (hHand : (s.voter dst).hand = some (p, f)) : s.flight p dst = f :: s.chan p dst := by
  simp [System.flight, Voter.handFrom, hHand]

/-- What a step of node `i` puts on the way. -/
def sentBy (i src dst : Nat) (effs : List Effect) : List Frame :=
  if src = i then sentTo dst effs else []

theorem flight_act (s : System) (i : Nat) (effs : List Effect)
    (hHand : b.hand = (s.voter i).hand) (src dst : Nat) :
    ((s.perform i effs).setVoter i b).flight src dst =
      s.flight src dst ++ sentBy i src dst effs := by
  have hFrom : (((s.perform i effs).setVoter i b).voter dst).handFrom src =
      (s.voter dst).handFrom src := by
    by_cases hd : dst = i
    · subst hd
      simp [Voter.handFrom, hHand]
    · simp [hd]
  unfold System.flight sentBy
  rw [hFrom, append_assoc]
  congr 1
  show (if src = i then _ else _) = _
  split <;> simp

theorem flight_done (s : System) (i : Nat) (effs : List Effect)
    (hHand : b.hand = none) (src dst : Nat) :
    ((s.perform i effs).setVoter i b).flight src dst =
      (if dst = i then s.chan src dst else s.flight src dst) ++ sentBy i src dst effs := by
  have hChan : ((s.perform i effs).setVoter i b).chan src dst =
      s.chan src dst ++ sentBy i src dst effs := by
    show (if src = i then _ else _) = _
    unfold sentBy
    split <;> simp
  unfold System.flight
  rw [hChan]
  by_cases hd : dst = i
  · subst hd
    simp [handFrom_eq_nil hHand]
  · simp [hd]

theorem flight_act_sublist (s : System) (i : Nat) (effs : List Effect)
    (hHand : b.hand = (s.voter i).hand ∨ b.hand = none) (src dst : Nat) :
    (((s.perform i effs).setVoter i b).flight src dst).Sublist
      (s.flight src dst ++ sentBy i src dst effs) := by
  rcases hHand with hHand | hHand
  · rw [flight_act s i effs hHand]
  -- as if the hand were kept, then emptied
  rw [← flight_act s i effs (b := s.voter i) rfl]
  refine List.Sublist.append ?_ (List.Sublist.refl _)
  by_cases hd : dst = i
  · subst hd
    simp [handFrom_eq_nil hHand]
  · simp [hd]

theorem flight_take_sublist {src : Nat} {rest : List Frame}
    (hChan : (f :: rest) <:+ s.chan src dst) (hIdle : (s.voter dst).hand = none) (a b : Nat) :
    (((s.setChan src dst rest).setVoter dst
      { s.voter dst with hand := some (src, f) }).flight a b).Sublist (s.flight a b) := by
  unfold System.flight
  by_cases hb : b = dst
  · subst hb
    rw [handFrom_eq_nil hIdle]
    by_cases ha : a = src
    · subst ha
      simpa [Voter.handFrom, System.setChan] using hChan.sublist
    · simp [Voter.handFrom, System.setChan, ha, Ne.symm ha]
  · simp [System.setChan, hb]

theorem flight_lose_sublist {src : Nat} {rest : List Frame}
    (hChan : rest <:+ s.chan src dst) (a b : Nat) :
    ((s.setChan src dst rest).flight a b).Sublist (s.flight a b) := by
  refine List.Sublist.append (List.Sublist.refl _) ?_
  simp only [System.setChan]
  split
  · rename_i hab
    rw [hab.1, hab.2]
    exact hChan.sublist
  · exact (List.Sublist.refl _)

theorem flight_restart_sublist (s : System) (S : Setup) (i : Nat) (d : Disk) (a b : Nat) :
    ((s.restart S i d).flight a b).Sublist (s.flight a b) := by
  unfold System.flight
  by_cases hb : b = i
  · subst hb
    have hHand : (S.boot b d).voter.hand = none := rfl
    simp [System.restart, handFrom_eq_nil hHand]
  · simp [System.restart, hb]

/-! ## Callbacks of the cluster -/

/-- Events that keep data directories and during which `persist_meta` succeeds. -/
def Event.keepsMeta : Event → Bool
  | .step _ (.own (.setIo io)) | .crashIn _ (.own (.setIo io)) _ _ => io.metaOk
  | .wipe _ => false
  | _ => true

/-- Between events no node has effects left to perform, and metadata writes succeed. -/
structure Settled (c : Cluster) : Prop where
  out : ∀ i, (c.node i).out = []
  metaOk : ∀ i, (c.node i).io.metaOk = true

/-- The start of a callback: the frame is in hand, the channels are as after `begin`, and
the callback is a run of voter steps from there. -/
structure Begun (S : Setup) (c : Cluster) (i : Nat) (c' : Cluster) (n : Node) : Prop where
  metaOk : n.io.metaOk = true
  run : ∃ a : Voter, ReflTransGen (Micro S) c.system (c'.system.setVoter i a) ∧
    VoterSteps a n.out n.voter

section Begin

variable {c : Cluster} {i src : Nat}

variable (hi : i < S.nnodes) (hSettled : Settled c)
include hSettled

theorem begun_quiet {n : Node} (rest : List Frame) (hChan : rest <:+ c.chan src i)
    (hSim : Sim {} {} (c.node i) n) : Begun S c i (c.setChan src i rest) n := by
  obtain ⟨hMeta, effs, hOut, hSteps⟩ := hSim (hSettled.metaOk i)
  rw [hSettled.out i, nil_append] at hOut
  refine ⟨hMeta, (c.node i).voter, ?_, hOut ▸ hSteps⟩
  have hLose := Micro.lose (S := S) (s := c.system) src i rest hChan
  have hEq : (c.setChan src i rest).system.setVoter i (c.node i).voter =
      c.system.setChan src i rest :=
    System.setVoter_self (c.system.setChan src i rest) i
  rw [hEq]
  exact .single hLose

include hi

theorem begun_dispatch (f : Frame) (rest : List Frame) (hChan : (f :: rest) <:+ c.chan src i) :
    Begun S c i (c.setChan src i rest) (clDispatch (c.node i) src f) := by
  obtain ⟨hMeta, effs, hOut, hSteps⟩ := sim_clDispatch src f (hSettled.metaOk i)
  rw [hSettled.out i, nil_append] at hOut
  refine ⟨hMeta, (c.node i).voterIn { frame := some (src, f) }, ?_, hOut ▸ hSteps⟩
  exact .single (Micro.take (S := S) (s := c.system) src i f rest hi hChan rfl)

theorem begun_begin {inp : Input} {c' : Cluster} {n : Node} (hBegin : c.begin i inp = some (c', n))
    (hOk : ∀ io, inp = .own (.setIo io) → io.metaOk = true) : Begun S c i c' n := by
  cases begins hBegin with
  | @own cb c₁ hOn hCut =>
    have hSim := sim_callback (n := c.node i) cb fun io hIo => hOk io (by rw [hIo])
    rcases hCut with rfl | ⟨p, rfl, rfl⟩
    · obtain ⟨hMeta, effs, hOut, hSteps⟩ := hSim (hSettled.metaOk i)
      rw [hSettled.out i, nil_append] at hOut
      refine ⟨hMeta, (c'.node i).voter, ?_, hOut ▸ hSteps⟩
      rw [show (c'.node i).voter = c'.system.voter i from rfl, System.setVoter_self]
    · exact begun_quiet hSettled [] nil_suffix hSim
  | lost hFrom hChan => exact begun_quiet hSettled _ ((suffix_cons _ _).trans hChan) .refl
  | @dropped inp src f rest =>
    have hEq : (c.setChan src i rest).setChan src i [] = c.setChan src i [] := by
      unfold Cluster.setChan
      congr 1
      funext x y
      by_cases hxy : x = src ∧ y = i <;> simp [hxy]
    rw [hEq]
    exact begun_quiet hSettled [] nil_suffix (sim_stages (stages_dropPeerLink src))
  | @dispatched inp src f rest c₁ hFrom hChan hEnds hTaken =>
    obtain ⟨hMeta, a, hRun, hSteps⟩ := begun_dispatch hi hSettled f rest hChan
    rcases hEnds with rfl | rfl
    · exact ⟨hMeta, a, hRun, hSteps⟩
    -- the old connection ends in the other direction as well
    refine ⟨hMeta, a, hRun.tail ?_, hSteps⟩
    exact Micro.lose (S := S) (s := (c.setChan src i rest).system.setVoter i a)
      i src [] nil_suffix

end Begin

/-! ## Events of the cluster -/

theorem Begun.run_perform {c : Cluster} {i : Nat} {n : Node} (hBegun : Begun S c i c' n)
    (hi : i < S.nnodes) :
    ReflTransGen (Micro S) c.system ((c'.perform i n.out).setNode i n.settle).system := by
  obtain ⟨-, a, hRun, hSteps⟩ := hBegun
  have hSys : ((c'.perform i n.out).setNode i n.settle).system =
      (c'.system.perform i n.out).setVoter i n.voter := by
    refine System.ext (funext fun j => ?_) rfl rfl
    simp only [Cluster.system, Cluster.setNode, System.setVoter]
    split <;> rfl
  rw [hSys]
  exact hRun.trans (voterSteps_micro hi hSteps)

theorem restart_system (c : Cluster) (i : Nat) (d : Disk) :
    (c.restart S i d).system = c.system.restart S i d := by
  refine System.ext (funext fun j => ?_) rfl rfl
  simp only [Cluster.system, Cluster.restart, Cluster.setNode, System.restart]
  split <;> rfl

theorem System.restart_setVoter (s : System) (i : Nat) (b : Voter) (d : Disk) :
    (s.setVoter i b).restart S i d = s.restart S i d := by
  refine System.ext (funext fun j => ?_) rfl rfl
  by_cases hj : j = i <;> simp [System.restart, System.setVoter, hj]

theorem Begun.run_crash {c : Cluster} {i : Nat} {n : Node} (hBegun : Begun S c i c' n)
    (hi : i < S.nnodes) (k : Nat) (cut : Cut) :
    ReflTransGen (Micro S) c.system
      ((c'.perform i (n.out.take k)).restart S i
        (((c'.perform i (n.out.take k)).disk i).crash cut)).system := by
  obtain ⟨-, a, hRun, hSteps⟩ := hBegun
  obtain ⟨b, hPart⟩ := hSteps.take k
  have hBefore := hRun.trans (voterSteps_micro hi hPart)
  have hRestart := Micro.restart (S := S)
    (s := (c'.system.perform i (n.out.take k)).setVoter i b) i hi cut
  rw [System.restart_setVoter] at hRestart
  rw [restart_system]
  exact hBefore.tail hRestart

/-- **A step of the cluster is a run of the system**, and metadata writes go on to succeed. -/
theorem step_micro {c : Cluster} {ev : Event} (hSettled : Settled c)
    (hOk : ev.keepsMeta = true) (hStep : c.step S ev = some c') :
    ReflTransGen (Micro S) c.system c'.system ∧ Settled c' := by
  have hSettled' : Settled c' := by
    have hNode : ∀ i, (c'.node i).out = [] ∧ (c'.node i).io.metaOk = true := by
      intro i
      have hNode := nodeStep_of_step hStep i
      generalize c'.node i = n, c'.disk i = d at hNode
      cases hNode with
      | same => exact ⟨hSettled.out i, hSettled.metaOk i⟩
      | restart d => exact ⟨rfl, hSettled.metaOk i⟩
      | callback hBegin =>
        have hi : i < S.nnodes := by
          by_contra hOut
          simp [Cluster.step, hOut] at hStep
        exact ⟨rfl, (begun_begin hi hSettled hBegin (by rintro io rfl; exact hOk)).metaOk⟩
    exact ⟨fun i => (hNode i).1, fun i => (hNode i).2⟩
  refine ⟨?_, hSettled'⟩
  cases ev with
  | step i inp =>
    obtain ⟨hi, hStep⟩ := Option.ite_none_right_eq_some.mp hStep
    obtain ⟨⟨c₁, n⟩, hBegin, rfl⟩ := Option.map_eq_some_iff.mp hStep
    exact (begun_begin hi hSettled hBegin (by rintro io rfl; exact hOk)).run_perform hi
  | crashIn i inp k cut =>
    obtain ⟨hi, hStep⟩ := Option.ite_none_right_eq_some.mp hStep
    obtain ⟨⟨c₁, n⟩, hBegin, rfl⟩ := Option.map_eq_some_iff.mp hStep
    exact (begun_begin hi hSettled hBegin (by rintro io rfl; exact hOk)).run_crash hi k cut
  | crash i cut =>
    obtain ⟨hi, ⟨⟩⟩ := Option.ite_none_right_eq_some.mp hStep
    rw [restart_system]
    exact .single (.restart i hi cut)
  | wipe i => cases hOk

/-! ## Configuration, metadata and terms -/

theorem VoterStep.cfg_eq (hStep : VoterStep a effs b) : b.cfg = a.cfg := by
  cases hStep with
  | other _ _ hCfg => exact hCfg
  | _ => rfl

theorem VoterStep.term_le (hStep : VoterStep a effs b) : a.term ≤ b.term := by
  cases hStep with
  | adopt t hNew => exact hNew.le
  | campaign hAsk => exact Nat.le_succ _
  | other _ _ _ hTerm => exact hTerm.ge
  | _ => exact Nat.le_refl _

theorem meta_of_quiet (hQuiet : ∀ e ∈ effs, e.casts = false) (d : Disk) :
    (d.applyAll effs).term = d.term ∧ (d.applyAll effs).votedFor = d.votedFor := by
  induction effs generalizing d with
  | nil => exact ⟨rfl, rfl⟩
  | cons e effs ih =>
    obtain ⟨hTerm, hVote⟩ := ih (fun x hx => hQuiet x (mem_cons_of_mem _ hx)) (d.apply e)
    refine ⟨hTerm.trans ?_, hVote.trans ?_⟩ <;> cases e <;>
      first | rfl | cases hQuiet _ mem_cons_self

theorem VoterStep.meta_eq (hStep : VoterStep a effs b)
    {d : Disk} (hTerm : d.term = a.term) (hVote : d.votedFor = a.votedFor) :
    (d.applyAll effs).term = b.term ∧ (d.applyAll effs).votedFor = b.votedFor := by
  cases hStep with
  | adopt | campaign => exact ⟨rfl, rfl⟩
  | vote => exact ⟨rfl, rfl⟩
  | other effs b _ hTerm' hVote' _ _ _ _ hQuiet =>
    obtain ⟨hSameTerm, hSameVote⟩ := meta_of_quiet hQuiet d
    exact ⟨(hSameTerm.trans hTerm).trans hTerm'.symm, (hSameVote.trans hVote).trans hVote'.symm⟩
  | _ => exact ⟨hTerm, hVote⟩

/-- What holds of a voter and its disk in every state of the system, whatever happens. -/
structure SoundAt (S : Setup) (i : Nat) (a : Voter) (d : Disk) : Prop where
  cfg : a.cfg = (S.freshNode i).cfg
  term : d.term = a.term
  vote : d.votedFor = a.votedFor

def Sound (S : Setup) (s : System) : Prop := ∀ i, SoundAt S i (s.voter i) (s.disk i)

theorem soundAt_boot (i : Nat) (d : Disk) :
    SoundAt S i (S.boot i d).voter (d.applyAll (S.boot i d).out) := by
  obtain ⟨hCfg, -, hTerm, hVote, size, hOut⟩ := boot_facts (S := S) i d
  rw [hOut]
  exact ⟨hCfg, hTerm.symm, hVote.symm⟩

theorem sound_micro (hSound : Sound S s) (hStep : Micro S s s') : Sound S s' := by
  intro j
  cases hStep with
  | act i hi effs a hStep =>
    by_cases hj : j = i
    · subst hj
      obtain ⟨hTerm, hVote⟩ := hStep.meta_eq (hSound j).term (hSound j).vote
      simpa using SoundAt.mk (hStep.cfg_eq.trans (hSound j).cfg) hTerm hVote
    · simpa [hj] using hSound j
  | take src dst f rest hDst hChan hIdle =>
    by_cases hj : j = dst
    · subst hj
      obtain ⟨hCfg, hTerm, hVote⟩ := hSound j
      rw [System.setVoter_voter_self]
      exact ⟨hCfg, hTerm, hVote⟩
    · simpa [hj] using hSound j
  | lose src dst rest hChan => exact hSound j
  | restart i hi cut =>
    by_cases hj : j = i
    · subst hj
      simpa using soundAt_boot j ((s.disk j).crash cut)
    · simpa [hj] using hSound j

theorem term_le_micro (hSound : Sound S s) (hStep : Micro S s s')
    (j : Nat) : (s.voter j).term ≤ (s'.voter j).term := by
  cases hStep with
  | act i hi effs a hStep =>
    by_cases hj : j = i
    · subst hj
      simpa using hStep.term_le
    · simp [hj]
  | take src dst f rest hDst hChan hIdle =>
    by_cases hj : j = dst
    · subst hj
      simp
    · simp [hj]
  | lose src dst rest hChan => exact Nat.le_refl _
  | restart i hi cut =>
    by_cases hj : j = i
    · subst hj
      obtain ⟨-, -, hTerm, -⟩ := boot_facts (S := S) j ((s.disk j).crash cut)
      rw [System.restart_voter_self]
      exact ((hSound j).term.symm.trans hTerm.symm).le
    · simp [hj]

/-! ## Runs -/

/-- A step after which every term still fits the 32 bits a frame has for it. -/
def Bounded (S : Setup) (s s' : System) : Prop :=
  Micro S s s' ∧ ∀ i, i < S.nnodes → (s'.voter i).term < 2 ^ 32

theorem bounded_of_micro (hSound : Sound S s) (hRun : ReflTransGen (Micro S) s s')
    (hEnd : ∀ i, i < S.nnodes → (s'.voter i).term < 2 ^ 32) :
    ReflTransGen (Bounded S) s s' ∧ Sound S s' ∧
      ∀ i, i < S.nnodes → (s.voter i).term < 2 ^ 32 := by
  induction hRun using ReflTransGen.head_induction_on with
  | refl => exact ⟨.refl, hSound, hEnd⟩
  | @head a b hStep _ ih =>
    obtain ⟨hRest, hSound', hTerms⟩ := ih (sound_micro hSound hStep)
    refine ⟨.head ⟨hStep, hTerms⟩ hRest, hSound', fun i hi => ?_⟩
    exact Nat.lt_of_le_of_lt (term_le_micro hSound hStep i) (hTerms i hi)

/-- The steps of a run in which every term and vote reaches the disk and terms stay below
`2^32`. -/
def DurableMeta (S : Setup) (_ : Cluster) (ev : Event) (c' : Cluster) : Prop :=
  ev.keepsMeta = true ∧ ∀ i, i < S.nnodes → (c'.node i).term < 2 ^ 32

structure Fit (S : Setup) (c : Cluster) : Prop where
  settled : Settled c
  sound : Sound S c.system

theorem fit_init : Fit S S.init where
  settled := by
    refine ⟨fun _ => rfl, fun i => ?_⟩
    show (S.boot i {}).io.metaOk = true
    rw [(boot_facts (S := S) i {}).2.1]
  sound := fun i => soundAt_boot i {}

/-- **A run with durable terms and votes is a bounded run of the system.** -/
theorem reach_micro {c : Cluster} (hFit : Fit S c)
    (hReach : Run.Reach (Cluster.step S) (DurableMeta S) c c') :
    ReflTransGen (Bounded S) c.system c'.system ∧ Fit S c' := by
  induction hReach with
  | refl => exact ⟨.refl, hFit⟩
  | next _ hStep hGood ih =>
    obtain ⟨hRun, hFit₁⟩ := ih
    obtain ⟨hMicro, hSettled⟩ := step_micro hFit₁.settled hGood.1 hStep
    obtain ⟨hBounded, hSound, -⟩ := bounded_of_micro hFit₁.sound hMicro hGood.2
    exact ⟨hRun.trans hBounded, hSettled, hSound⟩

end BeaverMQ
