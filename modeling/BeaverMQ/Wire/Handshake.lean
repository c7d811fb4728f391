import BeaverMQ.Model.Mesh

/-!
# BeaverMQ — the mesh handshake

Which frames are taken on which sockets. An accepted socket is bound to a peer only by a
HELLO that verifies. A dialed socket is read by `on_peer_read` from the first byte on, and
nothing there asks for the HELLO_ACK: the answer to the HELLO may be any frame.
-/

namespace BeaverMQ

open List FrameType

/-! ## What a socket has proved -/

/-- A HELLO or HELLO_ACK among the frames verifies under the secret and claims to be `p`. -/
def Authenticated (secret : Bytes) (p : Nat) (frames : List RawFrame) : Prop :=
  ∃ f ∈ frames, f.isHello = true ∧ helloPayloadVerify secret f.hdr.type f.payload = some p

instance (secret : Bytes) (p : Nat) (frames : List RawFrame) :
    Decidable (Authenticated secret p frames) :=
  inferInstanceAs (Decidable (∃ f ∈ frames, _))

variable {secret : Bytes} {p : Nat} {sock : Sock} {m : Mesh}

theorem Authenticated.append {frames : List RawFrame}
    (hAuth : Authenticated secret p frames) (more : List RawFrame) :
    Authenticated secret p (frames ++ more) := by
  obtain ⟨f, hMem, hf⟩ := hAuth
  exact ⟨f, mem_append_left _ hMem, hf⟩

/-- A dispatched frame is a HELLO or a HELLO_ACK, or comes after one that verified. -/
def Dispatched.Gated (secret : Bytes) (d : Dispatched) : Prop :=
  d.frame.isHello = false → Authenticated secret d.slot d.earlier

/-- What the handshake protects: two nodes that agree on term, vote, role, log, commit index,
queues and access control. -/
def Node.SameState (a b : Node) : Prop :=
  a.term = b.term ∧ a.votedFor = b.votedFor ∧ a.role = b.role ∧ a.log = b.log ∧
    a.applied.broker.queues = b.applied.broker.queues ∧ a.applied.auth = b.applied.auth

/-! ## Draining a read -/

theorem authenticated_of_kept {n : Node} {f : RawFrame}
    (hHello : f.isHello = true) (hKept : (dispatchRaw secret n p f).2 = false)
    (frames : List RawFrame) : Authenticated secret p (frames ++ [f]) := by
  refine ⟨f, by simp, hHello, ?_⟩
  simp only [RawFrame.isHello, Bool.or_eq_true, decide_eq_true_eq] at hHello
  rcases hHello with hType | hType
  · rw [dispatchRaw, hType] at hKept
    by_cases hOk : helloPayloadVerify secret hello.code f.payload = some p
    · rw [hType]
      exact hOk
    · simp [ofCode, code] at hKept hOk
      simp [hOk] at hKept
  rw [dispatchRaw, hType] at hKept
  by_cases hOk : helloPayloadVerify secret helloAck.code f.payload = some p
  · rw [hType]
    exact hOk
  · simp [ofCode, code] at hKept hOk
    simp [hOk] at hKept

/-- The buffer does not start with a complete frame other than HELLO and HELLO_ACK. -/
def StartsWithHello (buf : Bytes) : Prop :=
  match nextFrame buf with
  | .frame f _ => f.isHello = true
  | .wait | .bad => True

instance (buf : Bytes) : Decidable (StartsWithHello buf) := by
  unfold StartsWithHello
  split <;> infer_instance

theorem drain_seen (secret : Bytes) (p k : Nat) (r : Reader) :
    r.seen <+: (clDrainFrames secret p k r).seen := by
  induction k generalizing r with
  | zero => exact prefix_rfl
  | succ k ih =>
    rw [clDrainFrames]
    split
    · exact prefix_rfl
    · exact prefix_rfl
    · dsimp only
      split
      · exact prefix_append _ _
      · refine List.IsPrefix.trans ?_ (ih _)
        exact prefix_append _ _

theorem drain_gated (k : Nat) {r : Reader} (hTrace : ∀ d ∈ r.trace, d.Gated secret)
    (hStart : Authenticated secret p r.seen ∨ StartsWithHello r.buf) :
    ∀ d ∈ (clDrainFrames secret p k r).trace, d.Gated secret := by
  induction k generalizing r with
  | zero => exact hTrace
  | succ k ih =>
    rw [clDrainFrames]
    cases hNext : nextFrame r.buf with
    | wait | bad => exact hTrace
    | frame f rest =>
      -- the new frame is gated: it is a HELLO, or the link was authenticated before
      have hNew : f.isHello = false → Authenticated secret p r.seen := by
        intro hNot
        rcases hStart with hAuth | hFirst
        · exact hAuth
        · rw [StartsWithHello, hNext] at hFirst
          simp [hNot] at hFirst
      have hAll : ∀ d ∈ r.trace ++ [{ slot := p, frame := f, earlier := r.seen, before := r.node
                                      after := (dispatchRaw secret r.node p f).1 }],
          Dispatched.Gated secret d := by
        intro d hd
        rcases mem_append.mp hd with hOld | hd
        · exact hTrace d hOld
        · rw [mem_singleton.mp hd]
          exact hNew
      dsimp only
      split
      · exact hAll
      rename_i hKept
      refine ih hAll (.inl ?_)
      by_cases hHello : f.isHello = true
      · exact authenticated_of_kept hHello (by simpa using hKept) _
      · exact (hNew (by simpa using hHello)).append [f]

/-! ## Runs -/

def Sock.Sound (secret : Bytes) (sock : Sock) : Prop :=
  ∀ p, sock.state = .bound p → Authenticated secret p sock.seen

/-- The invariant: every bound socket is authenticated, every dispatched frame gated. -/
structure Mesh.Sound (m : Mesh) : Prop where
  socks : ∀ sock ∈ m.socks, sock.Sound m.secret
  trace : ∀ d ∈ m.trace, d.Gated m.secret

/-- What the other end of a dialed socket may send: bytes on a socket that is not
authenticated yet do not complete a frame other than HELLO and HELLO_ACK there. -/
def HelloFirst (m : Mesh) : MeshEvent → Prop
  | .recv s bs =>
    match m.socks[s]? with
    | some sock =>
      match sock.state with
      | .dialed p => Authenticated m.secret p sock.seen ∨ StartsWithHello (sock.rbuf ++ bs)
      | _ => True
    | none => True
  | _ => True

instance (m : Mesh) (e : MeshEvent) : Decidable (HelloFirst m e) := by
  unfold HelloFirst
  split
  · split
    · split <;> infer_instance
    · infer_instance
  · infer_instance

theorem Sock.sound_close (secret : Bytes) (sock : Sock) : sock.close.Sound secret := by
  intro p hState
  cases hState

theorem meshSound_set {socks : List Sock}
    (hSocks : ∀ old ∈ socks, old.Sound secret) (hSock : sock.Sound secret) (s : Nat) :
    ∀ old ∈ socks.set s sock, old.Sound secret := by
  intro old hOld
  rcases mem_or_eq_of_mem_set hOld with hOld | rfl
  · exact hSocks old hOld
  · exact hSock

theorem meshSound_onPeerRead {s : Nat} {bs : Bytes} (hm : m.Sound) (hSock : sock.Sound m.secret)
    (hStart : Authenticated m.secret p sock.seen ∨ StartsWithHello (sock.rbuf ++ bs)) :
    (onPeerRead m s p sock bs).Sound := by
  let r : Reader := { node := m.node, buf := sock.rbuf ++ bs, seen := sock.seen, trace := m.trace }
  have hTrace : ∀ d ∈ (clDrainFrames m.secret p (sock.rbuf ++ bs).length r).trace,
      d.Gated m.secret := drain_gated _ hm.trace hStart
  have hSeen := drain_seen m.secret p (sock.rbuf ++ bs).length r
  unfold onPeerRead
  dsimp only
  split
  · refine ⟨meshSound_set hm.socks ?_ s, hTrace⟩
    intro q hState
    obtain ⟨more, hMore⟩ := hSeen
    have hAuth := (hSock q hState).append more
    rw [show sock.seen = r.seen from rfl, hMore] at hAuth
    exact hAuth
  · exact ⟨meshSound_set hm.socks (Sock.sound_close _ _) s, hTrace⟩

theorem meshSound_onInboundRead {s : Nat} {bs : Bytes} (hm : m.Sound)
    (hWaiting : sock.state = .waiting) : (onInboundRead m s sock bs).Sound := by
  have hKeep : Mesh.Sound (m.setSock s { sock with rbuf := sock.rbuf ++ bs }) :=
    ⟨meshSound_set hm.socks (fun p hState => by rw [hWaiting] at hState; cases hState) s, hm.trace⟩
  have hReject : Mesh.Sound (m.setSock s sock.close) :=
    ⟨meshSound_set hm.socks (Sock.sound_close _ _) s, hm.trace⟩
  unfold onInboundRead
  dsimp only
  split
  · exact hKeep
  split
  · exact hReject
  rename_i h hParse
  split
  · exact hReject
  rename_i hType
  split
  · exact hKeep
  split
  · exact hReject
  split
  · exact hReject
  rename_i p hVerify
  split
  · exact hReject
  refine ⟨meshSound_set ?_ ?_ s, hm.trace⟩
  · intro old hOld
    obtain ⟨old, hMem, rfl⟩ := mem_map.mp hOld
    split
    · exact Sock.sound_close _ _
    · exact hm.socks old hMem
  · intro q hState
    cases hState
    have hHello : h.type = hello.code := not_not.mp hType
    refine ⟨_, mem_append_right _ (mem_singleton_self _), ?_, ?_⟩
    · simp [RawFrame.isHello, hHello]
    · show helloPayloadVerify m.secret h.type _ = some p
      rw [hHello]
      exact hVerify

theorem meshSound_step {m' : Mesh} {e : MeshEvent} (hm : m.Sound) (hStep : m.step e = some m')
    (hGood : HelloFirst m e) : m'.Sound := by
  have hAdd : ∀ sock : Sock, (∀ p, sock.state ≠ .bound p) →
      ∀ old ∈ m.socks ++ [sock], old.Sound m.secret := by
    intro sock hNot old hOld
    rcases mem_append.mp hOld with hOld | hOld
    · exact hm.socks old hOld
    · rw [mem_singleton.mp hOld]
      exact fun p hState => absurd hState (hNot p)
  have hClose : ∀ (s : Nat) (sock : Sock), ∀ old ∈ m.socks.set s sock.close,
      old.Sound m.secret := fun s sock => meshSound_set hm.socks (Sock.sound_close _ _) s
  cases e with
  | dial p =>
    obtain ⟨-, ⟨⟩⟩ := Option.ite_none_right_eq_some.mp hStep
    exact ⟨hAdd _ (by simp), hm.trace⟩
  | accept =>
    cases hStep
    exact ⟨hAdd _ (by simp), hm.trace⟩
  | recv s bs =>
    simp only [Mesh.step] at hStep
    split at hStep
    · cases hStep
    rename_i sock hAt
    have hSock := hm.socks sock (mem_of_getElem? hAt)
    split at hStep <;> cases hStep
    · rename_i p hState
      simp only [HelloFirst, hAt, hState] at hGood
      exact meshSound_onPeerRead hm hSock hGood
    · rename_i p hState
      exact meshSound_onPeerRead hm hSock (.inl (hSock p hState))
    · rename_i hState
      exact meshSound_onInboundRead hm hState
  | eof s =>
    simp only [Mesh.step] at hStep
    split at hStep
    · cases hStep
    rename_i sock hAt
    split at hStep <;> cases hStep <;> exact ⟨hClose s sock, hm.trace⟩
  | own cb =>
    cases cb <;> simp only [Mesh.step, reduceCtorEq] at hStep <;>
      (split at hStep <;> cases hStep) <;> exact ⟨hm.socks, hm.trace⟩

def Mesh.start (secret : Bytes) (n : Node) : Mesh := { secret, node := n }

/-- In every run in which a dialed link starts with a HELLO or HELLO_ACK, every other frame
that reaches `cl_dispatch`, on dialed and on accepted sockets, comes after a HELLO or HELLO_ACK
on its socket that verified under the secret and named the peer of the slot. -/
theorem handshake_run {secret : Bytes} {n : Node} {m : Mesh}
    (hReach : Run.Reach Mesh.step (fun a e _ => HelloFirst a e) (Mesh.start secret n) m) :
    ∀ d ∈ m.trace, d.frame.isHello = false → Authenticated m.secret d.slot d.earlier := by
  have hSound : m.Sound :=
    Run.Reach.invariant (P := Mesh.Sound)
      (fun _ _ _ hSound hStep hGood => meshSound_step hSound hStep hGood)
      ⟨fun _ hMem => absurd hMem not_mem_nil, fun _ hMem => absurd hMem not_mem_nil⟩
      hReach
  exact hSound.trace

def demoMeshNode : Node := (({ nnodes := 3 } : Setup).boot 0 {}).settle

def demoSecret : Bytes := [0x62, 0x65, 0x61, 0x76, 0x65, 0x72]

def demoVoteReq : Bytes := RawFrame.encode voteReq.code 0 7 []

def demoHelloAck : Bytes :=
  RawFrame.encode helloAck.code 0 0
    (helloPayloadBuild demoSecret 1 helloAck.code 5)

/-- The run of a good peer: its HELLO_ACK and a VOTE_REQ come in one read, and the vote goes
out after the handshake. -/
theorem handshake_run_voted : ∃ m, Run.Reach Mesh.step (fun a e _ => HelloFirst a e)
      (Mesh.start demoSecret demoMeshNode) m ∧ m.node.term = 7 ∧ m.node.votedFor = some 1 ∧
      ∀ d ∈ m.trace, d.frame.isHello = false → Authenticated m.secret d.slot d.earlier := by
  obtain ⟨m, hReach, hTerm, hVote⟩ : ∃ m, Run.Reach Mesh.step (fun a e _ => HelloFirst a e)
      (Mesh.start demoSecret demoMeshNode) m ∧ m.node.term = 7 ∧ m.node.votedFor = some 1 :=
    Run.exists_reach [.dial 1, .recv 0 (demoHelloAck ++ demoVoteReq)] (by decide +kernel)
  exact ⟨m, hReach, hTerm, hVote, handshake_run hReach⟩

/-- Whoever answers on a dialed socket needs no secret: a bare VOTE_REQ moves the node to its
term and takes its vote. -/
theorem handshake_skipped : ∃ m, Run.runList Mesh.step (Mesh.start demoSecret demoMeshNode)
      [.dial 1, .recv 0 demoVoteReq] = some m ∧ m.node.term = 7 ∧ m.node.votedFor = some 1 ∧
      ∃ d ∈ m.trace, d.frame.isHello = false ∧ ¬ d.before.SameState d.after ∧
        ¬ Authenticated m.secret d.slot d.earlier := by
  refine ⟨_, rfl, by decide +kernel, by decide +kernel, _, mem_singleton_self _, rfl, ?_, ?_⟩
  · intro hSame
    have hTerm : (0 : Nat) = 7 := hSame.1
    cases hTerm
  · rintro ⟨f, hMem, -⟩
    exact absurd hMem not_mem_nil

end BeaverMQ
