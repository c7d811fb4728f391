import BeaverMQ.Model.Replication

/-!
# BeaverMQ — the propose inbox and its counter

Worker threads link proposals into the inbox and count them afterwards; the cluster loop takes them
out again and forwards or appends them. The counter `inbox_depth` drives the backpressure of the
producers. Every access to a shared word is a step of its own; what the loop decides by other state
is a choice of the step.
-/

namespace BeaverMQ

def clInboxHigh : Int := 16000
def clInboxLow : Int := 4000

/-- What the cluster loop does: nothing, or one of its two loops with the proposals left in it. -/
inductive LoopAt
  | idle
  /-- `forward_batch_to_leader`. -/
  | forwarding (list : List Proposal)
  /-- The leader's loop of `drain_inbox`. -/
  | appending (list : List Proposal)
  deriving DecidableEq

/-- The proposals the loop has taken out of a list and not dealt with. -/
def LoopAt.inHand : LoopAt → List Proposal
  | .idle => []
  | .forwarding list => list
  | .appending list => list

/-- The propose inbox, `fwd_pending` and `inbox_depth`. The counter is an `int`; `depth` is its value
as long as it is in the range of one (`depth_range`). `uncounted` is the number of workers between
the two halves of `propose_internal`. -/
structure Inbox where
  linked : List Proposal := []
  pending : List Proposal := []
  depth : Int := 0
  fwdCongested : Bool := false
  uncounted : Nat := 0
  loop : LoopAt := .idle
  deriving DecidableEq

namespace Inbox

inductive Step
  /-- A worker in `propose_internal`, up to the unlock. It has drawn a sequence number before. -/
  | link (pr : Proposal)
  /-- The same worker counts its proposal. -/
  | count
  /-- `drain_inbox` takes the list and looks at the role. -/
  | drain (leader : Bool)
  /-- `peer_on_link_up` and `fsync_timer_cb` at the test of `fwd_pending_head`. -/
  | resend
  /-- `forward_batch_to_leader` has put a slice on the wire. -/
  | send
  /-- It could not: no reachable leader, no memory, or a failed write. -/
  | giveUp
  /-- The leader's loop appends a proposal. -/
  | append
  /-- The loop has lost the leadership and proposes it again, under the number `seq`. -/
  | rewrap (seq : Nat)
  /-- The end of either call. -/
  | finish
  /-- A handler on the loop proposes through the own inbox: `CL_FRAME_FORWARD` at a node that does
  not lead, and `become_leader` for the vhost "/". -/
  | relay (pr : Proposal)
  /-- `CL_FRAME_FORWARD_ACK`. -/
  | acked (seq : Nat)

/-- `propose_internal` up to the unlock. -/
def propose (s : Inbox) (pr : Proposal) : Inbox :=
  { s with fwdCongested := s.fwdCongested || decide (clInboxHigh < s.depth)
           linked := s.linked ++ [pr] }

def step (s : Inbox) : Step → Option Inbox
  | .link pr => some { s.propose pr with uncounted := s.uncounted + 1 }
  | .count =>
    if s.uncounted = 0 then none
    else some { s with depth := s.depth + 1, uncounted := s.uncounted - 1 }
  | .drain leader =>
    match s.loop with
    | .idle => some { s with linked := []
                             loop := if leader then .appending s.linked else .forwarding s.linked }
    | _ => none
  | .resend =>
    match s.loop with
    | .idle =>
      if s.pending = [] then some s
      else some { s with pending := [], loop := .forwarding s.pending }
    | _ => none
  | .send =>
    match s.loop with
    | .forwarding (pr :: prs) =>
      let slice := takeSlice (pr :: prs) 0 4
      some { s with depth := s.depth - slice.length
                    pending := s.pending ++ slice
                    loop := .forwarding ((pr :: prs).drop slice.length) }
    | _ => none
  | .giveUp =>
    match s.loop with
    | .forwarding (pr :: prs) =>
      some { s with linked := (pr :: prs) ++ s.linked, loop := .forwarding [] }
    | _ => none
  | .append =>
    match s.loop with
    | .appending (_ :: prs) => some { s with depth := s.depth - 1, loop := .appending prs }
    | _ => none
  | .rewrap seq =>
    match s.loop with
    | .appending (pr :: prs) =>
      let s := s.propose ⟨pr.op, pr.data, seq⟩
      let s := { s with depth := s.depth + 1 }
      some { s with depth := s.depth - 1, loop := .appending prs }
    | _ => none
  | .finish =>
    match s.loop with
    | .forwarding [] | .appending [] =>
      some { s with fwdCongested := s.fwdCongested && !decide (s.depth < clInboxLow), loop := .idle }
    | _ => none
  | .relay pr =>
    match s.loop with
    | .idle => some { s.propose pr with depth := s.depth + 1 }
    | _ => none
  | .acked seq =>
    match s.loop with
    | .idle => some { s with pending := s.pending.filter fun pr => seq < pr.seq }
    | _ => none

/-- The proposals a step takes out of `fwd_pending` for retransmission. -/
def resentBy (s : Inbox) : Step → Nat
  | .resend => s.pending.length
  | _ => 0

/-- The same for a run. -/
def resentIn : Inbox → List Step → Nat
  | _, [] => 0
  | s, e :: es => s.resentBy e + ((s.step e).map (resentIn · es)).getD 0

/-- No worker is between its two halves, and the loop waits for an event. -/
def Quiet (s : Inbox) : Prop := s.uncounted = 0 ∧ s.loop = .idle

end Inbox

end BeaverMQ
