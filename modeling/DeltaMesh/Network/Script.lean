import DeltaMesh.Message.Basic
import DeltaMesh.Network.Error
import DeltaMesh.Peer.Basic

/-!
# A scripted network

In place of replicas a script answers: each request takes the next cue, whoever it goes to. A cue
is an answer or silence; a request after the last cue cannot be sent.

It stands for a transport of another kind: the executor knows no more of one than `request`.
-/

namespace DeltaMesh

/-- What a request meets with. -/
inductive Cue
  | answer (reply : Except NetworkError Response)
  /-- There never is an answer. -/
  | silence

/-- The cues to come, and the requests since they were last looked at. -/
structure Script where
  cues : List Cue
  /-- The requests, oldest first. -/
  seen : Array (Peer × Request)

namespace Script

def ofCues (cues : List Cue) : Script := ⟨cues, #[]⟩

/-- Forgets the requests so far. -/
def clearSeen (s : Script) : Script := { s with seen := #[] }

/-- What a request to `peer` meets with; `none` is silence. -/
def request (s : Script) (peer : Peer) (q : Request) :
    Option (Except NetworkError Response) × Script :=
  let seen := s.seen.push (peer, q)
  match s.cues with
  | [] => (some (.error (.sendFailed "script exhausted")), ⟨[], seen⟩)
  | .silence :: cues => (none, ⟨cues, seen⟩)
  | .answer reply :: cues => (some reply, ⟨cues, seen⟩)

end Script

end DeltaMesh
