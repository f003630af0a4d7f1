/-!
# Faults of the network

What may keep a request from being answered. Each of these faults may be gone at the next try.

The program's `NetworkError`, as far as a `LocalTransport` gives rise to it, and its texts.
-/

namespace DeltaMesh

/-- A number of milliseconds as a text: in seconds from one second on, with no zeros at the end. -/
def durationText (milliseconds : Nat) : String :=
  let seconds := milliseconds / 1000
  let rest := milliseconds % 1000
  if seconds = 0 then
    if rest = 0 then "0ns" else toString rest ++ "ms"
  else
    let digits := [rest / 100, rest / 10 % 10, rest % 10]
    let kept := (digits.reverse.dropWhile (· = 0)).reverse
    toString seconds ++ (if kept.isEmpty then "" else ".") ++ String.join (kept.map toString) ++ "s"

/-- Why there is no response. -/
inductive NetworkError
  | connectionFailed (reason : String)
  | unreachable (peer : String)
  | sendFailed (reason : String)
  | receiveFailed (reason : String)
  | timeout (milliseconds : Nat)
  | codec (reason : String)
  | io (reason : String)
  | quic (reason : String)
  | certificate (reason : String)
  deriving DecidableEq, Repr

def NetworkError.message : NetworkError → String
  | connectionFailed reason => "Could not connect: " ++ reason
  | unreachable peer => "Peer " ++ peer ++ " is unreachable"
  | sendFailed reason => "Sending request failed: " ++ reason
  | receiveFailed reason => "Reading response failed: " ++ reason
  | timeout milliseconds => "No response within " ++ durationText milliseconds
  | codec reason => "Frame codec: " ++ reason
  | io reason => "IO error: " ++ reason
  | quic reason => "QUIC connection: " ++ reason
  | certificate reason => "TLS setup: " ++ reason

end DeltaMesh
