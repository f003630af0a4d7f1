import DeltaMesh.Ident.Id
import DeltaMesh.Peer.SocketAddress

/-!
# Peers

A member of the cluster: its id and where it is reached. In text a peer is its id in full, an at
sign and its address; messages show only the first eight digits of the id.

The program's `PeerAddress` with its text and `from_str`.
-/

namespace DeltaMesh

/-- A member of the cluster. -/
structure Peer where
  id : Id
  address : SocketAddress
  deriving DecidableEq, Inhabited

namespace Peer

/-- The peer as messages show it. -/
def shortText (p : Peer) : String := p.id.shortHex 8 ++ "@" ++ p.address.toText

/-- The peer in full. -/
def toText (p : Peer) : String := p.id.toHex ++ "@" ++ p.address.toText

/-- Why a text is no peer. -/
inductive ParseError
  /-- There is no at sign. -/
  | noSeparator (text : String)
  | badId (why : Id.ParseError)
  | badAddress (text : String)

def ParseError.message : ParseError → String
  | .noSeparator text => "expected <id>@<addr>, got " ++ text
  | .badId why => why.message
  | .badAddress text => "invalid address " ++ text ++ ": " ++ SocketAddress.syntaxFault

/-- Reads an id, an at sign and an address. -/
def parse (text : String) : Except ParseError Peer :=
  let cs := text.toList
  match cs.dropWhile (· ≠ '@') with
  | [] => .error (.noSeparator text)
  | _ :: rest =>
    let address := String.ofList rest
    match Id.parse (String.ofList (cs.takeWhile (· ≠ '@'))) with
    | .error e => .error (.badId e)
    | .ok id =>
      match SocketAddress.parse? address with
      | some a => .ok ⟨id, a⟩
      | none => .error (.badAddress address)

end Peer

end DeltaMesh
