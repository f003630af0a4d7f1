/-!
# Places in rows of bytes

A `Cursor` is a place in a row of bytes; `Cursor.rest` is what lies before it. Cursors move forward
only, so that a reader that moves one comes to an end.

The readers of frames, payloads, entry files and settings all move such a cursor.

The readers of frames, payloads, entry files and settings all move such a cursor.
-/

namespace DeltaMesh

/-- A place in a row of bytes. -/
structure Cursor where
  bytes : ByteArray
  pos : Nat

namespace Cursor

/-- The beginning of `bytes`. -/
def start (bytes : ByteArray) : Cursor := ⟨bytes, 0⟩

/-- The bytes that are still to be read. -/
def rest (c : Cursor) : List UInt8 := c.bytes.data.toList.drop c.pos

/-- How many bytes are still to be read. -/
def room (c : Cursor) : Nat := c.bytes.size - c.pos

@[simp] theorem length_rest (c : Cursor) : c.rest.length = c.room := by
  simp [rest, room]

/-- The place one byte ahead. -/
def step (c : Cursor) : Cursor := ⟨c.bytes, c.pos + 1⟩

/-- The next byte. -/
def head? (c : Cursor) : Option UInt8 :=
  if h : c.pos < c.bytes.size then some c.bytes[c.pos] else none

/-- The next `n` bytes, and the place behind them. -/
def take? (c : Cursor) (n : Nat) : Option (ByteArray × Cursor) :=
  if c.pos + n ≤ c.bytes.size then
    some (c.bytes.extract c.pos (c.pos + n), ⟨c.bytes, c.pos + n⟩)
  else none

/-- The first place from here on that no byte with `p` follows. -/
def skipWhile (p : UInt8 → Bool) (c : Cursor) : Cursor :=
  if h : c.pos < c.bytes.size then
    if p c.bytes[c.pos] then skipWhile p c.step else c
  else c
termination_by c.room
decreasing_by
  simp only [room, step]
  omega

/-- The bytes from one place to a later one. -/
def upTo (c later : Cursor) : ByteArray := c.bytes.extract c.pos later.pos

end Cursor

end DeltaMesh
