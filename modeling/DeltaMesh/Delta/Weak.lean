/-!
# The rolling weak checksum

Two sums over a window of bytes, both kept modulo `2 ^ 16`: the plain sum, and the sum in which
the first byte counts as often as the window is long and the last byte once. A window can move
on by one byte without being read again (`Weak.roll`).

The program's `RollingChecksum` with `new`, `update_block`, `roll_byte`, `digest` and `checksum`.
-/

namespace DeltaMesh

/-- The checksum of a window, with the window's length. -/
structure Weak where
  /-- The sum of the bytes. -/
  plain : UInt32
  /-- The sum of the bytes, each weighted by its distance from the window's end. -/
  weighted : UInt32
  length : Nat
  deriving DecidableEq, Repr

namespace Weak

/-- Sums are kept to sixteen bits. -/
def mask : UInt32 := 0xffff

/-- The checksum of no bytes. -/
def empty : Weak := ⟨0, 0, 0⟩

/-- Both sums over the bytes from `i` to `stop`, before they are cut to sixteen bits; the byte at
`i` has the weight `stop - i`. -/
def sums (data : ByteArray) (stop i : Nat) (plain weighted : UInt32) : UInt32 × UInt32 :=
  if h : i < stop ∧ i < data.size then
    let byte := data[i].toUInt32
    sums data stop (i + 1) (plain + byte) (weighted + (stop - i).toUInt32 * byte)
  else (plain, weighted)
termination_by stop - i

/-- The checksum of the bytes `[start, stop)` of `data`. -/
def ofRange (data : ByteArray) (start stop : Nat) : Weak :=
  let s := sums data stop start 0 0
  ⟨s.1 &&& mask, s.2 &&& mask, stop - start⟩

/-- The checksum of a whole window. -/
def ofWindow (window : ByteArray) : Weak := ofRange window 0 window.size

/-- Moves the window on by one byte: `out` leaves at the front and `into` enters at the end. The
leaving byte takes its weight, the window's length, out of the weighted sum, and every byte that
stays gains one. -/
def roll (w : Weak) (out into : UInt8) : Weak :=
  let plain := (w.plain - out.toUInt32 + into.toUInt32) &&& mask
  let weighted := (w.weighted - w.length.toUInt32 * out.toUInt32 + plain) &&& mask
  ⟨plain, weighted, w.length⟩

/-- The checksum of the window with `byte` put in front: the new byte counts as often as the grown
window is long, and no other weight changes. -/
def pushFront (w : Weak) (byte : UInt8) : Weak :=
  ⟨(w.plain + byte.toUInt32) &&& mask,
    (w.weighted + (w.length + 1).toUInt32 * byte.toUInt32) &&& mask, w.length + 1⟩

/-- Both sums in one word, the weighted one in the high half. -/
def digest (w : Weak) : UInt32 := w.plain ||| (w.weighted <<< 16)

end Weak

end DeltaMesh
