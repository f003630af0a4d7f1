import DeltaMesh.Message.Frame
import DeltaMesh.Proofs.Store.Entries
import DeltaMesh.Proofs.Wire.Size

/-!
# How long frames are

The length of a frame in terms of what the message carries. INFO, COPY acknowledgements and SYNC
acknowledgements have a fixed length. A COPY has 68 bytes for each entry besides the values: the
key, and the length of the value (`Request.size_frame_copy`).
-/

namespace DeltaMesh

open Wire

namespace Wire

theorem size_putId (i : Id) : (putId i).size = 20 := by
  rw [putId, List.size_toByteArray, Id.length_toBytes, Id.width]

/-- A key takes sixty bytes, twenty for each of its ids. -/
theorem size_putKey (k : Key) : (putKey k).size = 60 := by
  simp only [putKey, ByteArray.size_append, size_putId]

theorem size_putBytes (b : ByteArray) : (putBytes b).size = 8 + b.size := by
  rw [putBytes, ByteArray.size_append, putU64, Reader.size_putNumber]

end Wire

/-- An entry of a COPY takes 68 bytes besides its value: its key and the length of the value. -/
theorem size_putEntry (p : Key × ByteArray) : (putEntry p).size = 68 + p.2.size := by
  rw [putEntry, ByteArray.size_append, size_putKey, size_putBytes]
  omega

/-- The size of a batch depends on the number of its values as well as on their bytes. -/
theorem size_putEntries (row : List (Key × ByteArray)) :
    (putItems putEntry row).size = 8 + 68 * row.length + Entries.bytesOf row := by
  have hitems : (row.flatMap fun p => (putEntry p).data.toList).length =
      68 * row.length + Entries.bytesOf row := by
    induction row with
    | nil => rfl
    | cons p row ih =>
      rw [List.flatMap_cons, List.length_append, ih, length_toList, size_putEntry,
        List.length_cons, Entries.bytesOf, Entries.bytesOf, List.map_cons, List.sum_cons]
      omega
  rw [Reader.size_putItems, hitems, Nat.add_assoc]

namespace Request

variable (key : Key) (hash : Id) (timestamp : Int64)

/-- INFO is of one size: it carries a hash instead of a value. -/
theorem size_frame_info : (info key hash timestamp).frame.size = 92 := by
  simp only [frame, ByteArray.size_append, putVariant, putI64, Reader.size_putNumber, size_putKey,
    size_putId]

/-- The frame of a COPY. -/
theorem size_frame_copy (entries : Entries) :
    (copy entries timestamp).frame.size = 20 + 68 * entries.size + entries.totalBytes := by
  simp only [frame, ByteArray.size_append, putVariant, putI64, Reader.size_putNumber,
    size_putEntries, Std.ExtTreeMap.length_toList, ← Entries.totalBytes_eq]
  omega

/-- A SYNC takes a hundred bytes besides its delta. -/
theorem size_frame_sync (delta : ByteArray) :
    (sync key hash timestamp delta).frame.size = 100 + delta.size := by
  simp only [frame, ByteArray.size_append, putVariant, putI64, Reader.size_putNumber, size_putKey,
    size_putId, size_putBytes]
  omega

end Request

namespace Response

/-- The answer to INFO with checksums. -/
theorem size_frame_info (holding : Holding) (timestamp : Int64) (checksums : ByteArray) :
    (info holding timestamp (some checksums)).frame.size = 25 + checksums.size := by
  simp only [frame, ByteArray.size_append, putVariant, putI64, putOptional, putByte,
    Reader.size_putNumber, size_putBytes]
  omega

/-- The answer to INFO without checksums. -/
theorem size_frame_info_none (holding : Holding) (timestamp : Int64) :
    (info holding timestamp none).frame.size = 17 := by
  simp only [frame, ByteArray.size_append, putVariant, putI64, putOptional, putByte,
    Reader.size_putNumber]

theorem size_frame_copyAck (stored : UInt32) : (copyAck stored).frame.size = 8 := by
  simp only [frame, ByteArray.size_append, putVariant, putU32, Reader.size_putNumber]

theorem size_frame_syncAck (ack : SyncAck) : (syncAck ack).frame.size = 8 := by
  simp only [frame, ByteArray.size_append, putVariant, Reader.size_putNumber]

end Response

end DeltaMesh
