import DeltaMesh.Message.ExchangeError
import DeltaMesh.Message.Frame
import DeltaMesh.Proofs.Store.Entries
import DeltaMesh.Proofs.Wire.Field
import Mathlib.Tactic.Simproc.ExistsAndEq

/-!
# The grammar of frames

A response, an INFO or a SYNC is read from exactly the rows of bytes that begin with its frame. A
COPY is read from the rows that begin with the frame of some row of pairs that makes up its
entries (`copyFrame`): its keys may stand in any order, and more than once. Frames delimit
themselves, so that no frame that is cut off is read, and different messages have different frames.

Main statements: `reads_request`, `reads_response` and `frames_exact`.
-/

namespace DeltaMesh

open Wire

/-! ### Requests -/

/-- An entry of a COPY is read back if the length of its value fits. -/
theorem reads_entry : readEntry.Reads (written putEntry (·.2.size < lengthBound)) := by
  refine (Reader.reads_key.bind fun key _ _ => Reader.reads_bytes.map (Prod.mk key)).congr ?_
  rintro ⟨key, value⟩ w
  constructor
  · rintro ⟨_, _, _, ⟨rfl, -⟩, ⟨_, ⟨rfl, hfits⟩, heq⟩, rfl⟩
    obtain ⟨rfl, rfl⟩ := Prod.mk.inj heq
    exact ⟨ByteArray.toList_data_append, hfits⟩
  · rintro ⟨rfl, hfits⟩
    exact ⟨key, _, _, ⟨rfl, trivial⟩, ⟨value, ⟨rfl, hfits⟩, rfl⟩,
      ByteArray.toList_data_append.symm⟩

/-- The frame of a COPY whose entries are entered from `pairs`. -/
def copyFrame (pairs : List (Key × ByteArray)) (timestamp : Int64) : ByteArray :=
  putVariant 1 ++ putItems putEntry pairs ++ putI64 timestamp

/-- The pairs of a COPY, and their values, fit behind their lengths. -/
def PairsFit (pairs : List (Key × ByteArray)) : Prop :=
  pairs.length < lengthBound ∧ ∀ p ∈ pairs, p.2.size < lengthBound

/-- The number in front of a request. -/
def Request.number : Request → Nat
  | .info .. => 0
  | .copy .. => 1
  | .sync .. => 2

/-- What stands behind the number of a request. -/
def Request.body : Spelling Request
  | .info key valueHash timestamp => fun w =>
    (putKey key ++ putId valueHash ++ putI64 timestamp).data.toList = w
  | .copy entries timestamp => fun w => ∃ pairs, PairsFit pairs ∧ .ofPairs pairs = entries ∧
    (putItems putEntry pairs ++ putI64 timestamp).data.toList = w
  | .sync key expectedHash timestamp delta => fun w => delta.size < lengthBound ∧
    (putKey key ++ putId expectedHash ++ putI64 timestamp ++ putBytes delta).data.toList = w

/-- The rows that spell a request. -/
def Request.spelling : Spelling Request
  | .copy entries timestamp => fun w => ∃ pairs, PairsFit pairs ∧ .ofPairs pairs = entries ∧
    (copyFrame pairs timestamp).data.toList = w
  | .info key valueHash timestamp => fun w =>
    (Request.info key valueHash timestamp).frame.data.toList = w
  | .sync key expectedHash timestamp delta => fun w => delta.size < lengthBound ∧
    (Request.sync key expectedHash timestamp delta).frame.data.toList = w

/-- The reader of requests gives back any request from any of its spellings; only COPY has several.
-/
theorem reads_request : Request.read.Reads Request.spelling := by
  refine (Reader.reads_kinds (by decide : 3 ≤ Nat.pow 256 4) Request.number
    Request.body (fun m => ?_) fun n hn => ?_).congr fun m w => ?_
  · cases m <;> simp [Request.number]
  -- the fields of each kind, in their order
  · match n, hn with
    | 0, _ =>
      refine (Reader.reads_key.bind fun key _ _ => Reader.reads_id.bind fun hash _ _ =>
        Reader.reads_i64.map (Request.info key hash)).congr fun m w => ?_
      cases m <;> simp [Request.number, Request.body, written]
    | 1, _ =>
      refine ((Reader.reads_items reads_entry).bind fun pairs _ _ =>
        Reader.reads_i64.map (Request.copy (.ofPairs pairs))).congr fun m w => ?_
      cases m <;> simp [Request.number, Request.body, written, PairsFit, and_assoc]
    | 2, _ =>
      refine (Reader.reads_key.bind fun key _ _ => Reader.reads_id.bind fun hash _ _ =>
        Reader.reads_i64.bind fun time _ _ =>
          Reader.reads_bytes.map (Request.sync key hash time)).congr fun m w => ?_
      cases m <;> simp [Request.number, Request.body, written, and_assoc]
  · cases m with
    | info => simp [Request.number, Request.body, Request.spelling, Request.frame]
    | copy => simp [Request.number, Request.body, Request.spelling, copyFrame, and_assoc]
    | sync => simp [Request.number, Request.body, Request.spelling, Request.frame, and_assoc]

/-! ### Responses -/

theorem reads_holding :
    Holding.read.Reads (written (fun h => putVariant h.number) fun _ => True) := by
  refine Reader.reads_enum (by decide : 3 ≤ Nat.pow 256 4) Holding.number ?_ ?_ fun n hn => ?_
  · rintro (_ | _ | _) <;> decide
  · rintro (_ | _ | _) (_ | _ | _) h <;> first | rfl | cases h
  · match n, hn with
    | 0, _ => exact ⟨.same, rfl, rfl⟩
    | 1, _ => exact ⟨.nothing, rfl, rfl⟩
    | 2, _ => exact ⟨.other, rfl, rfl⟩

theorem reads_syncAck :
    SyncAck.read.Reads (written (fun a => putVariant a.number) fun _ => True) := by
  refine Reader.reads_enum (by decide : 2 ≤ Nat.pow 256 4) SyncAck.number ?_ ?_ fun n hn => ?_
  · rintro (_ | _) <;> decide
  · rintro (_ | _) (_ | _) h <;> first | rfl | cases h
  · match n, hn with
    | 0, _ => exact ⟨.applied, rfl, rfl⟩
    | 1, _ => exact ⟨.unchanged, rfl, rfl⟩

/-- The number in front of a response. -/
def Response.number : Response → Nat
  | .info .. => 0
  | .copyAck .. => 1
  | .syncAck .. => 2
  | .failed .. => 3

/-- What a response carries behind a length fits. -/
def Response.Fits : Response → Prop
  | .info _ _ checksums => ∀ b, checksums = some b → b.size < lengthBound
  | .failed reason => reason.toUTF8.size < lengthBound
  | _ => True

instance Response.decidableFits : (m : Response) → Decidable m.Fits
  | .info _ _ none => .isTrue nofun
  | .info _ _ (some b) => decidable_of_iff (b.size < lengthBound)
    ⟨fun hb _ heq => Option.some.inj heq ▸ hb, fun h => h b rfl⟩
  | .copyAck _ | .syncAck _ => .isTrue trivial
  | .failed reason => inferInstanceAs (Decidable (reason.toUTF8.size < lengthBound))

/-- What stands behind the number of a response. -/
def Response.fields : Response → ByteArray
  | .info holding timestamp checksums =>
    putVariant holding.number ++ putI64 timestamp ++ putOptional putBytes checksums
  | .copyAck stored => putU32 stored
  | .syncAck ack => putVariant ack.number
  | .failed reason => putText reason

/-- A response is its variant number and the fields of the variant. -/
theorem Response.frame_eq (m : Response) : m.frame = putVariant m.number ++ m.fields := by
  cases m <;> simp [Response.frame, Response.number, Response.fields, ByteArray.append_assoc]

/-- The reader of responses gives back every response whose lengths fit. There is one case for each
variant. -/
theorem reads_response : Response.read.Reads (written Response.frame Response.Fits) := by
  refine (Reader.reads_kinds (by decide : 4 ≤ Nat.pow 256 4) Response.number
    (written Response.fields Response.Fits) (fun m => ?_) fun n hn => ?_).congr fun m w => ?_
  · cases m <;> simp [Response.number]
  · match n, hn with
    | 0, _ =>
      refine (reads_holding.bind fun holding _ _ => Reader.reads_i64.bind fun time _ _ =>
        (Reader.reads_optional Reader.reads_bytes).map (Response.info holding time)).congr
          fun m w => ?_
      cases m <;> simp [Response.number, Response.fields, Response.Fits, written, and_comm]
    | 1, _ =>
      refine (Reader.reads_u32.map Response.copyAck).congr fun m w => ?_
      cases m <;> simp [Response.number, Response.fields, Response.Fits, written]
    | 2, _ =>
      refine (reads_syncAck.map Response.syncAck).congr fun m w => ?_
      cases m <;> simp [Response.number, Response.fields, Response.Fits, written]
    | 3, _ =>
      refine (Reader.reads_text.map Response.failed).congr fun m w => ?_
      cases m <;> simp [Response.number, Response.fields, Response.Fits, written]
  · rw [written, m.frame_eq]
    exact written_behind (putVariant m.number) Response.fields Response.Fits m w

/-! ### Frames -/

/-- The messages of one type are read from their own frames and from none that is cut off, and no
two of them have the same frame. -/
structure SelfDelimiting {α : Type} (frame : α → ByteArray)
    (ofFrame : ByteArray → Except CodecError α) : Prop where
  ofFrame_frame : ∀ m, (frame m).size < lengthBound → ofFrame (frame m) = .ok m
  cut : ∀ m n, (frame m).size < lengthBound → n < (frame m).size →
    ∃ why, ofFrame ((frame m).extract 0 n) = .error why
  frame_inj : ∀ m m', (frame m).size < lengthBound → frame m = frame m' → m = m'

/-- A frame is read as a message if and only if it begins with a spelling of that message. -/
theorem ofFrame_eq_ok {α : Type} {r : Reader α} {S : Spelling α} (h : r.Reads S) (f : ByteArray)
    (m : α) : (r.decode f).mapError CodecError.fields = .ok m ↔
      ∃ w, S m w ∧ w <+: f.data.toList := by
  rw [← h.decode_iff f m]
  cases r.decode f with
  | error why => exact iff_of_false (fun h => nomatch h) fun h => nomatch h
  | ok a =>
    constructor
    · intro hm
      obtain rfl : a = m := Except.ok.inj hm
      rfl
    · intro hm
      obtain rfl : a = m := Except.ok.inj hm
      rfl

/-- Two frames of different messages never begin alike: what a reader consumes decides what it
gives. -/
theorem selfDelimiting_of_reads {α : Type} {r : Reader α} {S : Spelling α} (h : r.Reads S)
    {frame : α → ByteArray} (hframe : ∀ m, (frame m).size < lengthBound →
      S m (frame m).data.toList) :
    SelfDelimiting frame fun f => (r.decode f).mapError .fields := by
  have hread : ∀ m, (frame m).size < lengthBound →
      (r.decode (frame m)).mapError CodecError.fields = .ok m := by
    intro m hm
    exact (ofFrame_eq_ok h _ m).mpr ⟨_, hframe m hm, List.prefix_rfl⟩
  refine ⟨hread, ?_, ?_⟩
  · intro m n hm hn
    have hcut : ((frame m).extract 0 n).data.toList <+: (frame m).data.toList := by
      rw [toList_data_extract, List.drop_zero]
      exact List.take_prefix _ _
    have hlt : ((frame m).extract 0 n).size < (frame m).data.toList.length := by
      rw [ByteArray.size_extract, length_toList]
      omega
    obtain ⟨why, hwhy⟩ := h.decode_cut (hframe m hm) hcut hlt
    exact ⟨.fields why, by rw [hwhy]; rfl⟩
  · intro m m' hm heq
    have hm' := hread m' (heq ▸ hm)
    rw [← heq, hread m hm] at hm'
    exact Except.ok.inj hm'

/-- A row that begins with another is at least as long. -/
theorem size_le_of_beginning {a b : ByteArray} (h : a.data.toList <+: b.data.toList) :
    a.size ≤ b.size := h.length_le

/-- The parts of a frame are shorter than the frame, so their lengths fit their fields if the frame
is not beyond all bounds. -/
theorem Response.fits_of_size {m : Response} (h : m.frame.size < lengthBound) : m.Fits := by
  cases m with
  | info holding timestamp checksums =>
    rintro b rfl
    simp only [Response.frame, putOptional, putBytes, ByteArray.size_append] at h
    omega
  | failed reason =>
    simp only [Response.frame, putText, putBytes, ByteArray.size_append] at h
    simp only [Response.Fits]
    omega
  | copyAck | syncAck => exact trivial

/-- A text has at most four bytes for each character, which bounds the texts of errors. -/
theorem utf8ByteSize_ofList_le (l : List Char) :
    (String.ofList l).utf8ByteSize ≤ 4 * l.length := by
  induction l with
  | nil => exact Nat.le_refl _
  | cons c l ih =>
    have hcons : String.ofList (c :: l) = String.ofList [c] ++ String.ofList l := by
      rw [← String.ofList_append]
      rfl
    have hfirst : (String.ofList [c]).utf8ByteSize ≤ 4 := by
      simpa using Char.utf8Size_le_four c
    rw [hcons, String.utf8ByteSize_append, List.length_cons]
    omega

/-- What a replica says about a payload that it refuses is short: the text holds one number. -/
theorem Response.fits_oversized {size : Nat} (h : size < UInt32.size) :
    (Response.failed (ExchangeError.codec (.oversizedPayload size)).message).Fits := by
  have hdigits : (toString size).utf8ByteSize ≤ 4 * 10 := by
    have hsmall : size < 10 ^ 10 := Nat.lt_of_lt_of_le h (by decide : UInt32.size ≤ 10 ^ 10)
    have hlength : (Nat.toDigits 10 size).length ≤ 10 :=
      (Nat.length_toDigits_le_iff (by decide) (by decide)).mpr hsmall
    rw [Nat.toString_eq_ofList_toDigits]
    exact Nat.le_trans (utf8ByteSize_ofList_le _) (Nat.mul_le_mul_left 4 hlength)
  have hfront : "Codec error: ".utf8ByteSize = 13 := by decide +kernel
  have hmiddle : "payload of ".utf8ByteSize = 11 := by decide +kernel
  have hback : " bytes exceeds limit".utf8ByteSize = 20 := by decide +kernel
  have hmessage : (ExchangeError.codec (.oversizedPayload size)).message =
      "Codec error: " ++ ("payload of " ++ toString size ++ " bytes exceeds limit") := rfl
  rw [Response.Fits, String.toUTF8, String.size_toByteArray, hmessage,
    String.utf8ByteSize_append, String.utf8ByteSize_append, String.utf8ByteSize_append, hfront,
    hmiddle, hback]
  exact Nat.lt_of_le_of_lt (by omega) (by decide : 84 < lengthBound)

/-- The values in a COPY are shorter than its frame. -/
theorem pairsFit_of_size {pairs : List (Key × ByteArray)} {timestamp : Int64}
    (h : (copyFrame pairs timestamp).size < lengthBound) : PairsFit pairs := by
  rw [copyFrame, ByteArray.size_append, ByteArray.size_append] at h
  refine Reader.items_fit putEntry (·.2.size < lengthBound) ?_ ?_ (by omega)
  · intro e
    simp only [putEntry, putBytes, putU64, ByteArray.size_append, Reader.size_putNumber]
    omega
  · intro e he
    simp only [putEntry, putBytes, ByteArray.size_append] at he
    show e.2.size < lengthBound
    omega

/-- The frame of a request is one of its spellings. -/
theorem Request.spelling_frame {m : Request} (h : m.frame.size < lengthBound) :
    m.spelling m.frame.data.toList := by
  cases m with
  | info => rfl
  | copy entries timestamp =>
    -- of all rows of pairs that make up the entries, a frame holds the one in key order
    exact ⟨entries.toList, pairsFit_of_size h, Entries.ofPairs_toList entries, rfl⟩
  | sync key expectedHash timestamp delta =>
    refine ⟨?_, rfl⟩
    simp only [Request.frame, putBytes, ByteArray.size_append] at h
    omega

/-- What a request carries fits behind its lengths. -/
def Request.Fits : Request → Prop
  | .info .. => True
  | .copy entries _ => PairsFit entries.toList
  | .sync _ _ _ delta => delta.size < lengthBound

instance Request.decidableFits : (m : Request) → Decidable m.Fits
  | .info .. => .isTrue trivial
  | .copy entries _ => inferInstanceAs (Decidable (entries.toList.length < lengthBound ∧
    ∀ p ∈ entries.toList, p.2.size < lengthBound))
  | .sync _ _ _ delta => inferInstanceAs (Decidable (delta.size < lengthBound))

/-- A request comes back from its frame. -/
theorem Request.ofFrame_frame {m : Request} (h : m.Fits) : Request.ofFrame m.frame = .ok m := by
  refine (ofFrame_eq_ok reads_request _ m).mpr ⟨m.frame.data.toList, ?_, List.prefix_rfl⟩
  cases m with
  | info => rfl
  | copy entries timestamp => exact ⟨entries.toList, h, Entries.ofPairs_toList entries, rfl⟩
  | sync => exact ⟨h, rfl⟩

/-- A response comes back from its frame. -/
theorem Response.ofFrame_frame {m : Response} (h : m.Fits) : Response.ofFrame m.frame = .ok m :=
  (ofFrame_eq_ok reads_response _ m).mpr ⟨m.frame.data.toList, ⟨rfl, h⟩, List.prefix_rfl⟩

/-- Frames are read by their grammar, from any row of bytes whose length eight bytes can tell. A row
is read as a message if and only if it begins with a spelling of it; what follows is ignored. In a
COPY any list of pairs may be spelled, and later pairs replace earlier ones with the same key. -/
theorem frames_exact :
    (∀ f : ByteArray, f.size < lengthBound →
      (∀ m : Response, Response.ofFrame f = .ok m ↔ m.frame.data.toList <+: f.data.toList) ∧
      (∀ m : Request, m.kind ≠ .copy →
        (Request.ofFrame f = .ok m ↔ m.frame.data.toList <+: f.data.toList)) ∧
      ∀ entries timestamp, Request.ofFrame f = .ok (.copy entries timestamp) ↔
        ∃ pairs, .ofPairs pairs = entries ∧
          (copyFrame pairs timestamp).data.toList <+: f.data.toList) ∧
    SelfDelimiting Response.frame Response.ofFrame ∧
    SelfDelimiting Request.frame Request.ofFrame := by
  refine ⟨fun f hf => ⟨?_, ?_, ?_⟩, ?_, ?_⟩
  · intro m
    rw [Response.ofFrame, ofFrame_eq_ok reads_response]
    constructor
    · rintro ⟨w, ⟨rfl, -⟩, hprefix⟩
      exact hprefix
    · intro hprefix
      have hsize := Nat.lt_of_le_of_lt (size_le_of_beginning hprefix) hf
      exact ⟨_, ⟨rfl, Response.fits_of_size hsize⟩, hprefix⟩
  · intro m hm
    rw [Request.ofFrame, ofFrame_eq_ok reads_request]
    constructor
    · rintro ⟨w, hw, hprefix⟩
      cases m with
      | info => exact hw ▸ hprefix
      | copy => exact absurd rfl hm
      | sync => exact hw.2 ▸ hprefix
    · intro hprefix
      have hsize := Nat.lt_of_le_of_lt (size_le_of_beginning hprefix) hf
      exact ⟨_, Request.spelling_frame hsize, hprefix⟩
  · intro entries timestamp
    rw [Request.ofFrame, ofFrame_eq_ok reads_request]
    constructor
    · rintro ⟨w, ⟨pairs, -, hpairs, rfl⟩, hprefix⟩
      exact ⟨pairs, hpairs, hprefix⟩
    · rintro ⟨pairs, hpairs, hprefix⟩
      have hsize := Nat.lt_of_le_of_lt (size_le_of_beginning hprefix) hf
      exact ⟨_, ⟨pairs, pairsFit_of_size hsize, hpairs, rfl⟩, hprefix⟩
  · exact selfDelimiting_of_reads reads_response fun m hm => ⟨rfl, Response.fits_of_size hm⟩
  · exact selfDelimiting_of_reads reads_request fun m hm => Request.spelling_frame hm

/-- A COPY in which a key stands twice is read, and the later value stays; an INFO is read from
its frame, and an acknowledgement that lacks its last byte is not read. -/
theorem frames_exact_short :
    Request.ofFrame (copyFrame [(.firstUnder .zero, ⟨#[1]⟩), (.firstUnder .zero, ⟨#[2]⟩)] 5) =
      .ok (.copy (.ofPairs [(.firstUnder .zero, ⟨#[1]⟩), (.firstUnder .zero, ⟨#[2]⟩)]) 5) ∧
    (Entries.ofPairs [(.firstUnder .zero, ⟨#[1]⟩), (.firstUnder .zero, ⟨#[2]⟩)])[
      Key.firstUnder .zero]? = some ⟨#[2]⟩ ∧
    Request.ofFrame (Request.info (.firstUnder .zero) .max 5).frame =
      .ok (.info (.firstUnder .zero) .max 5) ∧
    ∃ why, Response.ofFrame ((Response.copyAck 3).frame.extract 0 7) = .error why := by
  refine ⟨?_, ?_, ?_, ?_⟩
  · exact ((frames_exact.1 _ (by decide +kernel)).2.2 _ _).mpr ⟨_, rfl, List.prefix_rfl⟩
  · rw [Entries.getElem?_ofPairs]
    decide +kernel
  · have hkind : (Request.info (.firstUnder .zero) .max 5).kind ≠ .copy := by decide
    exact ((frames_exact.1 _ (by decide +kernel)).2.1 _ hkind).mpr List.prefix_rfl
  · exact frames_exact.2.1.cut (.copyAck 3) 7 (by decide +kernel) (by decide +kernel)

end DeltaMesh
