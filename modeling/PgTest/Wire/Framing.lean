import Mathlib.Tactic.NormNum
import PgTest.Wire.Upstream

/-!
# Frames, and how they are read

A frame of the protocol is a tag and a declared length, of which `Frame` says
where it stands in a list of bytes.  `Burst` is a sequence of frames up to the
first `ReadyForQuery` or `ErrorResponse`.  Both know nothing of reads.

`At` says where a reader stands: which reads it made, what of them was split off,
and that it made none of them after it had enough.  Reading a frame keeps `At`,
and succeeds exactly where there is a frame.
-/

namespace PgTest.Wire

open PgTest.Lib

/-! ### Frames -/

/-- The declared length of the frame at `cursor`. -/
def frameLength (bytes : Bytes) (cursor : Nat) : Int :=
  i32FromBeBytes ((bytes.take (cursor + 5)).drop (cursor + 1))

/-- A complete frame from `cursor` to `stop`. -/
structure Frame (bytes : Bytes) (cursor : Nat) (tag : UInt8) (stop : Nat) : Prop where
  tag : bytes[cursor]? = some tag
  length : 4 ≤ frameLength bytes cursor
  ends : stop = cursor + (1 + (frameLength bytes cursor).toNat)
  complete : stop ≤ bytes.length
  addressable : stop ≤ usizeMax

/-- Frames from `cursor` on, of which the last one, and no other, is a
`ReadyForQuery` or an `ErrorResponse`. -/
inductive Burst (bytes : Bytes) : Nat → Nat → Prop
  | last {cursor stop : Nat} {tag : UInt8} (hf : Frame bytes cursor tag stop)
      (ht : tag = tagZ ∨ tag = tagE) : Burst bytes cursor stop
  | more {cursor next stop : Nat} {tag : UInt8} (hf : Frame bytes cursor tag next)
      (ht : ¬(tag = tagZ ∨ tag = tagE)) (h : Burst bytes next stop) : Burst bytes cursor stop

theorem i32FromBeBytes_le (bytes : Bytes) : (i32FromBeBytes bytes).toNat ≤ i32Max := by
  have h : i32FromBeBytes bytes < ((4294967296 : Nat) + 1) / 2 := Int.bmod_lt (by norm_num)
  have hmax : i32Max = 2147483647 := rfl
  omega

theorem Frame.header {bytes : Bytes} {cursor stop : Nat} {tag : UInt8}
    (h : Frame bytes cursor tag stop) : cursor + 5 ≤ stop := by
  have h1 := h.length
  have h2 := h.ends
  omega

theorem Burst.lt {bytes : Bytes} {cursor stop : Nat} (h : Burst bytes cursor stop) :
    cursor < stop := by
  induction h with
  | last hf _ =>
    have hh := hf.header
    omega
  | more hf _ _ ih =>
    have hh := hf.header
    omega

theorem Burst.le_length {bytes : Bytes} {cursor stop : Nat} (h : Burst bytes cursor stop) :
    stop ≤ bytes.length := by
  induction h with
  | last hf _ => exact hf.complete
  | more _ _ _ ih => exact ih

/-- A frame is read from the bytes before its end. -/
theorem frameLength_take {bytes : Bytes} {cursor n : Nat} (h : cursor + 5 ≤ n) :
    frameLength (bytes.take n) cursor = frameLength bytes cursor := by
  rw [frameLength, frameLength, List.take_take, Nat.min_eq_left h]

/-! ### Reads -/

theorem join_append (left right : List Chunk) :
    Chunk.join (left ++ right) = Chunk.join left ++ Chunk.join right := by
  rw [Chunk.join, List.map_append, List.flatten_append]
  rfl

/-- The bytes of the first reads. -/
def UpstreamStream.read (stream : UpstreamStream) (reads : Nat) : Bytes :=
  Chunk.join (stream.chunks.take reads)

/-- The stream after its first reads. -/
def UpstreamStream.after (stream : UpstreamStream) (reads : Nat) : UpstreamStream :=
  { stream with chunks := stream.chunks.drop reads }

/-- The unread bytes without the first ones. -/
def UpstreamStream.rest (stream : UpstreamStream) (skip : Nat) : Bytes := stream.unread.drop skip

theorem read_append_unread (stream : UpstreamStream) (reads : Nat) :
    stream.read reads ++ (stream.after reads).unread = stream.unread := by
  show Chunk.join (stream.chunks.take reads) ++ Chunk.join (stream.chunks.drop reads) = _
  rw [← join_append, List.take_append_drop]
  rfl

theorem read_succ {stream : UpstreamStream} {reads : Nat} {chunk : Chunk} {rest : List Chunk}
    (h : stream.chunks.drop reads = chunk :: rest) :
    stream.read (reads + 1) = stream.read reads ++ chunk.1 ∧
      stream.chunks.drop (reads + 1) = rest := by
  have hget : stream.chunks[reads]? = some chunk := by
    rw [← Nat.add_zero reads, ← List.getElem?_drop, h]
    rfl
  constructor
  · rw [UpstreamStream.read, List.take_add_one, hget, join_append]
    show _ ++ (chunk.1 ++ []) = _
    rw [List.append_nil]
    rfl
  · rw [← List.drop_drop, h]
    rfl

theorem length_read_mono (stream : UpstreamStream) {m n : Nat} (h : m ≤ n) :
    (stream.read m).length ≤ (stream.read n).length := by
  obtain ⟨more, rfl⟩ := Nat.exists_eq_add_of_le h
  rw [UpstreamStream.read, UpstreamStream.read, List.take_add, join_append, List.length_append]
  exact Nat.le_add_right _ _

/-- **Where a reader of `stream` stands.**  Its first `skip` bytes were split off,
and no read was made with `enough` bytes. -/
structure At (stream : UpstreamStream) (skip enough : Nat) (r : Reader) : Prop where
  reads : ∃ reads, r.stream = stream.after reads ∧ skip ≤ (stream.read reads).length ∧
    r.buf = (stream.read reads).drop skip ∧
    ∀ m, m < reads → (stream.read m).length < enough

namespace At

variable {stream : UpstreamStream} {skip enough : Nat} {r : Reader}

theorem start (stream : UpstreamStream) : At stream 0 0 ⟨stream, []⟩ :=
  ⟨0, rfl, Nat.zero_le _, rfl, fun _ hm => absurd hm (Nat.not_lt_zero _)⟩

theorem mono (h : At stream skip enough r) {more : Nat} (hle : enough ≤ more) :
    At stream skip more r := by
  obtain ⟨reads, h1, h2, h3, h4⟩ := h
  exact ⟨reads, h1, h2, h3, fun m hm => lt_of_lt_of_le (h4 m hm) hle⟩

/-- What is buffered and what is unread are what was not split off. -/
theorem bytes (h : At stream skip enough r) :
    r.buf ++ r.stream.unread = stream.rest skip := by
  obtain ⟨reads, h1, h2, h3, _⟩ := h
  rw [h1, h3, UpstreamStream.rest, ← read_append_unread stream reads,
    List.drop_append_of_le_length h2]

/-- The buffer begins with them. -/
theorem buf_eq (h : At stream skip enough r) :
    r.buf = (stream.rest skip).take r.buf.length := by
  rw [← h.bytes, List.take_left]

theorem length_le (h : At stream skip enough r) :
    r.buf.length ≤ (stream.rest skip).length := by
  rw [← h.bytes, List.length_append]
  exact Nat.le_add_right _ _

theorem split (h : At stream skip enough r) {length : Nat} (hle : length ≤ r.buf.length) :
    At stream (skip + length) enough ⟨r.stream, r.buf.drop length⟩ := by
  obtain ⟨reads, h1, h2, h3, h4⟩ := h
  refine ⟨reads, h1, ?_, ?_, h4⟩
  · rw [h3, List.length_drop] at hle
    omega
  · show r.buf.drop length = _
    rw [h3, List.drop_drop]

end At

theorem readUntilLoop_cases {stream : UpstreamStream} {skip length : Nat} :
    ∀ {chunks : List Chunk} {reads : Nat}, stream.chunks.drop reads = chunks →
    skip ≤ (stream.read reads).length →
    (∀ m, m < reads → (stream.read m).length < skip + length) →
    (∃ r, readUntilLoop stream.ending length chunks ((stream.read reads).drop skip) =
        .ok (r.stream.chunks, r.buf) ∧ r.stream.ending = stream.ending ∧
        r.stream.writeAll = stream.writeAll ∧
        At stream skip (skip + length) r ∧ length ≤ r.buf.length) ∨
    (stream.rest skip).length < length ∧
      ∃ error, readUntilLoop stream.ending length chunks ((stream.read reads).drop skip) =
        .error error := by
  intro chunks
  induction chunks with
  | nil =>
    intro reads hdrop hskip hmin
    rw [readUntilLoop.eq_def]
    dsimp only
    split
    case isTrue hlt =>
      have hall : stream.read reads = stream.unread := by
        rw [← read_append_unread stream reads]
        show _ = _ ++ Chunk.join (stream.chunks.drop reads)
        rw [hdrop]
        exact (List.append_nil _).symm
      rw [hall] at hlt
      refine Or.inr ⟨hlt, ?_⟩
      cases stream.ending with
      | none => exact ⟨_, rfl⟩
      | some error => exact ⟨_, rfl⟩
    case isFalse hge =>
      refine Or.inl ⟨⟨stream.after reads, (stream.read reads).drop skip⟩, ?_, rfl, rfl,
        ⟨reads, rfl, hskip, rfl, hmin⟩, Nat.le_of_not_lt hge⟩
      show _ = Except.ok (stream.chunks.drop reads, _)
      rw [hdrop]
  | cons chunk rest ih =>
    intro reads hdrop hskip hmin
    rw [readUntilLoop]
    split
    case isTrue hlt =>
      obtain ⟨hread, hrest⟩ := read_succ hdrop
      have hbuf : (stream.read reads).drop skip ++ chunk.1 =
          (stream.read (reads + 1)).drop skip := by
        rw [hread, List.drop_append_of_le_length hskip]
      rw [hbuf]
      refine ih hrest (le_trans hskip (length_read_mono stream (Nat.le_succ _))) fun m hm => ?_
      rcases Nat.lt_succ_iff_lt_or_eq.mp hm with hm | rfl
      · exact hmin m hm
      · rw [List.length_drop] at hlt
        omega
    case isFalse hge =>
      refine Or.inl ⟨⟨stream.after reads, (stream.read reads).drop skip⟩, ?_, rfl, rfl,
        ⟨reads, rfl, hskip, rfl, hmin⟩, Nat.le_of_not_lt hge⟩
      show _ = Except.ok (stream.chunks.drop reads, _)
      rw [hdrop]

variable {stream : UpstreamStream} {skip enough : Nat} {r : Reader}

theorem readUntil_ok {length : Nat} {chunks : List Chunk} {buf : Bytes}
    (h : readUntilLoop r.stream.ending length r.stream.chunks r.buf = .ok (chunks, buf)) :
    readUntil length r = .ok ⟨{ r.stream with chunks := chunks }, buf⟩ := by
  rw [readUntil, h]

theorem readUntil_error {length : Nat} {error : IoError}
    (h : readUntilLoop r.stream.ending length r.stream.chunks r.buf = .error error) :
    readUntil length r = .error (.error (.io error)) := by
  rw [readUntil, h]

/-- **`read_until`** has enough, or there is not enough. -/
theorem readUntil_cases (length : Nat) (h : At stream skip enough r)
    (hle : enough ≤ skip + length) :
    (∃ r', readUntil length r = .ok r' ∧ At stream skip (skip + length) r' ∧
      length ≤ r'.buf.length) ∨
    (stream.rest skip).length < length ∧
      ∃ error, readUntil length r = .error (.error error) := by
  obtain ⟨reads, h1, h2, h3, h4⟩ := h
  obtain ⟨_, buf⟩ := r
  cases h1
  cases h3
  have hloop := readUntilLoop_cases (show stream.chunks.drop reads = _ from rfl) h2
    fun m hm => lt_of_lt_of_le (h4 m hm) hle
  rcases hloop with ⟨⟨⟨chunks, ending, writeAll⟩, buf⟩, h5, h6, h7, h8, h9⟩ | ⟨h5, error, h6⟩
  · cases h6
    cases h7
    exact Or.inl ⟨_, readUntil_ok h5, h8, h9⟩
  · exact Or.inr ⟨h5, .io error, readUntil_error h6⟩

/-! ### Reading a frame -/

theorem readTo_cases (cursor stop : Nat) (h : At stream skip enough r)
    (hle : enough ≤ skip + stop) (hlt : cursor < stop) :
    (∃ tag r', readTo cursor stop r = .ok ((tag, stop), r') ∧
        (stream.rest skip)[cursor]? = some tag ∧ At stream skip (skip + stop) r' ∧
        stop ≤ r'.buf.length) ∨
    (stream.rest skip).length < stop ∧ ∃ error, readTo cursor stop r = .error (.error error) := by
  rcases readUntil_cases stop h hle with ⟨r', h1, h2, h3⟩ | ⟨h1, error, h2⟩
  · have hin : cursor < r'.buf.length := lt_of_lt_of_le hlt h3
    refine Or.inl ⟨r'.buf[cursor], r', ?_, ?_, h2, h3⟩
    · rw [readTo, h1]
      show (byteAt r'.buf cursor >>= _) = _
      rw [byteAt, List.getElem?_eq_getElem hin]
      rfl
    · rw [← List.getElem?_eq_getElem hin, ← h2.bytes, List.getElem?_append_left hin]
  · refine Or.inr ⟨h1, error, ?_⟩
    rw [readTo, h2]
    rfl

/-- What is read with the declared length at hand. -/
theorem readBody_cases {cursor max : Nat} (h : At stream skip enough r)
    (hle : enough ≤ skip + (cursor + 5)) :
    (∃ tag stop r', readBody cursor max (frameLength (stream.rest skip) cursor) r =
        .ok ((tag, stop), r') ∧ Frame (stream.rest skip) cursor tag stop ∧
        (frameLength (stream.rest skip) cursor).toNat ≤ max ∧
        At stream skip (skip + stop) r' ∧ stop ≤ r'.buf.length) ∨
    (∃ error, readBody cursor max (frameLength (stream.rest skip) cursor) r =
        .error (.error error)) ∧
      ∀ tag stop, Frame (stream.rest skip) cursor tag stop →
        max < (frameLength (stream.rest skip) cursor).toNat := by
  rw [readBody]
  split
  case isTrue hlt =>
    exact Or.inr ⟨⟨_, rfl⟩, fun tag stop hf => absurd hf.length (not_le.mpr hlt)⟩
  case isFalse hge =>
  split
  case isTrue hlt => exact Or.inr ⟨⟨_, rfl⟩, fun _ _ _ => hlt⟩
  case isFalse hmax =>
  split
  case isTrue hlt =>
    refine Or.inr ⟨⟨_, rfl⟩, fun tag stop hf => absurd hf.addressable (not_le.mpr ?_)⟩
    rw [hf.ends]
    exact hlt
  case isFalse haddr =>
  have hlen := not_lt.mp hge
  rcases readTo_cases cursor (cursor + (1 + (frameLength (stream.rest skip) cursor).toNat)) h
      (by omega) (by omega) with ⟨tag, r', h1, h2, h3, h4⟩ | ⟨h1, h2⟩
  · refine Or.inl ⟨tag, _, r', h1, ⟨h2, hlen, rfl, ?_, Nat.le_of_not_lt haddr⟩,
      Nat.le_of_not_lt hmax, h3, h4⟩
    exact le_trans h4 h3.length_le
  · refine Or.inr ⟨h2, fun tag stop hf => ?_⟩
    have hc := hf.complete
    rw [hf.ends] at hc
    omega

/-- `read_frame` once the header is buffered. -/
theorem readFrame_of_header {cursor max : Nat} {r r₁ : Reader}
    (hr : readUntil (cursor + 5) r = .ok r₁) (hle : cursor + 5 ≤ r₁.buf.length) :
    readFrame cursor max r = readBody cursor max (frameLength r₁.buf cursor) r₁ := by
  have hslice : slice r₁.buf (cursor + 1) (cursor + 5) = .ok _ := if_pos hle
  simp only [readFrame, hr, hslice, frameLength, bind, Except.bind]

theorem At.header (h : At stream skip enough r) {cursor : Nat} (hle : cursor + 5 ≤ r.buf.length) :
    frameLength r.buf cursor = frameLength (stream.rest skip) cursor := by
  rw [h.buf_eq, frameLength_take hle]

/-- **`read_frame`** reads the frame that is there, unless it is too long. -/
theorem readFrame_cases (cursor max : Nat) (h : At stream skip enough r)
    (hle : enough ≤ skip + cursor) :
    (∃ tag stop r', readFrame cursor max r = .ok ((tag, stop), r') ∧
        Frame (stream.rest skip) cursor tag stop ∧
        (frameLength (stream.rest skip) cursor).toNat ≤ max ∧
        At stream skip (skip + stop) r' ∧ stop ≤ r'.buf.length) ∨
    (∃ error, readFrame cursor max r = .error (.error error)) ∧
      ∀ tag stop, Frame (stream.rest skip) cursor tag stop →
        max < (frameLength (stream.rest skip) cursor).toNat := by
  rcases readUntil_cases (cursor + 5) h (by omega) with
    ⟨r₁, h1, h2, h3⟩ | ⟨h1, error, h2⟩
  · rw [readFrame_of_header h1 h3, h2.header h3]
    exact readBody_cases h2 (le_refl _)
  · refine Or.inr ⟨⟨error, ?_⟩, fun tag stop hf => ?_⟩
    · rw [readFrame, h2]
      rfl
    · have hc := hf.complete
      have hh := hf.header
      omega

end PgTest.Wire
