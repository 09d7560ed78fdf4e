import PgTest.Wire.Relay

/-!
# The startup handshake, byte by byte

What `connect` accepts, said of the whole stream: an `AuthenticationOk`, then frames up
to the first `ReadyForQuery` or `ErrorResponse`.  `WholeFrame` is one frame by itself,
where `Frame` of the module on framing is a frame at a cursor; the two agree as long
as the cursor is a `usize`.

The second part compares two streams that bring the same bytes in different reads:
two readers that stand at the same place (`At`) go on alike, also into the same error.
-/

namespace PgTest.Wire

open PgTest.Lib

/-! ### Frames by themselves -/

/-- A tag, and as many bytes as the length after it declares. -/
structure WholeFrame (tag : UInt8) (frame : Bytes) : Prop where
  tag : frame[0]? = some tag
  header : 5 ≤ frame.length
  length : frameLength frame 0 = (frame.length : Int) - 1

/-- The authentication code. -/
def authenticationCode (frame : Bytes) : Int := i32FromBeBytes ((frame.take 9).drop 5)

structure AuthenticationOk (maxMessageLength : Nat) (frame : Bytes) : Prop where
  whole : WholeFrame tagR frame
  atLeast : 8 ≤ frameLength frame 0
  atMost : frameLength frame 0 ≤ maxMessageLength
  code : authenticationCode frame = 0

/-- Whole frames, of which the last one, and no other, is tagged `Z` or `E`. -/
def SessionBurst (burst : Bytes) : Prop :=
  ∃ frames last, burst = List.flatten frames ++ last ∧
    (∀ frame ∈ frames, ∃ tag, WholeFrame tag frame ∧ tag ≠ tagZ ∧ tag ≠ tagE) ∧
    (WholeFrame tagZ last ∨ WholeFrame tagE last)

/-- The stream starts with an `AuthenticationOk` and then `burst`. -/
def Handshake (maxMessageLength : Nat) (bytes burst : Bytes) : Prop :=
  ∃ authentication rest, bytes = authentication ++ burst ++ rest ∧
    AuthenticationOk maxMessageLength authentication ∧ SessionBurst burst

/-- `Authentication::decode` of a complete `R` frame gives `Ok` for the code `0`, and for
no other code. -/
def Pgwire.DecodesOk (pgwire : Pgwire) : Prop :=
  ∀ frame, WholeFrame tagR frame → 8 ≤ frameLength frame 0 →
    frameLength frame 0 ≤ pgwire.maxMessageLength →
    (pgwire.decodeAuthentication frame = .ok (some .ok) ↔ authenticationCode frame = 0)

/-! ### Frames at a cursor -/

variable {bytes : Bytes} {cursor stop : Nat} {tag : UInt8}

theorem frameLength_drop {n : Nat} (h : cursor + 5 ≤ n) :
    frameLength ((bytes.take n).drop cursor) 0 = frameLength bytes cursor := by
  rw [frameLength, frameLength, List.take_drop, List.drop_drop, List.take_take,
    Nat.min_eq_left (by omega), Nat.zero_add]

/-- A frame at a cursor is a whole frame. -/
theorem Frame.whole (h : Frame bytes cursor tag stop) :
    WholeFrame tag ((bytes.take stop).drop cursor) := by
  have hheader := h.header
  have hcomplete := h.complete
  have hends := h.ends
  have hlength := h.length
  refine ⟨?_, ?_, ?_⟩
  · rw [List.getElem?_drop, Nat.add_zero, List.getElem?_take_of_lt (by omega)]
    exact h.tag
  · rw [List.length_drop, List.length_take]
    omega
  · rw [frameLength_drop hheader, List.length_drop, List.length_take]
    omega

/-- A whole frame is a frame at its cursor. -/
theorem WholeFrame.at {before frame after : Bytes} (h : WholeFrame tag frame)
    (hbytes : bytes = before ++ frame ++ after)
    (hfits : before.length + frame.length ≤ usizeMax) :
    Frame bytes before.length tag (before.length + frame.length) := by
  have hdrop : (bytes.take (before.length + frame.length)).drop before.length = frame := by
    rw [hbytes, ← List.length_append, List.take_left, List.drop_left]
  have hlen : frameLength bytes before.length = (frame.length : Int) - 1 := by
    rw [← frameLength_drop (n := before.length + frame.length)
      (Nat.add_le_add_left h.header _), hdrop, h.length]
  have hheader := h.header
  have htotal : before.length + frame.length ≤ bytes.length := by
    rw [hbytes, List.length_append, List.length_append]
    omega
  refine ⟨?_, by omega, by omega, htotal, hfits⟩
  rw [hbytes, List.append_assoc, List.getElem?_append_right (le_refl _), Nat.sub_self,
    List.getElem?_append_left (by omega), h.tag]

/-! ### Bursts -/

theorem take_drop_split {cursor next stop : Nat} (h1 : cursor ≤ next) (h2 : next ≤ stop) :
    (bytes.take stop).drop cursor =
      (bytes.take next).drop cursor ++ (bytes.take stop).drop next := by
  obtain ⟨n, rfl⟩ := Nat.exists_eq_add_of_le h1
  rw [← List.take_append_drop n ((bytes.take stop).drop cursor), List.drop_drop, List.take_drop,
    List.take_take, Nat.min_eq_left h2]

theorem Burst.session (h : Burst bytes cursor stop) :
    SessionBurst ((bytes.take stop).drop cursor) := by
  induction h with
  | @last cursor stop tag hf ht =>
    refine ⟨[], _, rfl, fun _ hm => absurd hm List.not_mem_nil, ?_⟩
    rcases ht with rfl | rfl
    · exact Or.inl hf.whole
    · exact Or.inr hf.whole
  | @more cursor next stop tag hf ht hb ih =>
    obtain ⟨frames, last, heq, hframes, hlast⟩ := ih
    have hheader := hf.header
    refine ⟨(bytes.take next).drop cursor :: frames, last, ?_, fun frame hm => ?_, hlast⟩
    · rw [List.flatten_cons, List.append_assoc, ← heq]
      exact take_drop_split (by omega) (le_of_lt hb.lt)
    · rcases List.mem_cons.mp hm with rfl | hm
      · exact ⟨tag, hf.whole, fun hz => ht (Or.inl hz), fun he => ht (Or.inr he)⟩
      · exact hframes frame hm

theorem Burst.addressable (h : Burst bytes cursor stop) : stop ≤ usizeMax := by
  induction h with
  | last hf _ => exact hf.addressable
  | more _ _ _ ih => exact ih

theorem burst_of_frames {last after : Bytes} (hlast : WholeFrame tagZ last ∨ WholeFrame tagE last) :
    ∀ {frames : List Bytes} (before : Bytes),
      before.length + (frames.flatten ++ last).length ≤ usizeMax →
      (∀ frame ∈ frames, ∃ tag, WholeFrame tag frame ∧ tag ≠ tagZ ∧ tag ≠ tagE) →
      bytes = before ++ (frames.flatten ++ last) ++ after →
      Burst bytes before.length (before.length + (frames.flatten ++ last).length) := by
  intro frames
  induction frames with
  | nil =>
    intro before hfits _ hbytes
    rcases hlast with hlast | hlast
    · exact .last (hlast.at hbytes hfits) (Or.inl rfl)
    · exact .last (hlast.at hbytes hfits) (Or.inr rfl)
  | cons frame frames ih =>
    intro before hfits hframes hbytes
    rw [List.flatten_cons, List.append_assoc, List.length_append] at hfits
    obtain ⟨tag, hframe, hz, he⟩ := hframes frame List.mem_cons_self
    have hsplit : bytes = before ++ frame ++ (frames.flatten ++ last ++ after) := by
      rw [hbytes, List.flatten_cons]
      simp only [List.append_assoc]
    have hrest := ih (before ++ frame) (by rw [List.length_append]; omega)
      (fun f hf => hframes f (List.mem_cons_of_mem _ hf))
      (by rw [hsplit]; simp only [List.append_assoc])
    rw [List.length_append] at hrest
    rw [List.flatten_cons, List.append_assoc, List.length_append, ← Nat.add_assoc]
    exact .more (hframe.at hsplit (by omega)) (fun h => h.elim hz he) hrest

/-- **The two descriptions of a burst agree.** -/
theorem burst_iff {burst : Bytes} :
    (∃ stop, Burst bytes 0 stop ∧ burst = bytes.take stop) ↔
      SessionBurst burst ∧ burst.length ≤ usizeMax ∧ ∃ rest, bytes = burst ++ rest := by
  constructor
  · rintro ⟨stop, hb, rfl⟩
    refine ⟨hb.session, ?_, bytes.drop stop, (List.take_append_drop stop bytes).symm⟩
    exact le_trans (List.length_take_le _ _) hb.addressable
  · rintro ⟨⟨frames, last, rfl, hframes, hlast⟩, hfits, rest, hbytes⟩
    refine ⟨_, burst_of_frames hlast [] ?_ hframes hbytes, ?_⟩
    · rw [List.length_nil, Nat.zero_add]
      exact hfits
    · rw [List.length_nil, Nat.zero_add, hbytes, List.take_left]

/-! ### The accepted authentication -/

variable {pgwire : Pgwire}

theorem Authenticated.message (h : Authenticated pgwire bytes stop) (hpg : pgwire.DecodesOk) :
    AuthenticationOk pgwire.maxMessageLength (bytes.take stop) := by
  have hheader := h.frame.header
  have hwhole := h.frame.whole
  rw [List.drop_zero] at hwhole
  have hlength : frameLength (bytes.take stop) 0 = frameLength bytes 0 := frameLength_take hheader
  have h8 : 8 ≤ frameLength (bytes.take stop) 0 := by
    rw [hlength]
    exact h.length
  have hmax : frameLength (bytes.take stop) 0 ≤ pgwire.maxMessageLength := by
    rw [hlength]
    exact Int.toNat_le.mp h.short
  exact ⟨hwhole, h8, hmax, (hpg _ hwhole h8 hmax).mp h.decodes⟩

theorem AuthenticationOk.authenticated {frame rest : Bytes}
    (h : AuthenticationOk pgwire.maxMessageLength frame) (hpg : pgwire.DecodesOk) :
    Authenticated pgwire (frame ++ rest) frame.length := by
  have hfits : ([] : Bytes).length + frame.length ≤ usizeMax := by
    have h1 := h.whole.length
    have h2 : (frameLength frame 0).toNat ≤ i32Max := i32FromBeBytes_le _
    have h3 : i32Max + 1 ≤ usizeMax := by decide
    rw [List.length_nil]
    omega
  have hf : Frame (frame ++ rest) ([] : Bytes).length tagR (([] : Bytes).length + frame.length) :=
    h.whole.at rfl hfits
  rw [List.length_nil, Nat.zero_add] at hf
  have htake : (frame ++ rest).take frame.length = frame := List.take_left
  have hlength : frameLength (frame ++ rest) 0 = frameLength frame 0 := by
    rw [← frameLength_take hf.header, htake]
  have h9 : 9 ≤ frame.length := by
    have h1 := h.atLeast
    rw [h.whole.length] at h1
    omega
  have hcode : i32FromBeBytes (((frame ++ rest).take 9).drop 5) = 0 := by
    rw [List.take_append_of_le_length h9]
    exact h.code
  refine ⟨hf, ?_, ?_, fun h5 => ?_, ?_⟩
  · rw [hlength]
    exact Int.toNat_le.mpr h.atMost
  · rw [hlength]
    exact h.atLeast
  · rw [hcode] at h5
    exact absurd h5 (by decide)
  · rw [htake]
    exact (hpg _ h.whole h.atLeast h.atMost).mpr h.code

/-! ### Two streams with the same bytes -/

/-- The same bytes in different reads, and all else alike. -/
structure SameBytes (left right : UpstreamStream) : Prop where
  unread : left.unread = right.unread
  ending : left.ending = right.ending
  writeAll : left.writeAll = right.writeAll

theorem readUntilLoop_error {ending : Option IoError} {length : Nat} {error : IoError} :
    ∀ {chunks : List Chunk} {buf : Bytes}, readUntilLoop ending length chunks buf = .error error →
      error = ending.getD (.unexpectedEof "upstream closed during startup") := by
  intro chunks
  induction chunks with
  | nil =>
    intro buf h
    rw [readUntilLoop.eq_def] at h
    dsimp only at h
    split at h
    · cases ending <;> cases h <;> rfl
    · cases h
  | cons chunk rest ih =>
    intro buf h
    rw [readUntilLoop] at h
    split at h
    · exact ih h
    · cases h

/-- Every failed read fails as the stream ends. -/
theorem readUntil_stop {length : Nat} {r : Reader} {stop : Stop}
    (h : readUntil length r = .error stop) :
    stop = .error (.io
      (r.stream.ending.getD (.unexpectedEof "upstream closed during startup"))) := by
  rw [readUntil] at h
  split at h
  · rename_i error he
    cases h
    rw [readUntilLoop_error he]
  · cases h

namespace SameBytes

variable {left right : UpstreamStream} {skip enough : Nat} {r r' : Reader}

theorem rest (h : SameBytes left right) (skip : Nat) : left.rest skip = right.rest skip := by
  rw [UpstreamStream.rest, UpstreamStream.rest, h.unread]

theorem readUntil (h : SameBytes left right) (length : Nat) (hl : At left skip enough r)
    (hr : At right skip enough r') (hle : enough ≤ skip + length) :
    (∃ stop, Wire.readUntil length r = .error stop ∧ Wire.readUntil length r' = .error stop) ∨
    ∃ r₁ r₁', Wire.readUntil length r = .ok r₁ ∧ Wire.readUntil length r' = .ok r₁' ∧
      At left skip (skip + length) r₁ ∧ At right skip (skip + length) r₁' ∧
      length ≤ r₁.buf.length ∧ length ≤ r₁'.buf.length := by
  have hends : r.stream.ending = r'.stream.ending := by
    obtain ⟨_, h1, _⟩ := hl
    obtain ⟨_, h2, _⟩ := hr
    rw [h1, h2]
    exact h.ending
  rcases readUntil_cases length hl hle with ⟨r₁, h1, h2, h3⟩ | ⟨h1, error, h2⟩
  · rcases readUntil_cases length hr hle with ⟨r₁', g1, g2, g3⟩ | ⟨g1, _, _⟩
    · exact Or.inr ⟨r₁, r₁', h1, g1, h2, g2, h3, g3⟩
    · rw [← h.rest skip] at g1
      have hlen := h2.length_le
      omega
  · rcases readUntil_cases length hr hle with ⟨r₁', _, g2, g3⟩ | ⟨_, error', g2⟩
    · rw [h.rest skip] at h1
      have hlen := g2.length_le
      omega
    · rw [h2, g2, readUntil_stop h2, readUntil_stop g2, hends]
      exact Or.inl ⟨_, rfl, rfl⟩

theorem readTo (h : SameBytes left right) (cursor stop : Nat) (hl : At left skip enough r)
    (hr : At right skip enough r') (hle : enough ≤ skip + stop) (hlt : cursor < stop) :
    (∃ e, Wire.readTo cursor stop r = .error e ∧ Wire.readTo cursor stop r' = .error e) ∨
    ∃ tag r₁ r₁', Wire.readTo cursor stop r = .ok ((tag, stop), r₁) ∧
      Wire.readTo cursor stop r' = .ok ((tag, stop), r₁') ∧
      At left skip (skip + stop) r₁ ∧ At right skip (skip + stop) r₁' ∧
      stop ≤ r₁.buf.length ∧ stop ≤ r₁'.buf.length := by
  rcases h.readUntil stop hl hr hle with ⟨e, h1, h2⟩ | ⟨r₁, r₁', h1, h2, h3, h4, h5, h6⟩
  · refine Or.inl ⟨e, ?_, ?_⟩
    · rw [Wire.readTo, h1]
      rfl
    · rw [Wire.readTo, h2]
      rfl
  · rcases readTo_cases cursor stop hl hle hlt with ⟨tag, r₂, g1, g2, g3, g4⟩ | ⟨g1, _⟩
    · rcases readTo_cases cursor stop hr hle hlt with ⟨tag', r₂', g1', g2', g3', g4'⟩ | ⟨g1', _⟩
      · rw [h.rest skip] at g2
        cases Option.some.inj (g2.symm.trans g2')
        exact Or.inr ⟨tag, r₂, r₂', g1, g1', g3, g3', g4, g4'⟩
      · have hlen := h4.length_le
        omega
    · have hlen := h3.length_le
      omega

theorem readBody (h : SameBytes left right) (cursor max : Nat) (length : Int)
    (hl : At left skip enough r) (hr : At right skip enough r')
    (hle : enough ≤ skip + (cursor + 5)) :
    (∃ e, Wire.readBody cursor max length r = .error e ∧
      Wire.readBody cursor max length r' = .error e) ∨
    ∃ tag stop r₁ r₁', Wire.readBody cursor max length r = .ok ((tag, stop), r₁) ∧
      Wire.readBody cursor max length r' = .ok ((tag, stop), r₁') ∧
      At left skip (skip + stop) r₁ ∧ At right skip (skip + stop) r₁' ∧
      stop ≤ r₁.buf.length ∧ stop ≤ r₁'.buf.length := by
  rw [Wire.readBody, Wire.readBody]
  split
  case isTrue => exact Or.inl ⟨_, rfl, rfl⟩
  case isFalse hge =>
  split
  case isTrue => exact Or.inl ⟨_, rfl, rfl⟩
  case isFalse =>
  split
  case isTrue => exact Or.inl ⟨_, rfl, rfl⟩
  case isFalse =>
  refine (h.readTo cursor _ hl hr (by omega) (by omega)).imp id fun hok => ?_
  obtain ⟨tag, r₁, r₁', hok⟩ := hok
  exact ⟨tag, _, r₁, r₁', hok⟩

/-- **A frame is read alike.** -/
theorem readFrame (h : SameBytes left right) (cursor max : Nat) (hl : At left skip enough r)
    (hr : At right skip enough r') (hle : enough ≤ skip + cursor) :
    (∃ e, Wire.readFrame cursor max r = .error e ∧ Wire.readFrame cursor max r' = .error e) ∨
    ∃ tag stop r₁ r₁', Wire.readFrame cursor max r = .ok ((tag, stop), r₁) ∧
      Wire.readFrame cursor max r' = .ok ((tag, stop), r₁') ∧
      At left skip (skip + stop) r₁ ∧ At right skip (skip + stop) r₁' ∧
      stop ≤ r₁.buf.length ∧ stop ≤ r₁'.buf.length := by
  rcases h.readUntil (cursor + 5) hl hr (by omega) with
    ⟨e, h1, h2⟩ | ⟨r₁, r₁', h1, h2, h3, h4, h5, h6⟩
  · refine Or.inl ⟨e, ?_, ?_⟩
    · rw [Wire.readFrame, h1]
      rfl
    · rw [Wire.readFrame, h2]
      rfl
  · rw [readFrame_of_header h1 h5, readFrame_of_header h2 h6, h3.header h5, h4.header h6,
      h.rest skip]
    exact h.readBody cursor max _ h3 h4 (le_refl _)

end SameBytes

/-- A frame is decoded from its own bytes. -/
theorem decodeFrame_same {buf buf' : Bytes} {frameEnd : Nat} (hle : frameEnd ≤ buf.length)
    (hle' : frameEnd ≤ buf'.length) (htake : buf.take frameEnd = buf'.take frameEnd) :
    (∃ e, decodeFrame pgwire buf frameEnd = .error e ∧
      decodeFrame pgwire buf' frameEnd = .error e) ∨
    decodeFrame pgwire buf frameEnd = .ok (buf.drop frameEnd) ∧
      decodeFrame pgwire buf' frameEnd = .ok (buf'.drop frameEnd) := by
  rw [decodeFrame, decodeFrame]
  dsimp only
  split
  case isTrue => exact Or.inl ⟨_, rfl, rfl⟩
  case isFalse h8 =>
  have hnine : buf.take 9 = buf'.take 9 := by
    have h9 : min 9 frameEnd = 9 := by omega
    rw [← h9, ← List.take_take, htake, List.take_take]
  have hslice : slice buf 5 9 = .ok ((buf'.take 9).drop 5) := by
    rw [slice, if_pos (by omega), hnine]
  have hslice' : slice buf' 5 9 = .ok ((buf'.take 9).drop 5) := if_pos (by omega)
  have hsplit : splitTo buf frameEnd = .ok (buf'.take frameEnd, buf.drop frameEnd) := by
    rw [splitTo_ok hle, htake]
  simp only [hslice, hslice', hsplit, splitTo_ok hle', bind, Except.bind]
  split
  case isTrue => exact Or.inl ⟨_, rfl, rfl⟩
  case isFalse =>
  cases pgwire.decodeAuthentication (buf'.take frameEnd) with
  | error error => exact Or.inl ⟨_, rfl, rfl⟩
  | ok result =>
    cases result with
    | none => exact Or.inl ⟨_, rfl, rfl⟩
    | some authentication =>
      cases authentication with
      | ok => exact Or.inr ⟨rfl, rfl⟩
      | other => exact Or.inl ⟨_, rfl, rfl⟩

namespace SameBytes

variable {left right : UpstreamStream} {skip : Nat} {r r' : Reader}

theorem authenticate (h : SameBytes left right) (pgwire : Pgwire) (dbName : String)
    (clientParams : Parameters) :
    (∃ e, Wire.authenticate pgwire left dbName clientParams = .error e ∧
      Wire.authenticate pgwire right dbName clientParams = .error e) ∨
    ∃ stop r r', Wire.authenticate pgwire left dbName clientParams = .ok r ∧
      Wire.authenticate pgwire right dbName clientParams = .ok r' ∧
      At left stop stop r ∧ At right stop stop r' := by
  have hsend : sendStartup pgwire left dbName clientParams =
      sendStartup pgwire right dbName clientParams := by
    rw [sendStartup, sendStartup, h.writeAll]
  rw [Wire.authenticate, Wire.authenticate, hsend]
  cases sendStartup pgwire right dbName clientParams with
  | error e => exact Or.inl ⟨e, rfl, rfl⟩
  | ok u =>
    simp only [bind, Except.bind]
    rcases h.readFrame 0 pgwire.maxMessageLength (At.start left) (At.start right) (le_refl _) with
      ⟨e, h1, h2⟩ | ⟨tag, stop, r₁, r₁', h1, h2, h3, h4, h5, h6⟩
    · rw [h1, h2]
      exact Or.inl ⟨e, rfl, rfl⟩
    · rw [h1, h2]
      dsimp only
      split
      case isTrue =>
        have hbuf : ∀ {stream : UpstreamStream} {r : Reader}, At stream 0 (0 + stop) r →
            stop ≤ r.buf.length → r.buf.take stop = stream.unread.take stop := by
          intro stream r hat hle
          rw [hat.buf_eq, List.take_take, Nat.min_eq_left hle]
          rfl
        have htake : r₁.buf.take stop = r₁'.buf.take stop := by
          rw [hbuf h3 h5, hbuf h4 h6, h.unread]
        rcases decodeFrame_same h5 h6 htake with ⟨e, g1, g2⟩ | ⟨g1, g2⟩
        · rw [g1, g2]
          exact Or.inl ⟨e, rfl, rfl⟩
        · rw [g1, g2]
          have hl := h3.split h5
          have hr := h4.split h6
          rw [Nat.zero_add] at hl hr
          exact Or.inr ⟨stop, _, _, rfl, rfl, hl, hr⟩
      case isFalse =>
        split
        · exact Or.inl ⟨_, rfl, rfl⟩
        · exact Or.inl ⟨_, rfl, rfl⟩

theorem waitLoop (h : SameBytes left right) : ∀ {fuel cursor : Nat} {r r' : Reader},
    At left skip (skip + cursor) r → At right skip (skip + cursor) r' →
    (∃ e, Wire.waitLoop fuel cursor r = .error e ∧ Wire.waitLoop fuel cursor r' = .error e) ∨
    ∃ stop r₁ r₁', Wire.waitLoop fuel cursor r = .ok (stop, r₁) ∧
      Wire.waitLoop fuel cursor r' = .ok (stop, r₁') := by
  intro fuel
  induction fuel with
  | zero =>
    intro cursor r r' _ _
    exact Or.inl ⟨_, rfl, rfl⟩
  | succ fuel ih =>
    intro cursor r r' hl hr
    rw [Wire.waitLoop, Wire.waitLoop]
    rcases h.readFrame cursor i32Max hl hr (le_refl _) with
      ⟨e, h1, h2⟩ | ⟨tag, stop, r₁, r₁', h1, h2, h3, h4, _, _⟩
    · rw [h1, h2]
      exact Or.inl ⟨e, rfl, rfl⟩
    · rw [h1, h2]
      simp only [bind, Except.bind]
      by_cases ht : tag = tagZ ∨ tag = tagE
      · rw [if_pos ht, if_pos ht]
        exact Or.inr ⟨stop, r₁, r₁', rfl, rfl⟩
      · rw [if_neg ht, if_neg ht]
        exact ih h3 h4

theorem waitForReadyForQuery (h : SameBytes left right) (hl : At left skip skip r)
    (hr : At right skip skip r') :
    (∃ e, Wire.waitForReadyForQuery r = .error e ∧ Wire.waitForReadyForQuery r' = .error e) ∨
    ∃ burst r₁ r₁', Wire.waitForReadyForQuery r = .ok (burst, r₁) ∧
      Wire.waitForReadyForQuery r' = .ok (burst, r₁') := by
  have hfuel : r.buf.length + r.stream.unread.length =
      r'.buf.length + r'.stream.unread.length := by
    rw [← List.length_append, ← List.length_append, hl.bytes, hr.bytes, h.rest skip]
  rw [Wire.waitForReadyForQuery, Wire.waitForReadyForQuery, hfuel]
  have hl : At left skip (skip + 0) r := hl
  have hr : At right skip (skip + 0) r' := hr
  rcases h.waitLoop hl hr with ⟨e, h1, h2⟩ | ⟨stop, r₁, r₁', h1, h2⟩
  · rw [h1, h2]
    exact Or.inl ⟨e, rfl, rfl⟩
  · obtain ⟨_, hat, hle⟩ := waitLoop_sound hl h1
    obtain ⟨_, hat', hle'⟩ := waitLoop_sound hr h2
    have hburst : r₁.buf.take stop = r₁'.buf.take stop := by
      rw [hat.buf_eq, hat'.buf_eq, List.take_take, List.take_take, Nat.min_eq_left hle,
        Nat.min_eq_left hle', h.rest skip]
    simp only [h1, h2, splitTo_ok hle, splitTo_ok hle', hburst, bind, Except.bind]
    exact Or.inr ⟨_, _, _, rfl, rfl⟩

/-- **The outcome does not depend on the reads.** -/
theorem connect (h : SameBytes left right) (pgwire : Pgwire) (dbName : String)
    (clientParams : Parameters) :
    (Wire.connect pgwire dbName clientParams (.ok left)).map UpstreamSession.sessionBurst =
      (Wire.connect pgwire dbName clientParams (.ok right)).map UpstreamSession.sessionBurst := by
  simp only [Wire.connect]
  rcases h.authenticate pgwire dbName clientParams with
    ⟨e, h1, h2⟩ | ⟨stop, r, r', h1, h2, h3, h4⟩
  · rw [h1, h2]
  · rw [h1, h2]
    rcases h.waitForReadyForQuery h3 h4 with ⟨e, g1, g2⟩ | ⟨burst, r₁, r₁', g1, g2⟩
    · simp only [g1, g2, bind, Except.bind]
    · simp only [g1, g2, bind, Except.bind, Except.map, pure, Except.pure]

end SameBytes

/-! ### What `connect` accepts -/

variable {dbName : String} {clientParams : Parameters} {stream : UpstreamStream}

/-- With fuel for every byte, the loop fails only where reading a frame does. -/
theorem waitLoop_error {skip : Nat} {stop : Stop} : ∀ {fuel cursor : Nat} {r : Reader},
    At stream skip (skip + cursor) r → cursor ≤ r.buf.length →
    (stream.rest skip).length < cursor + fuel → waitLoop fuel cursor r = .error stop →
    ∃ error, stop = .error error := by
  intro fuel
  induction fuel with
  | zero =>
    intro cursor r h hle hfuel _
    have hlen := h.length_le
    omega
  | succ fuel ih =>
    intro cursor r h _ hfuel hfail
    rw [waitLoop] at hfail
    rcases readFrame_cases cursor i32Max h (le_refl _) with
      ⟨tag, next, r₁, h1, hf, _, h2, h3⟩ | ⟨⟨error, h1⟩, _⟩
    · rw [h1] at hfail
      simp only [bind, Except.bind] at hfail
      by_cases ht : tag = tagZ ∨ tag = tagE
      · rw [if_pos ht] at hfail
        cases hfail
      · rw [if_neg ht] at hfail
        have hheader := hf.header
        exact ih h2 h3 (by omega) hfail
    · rw [h1] at hfail
      cases hfail
      exact ⟨error, rfl⟩

theorem sendStartup_error {stop : Stop}
    (hfail : sendStartup pgwire stream dbName clientParams = .error stop) :
    ∃ error, stop = .error error := by
  rw [sendStartup] at hfail
  split at hfail
  · cases hfail
    exact ⟨_, rfl⟩
  · split at hfail <;> cases hfail
    exact ⟨_, rfl⟩

/-- **Where `connect` fails, it returns an error**: no slice is out of bounds, and the loop
ends. -/
theorem connect_error {stop : Stop}
    (hfail : connect pgwire dbName clientParams (.ok stream) = .error stop) :
    ∃ error, stop = .error error := by
  rcases bind_error hfail with hfail | ⟨r, hok, hfail⟩
  · cases hsend : sendStartup pgwire stream dbName clientParams with
    | error e =>
      rw [authenticate, hsend] at hfail
      cases hfail
      exact sendStartup_error hsend
    | ok u =>
      rcases authenticate_cases hsend with ⟨_, r, h1, _⟩ | ⟨⟨error, h1⟩, _⟩
      · cases hfail.symm.trans h1
      · cases hfail.symm.trans h1
        exact ⟨error, rfl⟩
  · have hsent : Sent pgwire dbName clientParams stream := (bind_ok hok).elim fun _ h => h.1
    rcases authenticate_cases hsent with ⟨authEnd, r', h1, _, hat⟩ | ⟨⟨error, h1⟩, _⟩
    · cases hok.symm.trans h1
      have hat : At stream authEnd (authEnd + 0) r := hat
      have hbytes := congrArg List.length hat.bytes
      rw [List.length_append] at hbytes
      rcases bind_error hfail with hfail | ⟨_, _, hfail⟩
      · rcases bind_error hfail with hfail | ⟨⟨stop', r₁⟩, h2, hfail⟩
        · exact waitLoop_error hat (Nat.zero_le _) (by omega) hfail
        · obtain ⟨_, _, hle⟩ := waitLoop_sound hat h2
          simp only [splitTo_ok hle, bind, Except.bind] at hfail
          cases hfail
      · cases hfail
    · cases hok.symm.trans h1

/-- **The handshake is exact.**  `connect` succeeds, with `burst`, exactly if the startup
message was sent and the stream starts with an `AuthenticationOk` and then `burst`, which
is a buffer: its length is a `usize`.  Otherwise it returns an error; it never slices out
of bounds or loops without end.  The outcome is the same however the bytes are split into
reads. -/
theorem handshake_exact (hpg : pgwire.DecodesOk) :
    (∀ burst, (∃ session, connect pgwire dbName clientParams (.ok stream) = .ok session ∧
        session.sessionBurst = burst) ↔
      Sent pgwire dbName clientParams stream ∧ burst.length ≤ usizeMax ∧
        Handshake pgwire.maxMessageLength stream.unread burst) ∧
    ((∀ burst, ¬(Sent pgwire dbName clientParams stream ∧ burst.length ≤ usizeMax ∧
        Handshake pgwire.maxMessageLength stream.unread burst)) →
      ∃ error, connect pgwire dbName clientParams (.ok stream) = .error (.error error)) ∧
    ∀ other, SameBytes stream other →
      (connect pgwire dbName clientParams (.ok stream)).map UpstreamSession.sessionBurst =
        (connect pgwire dbName clientParams (.ok other)).map UpstreamSession.sessionBurst := by
  have hiff : ∀ burst, (∃ session, connect pgwire dbName clientParams (.ok stream) = .ok session ∧
      session.sessionBurst = burst) ↔ Sent pgwire dbName clientParams stream ∧
        burst.length ≤ usizeMax ∧ Handshake pgwire.maxMessageLength stream.unread burst := by
    intro burst
    constructor
    · rintro ⟨session, hok, rfl⟩
      obtain ⟨hsent, authEnd, burstEnd, r, hc, rfl⟩ := connect_sound hok
      have htake : r.buf.take burstEnd = (stream.rest authEnd).take burstEnd := by
        rw [hc.stands.buf_eq, List.take_take, Nat.min_eq_left hc.buffered]
      obtain ⟨hburst, hfits, rest, hrest⟩ := burst_iff.mp ⟨burstEnd, hc.burst, htake⟩
      refine ⟨hsent, hfits, stream.unread.take authEnd, rest, ?_,
        hc.authenticated.message hpg, hburst⟩
      rw [List.append_assoc, ← hrest]
      exact (List.take_append_drop authEnd _).symm
    · rintro ⟨hsent, hfits, authentication, rest, hbytes, hauth, hburst⟩
      rw [List.append_assoc] at hbytes
      have ha : Authenticated pgwire stream.unread authentication.length := by
        rw [hbytes]
        exact hauth.authenticated hpg
      have hrest : stream.rest authentication.length = burst ++ rest := by
        rw [UpstreamStream.rest, hbytes, List.drop_left]
      obtain ⟨stop, hb, htake⟩ := burst_iff.mpr ⟨hburst, hfits, rest, hrest⟩
      obtain ⟨r, hc, hok⟩ := connect_complete hsent ha hb
      refine ⟨_, hok, ?_⟩
      show r.buf.take stop = burst
      rw [hc.stands.buf_eq, List.take_take, Nat.min_eq_left hc.buffered, htake]
  refine ⟨hiff, fun hno => ?_, fun other h => h.connect _ _ _⟩
  cases hc : connect pgwire dbName clientParams (.ok stream) with
  | ok session => exact absurd ((hiff _).mp ⟨session, hc, rfl⟩) (hno _)
  | error stop =>
    obtain ⟨error, rfl⟩ := connect_error hc
    exact ⟨error, rfl⟩

theorem Sample.decoder_decodesOk : Sample.decoder.DecodesOk := by
  intro frame _ _ _
  simp [Sample.decoder, authenticationCode]

/-- The notice after `ReadyForQuery` is no part of the burst, in whatever reads it comes. -/
theorem handshake_exact_upstream :
    (connect Sample.decoder "test" (fun _ => none) (.ok Sample.upstream)).map
        UpstreamSession.sessionBurst = .ok Sample.readyForQuery ∧
      ∀ other, SameBytes Sample.upstream other →
        (connect Sample.decoder "test" (fun _ => none) (.ok other)).map
          UpstreamSession.sessionBurst = .ok Sample.readyForQuery := by
  have hexact := @handshake_exact Sample.decoder "test" (fun _ => none) Sample.upstream
    Sample.decoder_decodesOk
  have hburst : Handshake Sample.decoder.maxMessageLength Sample.upstream.unread
      Sample.readyForQuery :=
    ⟨Sample.authenticationOk, Sample.noticeResponse, by decide,
      ⟨⟨by decide, by decide, by decide⟩, by decide, by decide, by decide⟩,
      [], Sample.readyForQuery, rfl, fun _ hm => absurd hm List.not_mem_nil,
      Or.inl ⟨by decide, by decide, by decide⟩⟩
  obtain ⟨session, hok, hs⟩ := (hexact.1 Sample.readyForQuery).mpr ⟨rfl, by decide, hburst⟩
  have hburst' : (connect Sample.decoder "test" (fun _ => none) (.ok Sample.upstream)).map
      UpstreamSession.sessionBurst = .ok Sample.readyForQuery := by
    rw [hok, ← hs]
    rfl
  exact ⟨hburst', fun other h => (hexact.2.2 other h) ▸ hburst'⟩

end PgTest.Wire
