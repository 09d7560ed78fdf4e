import PgTest.Wire.Framing

/-!
# What is relayed of the upstream

`connect` succeeds exactly where an accepted authentication frame is followed by
a complete burst.  It drops what it has read beyond the burst, so the bytes of the
upstream reach the client exactly where the last read ended with the burst.
-/

namespace PgTest.Wire

open PgTest.Lib

variable {pgwire : Pgwire} {dbName : String} {clientParams : Parameters}
variable {stream : UpstreamStream} {skip : Nat} {r r' : Reader}

/-! ### Authentication -/

/-- `authenticate` accepts the frame that the bytes begin with. -/
structure Authenticated (pgwire : Pgwire) (bytes : Bytes) (stop : Nat) : Prop where
  frame : Frame bytes 0 tagR stop
  short : (frameLength bytes 0).toNat ≤ pgwire.maxMessageLength
  length : 8 ≤ frameLength bytes 0
  salt : i32FromBeBytes ((bytes.take 9).drop 5) = 5 → 12 ≤ frameLength bytes 0
  decodes : pgwire.decodeAuthentication (bytes.take stop) = .ok (some .ok)

/-- The startup message is encoded and written. -/
def Sent (pgwire : Pgwire) (dbName : String) (clientParams : Parameters)
    (stream : UpstreamStream) : Prop := sendStartup pgwire stream dbName clientParams = .ok ()

/-- **`authenticate`** consumes an accepted frame, or fails. -/
theorem decodeFrame_cases {stop : Nat} (h : At stream 0 stop r) (hle : stop ≤ r.buf.length)
    (hf : Frame stream.unread 0 tagR stop)
    (hs : (frameLength stream.unread 0).toNat ≤ pgwire.maxMessageLength) :
    Authenticated pgwire stream.unread stop ∧
        decodeFrame pgwire r.buf stop = .ok (r.buf.drop stop) ∨
    (∃ error, decodeFrame pgwire r.buf stop = .error (.error error)) ∧
      ¬Authenticated pgwire stream.unread stop := by
  have hlen : ((stop : Int) - 1) = frameLength stream.unread 0 := by
    have h1 := hf.ends
    have h2 := hf.length
    omega
  have hbuf : r.buf = stream.unread.take r.buf.length := h.buf_eq
  have htake : ∀ n, n ≤ r.buf.length → r.buf.take n = stream.unread.take n := by
    intro n hn
    rw [hbuf, List.take_take, Nat.min_eq_left hn]
  rw [decodeFrame, hlen]
  dsimp only
  split
  case isTrue hlt => exact Or.inr ⟨⟨_, rfl⟩, fun ha => absurd ha.length (not_le.mpr hlt)⟩
  case isFalse h8 =>
  have hnine : 9 ≤ r.buf.length := by
    have h1 := hf.ends
    omega
  have hslice : slice r.buf 5 9 = .ok ((stream.unread.take 9).drop 5) := by
    rw [slice, if_pos hnine, htake 9 hnine]
  have hsplit : splitTo r.buf stop = .ok (stream.unread.take stop, r.buf.drop stop) := by
    rw [splitTo, if_pos hle, htake stop hle]
  simp only [hslice, hsplit, bind, Except.bind]
  split
  case isTrue hc =>
    exact Or.inr ⟨⟨_, rfl⟩, fun ha => absurd (ha.salt hc.1) (not_le.mpr hc.2)⟩
  case isFalse hc =>
  cases hd : pgwire.decodeAuthentication (stream.unread.take stop) with
  | error error => exact Or.inr ⟨⟨_, rfl⟩, fun ha => nomatch hd.symm.trans ha.decodes⟩
  | ok result =>
    cases result with
    | none => exact Or.inr ⟨⟨_, rfl⟩, fun ha => nomatch hd.symm.trans ha.decodes⟩
    | some authentication =>
      cases authentication with
      | other => exact Or.inr ⟨⟨_, rfl⟩, fun ha => nomatch hd.symm.trans ha.decodes⟩
      | ok =>
        refine Or.inl ⟨⟨hf, hs, not_lt.mp h8, fun h5 => ?_, hd⟩, rfl⟩
        exact not_lt.mp fun hlt => hc ⟨h5, hlt⟩

theorem authenticate_cases (hsent : Sent pgwire dbName clientParams stream) :
    (∃ stop r, authenticate pgwire stream dbName clientParams = .ok r ∧
      Authenticated pgwire stream.unread stop ∧ At stream stop stop r) ∨
    (∃ error, authenticate pgwire stream dbName clientParams = .error (.error error)) ∧
      ∀ stop, ¬Authenticated pgwire stream.unread stop := by
  have hsent : sendStartup pgwire stream dbName clientParams = .ok () := hsent
  simp only [authenticate, hsent, bind, Except.bind]
  rcases readFrame_cases 0 pgwire.maxMessageLength (At.start stream)
    (le_refl _) with ⟨tag, stop, r, h1, hf, hs, h2, h3⟩ | ⟨⟨error, h1⟩, hno⟩
  · have hf : Frame stream.unread 0 tag stop := hf
    rw [h1]
    dsimp only
    by_cases ht : tag = tagR
    · subst ht
      rw [if_pos rfl]
      rcases decodeFrame_cases (h2.mono (le_of_eq (Nat.zero_add stop))) h3 hf hs with
        ⟨ha, hd⟩ | ⟨⟨error, hd⟩, ha⟩
      · have hat : At stream (0 + stop) (0 + stop) ⟨r.stream, r.buf.drop stop⟩ := h2.split h3
        rw [Nat.zero_add] at hat
        exact Or.inl ⟨stop, _, by rw [hd]; rfl, ha, hat⟩
      · refine Or.inr ⟨⟨error, by rw [hd]⟩, fun other ho => ha ?_⟩
        have heq : other = stop := ho.frame.ends.trans hf.ends.symm
        exact heq ▸ ho
    · refine Or.inr ⟨?_, fun other ho => ht (Option.some.inj (hf.tag.symm.trans ho.frame.tag))⟩
      rw [if_neg ht]
      split
      · exact ⟨_, rfl⟩
      · exact ⟨_, rfl⟩
  · rw [h1]
    exact Or.inr ⟨⟨error, rfl⟩, fun stop ha =>
      absurd ha.short (not_le.mpr (hno tagR stop ha.frame))⟩

/-! ### The burst -/

/-- **The loop ends where the burst does.** -/
theorem waitLoop_sound : ∀ {fuel cursor stop : Nat} {r r' : Reader},
    At stream skip (skip + cursor) r → waitLoop fuel cursor r = .ok (stop, r') →
    Burst (stream.rest skip) cursor stop ∧ At stream skip (skip + stop) r' ∧
      stop ≤ r'.buf.length := by
  intro fuel
  induction fuel with
  | zero =>
    intro cursor stop r r' _ hok
    cases hok
  | succ fuel ih =>
    intro cursor stop r r' h hok
    rw [waitLoop] at hok
    obtain ⟨⟨⟨tag, next⟩, r₁⟩, h1, h2⟩ := bind_ok hok
    rcases readFrame_cases cursor i32Max h (le_refl _) with
      ⟨tag', next', r₂, h3, hf, _, h4, h5⟩ | ⟨⟨error, h3⟩, _⟩
    · cases h1.symm.trans h3
      dsimp only at h2
      by_cases ht : tag = tagZ ∨ tag = tagE
      · rw [if_pos ht] at h2
        cases h2
        exact ⟨.last hf ht, h4, h5⟩
      · rw [if_neg ht] at h2
        obtain ⟨hb, h6⟩ := ih h4 h2
        exact ⟨.more hf ht hb, h6⟩
    · cases h1.symm.trans h3

/-- **A complete burst is read**, with fuel for each of its frames. -/
theorem waitLoop_complete {cursor stop : Nat} (hb : Burst (stream.rest skip) cursor stop) :
    ∀ {fuel : Nat} {r : Reader}, At stream skip (skip + cursor) r → stop < cursor + fuel →
    ∃ r', waitLoop fuel cursor r = .ok (stop, r') := by
  induction hb with
  | @last cursor stop tag hf ht =>
    intro fuel r h hfuel
    have hheader := hf.header
    obtain ⟨fuel, rfl⟩ : ∃ n, fuel = n + 1 := Nat.exists_eq_succ_of_ne_zero (by omega)
    rcases readFrame_cases cursor i32Max h (le_refl _) with
      ⟨tag', stop', r₁, h1, hf', _, _, _⟩ | ⟨_, hno⟩
    · cases Option.some.inj (hf.tag.symm.trans hf'.tag)
      cases hf'.ends.trans hf.ends.symm
      rw [waitLoop, h1]
      refine ⟨r₁, ?_⟩
      show (if tag = tagZ ∨ tag = tagE then pure (stop, r₁) else waitLoop fuel stop r₁) = _
      rw [if_pos ht]
      rfl
    · exact absurd (hno tag stop hf) (not_lt.mpr (i32FromBeBytes_le _))
  | @more cursor next stop tag hf ht hb ih =>
    intro fuel r h hfuel
    have hheader := hf.header
    have hlt := hb.lt
    obtain ⟨fuel, rfl⟩ : ∃ n, fuel = n + 1 := Nat.exists_eq_succ_of_ne_zero (by omega)
    rcases readFrame_cases cursor i32Max h (le_refl _) with
      ⟨tag', stop', r₁, h1, hf', _, h2, _⟩ | ⟨_, hno⟩
    · cases Option.some.inj (hf.tag.symm.trans hf'.tag)
      cases hf'.ends.trans hf.ends.symm
      rw [waitLoop, h1]
      obtain ⟨r₂, h3⟩ := ih h2 (show stop < next + fuel by omega)
      refine ⟨r₂, ?_⟩
      show (if tag = tagZ ∨ tag = tagE then pure (next, r₁) else waitLoop fuel next r₁) = _
      rw [if_neg ht]
      exact h3
    · exact absurd (hno tag next hf) (not_lt.mpr (i32FromBeBytes_le _))

/-! ### The connection -/

theorem splitTo_ok {buf : Bytes} {length : Nat} (h : length ≤ buf.length) :
    splitTo buf length = .ok (buf.take length, buf.drop length) := if_pos h

/-- What a successful `connect` has done: it read an accepted authentication frame
up to `authEnd` and a burst of `burstEnd` bytes after it. -/
structure Connected (pgwire : Pgwire) (stream : UpstreamStream) (authEnd burstEnd : Nat)
    (r : Reader) : Prop where
  authenticated : Authenticated pgwire stream.unread authEnd
  burst : Burst (stream.rest authEnd) 0 burstEnd
  stands : At stream authEnd (authEnd + burstEnd) r
  buffered : burstEnd ≤ r.buf.length

theorem connect_sound {session : UpstreamSession}
    (hok : connect pgwire dbName clientParams (.ok stream) = .ok session) :
    Sent pgwire dbName clientParams stream ∧ ∃ authEnd burstEnd r,
      Connected pgwire stream authEnd burstEnd r ∧ session = ⟨r.stream, r.buf.take burstEnd⟩ := by
  obtain ⟨r, h1, h2⟩ := bind_ok hok
  obtain ⟨⟨burst, r₂⟩, h3, h4⟩ := bind_ok h2
  cases h4
  obtain ⟨⟨burstEnd, r₁⟩, h5, h6⟩ := bind_ok h3
  obtain ⟨⟨burst', rest⟩, h7, h8⟩ := bind_ok h6
  cases h8
  have hsent : Sent pgwire dbName clientParams stream := (bind_ok h1).elim fun _ h => h.1
  rcases authenticate_cases hsent with ⟨authEnd, r', h9, ha, hat⟩ | ⟨⟨error, h9⟩, _⟩
  · cases h1.symm.trans h9
    obtain ⟨hb, hat₁, hle⟩ := waitLoop_sound (show At stream authEnd (authEnd + 0) _ from hat) h5
    rw [splitTo_ok hle] at h7
    cases h7
    exact ⟨hsent, authEnd, burstEnd, r₁, ⟨ha, hb, hat₁, hle⟩, rfl⟩
  · cases h1.symm.trans h9

theorem connect_complete (hsent : Sent pgwire dbName clientParams stream) {authEnd burstEnd : Nat}
    (ha : Authenticated pgwire stream.unread authEnd)
    (hb : Burst (stream.rest authEnd) 0 burstEnd) :
    ∃ r, Connected pgwire stream authEnd burstEnd r ∧
      connect pgwire dbName clientParams (.ok stream) =
        .ok ⟨r.stream, r.buf.take burstEnd⟩ := by
  rcases authenticate_cases hsent with ⟨stop, r, h1, ha', hat⟩ | ⟨_, hno⟩
  · cases ha'.frame.ends.trans ha.frame.ends.symm
    have hfuel : burstEnd < 0 + (r.buf.length + r.stream.unread.length + 1) := by
      have hlen := hb.le_length
      have hbytes := congrArg List.length hat.bytes
      rw [List.length_append] at hbytes
      omega
    obtain ⟨r₁, h2⟩ := waitLoop_complete hb hat hfuel
    obtain ⟨_, hat₁, hle⟩ := waitLoop_sound (show At stream _ (_ + 0) _ from hat) h2
    refine ⟨r₁, ⟨ha, hb, hat₁, hle⟩, ?_⟩
    simp only [connect, h1, waitForReadyForQuery, h2, splitTo_ok hle, bind, Except.bind, pure,
      Except.pure]
  · exact absurd ha (hno authEnd)

/-! ### What reaches the client -/

/-- Some reads of the stream end after `length` bytes. -/
def UpstreamStream.Boundary (stream : UpstreamStream) (length : Nat) : Prop :=
  ∃ reads, (stream.read reads).length = length

/-- **Nothing is lost** exactly if the last read ended with the burst. -/
theorem Connected.lossless_iff {authEnd burstEnd : Nat}
    (h : Connected pgwire stream authEnd burstEnd r) :
    r.buf.take burstEnd ++ r.stream.unread = stream.rest authEnd ↔
      stream.Boundary (authEnd + burstEnd) := by
  have hbytes := h.stands.bytes
  have hbuffered := h.buffered
  have hempty : r.buf.take burstEnd ++ r.stream.unread = stream.rest authEnd ↔
      r.buf.length = burstEnd := by
    rw [← hbytes, List.append_cancel_right_eq]
    constructor
    · intro htake
      have hlen := congrArg List.length htake
      rw [List.length_take] at hlen
      omega
    · intro hlen
      exact List.take_of_length_le (le_of_eq hlen)
  rw [hempty]
  obtain ⟨reads, _, hskip, hbuf, hlazy⟩ := h.stands
  have hlen : r.buf.length = (stream.read reads).length - authEnd := by
    rw [hbuf, List.length_drop]
  constructor
  · intro heq
    exact ⟨reads, by omega⟩
  · rintro ⟨n, hn⟩
    rcases Nat.lt_or_ge n reads with hlt | hge
    · have := hlazy n hlt
      omega
    · have := length_read_mono stream hge
      omega

/-- Where the first frame of the bytes ends. -/
def firstFrameEnd (bytes : Bytes) : Nat := 1 + (frameLength bytes 0).toNat

theorem Authenticated.firstFrameEnd {bytes : Bytes} {stop : Nat}
    (h : Authenticated pgwire bytes stop) : firstFrameEnd bytes = stop :=
  (h.frame.ends.trans (Nat.zero_add _)).symm

/-- **The upstream is relayed without loss** exactly if no read went on after the
burst: where the startup message is sent, an authentication frame is accepted and
a complete burst follows, some read ends with the burst. -/
theorem upstream_relayed_iff (pgwire : Pgwire) (dbName : String) (clientParams : Parameters)
    (stream : UpstreamStream) :
    (∀ session, connect pgwire dbName clientParams (.ok stream) = .ok session →
      session.sessionBurst ++ session.stream.unread =
          stream.unread.drop (firstFrameEnd stream.unread) ∧
        ∀ client remainingStream up,
          (run client session remainingStream up session.stream.chunks.length).toClient =
            stream.unread.drop (firstFrameEnd stream.unread)) ↔
      (Sent pgwire dbName clientParams stream → ∀ authEnd burstEnd,
        Authenticated pgwire stream.unread authEnd →
        Burst (stream.unread.drop authEnd) 0 burstEnd → stream.Boundary (authEnd + burstEnd)) := by
  constructor
  · intro h hsent authEnd burstEnd ha hb
    obtain ⟨r, hc, hok⟩ := connect_complete hsent ha hb
    have hsame := (h _ hok).1
    rw [ha.firstFrameEnd] at hsame
    exact hc.lossless_iff.mp hsame
  · intro h session hok
    obtain ⟨hsent, authEnd, burstEnd, r, hc, rfl⟩ := connect_sound hok
    have hsame := hc.lossless_iff.mpr (h hsent authEnd burstEnd hc.authenticated hc.burst)
    rw [hc.authenticated.firstFrameEnd]
    refine ⟨hsame, fun client remainingStream up => ?_⟩
    show _ ++ Chunk.join (r.stream.chunks.take r.stream.chunks.length) = _
    rw [List.take_length]
    exact hsame

namespace Sample

/-- A `pgwire` that accepts `AuthenticationOk` only. -/
def decoder : Pgwire where
  maxMessageLength := 10000
  encodeStartup _ := .ok []
  decodeAuthentication frame :=
    if i32FromBeBytes ((frame.take 9).drop 5) = 0 then .ok (some .ok) else .ok (some .other)

def authenticationOk : Bytes := [tagR, 0, 0, 0, 8, 0, 0, 0, 0]
def readyForQuery : Bytes := [tagZ, 0, 0, 0, 5, 0x49]
def noticeResponse : Bytes := [0x4E, 0, 0, 0, 5, 0]

/-- The upstream sends a notice after `ReadyForQuery`, and one read returns all. -/
def upstream : UpstreamStream where
  chunks := [⟨authenticationOk ++ readyForQuery ++ noticeResponse, by decide⟩]
  ending := none
  writeAll _ := .ok ()

end Sample

/-- The notice that comes with `ReadyForQuery` reaches nobody. -/
theorem upstream_notice_lost :
    ¬∀ session, connect Sample.decoder "test" (fun _ => none) (.ok Sample.upstream) = .ok session →
      session.sessionBurst ++ session.stream.unread =
        Sample.upstream.unread.drop (firstFrameEnd Sample.upstream.unread) := by
  intro h
  have hok : ((connect Sample.decoder "test" (fun _ => none) (.ok Sample.upstream)).toOption.any
      fun session => session.sessionBurst ++ session.stream.unread == Sample.readyForQuery) =
        true := by decide
  obtain ⟨session, hs, hburst⟩ := ok_of_any hok
  have hlost : Sample.readyForQuery ≠
      Sample.upstream.unread.drop (firstFrameEnd Sample.upstream.unread) := by decide
  exact hlost ((eq_of_beq hburst).symm.trans (h session hs))

end PgTest.Wire
