import Mathlib.Algebra.GroupWithZero.Nat
import Mathlib.Algebra.Order.Group.Unbundled.Int
import Mathlib.Data.List.Basic
import PgTest.Lib.Machine

/-!
# The connection to PostgreSQL

`postgres_upstream.rs` up to the first `ReadyForQuery` or `ErrorResponse`, and
the relay of `session_relay.rs`.

A socket is the list of what its coming reads return, and how the reads end after
them.  What `pgwire` does is a parameter: the maximal length of an authentication
message, the encoding of a `Startup` and the decoding of an `Authentication`.  A
slice outside its buffer is a `Stop` of its own, as is a loop that does not end.
-/

namespace PgTest.Wire

open PgTest.Lib

abbrev Bytes := List UInt8

def usizeMax : Nat := 2 ^ 64 - 1
def i32Max : Nat := 2 ^ 31 - 1

/-! ### Outside -/

inductive IoError
  | unexpectedEof (message : String)
  | other (code : Int)
  deriving DecidableEq, Repr

inductive PgWireError
  | messageTooLarge (limit length : Nat)
  | other (message : String)
  deriving DecidableEq, Repr

/-- `Authentication` of `pgwire`, whose other variants are told apart by nothing. -/
inductive Authentication
  | ok
  | other
  deriving DecidableEq, Repr

/-- A `BTreeMap<String, String>`, by what it looks up. -/
abbrev Parameters := String → Option String

/-- What is used of `pgwire`. -/
structure Pgwire where
  maxMessageLength : Nat
  encodeStartup : Parameters → Except PgWireError Bytes
  decodeAuthentication : Bytes → Except PgWireError (Option Authentication)

/-- What one read returns: at least one byte. -/
abbrev Chunk := { bytes : Bytes // bytes ≠ [] }

/-- `UpstreamStream`. -/
structure UpstreamStream where
  /-- What the coming reads return. -/
  chunks : List Chunk
  /-- How reading ends after them: the end of the file, or an error. -/
  ending : Option IoError
  /-- What `write_all` of the startup message returns. -/
  writeAll : Bytes → Except IoError Unit

/-- The bytes of a list of reads. -/
def Chunk.join (chunks : List Chunk) : Bytes := (chunks.map Subtype.val).flatten

/-- The bytes that were not read yet. -/
def UpstreamStream.unread (stream : UpstreamStream) : Bytes := Chunk.join stream.chunks

/-! ### Failures -/

inductive UpstreamError
  | io (error : IoError)
  | protocol (error : PgWireError)
  | unsupportedAuthentication
  | startupRejected
  | unexpectedMessage (tag : UInt8)
  | invalidFrameLength (length : Int)
  deriving DecidableEq, Repr

/-- Why a function does not return `Ok`. -/
inductive Stop
  | error (error : UpstreamError)
  | outOfBounds
  | outOfFuel
  deriving DecidableEq, Repr

/-- `buf[start..stop]`. -/
def slice (buf : Bytes) (start stop : Nat) : Except Stop Bytes :=
  if stop ≤ buf.length then .ok ((buf.take stop).drop start) else .error .outOfBounds

/-- `buf[index]`. -/
def byteAt (buf : Bytes) (index : Nat) : Except Stop UInt8 :=
  match buf[index]? with
  | some byte => .ok byte
  | none => .error .outOfBounds

/-- `buf.split_to(at)`. -/
def splitTo (buf : Bytes) (length : Nat) : Except Stop (Bytes × Bytes) :=
  if length ≤ buf.length then .ok (buf.take length, buf.drop length) else .error .outOfBounds

/-- The `u32` with these big-endian bytes. -/
def u32FromBeBytes (bytes : Bytes) : Nat := bytes.foldl (fun n byte => n * 256 + byte.toNat) 0

/-- `i32::from_be_bytes`, of four bytes. -/
def i32FromBeBytes (bytes : Bytes) : Int := Int.bmod (u32FromBeBytes bytes) 4294967296

/-! ### Reading -/

/-- A stream and the buffer it is read into. -/
structure Reader where
  stream : UpstreamStream
  buf : Bytes

/-- The loop of `read_until`, over the reads that are left. -/
def readUntilLoop (ending : Option IoError) (length : Nat) :
    List Chunk → Bytes → Except IoError (List Chunk × Bytes)
  | [], buf =>
    if buf.length < length then
      match ending with
      | none => .error (.unexpectedEof "upstream closed during startup")
      | some error => .error error
    else .ok ([], buf)
  | chunk :: rest, buf =>
    if buf.length < length then readUntilLoop ending length rest (buf ++ chunk.1)
    else .ok (chunk :: rest, buf)

/-- `read_until`. -/
def readUntil (length : Nat) (r : Reader) : Except Stop Reader :=
  match readUntilLoop r.stream.ending length r.stream.chunks r.buf with
  | .error error => .error (.error (.io error))
  | .ok (chunks, buf) => .ok ⟨{ r.stream with chunks := chunks }, buf⟩

/-- `read_frame` from the end of the frame on. -/
def readTo (cursor frameEnd : Nat) (r : Reader) : Except Stop ((UInt8 × Nat) × Reader) := do
  let r ← readUntil frameEnd r
  let tag ← byteAt r.buf cursor
  return ((tag, frameEnd), r)

/-- `read_frame` from the declared length on. -/
def readBody (cursor maxLength : Nat) (length : Int) (r : Reader) :
    Except Stop ((UInt8 × Nat) × Reader) :=
  if length < 4 then .error (.error (.invalidFrameLength length))
  else if maxLength < length.toNat then
    .error (.error (.protocol (.messageTooLarge maxLength length.toNat)))
  -- `cursor.checked_add(1 + length as usize)`
  else if usizeMax < cursor + (1 + length.toNat) then
    .error (.error (.invalidFrameLength length))
  else readTo cursor (cursor + (1 + length.toNat)) r

/-- `read_frame`. -/
def readFrame (cursor maxLength : Nat) (r : Reader) : Except Stop ((UInt8 × Nat) × Reader) := do
  let r ← readUntil (cursor + 5) r
  let header ← slice r.buf (cursor + 1) (cursor + 5)
  readBody cursor maxLength (i32FromBeBytes header) r

/-! ### Startup -/

/-- `forwardable`. -/
def forwardable (clientParams : Parameters) : Parameters :=
  fun key => if key ∈ ["database", "replication"] then none else clientParams key

/-- `send_startup`. -/
def sendStartup (pgwire : Pgwire) (stream : UpstreamStream) (dbName : String)
    (clientParams : Parameters) : Except Stop Unit :=
  match pgwire.encodeStartup (Function.update (forwardable clientParams) "database" (some dbName))
    with
  | .error error => .error (.error (.protocol error))
  | .ok out =>
    match stream.writeAll out with
    | .error error => .error (.error (.io error))
    | .ok () => .ok ()

/-- The arm of `authenticate` for an `R` frame that ends at `frameEnd`: what is
left in the buffer after it. -/
def decodeFrame (pgwire : Pgwire) (buf : Bytes) (frameEnd : Nat) : Except Stop Bytes := do
  let length : Int := (frameEnd : Int) - 1
  if length < 8 then .error (.error (.invalidFrameLength length))
  else do
    let code := i32FromBeBytes (← slice buf 5 9)
    if code = 5 ∧ length < 12 then .error (.error (.invalidFrameLength length))
    else do
      let (frame, rest) ← splitTo buf frameEnd
      match pgwire.decodeAuthentication frame with
      | .error error => .error (.error (.protocol error))
      | .ok (some .ok) => .ok rest
      | .ok (some _) => .error (.error .unsupportedAuthentication)
      | .ok none => .error (.error (.invalidFrameLength length))

def tagR : UInt8 := 0x52
def tagE : UInt8 := 0x45
def tagZ : UInt8 := 0x5A

/-- `authenticate`. -/
def authenticate (pgwire : Pgwire) (stream : UpstreamStream) (dbName : String)
    (clientParams : Parameters) : Except Stop Reader := do
  sendStartup pgwire stream dbName clientParams
  let ((tag, frameEnd), r) ← readFrame 0 pgwire.maxMessageLength ⟨stream, []⟩
  if tag = tagR then do
    let rest ← decodeFrame pgwire r.buf frameEnd
    return ⟨r.stream, rest⟩
  else if tag = tagE then .error (.error .startupRejected)
  else .error (.error (.unexpectedMessage tag))

/-- The loop of `wait_for_ready_for_query`: where its last frame ends. -/
def waitLoop : Nat → Nat → Reader → Except Stop (Nat × Reader)
  | 0, _, _ => .error .outOfFuel
  | fuel + 1, cursor, r => do
    let ((tag, frameEnd), r) ← readFrame cursor i32Max r
    if tag = tagZ ∨ tag = tagE then return (frameEnd, r)
    else waitLoop fuel frameEnd r

/-- `wait_for_ready_for_query`: the burst, and the stream and the buffer after it.
Every frame ends later than the one before, so there are no more than bytes. -/
def waitForReadyForQuery (r : Reader) : Except Stop (Bytes × Reader) := do
  let (cursor, r) ← waitLoop (r.buf.length + r.stream.unread.length + 1) 0 r
  let (burst, rest) ← splitTo r.buf cursor
  return (burst, ⟨r.stream, rest⟩)

structure UpstreamSession where
  stream : UpstreamStream
  sessionBurst : Bytes

/-- `connect`, with what `connect_stream` returned.  The buffer goes out of scope. -/
def connect (pgwire : Pgwire) (dbName : String) (clientParams : Parameters)
    (stream : Except IoError UpstreamStream) : Except Stop UpstreamSession :=
  match stream with
  | .error error => .error (.error (.io error))
  | .ok stream => do
    let r ← authenticate pgwire stream dbName clientParams
    let (sessionBurst, r) ← waitForReadyForQuery r
    return ⟨r.stream, sessionBurst⟩

/-! ### The relay -/

/-- What `run` wrote to each side. -/
structure Relayed where
  toUpstream : Bytes
  toClient : Bytes
  deriving DecidableEq, Repr

/-- `session_relay::run`, when `copy_bidirectional_with_sizes` copied `up` reads of
the client and `down` reads of the upstream before the relay ended or was
cancelled. -/
def run (client : List Chunk) (session : UpstreamSession) (remainingStream : Bytes)
    (up down : Nat) : Relayed where
  toUpstream := remainingStream ++ Chunk.join (client.take up)
  toClient := session.sessionBurst ++ Chunk.join (session.stream.chunks.take down)

end PgTest.Wire
