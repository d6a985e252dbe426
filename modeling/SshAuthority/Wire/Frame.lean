import SshAuthority.Wire.Decoding
/-!
# Frames

A frame is a payload behind its length in four bytes. A stream arrives in pieces cut anywhere, and
frames are read from it one after the other until the first fault; a payload that says nothing
sensible is a fault of its own and leaves the stream in step.
-/
namespace SshAuthority.Wire

/-- The longest payload of a frame. -/
def maxPayload : Nat := 1048576

inductive StreamFault where
  /-- The stream ended at or inside a frame. -/
  | earlyEnd
  | announcedTooLarge (size : Nat)
  | payloadTooLarge (size : Nat)
  /-- Nobody reads what is written. -/
  | brokenPipe
  deriving DecidableEq, Repr

def StreamFault.message : StreamFault → String
  | .earlyEnd => "early eof"
  | .brokenPipe => "broken pipe"
  | .announcedTooLarge size | .payloadTooLarge size => s!"frame too large: {size} bytes"

/-- Why no message came out of a stream. -/
inductive CodecFault where
  | stream (fault : StreamFault)
  | payload (fault : Json.Fault)
  deriving Repr

namespace CodecFault

def message : CodecFault → String
  | .stream fault => "transport I/O failed: " ++ fault.message
  | .payload fault => "malformed message: " ++ fault.message

def causes : CodecFault → List String
  | .stream fault => [fault.message]
  | .payload fault => [fault.message]

/-- Whether the peer merely closed the stream. -/
def isClosed : CodecFault → Bool
  | .stream .earlyEnd => true
  | _ => false

end CodecFault

namespace Frame

def lengthBytes (n : Nat) : Bytes := Sha256.bigEndian 4 n

def lengthOf (bs : Bytes) : Nat := bs.foldl (fun n b => n * 256 + b.toNat) 0

def write (payload : Bytes) : Except StreamFault Bytes :=
  if payload.length ≤ maxPayload then .ok (lengthBytes payload.length ++ payload)
  else .error (.payloadTooLarge payload.length)

/-- A stream as it arrives. -/
abbrev Arrivals := List Bytes

/-- Takes `count` bytes, onto the reverse of those already taken. -/
def takeOnto (done : List Bytes) (count : Nat) : Arrivals → Except StreamFault (Bytes × Arrivals)
  | [] => if count = 0 then .ok (done.reverse.flatten, []) else .error .earlyEnd
  | piece :: rest =>
    let size := piece.length
    if count < size then .ok ((piece.take count :: done).reverse.flatten, piece.drop count :: rest)
    else takeOnto (piece :: done) (count - size) rest

def take (count : Nat) (stream : Arrivals) : Except StreamFault (Bytes × Arrivals) :=
  takeOnto [] count stream

def read (stream : Arrivals) : Except StreamFault (Bytes × Arrivals) := do
  let (header, rest) ← take 4 stream
  let size := lengthOf header
  if size ≤ maxPayload then take size rest else .error (.announcedTooLarge size)

def readFrom : Nat → List Bytes → Arrivals → List Bytes × StreamFault
  | 0, done, _ => (done.reverse, .earlyEnd)
  | fuel + 1, done, stream =>
    match read stream with
    | .ok (payload, rest) => readFrom fuel (payload :: done) rest
    | .error fault => (done.reverse, fault)

/-- Every payload of a stream up to its first fault, and that fault. -/
def readAll (stream : Arrivals) : List Bytes × StreamFault :=
  readFrom (stream.flatten.length + 1) [] stream

/-- Writes payloads one after the other; one that is too large adds nothing. -/
def writeAll (payloads : List Bytes) : Bytes :=
  payloads.flatMap fun payload => match write payload with
    | .ok bs => bs
    | .error _ => []

end Frame

end SshAuthority.Wire
