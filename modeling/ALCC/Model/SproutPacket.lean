import ALCC.Theory.BigEndian

/-! Packets of the port of Sprout to TCP, in `network.cc` and `crypto.cc`: `Packet::tostring`, the
parser, and the reading loop of `Connection::recv`, which takes packets off a stream of bytes. The
cipher was taken out of `Session`, so a coded packet has the number in front of the text. A thrown
exception, a failed assertion and an access out of bounds yield `none`. -/

namespace ALCC.Sprout

open BigEndian

abbrev Bytes := List UInt8

/-- The number of a message, in 12 bytes of which the first 4 are zero. -/
structure Nonce where
  bytes : Bytes

namespace Nonce

def ofVal (val : UInt64) : Nonce := ⟨List.replicate 4 0 ++ encode 8 val.toNat⟩

def ofBytes (s_bytes : Bytes) : Option Nonce :=
  if s_bytes.length = 8 then some ⟨List.replicate 4 0 ++ s_bytes⟩ else none

def val (nonce : Nonce) : UInt64 := .ofNat (decode ((nonce.bytes.drop 4).take 8))

def cc_str (nonce : Nonce) : Bytes := (nonce.bytes.drop 4).take 8

end Nonce

structure Message where
  nonce : Nonce
  text : Bytes

namespace Session

def RECEIVE_MTU : Nat := 2048

def encrypt (plaintext : Message) : Bytes := plaintext.nonce.cc_str ++ plaintext.text

def decrypt (ciphertext : Bytes) : Option Message :=
  if 8 ≤ ciphertext.length ∧ ciphertext.length - 8 ≤ RECEIVE_MTU then
    (Nonce.ofBytes (ciphertext.take 8)).map fun nonce => ⟨nonce, ciphertext.drop 8⟩
  else
    none

end Session

inductive Direction where
  | TO_SERVER
  | TO_CLIENT
  deriving DecidableEq

def DIRECTION_MASK : UInt64 := (1 : UInt64) <<< 63

def SEQUENCE_MASK : UInt64 := -1 ^^^ DIRECTION_MASK

structure Packet where
  seq : UInt64
  direction : Direction
  timestamp : UInt16
  timestamp_reply : UInt16
  throwaway_window : UInt16
  time_to_next : UInt16
  payloadSize : UInt16
  payload : Bytes
  deriving DecidableEq

namespace Packet

/-- `be16toh (data[i])`. -/
def dataAt (text : Bytes) (i : Nat) : UInt16 := .ofNat (decode ((text.drop (2 * i)).take 2))

/-- The parser. The test of the source asks for 4 bytes of the 10 that it reads. -/
def parse (coded_packet : Bytes) : Option Packet :=
  (Session.decrypt coded_packet).bind fun message =>
    if 10 ≤ message.text.length then
      some {
        seq := message.nonce.val &&& SEQUENCE_MASK
        direction := if message.nonce.val &&& DIRECTION_MASK ≠ 0 then .TO_CLIENT else .TO_SERVER
        timestamp := dataAt message.text 0
        timestamp_reply := dataAt message.text 1
        throwaway_window := dataAt message.text 2
        time_to_next := dataAt message.text 3
        payloadSize := dataAt message.text 4
        payload := message.text.drop 10 }
    else
      none

def direction_seq (p : Packet) : UInt64 :=
  (if p.direction = .TO_CLIENT then (1 : UInt64) else 0) <<< 63 ||| (p.seq &&& SEQUENCE_MASK)

/-- The five fields in network byte order. -/
def timestamps (p : Packet) : Bytes :=
  encode 2 p.timestamp.toNat ++ encode 2 p.timestamp_reply.toNat ++
    encode 2 p.throwaway_window.toNat ++ encode 2 p.time_to_next.toNat ++
    encode 2 p.payloadSize.toNat

def tostring (p : Packet) : Bytes :=
  Session.encrypt ⟨.ofVal p.direction_seq, p.timestamps ++ p.payload⟩

end Packet

/-- A socket on which `stream` arrives, after some calls of `recvfrom`. -/
structure Socket where
  stream : Bytes
  calls : Nat

/-- How many bytes each call of `recvfrom` would yield. -/
abbrev Split := Nat → Nat

namespace Socket

variable (split : Split)

/-- `recvfrom` for `size` bytes. It yields at least one of them, and waits when there are none. -/
def recvfrom (size : Nat) (s : Socket) : Option (Bytes × Socket) :=
  if s.stream = [] then
    none
  else
    let n := max 1 (min (split s.calls) size)
    some (s.stream.take n, ⟨s.stream.drop n, s.calls + 1⟩)

/-- `while (received_len < total)`, for some rounds. The bytes received are in `buf`. -/
def recvUntil (total : Nat) : (rounds : Nat) → (buf : Bytes) → Socket → Option (Bytes × Socket)
  | 0, buf, s => if buf.length < total then none else some (buf, s)
  | rounds + 1, buf, s =>
    if buf.length < total then
      (s.recvfrom split (total - buf.length)).bind fun (data, s) =>
        recvUntil total rounds (buf ++ data) s
    else
      some (buf, s)

/-- `Connection::recv`, up to the parsed packet. A round of its loops takes at least one byte. -/
def recv (s : Socket) : Option (Packet × Socket) :=
  (s.recvUntil split 18 18 []).bind fun (buf, s) =>
    (Packet.parse (buf.take 18)).bind fun p1 =>
      let total := p1.payloadSize.toNat + 18
      -- a longer packet would be written behind the end of the buffer
      if total ≤ Session.RECEIVE_MTU then
        (s.recvUntil split total total buf).bind fun (buf, s) =>
          (Packet.parse buf).map fun p => (p, s)
      else
        none

/-- Successive runs of `Connection::recv`. -/
def recvs : (count : Nat) → Socket → Option (List Packet × Socket)
  | 0, s => some ([], s)
  | count + 1, s =>
    (s.recv split).bind fun (p, s) =>
      (recvs count s).map fun (packets, s) => (p :: packets, s)

end Socket

end ALCC.Sprout
