import ALCC.Model.Kernel
import ALCC.Theory.Decimal

/-! The text of a kernel message, from `send_to_alcc` to the loops of the `ack_receiver`s of
`libalcc.cpp` and `libalcc_copa.cpp`. The kernel copies the text to the front of a message of fixed
size, whose other bytes it does not set. The receiver puts what fits into its buffer, and `sscanf`
reads four numbers into variables that keep their values when a number is missing. The reader of
`libalcc_verus.cpp`, whose variables are too narrow for the formats, is left out. -/

namespace ALCC

open Decimal

/-- The variables of the two `ack_receiver`s. -/
structure Numbers where
  src_port : UInt32
  dst_port : UInt32
  rcv_seq : UInt64
  ack_seq : UInt64
  deriving DecidableEq

namespace Message

def numbers (m : Message) : Numbers where
  src_port := m.src_port.toUInt32
  dst_port := m.dst_port.toUInt32
  rcv_seq := m.rcv_seq.toUInt64
  ack_seq := m.ack_seq.toUInt64

/-- `sprintf(msg, "%u %u %lu %lu", ...)`. -/
def msg (m : Message) : List UInt8 :=
  encode m.src_port.toNat ++ [32] ++ encode m.dst_port.toNat ++ [32] ++ encode m.rcv_seq.toNat ++
    [32] ++ encode m.ack_seq.toNat

end Message

/-- The size of `msg` in `send_to_alcc`. -/
def MSG_SIZE : Nat := 256

def NLMSG_HDRLEN : Nat := 16

def BUFFER_SIZE : Nat := 257

/-- The message that `send_to_alcc` multicasts. `header` is what `nlmsg_put` writes, and `unset` are
the bytes of the payload. A text that does not fit would be written behind the end of `msg`. -/
def send_to_alcc (header unset : List UInt8) (m : Message) : Option (List UInt8) :=
  let text := m.msg ++ [0]
  if text.length ≤ MSG_SIZE then some (header ++ text ++ unset.drop text.length) else none

/-- The datagrams for some packets that the hooks see, each with the bytes around its text. -/
def multicast (packets : List (List UInt8 × List UInt8 × Segment)) : Option (List (List UInt8)) :=
  (packets.filterMap fun (header, unset, p) => (hfunc p).map (header, unset, ·)).mapM
    fun (header, unset, m) => send_to_alcc header unset m

/-- `recvmsg` into `buffer`. -/
def recvmsg (datagram buffer : List UInt8) : List UInt8 :=
  datagram.take buffer.length ++ buffer.drop datagram.length

/-- `sscanf(s, "%u %u %lu %lu", ...)`. -/
def sscanf (s : List UInt8) (v : Numbers) : Numbers :=
  match scan s with
  | none => v
  | some (n, s) =>
    let v := { v with src_port := n.toUInt32 }
    match scan s with
    | none => v
    | some (n, s) =>
      let v := { v with dst_port := n.toUInt32 }
      match scan s with
      | none => v
      | some (n, s) =>
        let v := { v with rcv_seq := n }
        match scan s with
        | none => v
        | some (n, _) => { v with ack_seq := n }

/-- `sscanf` on the data of a buffer, up to its end. There is one, or the read goes on behind the
buffer. -/
def readBuffer (buffer : List UInt8) (v : Numbers) : Option Numbers :=
  let data := buffer.drop NLMSG_HDRLEN
  if 0 ∈ data then some (sscanf (data.takeWhile (· ≠ 0)) v) else none

/-- The loop of `ack_receiver`, which keeps its buffer and its variables. It yields what each of the
datagrams is read as. -/
def readAll : (datagrams : List (List UInt8)) → (buffer : List UInt8) → Numbers →
    Option (List Numbers)
  | [], _, _ => some []
  | datagram :: datagrams, buffer, v =>
    let buffer := recvmsg datagram buffer
    (readBuffer buffer v).bind fun v => (readAll datagrams buffer v).map (v :: ·)

end ALCC
