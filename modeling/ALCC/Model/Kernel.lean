import Mathlib.Data.List.Basic

/-! The kernel module `alcc_kernel.c`: its hooks multicast the header of every TCP segment from or
to `CC_PORT`, incoming or outgoing, to all sockets of the netlink group. The four numbers travel as
text, which `sscanf` reads back. -/

namespace ALCC

def CC_PORT : UInt16 := 60001

/-- What the hooks read of a packet. -/
structure Segment where
  protocol : UInt8
  source : UInt16
  dest : UInt16
  seq : UInt32
  ack_seq : UInt32

/-- The port of the peer in the connection that a packet belongs to. -/
def Segment.peerPort (p : Segment) : UInt16 := if p.source = CC_PORT then p.dest else p.source

/-- The numbers of the text `"%u %u %lu %lu"` made by `send_to_alcc`, under the names the receivers
give them. -/
structure Message where
  src_port : UInt16
  dst_port : UInt16
  rcv_seq : UInt32
  ack_seq : UInt32
  deriving DecidableEq

/-- `hfunc` and `hfunc2`: the message multicast for a packet. They have the same body. -/
def hfunc (p : Segment) : Option Message :=
  let IPPROTO_TCP := 6
  if p.protocol = IPPROTO_TCP ∧ (p.dest = CC_PORT ∨ p.source = CC_PORT) then
    some ⟨p.source, p.dest, p.seq, p.ack_seq⟩
  else
    none

end ALCC
