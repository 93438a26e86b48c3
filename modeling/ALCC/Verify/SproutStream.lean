import ALCC.Model.SproutPacket
import Mathlib.Data.Nat.Bitwise

/-! The packets of Sprout on a stream of bytes. A header of 18 bytes is parsed for the length of the
packet, and a second time with the payload. Whatever the reads are that the stream is split into,
the reading loop takes exactly the bytes of one packet, and yields the packet (`recvs_tostring`). -/

namespace ALCC.Sprout

open BigEndian

namespace Packet

variable {p : Packet}

/-- The number fits into 63 bits, and the payload into the buffer. -/
structure WellFormed (p : Packet) : Prop where
  seq : p.seq.toNat < 2 ^ 63
  payload : p.payload.length ≤ 2030
  payloadSize : p.payloadSize.toNat = p.payload.length

instance (p : Packet) : Decidable p.WellFormed :=
  decidable_of_iff (p.seq.toNat < 2 ^ 63 ∧ p.payload.length ≤ 2030 ∧
      p.payloadSize.toNat = p.payload.length)
    ⟨fun ⟨h₁, h₂, h₃⟩ => ⟨h₁, h₂, h₃⟩, fun ⟨h₁, h₂, h₃⟩ => ⟨h₁, h₂, h₃⟩⟩

theorem and_SEQUENCE_MASK {x : UInt64} (h : x.toNat < 2 ^ 63) : x &&& SEQUENCE_MASK = x := by
  apply UInt64.toNat_inj.mp
  rw [UInt64.toNat_and, show SEQUENCE_MASK.toNat = 2 ^ 63 - 1 from rfl]
  exact Nat.and_two_pow_sub_one_of_lt_two_pow h

/-- The direction bit is apart from the number. -/
theorem toNat_direction_seq (h : p.seq.toNat < 2 ^ 63) : p.direction_seq.toNat =
    (if p.direction = .TO_CLIENT then 2 ^ 63 else 0) + p.seq.toNat := by
  rw [direction_seq, and_SEQUENCE_MASK h, UInt64.toNat_or]
  split
  · exact (Nat.two_pow_add_eq_or_of_lt h 1).symm
  · exact (Nat.zero_or _).trans (Nat.zero_add _).symm

theorem direction_seq_and_SEQUENCE_MASK (h : p.seq.toNat < 2 ^ 63) :
    p.direction_seq &&& SEQUENCE_MASK = p.seq := by
  apply UInt64.toNat_inj.mp
  rw [UInt64.toNat_and, show SEQUENCE_MASK.toNat = 2 ^ 63 - 1 from rfl,
    Nat.and_two_pow_sub_one_eq_mod, toNat_direction_seq h]
  split <;> omega

theorem direction_seq_and_DIRECTION_MASK (h : p.seq.toNat < 2 ^ 63) :
    p.direction_seq &&& DIRECTION_MASK ≠ 0 ↔ p.direction = .TO_CLIENT := by
  have hbit : (p.direction_seq &&& DIRECTION_MASK).toNat =
      (p.direction_seq.toNat.testBit 63).toNat * 2 ^ 63 := by
    rw [UInt64.toNat_and, show DIRECTION_MASK.toNat = 2 ^ 63 from rfl, Nat.and_two_pow]
  have hzero : p.direction_seq &&& DIRECTION_MASK = 0 ↔
      (p.direction_seq.toNat.testBit 63) = false := by
    rw [← UInt64.toNat_inj, hbit]
    cases p.direction_seq.toNat.testBit 63 <;> decide
  rw [ne_eq, hzero, toNat_direction_seq h]
  split
  · rename_i hclient
    rw [Nat.testBit_two_pow_add_eq, Nat.testBit_lt_two_pow h]
    exact iff_of_true (by decide) hclient
  · rename_i hserver
    rw [Nat.zero_add, Nat.testBit_lt_two_pow h]
    exact iff_of_false (by decide) hserver

/-- The first 18 bytes. -/
def header (p : Packet) : Bytes := encode 8 p.direction_seq.toNat ++ p.timestamps

theorem length_timestamps (p : Packet) : p.timestamps.length = 10 := by
  simp only [timestamps, List.length_append, length_encode]

theorem length_header (p : Packet) : p.header.length = 18 := by
  rw [header, List.length_append, length_encode, length_timestamps]

theorem tostring_eq (p : Packet) : p.tostring = p.header ++ p.payload := by
  have hnonce : (Nonce.ofVal p.direction_seq).cc_str = encode 8 p.direction_seq.toNat := by
    rw [Nonce.cc_str, Nonce.ofVal, List.drop_left' (List.length_replicate ..)]
    exact List.take_of_length_le (length_encode ..).le
  rw [tostring, Session.encrypt, hnonce, header, List.append_assoc]

theorem length_tostring (p : Packet) : p.tostring.length = 18 + p.payload.length := by
  rw [tostring_eq, List.length_append, length_header]

theorem decrypt_header (p : Packet) {payload : Bytes} (h : payload.length ≤ 2030) :
    Session.decrypt (p.header ++ payload) =
      some ⟨.ofVal p.direction_seq, p.timestamps ++ payload⟩ := by
  have hlength : (p.header ++ payload).length = 18 + payload.length := by
    rw [List.length_append, length_header]
  have hfits : 8 ≤ (p.header ++ payload).length ∧
      (p.header ++ payload).length - 8 ≤ Session.RECEIVE_MTU := by
    rw [hlength, Session.RECEIVE_MTU]
    omega
  rw [Session.decrypt, if_pos hfits, header, List.append_assoc,
    List.take_left' (length_encode ..), List.drop_left' (length_encode ..), Nonce.ofBytes,
    if_pos (length_encode ..)]
  rfl

theorem val_ofVal (x : UInt64) : (Nonce.ofVal x).val = x := by
  rw [Nonce.val, Nonce.ofVal, List.drop_left' (List.length_replicate ..),
    List.take_of_length_le (length_encode ..).le, decode_encode_uint64]

/-- A field between two parts of a text. -/
theorem dataAt_append (before : Bytes) {i : Nat} (h : before.length = 2 * i) (x : UInt16)
    (after : Bytes) : dataAt (before ++ (encode 2 x.toNat ++ after)) i = x := by
  rw [dataAt, List.drop_left' h, List.take_left' (length_encode ..), decode_encode_uint16]

theorem dataAt_timestamps (p : Packet) (payload : Bytes) :
    dataAt (p.timestamps ++ payload) 0 = p.timestamp ∧
      dataAt (p.timestamps ++ payload) 1 = p.timestamp_reply ∧
      dataAt (p.timestamps ++ payload) 2 = p.throwaway_window ∧
      dataAt (p.timestamps ++ payload) 3 = p.time_to_next ∧
      dataAt (p.timestamps ++ payload) 4 = p.payloadSize := by
  have hlength := length_encode 2
  rw [timestamps]
  refine ⟨?_, ?_, ?_, ?_, ?_⟩
  · simp only [List.append_assoc]
    exact dataAt_append [] rfl ..
  · simp only [List.append_assoc]
    exact dataAt_append (encode 2 _) (hlength _) ..
  · rw [List.append_assoc, List.append_assoc, List.append_assoc]
    exact dataAt_append (encode 2 _ ++ encode 2 _) (by simp only [List.length_append, hlength]) ..
  · rw [List.append_assoc, List.append_assoc]
    exact dataAt_append (encode 2 _ ++ encode 2 _ ++ encode 2 _)
      (by simp only [List.length_append, hlength]) ..
  · rw [List.append_assoc]
    exact dataAt_append (encode 2 _ ++ encode 2 _ ++ encode 2 _ ++ encode 2 _)
      (by simp only [List.length_append, hlength]) ..

/-- The parser on a header with any payload. -/
theorem parse_header (h : p.seq.toNat < 2 ^ 63) (payload : Bytes)
    (hpayload : payload.length ≤ 2030) :
    parse (p.header ++ payload) = some { p with payload } := by
  have hlength : 10 ≤ (p.timestamps ++ payload).length := by
    rw [List.length_append, length_timestamps]
    exact Nat.le_add_right ..
  obtain ⟨h₀, h₁, h₂, h₃, h₄⟩ := dataAt_timestamps p payload
  have hdirection : (if p.direction_seq &&& DIRECTION_MASK ≠ 0 then Direction.TO_CLIENT
      else .TO_SERVER) = p.direction := by
    simp only [direction_seq_and_DIRECTION_MASK h]
    cases p.direction <;> rfl
  rw [parse, decrypt_header p hpayload, Option.bind_some, if_pos hlength]
  simp only [val_ofVal, direction_seq_and_SEQUENCE_MASK h, hdirection, h₀, h₁, h₂, h₃, h₄,
    List.drop_left' (length_timestamps p)]

theorem parse_tostring (h : p.WellFormed) : parse p.tostring = some p := by
  rw [tostring_eq, parse_header h.seq _ h.payload]

end Packet

namespace Socket

variable {split : Split}

/-- A loop that is to receive `data`, the next bytes of the stream. -/
theorem recvUntil_append (split : Split) (total rounds : Nat) (buf data rest : Bytes) (calls : Nat)
    (htotal : buf.length + data.length = total) (hrounds : data.length ≤ rounds) :
    ∃ calls', recvUntil split total rounds buf ⟨data ++ rest, calls⟩ =
      some (buf ++ data, ⟨rest, calls'⟩) := by
  induction rounds generalizing buf data calls with
  | zero =>
    obtain rfl : data = [] := List.length_eq_zero_iff.mp (Nat.le_zero.mp hrounds)
    rw [recvUntil, if_neg (show ¬ buf.length < total from htotal.not_lt), List.append_nil]
    exact ⟨calls, rfl⟩
  | succ rounds ih =>
    rw [recvUntil]
    split
    · rename_i hlt
      have hsize : total - buf.length = data.length := by omega
      have hne : data ++ rest ≠ [] := by
        intro hnil
        rw [(List.append_eq_nil_iff.mp hnil).1, List.length_nil] at hsize
        omega
      rw [recvfrom, if_neg hne, hsize]
      generalize hn : max 1 (min (split calls) data.length) = n
      have hle : n ≤ data.length := by omega
      have hpos : 1 ≤ n := by omega
      simp only [List.take_append_of_le_length hle, List.drop_append_of_le_length hle,
        Option.bind_some]
      obtain ⟨calls', hrest⟩ := ih (buf ++ data.take n) (data.drop n) (calls + 1)
        (by rw [List.length_append, List.length_take, List.length_drop]; omega)
        (by rw [List.length_drop]; omega)
      rw [List.append_assoc, List.take_append_drop] at hrest
      exact ⟨calls', hrest⟩
    · have hnil : data = [] := List.length_eq_zero_iff.mp (by omega)
      rw [hnil, List.append_nil]
      exact ⟨calls, rfl⟩

theorem recv_tostring (split : Split) {p : Packet} (h : p.WellFormed) (rest : Bytes) (calls : Nat) :
    ∃ calls', recv split ⟨p.tostring ++ rest, calls⟩ = some (p, ⟨rest, calls'⟩) := by
  obtain ⟨calls₁, hheader⟩ := recvUntil_append split 18 18 [] p.header (p.payload ++ rest) calls
    p.length_header p.length_header.le
  have hparse : Packet.parse p.header = some { p with payload := [] } := by
    have hnil := Packet.parse_header h.seq [] (Nat.zero_le _)
    rwa [List.append_nil] at hnil
  obtain ⟨calls₂, hpayload⟩ := recvUntil_append split (p.payloadSize.toNat + 18)
    (p.payloadSize.toNat + 18) p.header p.payload rest calls₁
    (by rw [p.length_header, h.payloadSize, Nat.add_comm])
    (by rw [h.payloadSize]; exact Nat.le_add_right ..)
  have hfits : p.payloadSize.toNat + 18 ≤ Session.RECEIVE_MTU := by
    have := h.payload
    rw [h.payloadSize, Session.RECEIVE_MTU]
    omega
  rw [List.nil_append] at hheader
  rw [recv, p.tostring_eq, List.append_assoc, hheader]
  simp only [Option.bind_some, List.take_of_length_le p.length_header.le, hparse, if_pos hfits,
    hpayload]
  rw [← p.tostring_eq, Packet.parse_tostring h]
  exact ⟨calls₂, rfl⟩

/-- **Packets survive the stream.** For every way in which the calls of `recvfrom` split the stream,
successive runs of `Connection::recv` yield the packets in order, and take exactly their bytes. -/
theorem recvs_tostring (split : Split) (packets : List Packet) (h : ∀ p ∈ packets, p.WellFormed)
    (rest : Bytes) (calls : Nat) : ∃ calls',
      recvs split packets.length ⟨packets.flatMap Packet.tostring ++ rest, calls⟩ =
        some (packets, ⟨rest, calls'⟩) := by
  induction packets generalizing calls with
  | nil => exact ⟨calls, rfl⟩
  | cons p packets ih =>
    obtain ⟨calls₁, hrecv⟩ := recv_tostring split (h p List.mem_cons_self)
      (packets.flatMap Packet.tostring ++ rest) calls
    obtain ⟨calls₂, hrest⟩ := ih (fun q hq => h q (List.mem_cons_of_mem p hq)) calls₁
    rw [List.flatMap_cons, List.append_assoc, List.length_cons, recvs, hrecv]
    simp only [Option.bind_some, hrest]
    exact ⟨calls₂, rfl⟩

def hello : Packet where
  seq := 1400
  direction := .TO_CLIENT
  timestamp := 513
  timestamp_reply := 65535
  throwaway_window := 0
  time_to_next := 50
  payloadSize := 3
  payload := [104, 105, 33]

/-- The packet is read twice, 5 bytes at a time. -/
theorem recvs_hello : ∃ calls',
    recvs (fun _ => 5) 2 ⟨[hello, hello].flatMap Packet.tostring ++ [], 0⟩ =
    some ([hello, hello], ⟨[], calls'⟩) :=
  recvs_tostring (fun _ => 5) [hello, hello] (by decide) [] 0

end Socket

end ALCC.Sprout
