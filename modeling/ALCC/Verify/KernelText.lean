import ALCC.Model.KernelText

/-! Each receiver reads the numbers that the kernel module has sent, whatever stands behind the text
and whatever its buffer and its variables had before (`readAll_multicast`). The text fits into the
array of the kernel module, and with its end into the buffer. -/

namespace ALCC

open Decimal

namespace Message

theorem length_msg_le (m : Message) : m.msg.length ≤ 33 := by
  have hsrc := length_encode_le (n := m.src_port.toNat) (k := 5) (by decide)
    (m.src_port.toNat_lt.trans (by decide))
  have hdst := length_encode_le (n := m.dst_port.toNat) (k := 5) (by decide)
    (m.dst_port.toNat_lt.trans (by decide))
  have hrcv := length_encode_le (n := m.rcv_seq.toNat) (k := 10) (by decide)
    (m.rcv_seq.toNat_lt.trans (by decide))
  have hack := length_encode_le (n := m.ack_seq.toNat) (k := 10) (by decide)
    (m.ack_seq.toNat_lt.trans (by decide))
  simp only [msg, List.length_append, List.length_singleton]
  omega

/-- There is no end of a string within the text. -/
theorem zero_notMem_msg (m : Message) : 0 ∉ m.msg := by
  have hdigit : ∀ n, 0 ∉ encode n := fun n h => absurd (isDigit_encode h) (by decide)
  simp [msg, hdigit]

/-- A number of the text, behind the space before it. -/
theorem scan_number {n : Nat} (h : n < 2 ^ 32) (rest : List UInt8) :
    scan ([32] ++ encode n ++ ([32] ++ rest)) = some (.ofNat n, [32] ++ rest) ∧
      scan ([32] ++ encode n) = some (.ofNat n, []) := by
  have hspace : ∀ b ∈ ([32] : List UInt8), isSpace b = true := List.forall_mem_singleton.mpr rfl
  refine ⟨scan_encode (by omega) hspace fun b hb => ?_, ?_⟩
  · cases hb
    rfl
  · have hscan : scan ([32] ++ encode n ++ []) = some (.ofNat n, []) :=
      scan_encode (by omega) hspace nofun
    rwa [List.append_nil] at hscan

theorem sscanf_msg (m : Message) (v : Numbers) : sscanf m.msg v = m.numbers := by
  have hsrc := m.src_port.toNat_lt
  have hfirst : ∀ rest, scan ([] ++ encode m.src_port.toNat ++ ([32] ++ rest)) =
      some (.ofNat m.src_port.toNat, [32] ++ rest) := fun rest =>
    scan_encode (by omega) nofun fun b hb => by cases hb; rfl
  have hdst := (scan_number (m.dst_port.toNat_lt.trans (by decide))
    (encode m.rcv_seq.toNat ++ ([32] ++ encode m.ack_seq.toNat))).1
  have hrcv := (scan_number m.rcv_seq.toNat_lt (encode m.ack_seq.toNat)).1
  have hack := (scan_number m.ack_seq.toNat_lt []).2
  have hmsg : m.msg = encode m.src_port.toNat ++ ([32] ++ (encode m.dst_port.toNat ++ ([32] ++
      (encode m.rcv_seq.toNat ++ ([32] ++ encode m.ack_seq.toNat))))) := by
    simp [msg]
  simp only [List.append_assoc] at hdst hrcv hack
  simp only [List.nil_append] at hfirst
  rw [hmsg, sscanf, hfirst]
  simp only [hdst, hrcv, hack, numbers]
  have h16 : ∀ x : UInt16, (UInt64.ofNat x.toNat).toUInt32 = x.toUInt32 := fun x => by
    apply UInt32.toNat_inj.mp
    have hx := x.toNat_lt
    rw [UInt64.toNat_toUInt32, UInt64.toNat_ofNat', UInt16.toNat_toUInt32]
    omega
  have h32 : ∀ x : UInt32, UInt64.ofNat x.toNat = x.toUInt64 := fun x => by
    apply UInt64.toNat_inj.mp
    have hx := x.toNat_lt
    rw [UInt64.toNat_ofNat', UInt32.toNat_toUInt64]
    omega
  rw [h16, h16, h32, h32]

end Message

/-- What fits into the buffer is received as it is. -/
theorem drop_recvmsg {header text buffer : List UInt8} {k : Nat} (unset : List UInt8)
    (hheader : header.length = k) (hfits : k + text.length ≤ buffer.length) :
    ∃ rest, (recvmsg (header ++ text ++ unset) buffer).drop k = text ++ rest := by
  have htake : (header ++ text ++ unset).take buffer.length =
      header ++ text ++ unset.take (buffer.length - (header ++ text).length) := by
    rw [List.take_append, List.take_of_length_le]
    rw [List.length_append]
    omega
  rw [recvmsg, htake, List.append_assoc, List.append_assoc, List.drop_left' hheader]
  exact ⟨_, rfl⟩

/-- A datagram of the kernel module is read as its message. -/
theorem readBuffer_sent {header buffer : List UInt8} (unset : List UInt8) (m : Message)
    (v : Numbers) (hheader : header.length = NLMSG_HDRLEN) (hbuffer : buffer.length = BUFFER_SIZE) :
    ∃ datagram, send_to_alcc header unset m = some datagram ∧
      readBuffer (recvmsg datagram buffer) v = some m.numbers ∧
      (recvmsg datagram buffer).length = BUFFER_SIZE := by
  have hlength := m.length_msg_le
  have htext : (m.msg ++ [0]).length = m.msg.length + 1 := by
    rw [List.length_append, List.length_singleton]
  rw [NLMSG_HDRLEN] at hheader
  rw [BUFFER_SIZE] at hbuffer
  refine ⟨_, if_pos ?_, ?_, ?_⟩
  · rw [htext]
    exact (Nat.succ_le_succ hlength).trans (by decide)
  · obtain ⟨rest, hrest⟩ := drop_recvmsg (unset.drop (m.msg ++ [0]).length) hheader
      (show 16 + (m.msg ++ [0]).length ≤ buffer.length by omega)
    rw [List.append_assoc m.msg, List.singleton_append] at hrest
    have hmsg : (m.msg ++ 0 :: rest).takeWhile (· ≠ 0) = m.msg := by
      rw [List.takeWhile_append_of_pos]
      · simp
      · intro b hb
        exact decide_eq_true fun h0 => m.zero_notMem_msg (h0 ▸ hb)
    have hend : 0 ∈ m.msg ++ 0 :: rest := List.mem_append_right _ List.mem_cons_self
    rw [readBuffer, NLMSG_HDRLEN, hrest]
    exact (if_pos hend).trans (by rw [hmsg, m.sscanf_msg])
  · rw [recvmsg, List.length_append, List.length_take, List.length_drop, BUFFER_SIZE]
    omega

theorem readAll_sent (sends : List (List UInt8 × List UInt8 × Message)) (v : Numbers)
    {buffer : List UInt8} (hheader : ∀ x ∈ sends, x.1.length = NLMSG_HDRLEN)
    (hbuffer : buffer.length = BUFFER_SIZE) :
    ∃ datagrams, (sends.mapM fun (header, unset, m) => send_to_alcc header unset m) =
        some datagrams ∧
      readAll datagrams buffer v = some (sends.map fun x => x.2.2.numbers) := by
  induction sends generalizing buffer v with
  | nil => exact ⟨[], rfl, rfl⟩
  | cons x sends ih =>
    obtain ⟨hx, hsends⟩ := List.forall_mem_cons.mp hheader
    obtain ⟨datagram, hsend, hread, hlength⟩ := readBuffer_sent x.2.1 x.2.2 v hx hbuffer
    obtain ⟨datagrams, hmap, hall⟩ := ih x.2.2.numbers hsends hlength
    refine ⟨datagram :: datagrams, ?_, ?_⟩
    · simp [List.mapM_cons, hsend, hmap]
    · rw [readAll]
      simp only [hread, Option.bind_some, hall, Option.map_some, List.map_cons]

end ALCC
