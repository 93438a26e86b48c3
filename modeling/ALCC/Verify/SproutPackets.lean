import ALCC.Verify.SproutQueue
import Mathlib.Data.List.TakeWhile

/-! What `new_packet` and `receive` do to the members of a `Connection`. -/

namespace ALCC.Sprout

namespace Connection

variable {c : Connection} {now : UInt64}

/-- The newest packet stays in the queue. -/
theorem add_spec (seq : UInt64) (sent_packets : List (UInt64 × UInt64)) (h : 10 ≤ now.toNat) :
    ∃ window sent_packets', SendQueue.add seq now sent_packets = some (window, sent_packets') := by
  have hsub : (now - SendQueue.REORDER_LIMIT).toNat = now.toNat - 10 :=
    toNat_sub (show SendQueue.REORDER_LIMIT.toNat ≤ now.toNat from h)
  rw [SendQueue.add]
  split
  · rename_i hnil
    have hall := List.dropWhile_eq_nil_iff.mp hnil (seq, now)
      (List.mem_append_right _ List.mem_cons_self)
    rw [decide_eq_true_eq, UInt64.lt_iff_toNat_lt, hsub] at hall
    exact absurd hall (Nat.sub_le _ _).not_gt
  · exact ⟨_, _, rfl⟩

theorem new_packet_eq (c : Connection) (s_payload : Bytes) (time_to_next : UInt16)
    (h : 10 ≤ now.toNat) : ∃ p d, c.new_packet s_payload time_to_next now = some (p, d) ∧
      p.payload = s_payload ∧ p.time_to_next = time_to_next ∧ p.direction = c.direction ∧
      p.timestamp = timestamp16 now ∧
      p.timestamp_reply = (if now - c.saved_timestamp_received_at < 1000 then
        c.saved_timestamp + (now - c.saved_timestamp_received_at).toUInt16 else -1) ∧
      d.server = c.server ∧ d.recv_queue = c.recv_queue ∧
      d.next_seq = c.next_seq + (.ofNat s_payload.length + 50) ∧
      d.saved_timestamp =
        (if now - c.saved_timestamp_received_at < 1000 then -1 else c.saved_timestamp) ∧
      d.saved_timestamp_received_at =
        (if now - c.saved_timestamp_received_at < 1000 then 0
          else c.saved_timestamp_received_at) := by
  obtain ⟨window, send_queue, hadd⟩ := add_spec c.next_seq c.send_queue h
  rw [new_packet, hadd]
  refine ⟨_, _, rfl, rfl, rfl, rfl, rfl, ?_, rfl, rfl, rfl, ?_, ?_⟩ <;> simp

theorem new_packet_spec (c : Connection) (s_payload : Bytes) (time_to_next : UInt16)
    (h : 10 ≤ now.toNat) : ∃ p d,
    c.new_packet s_payload time_to_next now = some (p, d) ∧ p.payload = s_payload ∧
      p.time_to_next = time_to_next ∧ d.server = c.server ∧ d.recv_queue = c.recv_queue ∧
      d.next_seq = c.next_seq + (.ofNat s_payload.length + 50) := by
  obtain ⟨window, send_queue, hadd⟩ := add_spec c.next_seq c.send_queue h
  rw [new_packet, hadd]
  exact ⟨_, _, rfl, rfl, rfl, rfl, rfl, rfl⟩

/-- A packet that is received has no effect on what is sent next. -/
theorem receive_sender {d : Connection} {p : Packet} (h : c.receive p now = some d) :
    d.next_seq = c.next_seq ∧ d.send_queue = c.send_queue := by
  obtain ⟨-, h⟩ := Option.ite_none_right_eq_some.mp h
  simp only at h
  split at h
  · cases h
    exact ⟨rfl, rfl⟩
  · cases h
    exact ⟨rfl, rfl⟩

/-- A packet that is not out of order has its timestamp saved. -/
theorem receive_eq {p : Packet} (now : UInt64)
    (h : p.direction = if c.server then .TO_SERVER else .TO_CLIENT) :
    ∃ d, c.receive p now = some d ∧ d.server = c.server ∧
      d.saved_timestamp = (if c.expected_receiver_seq ≤ p.seq ∧ p.timestamp ≠ -1 then p.timestamp
        else c.saved_timestamp) ∧
      d.saved_timestamp_received_at =
        (if c.expected_receiver_seq ≤ p.seq ∧ p.timestamp ≠ -1 then now
          else c.saved_timestamp_received_at) := by
  rw [receive, if_pos h]
  by_cases hseq : c.expected_receiver_seq ≤ p.seq
  · rw [if_pos hseq]
    exact ⟨_, rfl, rfl, by simp only [hseq, true_and], by simp only [hseq, true_and]⟩
  · rw [if_neg hseq]
    exact ⟨_, rfl, rfl, by simp only [hseq, false_and, if_false],
      by simp only [hseq, false_and, if_false]⟩

/-- The low bits of a time, where the largest value is left out. -/
theorem toNat_timestamp16 (now : UInt64) :
    ∃ skip ≤ 1, (timestamp16 now).toNat = (now.toNat + skip) % 65536 := by
  have hts : (now % 65536).toUInt16.toNat = now.toNat % 65536 := by
    rw [UInt64.toNat_toUInt16, UInt64.toNat_mod]
    exact Nat.mod_mod _ _
  rw [timestamp16]
  split
  · rename_i hlast
    refine ⟨1, le_rfl, ?_⟩
    rw [hlast] at hts ⊢
    have hmax : (-1 : UInt16).toNat = 65535 := rfl
    have hzero : (-1 + 1 : UInt16).toNat = 0 := rfl
    omega
  · exact ⟨0, Nat.zero_le 1, hts⟩

theorem timestamp16_ne (now : UInt64) : timestamp16 now ≠ -1 := by
  rw [timestamp16]
  split
  · rename_i hlast
    rw [hlast]
    decide
  · assumption

end Connection

end ALCC.Sprout
