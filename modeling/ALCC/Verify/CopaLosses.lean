import ALCC.Model.CopaLosses

/-! An acknowledgement should settle all packets up to the one that it is about, and count those
before it as lost (`Settles`). The port leaves its loop at a packet before this one, and otherwise
erases the packet of the iterator that it goes on from, as its native version always does: neither
settles any packet (`never_settles`). -/

namespace ALCC.Copa

namespace PacketMap

variable {m : PacketMap} {k : Int}

/-- The entries after a key, and the number of those before it. -/
def newer (k : Int) (m : PacketMap) : List (Int × PacketData) := m.entries.filter fun x => k < x.1

def olderCount (k : Int) (m : PacketMap) : Nat := m.entries.countP fun x => x.1 < k

theorem olderCount_pos : 0 < m.olderCount k ↔ ∃ i ∈ m.keys, i < k := by
  simp [olderCount, List.countP_pos_iff, keys]

theorem notMem_erase (k : Int) (m : PacketMap) : k ∉ (m.erase k).keys := by
  simp [keys, erase]

/-- Other keys stay. -/
theorem mem_erase {i : Int} (h : k ∈ m.keys) (hne : k ≠ i) : k ∈ (m.erase i).keys := by
  obtain ⟨x, hx, rfl⟩ := List.mem_map.mp h
  exact List.mem_map_of_mem (List.mem_filter.mpr ⟨hx, decide_eq_true hne⟩)

theorem erase_cons {x : Int × PacketData} {l : List (Int × PacketData)} (h : m.entries = x :: l) :
    (m.erase x.1).entries = l := by
  have hx := (List.pairwise_cons.mp (h ▸ m.sorted)).1
  change m.entries.filter (fun y => y.1 ≠ x.1) = l
  rw [h, List.filter_cons_of_neg (by simp), List.filter_eq_self]
  intro y hy
  simpa using (hx y hy).ne'

/-- The first entry has the smallest key. -/
theorem exists_first (h : k ∈ m.keys) :
    ∃ x l, m.entries = x :: l ∧ x.1 ∈ m.keys ∧ ∀ i ∈ m.keys, x.1 ≤ i := by
  cases hentries : m.entries with
  | nil =>
    rw [keys, hentries] at h
    cases h
  | cons x l =>
    have hx := (List.pairwise_cons.mp (hentries ▸ m.sorted)).1
    rw [keys, hentries]
    refine ⟨x, l, rfl, List.mem_cons_self, fun i hi => ?_⟩
    rcases List.mem_cons.mp hi with rfl | hi
    · exact le_rfl
    · obtain ⟨y, hy, rfl⟩ := List.mem_map.mp hi
      exact (hx y hy).le

end PacketMap

namespace Scan

variable {seq_num : Int} {cur_time rtt : ℚ} {l : List (Int × PacketData)} {r r' : Scan}
  {x : Int × PacketData}

/-- A round erases its entry. -/
theorem notMem_visit (seq_num : Int) (cur_time rtt : ℚ) (r : Scan) (x : Int × PacketData) :
    x.1 ∉ (r.visit seq_num cur_time rtt x).unacknowledged_packets.keys :=
  PacketMap.notMem_erase x.1 _

theorem ackLoop_older (h : x.1 < seq_num) : ackLoop seq_num cur_time rtt (x :: l) r =
    some { r with unacknowledged_packets := r.unacknowledged_packets.erase x.1 } :=
  if_pos h

/-- After the entry of `seq_num` the loop does not know where it is. -/
theorem ackLoop_self (h : x.1 = seq_num) : ackLoop seq_num cur_time rtt (x :: l) r = none := by
  rw [ackLoop, if_neg h.ge.not_gt, if_neg h.le.not_gt]
  exact if_neg (notMem_visit seq_num cur_time rtt r x)

theorem nativeLoop_of_le (h : x.1 ≤ seq_num) :
    nativeLoop seq_num cur_time rtt (x :: l) r = none := by
  rw [nativeLoop, if_neg h.not_gt]
  exact if_neg (notMem_visit seq_num cur_time rtt r x)

/-- The loop of the window computations, which keep the keys only. -/
structure Agrees (r : Scan) (t : Window.AckLoop) : Prop where
  left : t.left = r.unacknowledged_packets.keys
  pkt_lost : t.pkt_lost = r.pkt_lost
  reduce : t.reduce = r.reduce
  reduce_on_loss : t.reduce_on_loss = r.reduce_on_loss

theorem Agrees.ackLoop {t : Window.AckLoop} (h : Agrees r t)
    (hl : r.unacknowledged_packets.entries = l)
    (hr : ackLoop seq_num cur_time rtt l r = some r') :
    Agrees r' (Window.ackLoop seq_num cur_time rtt (l.map Prod.fst) t) := by
  cases l with
  | nil =>
    cases hr
    exact h
  | cons x l =>
    rw [List.map_cons, Window.ackLoop]
    rcases lt_trichotomy x.1 seq_num with hlt | heq | hgt
    · rw [ackLoop_older hlt] at hr
      cases hr
      rw [if_pos hlt]
      exact ⟨congrArg (List.map Prod.fst) (PacketMap.erase_cons hl).symm, h.pkt_lost, h.reduce,
        h.reduce_on_loss⟩
    · rw [ackLoop_self heq] at hr
      cases hr
    · rw [Scan.ackLoop, if_neg hgt.not_gt, if_pos hgt] at hr
      cases hr
      rw [if_neg hgt.not_gt, if_pos hgt]
      exact h

end Scan

namespace Window

variable {w : Window}

theorem updateMode_packets (w : Window) :
    w.updateMode.unacknowledged_packets = w.unacknowledged_packets := by
  rw [updateMode]
  split <;> rfl

theorem updateDeltaDefault_packets (w : Window) (cur_rtt : ℚ) :
    (w.updateDeltaDefault cur_rtt).unacknowledged_packets = w.unacknowledged_packets := by
  rw [updateDeltaDefault]
  split <;> rfl

theorem changeDelta_packets (w : Window) (pkt_lost : Bool) (cur_rtt : ℚ) :
    (w.changeDelta pkt_lost cur_rtt).unacknowledged_packets = w.unacknowledged_packets := by
  rw [changeDelta]
  split_ifs <;> rfl

theorem updateDeltaLoss_packets (w : Window) (pkt_lost : Bool) (cur_rtt : ℚ) :
    (w.updateDeltaLoss pkt_lost cur_rtt).unacknowledged_packets = w.unacknowledged_packets := by
  refine (changeDelta_packets _ pkt_lost cur_rtt).trans ?_
  split <;> rfl

/-- The window computations leave the packets alone. -/
theorem updateDelta_packets (pkt_lost : Bool) (cur_rtt : ℚ) :
    (w.updateDelta pkt_lost cur_rtt).unacknowledged_packets = w.unacknowledged_packets := by
  have hmode := updateMode_packets w
  simp only [updateDelta]
  split_ifs
  · exact (updateDeltaDefault_packets _ cur_rtt).trans hmode
  · exact (updateDeltaLoss_packets _ pkt_lost cur_rtt).trans hmode
  · exact hmode

theorem slowStart_packets (w : Window) :
    w.slowStart.unacknowledged_packets = w.unacknowledged_packets := by
  rw [slowStart]
  split <;> rfl

theorem updateAmt_packets (w : Window) :
    w.updateAmt.unacknowledged_packets = w.unacknowledged_packets := by
  rw [updateAmt]
  split_ifs <;> rfl

theorem updateWindow_packets (w : Window) :
    w.updateWindow.unacknowledged_packets = w.unacknowledged_packets := by
  refine Eq.trans ?_ (updateAmt_packets w)
  simp only [updateWindow]
  split <;> rfl

theorem updateIntersendTime_packets :
    w.updateIntersendTime.unacknowledged_packets = w.unacknowledged_packets := by
  rw [updateIntersendTime]
  split_ifs
  · rfl
  · exact slowStart_packets w
  · exact updateWindow_packets w

end Window

namespace Flow

variable {f g : Flow} {seq_num : Int} {sent_time : ℚ}

/-- The window is that of the window computations. -/
theorem window_onACK (hkeys : f.window.unacknowledged_packets = f.unacknowledged_packets.keys)
    (hg : f.onACK seq_num sent_time = some g) :
    g.window = f.window.onACK seq_num sent_time := by
  have hpackets : ((f.window.sample sent_time).updateIntersendTime).unacknowledged_packets =
      f.unacknowledged_packets.keys := by
    rw [Window.updateIntersendTime_packets, Window.sample, Window.updateDelta_packets]
    exact hkeys
  rw [Window.onACK]
  rw [onACK, acknowledge] at hg
  generalize (f.window.sample sent_time).updateIntersendTime = w at hpackets hg ⊢
  obtain ⟨r, hscan, rfl⟩ := Option.map_eq_some_iff.mp hg
  have hagree : Scan.Agrees r
      (if seq_num ∈ w.unacknowledged_packets then
        Window.ackLoop seq_num w.cur_tick w.rtt_window.latest_rtt w.unacknowledged_packets
          ⟨w.unacknowledged_packets, false, false, w.reduce_on_loss⟩
      else ⟨w.unacknowledged_packets, false, false, w.reduce_on_loss⟩) := by
    rw [hpackets]
    rw [scan] at hscan
    split at hscan
    · rename_i hkey
      rw [if_pos hkey]
      exact Scan.Agrees.ackLoop ⟨rfl, rfl, rfl, rfl⟩ rfl hscan
    · rename_i hkey
      cases hscan
      rw [if_neg hkey]
      exact ⟨rfl, rfl, rfl, rfl⟩
  simp only [conclude, Window.settle]
  rw [hagree.left, hagree.pkt_lost, hagree.reduce, hagree.reduce_on_loss]

/-- No packet up to `seq_num` is left and the later ones are as before. The earlier ones count as
lost, and the reactions to a loss are called if there is one. -/
structure Settles (seq_num : Int) (f g : Flow) : Prop where
  removed : ∀ k ∈ g.unacknowledged_packets.keys, seq_num < k
  kept : g.unacknowledged_packets.newer seq_num = f.unacknowledged_packets.newer seq_num
  num_pkts_lost : g.num_pkts_lost = f.num_pkts_lost + f.unacknowledged_packets.olderCount seq_num
  update_delta : f.deltaLosses < g.deltaLosses ↔ ∃ k ∈ f.unacknowledged_packets.keys, k < seq_num
  reduce_on_loss : f.lossUpdates < g.lossUpdates ↔
    ∃ k ∈ f.unacknowledged_packets.keys, k < seq_num

/-- Every packet could be settled. -/
theorem exists_settles (seq_num : Int) (f : Flow) : ∃ g, Settles seq_num f g := by
  let lost := f.unacknowledged_packets.olderCount seq_num
  let left : PacketMap := ⟨f.unacknowledged_packets.newer seq_num,
    f.unacknowledged_packets.sorted.filter _⟩
  refine ⟨{ f with
    unacknowledged_packets := left
    num_pkts_lost := f.num_pkts_lost + lost
    deltaLosses := f.deltaLosses + lost
    lossUpdates := f.lossUpdates + lost }, ?_, ?_, rfl, ?_, ?_⟩
  · intro k hk
    obtain ⟨x, hx, rfl⟩ := List.mem_map.mp hk
    exact of_decide_eq_true (List.mem_filter.mp hx).2
  · simp [left, PacketMap.newer, List.filter_filter]
  · rw [← PacketMap.olderCount_pos]
    exact Nat.lt_add_right_iff_pos
  · rw [← PacketMap.olderCount_pos]
    exact Nat.lt_add_right_iff_pos

/-- An earlier packet keeps this one in the map. -/
theorem not_settles (sent_time : ℚ) (hkey : seq_num ∈ f.unacknowledged_packets.keys)
    (hearlier : ∃ k ∈ f.unacknowledged_packets.keys, k < seq_num) :
    ∃ g, f.onACK seq_num sent_time = some g ∧ ¬ Settles seq_num f g := by
  obtain ⟨x, l, hentries, -, hle⟩ := PacketMap.exists_first hkey
  obtain ⟨k, hk, hlt⟩ := hearlier
  have hx : x.1 < seq_num := (hle k hk).trans_lt hlt
  rw [onACK, acknowledge, scan, if_pos hkey]
  simp only [hentries, Scan.ackLoop_older hx, Option.map_some]
  refine ⟨_, rfl, fun h => ?_⟩
  exact lt_irrefl seq_num (h.removed seq_num (PacketMap.mem_erase hkey hx.ne'))

/-- Without an earlier packet the loop goes on from an entry that it has erased. -/
theorem onACK_eq_none (sent_time : ℚ) (hkey : seq_num ∈ f.unacknowledged_packets.keys)
    (hfirst : ∀ k ∈ f.unacknowledged_packets.keys, seq_num ≤ k) :
    f.onACK seq_num sent_time = none := by
  obtain ⟨x, l, hentries, hx, hle⟩ := PacketMap.exists_first hkey
  have heq : x.1 = seq_num := le_antisymm (hle seq_num hkey) (hfirst x.1 hx)
  rw [onACK, acknowledge, scan, if_pos hkey]
  simp only [hentries, Scan.ackLoop_self heq, Option.map_none]

theorem nativeOnACK_eq_none (sent_time : ℚ) (hkey : seq_num ∈ f.unacknowledged_packets.keys) :
    f.nativeOnACK (seq_num + 1) sent_time = none := by
  obtain ⟨x, l, hentries, -, hle⟩ := PacketMap.exists_first hkey
  rw [nativeOnACK, add_sub_cancel_right, acknowledge, scan, if_pos hkey]
  simp only [hentries, Scan.nativeLoop_of_le (hle seq_num hkey), Option.map_none]

/-- **No packet is settled.** If an earlier packet is unacknowledged, the port erases the first one
and leaves this one in the map; if there is none, its behaviour is undefined, and so is that of its
native version in any case. -/
theorem never_settles (f : Flow) (seq_num : Int) (sent_time : ℚ)
    (hkey : seq_num ∈ f.unacknowledged_packets.keys) :
    (¬ ∃ g, f.onACK seq_num sent_time = some g ∧ Settles seq_num f g) ∧
      (f.onACK seq_num sent_time = none ↔ ∀ k ∈ f.unacknowledged_packets.keys, seq_num ≤ k) ∧
      f.nativeOnACK (seq_num + 1) sent_time = none := by
  by_cases hfirst : ∀ k ∈ f.unacknowledged_packets.keys, seq_num ≤ k
  · have hnone := onACK_eq_none sent_time hkey hfirst
    refine ⟨?_, iff_of_true hnone hfirst, nativeOnACK_eq_none sent_time hkey⟩
    rintro ⟨g, hg, -⟩
    rw [hnone] at hg
    cases hg
  · have hearlier : ∃ k ∈ f.unacknowledged_packets.keys, k < seq_num := by
      simpa using hfirst
    obtain ⟨g, hg, hnot⟩ := not_settles sent_time hkey hearlier
    refine ⟨?_, iff_of_false ?_ hfirst, nativeOnACK_eq_none sent_time hkey⟩
    · rintro ⟨g', hg', hsettles⟩
      rw [hg] at hg'
      cases hg'
      exact hnot hsettles
    · rw [hg]
      exact Option.some_ne_none g

/-- Two packets are unacknowledged. -/
def twoPackets : Flow where
  window := .start 100
  unacknowledged_packets :=
    { entries := [(1, ⟨100, 0, 0, 0, 0⟩), (2, ⟨100, 0, 0, 0, 0⟩)]
      sorted := by simp }
  prev := ⟨0, 0, 0, 0, 0⟩
  num_pkts_lost := 0
  deltaLosses := 0
  lossUpdates := 0

theorem never_settles_twoPackets :
    ¬ ∃ g, twoPackets.onACK 1 100 = some g ∧ Settles 1 twoPackets g :=
  (never_settles twoPackets 1 100 (by decide)).1

/-- The acknowledgement of the second packet leaves it in the map. -/
theorem not_settles_second :
    ∃ g, twoPackets.onACK 2 100 = some g ∧ ¬ Settles 2 twoPackets g := by
  have h : (twoPackets.onACK 2 100).any fun g => 2 ∈ g.unacknowledged_packets.keys := by
    decide +kernel
  obtain ⟨g, hg, hkept⟩ := (Option.any_eq_true _ _).mp h
  exact ⟨g, hg, fun h => lt_irrefl 2 (h.removed 2 (of_decide_eq_true hkept))⟩

end Flow

end ALCC.Copa
