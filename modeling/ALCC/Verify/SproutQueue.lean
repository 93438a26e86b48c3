import ALCC.Model.SproutConnection
import ALCC.Theory.Run

/-! The two accounts of Sprout disagree: `new_packet` counts 50 bytes more for each packet than its
payload has, and `packet_count` adds the payloads to a number of the sender. So the estimate of the
queue is too large by 50 bytes for each packet that may still be late, and after the first packet it
is never 0 (`estimate_pos`). -/

namespace ALCC.Sprout

open Machine MachineInt

theorem toNat_sub {x y : UInt64} (h : y.toNat ≤ x.toNat) : (x - y).toNat = x.toNat - y.toNat :=
  UInt64.toNat_sub_of_le x y (UInt64.le_iff_toNat_le.mpr h)

theorem toNat_max (x y : UInt64) : (max x y).toNat = max x.toNat y.toNat := by
  have hle := UInt64.le_iff_toNat_le (a := x) (b := y)
  rw [UInt64.max_def]
  split
  · rename_i h
    exact (max_eq_right (hle.mp h)).symm
  · rename_i h
    exact (max_eq_left (not_le.mp (mt hle.mpr h)).le).symm

/-- The packets are numbered from `first` on, and `next` is the number after them. -/
def Chain : (first : Nat) → List PacketLen → (next : Nat) → Prop
  | first, [], next => first = next
  | first, p :: ps, next => p.seq.toNat = first ∧ Chain (first + p.len + 50) ps next

namespace Chain

variable {first mid next : Nat} {p : PacketLen} {ps qs : List PacketLen}

theorem append (hp : Chain first ps mid) (hq : Chain mid qs next) :
    Chain first (ps ++ qs) next := by
  induction ps generalizing first with
  | nil => exact (show first = mid from hp) ▸ hq
  | cons p ps ih => exact ⟨hp.1, ih hp.2⟩

theorem sum_eq (h : Chain first ps next) :
    first + (ps.map PacketLen.len).sum + 50 * ps.length = next := by
  induction ps generalizing first with
  | nil => exact h
  | cons p ps ih =>
    have hrest := ih h.2
    rw [List.map_cons, List.sum_cons, List.length_cons]
    omega

theorem lt_of_mem (h : Chain first ps next) (hp : p ∈ ps) : p.seq.toNat < next := by
  induction ps generalizing first with
  | nil => cases hp
  | cons q ps ih =>
    rcases List.mem_cons.mp hp with rfl | hp
    · have hseq := h.1
      have hsum := h.2.sum_eq
      omega
    · exact ih h.2 hp

/-- The packets that `packet_count` keeps, if it keeps the last one. -/
theorem dropWhile {bound : UInt64} (h : Chain first ps next) (hne : ps ≠ [])
    (hlast : ∀ p ∈ ps.getLast?, bound.toNat ≤ p.seq.toNat) :
    let kept := ps.dropWhile fun p => p.seq < bound
    kept ≠ [] ∧ kept.getLast? = ps.getLast? ∧
      ∃ first', bound.toNat ≤ first' ∧ Chain first' kept next := by
  induction ps generalizing first with
  | nil => exact absurd rfl hne
  | cons p ps ih =>
    rw [List.dropWhile_cons]
    split
    · rename_i hlt
      have hlt := UInt64.lt_iff_toNat_lt.mp (of_decide_eq_true hlt)
      have hne' : ps ≠ [] := by
        rintro rfl
        exact absurd hlt (not_lt.mpr (hlast p rfl))
      have hgetLast : (p :: ps).getLast? = ps.getLast? := List.getLast?_cons_of_ne_nil hne'
      rw [hgetLast] at hlast ⊢
      exact ih h.2 hne' hlast
    · rename_i hge
      have hge : bound.toNat ≤ p.seq.toNat := by
        apply not_lt.mp
        intro hlt
        exact hge (decide_eq_true (UInt64.lt_iff_toNat_lt.mpr hlt))
      exact ⟨hne, rfl, first, hge.trans_eq h.1, h⟩

end Chain

theorem orderedInsert_last {p : PacketLen} {ps : List PacketLen}
    (h : ∀ q ∈ ps, q.seq.toNat < p.seq.toNat) :
    ps.orderedInsert (fun a b => a.seq ≤ b.seq) p = ps ++ [p] := by
  induction ps with
  | nil => rfl
  | cons q ps ih =>
    have hlt := h q List.mem_cons_self
    rw [List.orderedInsert_cons, if_neg (fun hle => hlt.not_ge (UInt64.le_iff_toNat_le.mp hle)),
      ih fun r hr => h r (List.mem_cons_of_mem q hr)]
    rfl

/-- The window goes back to a packet that was sent, and at most 65535 bytes. -/
theorem SendQueue.add_spec {seq now : UInt64} {sent_packets sent_packets' : List (UInt64 × UInt64)}
    {window : UInt16} (hsent : ∀ x ∈ sent_packets, x.1.toNat ≤ seq.toNat)
    (h : SendQueue.add seq now sent_packets = some (window, sent_packets')) :
    window.toNat ≤ seq.toNat ∧ ∀ x ∈ sent_packets', x.1.toNat ≤ seq.toNat := by
  have hall : ∀ x ∈ sent_packets ++ [(seq, now)], x.1.toNat ≤ seq.toNat := by
    intro x hx
    rcases List.mem_append.mp hx with hx | hx
    · exact hsent x hx
    · rw [List.mem_singleton.mp hx]
  rw [SendQueue.add] at h
  split at h
  · cases h
  · rename_i front rest hkept
    have hsub : ∀ x ∈ front :: rest, x.1.toNat ≤ seq.toNat := by
      intro x hx
      rw [← hkept] at hx
      exact hall x ((List.dropWhile_sublist _).subset hx)
    cases h
    refine ⟨?_, hsub⟩
    have hfront := toNat_sub (hsub front List.mem_cons_self)
    rw [UInt64.toNat_toUInt16]
    refine (Nat.mod_le _ _).trans ?_
    split
    · rename_i hlarge
      have hlarge := UInt64.lt_iff_toNat_lt.mp hlarge
      rw [show (65535 : UInt64).toNat = 65535 from rfl] at hlarge ⊢
      omega
    · omega

/-- The packets that `packet_count` sums up. -/
theorem RecvQueue.packet_count_spec {q : RecvQueue} {first next : Nat}
    (h : Chain first q.received_sequence_numbers next) (hne : q.received_sequence_numbers ≠ [])
    (hlast : ∀ p ∈ q.received_sequence_numbers.getLast?,
      q.throwaway_before.toNat ≤ p.seq.toNat)
    (hnear : next ≤ q.throwaway_before.toNat + 2 ^ 18) (hnext : next < 2 ^ 63) :
    q.packet_count.1.toNat + 50 ≤ next ∧ q.throwaway_before.toNat ≤ q.packet_count.1.toNat := by
  obtain ⟨hkept, -, first', hle, hchain⟩ := h.dropWhile hne hlast
  have hsum := hchain.sum_eq
  have hpos := List.length_pos_of_ne_nil hkept
  rw [RecvQueue.packet_count]
  generalize q.received_sequence_numbers.dropWhile _ = kept at *
  generalize hsum' : (kept.map PacketLen.len).sum = sum at *
  have hI32 : toI32 sum = sum := toI32_of_mem (by omega) (by omega)
  have hsum64 : (UInt64.ofInt sum).toNat = sum := by
    rw [UInt64.ofInt, UInt64.toNat_ofNat']
    omega
  have hcount : (q.throwaway_before + .ofInt (toI32 sum)).toNat =
      q.throwaway_before.toNat + sum := by
    rw [hI32, UInt64.toNat_add, hsum64]
    omega
  rw [hcount]
  omega

theorem Connection.receive_spec {c d : Connection} {p : Packet} {now : UInt64}
    (h : c.receive p now = some d) :
    d.recv_queue = c.recv_queue.recv p.seq p.throwaway_window p.payload.length ∧
      d.server = c.server := by
  obtain ⟨-, h⟩ := Option.ite_none_right_eq_some.mp h
  simp only at h
  by_cases hseq : c.expected_receiver_seq ≤ p.seq
  · rw [if_pos hseq] at h
    cases h
    exact ⟨rfl, rfl⟩
  · rw [if_neg hseq] at h
    cases h
    exact ⟨rfl, rfl⟩

namespace Link

variable {s t : Link} {a : Action}

/-- A packet in flight, as the receiver will count it. -/
def toPacketLen (p : Packet) : PacketLen := ⟨p.seq, p.payload.length⟩

/-- The numbers of the packets have 63 bits, and their sizes 16. -/
def Fits (s : Link) : Action → Prop
  | .send s_payload _ _ => s_payload.length < 2 ^ 16 ∧
    s.sender.next_seq.toNat + s_payload.length + 50 < 2 ^ 63
  | _ => True

instance (s : Link) : DecidablePred s.Fits
  | .send .. => inferInstanceAs (Decidable (_ ∧ _))
  | .receive _ | .forecast => .isTrue trivial

/-- A packet in flight goes back at most to the first packet, and has a size of 16 bits. -/
def Sent (p : Packet) : Prop :=
  p.throwaway_window.toNat ≤ p.seq.toNat ∧ p.payload.length < 2 ^ 16

/-- What a receiver has counted up to the number `next`. -/
structure QueueInv (next : Nat) (q : RecvQueue) : Prop where
  chain : ∃ first, Chain first q.received_sequence_numbers next
  before : q.throwaway_before.toNat ≤ next
  last : ∀ p ∈ q.received_sequence_numbers.getLast?, q.throwaway_before.toNat ≤ p.seq.toNat
  near : next ≤ q.throwaway_before.toNat + 2 ^ 18

theorem QueueInv.recv {q : RecvQueue} {p : Packet} (h : QueueInv p.seq.toNat q) (hp : Sent p) :
    QueueInv (p.seq.toNat + p.payload.length + 50)
      (q.recv p.seq p.throwaway_window p.payload.length) := by
  obtain ⟨hwindow, hsize⟩ := hp
  obtain ⟨first, hchain⟩ := h.chain
  have hpushed : (q.recv p.seq p.throwaway_window p.payload.length).received_sequence_numbers =
      q.received_sequence_numbers ++ [toPacketLen p] :=
    orderedInsert_last fun r hr => hchain.lt_of_mem hr
  have hbefore : (q.recv p.seq p.throwaway_window p.payload.length).throwaway_before.toNat =
      max q.throwaway_before.toNat (p.seq.toNat - p.throwaway_window.toNat) := by
    rw [RecvQueue.recv, toNat_max]
    exact congrArg _ (toNat_sub hwindow)
  have hle := h.before
  have hlt := p.throwaway_window.toNat_lt
  refine ⟨⟨first, ?_⟩, ?_, ?_, ?_⟩
  · rw [hpushed]
    exact hchain.append ⟨rfl, rfl⟩
  · rw [hbefore]
    omega
  · intro r hr
    rw [hpushed, List.getLast?_concat] at hr
    cases hr
    rw [hbefore]
    exact max_le hle (Nat.sub_le ..)
  · rw [hbefore]
    omega

theorem QueueInv.packet_count {next : Nat} {q : RecvQueue} (h : QueueInv next q) :
    QueueInv next q.packet_count.2 := by
  obtain ⟨first, hchain⟩ := h.chain
  by_cases hne : q.received_sequence_numbers = []
  · have hkept : q.packet_count.2.received_sequence_numbers = q.received_sequence_numbers := by
      rw [RecvQueue.packet_count, hne]
      rfl
    exact ⟨⟨first, hkept ▸ hchain⟩, h.before, hkept ▸ h.last, h.near⟩
  · obtain ⟨-, hgetLast, first', -, hchain'⟩ := hchain.dropWhile hne h.last
    refine ⟨⟨first', hchain'⟩, h.before, fun p hp => h.last p ?_, h.near⟩
    rwa [← hgetLast]

/-- Between the steps. -/
structure LinkInv (s : Link) : Prop where
  queue : ∃ next, QueueInv next s.receiver.recv_queue ∧
    Chain next (s.inFlight.map toPacketLen) s.sender.next_seq.toNat
  sent : ∀ p ∈ s.inFlight, Sent p
  direction : ∀ p ∈ s.inFlight, p.direction = s.sender.direction
  ends : s.receiver.server = !s.sender.server
  send_queue : ∀ x ∈ s.sender.send_queue, x.1.toNat ≤ s.sender.next_seq.toNat
  next_seq : s.sender.next_seq.toNat < 2 ^ 63
  received : 0 < s.received → s.receiver.recv_queue.received_sequence_numbers ≠ []

namespace LinkInv

theorem start (server : Bool) : LinkInv (start server) where
  queue := ⟨0, ⟨⟨0, rfl⟩, Nat.le_refl 0, nofun, Nat.zero_le _⟩, rfl⟩
  sent := nofun
  direction := nofun
  ends := rfl
  send_queue := nofun
  next_seq := show (0 : UInt64).toNat < 2 ^ 63 by decide
  received h := absurd h (lt_irrefl 0)

theorem send {s_payload : Bytes} {time_to_next : UInt16} {now : UInt64} (h : LinkInv s)
    (ha : s.Fits (.send s_payload time_to_next now))
    (hs : s.step (.send s_payload time_to_next now) = some t) : LinkInv t := by
  obtain ⟨⟨p, sender⟩, hpacket, rfl⟩ := Option.map_eq_some_iff.mp hs
  obtain ⟨⟨window, send_queue⟩, hadd, hpair⟩ := Option.map_eq_some_iff.mp hpacket
  cases hpair
  obtain ⟨hsize, hlt⟩ := ha
  obtain ⟨next, hqueue, hchain⟩ := h.queue
  obtain ⟨hwindow, hsent⟩ := SendQueue.add_spec h.send_queue hadd
  have hnext : (s.sender.next_seq + (.ofNat s_payload.length + 50)).toNat =
      s.sender.next_seq.toNat + s_payload.length + 50 := by
    rw [UInt64.toNat_add, UInt64.toNat_add, UInt64.toNat_ofNat',
      show (50 : UInt64).toNat = 50 from rfl]
    omega
  refine ⟨⟨next, hqueue, ?_⟩, ?_, ?_, h.ends, ?_, ?_, h.received⟩
  · simp only [List.map_append, hnext]
    exact hchain.append ⟨rfl, rfl⟩
  · intro p hp
    rcases List.mem_append.mp hp with hp | hp
    · exact h.sent p hp
    · rw [List.mem_singleton.mp hp]
      exact ⟨hwindow, hsize⟩
  · intro p hp
    rcases List.mem_append.mp hp with hp | hp
    · exact h.direction p hp
    · rw [List.mem_singleton.mp hp]
      rfl
  · intro x hx
    simp only [hnext]
    exact (hsent x hx).trans (by omega)
  · simp only [hnext]
    exact hlt

theorem receive {p : Packet} {inFlight : List Packet} {receiver : Connection} {now : UInt64}
    (h : LinkInv s) (hinFlight : s.inFlight = p :: inFlight)
    (hreceive : s.receiver.receive p now = some receiver) :
    LinkInv { s with receiver, inFlight, received := s.received + 1 } := by
  obtain ⟨next, hqueue, hchain⟩ := h.queue
  rw [hinFlight] at hchain
  obtain ⟨rfl, hchain⟩ := hchain
  have hp : Sent p := h.sent p (hinFlight ▸ List.mem_cons_self)
  obtain ⟨hrecv, hserver⟩ := Connection.receive_spec hreceive
  have hrest : ∀ r ∈ inFlight, r ∈ s.inFlight := fun r hr =>
    hinFlight ▸ List.mem_cons_of_mem p hr
  refine ⟨⟨_, hrecv ▸ hqueue.recv hp, hchain⟩, fun r hr => h.sent r (hrest r hr),
    fun r hr => h.direction r (hrest r hr), hserver.trans h.ends, h.send_queue, h.next_seq,
    fun _ => ?_⟩
  rw [hrecv]
  apply List.ne_nil_of_length_pos
  rw [RecvQueue.recv, List.orderedInsert_length]
  exact Nat.succ_pos _

theorem forecast (h : LinkInv s) : LinkInv { s with
    receiver := { s.receiver with recv_queue := s.receiver.recv_queue.packet_count.2 } } := by
  obtain ⟨next, hqueue, hchain⟩ := h.queue
  refine ⟨⟨next, hqueue.packet_count, hchain⟩, h.sent, h.direction, h.ends, h.send_queue,
    h.next_seq, fun hpos => ?_⟩
  obtain ⟨first, hfirst⟩ := hqueue.chain
  exact (hfirst.dropWhile (h.received hpos) hqueue.last).1

theorem step (h : LinkInv s) (ha : s.Fits a) (hs : s.step a = some t) : LinkInv t := by
  cases a with
  | send s_payload time_to_next now => exact h.send ha hs
  | receive now =>
    simp only [Link.step] at hs
    split at hs
    · cases hs
    · rename_i p inFlight hinFlight
      obtain ⟨receiver, hreceive, rfl⟩ := Option.map_eq_some_iff.mp hs
      exact h.receive hinFlight hreceive
  | forecast =>
    cases hs
    exact h.forecast

/-- A packet in flight can be received. -/
theorem receive_enabled (h : LinkInv s) (hne : s.inFlight ≠ []) (now : UInt64) :
    ∃ t, s.step (.receive now) = some t := by
  obtain ⟨p, inFlight, hinFlight⟩ := List.exists_cons_of_ne_nil hne
  have hdirection : p.direction = if s.receiver.server then .TO_SERVER else .TO_CLIENT := by
    rw [h.direction p (hinFlight ▸ List.mem_cons_self), Connection.direction, h.ends]
    cases s.sender.server <;> rfl
  obtain ⟨receiver, hreceive⟩ : ∃ receiver, s.receiver.receive p now = some receiver := by
    rw [Connection.receive, if_pos hdirection]
    simp only
    split <;> exact ⟨_, rfl⟩
  simp only [Link.step, hinFlight, hreceive]
  exact ⟨_, rfl⟩

/-- The count of the receiver stays 50 bytes below the number of the next packet. -/
theorem count_add_le (h : LinkInv s) (hpos : 0 < s.received) :
    s.count.toNat + 50 ≤ s.sender.next_seq.toNat ∧
      (s.inFlight = [] → s.sender.next_seq.toNat ≤ s.count.toNat + 2 ^ 18) := by
  obtain ⟨next, hqueue, hchain⟩ := h.queue
  obtain ⟨first, hfirst⟩ := hqueue.chain
  have hle := hchain.sum_eq
  have hnext := h.next_seq
  obtain ⟨hcount, hbefore⟩ := RecvQueue.packet_count_spec hfirst (h.received hpos) hqueue.last
    hqueue.near (by omega)
  have hnear := hqueue.near
  rw [← show s.count = s.receiver.recv_queue.packet_count.1 from rfl] at hcount hbefore
  refine ⟨by omega, fun hnil => ?_⟩
  rw [hnil] at hchain
  have hnext' : next = s.sender.next_seq.toNat := hchain
  omega

end LinkInv

/-- **The estimate of the queue is never 0.** In every run, whatever the sizes of the packets and
the times at which they are sent, the count of the receiver stays at least 50 bytes below `next_seq`
once a packet has been received. When nothing is in flight the estimate is therefore positive. -/
theorem estimate_pos {server : Bool} {actions : List Action}
    (h : Guarded step Fits (start server) actions) (hrun : run step (start server) actions = some s)
    (hreceived : 0 < s.received) :
    s.count.toNat + 50 ≤ s.sender.next_seq.toNat ∧
      (s.inFlight = [] → s.count ≠ s.sender.next_seq ∧ 50 ≤ s.estimate) := by
  have hinv : LinkInv s := h.invariant (fun _ _ _ => LinkInv.step) (.start server) hrun
  obtain ⟨hcount, hnear⟩ := hinv.count_add_le hreceived
  refine ⟨hcount, fun hnil => ⟨fun heq => ?_, ?_⟩⟩
  · rw [heq] at hcount
    omega
  · have hnear := hnear hnil
    rw [estimate, toNat_sub (by omega), toI32_of_mem (by omega) (by omega)]
    omega

/-- Three bytes are sent and received. -/
def threeBytes : List Action := [.send [104, 105, 33] 0 1000, .receive 1010]

theorem estimate_threeBytes : ∃ s, run step (start true) threeBytes = some s ∧
    s.count.toNat + 50 ≤ s.sender.next_seq.toNat ∧
      (s.inFlight = [] → s.count ≠ s.sender.next_seq ∧ 50 ≤ s.estimate) := by
  have hfits : Guarded step Fits (start true) threeBytes := by decide +kernel
  exact ⟨_, rfl, estimate_pos hfits rfl (by decide)⟩

/-- Nothing is in flight, the count is 3, and the next number is 53. -/
theorem count_threeBytes : (run step (start true) threeBytes).map
    (fun s => (s.inFlight.length, s.count, s.sender.next_seq)) = some (0, 3, 53) := by
  decide +kernel

end Link

end ALCC.Sprout
