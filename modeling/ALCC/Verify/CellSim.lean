import ALCC.Model.CellSim
import Mathlib.Algebra.BigOperators.Group.List.Basic
import Mathlib.Algebra.Order.Ring.Int
import Mathlib.Data.List.Chain
import Mathlib.Data.List.TakeWhile
import Mathlib.Tactic.Ring

/-! The emulated link keeps every packet, in order, for at least its delay, and accounts for each
byte of each opportunity: what was delivered, what a part of a packet has earned, and what was left
unused are 1500 bytes for each opportunity so far (`run_accounts`). Its waits end when there is
something to do, and no earlier (`run_waits`). -/

namespace ALCC.CellSim

open Machine MachineInt

def Line.total : Line → Nat
  | .delivery .. => 0
  | .bin _ _ total_bytes => total_bytes.toNat

def Line.used : Line → Nat
  | .delivery .. => 0
  | .bin _ used_bytes _ => used_bytes.toNat

namespace DelayQueue

/-- The packets that wait for an opportunity. -/
def waiting (q : DelayQueue) : List DelayedPacket := q.limbo.map PartialPacket.packet ++ q.pdp

/-- What a part of a packet has earned. -/
def earned (q : DelayQueue) : Int := (q.limbo.map PartialPacket.bytes_earned).sum

/-- The bytes of all bins. -/
def totalBytes (q : DelayQueue) : Nat := (q.printed.map Line.total).sum + q.total_bytes.toNat

/-- The used bytes of all bins. -/
def usedBytes (q : DelayQueue) : Nat := (q.printed.map Line.used).sum + q.used_bytes.toNat

/-- What the calls rely on. -/
structure Ready (now : UInt64) (q : DelayQueue) : Prop where
  limbo : q.limbo = [] ∨ ∃ l, q.limbo = [l] ∧ 0 < l.bytes_earned ∧
    l.bytes_earned < l.packet.contents.length
  small : ∀ p ∈ q.waiting, p.contents.length + 1500 < 2 ^ 31
  timely : ∀ p ∈ q.waiting, p.entry_time.toNat + q.ms_delay.toNat ≤ now.toNat
  lines : ∀ t d, Line.delivery t d ∈ q.printed → q.ms_delay ≤ d
  used_le : q.used_bytes ≤ q.total_bytes

/-- From `q` to `q'` some bytes are played. -/
structure Plays (now : UInt64) (bytes : Int) (q q' : DelayQueue) : Prop where
  fifo : q'.delivered ++ q'.waiting.map DelayedPacket.contents =
    q.delivered ++ q.waiting.map DelayedPacket.contents
  pending : ∀ p ∈ q'.waiting, p ∈ q.waiting
  total : (q'.totalBytes : Int) + q'.earned = q.totalBytes + q.earned + bytes
  used : q'.usedBytes + (q.delivered.map List.length).sum =
    q.usedBytes + (q'.delivered.map List.length).sum
  printed : ∀ t d, Line.delivery t d ∈ q'.printed → Line.delivery t d ∈ q.printed ∨
    ∃ p ∈ q.waiting, d = now - p.entry_time
  delay : q'.delay = q.delay
  ms_delay : q'.ms_delay = q.ms_delay

variable {now : UInt64} {q q₁ q₂ : DelayQueue} {a b : Int} {packet : DelayedPacket}
  {pdp : List DelayedPacket}

theorem Plays.refl (q : DelayQueue) : Plays now 0 q q where
  fifo := rfl
  pending _ h := h
  total := (add_zero _).symm
  used := rfl
  printed _ _ h := .inl h
  delay := rfl
  ms_delay := rfl

theorem Plays.trans (h : Plays now a q q₁) (h' : Plays now b q₁ q₂) : Plays now (a + b) q q₂ where
  fifo := h'.fifo.trans h.fifo
  pending p hp := h.pending p (h'.pending p hp)
  total := by
    rw [h'.total, h.total]
    ring
  used := by
    have := h.used
    have := h'.used
    omega
  printed t d hline := by
    rcases h'.printed t d hline with hline | ⟨p, hp, rfl⟩
    · exact h.printed t d hline
    · exact .inr ⟨p, h.pending p hp, rfl⟩
  delay := h'.delay.trans h.delay
  ms_delay := h'.ms_delay.trans h.ms_delay

theorem toNat_add_ofNat {x : UInt64} {n : Nat} (h : x.toNat + n < 2 ^ 64) :
    (x + .ofNat n).toNat = x.toNat + n := by
  rw [UInt64.toNat_add, UInt64.toNat_ofNat']
  omega

/-- A packet is delivered, of which `bytes_earned` bytes were earned before. -/
theorem Plays.deliver (now : UInt64) (hpending : q.waiting = packet :: pdp)
    (hroom : q.totalBytes + packet.contents.length < 2 ^ 64)
    (hused : q.used_bytes ≤ q.total_bytes) : Plays now (packet.contents.length - q.earned) q
        { q.deliver now packet with limbo := [], pdp } ∧
      (q.deliver now packet).used_bytes ≤ (q.deliver now packet).total_bytes := by
  have hle := UInt64.le_iff_toNat_le.mp hused
  have htotal : (q.total_bytes + .ofNat packet.contents.length).toNat =
      q.total_bytes.toNat + packet.contents.length := by
    apply toNat_add_ofNat
    rw [totalBytes] at hroom
    omega
  have hused' : (q.used_bytes + .ofNat packet.contents.length).toNat =
      q.used_bytes.toNat + packet.contents.length := by
    apply toNat_add_ofNat
    rw [totalBytes] at hroom
    omega
  refine ⟨⟨?_, ?_, ?_, ?_, ?_, rfl, rfl⟩, ?_⟩
  · rw [hpending, List.map_cons]
    simp [waiting, DelayQueue.deliver]
  · intro p hp
    rw [hpending]
    exact List.mem_cons_of_mem packet hp
  · simp only [totalBytes, earned, DelayQueue.deliver, htotal, List.map_append, List.sum_append,
      List.map_cons, List.map_nil, List.sum_cons, List.sum_nil, Line.total]
    push_cast
    ring
  · simp only [usedBytes, DelayQueue.deliver, hused', List.map_append, List.sum_append,
      List.map_cons, List.map_nil, List.sum_cons, List.sum_nil, Line.used]
    ring
  · intro t d hline
    rcases List.mem_append.mp hline with hline | hline
    · exact .inl hline
    · obtain ⟨rfl, rfl⟩ := Line.delivery.inj (List.mem_singleton.mp hline)
      exact .inr ⟨packet, hpending ▸ List.mem_cons_self, rfl⟩
  · rw [UInt64.le_iff_toNat_le]
    change (q.used_bytes + .ofNat packet.contents.length).toNat ≤
      (q.total_bytes + .ofNat packet.contents.length).toNat
    omega

/-- What is left of an opportunity without a packet is not used. -/
theorem Plays.unused (now : UInt64) {bytes : Int} (h0 : 0 ≤ bytes)
    (hroom : q.totalBytes + bytes < 2 ^ 64) (hused : q.used_bytes ≤ q.total_bytes) :
    Plays now bytes { q with pdp := [] }
        { q with pdp := [], total_bytes := q.total_bytes + .ofInt bytes } ∧
      q.used_bytes ≤ q.total_bytes + .ofInt bytes := by
  obtain ⟨n, rfl⟩ := Int.eq_ofNat_of_zero_le h0
  have hle := UInt64.le_iff_toNat_le.mp hused
  have hofInt : UInt64.ofInt (n : Int) = .ofNat n := by
    rw [totalBytes] at hroom
    rw [UInt64.ofInt]
    congr 1
    omega
  have htotal : (q.total_bytes + .ofNat n).toNat = q.total_bytes.toNat + n := by
    apply toNat_add_ofNat
    rw [totalBytes] at hroom
    omega
  rw [hofInt]
  refine ⟨⟨rfl, fun p hp => hp, ?_, rfl, fun _ _ hline => .inl hline, rfl, rfl⟩, ?_⟩
  · simp only [totalBytes, earned, htotal]
    push_cast
    ring
  · rw [UInt64.le_iff_toNat_le, htotal]
    omega

/-- The regular queue uses what is left of an opportunity. -/
theorem regular_spec (now : UInt64) {bytes : Int} (hlimbo : q.limbo = []) (h0 : 0 ≤ bytes)
    (h : bytes ≤ 1500) (hsmall : ∀ p ∈ pdp, p.contents.length + 1500 < 2 ^ 31)
    (hroom : q.totalBytes + bytes < 2 ^ 64) (hused : q.used_bytes ≤ q.total_bytes) :
    ∃ q', regular now pdp bytes q = some q' ∧ Plays now bytes { q with pdp } q' ∧
      q'.used_bytes ≤ q'.total_bytes ∧ (q'.limbo = [] ∨ ∃ l, q'.limbo = [l] ∧ 0 < l.bytes_earned ∧
        l.bytes_earned < l.packet.contents.length) := by
  have hempty : q.limbo.isEmpty = true := List.isEmpty_iff.mpr hlimbo
  induction pdp generalizing q bytes with
  | nil =>
    rw [regular]
    split
    · obtain ⟨hplays, hused'⟩ := Plays.unused now h0 hroom hused
      exact ⟨_, rfl, hplays, hused', .inl hlimbo⟩
    · rename_i hnot
      obtain rfl : bytes = 0 := by omega
      exact ⟨_, rfl, .refl _, hused, .inl hlimbo⟩
  | cons packet pdp ih =>
    obtain ⟨hpacket, hpdp⟩ := List.forall_mem_cons.mp hsmall
    have hsize : toI32 packet.contents.length = packet.contents.length :=
      toI32_of_mem (by omega) (by omega)
    rw [regular]
    split
    · rename_i hpos
      rw [hsize]
      split
      · -- the whole packet
        rename_i hle
        have hrest : toI32 (bytes - packet.contents.length) = bytes - packet.contents.length :=
          toI32_of_mem (by omega) (by omega)
        have hwaiting : ({ q with pdp := packet :: pdp } : DelayQueue).waiting = packet :: pdp := by
          simp [waiting, hlimbo]
        obtain ⟨hplays, hused'⟩ := Plays.deliver now hwaiting
          (show q.totalBytes + packet.contents.length < 2 ^ 64 by omega) hused
        have hzero : ({ q with pdp := packet :: pdp } : DelayQueue).earned = 0 := by
          simp [earned, hlimbo]
        have heq : { ({ q with pdp := packet :: pdp } : DelayQueue).deliver now packet with
            limbo := [], pdp } = { q.deliver now packet with pdp } := by
          simp [DelayQueue.deliver, hlimbo]
        rw [hzero, sub_zero, heq] at hplays
        have htotal := hplays.total
        rw [hzero, show ({ q.deliver now packet with pdp } : DelayQueue).earned = 0 by
          simp [earned, DelayQueue.deliver, hlimbo]] at htotal
        obtain ⟨q', hregular, hrest', hq'⟩ := ih
          (show (q.deliver now packet).limbo = [] from hlimbo)
          (show 0 ≤ bytes - packet.contents.length by omega) (by omega) hpdp
          (show ((q.deliver now packet).totalBytes : Int) + _ < _ by
            change ((q.deliver now packet).totalBytes : Int) + 0 = _ at htotal
            change _ = (q.totalBytes : Int) + 0 + _ at htotal
            omega) hused' (List.isEmpty_iff.mpr hlimbo)
        rw [hrest, hregular]
        have hplays := hplays.trans hrest'
        rw [add_sub_cancel] at hplays
        exact ⟨q', rfl, hplays, hq'⟩
      · -- a part of the packet
        refine ⟨_, rfl, ⟨?_, ?_, ?_, rfl, fun _ _ hline => .inl hline, rfl, rfl⟩, hused, .inr ?_⟩
        · simp [waiting, hlimbo]
        · intro p hp
          simpa [waiting, hlimbo] using hp
        · simp [totalBytes, earned, hlimbo]
        · rename_i hnot
          exact ⟨_, rfl, hpos, by simpa [hsize] using hnot⟩
    · rename_i hnot
      obtain rfl : bytes = 0 := by omega
      exact ⟨_, rfl, .refl _, hused, .inl hlimbo⟩

theorem Plays.ready (h : Plays now a q q₁) (hq : q.Ready now)
    (hlimbo : q₁.limbo = [] ∨ ∃ l, q₁.limbo = [l] ∧ 0 < l.bytes_earned ∧
      l.bytes_earned < l.packet.contents.length)
    (hused : q₁.used_bytes ≤ q₁.total_bytes) : q₁.Ready now where
  limbo := hlimbo
  small p hp := hq.small p (h.pending p hp)
  timely p hp := h.ms_delay ▸ hq.timely p (h.pending p hp)
  lines t d hline := by
    rw [h.ms_delay]
    rcases h.printed t d hline with hline | ⟨p, hp, rfl⟩
    · exact hq.lines t d hline
    · have hle := hq.timely p hp
      rw [UInt64.le_iff_toNat_le,
        UInt64.toNat_sub_of_le _ _ (UInt64.le_iff_toNat_le.mpr (by omega))]
      omega
  used_le := hused

/-- An opportunity plays 1500 bytes. -/
theorem Ready.serve (h : q.Ready now) (hroom : q.totalBytes + q.earned + 1500 < 2 ^ 64) :
    ∃ q', q.serve now = some q' ∧ Plays now 1500 q q' ∧ q'.Ready now := by
  have hpdp : ∀ p ∈ q.pdp, p.contents.length + 1500 < 2 ^ 31 := fun p hp =>
    h.small p (List.mem_append_right _ hp)
  rcases h.limbo with hnil | ⟨l, hlimbo, hpos, hlt⟩
  · have hearned : q.earned = 0 := by simp [earned, hnil]
    obtain ⟨q', hregular, hplays, hused, hlimbo⟩ := regular_spec now hnil
      (show (0 : Int) ≤ 1500 by decide) le_rfl hpdp (by omega) h.used_le
    refine ⟨q', ?_, hplays, Plays.ready hplays h hlimbo hused⟩
    rw [DelayQueue.serve, hnil]
    exact hregular
  · have hwaiting : q.waiting = l.packet :: q.pdp := by simp [waiting, hlimbo]
    have hearned : q.earned = l.bytes_earned := by simp [earned, hlimbo]
    have hsmall := h.small l.packet (hwaiting ▸ List.mem_cons_self)
    have hsize : toI32 l.packet.contents.length = l.packet.contents.length :=
      toI32_of_mem (by omega) (by omega)
    rw [DelayQueue.serve, hlimbo]
    simp only [hsize, SERVICE_PACKET_SIZE]
    split
    · -- the rest of the packet
      rename_i hle
      have hrest : toI32 (1500 - (l.packet.contents.length - l.bytes_earned)) =
          1500 - (l.packet.contents.length - l.bytes_earned) :=
        toI32_of_mem (by omega) (by omega)
      obtain ⟨hdeliver, hused⟩ := Plays.deliver now hwaiting (by omega) h.used_le
      have hplays : Plays now (l.packet.contents.length - q.earned) q
          { q.deliver now l.packet with limbo := [] } := hdeliver
      generalize hdelivered :
        ({ q.deliver now l.packet with limbo := [] } : DelayQueue) = delivered at hplays
      have hlimbo₀ : delivered.limbo = [] := hdelivered ▸ rfl
      have hpdp₀ : delivered.pdp = q.pdp := hdelivered ▸ rfl
      have hzero : delivered.earned = 0 := by simp [earned, hlimbo₀]
      have htotal := hplays.total
      rw [hzero, hearned] at htotal
      rw [hearned] at hplays
      obtain ⟨q', hregular, hrest', hused', hlimbo'⟩ := regular_spec now hlimbo₀
        (show 0 ≤ 1500 - ((l.packet.contents.length : Int) - l.bytes_earned) by omega) (by omega)
        hpdp (by omega) (hdelivered ▸ hused)
      rw [← hpdp₀] at hregular hrest'
      have hall := hplays.trans hrest'
      rw [add_sub_cancel] at hall
      have hnonneg : 0 ≤ toI32 (1500 - (l.packet.contents.length - l.bytes_earned)) := by
        rw [hrest]
        omega
      have hregular' : regular now q.pdp
          (toI32 (1500 - (l.packet.contents.length - l.bytes_earned))) delivered = some q' := by
        rw [hrest, ← hpdp₀, hregular]
      exact ⟨q', (if_pos ⟨hnonneg, rfl⟩).trans hregular', hall, hall.ready h hlimbo' hused'⟩
    · -- not yet the whole packet
      rename_i hnot
      rw [if_pos (not_le.mp hnot)]
      have hplays : Plays now 1500 q { q with
          limbo := [{ l with bytes_earned := l.bytes_earned + 1500 }] } := by
        refine ⟨?_, ?_, ?_, rfl, fun _ _ hline => .inl hline, rfl, rfl⟩
        · simp [waiting, hlimbo]
        · intro p hp
          simpa [waiting, hlimbo] using hp
        · simp only [totalBytes, earned, hlimbo, List.map_cons, List.map_nil, List.sum_cons,
            List.sum_nil]
          ring
      exact ⟨_, rfl, hplays, hplays.ready h (.inr ⟨_, rfl, by simp only; omega, not_le.mp hnot⟩)
        h.used_le⟩

theorem Plays.of_schedule (now : UInt64) (q : DelayQueue) (schedule : List UInt64) :
    Plays now 0 q { q with schedule } :=
  ⟨rfl, fun _ h => h, (add_zero _).symm, rfl, fun _ _ h => .inl h, rfl, rfl⟩

/-- The opportunities up to `now` are taken. -/
theorem Ready.execute (h : q.Ready now) (schedule : List UInt64)
    (hroom : q.totalBytes + q.earned + 1500 * schedule.length < 2 ^ 64) :
    ∃ q' taken, execute now schedule q = some q' ∧ taken ≤ schedule.length ∧
      q'.schedule = schedule.drop taken ∧ (∀ ms ∈ schedule.take taken, ms ≤ now) ∧
      (∀ ms ∈ q'.schedule.head?, now < ms) ∧ Plays now (1500 * taken) q q' ∧ q'.Ready now := by
  induction schedule generalizing q with
  | nil =>
    exact ⟨_, 0, rfl, Nat.le_refl 0, rfl, nofun, nofun, Plays.of_schedule now q [], { h with }⟩
  | cons ms schedule ih =>
    rw [DelayQueue.execute]
    split
    · rename_i hle
      rw [List.length_cons] at hroom
      push_cast at hroom
      obtain ⟨q₁, hserve, hplays, hready⟩ := h.serve (by omega)
      have htotal := hplays.total
      obtain ⟨q', taken, hexecute, htaken, hdrop, htake, hhead, hplays', hready'⟩ :=
        ih hready (by omega)
      rw [hserve, Option.bind_some]
      refine ⟨q', taken + 1, hexecute, Nat.succ_le_succ htaken, hdrop,
        List.forall_mem_cons.mpr ⟨hle, htake⟩, hhead, ?_, hready'⟩
      have hall := hplays.trans hplays'
      rwa [show (1500 : Int) + 1500 * taken = 1500 * (taken + 1 : Nat) by push_cast; ring] at hall
    · rename_i hgt
      refine ⟨_, 0, rfl, Nat.zero_le _, rfl, nofun, fun m hm => ?_,
        Plays.of_schedule now q (ms :: schedule), { h with }⟩
      cases hm
      exact UInt64.not_le.mp hgt

/-- What is printed about a bin is the same as before. -/
theorem print_spec (h : q.Ready now) (rounds : Nat) : Plays now 0 q (q.print rounds) ∧
    (q.print rounds).Ready now ∧ (q.print rounds).schedule = q.schedule := by
  induction rounds generalizing q with
  | zero => exact ⟨.refl q, h, rfl⟩
  | succ rounds ih =>
    have hplays : Plays now 0 q { q with
        printed := q.printed ++ [.bin q.bin_sec q.used_bytes q.total_bytes]
        total_bytes := 0
        used_bytes := 0
        bin_sec := q.bin_sec + 1 } := by
      refine ⟨rfl, fun _ hp => hp, ?_, ?_, fun t d hline => ?_, rfl, rfl⟩
      · simp [totalBytes, earned, Line.total]
      · simp [usedBytes, Line.used]
      · rcases List.mem_append.mp hline with hline | hline
        · exact .inl hline
        · cases List.mem_singleton.mp hline
    obtain ⟨hplays', hready, hschedule⟩ := ih (hplays.ready h h.limbo (UInt64.le_refl 0))
    exact ⟨hplays.trans hplays', hready, hschedule⟩

/-- Between the calls, also for the packets that are delayed. -/
structure Held (now : UInt64) (q : DelayQueue) : Prop extends Ready now q where
  delay_small : ∀ p ∈ q.delay, p.contents.length + 1500 < 2 ^ 31
  release : ∀ p ∈ q.delay, p.release_time.toNat = p.entry_time.toNat + q.ms_delay.toNat

/-- All contents in the queue, in their order. -/
def contents (q : DelayQueue) : List (List UInt8) :=
  q.delivered ++ (q.waiting ++ q.delay).map DelayedPacket.contents

/-- The packets whose delay is over move to the regular queue. -/
def move (now : UInt64) (q : DelayQueue) : DelayQueue :=
  { q with
    pdp := q.pdp ++ q.delay.takeWhile fun p => p.release_time ≤ now
    delay := q.delay.dropWhile fun p => p.release_time ≤ now }

theorem waiting_move : (q.move now).waiting =
    q.waiting ++ q.delay.takeWhile fun p => p.release_time ≤ now := by
  simp [waiting, move]

theorem contents_move : (q.move now).contents = q.contents := by
  rw [contents, contents, waiting_move, List.append_assoc]
  exact congrArg (fun l => q.delivered ++ (q.waiting ++ l).map DelayedPacket.contents)
    List.takeWhile_append_dropWhile

theorem Held.move (h : q.Held now) : (q.move now).Held now := by
  have htaken : ∀ p ∈ q.delay.takeWhile (fun p => p.release_time ≤ now), p ∈ q.delay :=
    fun p hp => (List.takeWhile_prefix _).subset hp
  have hkept : ∀ p ∈ q.delay.dropWhile (fun p => p.release_time ≤ now), p ∈ q.delay :=
    fun p hp => (List.dropWhile_suffix _).subset hp
  refine ⟨⟨h.limbo, fun p hp => ?_, fun p hp => ?_, h.lines, h.used_le⟩,
    fun p hp => h.delay_small p (hkept p hp), fun p hp => h.release p (hkept p hp)⟩ <;>
    rw [waiting_move] at hp <;> rcases List.mem_append.mp hp with hp | hp
  · exact h.small p hp
  · exact h.delay_small p (htaken p hp)
  · exact h.timely p hp
  · have hreleased := List.mem_takeWhile_imp hp
    rw [decide_eq_true_eq, UInt64.le_iff_toNat_le, h.release p (htaken p hp)] at hreleased
    exact hreleased

theorem head_move {p : DelayedPacket} (hp : p ∈ (q.move now).delay.head?) :
    now < p.release_time := by
  have hnot := List.head?_dropWhile_not (fun p : DelayedPacket => decide (p.release_time ≤ now))
    q.delay
  have hhead : (q.delay.dropWhile fun p => p.release_time ≤ now).head? = some p := hp
  rw [hhead] at hnot
  exact UInt64.not_le.mp (of_decide_eq_false hnot)

/-- What the queue keeps of a packet is not touched while bytes are played. -/
theorem Plays.held (h : Plays now a q q₁) (hq : q.Held now) (hready : q₁.Ready now) :
    q₁.Held now where
  toReady := hready
  delay_small p hp := hq.delay_small p (h.delay ▸ hp)
  release p hp := h.ms_delay ▸ hq.release p (h.delay ▸ hp)

theorem Plays.contents_eq (h : Plays now a q q₁) : q₁.contents = q.contents := by
  rw [contents, contents, List.map_append, List.map_append, ← List.append_assoc,
    ← List.append_assoc, h.fifo, h.delay]

/-- What a tick does. -/
structure TickSpec (now : UInt64) (taken : Nat) (q q' : DelayQueue) : Prop where
  held : q'.Held now
  contents : q'.contents = q.contents
  total : (q'.totalBytes : Int) + q'.earned = q.totalBytes + q.earned + 1500 * taken
  used : q'.usedBytes + (q.delivered.map List.length).sum =
    q.usedBytes + (q'.delivered.map List.length).sum
  taken_le : taken ≤ q.schedule.length
  schedule : q'.schedule = q.schedule.drop taken
  before : ∀ ms ∈ q.schedule.take taken, ms ≤ now
  after : ∀ ms ∈ q'.schedule.head?, now < ms
  delay : q'.delay <:+ q.delay
  released : ∀ p ∈ q'.delay.head?, now < p.release_time
  ms_delay : q'.ms_delay = q.ms_delay

theorem Held.tick (h : q.Held now)
    (hroom : q.totalBytes + q.earned + 1500 * q.schedule.length < 2 ^ 64) :
    ∃ q' taken, q.tick now = some q' ∧ TickSpec now taken q q' := by
  obtain ⟨q₁, taken, hexecute, htaken, hdrop, htake, hhead, hplays, hready⟩ :=
    h.move.execute q.schedule hroom
  obtain ⟨hprint, hready', hschedule⟩ :=
    print_spec hready ((now / 1000).toNat - q₁.bin_sec.toNat)
  have hall := hplays.trans hprint
  rw [add_zero] at hall
  refine ⟨_, taken, congrArg (Option.map _) hexecute, ?_⟩
  exact {
    held := hall.held h.move hready'
    contents := hall.contents_eq.trans contents_move
    total := hall.total
    used := hall.used
    taken_le := htaken
    schedule := hschedule.trans hdrop
    before := htake
    after := hschedule ▸ hhead
    delay := hall.delay ▸ List.dropWhile_suffix _
    released := fun p hp => head_move (hall.delay ▸ hp)
    ms_delay := hall.ms_delay }

/-- After a tick the next opportunity is the first one in the future. -/
theorem TickSpec.head_schedule {taken : Nat} (h : TickSpec now taken q q₁) :
    q₁.schedule.head? = q.schedule.find? (now < ·) := by
  have hbefore : (q.schedule.take taken).find? (now < ·) = none :=
    List.find?_eq_none.mpr fun ms hms hlt =>
      UInt64.not_le.mpr (of_decide_eq_true hlt) (h.before ms hms)
  have hfind : q.schedule.find? (now < ·) = q₁.schedule.find? (now < ·) := by
    conv_lhs => rw [← List.take_append_drop taken q.schedule]
    rw [List.find?_append, hbefore, Option.none_or, h.schedule]
  have hafter := h.after
  rw [hfind]
  cases hschedule : q₁.schedule with
  | nil => rfl
  | cons ms schedule =>
    rw [hschedule] at hafter
    simp [hafter ms rfl]

/-- The time until the first event of a list, as an `int`. -/
def untilFirst (now : UInt64) : List UInt64 → Int
  | [] => INT_MAX
  | front :: _ => toI32 (front - now).toNat

/-- Nothing happens for `w` milliseconds, but then something does, unless `w` is `INT_MAX`. -/
structure Until (now : UInt64) (events : List UInt64) (w : Int) : Prop where
  pos : 0 < w
  le : w ≤ INT_MAX
  before : ∀ e ∈ events, now.toNat + w ≤ e.toNat
  attained : w = INT_MAX ∨ ∃ e ∈ events, (e.toNat : Int) = now.toNat + w

theorem Until.min {events events' : List UInt64} {w w' : Int} (h : Until now events w)
    (h' : Until now events' w') : Until now (events ++ events') (min w w') where
  pos := lt_min h.pos h'.pos
  le := min_le_of_left_le h.le
  before := by
    refine List.forall_mem_append.mpr ⟨fun e he => ?_, fun e he => ?_⟩
    · have := h.before e he
      omega
    · have := h'.before e he
      omega
  attained := by
    rcases le_total w w' with hle | hle
    · rw [min_eq_left hle]
      exact h.attained.imp_right fun ⟨e, he, heq⟩ => ⟨e, List.mem_append_left _ he, heq⟩
    · rw [min_eq_right hle]
      exact h'.attained.imp_right fun ⟨e, he, heq⟩ => ⟨e, List.mem_append_right _ he, heq⟩

theorem untilFirst_spec {events : List UInt64} (hafter : ∀ e ∈ events.head?, now < e)
    (hfits : ∀ e ∈ events.head?, e.toNat < now.toNat + 2 ^ 31)
    (hsorted : events.Pairwise (· ≤ ·)) : Until now events (untilFirst now events) := by
  cases events with
  | nil => exact ⟨(by decide : 0 < INT_MAX), le_rfl, nofun, .inl rfl⟩
  | cons front events =>
    have hlt := UInt64.lt_iff_toNat_lt.mp (hafter front rfl)
    have hfit := hfits front rfl
    have hwait : untilFirst now (front :: events) = (front.toNat - now.toNat : Nat) := by
      rw [untilFirst, UInt64.toNat_sub_of_le _ _ (UInt64.le_iff_toNat_le.mpr (by omega))]
      exact toI32_of_mem (by omega) (by omega)
    rw [hwait]
    refine ⟨by omega, ?_, ?_, .inr ⟨front, List.mem_cons_self, by omega⟩⟩
    · rw [INT_MAX]
      omega
    · refine List.forall_mem_cons.mpr ⟨by omega, fun e he => ?_⟩
      have hle := UInt64.le_iff_toNat_le.mp (List.rel_of_pairwise_cons hsorted he)
      omega

theorem wait_time_eq (htick : q.tick now = some q₁)
    (hdelay : 0 ≤ untilFirst now (q₁.delay.map DelayedPacket.release_time))
    (hschedule : 0 ≤ untilFirst now q₁.schedule) : q.wait_time now =
      some (min (untilFirst now (q₁.delay.map DelayedPacket.release_time))
        (untilFirst now q₁.schedule), q₁) := by
  rw [wait_time, htick, Option.bind_some]
  cases hd : q₁.delay with
  | nil =>
    cases hs : q₁.schedule with
    | nil => rfl
    | cons next schedule =>
      rw [hs] at hschedule
      exact if_pos hschedule
  | cons front delay =>
    rw [hd, List.map_cons, untilFirst] at hdelay
    simp only [List.map_cons, untilFirst, max_eq_right hdelay]
    cases hs : q₁.schedule with
    | nil => rfl
    | cons next schedule =>
      rw [hs] at hschedule
      exact if_pos hschedule

theorem load_spec {base_timestamp : UInt64} {file acc schedule : List UInt64}
    (h : load base_timestamp file acc = some schedule) (hacc : acc.Pairwise (· ≤ ·)) :
    schedule = acc ++ file.map (· + base_timestamp) ∧ schedule.Pairwise (· ≤ ·) := by
  induction file generalizing acc with
  | nil =>
    obtain rfl : acc = schedule := Option.some.inj h
    exact ⟨(List.append_nil acc).symm, hacc⟩
  | cons ms file ih =>
    rw [load] at h
    obtain ⟨hback, hload⟩ := Option.ite_none_right_eq_some.mp h
    have htrans : IsTrans UInt64 (· ≤ ·) := ⟨fun _ _ _ => UInt64.le_trans⟩
    have hchain : (acc ++ [ms + base_timestamp]).Pairwise (· ≤ ·) := by
      rw [← List.isChain_iff_pairwise, List.isChain_append]
      refine ⟨hacc.isChain, .singleton _, fun back hlast m hm => ?_⟩
      cases hm
      exact of_decide_eq_true ((Option.all_eq_true _ _).mp hback back hlast)
    obtain ⟨rfl, hsorted⟩ := ih hload hchain
    exact ⟨by simp, hsorted⟩

end DelayQueue

namespace Emulator

/-- Time does not go backwards, sums do not overflow, and nobody waits for an opportunity more than
`INT_MAX` milliseconds ahead. -/
def Fits (s : Emulator) : Action → Prop
  | .freeze_timestamp timestamp => s.timestamp ≤ timestamp
  | .write packet => packet.length + 1500 < 2 ^ 31 ∧
      s.timestamp.toNat + s.queue.ms_delay.toNat < 2 ^ 64
  | .read => True
  | .wait_time => ∀ ms ∈ s.queue.schedule.find? (s.timestamp < ·),
      ms.toNat < s.timestamp.toNat + 2 ^ 31

instance (s : Emulator) : ∀ a, Decidable (Fits s a)
  | .freeze_timestamp timestamp => inferInstanceAs (Decidable (s.timestamp ≤ timestamp))
  | .write packet => inferInstanceAs (Decidable (packet.length + 1500 < 2 ^ 31 ∧
      s.timestamp.toNat + s.queue.ms_delay.toNat < 2 ^ 64))
  | .read => .isTrue trivial
  | .wait_time => Option.decidableForallMem (s.queue.schedule.find? (s.timestamp < ·))

/-- The first `taken` opportunities of the first queue's schedule are accounted for. -/
structure Accounts (first : DelayQueue) (taken : Nat) (s : Emulator) : Prop where
  held : s.queue.Held s.timestamp
  fifo : s.received ++ s.queue.contents = s.written
  used : s.queue.usedBytes = ((s.received ++ s.queue.delivered).map List.length).sum
  total : (s.queue.totalBytes : Int) + s.queue.earned = 1500 * taken
  taken_le : taken ≤ first.schedule.length
  schedule : s.queue.schedule = first.schedule.drop taken
  before : ∀ ms ∈ first.schedule.take taken, ms ≤ s.timestamp
  ms_delay : s.queue.ms_delay = first.ms_delay
  entered : ∀ p ∈ s.queue.delay, p.entry_time ≤ s.timestamp
  sorted : s.queue.delay.Pairwise fun p p' => p.release_time ≤ p'.release_time

variable {first : DelayQueue} {taken : Nat} {s : Emulator}

theorem Accounts.tick (h : s.Accounts first taken) (hsize : 1500 * first.schedule.length < 2 ^ 64) :
    ∃ q more, s.queue.tick s.timestamp = some q ∧ DelayQueue.TickSpec s.timestamp more s.queue q ∧
      Accounts first (taken + more) { s with queue := q } := by
  have hlength : s.queue.schedule.length = first.schedule.length - taken := by
    rw [h.schedule, List.length_drop]
  have htaken := h.taken_le
  have htotal := h.total
  obtain ⟨q, more, htick, hspec⟩ := h.held.tick (by omega)
  have hmore := hspec.taken_le
  have htotal' := hspec.total
  refine ⟨q, more, htick, hspec, hspec.held, ?_, ?_, ?_, by omega, ?_, ?_,
    hspec.ms_delay.trans h.ms_delay, fun p hp => h.entered p (hspec.delay.subset hp),
    h.sorted.sublist hspec.delay.sublist⟩
  · rw [hspec.contents, h.fifo]
  · have hused := hspec.used
    have hused₀ := h.used
    rw [List.map_append, List.sum_append] at hused₀ ⊢
    change q.usedBytes = (s.received.map List.length).sum + (q.delivered.map List.length).sum
    omega
  · push_cast
    omega
  · rw [hspec.schedule, h.schedule, List.drop_drop]
  · intro ms hms
    rw [List.take_add, List.mem_append] at hms
    rcases hms with hms | hms
    · exact h.before ms hms
    · exact hspec.before ms (h.schedule ▸ hms)

theorem Accounts.freeze_timestamp (h : s.Accounts first taken) {timestamp : UInt64}
    (hle : s.timestamp ≤ timestamp) : Accounts first taken { s with timestamp } where
  held := { h.held with timely := fun p hp =>
    (h.held.timely p hp).trans (UInt64.le_iff_toNat_le.mp hle) }
  fifo := h.fifo
  used := h.used
  total := h.total
  taken_le := h.taken_le
  schedule := h.schedule
  before ms hms := UInt64.le_trans (h.before ms hms) hle
  ms_delay := h.ms_delay
  entered p hp := UInt64.le_trans (h.entered p hp) hle
  sorted := h.sorted

theorem Accounts.write (h : s.Accounts first taken) {packet : List UInt8}
    (hsmall : packet.length + 1500 < 2 ^ 31)
    (hroom : s.timestamp.toNat + s.queue.ms_delay.toNat < 2 ^ 64) :
    Accounts first taken { s with
      queue := s.queue.write s.timestamp packet
      written := s.written ++ [packet] } := by
  have hrelease : (s.timestamp + s.queue.ms_delay).toNat =
      s.timestamp.toNat + s.queue.ms_delay.toNat := by
    rw [UInt64.toNat_add]
    omega
  refine ⟨{ h.held with delay_small := ?_, release := ?_ }, ?_, h.used, h.total, h.taken_le,
    h.schedule, h.before, h.ms_delay, ?_, ?_⟩
  · exact List.forall_mem_append.mpr ⟨h.held.delay_small, List.forall_mem_singleton.mpr hsmall⟩
  · exact List.forall_mem_append.mpr ⟨h.held.release, List.forall_mem_singleton.mpr hrelease⟩
  · rw [← h.fifo]
    simp [DelayQueue.contents, DelayQueue.waiting, DelayQueue.write]
  · exact List.forall_mem_append.mpr
      ⟨h.entered, List.forall_mem_singleton.mpr (UInt64.le_refl s.timestamp)⟩
  · refine List.pairwise_append.mpr ⟨h.sorted, List.pairwise_singleton _ _, fun p hp p' hp' => ?_⟩
    rw [List.mem_singleton.mp hp', UInt64.le_iff_toNat_le, hrelease, h.held.release p hp]
    exact Nat.add_le_add_right (UInt64.le_iff_toNat_le.mp (h.entered p hp)) _

/-- What a reader sees. -/
theorem Accounts.read (h : s.Accounts first taken) (hsize : 1500 * first.schedule.length < 2 ^ 64) :
    ∃ t more, s.step .read = some t ∧ t.Accounts first (taken + more) ∧ t.queue.delivered = [] ∧
      ∀ ms ∈ t.queue.schedule.head?, t.timestamp < ms := by
  obtain ⟨q, more, htick, hspec, haccounts⟩ := h.tick hsize
  refine ⟨{ s with
    queue := { q with delivered := [] }
    received := s.received ++ q.delivered }, more, ?_, ⟨{ haccounts.held with }, ?_, ?_,
    haccounts.total, haccounts.taken_le, haccounts.schedule, haccounts.before, haccounts.ms_delay,
    haccounts.entered, haccounts.sorted⟩, rfl, hspec.after⟩
  · rw [step, DelayQueue.read, htick]
    rfl
  · have hfifo := haccounts.fifo
    simpa [DelayQueue.contents, DelayQueue.waiting] using hfifo
  · have hused := haccounts.used
    change q.usedBytes = ((s.received ++ q.delivered ++ []).map List.length).sum
    rw [List.append_nil, hused]

/-- The time until the next event. -/
theorem Accounts.wait_time (h : s.Accounts first taken)
    (hsize : 1500 * first.schedule.length < 2 ^ 64) (hsorted : first.schedule.Pairwise (· ≤ ·))
    (hms : first.ms_delay.toNat < 2 ^ 31) (hfits : Fits s .wait_time) :
    ∃ w q more, s.queue.wait_time s.timestamp = some (w, q) ∧
      Accounts first (taken + more) { s with queue := q } ∧
      DelayQueue.Until s.timestamp (q.delay.map DelayedPacket.release_time ++ q.schedule) w := by
  obtain ⟨q, more, htick, hspec, haccounts⟩ := h.tick hsize
  rw [Fits, ← hspec.head_schedule] at hfits
  have hschedule := DelayQueue.untilFirst_spec hspec.after hfits
    (haccounts.schedule ▸ hsorted.sublist (List.drop_sublist _ _))
  have hdelay : DelayQueue.Until s.timestamp (q.delay.map DelayedPacket.release_time)
      (DelayQueue.untilFirst s.timestamp (q.delay.map DelayedPacket.release_time)) := by
    apply DelayQueue.untilFirst_spec
    · simpa using hspec.released
    · intro ms hhead
      rw [List.head?_map] at hhead
      obtain ⟨p, hp, rfl⟩ := Option.map_eq_some_iff.mp hhead
      have hmem := List.mem_of_mem_head? hp
      have hle : p.entry_time.toNat ≤ s.timestamp.toNat :=
        UInt64.le_iff_toNat_le.mp (haccounts.entered p hmem)
      have hrelease := haccounts.held.release p hmem
      rw [show q.ms_delay = first.ms_delay from haccounts.ms_delay] at hrelease
      omega
    · exact List.pairwise_map.mpr haccounts.sorted
  refine ⟨_, q, more, ?_, haccounts, hdelay.min hschedule⟩
  exact DelayQueue.wait_time_eq htick hdelay.pos.le hschedule.pos.le

theorem Accounts.next (h : s.Accounts first taken) (hsize : 1500 * first.schedule.length < 2 ^ 64)
    (hsorted : first.schedule.Pairwise (· ≤ ·)) (hms : first.ms_delay.toNat < 2 ^ 31) (a : Action)
    (hfits : Fits s a) : ∃ t, s.step a = some t ∧ ∃ taken, t.Accounts first taken := by
  cases a with
  | freeze_timestamp timestamp => exact ⟨_, rfl, taken, h.freeze_timestamp hfits⟩
  | write packet => exact ⟨_, rfl, taken, h.write hfits.1 hfits.2⟩
  | read =>
    obtain ⟨t, more, hstep, haccounts, -⟩ := h.read hsize
    exact ⟨t, hstep, taken + more, haccounts⟩
  | wait_time =>
    obtain ⟨w, q, more, hwait, haccounts, -⟩ := h.wait_time hsize hsorted hms hfits
    exact ⟨_, congrArg (Option.map _) hwait, taken + more, haccounts⟩

theorem accounts_start {ms_delay base_timestamp timestamp : UInt64} {file : List UInt64}
    (hstart : start ms_delay file base_timestamp timestamp = some s) :
    s.Accounts s.queue 0 ∧ s.queue.schedule = file.map (· + base_timestamp) ∧
      s.queue.schedule.Pairwise (· ≤ ·) ∧ s.queue.ms_delay = ms_delay := by
  obtain ⟨queue, hnew, rfl⟩ := Option.map_eq_some_iff.mp hstart
  obtain ⟨schedule, hload, rfl⟩ := Option.map_eq_some_iff.mp hnew
  obtain ⟨hfile, hsorted⟩ := DelayQueue.load_spec hload .nil
  exact ⟨⟨⟨⟨.inl rfl, nofun, nofun, nofun, UInt64.le_refl 0⟩, nofun, nofun⟩, rfl, rfl, rfl,
    Nat.zero_le _, rfl, nofun, rfl, nofun, .nil⟩, hfile, hsorted, rfl⟩

theorem Accounts.runs (h : s.Accounts first taken) (hsize : 1500 * first.schedule.length < 2 ^ 64)
    (hsorted : first.schedule.Pairwise (· ≤ ·)) (hms : first.ms_delay.toNat < 2 ^ 31)
    {as : List Action} (hfits : Guarded step Fits s as) :
    ∃ t taken, run step s as = some t ∧ t.Accounts first taken := by
  obtain ⟨t, hrun, taken, ht⟩ := hfits.total
    (I := fun s => ∃ taken, s.Accounts first taken)
    (fun s a ⟨taken, h⟩ => h.next hsize hsorted hms a) ⟨taken, h⟩
  exact ⟨t, taken, hrun, ht⟩

/-- The opportunities up to the present are the ones that are taken. -/
theorem Accounts.taken_eq (h : s.Accounts first taken)
    (hafter : ∀ ms ∈ s.queue.schedule.head?, s.timestamp < ms)
    (hsorted : first.schedule.Pairwise (· ≤ ·)) :
    taken = first.schedule.countP (· ≤ s.timestamp) := by
  have htake : (first.schedule.take taken).countP (· ≤ s.timestamp) = taken := by
    rw [List.countP_eq_length.mpr fun ms hms => decide_eq_true (h.before ms hms),
      List.length_take_of_le h.taken_le]
  have hdrop : (first.schedule.drop taken).countP (· ≤ s.timestamp) = 0 := by
    have hsorted' := hsorted.sublist (List.drop_sublist taken _)
    rw [← h.schedule] at hsorted' ⊢
    refine List.countP_eq_zero.mpr fun ms hms hle => ?_
    have hle := of_decide_eq_true hle
    cases hschedule : s.queue.schedule with
    | nil =>
      rw [hschedule] at hms
      cases hms
    | cons front schedule =>
      rw [hschedule] at hms hsorted' hafter
      have hlt := hafter front rfl
      rcases List.mem_cons.mp hms with rfl | hms
      · exact UInt64.not_le.mpr hlt hle
      · exact UInt64.not_le.mpr hlt
          (UInt64.le_trans (List.rel_of_pairwise_cons hsorted' hms) hle)
  conv_rhs => rw [← List.take_append_drop taken first.schedule]
  rw [List.countP_append, htake, hdrop, add_zero]

/-- **The emulated link.** In every run no assertion fails, and the packets are read in the order in
which they were written, none is lost and none is there twice. None is delivered before its delay is
over. After a read the bytes of all bins and what a part of a packet has earned are 1500 bytes for
each opportunity up to the present, and the used bytes are those of the packets that were read. -/
theorem run_accounts {ms_delay base_timestamp timestamp : UInt64} {file : List UInt64}
    {as : List Action} (hstart : start ms_delay file base_timestamp timestamp = some s)
    (hsize : 1500 * file.length < 2 ^ 64) (hms : ms_delay.toNat < 2 ^ 31)
    (hfits : Guarded step Fits s as) :
    ∃ t, run step s (as ++ [.read]) = some t ∧
      t.received ++ (t.queue.waiting ++ t.queue.delay).map DelayedPacket.contents = t.written ∧
      (∀ now d, Line.delivery now d ∈ t.queue.printed → ms_delay ≤ d) ∧
      (t.queue.totalBytes : Int) + t.queue.earned =
        1500 * file.countP (fun ms => ms + base_timestamp ≤ t.timestamp) ∧
      t.queue.usedBytes = (t.received.map List.length).sum := by
  obtain ⟨haccounts, hfile, hsorted, hms_delay⟩ := accounts_start hstart
  have hsize' : 1500 * s.queue.schedule.length < 2 ^ 64 := by
    rwa [hfile, List.length_map]
  obtain ⟨u, taken, hrun, hu⟩ := haccounts.runs hsize' hsorted (hms_delay ▸ hms) hfits
  obtain ⟨t, more, hread, ht, hdelivered, hafter⟩ := hu.read hsize'
  have hfifo := ht.fifo
  have hused := ht.used
  rw [DelayQueue.contents, hdelivered, List.nil_append] at hfifo
  rw [hdelivered, List.append_nil] at hused
  refine ⟨t, (run_concat hrun).trans hread, hfifo, fun now d hline => ?_, ?_, hused⟩
  · rw [← hms_delay, ← ht.ms_delay]
    exact ht.held.lines now d hline
  · rw [ht.total, ht.taken_eq hafter hsorted, hfile, List.countP_map]
    rfl

theorem run_accounts_read : ∃ s t, start 20 [10, 40, 90] 100 100 = some s ∧
    run step s ([.write [1, 2, 3], .freeze_timestamp 150] ++ [.read]) = some t ∧
    (t.queue.totalBytes : Int) + t.queue.earned = 1500 * 2 := by
  obtain ⟨s, hstart⟩ : ∃ s, start 20 [10, 40, 90] 100 100 = some s := ⟨_, rfl⟩
  have hfits : Guarded step Fits s [.write [1, 2, 3], .freeze_timestamp 150] := by
    cases hstart
    decide
  obtain ⟨t, hrun, -, -, htotal, -⟩ := run_accounts hstart (by decide) (by decide) hfits
  have htimestamp : t.timestamp = 150 := by
    cases hstart
    cases hrun
    rfl
  rw [htimestamp] at htotal
  exact ⟨s, t, hstart, hrun, htotal⟩

/-- The emulator sleeps exactly until the next packet is released or the next opportunity comes. -/
theorem run_waits {ms_delay base_timestamp timestamp : UInt64} {file : List UInt64}
    {as : List Action} (hstart : start ms_delay file base_timestamp timestamp = some s)
    (hsize : 1500 * file.length < 2 ^ 64) (hms : ms_delay.toNat < 2 ^ 31)
    (hfits : Guarded step Fits s (as ++ [.wait_time])) :
    ∃ t w q, run step s as = some t ∧ t.queue.wait_time t.timestamp = some (w, q) ∧
      DelayQueue.Until t.timestamp (q.delay.map DelayedPacket.release_time ++ q.schedule) w := by
  obtain ⟨haccounts, hfile, hsorted, hms_delay⟩ := accounts_start hstart
  have hsize' : 1500 * s.queue.schedule.length < 2 ^ 64 := by
    rwa [hfile, List.length_map]
  rw [← hms_delay] at hms
  obtain ⟨t, taken, hrun, ht⟩ := haccounts.runs hsize' hsorted hms hfits.left
  obtain ⟨w, q, more, hwait, -, huntil⟩ :=
    ht.wait_time hsize' hsorted hms (hfits.right hrun).1
  exact ⟨t, w, q, hrun, hwait, huntil⟩

theorem run_waits_written : ∃ s t w q, start 20 [10, 40, 90] 100 100 = some s ∧
    run step s [.write [1, 2, 3]] = some t ∧ t.queue.wait_time t.timestamp = some (w, q) ∧
    DelayQueue.Until t.timestamp (q.delay.map DelayedPacket.release_time ++ q.schedule) w := by
  obtain ⟨s, hstart⟩ : ∃ s, start 20 [10, 40, 90] 100 100 = some s := ⟨_, rfl⟩
  have hfits : Guarded step Fits s ([.write [1, 2, 3]] ++ [.wait_time]) := by
    cases hstart
    decide
  obtain ⟨t, w, q, h⟩ := run_waits hstart (by decide) (by decide) hfits
  exact ⟨s, t, w, q, hstart, h⟩

end Emulator

end ALCC.CellSim
