import ALCC.Model.Ctcp
import ALCC.Theory.Run
import Mathlib.Algebra.BigOperators.Group.List.Basic
import Mathlib.Tactic.Linarith
import Mathlib.Tactic.Ring

/-! A flow of `ctcp.hh` over any network. The congestion controller hears of its own packets alone,
each report and each sample is true, and the packets past the largest acknowledgement do not exceed
the window by more than a train (`flow_safe`), in flows of fewer than `2 ^ 31` packets. -/

namespace ALCC.Ctcp

open Binary64 Machine

variable {ω : Type*} {W : CCC ω} {p : Params} {B : Nat} {now : ℚ}

/-- A packet of another flow or of a handshake. -/
def Foreign (p : Params) (h : TCPHeader) : Prop := h.src_id ≠ p.src_id ∨ h.flow_id ≠ p.flow_id

instance : DecidablePred (Foreign p) := fun _ => inferInstanceAs (Decidable (_ ∨ _))

namespace Sender

variable {s t : Sender ω}

/-- What the receiver sends back of this flow are copies of its packets. -/
def Echoes (p : Params) (s : Sender ω) (h : TCPHeader) : Prop :=
  Foreign p h ∨ ∃ x ∈ s.sent, h = { x with receiver_timestamp := h.receiver_timestamp }

/-- The sample is the true age of the first packet of a train that has been reported. -/
def Genuine (p : Params) (s : Sender ω) (x : Sample) : Prop :=
  ∃ k : Nat, (k : Int) ∈ s.reports ∧ x.ack = ((k * p.train_length + 1) / p.train_length : Nat) ∧
    (∃ h ∈ s.sent, h.seq_num = (k * p.train_length : Nat) ∧ h.sender_timestamp = x.sent_time) ∧
    x.sent_time ≤ x.taken_at ∧ x.taken_at ≤ s.cur_time

/-- The packets of the train that is not complete, or those of a whole one. -/
def inTrain (p : Params) (s : Sender ω) : Nat :=
  if s.seq_num % p.train_length = 0 then p.train_length else s.seq_num % p.train_length

/-- The sender as it should be, where `B` bounds the window. -/
structure Safe (p : Params) (B : Nat) (s : Sender ω) : Prop where
  length : s.sent.length = s.seq_num
  numbered : ∀ (i : Nat) (x : TCPHeader), s.sent[i]? = some x →
    x.seq_num = i ∧ x.flow_id = p.flow_id ∧ x.src_id = p.src_id
  times : s.sent.Pairwise (·.sender_timestamp ≤ ·.sender_timestamp)
  past : ∀ x ∈ s.sent, x.sender_timestamp ≤ s.cur_time
  reports : s.reports =
    (List.range ((s.seq_num + p.train_length - 1) / p.train_length)).map (Nat.cast : Nat → Int)
  samples : ∀ x ∈ s.samples, s.Genuine p x
  buf : s.Echoes p s.buf
  largest_ack : -1 ≤ s.largest_ack ∧ s.largest_ack ≤ s.seq_num
  window : (s.seq_num : Int) ≤ s.largest_ack + B + s.inTrain p
  aligned : s.pc ≠ .inner → s.seq_num % p.train_length = 0
  last_recv_time : s.last_recv_time ≠ 0 → s.last_recv_time ≤ s.cur_time
  link_rate_estimate : 0 ≤ s.link_rate_estimate

theorem start_safe {congctrl : ω} {buf : TCPHeader} {t₀ t₁ : ℚ} (hbuf : Foreign p buf)
    (hT : 0 < p.train_length) : (start W congctrl buf t₀ t₁).Safe p B where
  length := rfl
  numbered i x h := by cases h
  times := .nil
  past x h := by cases h
  reports := by
    change [] = _
    rw [show (start W congctrl buf t₀ t₁).seq_num = 0 from rfl, Nat.div_eq_of_lt (by omega)]
    rfl
  samples x h := by cases h
  buf := .inl hbuf
  largest_ack := ⟨le_rfl, by simp [start]⟩
  window := by
    have htrain : (start W congctrl buf t₀ t₁).inTrain p = p.train_length := if_pos (Nat.zero_mod _)
    rw [htrain]
    change (0 : Int) ≤ -1 + B + p.train_length
    omega
  aligned _ := Nat.zero_mod _
  last_recv_time h := absurd rfl h
  link_rate_estimate := le_rfl

/-! ## What leaves the records alone -/

/-- The records are the same, and time does not go back. -/
structure Frame (s t : Sender ω) : Prop where
  sent : t.sent = s.sent
  seq_num : t.seq_num = s.seq_num
  reports : t.reports = s.reports
  cur_time : s.cur_time ≤ t.cur_time

theorem Echoes.mono {h : TCPHeader} (hs : s.Echoes p h) (hsent : s.sent ⊆ t.sent) :
    t.Echoes p h :=
  hs.imp_right fun ⟨x, hx, heq⟩ => ⟨x, hsent hx, heq⟩

theorem Genuine.mono {x : Sample} (h : s.Genuine p x) (hsent : s.sent ⊆ t.sent)
    (hreports : s.reports ⊆ t.reports) (htime : s.cur_time ≤ t.cur_time) : t.Genuine p x := by
  obtain ⟨k, hk, hack, ⟨y, hy, hseq, hts⟩, hle, hcur⟩ := h
  exact ⟨k, hreports hk, hack, ⟨y, hsent hy, hseq, hts⟩, hle, hcur.trans htime⟩

theorem Safe.frame (h : s.Safe p B) (hf : Frame s t) (hbuf : t.Echoes p t.buf)
    (hsamples : ∀ x ∈ t.samples, t.Genuine p x)
    (hack : s.largest_ack ≤ t.largest_ack ∨ t.largest_ack = s.seq_num - 1)
    (hle : t.largest_ack ≤ s.seq_num) (hpc : t.pc ≠ .inner → s.seq_num % p.train_length = 0)
    (hT : 0 < p.train_length) (hrecv : t.last_recv_time ≠ 0 → t.last_recv_time ≤ t.cur_time)
    (hestimate : 0 ≤ t.link_rate_estimate) : t.Safe p B where
  length := by rw [hf.sent, hf.seq_num, h.length]
  numbered := by
    rw [hf.sent]
    exact h.numbered
  times := by
    rw [hf.sent]
    exact h.times
  past x hx := (h.past x (hf.sent ▸ hx)).trans hf.cur_time
  reports := by rw [hf.reports, hf.seq_num, h.reports]
  samples := hsamples
  buf := hbuf
  largest_ack := by
    have := h.largest_ack
    rw [hf.seq_num]
    omega
  window := by
    have hwindow := h.window
    have hpos : 0 < s.inTrain p := by
      rw [inTrain]
      split <;> omega
    rw [show t.inTrain p = s.inTrain p by rw [inTrain, inTrain, hf.seq_num], hf.seq_num]
    omega
  aligned hpc' := by
    rw [hf.seq_num]
    exact hpc hpc'
  last_recv_time := hrecv
  link_rate_estimate := hestimate

/-- A step that neither sends nor takes an acknowledgement. -/
theorem Safe.quiet (h : s.Safe p B) (hT : 0 < p.train_length) (hf : Frame s t)
    (hbuf : t.buf = s.buf) (hsamples : t.samples = s.samples)
    (hack : t.largest_ack = s.largest_ack ∨ t.largest_ack = s.seq_num - 1)
    (hpc : t.pc ≠ .inner → s.seq_num % p.train_length = 0)
    (hrecv : t.last_recv_time = s.last_recv_time)
    (hestimate : t.link_rate_estimate = s.link_rate_estimate) : t.Safe p B := by
  have hsent : s.sent ⊆ t.sent := by rw [hf.sent]; exact List.Subset.refl _
  have hreports : s.reports ⊆ t.reports := by rw [hf.reports]; exact List.Subset.refl _
  refine h.frame hf ?_ ?_ (hack.imp_left fun h => h.ge) ?_ hpc hT ?_ ?_
  · rw [hbuf]
    exact h.buf.mono hsent
  · rw [hsamples]
    exact fun x hx => (h.samples x hx).mono hsent hreports hf.cur_time
  · have := h.largest_ack
    omega
  · rw [hrecv]
    exact fun hne => (h.last_recv_time hne).trans hf.cur_time
  · rw [hestimate]
    exact h.link_rate_estimate

theorem Safe.turn (h : s.Safe p B) (hT : 0 < p.train_length) (hpc : s.pc = .outer)
    (hnow : s.cur_time ≤ now) : (s.turn W p now).Safe p B := by
  have haligned := h.aligned (by rw [hpc]; simp)
  rw [Sender.turn]
  split
  · dsimp only
    split
    · split
      · exact h.quiet hT ⟨rfl, rfl, rfl, hnow⟩ rfl rfl (.inr rfl) (fun _ => haligned) rfl rfl
      · exact h.quiet hT ⟨rfl, rfl, rfl, hnow⟩ rfl rfl (.inl rfl) (fun _ => haligned) rfl rfl
    · exact h.quiet hT ⟨rfl, rfl, rfl, hnow⟩ rfl rfl (.inl rfl) (fun _ => haligned) rfl rfl
  · exact h.quiet hT ⟨rfl, rfl, rfl, le_rfl⟩ rfl rfl (.inl rfl) (fun _ => haligned) rfl rfl

theorem aligned_of_not_ready (h : ¬ s.Ready W p) : s.seq_num % p.train_length = 0 := by
  rw [Ready, not_or, not_not] at h
  exact h.2

theorem Safe.catchUp (h : s.Safe p B) (hT : 0 < p.train_length) (hready : ¬ s.Ready W p) :
    (s.catchUp W p).Safe p B := by
  have haligned := aligned_of_not_ready hready
  rw [Sender.catchUp]
  split <;>
    exact h.quiet hT ⟨rfl, rfl, rfl, le_rfl⟩ rfl rfl (.inl rfl) (fun _ => haligned) rfl rfl

theorem Safe.poll (h : s.Safe p B) (hT : 0 < p.train_length) (hpc : s.pc = .polling)
    (hnow : s.cur_time ≤ now) : (s.poll W p now).Safe p B :=
  h.quiet hT ⟨rfl, rfl, rfl, hnow⟩ rfl rfl (.inl rfl) (fun _ => h.aligned (by rw [hpc]; simp)) rfl
    rfl

theorem Safe.timedOut {timeout : Int} (h : s.Safe p B) (hT : 0 < p.train_length)
    (hpc : s.pc = .waiting timeout) (hnow : s.cur_time ≤ now) : (s.timedOut W now).Safe p B := by
  have haligned := h.aligned (by rw [hpc]; simp)
  rw [Sender.timedOut]
  dsimp only
  split <;>
    exact h.quiet hT ⟨rfl, rfl, rfl, hnow⟩ rfl rfl (.inl rfl) (fun _ => haligned) rfl rfl

theorem Safe.finish (h : s.Safe p B) (hT : 0 < p.train_length) (hpc : s.pc = .closing)
    (hnow : s.cur_time ≤ now) : (s.finish W now).Safe p B :=
  h.quiet hT ⟨rfl, rfl, rfl, hnow⟩ rfl rfl (.inl rfl) (fun _ => h.aligned (by rw [hpc]; simp)) rfl
    rfl

/-! ## A packet is sent -/

theorem send_seq_num (s : Sender ω) : (s.send W p).seq_num = s.seq_num + 1 := by
  rw [send]
  dsimp only
  split <;> rfl

theorem send_sent (s : Sender ω) : (s.send W p).sent = s.sent ++ [s.header p] := by
  rw [send]
  dsimp only
  split <;> rfl

theorem send_reports (s : Sender ω) : (s.send W p).reports =
    if s.seq_num % p.train_length = 0 then
      s.reports ++ [((s.seq_num / p.train_length : Nat) : Int)]
    else s.reports := by
  rw [send]
  dsimp only
  split <;> rfl

/-- What the body of the inner `while` leaves alone. -/
theorem send_kept (s : Sender ω) : (s.send W p).buf = s.header p ∧
    (s.send W p).cur_time = s.cur_time ∧ (s.send W p).samples = s.samples ∧
    (s.send W p).largest_ack = s.largest_ack ∧ (s.send W p).pc = s.pc ∧
    (s.send W p).last_recv_time = s.last_recv_time ∧
    (s.send W p).link_rate_estimate = s.link_rate_estimate := by
  rw [send]
  dsimp only
  split <;> exact ⟨rfl, rfl, rfl, rfl, rfl, rfl, rfl⟩

/-- The number of trains begun is that of the complete ones, and one more within a train. -/
theorem trains_eq {n T : Nat} (hT : 0 < T) :
    (n + T - 1) / T = if n % T = 0 then n / T else n / T + 1 := by
  have hn := Nat.div_add_mod n T
  have hlt := Nat.mod_lt n hT
  split
  · exact Nat.div_eq_of_lt_le (by rw [Nat.mul_comm]; omega)
      (by rw [Nat.add_mul, Nat.mul_comm (n / T)]; omega)
  · exact Nat.div_eq_of_lt_le (by rw [Nat.add_mul, Nat.mul_comm (n / T)]; omega)
      (by rw [Nat.add_mul, Nat.add_mul, Nat.mul_comm (n / T)]; omega)

theorem succ_mod {n T : Nat} (hT : 0 < T) :
    (n + 1) % T = if n % T + 1 = T then 0 else n % T + 1 := by
  have hlt := Nat.mod_lt n hT
  rw [← Nat.mod_add_mod]
  split
  · rename_i h
    rw [h, Nat.mod_self]
  · exact Nat.mod_eq_of_lt (by omega)

theorem Safe.reports_send (h : s.Safe p B) (hT : 0 < p.train_length) :
    (s.send W p).reports =
      (List.range ((s.seq_num + 1 + p.train_length - 1) / p.train_length)).map
        (Nat.cast : Nat → Int) := by
  rw [send_reports, h.reports, trains_eq hT,
    show s.seq_num + 1 + p.train_length - 1 = s.seq_num + p.train_length by omega,
    Nat.add_div_right _ hT]
  split
  · rw [List.range_succ, List.map_append]
    rfl
  · rfl

/-- The window is open, or the packet completes a train. -/
theorem Safe.window_send (h : s.Safe p B) (hT : 0 < p.train_length) (hready : s.Ready W p)
    (hB : W.get_the_window s.congctrl ≤ B) :
    (s.seq_num + 1 : Int) ≤ s.largest_ack + B + (s.send W p).inTrain p := by
  have hwindow := h.window
  have hlt := Nat.mod_lt s.seq_num hT
  rw [inTrain, send_seq_num, succ_mod hT]
  by_cases haligned : s.seq_num % p.train_length = 0
  · obtain ⟨hopen, -⟩ | hodd := hready
    · have hopen : (s.seq_num : ℚ) < (s.largest_ack + 1 + B : Int) := by
        push_cast
        linarith
      have hopen : (s.seq_num : Int) < s.largest_ack + 1 + B := by exact_mod_cast hopen
      rw [haligned]
      split_ifs <;> omega
    · exact absurd haligned hodd
  · rw [inTrain, if_neg haligned] at hwindow
    split_ifs <;> omega

theorem Safe.send (h : s.Safe p B) (hT : 0 < p.train_length) (hpc : s.pc = .inner)
    (hready : s.Ready W p) (hB : W.get_the_window s.congctrl ≤ B) : (s.send W p).Safe p B := by
  obtain ⟨hbuf, htime, hsamples, hack, hpc', hrecv, hestimate⟩ := send_kept (W := W) (p := p) s
  have hsent := send_sent (W := W) (p := p) s
  have hseq := send_seq_num (W := W) (p := p) s
  have hsub : s.sent ⊆ (s.send W p).sent := by
    rw [hsent]
    exact List.subset_append_left ..
  constructor
  case length => rw [hsent, hseq, List.length_append, h.length, List.length_singleton]
  case numbered =>
    intro i x hx
    rw [hsent] at hx
    rcases Nat.lt_or_ge i s.sent.length with hlt | hge
    · rw [List.getElem?_append_left hlt] at hx
      exact h.numbered i x hx
    · rw [List.getElem?_append_right hge, List.getElem?_singleton] at hx
      obtain ⟨hzero, hx⟩ := Option.ite_none_right_eq_some.mp hx
      cases hx
      refine ⟨?_, rfl, rfl⟩
      have := h.length
      change (s.seq_num : Int) = i
      omega
  case times =>
    rw [hsent, List.pairwise_append]
    refine ⟨h.times, List.pairwise_singleton .., fun x hx y hy => ?_⟩
    rw [List.mem_singleton.mp hy]
    exact h.past x hx
  case past =>
    intro x hx
    rw [htime]
    rw [hsent] at hx
    rcases List.mem_append.mp hx with hx | hx
    · exact h.past x hx
    · rw [List.mem_singleton.mp hx]
      exact le_rfl
  case reports => rw [h.reports_send hT, hseq]
  case samples =>
    rw [hsamples]
    refine fun x hx => (h.samples x hx).mono hsub ?_ htime.ge
    rw [send_reports]
    split
    · exact List.subset_append_left ..
    · exact List.Subset.refl _
  case buf =>
    rw [hbuf]
    refine .inr ⟨s.header p, ?_, rfl⟩
    rw [hsent]
    exact List.mem_append_right _ (List.mem_singleton.mpr rfl)
  case largest_ack =>
    have := h.largest_ack
    rw [hack, hseq]
    omega
  case window =>
    rw [hack, hseq]
    exact h.window_send hT hready hB
  case aligned => exact fun hne => absurd (hpc'.trans hpc) hne
  case last_recv_time =>
    rw [hrecv, htime]
    exact h.last_recv_time
  case link_rate_estimate =>
    rw [hestimate]
    exact h.link_rate_estimate

/-! ## An acknowledgement is taken -/

theorem Safe.estimate (h : s.Safe p B) (hT : 0 < p.train_length) (hpc : s.pc = .outer)
    (seq_num : Int) : (s.estimate W p seq_num).Safe p B := by
  have haligned := h.aligned (by rw [hpc]; simp)
  rw [Sender.estimate]
  dsimp only
  split
  · rename_i hrecv
    have hgap := sub_nonneg.mpr (h.last_recv_time hrecv.2)
    have hest := h.link_rate_estimate
    refine h.frame ⟨rfl, rfl, rfl, le_rfl⟩ h.buf h.samples (.inl le_rfl) h.largest_ack.2
      (fun _ => haligned) hT (fun _ => le_rfl) ?_
    dsimp only
    split
    · exact hgap
    · linarith
  · exact h.frame ⟨rfl, rfl, rfl, le_rfl⟩ h.buf h.samples (.inl le_rfl) h.largest_ack.2
      (fun _ => haligned) hT (fun _ => le_rfl) h.link_rate_estimate

/-- What an acknowledgement leaves alone. -/
structure Kept (s t : Sender ω) : Prop where
  sent : t.sent = s.sent
  gaps : t.gaps = s.gaps
  seq_num : t.seq_num = s.seq_num
  last_send_time : t.last_send_time = s.last_send_time
  cur_time : t.cur_time = s.cur_time
  pc : t.pc = s.pc

theorem estimate_kept (s : Sender ω) (seq_num : Int) : Kept s (s.estimate W p seq_num) := by
  rw [estimate]
  dsimp only
  split <;> exact ⟨rfl, rfl, rfl, rfl, rfl, rfl⟩

theorem credit_kept (s : Sender ω) (h : TCPHeader) : Kept s (s.credit W p h) := by
  rw [credit]
  dsimp only
  split <;> exact ⟨rfl, rfl, rfl, rfl, rfl, rfl⟩

theorem Kept.trans {u : Sender ω} (h : Kept s t) (h' : Kept t u) : Kept s u :=
  ⟨h'.sent.trans h.sent, h'.gaps.trans h.gaps, h'.seq_num.trans h.seq_num,
    h'.last_send_time.trans h.last_send_time, h'.cur_time.trans h.cur_time, h'.pc.trans h.pc⟩

/-- A packet of another flow is dropped, any other is taken at the time `now`. -/
theorem receive_kept (W : CCC ω) (p : Params) (now : ℚ) (s : Sender ω) :
    Kept { s with pc := .outer } (s.receive W p now) ∨
    Kept { s with pc := .outer, cur_time := now, last_ack_time := now } (s.receive W p now) := by
  rw [receive]
  dsimp only
  split
  · exact .inl ⟨rfl, rfl, rfl, rfl, rfl, rfl⟩
  · exact .inr ((estimate_kept _ _).trans (credit_kept _ _))

/-- What is taken for an acknowledgement acknowledges a packet that was sent. -/
theorem Safe.credit (h : s.Safe p B) (hT : 0 < p.train_length) (hpc : s.pc = .outer)
    {x : TCPHeader} (hx : x ∈ s.sent) {r : ℚ} :
    (s.credit W p { x with seq_num := x.seq_num + 1, receiver_timestamp := r }).Safe p B := by
  have haligned := h.aligned (by rw [hpc]; simp)
  obtain ⟨i, hi⟩ := List.mem_iff_getElem?.mp hx
  have hlt : i < s.seq_num := by
    rw [← h.length]
    exact (List.getElem?_eq_some_iff.mp hi).1
  obtain ⟨hseq, -, -⟩ := h.numbered i x hi
  have hmax : max s.largest_ack (x.seq_num + 1) ≤ s.seq_num :=
    max_le h.largest_ack.2 (by omega)
  rw [Sender.credit]
  dsimp only
  split
  · rename_i hfirst
    refine h.frame ⟨rfl, rfl, rfl, le_rfl⟩ h.buf ?_ (.inl (le_max_left ..)) hmax
      (fun _ => haligned) hT h.last_recv_time h.link_rate_estimate
    intro y hy
    rcases List.mem_append.mp hy with hy | hy
    · exact (h.samples y hy).mono (List.Subset.refl _) (List.Subset.refl _) le_rfl
    · rw [List.mem_singleton.mp hy]
      rw [add_sub_cancel_right, hseq, ← Int.ofNat_tmod, Int.natCast_eq_zero] at hfirst
      have hmul : i / p.train_length * p.train_length = i :=
        Nat.div_mul_cancel (Nat.dvd_of_mod_eq_zero hfirst)
      refine ⟨i / p.train_length, ?_, ?_, ⟨x, hx, ?_, rfl⟩, h.past x hx, le_rfl⟩
      · rw [h.reports]
        refine List.mem_map_of_mem (List.mem_range.mpr ?_)
        have hle := Nat.div_le_div_right (c := p.train_length)
          (show i + p.train_length ≤ s.seq_num + p.train_length - 1 by omega)
        rw [Nat.add_div_right _ hT] at hle
        exact hle
      · rw [hmul, hseq]
        rfl
      · rw [hmul, hseq]
  · exact h.frame ⟨rfl, rfl, rfl, le_rfl⟩ h.buf h.samples (.inl (le_max_left ..)) hmax
      (fun _ => haligned) hT h.last_recv_time h.link_rate_estimate

theorem Safe.receive (h : s.Safe p B) (hT : 0 < p.train_length) {timeout : Int}
    (hpc : s.pc = .waiting timeout) (hnow : s.cur_time ≤ now) : (s.receive W p now).Safe p B := by
  have haligned := h.aligned (by rw [hpc]; simp)
  rw [Sender.receive]
  dsimp only
  split
  · exact h.quiet hT ⟨rfl, rfl, rfl, le_rfl⟩ rfl rfl (.inl rfl) (fun _ => haligned) rfl rfl
  · rename_i hours
    rcases h.buf with hforeign | ⟨x, hx, heq⟩
    · exact absurd hforeign hours
    · have hread : ({ s with pc := .outer, cur_time := now, last_ack_time := now } :
          Sender ω).Safe p B :=
        h.quiet hT ⟨rfl, rfl, rfl, hnow⟩ rfl rfl (.inl rfl) (fun _ => haligned) rfl rfl
      have hest := hread.estimate (W := W) hT rfl (s.buf.seq_num + 1)
      have hkept := estimate_kept (W := W) (p := p)
        { s with pc := .outer, cur_time := now, last_ack_time := now } (s.buf.seq_num + 1)
      have hcredit := hest.credit (W := W) hT hkept.pc (x := x) (by rw [hkept.sent]; exact hx)
        (r := s.buf.receiver_timestamp)
      have hheader : ({ s.buf with seq_num := s.buf.seq_num + 1 } : TCPHeader) =
          { x with
            seq_num := x.seq_num + 1
            receiver_timestamp := s.buf.receiver_timestamp } := by
        conv_lhs => rw [heq]
      rw [hheader]
      exact hcredit

theorem turn_sent (s : Sender ω) : (s.turn W p now).sent = s.sent := by
  rw [turn]
  dsimp only
  split
  · split
    · split <;> rfl
    · rfl
  · rfl

theorem catchUp_sent (s : Sender ω) : (s.catchUp W p).sent = s.sent := by
  rw [catchUp]
  split <;> rfl

theorem timedOut_sent (s : Sender ω) : (s.timedOut W now).sent = s.sent := by
  rw [timedOut]
  dsimp only
  split <;> rfl

theorem receive_sent (s : Sender ω) : (s.receive W p now).sent = s.sent := by
  rcases receive_kept W p now s with h | h <;> exact h.sent

end Sender

/-- The reading of the clock in a step. -/
def Action.clock : Action → Option ℚ
  | .sender now => some now
  | .receive _ now => some now
  | .echo .. => none

namespace Flow

variable {s t : Flow ω} {a : Action}

/-- The flow as it should be: what is on its way is of other flows, or a copy of its packets. -/
structure Safe (p : Params) (B : Nat) (s : Flow ω) : Prop where
  sender : s.sender.Safe p B
  packets : ∀ h ∈ s.packets, s.sender.Echoes p h
  echoes : ∀ h ∈ s.echoes, s.sender.Echoes p h

/-- The counters of the sender, and the numbers that it may read, are `int`s with room for one
more. -/
def InRange (s : Flow ω) : Prop :=
  s.sender.seq_num + 1 < 2 ^ 31 ∧ s.sender.num_packets_transmitted + 1 < 2 ^ 31 ∧
    s.sender.buf.seq_num + 1 < 2 ^ 31 ∧ ∀ h ∈ s.echoes, h.seq_num + 1 < 2 ^ 31

instance : Decidable s.InRange := inferInstanceAs (Decidable (_ ∧ _))

/-- The clock does not go back, the window is at most `B`, and the numbers are in range. -/
def Fits (W : CCC ω) (B : Nat) (s : Flow ω) (a : Action) : Prop :=
  (∀ now ∈ a.clock, s.sender.cur_time ≤ now) ∧ W.get_the_window s.sender.congctrl ≤ B ∧ s.InRange

instance : Decidable (Fits W B s a) := inferInstanceAs (Decidable (_ ∧ _))

theorem Safe.of_sender {e : Sender ω} (h : s.Safe p B) (he : e.Safe p B)
    (hsent : e.sent = s.sender.sent) : ({ s with sender := e } : Flow ω).Safe p B := by
  have hsub : s.sender.sent ⊆ e.sent := by
    rw [hsent]
    exact List.Subset.refl _
  exact ⟨he, fun x hx => (h.packets x hx).mono hsub, fun x hx => (h.echoes x hx).mono hsub⟩

theorem Safe.senderStep (h : s.Safe p B) (hT : 0 < p.train_length)
    (hnow : s.sender.cur_time ≤ now) (hB : W.get_the_window s.sender.congctrl ≤ B)
    (hs : s.senderStep W p now = some t) : t.Safe p B := by
  unfold Flow.senderStep at hs
  split at hs
  case h_1 hpc =>
    cases hs
    exact h.of_sender (h.sender.turn hT hpc hnow) (Sender.turn_sent _)
  case h_2 hpc =>
    split at hs
    · rename_i hready
      cases hs
      have hsent := Sender.send_sent (W := W) (p := p) s.sender
      have hsub : s.sender.sent ⊆ (s.sender.send W p).sent := by
        rw [hsent]
        exact List.subset_append_left ..
      refine ⟨h.sender.send hT hpc hready hB, fun x hx => ?_,
        fun x hx => (h.echoes x hx).mono hsub⟩
      rcases List.mem_append.mp hx with hx | hx
      · exact (h.packets x hx).mono hsub
      · rw [List.mem_singleton.mp hx]
        exact .inr ⟨_, by rw [hsent]; exact List.mem_append_right _ List.mem_cons_self, rfl⟩
    · rename_i hready
      cases hs
      exact h.of_sender (h.sender.catchUp hT hready) (Sender.catchUp_sent _)
  case h_3 hpc =>
    cases hs
    exact h.of_sender (h.sender.poll hT hpc hnow) rfl
  case h_4 => cases hs
  case h_5 hpc =>
    cases hs
    exact h.of_sender (h.sender.finish hT hpc hnow) rfl
  case h_6 => cases hs

theorem Safe.receiveStep {timeout : Int} {r : Receipt} (h : s.Safe p B) (hT : 0 < p.train_length)
    (hpc : s.sender.pc = .waiting timeout) (hnow : s.sender.cur_time ≤ now)
    (hs : s.receiveStep W p timeout now r = some t) : t.Safe p B := by
  cases r with
  | timeout =>
    obtain ⟨-, hs⟩ := Option.ite_none_right_eq_some.mp hs
    cases hs
    exact h.of_sender (h.sender.timedOut hT hpc hnow) (Sender.timedOut_sent _)
  | error =>
    cases hs
    exact h.of_sender (h.sender.receive hT hpc hnow) (Sender.receive_sent _)
  | packet index =>
    obtain ⟨buf, hbuf, rfl⟩ := Option.map_eq_some_iff.mp hs
    have hread : ({ s.sender with buf } : Sender ω).Safe p B :=
      { h.sender with buf := h.echoes buf (List.mem_of_getElem? hbuf) }
    exact h.of_sender (hread.receive hT hpc hnow) (Sender.receive_sent _)

theorem Safe.step (h : s.Safe p B) (hT : 0 < p.train_length) (hfits : Fits W B s a)
    (hs : Flow.step W p s a = some t) : t.Safe p B := by
  obtain ⟨hclock, hB, -⟩ := hfits
  cases a with
  | sender now => exact h.senderStep hT (hclock now rfl) hB hs
  | receive r now =>
    unfold Flow.step at hs
    dsimp only at hs
    split at hs
    · rename_i hpc
      exact h.receiveStep hT hpc (hclock now rfl) hs
    · cases hs
  | echo index receiver_timestamp =>
    obtain ⟨x, hx, rfl⟩ := Option.map_eq_some_iff.mp hs
    refine ⟨h.sender, h.packets, fun y hy => ?_⟩
    rcases List.mem_append.mp hy with hy | hy
    · exact h.echoes y hy
    · rw [List.mem_singleton.mp hy]
      exact (h.packets x (List.mem_of_getElem? hx)).imp_right fun ⟨z, hz, heq⟩ =>
        ⟨z, hz, by rw [heq]⟩

/-- A start of the flow. What is on its way already is of other flows, like what is in `buf`, and
twice the `train_length` is an `int`. -/
structure Starts (W : CCC ω) (p : Params) (s : Flow ω) : Prop where
  train_length : 0 < p.train_length
  short : p.train_length < 2 ^ 30
  sender : ∃ congctrl buf t₀ t₁, s.sender = .start W congctrl buf t₀ t₁ ∧ Foreign p buf ∧ t₀ ≤ t₁
  packets : ∀ h ∈ s.packets, Foreign p h
  echoes : ∀ h ∈ s.echoes, Foreign p h

theorem Starts.safe (h : Starts W p s) : s.Safe p B := by
  obtain ⟨congctrl, buf, t₀, t₁, hsender, hbuf, -⟩ := h.sender
  refine ⟨?_, fun x hx => .inl (h.packets x hx), fun x hx => .inl (h.echoes x hx)⟩
  rw [hsender]
  exact Sender.start_safe hbuf h.train_length

/-- A window of two packets, and a millisecond between them. -/
def twoPackets : CCC Unit where
  init := id
  close := id
  onACK _ _ _ := id
  onPktSent _ := id
  onTimeout := id
  onLinkRateMeasurement _ := id
  set_timestamp _ := id
  get_the_window _ := 2
  get_intersend_time _ := 1
  get_timeout _ := 1000

/-- A second of a flow, with trains of two packets. -/
def oneSecond : Params := ⟨1000, false, 0, 7, 2⟩

def strange : TCPHeader := ⟨-1, -1, -1, -1, 0⟩

def fresh : Flow Unit := .start twoPackets () strange 0 0 [strange] [strange]

theorem starts_fresh : Starts twoPackets oneSecond fresh where
  train_length := by decide
  short := by decide
  sender := ⟨(), strange, 0, 0, rfl, by decide, le_rfl⟩
  packets := by decide
  echoes := by decide

/-- A train is sent. -/
def firstTrain : List Action := [.sender 2, .sender 2, .sender 2, .sender 2]

/-- Its first packet comes back, behind an old one, and the next train begins. -/
def secondTrain : List Action :=
  [.sender (5 / 2), .receive (.packet 0) (5 / 2), .sender 3, .sender 3, .sender (7 / 2), .echo 1 7,
    .receive (.packet 1) 4, .sender 5, .sender 5]

theorem guarded_two_trains : Guarded (step twoPackets oneSecond)
    (fun s a => Fits twoPackets 2 s a) fresh (firstTrain ++ secondTrain) := by
  decide +kernel

end Flow

end ALCC.Ctcp
