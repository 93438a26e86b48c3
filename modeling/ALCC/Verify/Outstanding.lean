import ALCC.Model.Tcp
import ALCC.Theory.Run
import ALCC.Verify.Connection

/-! The packets that a library counts as outstanding. The sender thread counts chunks, the receiver
thread counts acknowledged bytes in units of `MTU`. The two counts agree as long as all chunks have
`MTU` bytes, every acknowledgement is credited, and none is processed before the sender thread has
recorded the packets it covers (`InStep`). What a library has to show for this is an `Accounts`; the
result is `Accounts.always_settled`. -/

namespace ALCC

open CircularQueue Connection Machine

variable {α β ε τ κ : Type*} {L : Library β ε τ} {s t : Connection α β τ} {now : τ} {ret : Int}

namespace Connection

/-- The sender thread is not about to dequeue a chunk of fewer than `MTU` bytes. -/
def WholeChunk (L : Library β ε τ) (s : Connection α β τ) : Prop :=
  match s.pc with
  | .round _ (_ + 1) => s.sending_queue.length = 0 ∨ L.MTU ≤ s.sending_queue.length
  | _ => True

instance (s : Connection α β τ) : Decidable (s.WholeChunk L) := by
  unfold WholeChunk
  exact match s.pc with
  | .round _ (_ + 1) => inferInstanceAs (Decidable (_ ∨ _))
  | .round _ 0 | .outer | .inner | .sending .. | .recording .. | .returned => .isTrue trivial

/-- The bytes that a chunk of `MTU` bytes still has to hand over. -/
def SenderPc.rest (MTU : Nat) : SenderPc α τ → Nat
  | .sending _ _ loop => MTU - loop.z.toNat
  | _ => 0

/-- Between the two places a chunk is dequeued. -/
def SenderPc.opens (pc pc' : SenderPc α τ) : Nat := if !pc.isSending && pc'.isSending then 1 else 0

@[simp] theorem SenderPc.opens_self (pc : SenderPc α τ) : pc.opens pc = 0 := by
  cases pc <;> rfl

/-- The queue is in order, and the chunk being sent has `MTU` bytes. -/
structure Chunks (L : Library β ε τ) (s : Connection α β τ) : Prop where
  queue : s.sending_queue.WF
  size : ∀ pktTime left loop, s.pc = .sending pktTime left loop → loop.size = L.MTU

theorem Chunks.of_idle (hqueue : s.sending_queue.WF) (hpc : s.pc.isSending = false) :
    Chunks L s where
  queue := hqueue
  size _ _ _ h := by
    rw [h] at hpc
    cases hpc

/-- Every dequeue adds `MTU` bytes to those handed over or still to hand over. -/
def Grows (L : Library β ε τ) (s t : Connection α β τ) : Prop :=
  s.handed.length + s.pc.rest L.MTU + L.MTU * s.pc.opens t.pc ≤ t.handed.length + t.pc.rest L.MTU

theorem Chunks.dequeue {pktTime : τ} {left : Nat} (h : Chunks L s) (hwhole : s.WholeChunk L)
    (hpc : s.pc = .round pktTime (left + 1)) (hs : s.dequeue L pktTime left = some t) :
    Chunks L t ∧ Grows L s t := by
  rw [WholeChunk, hpc] at hwhole
  simp only [h.queue.length_eq] at hwhole
  generalize hk : min L.MTU s.sending_queue.contents.length = k
  have hkle : k ≤ s.sending_queue.contents.length := hk ▸ Nat.min_le_right ..
  have hwf := h.queue.skip hkle
  rw [Connection.dequeue, remove_spec h.queue (by simp), hk, Option.map_some] at hs
  cases hs
  by_cases hzero : k = 0
  · have hsize : ((k : Nat) : Int) = 0 := by omega
    simp only [hsize, if_true]
    refine ⟨.of_idle hwf (by simp only; split <;> rfl), ?_⟩
    simp only [Grows, hpc]
    split <;> exact Nat.le_refl _
  · have hMTU : k = L.MTU := by omega
    have hsize : ((k : Nat) : Int) ≠ 0 := by omega
    simp only [hsize, if_false, Int.toNat_natCast]
    refine ⟨⟨hwf, ?_⟩, ?_⟩
    · rintro _ _ _ ⟨⟩
      simp only [SendLoop.start]
      rw [List.take_left' (by rw [List.length_take]; omega), List.length_take]
      omega
    · simp only [Grows, hpc, SenderPc.rest, SenderPc.opens, SenderPc.isSending, SendLoop.start,
        Int.toNat_zero]
      simp

theorem Chunks.senderStep (h : Chunks L s) (hwhole : s.WholeChunk L)
    (hs : s.senderStep L now ret = some t) : Chunks L t ∧ Grows L s t := by
  unfold Connection.senderStep at hs
  split at hs
  case h_1 hpc =>
    cases hs
    refine ⟨.of_idle h.queue (by simp only; split <;> rfl), ?_⟩
    simp only [Grows, hpc]
    split <;> exact Nat.le_refl _
  case h_2 hpc =>
    split at hs <;> cases hs <;> refine ⟨.of_idle h.queue rfl, ?_⟩ <;> simp only [Grows, hpc] <;>
      exact Nat.le_refl _
  case h_3 hpc =>
    cases hs
    refine ⟨.of_idle h.queue rfl, ?_⟩
    simp only [Grows, hpc]
    exact Nat.le_refl _
  case h_4 hpc => exact h.dequeue hwhole hpc hs
  case h_5 pktTime left loop hpc =>
    have hsize := h.size _ _ _ hpc
    split at hs
    · split at hs
      · rename_i hz hret
        cases hs
        refine ⟨⟨h.queue, ?_⟩, ?_⟩
        · rintro _ _ _ ⟨⟩
          exact hsize
        · simp only [Grows, hpc, SenderPc.rest, SenderPc.opens, SenderPc.isSending,
            SendLoop.advance, SendLoop.taken, SendLoop.offered, List.length_append,
            List.length_map, List.length_take, List.length_range]
          rcases hret with hret | hret <;> simp <;> omega
      · cases hs
    · rename_i hz
      cases hs
      refine ⟨.of_idle h.queue rfl, ?_⟩
      simp only [Grows, hpc, SenderPc.rest, SenderPc.opens, SenderPc.isSending]
      simp
      omega
  case h_6 hpc =>
    split at hs <;> cases hs <;> refine ⟨.of_idle h.queue rfl, ?_⟩ <;> simp only [Grows, hpc] <;>
      exact Nat.le_refl _
  case h_7 => cases hs

/-- A step that leaves the sender thread where it is. -/
theorem Chunks.frame (h : Chunks L s) (hqueue : t.sending_queue.WF) (hpc : t.pc = s.pc)
    (hhanded : t.handed = s.handed) : Chunks L t ∧ Grows L s t := by
  refine ⟨⟨hqueue, hpc ▸ h.size⟩, ?_⟩
  rw [Grows, hpc, hhanded, SenderPc.opens_self]
  exact Nat.le_refl _

theorem Chunks.step {a : Action α ε τ} (h : Chunks L s)
    (hwhole : ∀ now ret, a = .sender now ret → s.WholeChunk L) (hs : s.step L a = some t) :
    Chunks L t ∧ Grows L s t := by
  cases a with
  | alccSend buffer buflen =>
    obtain ⟨queue, n, -, hlen, hinsert, rfl⟩ := step_alccSend hs
    exact h.frame (h.queue.insert hlen hinsert) rfl rfl
  | alccClose =>
    obtain ⟨-, rfl⟩ := step_alccClose hs
    exact h.frame h.queue rfl rfl
  | app =>
    obtain ⟨flag, app, rfl⟩ := step_app hs
    exact h.frame h.queue rfl rfl
  | sender now ret => exact h.senderStep (hwhole now ret rfl) (step_sender hs).2
  | thread e =>
    obtain ⟨sock, -, -, rfl⟩ := step_thread hs
    exact h.frame h.queue rfl rfl

end Connection

/-- What the condition on a run says about a library. -/
structure Terms (α β τ κ : Type*) where
  /-- The next packet has a number. -/
  inRange : β → Bool
  /-- The receiver thread has taken the header of a segment that was sent. -/
  started : β → Bool
  /-- The packets that the sender thread has recorded. -/
  recorded : SenderPc α τ → β → Nat
  /-- All packets that an acknowledgement covers are credited. -/
  Credits : (first : Nat) → AckStream β → Ack κ → Prop

namespace Tcp

variable {s t : Tcp α β τ} {first : Nat} {R : Receiver β ε κ} {T : Terms α β τ κ}
  {a : Action α ε τ κ} {acts : List (Action α ε τ κ)}

/-- The sender thread does not run out of numbers, a chunk has `MTU` bytes, the first segment is the
first one of the stream, and an acknowledgement is credited and meets the records of the packets it
covers. -/
def InStep (L : Library β ε τ) (T : Terms α β τ κ) (first : Nat) (s : Tcp α β τ) :
    Action α ε τ κ → Prop
  | .act (.sender _ _) => T.inRange s.conn.sock = true ∧ s.conn.WholeChunk L
  | .act _ => True
  | .segment m _ => T.started s.conn.sock = false → m.rcv_seq.toNat = first
  | .ack a => T.started s.conn.sock = true ∧ T.Credits first ⟨s.conn.sock, s.acked⟩ a ∧
      a.bytes / L.MTU ≤ T.recorded s.conn.pc s.conn.sock

instance [∀ st a, Decidable (T.Credits first st a)] : DecidablePred (InStep L T first s)
  | .act (.sender _ _) => inferInstanceAs (Decidable (_ ∧ WholeChunk ..))
  | .act (.alccSend ..) | .act .alccClose | .act .app | .act (.thread _) => .isTrue trivial
  | .segment .. => inferInstanceAs (Decidable (_ → _))
  | .ack _ => inferInstanceAs (Decidable (_ ∧ _))

/-- When all bytes handed over are acknowledged and this is processed, nothing is outstanding. -/
def Settled (R : Receiver β ε κ) (s : Tcp α β τ) : Prop :=
  s.acked = s.conn.handed.length → R.idle s.conn.sock = true → R.outstanding s.conn.sock = 0

instance : Decidable (Settled R s) := inferInstanceAs (Decidable (_ → _ → _))

end Tcp

open Tcp

/-- The accounts of a library. `Inv pc b n acked` is its invariant after `n` dequeued chunks, when
acknowledgements up to `acked` bytes have been taken. -/
structure Accounts (α : Type*) (L : Library β ε τ) (R : Receiver β ε κ) (T : Terms α β τ κ)
    (first : Nat) where
  MTU_pos : 0 < L.MTU
  Inv : SenderPc α τ → β → Nat → Nat → Prop
  sender {pc b pc' b' n acked terminateThreads now} : Inv pc b n acked →
    Moves L terminateThreads now pc b pc' b' → Inv pc' b' (n + pc.opens pc') acked
  silent {pc b b' n acked terminateThreads e} : Inv pc b n acked → R.silent e = true →
    L.thread e terminateThreads b = some b' → Inv pc b' n acked
  segment {pc b b' n acked terminateThreads m clock} : Inv pc b n acked → R.waits b = true →
    m.src_port = CC_PORT → (T.started b = false → m.rcv_seq.toNat = first) →
    L.thread (R.takes m clock) terminateThreads b = some b' → Inv pc b' n acked
  ack {pc b b' n acked terminateThreads a} : Inv pc b n acked → R.waits b = true →
    a.msg.src_port ≠ CC_PORT → a.msg.ack_seq.toNat = (first + a.bytes) % 2 ^ 32 →
    AckStream.AnyOrder acked a.bytes → T.started b = true → T.Credits first ⟨b, acked⟩ a →
    a.bytes / L.MTU ≤ T.recorded pc b →
    L.thread (R.takes a.msg a.clock) terminateThreads b = some b' →
    Inv pc b' n (max acked a.bytes)
  /-- Of the chunks that are through, all that are counted and not acknowledged are outstanding. -/
  outstanding {pc b n acked} : Inv pc b n acked → R.idle b = true →
    ∃ counted, counted + (if pc.isSending then 1 else 0) ≤ n ∧ acked / L.MTU ≤ counted ∧
      R.outstanding b = counted - (acked / L.MTU : Nat)

namespace Accounts

variable {s t : Tcp α β τ} {first : Nat} {R : Receiver β ε κ} {T : Terms α β τ κ}
  {a : Tcp.Action α ε τ κ} {acts : List (Tcp.Action α ε τ κ)}

/-- After `n` dequeued chunks of `MTU` bytes. -/
def Holds (A : Accounts α L R T first) (s : Tcp α β τ) : Prop :=
  Chunks L s.conn ∧ ∃ n, A.Inv s.conn.pc s.conn.sock n s.acked ∧
    L.MTU * n ≤ s.conn.handed.length + s.conn.pc.rest L.MTU

variable (A : Accounts α L R T first)

theorem Holds.step_inv {A : Accounts α L R T first} {n : Nat}
    (h : A.Inv s.conn.pc s.conn.sock n s.acked) (hG : InStep L T first s a)
    (hs : Tcp.step L R first s a = some t) :
    A.Inv t.conn.pc t.conn.sock (n + s.conn.pc.opens t.conn.pc) t.acked := by
  obtain ⟨henabled, hconn, hacked⟩ := Tcp.step_cases hs
  rw [hacked]
  rcases step_moves hconn with ⟨now, ret, ha, hmove⟩ | ⟨e, ha, hthread, hpc⟩ | ⟨ha, hpc, hsock⟩
  · cases a with
    | act a => exact A.sender h hmove
    | segment m clock | ack a => cases ha
  · rw [hpc, SenderPc.opens_self]
    cases a with
    | act a =>
      cases ha
      exact A.silent h henabled hthread
    | segment m clock =>
      cases ha
      exact A.segment h henabled.1 henabled.2 hG hthread
    | ack a =>
      cases ha
      obtain ⟨hwaits, hport, hack, horder, -⟩ := henabled
      obtain ⟨hstarted, hcredits, hrecorded⟩ := hG
      exact A.ack h hwaits hport hack horder hstarted hcredits hrecorded hthread
  · rw [hpc, hsock, SenderPc.opens_self]
    cases a with
    | act a => exact h
    | segment m clock | ack a => exact absurd rfl (ha _)

theorem Holds.step {A : Accounts α L R T first} (h : A.Holds s) (hG : InStep L T first s a)
    (hs : Tcp.step L R first s a = some t) : A.Holds t := by
  obtain ⟨hchunks, n, hinv, hbytes⟩ := h
  obtain ⟨-, hconn, -⟩ := Tcp.step_cases hs
  obtain ⟨hchunks', hgrows⟩ := hchunks.step (t := t.conn) (fun now ret ha => by
    cases a with
    | act a =>
      cases ha
      exact hG.2
    | segment m clock | ack a => cases ha) hconn
  refine ⟨hchunks', _, Holds.step_inv hinv hG hs, ?_⟩
  rw [Grows] at hgrows
  rw [Nat.mul_add]
  omega

theorem Holds.settled {A : Accounts α L R T first} (h : A.Holds s) : Settled R s := by
  obtain ⟨-, n, hinv, hbytes⟩ := h
  intro hacked hidle
  obtain ⟨counted, hle, hcovered, hout⟩ := A.outstanding hinv hidle
  have hrest : s.conn.pc.rest L.MTU ≤ L.MTU * if s.conn.pc.isSending then 1 else 0 := by
    cases s.conn.pc <;> simp [SenderPc.rest, SenderPc.isSending]
  have hcounted : counted ≤ s.acked / L.MTU := by
    rw [Nat.le_div_iff_mul_le A.MTU_pos, hacked, Nat.mul_comm]
    have := Nat.mul_le_mul_left L.MTU hle
    rw [Nat.mul_add] at this
    omega
  rw [hout, Nat.le_antisymm hcounted hcovered, Int.sub_self]

/-- **Nothing is outstanding** once everything is acknowledged, in a run that stays in step. -/
theorem always_settled {arr : List α} {data : Int → α} {b : β} (harr : 1 ≤ arr.length)
    (hinit : A.Inv .outer b 0 0)
    (h : Guarded (Tcp.step L R first) (InStep L T first) (.init arr data b) acts) :
    Always (Tcp.step L R first) (Settled R) (.init arr data b) acts :=
  (h.always (I := A.Holds) (fun _ _ _ hI hG hs => hI.step hG hs)
    ⟨.of_idle (.new harr) rfl, 0, hinit, Nat.zero_le _⟩).imp fun _ h => h.settled

end Accounts

end ALCC
