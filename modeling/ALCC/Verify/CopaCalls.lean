import ALCC.Model.CopaCalls
import ALCC.Verify.CopaThreads
import ALCC.Verify.CopaWindow

/-! The calls of the window computations by the two threads of `libalcc_copa.cpp`. They share
`cur_tick`, and `pkt_sender` may set it back to its own reading of the clock while `ack_receiver` is
about to call `onACK`. This reading is not older than any packet that was sent (`Clocked`), so no
RTT sample is negative. But it is the sending time of the last packet, and the RTT of that one is
then zero. Apart from this the calls of the two threads are a run of the window computations
(`run_serial`). -/

namespace ALCC.Copa

open Connection Machine

variable {α : Type*}

namespace Callers

variable {b b' b'' : Callers} {m : Option Message} {now : ℚ} {left : Nat} {terminateThreads : Bool}

/-! ## The steps of `ack_receiver` -/

theorem mod_train_length (n : Nat) : n % train_length = 0 := Nat.mod_one n

theorem stamp_cases (hs : b.stamp now left = some b') :
    b' = ⟨b.sock.count, .crediting left⟩ ∨
      ((∃ k ∈ b.sock.seqNumbersList.keys, k ≤ b.sock.rcvSeq + 1) ∧
          b.sock.rcvSeq + 1 ∈ b.sock.seqNumbersList) ∧
        b.sock.rcvSeq + 1 ∈ b.sock.senderTimestampList ∧
        b' = ⟨b.sock.count.call (·.window.setTimestamp now), .stamped left⟩ := by
  unfold stamp at hs
  dsimp only at hs
  split at hs
  · rename_i hlisted
    obtain ⟨hmem, hs⟩ := Option.ite_none_right_eq_some.mp hs
    rw [if_pos (mod_train_length _)] at hs
    cases hs
    exact .inr ⟨hlisted, hmem, rfl⟩
  · cases hs
    exact .inl rfl

theorem credit_cases (hs : b.credit left = some b') :
    ∃ sent_time, b.sock.senderTimestampList.lookup b.sock.rcvSeq = some sent_time ∧
      b' = ⟨b.sock.acknowledge sent_time, .crediting left⟩ := by
  obtain ⟨sent_time, hsent, rfl⟩ := Option.map_eq_some_iff.mp hs
  exact ⟨sent_time, hsent, rfl⟩

theorem stampTrain_eq (s : ALCCSocket (Pacer Window) ℚ) :
    s.stampTrain = s.call fun p => p.window.setTimestamp p.cur_time :=
  if_pos (mod_train_length _)

theorem reportTrain_eq (s : ALCCSocket (Pacer Window) ℚ) :
    s.reportTrain = s.call (·.window.onPktSent (s.seq_num / train_length : Nat)) :=
  if_pos (mod_train_length _)

theorem acknowledge_ctl (sent_time : ℚ) (s : ALCCSocket (Pacer Window) ℚ) :
    (s.acknowledge sent_time).ctl =
      { s.ctl with window := s.ctl.window.onACK (s.rcvSeq / train_length : Nat) sent_time } :=
  if_pos (mod_train_length _)

theorem receiverStep_cases (hs : b.receiverStep m now terminateThreads = some b') :
    (ALCCSocket.Same b.sock b'.sock ∧ ∀ left, b'.receiver ≠ .stamped left) ∨
      (∃ left, b.receiver = .crediting (left + 1) ∧ b.stamp now left = some b') ∨
      ∃ left, b.receiver = .stamped left ∧ b.credit left = some b' := by
  unfold receiverStep at hs
  split at hs
  case h_1 hreceiver =>
    cases hs
    refine .inl ⟨⟨rfl, rfl, rfl, rfl, rfl⟩, ?_⟩
    intro left
    dsimp only
    split <;> simp
  case h_2 hreceiver =>
    split at hs
    · cases hs
      exact .inl ⟨⟨rfl, rfl, rfl, rfl, rfl⟩, by simp⟩
    · obtain ⟨⟨t, rounds⟩, hreceive, rfl⟩ := Option.map_eq_some_iff.mp hs
      have hsame := ALCCSocket.receive_same hreceive
      cases rounds <;> exact .inl ⟨hsame, by simp⟩
  case h_3 hreceiver =>
    cases hs
    exact .inl ⟨⟨rfl, rfl, rfl, rfl, rfl⟩, by simp⟩
  case h_4 left hreceiver => exact .inr (.inl ⟨left, hreceiver, hs⟩)
  case h_5 left hreceiver => exact .inr (.inr ⟨left, hreceiver, hs⟩)
  case h_6 => cases hs

/-- Without a step of the other thread between the two calls, a round is the one of
`creditPacket`. -/
theorem credit_stamp (hstamp : b.stamp now left = some b') (hstamped : b'.receiver = .stamped left)
    (hcredit : b'.credit left = some b'') :
    b''.sock = b.sock.creditPacket (pacer Window.ops) now := by
  obtain rfl | ⟨hlisted, -, rfl⟩ := stamp_cases hstamp
  · cases hstamped
  · obtain ⟨sent_time, hsent, rfl⟩ := credit_cases hcredit
    have hsent : b.sock.senderTimestampList.lookup (b.sock.rcvSeq + 1) = some sent_time := hsent
    simp only [ALCCSocket.creditPacket, if_pos hlisted, hsent, pacer, Pacer.received,
      ALCCSocket.acknowledge, ALCCSocket.call, ALCCSocket.count, mod_train_length, if_true,
      Window.ops]
    congr 1

/-! ## The recorded sending times -/

/-- The clock that a step reads. -/
def clock : Connection.Action α (Event ℚ) ℚ → Option ℚ
  | .sender now _ | .thread (.receiver _ now) => some now
  | _ => none

/-- `seq_num` is an `int`, and no clock shows less than what `pkt_sender` read last. -/
def Fits (s : Connection α Callers ℚ) (a : Connection.Action α (Event ℚ) ℚ) : Prop :=
  s.sock.sock.seq_num + 1 < 2 ^ 31 ∧ ∀ now ∈ clock a, s.sock.sock.ctl.cur_time ≤ now

instance (s : Connection α Callers ℚ) : DecidablePred (Fits s) := fun _ =>
  inferInstanceAs (Decidable (_ ∧ _))

/-- Whether the packet `seq_num` has its sending time. -/
def recorded : SenderPc α ℚ → Nat
  | .recording _ _ k => if 2 ≤ k ∧ k < 6 then 1 else 0
  | _ => 0

/-- No packet was sent after the last reading of the clock by `pkt_sender`, nor, when `ack_receiver`
is about to call `onACK`, the packet that it credits after `cur_tick`. -/
structure Clocked (pc : SenderPc α ℚ) (b : Callers) : Prop where
  numbered : ∀ k ∈ b.sock.senderTimestampList, k < b.sock.seq_num + recorded pc
  past : ∀ k, ∀ t ∈ b.sock.senderTimestampList.lookup k, t ≤ b.sock.ctl.cur_time
  stamped : ∀ left, b.receiver = .stamped left →
    ∃ t ∈ b.sock.senderTimestampList.lookup b.sock.rcvSeq, t ≤ b.sock.ctl.window.cur_tick

namespace Clocked

variable {pc pc' : SenderPc α ℚ} {s t : Connection α Callers ℚ}
  {a : Connection.Action α (Event ℚ) ℚ}

theorem new (p : Pacer Window) : Clocked (.outer : SenderPc α ℚ) (.new p) where
  numbered _ h := absurd h (Finmap.notMem_empty)
  past _ _ h := by cases h
  stamped _ h := by cases h

theorem move (h : Clocked pc b) (hpc : recorded pc' = recorded pc) : Clocked pc' b where
  numbered := hpc ▸ h.numbered
  past := h.past
  stamped := h.stamped

/-- A later reading of the clock. -/
theorem turn (h : Clocked pc b) (hnow : b.sock.ctl.cur_time ≤ now) :
    Clocked pc (b.update fun s => { s with ctl := (pacer Window.ops).turn now s.ctl }) where
  numbered := h.numbered
  past k t ht := (h.past k t ht).trans hnow
  stamped := h.stamped

theorem record {pktTime : ℚ} {k : Nat} {update : ℚ → Callers → Callers}
    (h : Clocked (.recording pktTime left k : SenderPc α ℚ) b)
    (hk : callers.sent[k]? = some update) :
    Clocked (.recording pktTime left (k + 1) : SenderPc α ℚ) (update pktTime b) := by
  match k, hk with
  | 0, rfl | 2, rfl => exact ⟨h.numbered, h.past, h.stamped⟩
  | 1, rfl =>
    -- `seq_num` is new to the list
    have hnew : ∀ k ∈ b.sock.senderTimestampList, k < b.sock.seq_num := h.numbered
    refine ⟨?_, ?_, ?_⟩
    · intro k hk
      rcases Finmap.mem_insert.mp hk with rfl | hk
      · exact Nat.lt_succ_self _
      · exact Nat.lt_succ_of_lt (hnew k hk)
    · intro k t ht
      by_cases heq : k = b.sock.seq_num
      · subst heq
        have ht := (Finmap.lookup_insert _).symm.trans ht
        cases ht
        exact le_rfl
      · exact h.past k t ((Finmap.lookup_insert_of_ne _ heq).symm.trans ht)
    · intro left hstamped
      obtain ⟨t, ht, hle⟩ := h.stamped left hstamped
      have hne : b.sock.rcvSeq ≠ b.sock.seq_num := (hnew _ (Finmap.mem_iff.mpr ⟨t, ht⟩)).ne
      exact ⟨t, (Finmap.lookup_insert_of_ne _ hne).trans ht, hle⟩
  | 3, rfl =>
    -- `set_timestamp` with a reading that may be old
    change Clocked _ (b.update .stampTrain)
    rw [Callers.update, stampTrain_eq]
    refine ⟨h.numbered, h.past, ?_⟩
    intro left hstamped
    obtain ⟨t, ht, -⟩ := h.stamped left hstamped
    exact ⟨t, ht, h.past _ t ht⟩
  | 4, rfl =>
    change Clocked _ (b.update .reportTrain)
    rw [Callers.update, reportTrain_eq]
    exact ⟨h.numbered, h.past, h.stamped⟩
  | 5, rfl => exact ⟨h.numbered, h.past, h.stamped⟩

theorem sender {flag : Bool} (h : Clocked pc b) (hnow : b.sock.ctl.cur_time ≤ now)
    (hs : Moves callers flag now pc b pc' b') : Clocked pc' b' := by
  cases hs with
  | outer => cases flag <;> exact h.move rfl
  | turn htest => exact (h.turn hnow).move rfl
  | leave => exact h.move rfl
  | finish => exact h.move rfl
  | empty => exact h.move rfl
  | dequeue loop => exact h.move rfl
  | send loop loop' => exact h.move rfl
  | through loop => exact h.move rfl
  | record hk => exact h.record hk
  | @next b t₀ left k hk =>
    have hk : 6 ≤ k := List.getElem?_eq_none_iff.mp hk
    exact h.move (if_neg fun hlt => by omega).symm

theorem receiver (h : Clocked pc b) (hnow : b.sock.ctl.cur_time ≤ now)
    (hs : b.receiverStep m now terminateThreads = some b') : Clocked pc b' := by
  rcases receiverStep_cases hs with ⟨hsame, hnone⟩ | ⟨left, -, hstamp⟩ | ⟨left, -, hcredit⟩
  · refine ⟨?_, ?_, ?_⟩
    · rw [hsame.senderTimestampList, hsame.seq_num]
      exact h.numbered
    · rw [hsame.senderTimestampList, hsame.ctl]
      exact h.past
    · intro left hstamped
      exact absurd hstamped (hnone left)
  · obtain rfl | ⟨-, hmem, rfl⟩ := stamp_cases hstamp
    · exact ⟨h.numbered, h.past, by simp⟩
    · obtain ⟨t, ht⟩ := Finmap.mem_iff.mp hmem
      exact ⟨h.numbered, h.past, fun _ _ => ⟨t, ht, (h.past _ t ht).trans hnow⟩⟩
  · obtain ⟨sent_time, hsent, rfl⟩ := credit_cases hcredit
    refine ⟨h.numbered, ?_, by simp⟩
    rw [acknowledge_ctl]
    exact h.past

theorem step (h : Clocked s.pc s.sock) (hfits : Fits s a) (hs : s.step callers a = some t) :
    Clocked t.pc t.sock := by
  rcases step_moves hs with ⟨now, ret, rfl, hmoves⟩ | ⟨⟨m, now⟩, rfl, hthread, hpc⟩ |
    ⟨-, hpc, hsock⟩
  · exact h.sender (hfits.2 now rfl) hmoves
  · rw [hpc]
    exact h.receiver (hfits.2 now rfl) hthread
  · rw [hpc, hsock]
    exact h

end Clocked

end Callers

/-! ## The calls -/

namespace Window

/-- The window `w` is the outcome of calls from `w₀` with positive RTT samples. -/
def Serial (w₀ w : Window) : Prop :=
  ∃ calls, run step w₀ calls = some w ∧ Guarded step PositiveRtt w₀ calls

variable {w₀ w w' : Window}

theorem Serial.refl (w : Window) : Serial w w := ⟨[], rfl, trivial⟩

theorem Serial.call (h : Serial w₀ w) (call : Call) (hrtt : PositiveRtt w call)
    (hstep : w.step call = some w') : Serial w₀ w' := by
  obtain ⟨calls, hrun, hguarded⟩ := h
  refine ⟨calls ++ [call], (run_concat hrun).trans hstep, hguarded.append fun t ht => ?_⟩
  cases hrun.symm.trans ht
  exact ⟨hrtt, fun _ _ => trivial⟩

theorem Serial.setTimestamp (h : Serial w₀ w) (t : ℚ) : Serial w₀ (w.setTimestamp t) :=
  h.call (.setTimestamp t) trivial rfl

theorem Serial.onPktSent (h : Serial w₀ w) (seq_num : Int) : Serial w₀ (w.onPktSent seq_num) :=
  h.call (.onPktSent seq_num) trivial rfl

theorem Serial.onACK {sent_time : ℚ} (h : Serial w₀ w) (ack : Int) (hrtt : sent_time < w.cur_tick) :
    Serial w₀ (w.onACK ack sent_time) :=
  h.call (.onACK ack sent_time) (sub_pos.mpr hrtt) rfl

/-- Past the probing the calls are as they should be, and so is the window they end in. -/
theorem Serial.paced {cur_time : ℚ} (h : Serial (.start cur_time) w) :
    (∃ calls, run step (.start cur_time) calls = some w ∧
      Guarded step PositiveRtt (.start cur_time) calls ∧
      Guarded step PacedCall (.start cur_time) calls) ∧ 2 ≤ w.the_window ∧ 0 < w.delta := by
  obtain ⟨calls, hcalls, hguarded⟩ := h
  have hinv : WindowInv w :=
    hguarded.invariant (fun _ _ _ hw hrtt hstep => hw.step hrtt hstep) (.start cur_time) hcalls
  refine ⟨⟨calls, hcalls, hguarded, ?_⟩, hinv.the_window, hinv.delta⟩
  exact hguarded.guarded (I := WindowInv) (fun w call w' hw hrtt hstep => hw.step hrtt hstep)
    (fun w call hw hrtt => hw.pacedCall hrtt) (.start cur_time)

end Window

namespace Callers

variable {s t : Connection α Callers ℚ} {a : Connection.Action α (Event ℚ) ℚ} {w₀ : Window}

/-- The sending time that `ack_receiver` passes to `onACK`. -/
def sampled (s : Connection α Callers ℚ) : Connection.Action α (Event ℚ) ℚ → Option ℚ
  | .thread (.receiver _ _) =>
    match s.sock.receiver with
    | .stamped _ => s.sock.sock.senderTimestampList.lookup s.sock.sock.rcvSeq
    | _ => none
  | _ => none

/-- `cur_tick` is not the sending time of the packet that `onACK` is called for. -/
def Moving (s : Connection α Callers ℚ) (a : Connection.Action α (Event ℚ) ℚ) : Prop :=
  ∀ t ∈ sampled s a, t ≠ s.sock.sock.ctl.window.cur_tick

instance : DecidablePred (Moving s) := fun _ => inferInstanceAs (Decidable (∀ t ∈ _, _))

theorem Clocked.sampled_le (h : Clocked s.pc s.sock) (a : Connection.Action α (Event ℚ) ℚ) :
    ∀ t ∈ sampled s a, t ≤ s.sock.sock.ctl.window.cur_tick := by
  intro t ht
  unfold sampled at ht
  split at ht
  · split at ht
    · rename_i left hstamped
      obtain ⟨t', ht', hle⟩ := h.stamped left hstamped
      cases ht'.symm.trans ht
      exact hle
    · cases ht
  · cases ht

section

open Window

theorem serial_sender {pc pc' : SenderPc α ℚ} {b b' : Callers} {now : ℚ} {flag : Bool}
    (h : Serial w₀ b.sock.ctl.window) (hs : Moves callers flag now pc b pc' b') :
    Serial w₀ b'.sock.ctl.window := by
  cases hs with
  | @record b t₀ left k update hk =>
    match k, hk with
    | 0, rfl | 1, rfl | 2, rfl | 5, rfl => exact h
    | 3, rfl =>
      change Serial w₀ b.sock.stampTrain.ctl.window
      rw [stampTrain_eq]
      exact h.setTimestamp _
    | 4, rfl =>
      change Serial w₀ b.sock.reportTrain.ctl.window
      rw [reportTrain_eq]
      exact h.onPktSent _
  | _ => exact h

theorem serial_receiver {b b' : Callers} {m : Option Message} {now : ℚ} {flag : Bool}
    (h : Serial w₀ b.sock.ctl.window)
    (hrtt : ∀ left, b.receiver = .stamped left →
      ∀ t ∈ b.sock.senderTimestampList.lookup b.sock.rcvSeq, t < b.sock.ctl.window.cur_tick)
    (hs : b.receiverStep m now flag = some b') : Serial w₀ b'.sock.ctl.window := by
  rcases receiverStep_cases hs with ⟨hsame, -⟩ | ⟨left, -, hstamp⟩ | ⟨left, hstamped, hcredit⟩
  · rw [hsame.ctl]
    exact h
  · obtain rfl | ⟨-, -, rfl⟩ := stamp_cases hstamp
    · exact h
    · exact h.setTimestamp now
  · obtain ⟨sent_time, hsent, rfl⟩ := credit_cases hcredit
    rw [acknowledge_ctl]
    exact h.onACK _ (hrtt left hstamped sent_time hsent)

theorem serial_step (h : Serial w₀ s.sock.sock.ctl.window) (hclocked : Clocked s.pc s.sock)
    (hmoving : Moving s a) (hs : s.step callers a = some t) : Serial w₀ t.sock.sock.ctl.window := by
  rcases step_moves hs with ⟨now, ret, -, hmoves⟩ | ⟨⟨m, now⟩, rfl, hthread, -⟩ | ⟨-, -, hsock⟩
  · exact serial_sender h hmoves
  · refine serial_receiver h ?_ hthread
    intro left hstamped t ht
    have hsampled : t ∈ sampled s (.thread (.receiver m now)) := by
      simp only [sampled, hstamped]
      exact ht
    exact (hclocked.sampled_le _ t hsampled).lt_of_ne (hmoving t hsampled)
  · rw [hsock]
    exact h

end

def beforeByte : Connection Unit Callers ℚ :=
  init (List.replicate 8 ()) (fun _ => ()) (.new (.start 0 100))

/-- A byte is sent at 101, up to `set_timestamp`. -/
def sendByte : List (Connection.Action Unit (Event ℚ) ℚ) :=
  .alccSend [()] 1 :: List.replicate 8 (.sender 101 1)

/-- It is acknowledged at 120, up to `onACK`. -/
def stampByte : List (Connection.Action Unit (Event ℚ) ℚ) :=
  [.thread (.receiver none 101), .thread (.receiver (some ⟨CC_PORT, 50000, 1, 0⟩) 101),
    .thread (.receiver none 102), .thread (.receiver (some ⟨50000, CC_PORT, 0, 1485⟩) 102),
    .thread (.receiver none 120)]

/-- The late `set_timestamp` of `pkt_sender` makes the RTT of the byte zero. -/
example : Guarded (Connection.step callers) Fits beforeByte
      (sendByte ++ stampByte ++ [.sender 101 1]) ∧
    (run (Connection.step callers) beforeByte (sendByte ++ stampByte ++ [.sender 101 1])).any
      fun s => sampled s (.thread (.receiver none 120)) =
        some s.sock.sock.ctl.window.cur_tick := by
  decide +kernel

end Callers

end ALCC.Copa
