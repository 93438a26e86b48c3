import ALCC.Theory.Purge
import ALCC.Verify.LibalccAcks

/-! The kernel hooks multicast the segments of all connections, and `ack_receiver` does not compare
the ports of a message with the port of its socket. A message of another connection does no harm if
the handler ignores it. Every other one makes a difference to the acknowledgement state, at once or
when the next segment is sent (`foreign_dropped_iff`). -/

namespace ALCC.Libalcc

open Machine MachineInt

variable {τ : Type*} {s : ALCCSocket τ} {m : Message}

/-- The acknowledgement state of a socket. -/
def ackState (s : ALCCSocket τ) : Nat × Nat × Nat × Int × Finmap fun _ : Nat => τ :=
  (s.tcpSeq, s.rcvSeq, s.rcvSeqLast, s.pktsInFlight, s.seqNumbersList)

namespace ALCCSocket

/-- The handler ignores outgoing segments once `tcpSeq` is set, acknowledgements that are not new,
and a repeated acknowledgement unless packet `rcvSeq` is listed. -/
def Ignores (s : ALCCSocket τ) (m : Message) : Prop :=
  if m.src_port = CC_PORT then
    s.tcpSeq ≠ 0
  else
    s.Fresh m.ack_seq.toNat → m.ack_seq.toNat = s.tcpSeq ∧ ¬ s.Listed

instance (s : ALCCSocket τ) (m : Message) : Decidable (s.Ignores m) := by
  unfold Ignores
  infer_instance

/-- An outgoing segment with the number 0 starts the thread `CC_logic`, and `tcpSeq` stays 0. -/
def StartsAtZero (s : ALCCSocket τ) (m : Message) : Prop :=
  m.src_port = CC_PORT ∧ m.rcv_seq.toNat = 0 ∧ s.tcpSeq = 0 ∧ s.cc_loigc_thread = false

instance (s : ALCCSocket τ) (m : Message) : Decidable (s.StartsAtZero m) :=
  inferInstanceAs (Decidable (_ ∧ _))

theorem credit_self : s.credit s.tcpSeq = s := by
  have hcredit : (s.credit s.tcpSeq).rcvSeq = s.rcvSeq :=
    credit_ahead (Nat.add_zero _).symm (by decide)
  cases s
  simp only [credit, mk.injEq, and_true, true_and] at hcredit ⊢
  exact hcredit

theorem Ignores.ackReceiver (h : s.Ignores m) : s.ackReceiver m = some s := by
  rw [Ignores] at h
  split at h
  · rename_i hm
    simp [ALCCSocket.ackReceiver, receive, h, hm]
  · rename_i hm
    by_cases hfresh : s.Fresh m.ack_seq.toNat
    · obtain ⟨hack, hlisted⟩ := h hfresh
      rw [ackReceiver_fresh hm hfresh, hack, credit_self, if_neg hlisted]
    · exact ackReceiver_stale hm hfresh

theorem StartsAtZero.ackReceiver (h : s.StartsAtZero m) :
    s.ackReceiver m = some { s with cc_loigc_thread := true } := by
  obtain ⟨hm, hrcv, hzero, hthread⟩ := h
  cases s
  simp_all [ALCCSocket.ackReceiver, receive]

/-- While `tcpSeq` is 0, acknowledgements are ignored. -/
theorem ignores_of_zero (hzero : s.tcpSeq = 0) (hm : m.src_port ≠ CC_PORT) : s.Ignores m := by
  rw [Ignores, if_neg hm]
  exact fun hfresh => absurd hzero hfresh.1.ne'

/-- An outgoing segment while `tcpSeq` is 0. -/
theorem ackReceiver_zero (hzero : s.tcpSeq = 0) (hm : m.src_port = CC_PORT) :
    s.ackReceiver m = if s.cc_loigc_thread then none else
      some { s with tcpSeq := m.rcv_seq.toNat, cc_loigc_thread := true } := by
  simp only [ALCCSocket.ackReceiver, receive, hzero, hm, and_self, if_true]
  split <;> rfl

/-- Nothing else leaves the acknowledgement state alone. -/
theorem ackState_ackReceiver (h : (s.ackReceiver m).map ackState = some (ackState s)) :
    s.Ignores m ∨ s.StartsAtZero m := by
  by_cases hm : m.src_port = CC_PORT
  · by_cases hzero : s.tcpSeq = 0
    · rw [ackReceiver_zero hzero hm] at h
      split at h
      · cases h
      · rename_i hthread
        have hrcv : m.rcv_seq.toNat = s.tcpSeq := congrArg Prod.fst (Option.some.inj h)
        exact .inr ⟨hm, hrcv.trans hzero, hzero, Bool.eq_false_iff.mpr hthread⟩
    · exact .inl (by rwa [Ignores, if_pos hm])
  · refine .inl ?_
    rw [Ignores, if_neg hm]
    intro hfresh
    rw [ackReceiver_fresh hm hfresh, Option.map_some] at h
    have hstate := Option.some.inj h
    have hack : m.ack_seq.toNat = s.tcpSeq := by
      have := congrArg Prod.fst hstate
      split at this <;> exact this
    refine ⟨hack, fun hlisted => ?_⟩
    rw [hack, credit_self, if_pos hlisted] at hstate
    have hlist : s.settle.seqNumbersList = s.seqNumbersList :=
      congrArg (fun state => state.2.2.2.2) hstate
    have hmem := hlisted.2
    rw [← hlist] at hmem
    exact absurd hmem (by simp [settle, Finmap.mem_erase])

end ALCCSocket

/-- What reaches a socket: a packet passes the kernel hooks, or the sender thread has sent a packet
of its own. -/
inductive Input (τ : Type*) where
  | packet (p : Segment)
  | sent (pktTime : τ)

/-- All that `pkt_sender` does for a packet. -/
def ALCCSocket.sendPacket (s : ALCCSocket τ) (pktTime : τ) : ALCCSocket τ :=
  { s with
    sentSeq := s.sentSeq + 1
    tempS := s.tempS - 1
    pktsInFlight := s.pktsInFlight + 1
    seqNumbersList := s.seqNumbersList.insert (s.sentSeq + 1) pktTime }

/-- `sendPacket` is made of the updates of the library. -/
theorem sendPacket_eq (t : Threads τ) (pktTime : τ) :
    (library τ).sent.foldl (fun t update => update pktTime t) ((library τ).dequeued t) =
      t.update (·.sendPacket pktTime) := rfl

/-- The socket processes an input; `none` when the process ends. -/
def handle (s : ALCCSocket τ) : Input τ → Option (ALCCSocket τ)
  | .packet p =>
    match hfunc p with
    | some m => s.ackReceiver m
    | none => some s
  | .sent pktTime => some (s.sendPacket pktTime)

/-- An input that belongs to the connection with the peer at `port`. -/
def Input.ownOf (port : UInt16) : Input τ → Bool
  | .packet p => p.peerPort == port
  | .sent _ => true

/-- With `w.1` the socket, and `w.2` the one that has seen its own messages only: a message of
another connection is ignored, or starts the thread `CC_logic` with the number 0; and once this has
happened, no segment is sent any more. -/
def Harmless (port : UInt16) (w : ALCCSocket τ × ALCCSocket τ) : Input τ → Prop
  | .packet p => ∀ m ∈ hfunc p,
      if w.1.cc_loigc_thread = w.2.cc_loigc_thread then
        p.peerPort = port ∨ w.1.Ignores m ∨ w.1.StartsAtZero m
      else
        m.src_port ≠ CC_PORT
  | .sent _ => True

instance (port : UInt16) (w : ALCCSocket τ × ALCCSocket τ) (i : Input τ) :
    Decidable (Harmless port w i) := by
  unfold Harmless
  split <;> infer_instance

/-- The two sockets are equal, or a foreign segment with the number 0 has started `CC_logic`. -/
def Shadows (w : ALCCSocket τ × ALCCSocket τ) : Prop :=
  w.1 = w.2 ∨ w.1 = { w.2 with cc_loigc_thread := true } ∧ w.2.tcpSeq = 0 ∧
    w.2.cc_loigc_thread = false

/-- What an input does to the two sockets: they stay as they are to each other, or the process ends
in both, or they come to differ. -/
inductive Unwinds (port : UInt16) (w : ALCCSocket τ × ALCCSocket τ) (i : Input τ) : Prop
  | step {w' : ALCCSocket τ × ALCCSocket τ} (hG : Harmless port w i)
      (hstep : pairStep handle (Input.ownOf port) w i = some w') (hI : Shadows w')
  | ends (hG : Harmless port w i) (h₁ : handle w.1 i = none) (hown : i.ownOf port = true)
      (h₂ : handle w.2 i = none)
  | differ (hG : ¬ Harmless port w i) (h : (handle w.1 i).map ackState ≠
      (if i.ownOf port then handle w.2 i else some w.2).map ackState)

section Unwinding

variable {port : UInt16} {u : ALCCSocket τ} {w : ALCCSocket τ × ALCCSocket τ} {p : Segment}

theorem handle_packet (hp : hfunc p = some m) : handle s (.packet p) = s.ackReceiver m := by
  simp only [handle, hp]

theorem harmless_packet (hp : hfunc p = some m) : Harmless port w (.packet p) ↔
    if w.1.cc_loigc_thread = w.2.cc_loigc_thread then
      p.peerPort = port ∨ w.1.Ignores m ∨ w.1.StartsAtZero m
    else
      m.src_port ≠ CC_PORT := by
  simp [Harmless, hp]

/-- A message while the two sockets are equal. -/
theorem Unwinds.of_eq (hp : hfunc p = some m) : Unwinds port (s, s) (.packet p) := by
  have hG : Harmless port (s, s) (.packet p) ↔
      p.peerPort = port ∨ s.Ignores m ∨ s.StartsAtZero m := by
    rw [harmless_packet hp, if_pos rfl]
  by_cases hport : p.peerPort = port
  · have hown : Input.ownOf port (.packet p : Input τ) = true := beq_iff_eq.mpr hport
    cases hs : handle s (.packet p) with
    | none => exact .ends (hG.mpr (.inl hport)) hs hown hs
    | some t =>
      exact .step (hG.mpr (.inl hport)) (pairStep_eq hs ((if_pos hown).trans hs)) (.inl rfl)
  · have hown : ¬ Input.ownOf port (.packet p : Input τ) = true := beq_iff_eq.not.mpr hport
    have hkeep : (if Input.ownOf port (.packet p : Input τ) then handle s (.packet p) else some s) =
        some s := if_neg hown
    by_cases hignores : s.Ignores m
    · exact .step (hG.mpr (.inr (.inl hignores)))
        (pairStep_eq ((handle_packet hp).trans hignores.ackReceiver) hkeep) (.inl rfl)
    by_cases hstarts : s.StartsAtZero m
    · obtain ⟨-, -, hzero, hthread⟩ := id hstarts
      exact .step (hG.mpr (.inr (.inr hstarts)))
        (pairStep_eq ((handle_packet hp).trans hstarts.ackReceiver) hkeep)
        (.inr ⟨rfl, hzero, hthread⟩)
    · refine .differ (fun h => ?_) ?_
      · rcases hG.mp h with h | h | h
        exacts [hport h, hignores h, hstarts h]
      · rw [handle_packet hp, if_neg hown]
        intro h
        rcases ALCCSocket.ackState_ackReceiver h with h | h
        exacts [hignores h, hstarts h]

/-- A message after a foreign segment has started `CC_logic`. -/
theorem Unwinds.of_started (hp : hfunc p = some m) (hs : s.cc_loigc_thread = true)
    (hzero : s.tcpSeq = 0) (hu : u.tcpSeq = 0) (hthread : u.cc_loigc_thread = false)
    (hI : Shadows (s, u)) : Unwinds port (s, u) (.packet p) := by
  have hG : Harmless port (s, u) (.packet p) ↔ m.src_port ≠ CC_PORT := by
    rw [harmless_packet hp, if_neg (by rw [hs, hthread]; exact Bool.noConfusion)]
  by_cases hm : m.src_port = CC_PORT
  · have hends : handle s (.packet p) = none := by
      rw [handle_packet hp, ALCCSocket.ackReceiver_zero hzero hm, if_pos hs]
    have hstarts : handle u (.packet p) =
        some { u with tcpSeq := m.rcv_seq.toNat, cc_loigc_thread := true } := by
      rw [handle_packet hp, ALCCSocket.ackReceiver_zero hu hm,
        if_neg (Bool.eq_false_iff.mp hthread)]
    refine .differ (fun h => hG.mp h hm) ?_
    rw [hends, hstarts]
    split <;> rintro ⟨⟩
  · have hignores := ALCCSocket.ignores_of_zero hzero hm
    have hignores' := ALCCSocket.ignores_of_zero hu hm
    refine .step (hG.mpr hm) (pairStep_eq (u := u)
      ((handle_packet hp).trans hignores.ackReceiver) ?_) hI
    split
    · exact (handle_packet hp).trans hignores'.ackReceiver
    · rfl

/-- One step of the two sockets. -/
theorem Shadows.unwinds (port : UInt16) (i : Input τ) (h : Shadows w) : Unwinds port w i := by
  cases i with
  | sent pktTime =>
    have hstep : pairStep handle (Input.ownOf port) w (.sent pktTime) =
        some (w.1.sendPacket pktTime, w.2.sendPacket pktTime) := rfl
    refine .step trivial hstep ?_
    rcases h with h | ⟨h, hzero, hthread⟩
    · exact .inl (congrArg (·.sendPacket pktTime) h)
    · exact .inr ⟨by rw [h]; rfl, hzero, hthread⟩
  | packet p =>
    obtain ⟨s, u⟩ := w
    cases hp : hfunc p with
    | none =>
      have hnone : ∀ s : ALCCSocket τ, handle s (.packet p) = some s := fun s => by
        simp only [handle, hp]
      refine .step (by simp [Harmless, hp]) (pairStep_eq (u := u) (hnone s) ?_) h
      split
      · exact hnone u
      · rfl
    | some m =>
      rcases id h with (heq : s = u) | ⟨hs, hzero, hthread⟩
      · subst heq
        exact .of_eq hp
      · simp only at hs hzero hthread
        exact .of_started hp (by rw [hs]) (by rw [hs]; exact hzero) hzero hthread h

theorem Shadows.same (h : Shadows w) : ackState w.1 = ackState w.2 := by
  rcases h with h | ⟨h, -⟩ <;> rw [h]
  rfl

end Unwinding

/-- For every interleaving of the packets of all connections and of the packets the socket sends:
after every prefix the acknowledgement state is the one that comes of the socket's own messages
alone, exactly if the messages of other connections are harmless where they arrive. -/
theorem foreign_dropped_iff (s : ALCCSocket τ) (inputs : List (Input τ)) :
    (∀ pre, pre <+: inputs → (run handle s pre).map ackState =
      (run handle s (pre.filter (Input.ownOf s.port))).map ackState) ↔
    Guarded (pairStep handle (Input.ownOf s.port)) (Harmless s.port) (s, s) inputs := by
  refine looksPurged_iff_guarded (w := (s, s)) (I := Shadows) (fun _ => Shadows.same) ?_ ?_ ?_
    (.inl rfl)
  · intro w i w' hI hG hstep
    cases hI.unwinds s.port i with
    | step _ hstep' hI' =>
      cases hstep.symm.trans hstep'
      exact hI'
    | ends _ h₁ =>
      rw [pairStep, h₁] at hstep
      cases hstep
    | differ hG' => exact absurd hG hG'
  · intro w i hI hG hstep
    cases hI.unwinds s.port i with
    | step _ hstep' => cases hstep.symm.trans hstep'
    | ends _ h₁ hown h₂ => exact ⟨h₁, hown, h₂⟩
    | differ hG' => exact absurd hG hG'
  · intro w i hI hG
    cases hI.unwinds s.port i with
    | step hG' | ends hG' => exact absurd hG' hG
    | differ _ h => exact h

theorem foreign_dropped_after_start :
    (run handle (ALCCSocket.new (τ := Unit) 50000 0)
      [.packet ⟨6, CC_PORT, 50000, 1, 0⟩, .packet ⟨6, CC_PORT, 50001, 777, 0⟩]).map ackState =
    (run handle (ALCCSocket.new (τ := Unit) 50000 0)
      [.packet ⟨6, CC_PORT, 50000, 1, 0⟩]).map ackState :=
  (foreign_dropped_iff (ALCCSocket.new (τ := Unit) 50000 0)
    [.packet ⟨6, CC_PORT, 50000, 1, 0⟩, .packet ⟨6, CC_PORT, 50001, 777, 0⟩]).mpr (by decide) _
    List.prefix_rfl

/-- The outgoing segments of the connections with the peers at ports 50001 and 50000. The socket,
whose peer is at 50000, starts with the number of the first. -/
theorem foreign_segment_starts :
    (run handle (ALCCSocket.new (τ := Unit) 50000 0)
      [.packet ⟨6, CC_PORT, 50001, 777, 0⟩, .packet ⟨6, CC_PORT, 50000, 1, 0⟩]).map
        (fun s => s.tcpSeq) = some 777 ∧
    (run handle (ALCCSocket.new (τ := Unit) 50000 0)
      ([.packet ⟨6, CC_PORT, 50001, 777, 0⟩, .packet ⟨6, CC_PORT, 50000, 1, 0⟩].filter
        (Input.ownOf 50000))).map (fun s => s.tcpSeq) = some 1 := by
  decide +kernel

end ALCC.Libalcc
