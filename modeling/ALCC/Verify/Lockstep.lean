import ALCC.Verify.Connection

/-! Runs in which the application writes a packet of `MTU` bytes when the sender thread is at its
inner loop with an empty queue, and the thread then sends it. They can be followed on the socket
alone (`sockStep`): each of its runs is one of the connection (`Stage.run`). -/

namespace ALCC

open CircularQueue Machine

namespace Connection

variable {α β ε τ : Type*} {L : Library β ε τ} {s t : Connection α β τ} {b b' : β}
  {now t₀ : τ} {left k : Nat} {bytes chunk : List α} {pc : SenderPc α τ} {loop : SendLoop α}

/-- What happens to the socket. -/
inductive SockEvent (ε τ : Type*) where
  /-- A packet is written, and sent at `now`. -/
  | packet (now : τ)
  | thread (e : ε)

/-- The updates of the sender thread for a packet. -/
def afterPacket (L : Library β ε τ) (now : τ) (b : β) : β :=
  L.sent.foldl (fun b update => update now b) (L.dequeued (L.turn now b))

def sockStep (L : Library β ε τ) (b : β) : SockEvent ε τ → Option β
  | .packet now => if L.test b false ∧ L.sPkts b = 1 then some (afterPacket L now b) else none
  | .thread e => L.thread e false b

/-- The steps of the connection, for a packet of bytes `x`. -/
def SockEvent.actions (L : Library β ε τ) (x : α) : SockEvent ε τ → List (Action α ε τ)
  | .packet now =>
    .alccSend (List.replicate L.MTU x) L.MTU :: .sender now 0 :: .sender now 0 ::
      .sender now L.MTU :: .sender now 0 ::
        (List.replicate (L.sent.length + 1) (.sender now 0) ++ [.sender now 0])
  | .thread e => [.thread e]

/-- The queue holds the bytes `bytes`, the sender thread is at `pc`, and the application does not
close the connection. -/
structure Stage (L : Library β ε τ) (bytes : List α) (pc : SenderPc α τ) (s : Connection α β τ)
    (b : β) : Prop where
  queue : s.sending_queue.WF
  contents : s.sending_queue.contents = bytes
  room : L.MTU < s.sending_queue.MAX
  flag : s.terminateThreads = false
  app : s.app = .sending
  pc : s.pc = pc
  sock : s.sock = b

namespace Stage

theorem not_aborted (h : Stage L bytes pc s b) : s.app ≠ .aborted := by
  rw [h.app]
  rintro ⟨⟩

theorem init {arr : List α} (data : Int → α) (hroom : L.MTU < arr.length) :
    Stage L [] .outer (.init arr data b) b := by
  have hqueue : (CircularQueue.new arr).WF := .new (Nat.zero_le _ |>.trans_lt hroom)
  exact ⟨hqueue, hqueue.contents_eq_nil.mpr rfl, hroom, rfl, rfl, rfl, rfl⟩

/-- A step of the sender thread that does not change the queue. -/
theorem of_step {ret : Int} {pc' : SenderPc α τ} (h : Stage L bytes pc s b)
    (hs : s.senderStep L now ret = some t)
    (hkept : (t.sending_queue, t.terminateThreads, t.app) =
      (s.sending_queue, s.terminateThreads, s.app)) (hpc : t.pc = pc') (hsock : t.sock = b') :
    ∃ t, s.step L (.sender now ret) = some t ∧ Stage L bytes pc' t b' := by
  simp only [Prod.mk.injEq] at hkept
  obtain ⟨hqueue, hflag, happ⟩ := hkept
  refine ⟨t, ?_, hqueue ▸ h.queue, hqueue ▸ h.contents, hqueue ▸ h.room, hflag ▸ h.flag,
    happ ▸ h.app, hpc, hsock⟩
  rw [step, if_neg h.not_aborted, hs]

theorem write (h : Stage L [] pc s b) (hlen : chunk.length = L.MTU) :
    ∃ t, s.step L (.alccSend chunk L.MTU) = some t ∧ Stage L chunk pc t b := by
  obtain ⟨queue, hinsert, hwf, hmax, hcont⟩ := insert_spec h.queue hlen.ge (.inr h.room)
  have hk : min L.MTU s.sending_queue.free = L.MTU := by
    have := h.room
    rw [free, h.contents, List.length_nil]
    omega
  rw [hk, h.contents, List.nil_append, List.take_of_length_le hlen.le] at hcont
  rw [step, if_pos ⟨h.app, hlen.ge⟩, hinsert, Option.map_some]
  exact ⟨_, rfl, hwf, hcont, hmax ▸ h.room, h.flag, h.app, h.pc, h.sock⟩

theorem turn (h : Stage L bytes .inner s b) (htest : L.test b false = true) :
    ∃ t, s.step L (.sender now 0) = some t ∧
      Stage L bytes (.round now (L.sPkts b)) t (L.turn now b) := by
  have hs : s.senderStep L now 0 =
      some { s with sock := L.turn now s.sock, pc := .round now (L.sPkts s.sock) } := by
    simp only [senderStep, h.pc, h.sock, h.flag, if_pos htest]
  exact h.of_step hs rfl (by rw [h.sock]) (by rw [h.sock])

theorem dequeue (h : Stage L chunk (.round t₀ (left + 1)) s b) (hlen : chunk.length = L.MTU)
    (hMTU : 0 < L.MTU) :
    ∃ t loop, s.step L (.sender now 0) = some t ∧ loop.At chunk 0 ∧
      Stage L [] (.sending t₀ left loop) t (L.dequeued b) := by
  have hk : min L.MTU s.sending_queue.contents.length = L.MTU := by
    rw [h.contents, hlen, Nat.min_self]
  have hle : L.MTU ≤ s.sending_queue.contents.length := hk ▸ Nat.min_le_right ..
  have hcont : (s.sending_queue.skip L.MTU).contents = [] := by
    rw [contents_skip h.queue hle, h.contents, List.drop_of_length_le hlen.le]
  have hsize : (L.MTU : Int) ≠ 0 := by omega
  rw [step, if_neg h.not_aborted]
  simp only [senderStep, h.pc]
  rw [Connection.dequeue, remove_spec h.queue (by simp), hk, Option.map_some]
  simp only [if_neg hsize, Int.toNat_natCast]
  rw [h.contents, List.take_of_length_le hlen.le, List.take_left' hlen]
  exact ⟨_, _, rfl, SendLoop.at_start _ _, h.queue.skip hle, hcont, h.room, h.flag, h.app, rfl,
    by rw [h.sock]⟩

/-- A call of `::send` takes the whole chunk. -/
theorem send (h : Stage L bytes (.sending t₀ left loop) s b) (hloop : loop.At chunk 0)
    (hne : 0 < chunk.length) :
    ∃ t loop', s.step L (.sender now chunk.length) = some t ∧ loop'.At chunk chunk.length ∧
      Stage L bytes (.sending t₀ left loop') t b := by
  have hle : 0 + chunk.length ≤ chunk.length := (Nat.zero_add _).le
  have hz : loop.z < loop.size := hloop.lt_iff.mpr hne
  have hret : loop.MayReturn chunk.length := by
    refine .inr ⟨by omega, ?_⟩
    rw [hloop.size, hloop.offset]
    omega
  have hs : s.senderStep L now chunk.length = some { s with
      pc := .sending t₀ left (loop.advance chunk.length)
      handed := s.handed ++ loop.taken chunk.length } := by
    simp only [senderStep, h.pc, if_pos hz, if_pos hret]
  obtain ⟨t, ht, hstage⟩ := h.of_step hs rfl rfl h.sock
  have hdone := hloop.advance hle
  rw [Nat.zero_add] at hdone
  exact ⟨t, _, ht, hdone, hstage⟩

theorem through (h : Stage L bytes (.sending t₀ left loop) s b)
    (hloop : loop.At chunk chunk.length) :
    ∃ t, s.step L (.sender now 0) = some t ∧ Stage L bytes (.recording t₀ left 0) t b := by
  have hz : ¬ loop.z < loop.size := mt hloop.lt_iff.mp (Nat.lt_irrefl _)
  have hs : s.senderStep L now 0 = some { s with pc := .recording t₀ left 0 } := by
    simp only [senderStep, h.pc, if_neg hz]
  exact h.of_step hs rfl rfl h.sock

/-- The updates after the calls of `::send`, from the `k`-th on. -/
theorem record {updates : List (τ → β → β)} (h : Stage L bytes (.recording t₀ left k) s b)
    (hk : L.sent.drop k = updates) :
    ∃ t, run (step L) s (List.replicate (updates.length + 1) (.sender now 0)) = some t ∧
      Stage L bytes (.round t₀ left) t (updates.foldl (fun b update => update t₀ b) b) := by
  induction updates generalizing s k b with
  | nil =>
    have hnone : L.sent[k]? = none := List.getElem?_eq_none (List.drop_eq_nil_iff.mp hk)
    have hs : s.senderStep L now 0 = some { s with pc := .round t₀ left } := by
      simp only [senderStep, h.pc, hnone]
    obtain ⟨t, ht, hstage⟩ := h.of_step hs rfl rfl h.sock
    exact ⟨t, (run_cons_of_step ht).trans rfl, hstage⟩
  | cons update updates ih =>
    have hsome : L.sent[k]? = some update := by rw [← List.head?_drop, hk, List.head?_cons]
    have hdrop : L.sent.drop (k + 1) = updates := by rw [← List.tail_drop, hk, List.tail_cons]
    have hs : s.senderStep L now 0 =
        some { s with sock := update t₀ s.sock, pc := .recording t₀ left (k + 1) } := by
      simp only [senderStep, h.pc, hsome]
    obtain ⟨u, hu, hstage⟩ := h.of_step hs rfl rfl (by rw [h.sock])
    obtain ⟨t, ht, hstage⟩ := ih hstage hdrop
    exact ⟨t, (run_cons_of_step hu).trans ht, hstage⟩

theorem finish (h : Stage L bytes (.round t₀ 0) s b) :
    ∃ t, s.step L (.sender now 0) = some t ∧ Stage L bytes .inner t b := by
  have hs : s.senderStep L now 0 = some { s with pc := .inner } := by
    simp only [senderStep, h.pc]
  exact h.of_step hs rfl rfl h.sock

/-- The application writes a packet, and the sender thread sends it. -/
theorem packet (now : τ) (x : α) (h : Stage L [] .inner s b) (hMTU : 0 < L.MTU)
    (htest : L.test b false = true) (hsPkts : L.sPkts b = 1) :
    ∃ t, run (step L) s ((SockEvent.packet now).actions L x) = some t ∧
      Stage L [] .inner t (afterPacket L now b) := by
  have hlen : (List.replicate L.MTU x).length = L.MTU := List.length_replicate
  obtain ⟨s₁, h₁, hstage⟩ := h.write hlen
  obtain ⟨s₂, h₂, hstage⟩ := hstage.turn htest
  rw [hsPkts] at hstage
  obtain ⟨s₃, loop, h₃, hloop, hstage⟩ := hstage.dequeue hlen hMTU
  obtain ⟨s₄, loop', h₄, hloop', hstage⟩ := hstage.send hloop (hlen.symm ▸ hMTU)
  rw [hlen] at h₄
  obtain ⟨s₅, h₅, hstage⟩ := hstage.through hloop'
  obtain ⟨s₆, h₆, hstage⟩ := hstage.record List.drop_zero
  obtain ⟨s₇, h₇, hstage⟩ := hstage.finish
  refine ⟨s₇, ?_, hstage⟩
  rw [SockEvent.actions, run_cons_of_step h₁, run_cons_of_step h₂, run_cons_of_step h₃,
    run_cons_of_step h₄, run_cons_of_step h₅, run_append, h₆, Option.bind_some, run_cons_of_step h₇,
    Machine.run]

/-- The tests of the two loops. -/
theorem enter (now : τ) (h : Stage L bytes .outer s b) :
    ∃ t, s.step L (.sender now 0) = some t ∧ Stage L bytes .inner t b := by
  have hs : s.senderStep L now 0 = some { s with pc := .inner } := by
    simp only [senderStep, h.pc, h.flag, Bool.false_eq_true, if_false]
  exact h.of_step hs (by rw [h.flag]) rfl h.sock

theorem leave (now : τ) (h : Stage L bytes .inner s b) (htest : L.test b false = false) :
    ∃ t, s.step L (.sender now 0) = some t ∧ Stage L bytes .outer t b := by
  have hs : s.senderStep L now 0 = some { s with pc := .outer } := by
    simp only [senderStep, h.pc, h.flag, h.sock, htest, Bool.false_eq_true, if_false]
  exact h.of_step hs (by rw [h.flag]) rfl h.sock

theorem thread {e : ε} (h : Stage L bytes pc s b) (he : L.thread e false b = some b') :
    ∃ t, s.step L (.thread e) = some t ∧ Stage L bytes pc t b' := by
  have hs : s.step L (.thread e) = some { s with sock := b' } := by
    rw [step, if_neg h.not_aborted, h.flag, h.sock, he, Option.map_some]
  exact ⟨_, hs, h.queue, h.contents, h.room, h.flag, h.app, h.pc, rfl⟩

/-- A run of the socket is one of the connection. -/
theorem run {events : List (SockEvent ε τ)} (x : α) (h : Stage L [] .inner s b) (hMTU : 0 < L.MTU)
    (hrun : Machine.run (sockStep L) b events = some b') :
    ∃ t, Machine.run (step L) s (events.flatMap (SockEvent.actions L x)) = some t ∧
      Stage L [] .inner t b' := by
  induction events generalizing s b with
  | nil =>
    cases hrun
    exact ⟨s, rfl, h⟩
  | cons event events ih =>
    obtain ⟨c, hc, hrest⟩ := run_cons.mp hrun
    rw [List.flatMap_cons, run_append]
    cases event with
    | packet now =>
      obtain ⟨⟨htest, hsPkts⟩, hc⟩ := Option.ite_none_right_eq_some.mp hc
      obtain ⟨u, hu, hstage⟩ := h.packet now x hMTU htest hsPkts
      rw [Option.some.inj hc] at hstage
      rw [hu]
      exact ih hstage hrest
    | thread e =>
      obtain ⟨u, hu, hstage⟩ := h.thread hc
      rw [SockEvent.actions, run_cons_of_step hu]
      exact ih hstage hrest

end Stage

end Connection

end ALCC
