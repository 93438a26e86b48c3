import ALCC.Model.Connection
import ALCC.Theory.Run
import ALCC.Verify.CircularQueue
import ALCC.Verify.SendLoop

/-! What a step of the sender thread can do, for any library: `SenderStep` says it in terms of the
bytes in the queue and in the chunk, and `senderStep_cases` that there is nothing else. The account
of the bytes is the first invariant it gives (`Bytes.step`). -/

namespace ALCC

open CircularQueue Machine

variable {α β ε τ : Type*}

/-- The bytes of the chunk that are still to be offered. -/
def SendLoop.rest (l : SendLoop α) : List α := l.offered.map l.data

theorem SendLoop.At.rest_eq {l : SendLoop α} {chunk : List α} {z : Nat} (h : l.At chunk z) :
    l.rest = chunk.drop z := by
  have hoffset := h.offset
  have hsize := h.size
  have htaken := h.taken_eq (n := chunk.length - z) (by have := h.le; omega)
  rw [taken, List.take_of_length_le (by rw [length_offered]; omega),
    List.take_of_length_le (by rw [List.length_drop])] at htaken
  exact htaken

namespace Connection

variable {L : Library β ε τ} {s t : Connection α β τ} {a : Action α ε τ} {now pktTime : τ}
  {left : Nat} {ret : Int}

/-- The queue is in order, and a chunk being sent stands at some offset. -/
structure WF (s : Connection α β τ) : Prop where
  queue : s.sending_queue.WF
  loop : ∀ pktTime left loop, s.pc = .sending pktTime left loop → ∃ chunk z, loop.At chunk z

/-- The sender thread has taken bytes out of the queue that `::send` has not taken yet. -/
def MidChunk (s : Connection α β τ) : Prop :=
  match s.pc with
  | .sending _ _ loop => loop.z < loop.size
  | _ => False

instance (s : Connection α β τ) : Decidable s.MidChunk := by
  unfold MidChunk
  split <;> infer_instance

/-- The steps of the sender thread when no call of `::send` fails. -/
inductive SenderStep (L : Library β ε τ) (s : Connection α β τ) (now : τ) :
    Connection α β τ → Prop
  | outer (hpc : s.pc = .outer) :
    SenderStep L s now { s with pc := if s.terminateThreads then .returned else .inner }
  | turn (hpc : s.pc = .inner) (htest : L.test s.sock s.terminateThreads = true) :
    SenderStep L s now { s with sock := L.turn now s.sock, pc := .round now (L.sPkts s.sock) }
  | leave (hpc : s.pc = .inner) : SenderStep L s now { s with pc := .outer }
  | finish {t₀ : τ} (hpc : s.pc = .round t₀ 0) : SenderStep L s now { s with pc := .inner }
  | empty {t₀ : τ} {left : Nat} {queue : CircularQueue α} (hpc : s.pc = .round t₀ (left + 1))
      (hwf : queue.WF) (hmax : queue.MAX = s.sending_queue.MAX)
      (hcont : queue.contents = s.sending_queue.contents) :
    SenderStep L s now
      { s with sending_queue := queue, pc := if L.breakInner then .outer else .inner }
  | dequeue {t₀ : τ} {left : Nat} {queue : CircularQueue α} {loop : SendLoop α}
      (hpc : s.pc = .round t₀ (left + 1)) (hwf : queue.WF)
      (hmax : queue.MAX = s.sending_queue.MAX)
      (hcont : queue.contents = s.sending_queue.contents.drop L.MTU)
      (hne : s.sending_queue.contents ≠ [])
      (hloop : loop.At (s.sending_queue.contents.take L.MTU) 0) :
    SenderStep L s now
      { s with sending_queue := queue, data := loop.data, sock := L.dequeued s.sock,
               pc := .sending t₀ left loop }
  | send {t₀ : τ} {left z n : Nat} {chunk : List α} {loop : SendLoop α}
      (hpc : s.pc = .sending t₀ left loop) (hloop : loop.At chunk z) (hn : 1 ≤ n)
      (hle : z + n ≤ chunk.length) :
    SenderStep L s now
      { s with pc := .sending t₀ left (loop.advance n),
               handed := s.handed ++ (chunk.drop z).take n }
  | through {t₀ : τ} {left : Nat} {chunk : List α} {loop : SendLoop α}
      (hpc : s.pc = .sending t₀ left loop) (hloop : loop.At chunk chunk.length) :
    SenderStep L s now { s with pc := .recording t₀ left 0 }
  | record {t₀ : τ} {left k : Nat} {update : τ → β → β} (hpc : s.pc = .recording t₀ left k)
      (hk : L.sent[k]? = some update) :
    SenderStep L s now { s with sock := update t₀ s.sock, pc := .recording t₀ left (k + 1) }
  | next {t₀ : τ} {left k : Nat} (hpc : s.pc = .recording t₀ left k) (hk : L.sent[k]? = none) :
    SenderStep L s now { s with pc := .round t₀ left }

theorem dequeue_cases (h : s.sending_queue.WF) (hpc : s.pc = .round pktTime (left + 1))
    (hs : s.dequeue L pktTime left = some t) : SenderStep L s now t := by
  generalize hk : min L.MTU s.sending_queue.contents.length = k
  have hkle : k ≤ s.sending_queue.contents.length := hk ▸ Nat.min_le_right ..
  have hwf := h.skip hkle
  have hcont := contents_skip h hkle
  rw [dequeue, remove_spec h (by simp), hk, Option.map_some] at hs
  cases hs
  by_cases hzero : k = 0
  · subst hzero
    exact .empty hpc hwf rfl hcont
  · have htake : s.sending_queue.contents.take k = s.sending_queue.contents.take L.MTU := by
      rw [← hk, ← List.take_eq_take_min]
    have hdrop : s.sending_queue.contents.drop k = s.sending_queue.contents.drop L.MTU := by
      rcases Nat.le_total L.MTU s.sending_queue.contents.length with hle | hle
      · rw [← hk, Nat.min_eq_left hle]
      · rw [← hk, Nat.min_eq_right hle, List.drop_length, List.drop_of_length_le hle]
    have hne : s.sending_queue.contents ≠ [] := by
      rintro hnil
      rw [hnil] at hkle
      exact hzero (Nat.le_zero.mp hkle)
    have hsize : ((k : Nat) : Int) ≠ 0 := by omega
    simp only [hsize, if_false, Int.toNat_natCast]
    rw [List.take_left' (by rw [List.length_take]; omega), htake]
    exact .dequeue hpc hwf rfl (hcont.trans hdrop) hne (SendLoop.at_start _ _)

/-- There are no other steps. -/
theorem senderStep_cases (h : s.WF) (hret : ret ≠ -1) (hs : s.senderStep L now ret = some t) :
    SenderStep L s now t := by
  unfold senderStep at hs
  split at hs
  case h_1 hpc =>
    cases hs
    exact .outer hpc
  case h_2 hpc =>
    split at hs
    · rename_i htest
      cases hs
      exact .turn hpc htest
    · cases hs
      exact .leave hpc
  case h_3 hpc =>
    cases hs
    exact .finish hpc
  case h_4 hpc => exact dequeue_cases h.queue hpc hs
  case h_5 hpc =>
    obtain ⟨chunk, z, hloop⟩ := h.loop _ _ _ hpc
    split at hs
    · split at hs
      · rename_i hret'
        cases hs
        obtain ⟨n, rfl⟩ := Int.eq_ofNat_of_zero_le
          (show 0 ≤ ret by rcases hret' with h | h <;> omega)
        have hle : z + n ≤ chunk.length := by
          have := hloop.offset
          have := hloop.size
          rcases hret' with h | h <;> omega
        rw [hloop.taken_eq hle]
        exact .send hpc hloop (by rcases hret' with h | h <;> omega) hle
      · cases hs
    · rename_i hdone
      cases hs
      rw [hloop.lt_iff] at hdone
      have hz : z = chunk.length := by
        have := hloop.le
        omega
      subst hz
      exact .through hpc hloop
  case h_6 hpc =>
    split at hs
    · rename_i hk
      cases hs
      exact .record hpc hk
    · rename_i hk
      cases hs
      exact .next hpc hk
  case h_7 => cases hs

/-- The steps of the sender thread as the state of the socket sees them, whatever happens to the
bytes. -/
inductive Moves (L : Library β ε τ) (terminateThreads : Bool) (now : τ) :
    SenderPc α τ → β → SenderPc α τ → β → Prop
  | outer {b} :
    Moves L terminateThreads now .outer b (if terminateThreads then .returned else .inner) b
  | turn {b} (htest : L.test b terminateThreads = true) :
    Moves L terminateThreads now .inner b (.round now (L.sPkts b)) (L.turn now b)
  | leave {b} : Moves L terminateThreads now .inner b .outer b
  | finish {b t₀} : Moves L terminateThreads now (.round t₀ 0) b .inner b
  | empty {b t₀ left} :
    Moves L terminateThreads now (.round t₀ (left + 1)) b
      (if L.breakInner then .outer else .inner) b
  | dequeue {b t₀ left} (loop : SendLoop α) :
    Moves L terminateThreads now (.round t₀ (left + 1)) b (.sending t₀ left loop) (L.dequeued b)
  | send {b t₀ left} (loop loop' : SendLoop α) :
    Moves L terminateThreads now (.sending t₀ left loop) b (.sending t₀ left loop') b
  | through {b t₀ left} (loop : SendLoop α) :
    Moves L terminateThreads now (.sending t₀ left loop) b (.recording t₀ left 0) b
  | record {b t₀ left k update} (hk : L.sent[k]? = some update) :
    Moves L terminateThreads now (.recording t₀ left k) b (.recording t₀ left (k + 1)) (update t₀ b)
  | next {b t₀ left k} (hk : L.sent[k]? = none) :
    Moves L terminateThreads now (.recording t₀ left k) b (.round t₀ left) b

theorem senderStep_moves (hs : s.senderStep L now ret = some t) :
    Moves L s.terminateThreads now s.pc s.sock t.pc t.sock := by
  unfold senderStep at hs
  split at hs
  case h_1 hpc =>
    cases hs
    rw [hpc]
    exact .outer
  case h_2 hpc =>
    rw [hpc]
    split at hs
    · rename_i htest
      cases hs
      exact .turn htest
    · cases hs
      exact .leave
  case h_3 hpc =>
    cases hs
    rw [hpc]
    exact .finish
  case h_4 hpc =>
    rw [hpc]
    obtain ⟨⟨queue, data, size⟩, -, rfl⟩ := Option.map_eq_some_iff.mp hs
    simp only
    split
    · exact .empty
    · exact .dequeue _
  case h_5 hpc =>
    rw [hpc]
    split at hs
    · split at hs <;> cases hs
      exact .send _ _
    · cases hs
      exact .through _
  case h_6 hpc =>
    rw [hpc]
    split at hs
    · rename_i hk
      cases hs
      exact .record hk
    · rename_i hk
      cases hs
      exact .next hk
  case h_7 => cases hs

theorem step_alccSend {buffer : List α} {buflen : Nat}
    (hs : s.step L (.alccSend buffer buflen) = some t) :
    ∃ queue n, s.app = .sending ∧ buflen ≤ buffer.length ∧
      s.sending_queue.insert buffer buflen = some (queue, n) ∧
      t = { s with sending_queue := queue, accepted := s.accepted ++ buffer.take n.toNat } := by
  obtain ⟨⟨happ, hlen⟩, hs⟩ := Option.ite_none_right_eq_some.mp hs
  obtain ⟨⟨queue, n⟩, hinsert, rfl⟩ := Option.map_eq_some_iff.mp hs
  exact ⟨queue, n, happ, hlen, hinsert, rfl⟩

theorem step_alccClose (hs : s.step L .alccClose = some t) :
    s.app = .sending ∧ t = { s with app := .waiting } := by
  obtain ⟨happ, hs⟩ := Option.ite_none_right_eq_some.mp hs
  exact ⟨happ, (Option.some.inj hs).symm⟩

/-- `alcc_close` changes nothing but `terminateThreads`. -/
theorem step_app (hs : s.step L .app = some t) :
    ∃ flag app, t = { s with terminateThreads := flag, app := app } := by
  simp only [step, appStep] at hs
  split at hs <;> cases hs <;> first | exact ⟨_, _, rfl⟩ | skip
  split <;> exact ⟨_, _, rfl⟩

theorem step_sender (hs : s.step L (.sender now ret) = some t) :
    s.app ≠ .aborted ∧ s.senderStep L now ret = some t :=
  Option.ite_none_left_eq_some.mp hs

theorem step_thread {e : ε} (hs : s.step L (.thread e) = some t) :
    ∃ sock, s.app ≠ .aborted ∧ L.thread e s.terminateThreads s.sock = some sock ∧
      t = { s with sock := sock } := by
  obtain ⟨happ, hs⟩ := Option.ite_none_left_eq_some.mp hs
  obtain ⟨sock, hsock, rfl⟩ := Option.map_eq_some_iff.mp hs
  exact ⟨sock, happ, hsock, rfl⟩

/-- The steps of a connection as the state of the socket sees them. -/
theorem step_moves (hs : s.step L a = some t) :
    (∃ now ret, a = .sender now ret ∧ Moves L s.terminateThreads now s.pc s.sock t.pc t.sock) ∨
      (∃ e, a = .thread e ∧ L.thread e s.terminateThreads s.sock = some t.sock ∧ t.pc = s.pc) ∨
      ((∀ e, a ≠ .thread e) ∧ t.pc = s.pc ∧ t.sock = s.sock) := by
  cases a with
  | alccSend buffer buflen =>
    obtain ⟨queue, n, -, -, -, rfl⟩ := step_alccSend hs
    exact .inr (.inr ⟨by rintro e ⟨⟩, rfl, rfl⟩)
  | alccClose =>
    obtain ⟨-, rfl⟩ := step_alccClose hs
    exact .inr (.inr ⟨by rintro e ⟨⟩, rfl, rfl⟩)
  | app =>
    obtain ⟨flag, app, rfl⟩ := step_app hs
    exact .inr (.inr ⟨by rintro e ⟨⟩, rfl, rfl⟩)
  | sender now ret => exact .inl ⟨now, ret, rfl, senderStep_moves (step_sender hs).2⟩
  | thread e =>
    obtain ⟨sock, -, hsock, rfl⟩ := step_thread hs
    exact .inr (.inl ⟨e, rfl, hsock, rfl⟩)

/-- The sender thread has a chunk that it is sending. -/
def SenderPc.isSending : SenderPc α τ → Bool
  | .sending .. => true
  | _ => false

/-- The chunk that is dequeued and does not have the first `k` updates of `sent`. -/
def SenderPc.before (k : Nat) : SenderPc α τ → Nat
  | .sending .. => 1
  | .recording _ _ j => if j < k then 1 else 0
  | _ => 0

theorem SenderPc.isSending_le_before (k : Nat) (pc : SenderPc α τ) :
    (if pc.isSending then 1 else 0) ≤ pc.before k := by
  cases pc <;> simp [isSending, before]

theorem SenderPc.before_mono {j k : Nat} (h : j ≤ k) (pc : SenderPc α τ) :
    pc.before j ≤ pc.before k := by
  cases pc with
  | recording t left i =>
    simp only [before]
    split <;> split <;> omega
  | _ => exact Nat.le_refl _

/-- After the updates of `sent` no chunk is without them. -/
theorem SenderPc.before_of_none {k j : Nat} (hk : k ≤ L.sent.length) (hj : L.sent[j]? = none) :
    (.recording pktTime left j : SenderPc α τ).before k = 0 :=
  if_neg (by have := List.getElem?_eq_none_iff.mp hj; omega)

/-- The bytes of the chunk being sent that `::send` has not taken. -/
def unsent (s : Connection α β τ) : List α :=
  match s.pc with
  | .sending _ _ loop => loop.rest
  | _ => []

/-- Every accepted byte was handed over, or is in the chunk being sent, or in the queue. -/
structure Bytes (s : Connection α β τ) : Prop extends s.WF where
  account : s.handed ++ s.unsent ++ s.sending_queue.contents = s.accepted

theorem Bytes.init {arr : List α} (harr : 1 ≤ arr.length) (data : Int → α) (sock : β) :
    (Connection.init arr data sock (τ := τ)).Bytes where
  queue := .new harr
  loop _ _ _ h := by cases h
  account := rfl

theorem unsent_of_idle (hpc : s.pc.isSending = false) : s.unsent = [] := by
  rw [unsent]
  split
  · rename_i h
    rw [h] at hpc
    cases hpc
  · rfl

theorem unsent_of_sending {loop : SendLoop α} (hpc : s.pc = .sending pktTime left loop) :
    s.unsent = loop.rest := by
  rw [unsent, hpc]

/-- Without a chunk in flight the account is that of the queue. -/
theorem Bytes.idle (h : s.Bytes) (hpc : s.pc.isSending = false) :
    s.handed ++ s.sending_queue.contents = s.accepted := by
  rw [← h.account, unsent_of_idle hpc, List.append_nil]

theorem Bytes.of_idle (hqueue : s.sending_queue.WF) (hpc : s.pc.isSending = false)
    (haccount : s.handed ++ s.sending_queue.contents = s.accepted) : s.Bytes where
  queue := hqueue
  loop _ _ _ h := by
    rw [h] at hpc
    cases hpc
  account := by rw [unsent_of_idle hpc, List.append_nil, haccount]

theorem Bytes.sending {loop : SendLoop α} {chunk : List α} {z : Nat} (h : s.Bytes)
    (hpc : s.pc = .sending pktTime left loop) (hloop : loop.At chunk z) :
    s.handed ++ chunk.drop z ++ s.sending_queue.contents = s.accepted := by
  rw [← h.account, unsent_of_sending hpc, hloop.rest_eq]

theorem Bytes.of_sending {loop : SendLoop α} {chunk : List α} {z : Nat}
    (hqueue : s.sending_queue.WF) (hpc : s.pc = .sending pktTime left loop)
    (hloop : loop.At chunk z)
    (haccount : s.handed ++ chunk.drop z ++ s.sending_queue.contents = s.accepted) : s.Bytes where
  queue := hqueue
  loop _ _ _ h := by
    cases hpc.symm.trans h
    exact ⟨chunk, z, hloop⟩
  account := by rw [unsent_of_sending hpc, hloop.rest_eq, haccount]

theorem Bytes.senderStep (h : s.Bytes) (hs : SenderStep L s now t) : t.Bytes := by
  have hidle : ∀ {pc}, s.pc = pc → pc.isSending = false →
      s.handed ++ s.sending_queue.contents = s.accepted := fun hpc h' => h.idle (hpc ▸ h')
  cases hs with
  | outer hpc => exact .of_idle h.queue (by simp only; split <;> rfl) (hidle hpc rfl)
  | turn hpc | leave hpc | finish hpc | record hpc | next hpc =>
    exact .of_idle h.queue rfl (hidle hpc rfl)
  | empty hpc hwf hmax hcont =>
    refine .of_idle hwf (by simp only; split <;> rfl) ?_
    simp only [hcont]
    exact hidle hpc rfl
  | dequeue hpc hwf hmax hcont hne hloop =>
    refine .of_sending hwf rfl hloop ?_
    simp only [hcont, List.drop_zero, List.append_assoc, List.take_append_drop]
    exact hidle hpc rfl
  | send hpc hloop hn hle =>
    refine .of_sending h.queue rfl (hloop.advance hle) ?_
    rw [← h.sending hpc hloop, ← List.drop_drop]
    simp only [List.append_assoc]
    rw [← List.append_assoc (List.take _ _), List.take_append_drop]
  | through hpc hloop =>
    refine .of_idle h.queue rfl ?_
    simpa using h.sending hpc hloop

end Connection

end ALCC
