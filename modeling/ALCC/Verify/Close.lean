import ALCC.Model.Copa
import ALCC.Model.Libalcc
import ALCC.Model.Verus
import ALCC.Verify.Connection

/-! `alcc_close` waits until the queue is empty, but not for the sender thread, which keeps the
chunk it took out last in a buffer of its own. Once the wait is over, what TCP lacks of the accepted
bytes is the rest of this chunk (`Connection.all_handed_iff`). Verus then closes the descriptor; the
other two libraries delete the `ALCCSocket` first, which ends the process
(`Connection.deletes_of_closing`). -/

namespace ALCC.Connection

open CircularQueue Machine

variable {α β ε τ : Type*} {L : Library β ε τ} {s t : Connection α β τ} {a : Action α ε τ}
  {acts : List (Action α ε τ)} {buffer : List α} {buflen : Nat}

/-- A write is shorter than the capacity, and a call of `::send` does not fail. -/
def Orderly (s : Connection α β τ) : Action α ε τ → Prop
  | .alccSend _ buflen => buflen < s.sending_queue.MAX
  | .sender _ ret => ret ≠ -1
  | _ => True

instance (s : Connection α β τ) (a : Action α ε τ) : Decidable (s.Orderly a) := by
  unfold Orderly
  split <;> infer_instance

/-- `alcc_close` has left its waiting loop. -/
def AppPc.leftLoop : AppPc → Bool
  | .sending | .waiting => false
  | .terminating | .deleting | .closing | .closed | .aborted => true

/-- A write changes the queue and what was accepted. -/
theorem alccSend_cases (h : s.sending_queue.WF) (hlen : buflen < s.sending_queue.MAX)
    (hs : s.step L (.alccSend buffer buflen) = some t) :
    ∃ queue n, s.app = .sending ∧ queue.WF ∧ queue.MAX = s.sending_queue.MAX ∧
      queue.contents = s.sending_queue.contents ++ buffer.take n ∧
      t = { s with sending_queue := queue, accepted := s.accepted ++ buffer.take n } := by
  obtain ⟨queue, n, happ, hbuf, hinsert, rfl⟩ := step_alccSend hs
  obtain ⟨queue', hspec, hwf, hmax, hcont⟩ := insert_spec h hbuf (.inr hlen)
  cases hinsert.symm.trans hspec
  exact ⟨queue, _, happ, hwf, hmax, hcont, rfl⟩

/-- `alcc_close` changes no bytes; it leaves the loop on an empty queue. -/
theorem appStep_cases (h : s.sending_queue.WF) (hs : s.appStep L = some t) :
    ∃ flag pc, t = { s with terminateThreads := flag, app := pc } ∧
      (pc.leftLoop = true → s.app.leftLoop = true ∨ s.sending_queue.contents = []) := by
  unfold appStep at hs
  split at hs
  case h_2 hpc =>
    split at hs
    · cases hs
      exact ⟨_, _, rfl, .inl⟩
    · rename_i hlength
      cases hs
      rw [h.length_eq] at hlength
      exact ⟨_, _, rfl, fun _ => .inr (List.length_eq_zero_iff.mp (by omega))⟩
  case h_1 | h_6 | h_7 => cases hs
  case h_3 hpc | h_4 hpc | h_5 hpc =>
    cases hs
    exact ⟨_, _, rfl, fun _ => .inl (by rw [hpc]; rfl)⟩

/-- The account of the bytes, and an empty queue once the wait is over. -/
structure Drained (s : Connection α β τ) : Prop extends s.Bytes where
  drained : s.app.leftLoop = true → s.sending_queue.contents = []

theorem Drained.init {arr : List α} (harr : 1 ≤ arr.length) (data : Int → α) (sock : β) :
    (Connection.init arr data sock (τ := τ)).Drained where
  toBytes := .init harr data sock
  drained h := by cases h

theorem Drained.step (h : s.Drained) (hok : s.Orderly a) (hs : s.step L a = some t) :
    t.Drained := by
  cases a with
  | alccSend buffer buflen =>
    obtain ⟨queue, n, happ, hwf, -, hcont, rfl⟩ := alccSend_cases h.queue hok hs
    refine ⟨⟨⟨hwf, h.loop⟩, ?_⟩, fun hleft => ?_⟩
    · simp only [hcont, ← h.account]
      exact (List.append_assoc ..).symm
    · simp only [happ] at hleft
      cases hleft
  | alccClose =>
    obtain ⟨-, rfl⟩ := step_alccClose hs
    exact ⟨⟨⟨h.queue, h.loop⟩, h.account⟩, fun hleft => by cases hleft⟩
  | app =>
    obtain ⟨flag, pc, rfl, hleft⟩ := appStep_cases h.queue hs
    exact ⟨⟨⟨h.queue, h.loop⟩, h.account⟩, fun h' => (hleft h').elim h.drained id⟩
  | sender now ret =>
    have hstep := senderStep_cases h.toWF hok (step_sender hs).2
    refine ⟨h.toBytes.senderStep hstep, ?_⟩
    have hdrained := h.drained
    cases hstep with
    | empty _ _ _ hcont => simpa only [hcont] using hdrained
    | dequeue _ _ _ hcont =>
      intro hleft
      simp only [hcont, hdrained hleft, List.drop_nil]
    | _ => exact hdrained
  | thread e =>
    obtain ⟨sock, -, -, rfl⟩ := step_thread hs
    exact ⟨⟨⟨h.queue, h.loop⟩, h.account⟩, h.drained⟩

/-- Some of the chunk is unsent exactly when the sender thread is in the middle of it. -/
theorem WF.unsent_eq_nil (h : s.WF) : s.unsent = [] ↔ ¬ s.MidChunk := by
  rw [unsent, MidChunk]
  split
  · rename_i hpc
    obtain ⟨chunk, z, hloop⟩ := h.loop _ _ _ hpc
    rw [hloop.rest_eq, hloop.lt_iff, List.drop_eq_nil_iff, not_lt]
  · simp

theorem senderStep_app {now : τ} {ret : Int} (hs : s.senderStep L now ret = some t) :
    t.app = s.app := by
  unfold senderStep at hs
  split at hs
  case h_4 =>
    obtain ⟨⟨queue, data, size⟩, -, rfl⟩ := Option.map_eq_some_iff.mp hs
    simp only
    split <;> rfl
  case h_5 =>
    split at hs
    · split at hs <;> cases hs
      rfl
    · cases hs
      rfl
  case h_2 | h_6 => split at hs <;> cases hs <;> rfl
  case h_1 | h_3 | h_7 => cases hs <;> rfl

/-- A library that deletes the `ALCCSocket` never gets to `close(sockfd)`. -/
theorem deletes_of_closing {arr : List α} {data : Int → α} {sock : β}
    (hrun : run (step L) (init arr data sock) acts = some s) (hclosing : s.app = .closing) :
    L.deletes = false := by
  suffices h : s.app = .closing → L.deletes = false from h hclosing
  refine invariant (I := fun s : Connection α β τ => s.app = .closing → L.deletes = false)
    (fun s a t h hs => ?_) (fun h => by cases h) hrun
  cases a with
  | alccSend buffer buflen =>
    obtain ⟨queue, n, -, -, -, rfl⟩ := step_alccSend hs
    exact h
  | alccClose =>
    obtain ⟨-, rfl⟩ := step_alccClose hs
    exact fun h => by cases h
  | app =>
    simp only [step, appStep] at hs
    split at hs
    case h_2 => split at hs <;> cases hs <;> first | exact h | exact fun h => by cases h
    case h_4 =>
      cases hs
      simp
    case h_3 | h_5 =>
      cases hs
      exact fun h => by cases h
    all_goals cases hs
  | sender now ret =>
    rw [senderStep_app (step_sender hs).2]
    exact h
  | thread e =>
    obtain ⟨sock, -, -, rfl⟩ := step_thread hs
    exact h

/-- For every library, sequence of writes and interleaving: once `alcc_close` has left its loop,
all accepted bytes have been handed to `::send` exactly if the sender thread is not in the middle
of a chunk. -/
theorem all_handed_iff (L : Library β ε τ) {arr : List α} (harr : 1 ≤ arr.length) (data : Int → α)
    (sock : β) (hok : Guarded (step L) Orderly (init arr data sock) acts)
    (hrun : run (step L) (init arr data sock) acts = some s) (hleft : s.app.leftLoop = true) :
    s.handed = s.accepted ↔ ¬ s.MidChunk := by
  have hs : s.Drained :=
    hok.invariant (fun _ _ _ h hok hs => h.step hok hs) (.init harr data sock) hrun
  rw [← hs.unsent_eq_nil, ← hs.account, hs.drained hleft, List.append_nil,
    List.self_eq_append_right]

theorem all_handed_three_bytes :
    ∃ s, run (step (Verus.library default)) (init (List.replicate 8 0) (fun _ => 0) (.new ()))
        [.alccSend [1, 2, 3] 3, .sender () 0, .sender () 0, .sender () 0, .sender () 3, .alccClose,
          .app] = some s ∧ (s.handed = s.accepted ↔ ¬ s.MidChunk) :=
  have hrun := (Option.some_get (by decide +kernel)).symm
  ⟨_, hrun, all_handed_iff _ (by decide) _ _ (by decide +kernel) hrun (by decide +kernel)⟩

/-- The application calls `alcc_close` when the sender thread has taken three bytes out of the
queue and sent none of them. Verus closes the descriptor, `libalcc.cpp` ends the process. -/
theorem close_mid_chunk :
    (run (step (Verus.library default)) (init (List.replicate 8 0) (fun _ => 0) (.new ()))
      [.alccSend [1, 2, 3] 3, .sender () 0, .sender () 0, .sender () 0, .alccClose, .app, .app,
        .app]).map (fun s => (s.app, s.handed, s.accepted)) = some (.closing, [], [1, 2, 3]) ∧
    (run (step (Libalcc.library Unit)) (init (List.replicate 8 0) (fun _ => 0) (.new 0 0))
      [.alccSend [1, 2, 3] 3, .sender () 0, .sender () 0, .sender () 0, .alccClose, .app, .app,
        .app]).map (fun s => (s.app, s.handed, s.accepted)) = some (.aborted, [], [1, 2, 3]) := by
  decide +kernel

end ALCC.Connection
