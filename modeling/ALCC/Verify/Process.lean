import ALCC.Model.Process
import ALCC.Theory.Run
import ALCC.Verify.Connection

/-! Which `ALCCSocket` a call and a thread work on. `alcc_send` and `alcc_close` work on the one of
the latest `alcc_accept` if there was one for the descriptor. `alcc_close` does not wait for the
threads before it deletes an `ALCCSocket`, so that they may go on in it until the process is gone
(`proper_of_sound`). -/

namespace ALCC

open Connection Machine

variable {α β ε τ : Type*}

/-- When the threads besides the sender have returned. -/
structure Workers (L : Library β ε τ) where
  returned : β → Bool
  stays : ∀ {b e terminateThreads}, returned b = true → L.thread e terminateThreads b = none

def Connection.SenderPc.isReturned : SenderPc α τ → Bool
  | .returned => true
  | _ => false

/-- All threads of the `ALCCSocket` have returned. -/
def Cell.Idle {L : Library β ε τ} (W : Workers L) (cell : Cell α β τ) : Prop :=
  cell.conn.pc.isReturned = true ∧ W.returned cell.conn.sock = true

instance {L : Library β ε τ} (W : Workers L) (cell : Cell α β τ) : Decidable (cell.Idle W) :=
  inferInstanceAs (Decidable (_ ∧ _))

section

variable {L : Library β ε τ} {W : Workers L} {cell : Cell α β τ}

/-- Threads that have returned take no step. -/
theorem Cell.Idle.sender {now : τ} {ret : Int} (h : cell.Idle W) :
    cell.conn.step L (.sender now ret) = none := by
  have hpc := h.1
  simp only [Connection.step]
  split
  · rfl
  · unfold SenderPc.isReturned at hpc
    split at hpc
    · rename_i hreturned
      rw [senderStep, hreturned]
    · cases hpc

theorem Cell.Idle.thread {e : ε} (h : cell.Idle W) : cell.conn.step L (.thread e) = none := by
  simp only [Connection.step, W.stays h.2]
  split <;> rfl

end

namespace Process

variable {L : Library β ε τ} {W : Workers L} {s t : Process α β τ} {a : Action α β ε τ}
  {address : Nat} {cell : Cell α β τ}

/-- The `ALCCSocket` that the latest `alcc_accept` created which returned `sockfd`. -/
def latest (s : Process α β τ) (sockfd : Int) : Option Nat := s.accepts.lookup sockfd

/-- The `ALCCSocket` at `address` is not deleted. -/
def Alive (s : Process α β τ) (address : Nat) : Prop :=
  ∃ cell ∈ s.heap[address]?, cell.deleted = false

instance (s : Process α β τ) (address : Nat) : Decidable (s.Alive address) :=
  inferInstanceAs (Decidable (∃ cell ∈ _, _))

/-- A call works on the `ALCCSocket` of its descriptor, and neither a call nor a thread works on a
deleted one. -/
def Proper (L : Library β ε τ) (s : Process α β τ) (a : Action α β ε τ) : Prop :=
  (s.step L a).isSome →
    match a with
    | .alccSend sockfd _ _ unset | .alccClose sockfd unset =>
      s.latest sockfd = some (s.alcc sockfd unset) ∧ s.Alive (s.alcc sockfd unset)
    | .sender address .. | .thread address _ => s.Alive address
    | .alccAccept .. | .app => True

instance (s : Process α β τ) (a : Action α β ε τ) : Decidable (Proper L s a) := by
  unfold Proper
  cases a <;> infer_instance

/-- An earlier `alcc_accept` returned the descriptor of the call, and the threads of an `ALCCSocket`
have returned when `alcc_close` deletes it. -/
def Sound {L : Library β ε τ} (W : Workers L) (s : Process α β τ) : Action α β ε τ → Prop
  | .alccSend sockfd .. | .alccClose sockfd _ => (s.latest sockfd).isSome = true
  | .app => ∀ p ∈ s.closingCell, p.2.conn.app = .deleting → L.deletes = true → p.2.Idle W
  | _ => True

instance (s : Process α β τ) (a : Action α β ε τ) : Decidable (Sound W s a) := by
  unfold Sound
  split <;> infer_instance

/-- What holds of a deleted `ALCCSocket`: `alcc_close` is still in `delete`, until the process
ends. -/
structure Deleted (W : Workers L) (s : Process α β τ) (address : Nat) (cell : Cell α β τ) :
    Prop where
  idle : cell.Idle W
  closing : s.ended = false →
    s.closing = some address ∧ cell.conn.app = .deleting ∧ L.deletes = true

structure ProcessInv (W : Workers L) (s : Process α β τ) : Prop where
  lookup : ∀ sockfd, s.alccSocketList.lookup sockfd = s.latest sockfd
  created : ∀ sockfd address, s.latest sockfd = some address → address < s.heap.length
  deleted : ∀ address cell, s.heap[address]? = some cell → cell.deleted = true →
    Deleted W s address cell

namespace ProcessInv

theorem init : ProcessInv W (.init : Process α β τ) where
  lookup _ := rfl
  created _ _ h := by cases h
  deleted _ _ h := by cases h

/-- Nothing is deleted while the application is not in `alcc_close`. -/
theorem alive (h : ProcessInv W s) (hended : s.ended = false) (hclosing : s.closing = none)
    (hlt : address < s.heap.length) : s.Alive address := by
  refine ⟨s.heap[address], List.getElem?_eq_getElem hlt, ?_⟩
  by_contra hdeleted
  have hd := h.deleted address _ (List.getElem?_eq_getElem hlt) (Bool.not_eq_false _ ▸ hdeleted)
  rw [(hd.closing hended).1] at hclosing
  cases hclosing

theorem alccAccept (h : ProcessInv W s) (new_sockfd : Int) (conn : Connection α β τ) :
    ProcessInv W { s with
      heap := s.heap ++ [⟨conn, false⟩]
      alccSocketList := s.alccSocketList.insert new_sockfd s.heap.length
      accepts := (new_sockfd, s.heap.length) :: s.accepts } where
  lookup sockfd := by
    simp only [latest, List.lookup_cons]
    by_cases heq : sockfd = new_sockfd
    · rw [heq, beq_self_eq_true, Finmap.lookup_insert]
    · rw [beq_false_of_ne heq, Finmap.lookup_insert_of_ne _ heq]
      exact h.lookup sockfd
  created sockfd address hlatest := by
    simp only [latest, List.lookup_cons] at hlatest
    rw [List.length_append]
    split at hlatest
    · cases hlatest
      exact Nat.lt_succ_self _
    · exact Nat.lt_succ_of_lt (h.created sockfd address hlatest)
  deleted address cell hcell hdeleted := by
    rcases Nat.lt_trichotomy address s.heap.length with hlt | rfl | hlt
    · rw [List.getElem?_append_left hlt] at hcell
      have hd := h.deleted address cell hcell hdeleted
      exact ⟨hd.idle, hd.closing⟩
    · rw [List.getElem?_append_right (Nat.le_refl _), Nat.sub_self] at hcell
      cases hcell
      cases hdeleted
    · rw [List.getElem?_eq_none (by rw [List.length_append]; exact hlt)] at hcell
      cases hcell

/-- The cell at `address` changes. -/
theorem set (h : ProcessInv W s) (cell' : Cell α β τ) {closing : Option Nat} {ended : Bool}
    (hset : cell'.deleted = true →
      Deleted W { s with heap := s.heap.set address cell', closing, ended } address cell')
    (hclosing : closing = s.closing ∨ s.closing = none ∨ s.closing = some address)
    (hended : ended = false → s.ended = false) :
    ProcessInv W { s with heap := s.heap.set address cell', closing, ended } where
  lookup := h.lookup
  created sockfd address hlatest := by
    rw [List.length_set]
    exact h.created sockfd address hlatest
  deleted other cell hcell hdeleted := by
    rw [List.getElem?_set] at hcell
    split at hcell
    · rename_i heq
      split at hcell
      · cases hcell
        exact heq ▸ hset hdeleted
      · cases hcell
    · rename_i hne
      have hd := h.deleted other cell hcell hdeleted
      refine ⟨hd.idle, fun hend => ?_⟩
      obtain ⟨hother, happ, hdeletes⟩ := hd.closing (hended hend)
      refine ⟨?_, happ, hdeletes⟩
      rcases hclosing with rfl | hnone | hsame
      · exact hother
      · cases hnone.symm.trans hother
      · exact absurd (Option.some.inj (hsame.symm.trans hother)) hne

/-- A step of a connection that is not enabled in a deleted `ALCCSocket`. -/
theorem connStep {a : Connection.Action α ε τ} (h : ProcessInv W s)
    (hs : s.connStep L address a = some t)
    (hkept : ∀ cell, s.heap[address]? = some cell → cell.deleted = true →
      cell.conn.step L a = none)
    (closing : Option Nat) (hclosing : closing = t.closing ∨ s.closing = none) :
    ProcessInv W { t with closing } := by
  rw [Process.connStep] at hs
  split at hs
  · rename_i cell hcell
    obtain ⟨conn, hconn, rfl⟩ := Option.map_eq_some_iff.mp hs
    refine h.set _ ?_ (hclosing.imp id .inl) id
    intro hdeleted
    rw [hkept cell hcell hdeleted] at hconn
    cases hconn
  · cases hs
    refine ⟨h.lookup, h.created, fun address cell hcell hdeleted => ?_⟩
    exact ⟨(h.deleted address cell hcell hdeleted).idle, by rintro ⟨⟩⟩

/-- A step within `alcc_close`. -/
theorem closeStep (h : ProcessInv W s) (hended : s.ended = false)
    (hclosing : s.closing = some address) (hcell : s.heap[address]? = some cell)
    (hidle : cell.conn.app = .deleting → L.deletes = true → cell.Idle W)
    (hs : s.closeStep L address cell = some t) : ProcessInv W t := by
  rw [Process.closeStep] at hs
  split at hs
  · rename_i hdelete
    cases hs
    refine h.set _ ?_ (.inl rfl) id
    intro _
    exact ⟨hidle hdelete.1 hdelete.2.1, fun _ => ⟨hclosing, hdelete.1, hdelete.2.1⟩⟩
  · obtain ⟨conn, hconn, rfl⟩ := Option.map_eq_some_iff.mp hs
    refine h.set _ ?_ (.inr (.inr hclosing)) fun _ => hended
    intro hdeleted
    have hd := h.deleted address cell hcell hdeleted
    obtain ⟨-, happ, hdeletes⟩ := hd.closing hended
    have haborted : conn = { cell.conn with app := .aborted } := by
      rw [appStep, happ, hdeletes] at hconn
      exact (Option.some.inj hconn).symm
    rw [haborted]
    exact ⟨hd.idle, by rintro ⟨⟩⟩

theorem step (h : ProcessInv W s) (hG : Sound W s a) (hs : s.step L a = some t) :
    ProcessInv W t := by
  obtain ⟨hended, hs⟩ := Option.ite_none_left_eq_some.mp hs
  rw [Bool.not_eq_true] at hended
  cases a with
  | alccAccept new_sockfd cqueueArr data sock =>
    obtain ⟨-, hs⟩ := Option.ite_none_left_eq_some.mp hs
    cases hs
    exact h.alccAccept new_sockfd _
  | alccSend sockfd buffer buflen unset =>
    obtain ⟨hclosing, hs⟩ := Option.ite_none_left_eq_some.mp hs
    rw [Bool.not_eq_true, Option.isSome_eq_false_iff, Option.isNone_iff_eq_none] at hclosing
    apply h.connStep hs (fun cell hcell hdeleted => ?_) t.closing (.inl rfl)
    have := ((h.deleted _ cell hcell hdeleted).closing hended).1
    cases hclosing.symm.trans this
  | alccClose sockfd unset =>
    obtain ⟨hclosing, hs⟩ := Option.ite_none_left_eq_some.mp hs
    rw [Bool.not_eq_true, Option.isSome_eq_false_iff, Option.isNone_iff_eq_none] at hclosing
    obtain ⟨u, hu, rfl⟩ := Option.map_eq_some_iff.mp hs
    apply h.connStep hu (fun cell hcell hdeleted => ?_) _ (.inr hclosing)
    have := ((h.deleted _ cell hcell hdeleted).closing hended).1
    cases hclosing.symm.trans this
  | app =>
    obtain ⟨⟨address, cell⟩, hclosingCell, hs⟩ := Option.bind_eq_some_iff.mp hs
    have hidle := hG _ hclosingCell
    obtain ⟨address, hclosing, hcell⟩ := Option.bind_eq_some_iff.mp hclosingCell
    obtain ⟨cell, hcell, heq⟩ := Option.map_eq_some_iff.mp hcell
    cases heq
    exact h.closeStep hended hclosing hcell hidle hs
  | sender address now ret =>
    obtain ⟨-, hs⟩ := Option.ite_none_right_eq_some.mp hs
    apply h.connStep hs (fun cell hcell hdeleted => ?_) t.closing (.inl rfl)
    exact (h.deleted _ cell hcell hdeleted).idle.sender
  | thread address e =>
    obtain ⟨-, hs⟩ := Option.ite_none_right_eq_some.mp hs
    apply h.connStep hs (fun cell hcell hdeleted => ?_) t.closing (.inl rfl)
    exact (h.deleted _ cell hcell hdeleted).idle.thread

/-- A thread that takes a step has not returned, so its `ALCCSocket` is not deleted. -/
theorem alive_of_worker {a : Connection.Action α ε τ} (h : ProcessInv W s)
    (hs : s.connStep L address a = some t) (hlt : address < s.heap.length)
    (hidle : ∀ cell : Cell α β τ, cell.Idle W → cell.conn.step L a = none) : s.Alive address := by
  have hcell := List.getElem?_eq_getElem hlt
  refine ⟨s.heap[address], hcell, ?_⟩
  by_contra hdeleted
  have hd := h.deleted address _ hcell (Bool.not_eq_false _ ▸ hdeleted)
  simp only [Process.connStep, hcell, hidle _ hd.idle, Option.map_none] at hs
  cases hs

theorem proper (h : ProcessInv W s) (hG : Sound W s a) : Proper L s a := by
  intro hs
  obtain ⟨t, hs⟩ := Option.isSome_iff_exists.mp hs
  obtain ⟨hended, hs⟩ := Option.ite_none_left_eq_some.mp hs
  rw [Bool.not_eq_true] at hended
  have hcall : ∀ sockfd unset, (s.latest sockfd).isSome = true → ¬ s.closing.isSome = true →
      s.latest sockfd = some (s.alcc sockfd unset) ∧ s.Alive (s.alcc sockfd unset) := by
    intro sockfd unset hsome hclosing
    rw [Bool.not_eq_true, Option.isSome_eq_false_iff, Option.isNone_iff_eq_none] at hclosing
    obtain ⟨address, haddress⟩ := Option.isSome_iff_exists.mp hsome
    have halcc : s.alcc sockfd unset = address := by
      rw [alcc, h.lookup, haddress, Option.getD_some]
    rw [halcc]
    exact ⟨haddress, h.alive hended hclosing (h.created sockfd address haddress)⟩
  cases a with
  | alccAccept | app => trivial
  | alccSend sockfd buffer buflen unset =>
    obtain ⟨hclosing, -⟩ := Option.ite_none_left_eq_some.mp hs
    exact hcall sockfd unset hG hclosing
  | alccClose sockfd unset =>
    obtain ⟨hclosing, -⟩ := Option.ite_none_left_eq_some.mp hs
    exact hcall sockfd unset hG hclosing
  | sender address now ret =>
    obtain ⟨hlt, hs⟩ := Option.ite_none_right_eq_some.mp hs
    exact h.alive_of_worker hs hlt fun cell hidle => hidle.sender
  | thread address e =>
    obtain ⟨hlt, hs⟩ := Option.ite_none_right_eq_some.mp hs
    exact h.alive_of_worker hs hlt fun cell hidle => hidle.thread

end ProcessInv

/-- What is sound is proper, for any library. -/
theorem guarded_proper (W : Workers L) {acts : List (Action α β ε τ)}
    (h : Guarded (step L) (Sound W) init acts) : Guarded (step L) (Proper L) init acts :=
  h.guarded (fun _ _ _ h hG hs => ProcessInv.step h hG hs) (fun _ _ h hG => h.proper hG)
    ProcessInv.init

end Process

/-- `ack_receiver` has returned, and `CC_logic` too if it has been started. -/
def Libalcc.workers (τ : Type*) : Workers (Libalcc.library τ) where
  returned b := b.receiver = .returned ∧ (b.sock.cc_loigc_thread = true → b.cc = .returned)
  stays {b e terminateThreads} h := by
    obtain ⟨hreceiver, hcc⟩ := of_decide_eq_true h
    cases e with
    | receiver m => simp only [library, Threads.step, Threads.receiverStep, hreceiver]
    | cc junk =>
      simp only [library, Threads.step, Threads.ccStep]
      split
      · rename_i hstarted
        rw [hcc hstarted]
      · rfl

def Copa.workers {γ : Type*} (C : Controller γ τ) : Workers (Copa.libraryCC C) where
  returned b := b.1.receiver = .returned ∧ (b.1.sock.cc_loigc_thread = true → b.2 = .returned)
  stays {b e terminateThreads} h := by
    obtain ⟨hreceiver, hcc⟩ := of_decide_eq_true h
    cases e with
    | some e =>
      cases e with
      | receiver m now =>
        simp only [libraryCC, library, Threads.step, Threads.receiverStep, hreceiver,
          Option.map_none]
    | none =>
      simp only [libraryCC, ccStep]
      split
      · rename_i hstarted
        simp only [hcc hstarted, Option.map_none]
      · rfl

namespace Process

/-- **Every call works on the `ALCCSocket` of its descriptor, and nothing on a deleted one**, in
`libalcc.cpp` and in `libalcc_copa.cpp`: as long as calls are about descriptors that `alcc_accept`
returned, and the threads of an `ALCCSocket` have returned when `alcc_close` deletes it. -/
theorem proper_of_sound {γ : Type*} (C : Copa.Controller γ τ) :
    (∀ acts : List (Action α (Libalcc.Threads τ) Libalcc.Event τ),
      Guarded (step (Libalcc.library τ)) (Sound (Libalcc.workers τ)) init acts →
        Guarded (step (Libalcc.library τ)) (Proper (Libalcc.library τ)) init acts) ∧
    ∀ acts : List (Action α (Copa.Threads γ τ × Copa.CCPc) (Option (Copa.Event τ)) τ),
      Guarded (step (Copa.libraryCC C)) (Sound (Copa.workers C)) init acts →
        Guarded (step (Copa.libraryCC C)) (Proper (Copa.libraryCC C)) init acts :=
  ⟨fun _ => guarded_proper _, fun _ => guarded_proper _⟩

/-- Two connections are made, with the descriptors 4 and 5. -/
def twoAccepts {β ε : Type*} (sock : β) : List (Action Nat β ε Unit) :=
  [.alccAccept 4 (List.replicate 4 0) (fun _ => 0) sock,
    .alccAccept 5 (List.replicate 4 0) (fun _ => 0) sock]

/-- `alcc_close` of the first one begins with the deletion after the steps `workers`. -/
def closeRun {β ε : Type*} (sock : β) (workers : List (Action Nat β ε Unit)) :
    List (Action Nat β ε Unit) :=
  twoAccepts sock ++ [.alccSend 5 [1] 1 0, .alccClose 4 0, .app, .app] ++ workers ++ [.app]

theorem proper_close :
    Guarded (step (Libalcc.library Unit)) (Proper (Libalcc.library Unit)) init
        (closeRun (.new 50000 0) [.sender 0 () 0, .thread 0 (.receiver none)]) ∧
      Guarded (step (Copa.libraryCC default)) (Proper (Copa.libraryCC default)) init
        (closeRun (.new (), .start) [.sender 0 () 0, .thread 0 (some (.receiver none ()))]) :=
  ⟨(proper_of_sound (γ := Unit) default).1 _ (by decide +kernel),
    (proper_of_sound default).2 _ (by decide +kernel)⟩

/-- A call for a descriptor that `alcc_accept` never returned. The unset pointer points to the
`ALCCSocket` of the second descriptor. -/
def unknownDescriptor {β ε : Type*} (sock : β) : List (Action Nat β ε Unit) :=
  twoAccepts sock ++ [.alccSend 6 [1] 1 1]

/-- `alcc_send` works on the `ALCCSocket` of another descriptor, and the receiver thread goes on in
an `ALCCSocket` that is being deleted. -/
theorem unknown_descriptor_not_proper :
    (¬ Guarded (step (Libalcc.library Unit)) (Proper (Libalcc.library Unit)) init
          (unknownDescriptor (.new 50000 0)) ∧
        ¬ Guarded (step (Libalcc.library Unit)) (Proper (Libalcc.library Unit)) init
          (closeRun (.new 50000 0) [] ++ [.thread 0 (.receiver none)])) ∧
      ¬ Guarded (step (Copa.libraryCC default)) (Proper (Copa.libraryCC default)) init
          (unknownDescriptor (.new (), .start)) ∧
        ¬ Guarded (step (Copa.libraryCC default)) (Proper (Copa.libraryCC default)) init
          (closeRun (.new (), .start) [] ++ [.thread 0 (some (.receiver none ()))]) := by
  decide +kernel

end Process

end ALCC
