import ALCC.Verify.CopaAccounts
import ALCC.Verify.LibalccAccounts
import ALCC.Verify.VerusAccounts

/-! Packets that stay outstanding in the three libraries (`settled_of_inStep`). A chunk that is
shorter than `MTU` is enough for it: each library counts it when it is sent, and none credits it
(`short_chunk_not_settled`). -/

namespace ALCC

open Machine Tcp

variable {α γ τ : Type*}

/-- For each of the three libraries, every sequence of writes and every interleaving: as long as the
run stays in step, no packet is outstanding when everything is acknowledged. -/
theorem settled_of_inStep {arr : List α} (harr : 1 ≤ arr.length) (data : Int → α) (first : Nat) :
    (∀ port cwnd acts,
      Guarded (step (Libalcc.library τ) (Libalcc.receiver τ) first)
          (InStep (Libalcc.library τ) (Libalcc.terms α τ) first)
          (init arr data (.new port cwnd)) acts →
        Always (step (Libalcc.library τ) (Libalcc.receiver τ) first)
          (Settled (Libalcc.receiver τ)) (init arr data (.new port cwnd)) acts) ∧
    (∀ (C : Verus.Controller γ τ) ctl acts,
      Guarded (step (Verus.library C) (Verus.receiver γ τ) first)
          (InStep (Verus.library C) (Verus.terms α γ τ) first) (init arr data (.new ctl)) acts →
        Always (step (Verus.library C) (Verus.receiver γ τ) first)
          (Settled (Verus.receiver γ τ)) (init arr data (.new ctl)) acts) ∧
    ∀ (C : Copa.Controller γ τ) ctl acts,
      Guarded (step (Copa.library C) (Copa.receiver γ τ) first)
          (InStep (Copa.library C) (Copa.terms α γ τ) first) (init arr data (.new ctl)) acts →
        Always (step (Copa.library C) (Copa.receiver γ τ) first)
          (Settled (Copa.receiver γ τ)) (init arr data (.new ctl)) acts :=
  ⟨fun port cwnd _ => (Libalcc.accounts α τ first).always_settled harr (.new port cwnd),
    fun C ctl _ => (Verus.accounts C first).always_settled harr (.new ctl),
    fun C ctl _ => (Copa.accounts C first).always_settled harr (.new ctl)⟩

/-- A write of `bytes` bytes is dequeued at once, sent at once, recorded with `updates` updates, and
acknowledged. The receiver thread is back at `recvmsg` `waits` steps after the first segment. -/
def writeRun {ε κ : Type*} (bytes updates waits : Nat) (silent : ε) (clock : κ) :
    List (Tcp.Action Unit ε Unit κ) :=
  [.act (.alccSend (List.replicate bytes ()) bytes), .act (.thread silent)] ++
    List.replicate 3 (.act (.sender () 0)) ++ [.act (.sender () bytes)] ++
    List.replicate (updates + 2) (.act (.sender () 0)) ++
    [.segment ⟨CC_PORT, 50000, 1, 0⟩ clock] ++ List.replicate waits (.act (.thread silent)) ++
    [.ack ⟨⟨50000, CC_PORT, 0, UInt32.ofNat (1 + bytes)⟩, bytes, clock⟩] ++
    List.replicate 2 (.act (.thread silent))

theorem settled_whole_packets :
    Always (step (Libalcc.library Unit) (Libalcc.receiver Unit) 1) (Settled (Libalcc.receiver Unit))
        (init (List.replicate 2000 ()) (fun _ => ()) (.new 50000 0))
        (writeRun 1448 3 1 (.receiver none) ()) ∧
      Always (step (Verus.library default) (Verus.receiver Unit Unit) 1)
        (Settled (Verus.receiver Unit Unit))
        (init (List.replicate 2000 ()) (fun _ => ()) (.new ()))
        (writeRun 1448 4 2 (.receiver none ()) ()) ∧
      Always (step (Copa.library default) (Copa.receiver Unit Unit) 1)
        (Settled (Copa.receiver Unit Unit))
        (init (List.replicate 2000 ()) (fun _ => ()) (.new ()))
        (writeRun 1484 5 1 (.receiver none ()) fun _ => ()) := by
  have harr : 1 ≤ (List.replicate 2000 ()).length := by
    rw [List.length_replicate]
    decide
  obtain ⟨hlibalcc, hverus, hcopa⟩ :=
    settled_of_inStep (γ := Unit) (τ := Unit) harr (fun _ => ()) 1
  exact ⟨hlibalcc 50000 0 _ (by decide +kernel), hverus default () _ (by decide +kernel),
    hcopa default () _ (by decide +kernel)⟩

/-- A write of a single byte makes a packet for the sender thread, and none for the receiver thread:
it stays outstanding. -/
theorem short_chunk_not_settled :
    ¬ Always (step (Libalcc.library Unit) (Libalcc.receiver Unit) 1)
        (Settled (Libalcc.receiver Unit)) (init (List.replicate 4 ()) (fun _ => ()) (.new 50000 0))
        (writeRun 1 3 1 (.receiver none) ()) ∧
      ¬ Always (step (Verus.library default) (Verus.receiver Unit Unit) 1)
        (Settled (Verus.receiver Unit Unit))
        (init (List.replicate 4 ()) (fun _ => ()) (.new ()))
        (writeRun 1 4 2 (.receiver none ()) ()) ∧
      ¬ Always (step (Copa.library default) (Copa.receiver Unit Unit) 1)
        (Settled (Copa.receiver Unit Unit))
        (init (List.replicate 4 ()) (fun _ => ()) (.new ()))
        (writeRun 1 5 1 (.receiver none ()) fun _ => ()) :=
  have hlibalcc := (Option.some_get (by decide +kernel)).symm
  have hverus := (Option.some_get (by decide +kernel)).symm
  have hcopa := (Option.some_get (by decide +kernel)).symm
  ⟨fun h => absurd (h.last hlibalcc) (by decide +kernel),
    fun h => absurd (h.last hverus) (by decide +kernel),
    fun h => absurd (h.last hcopa) (by decide +kernel)⟩

end ALCC
