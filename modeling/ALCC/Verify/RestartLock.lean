import ALCC.Model.RestartLock
import ALCC.Theory.Mutex
import ALCC.Theory.Run

/-! `restartLock` is to keep `restartSlowStart` and the inner loop of `ALCCSend` apart. It does as
long as no thread holds it when `ALCCReceive` unlocks it (`exclusive_of_paired`). -/

namespace ALCC.Verus

open Machine Mutex

/-- `ALCCSend` is between its lock and unlock of `restartLock`. -/
def SendPhase.Inside : SendPhase → Prop
  | .inside | .unlocking => True
  | .test | .locking => False

/-- The thread is in the body of `restartSlowStart`. -/
def RestartPc.Inside : RestartPc → Prop
  | .body | .unlocking => True
  | .locking => False

def VerusPc.Inside : VerusPc → Prop
  | .restarting pc => pc.Inside
  | _ => False

def CurvePc.Inside : CurvePc → Prop
  | .restarting pc => pc.Inside
  | _ => False

instance : DecidablePred SendPhase.Inside := fun pc => by
  cases pc <;> unfold SendPhase.Inside <;> infer_instance

instance : DecidablePred RestartPc.Inside := fun pc => by
  cases pc <;> unfold RestartPc.Inside <;> infer_instance

instance : DecidablePred VerusPc.Inside := fun pc => by
  cases pc <;> unfold VerusPc.Inside <;> infer_instance

instance : DecidablePred CurvePc.Inside := fun pc => by
  cases pc <;> unfold CurvePc.Inside <;> infer_instance

namespace Locked

variable {α : Type*} {s t : Locked α} {a : Action α}

/-- No thread is in the body of `restartSlowStart` while `ALCCSend` is between its lock and
unlock. -/
def Exclusive (s : Locked α) : Prop := ¬ (s.send.Inside ∧ (s.verus.Inside ∨ s.curve.Inside))

instance (s : Locked α) : Decidable s.Exclusive := inferInstanceAs (Decidable (¬ (_ ∧ _)))

/-- `restartLock` is free when `ALCCReceive` unlocks it. -/
def Paired (s : Locked α) : Action α → Prop
  | .receive .. => s.unlocks = true → s.restartLock = false
  | _ => True

instance (s : Locked α) (a : Action α) : Decidable (s.Paired a) := by
  unfold Paired
  split <;> infer_instance

/-- The threads that lock `restartLock`. -/
inductive Holder where
  | send
  | verus
  | curve

def Inside (s : Locked α) : Holder → Prop
  | .send => s.send.Inside
  | .verus => s.verus.Inside
  | .curve => s.curve.Inside

/-- A step of the connection leaves the threads where they are. -/
theorem connStep_eq {a : Connection.Action α (Event Window Timeval) Timeval}
    (hs : s.connStep a = some t) : ∃ conn, t = { s with conn } := by
  obtain ⟨conn, -, rfl⟩ := Option.map_eq_some_iff.mp hs
  exact ⟨conn, rfl⟩

/-- What a step in `restartSlowStart` does to `restartLock`. -/
theorem restartStep_cases {pc : RestartPc} {pc' : Option RestartPc}
    (hs : s.restartStep pc = some (t, pc')) :
    pc = .locking ∧ s.restartLock = false ∧ pc' = some .body ∧ t = { s with restartLock := true } ∨
      pc = .body ∧ pc' = some .unlocking ∧ (∃ conn, t = { s with conn }) ∨
      pc = .unlocking ∧ pc' = none ∧ t = { s with restartLock := false } := by
  cases pc with
  | locking =>
    obtain ⟨hfree, hs⟩ := Option.ite_none_left_eq_some.mp hs
    cases hs
    exact .inl ⟨rfl, Bool.eq_false_iff.mpr hfree, rfl, rfl⟩
  | body =>
    cases hs
    exact .inr (.inl ⟨rfl, rfl, _, rfl⟩)
  | unlocking =>
    cases hs
    exact .inr (.inr ⟨rfl, rfl, rfl⟩)

/-- A step in `restartSlowStart` moves no other thread. -/
theorem restartStep_kept {pc : RestartPc} {pc' : Option RestartPc}
    (hs : s.restartStep pc = some (t, pc')) :
    (t.send.Inside → s.send.Inside) ∧ (t.verus.Inside → s.verus.Inside) ∧
      (t.curve.Inside → s.curve.Inside) := by
  rcases restartStep_cases hs with ⟨-, -, -, rfl⟩ | ⟨-, -, conn, rfl⟩ | ⟨-, -, rfl⟩ <;>
    exact ⟨id, id, id⟩

/-- `restartLock` keeps the threads apart that lock it. -/
def LockInv (s : Locked α) : Prop := Excludes s.restartLock s.Inside

namespace LockInv

theorem init (arr : List α) (data : Int → α) (ctl : Window) : LockInv (.init arr data ctl) := by
  have hnone : ∀ i, ¬ (Locked.init arr data ctl).Inside i := by
    intro i
    cases i <;> exact id
  exact ⟨fun i _ hi => absurd hi (hnone i), fun i hi => absurd hi (hnone i)⟩

theorem exclusive (h : LockInv s) : Exclusive s := by
  rintro ⟨hsend, hverus | hcurve⟩
  · cases h.unique .send .verus hsend hverus
  · cases h.unique .send .curve hsend hcurve

/-- A step that moves no thread in. -/
theorem kept (h : LockInv s) (hlock : t.restartLock = s.restartLock)
    (hsend : t.send.Inside → s.send.Inside) (hverus : t.verus.Inside → s.verus.Inside)
    (hcurve : t.curve.Inside → s.curve.Inside) : LockInv t := by
  unfold LockInv
  rw [hlock]
  apply h.mono
  intro i
  cases i
  exacts [hsend, hverus, hcurve]

theorem sendStep {now : Timeval} {ret : Int} (h : LockInv s)
    (hs : s.sendStep now ret = some t) : LockInv t := by
  unfold Locked.sendStep at hs
  split at hs
  case h_1 =>
    obtain ⟨u, hu, rfl⟩ := Option.map_eq_some_iff.mp hs
    obtain ⟨conn, rfl⟩ := connStep_eq hu
    refine h.kept rfl ?_ id id
    dsimp only
    split <;> exact False.elim
  case h_2 =>
    obtain ⟨hfree, hs⟩ := Option.ite_none_left_eq_some.mp hs
    cases hs
    apply h.lock (Bool.eq_false_iff.mpr hfree) (i := .send)
    intro j hj
    cases j with
    | send => exact .inl rfl
    | verus | curve => exact .inr hj
  case h_3 hsend =>
    obtain ⟨u, hu, rfl⟩ := Option.map_eq_some_iff.mp hs
    obtain ⟨conn, rfl⟩ := connStep_eq hu
    exact h.kept rfl (fun _ => hsend ▸ trivial) id id
  case h_4 hsend =>
    cases hs
    have hin : s.Inside .send := show s.send.Inside from hsend ▸ trivial
    apply h.unlock hin
    intro j hj
    cases j with
    | send => exact hj.elim
    | verus | curve => exact ⟨by rintro ⟨⟩, hj⟩

/-- A step of thread `i` in `restartSlowStart`. -/
theorem restartStep {u : Locked α} {pc : RestartPc} {pc' : Option RestartPc} (h : LockInv s)
    (i : Holder) (hpc : pc.Inside → s.Inside i) (hs : s.restartStep pc = some (u, pc'))
    (hlock : t.restartLock = u.restartLock) (hi : t.Inside i → pc' ≠ none)
    (hother : ∀ j, t.Inside j → j = i ∨ s.Inside j) : LockInv t := by
  unfold LockInv
  rw [hlock]
  rcases restartStep_cases hs with ⟨rfl, hfree, rfl, rfl⟩ | ⟨rfl, rfl, conn, rfl⟩ | ⟨rfl, rfl, rfl⟩
  · exact h.lock hfree hother
  · apply h.mono
    intro j hj
    rcases hother j hj with rfl | hin
    · exact hpc trivial
    · exact hin
  · apply h.unlock (hpc trivial)
    intro j hj
    have hne : j ≠ i := by
      rintro rfl
      exact hi hj rfl
    exact ⟨hne, (hother j hj).resolve_left hne⟩

theorem verusStep {epoch : Option (Window × Int)} (h : LockInv s)
    (hs : s.verusStep epoch = some t) : LockInv t := by
  unfold Locked.verusStep at hs
  split at hs
  case h_1 =>
    cases hs
    refine h.kept rfl id ?_ id
    dsimp only
    split_ifs <;> exact False.elim
  case h_2 =>
    cases epoch with
    | some epoch =>
      obtain ⟨u, hu, rfl⟩ := Option.map_eq_some_iff.mp hs
      obtain ⟨conn, rfl⟩ := connStep_eq hu
      exact h.kept rfl id False.elim id
    | none =>
      cases hs
      exact h.kept rfl id False.elim id
  case h_3 pc hverus =>
    obtain ⟨⟨u, pc'⟩, hu, rfl⟩ := Option.map_eq_some_iff.mp hs
    obtain ⟨hsend, -, hcurve⟩ := restartStep_kept hu
    refine h.restartStep .verus ?_ hu rfl ?_ ?_
    · intro hin
      change s.verus.Inside
      rwa [hverus]
    · cases pc' with
      | some pc' => exact fun _ => Option.some_ne_none pc'
      | none => exact False.elim
    · intro j hj
      cases j with
      | verus => exact .inl rfl
      | send => exact .inr (hsend hj)
      | curve => exact .inr (hcurve hj)
  case h_4 => cases hs

theorem curveStep {throws : Bool} (h : LockInv s) (hs : s.curveStep throws = some t) :
    LockInv t := by
  unfold Locked.curveStep at hs
  split at hs
  case h_1 =>
    split_ifs at hs
    · cases hs
      exact h.kept rfl id id False.elim
    · cases hs
      exact h
    · cases hs
      refine h.kept rfl id id ?_
      dsimp only
      split_ifs <;> exact False.elim
  case h_2 =>
    cases hs
    refine h.kept rfl id id ?_
    cases throws <;> exact False.elim
  case h_3 pc hcurve =>
    obtain ⟨⟨u, pc'⟩, hu, rfl⟩ := Option.map_eq_some_iff.mp hs
    obtain ⟨hsend, hverus, -⟩ := restartStep_kept hu
    refine h.restartStep .curve ?_ hu rfl ?_ ?_
    · intro hin
      change s.curve.Inside
      rwa [hcurve]
    · cases pc' with
      | some pc' => exact fun _ => Option.some_ne_none pc'
      | none => exact False.elim
    · intro j hj
      cases j with
      | curve => exact .inl rfl
      | send => exact .inr (hsend hj)
      | verus => exact .inr (hverus hj)
  case h_4 => cases hs

/-- `ALCCReceive` may only unlock. -/
theorem receiveStep {m : Option Message} {now : Timeval} (h : LockInv s)
    (hpaired : s.unlocks = true → s.restartLock = false) (hs : s.receiveStep m now = some t) :
    LockInv t := by
  unfold Locked.receiveStep at hs
  split at hs
  · rename_i hunlocks
    cases hs
    exact (h.unlock_free (hpaired hunlocks)).mono fun i hi => by cases i <;> exact hi
  · obtain ⟨u, hu, rfl⟩ := Option.map_eq_some_iff.mp hs
    obtain ⟨conn, rfl⟩ := connStep_eq hu
    exact h.kept rfl id id id

theorem step (h : LockInv s) (hG : s.Paired a) (hs : s.step a = some t) : LockInv t := by
  cases a with
  | alccSend | alccClose | app =>
    obtain ⟨conn, rfl⟩ := connStep_eq hs
    exact h.kept rfl id id id
  | send now ret => exact h.sendStep hs
  | receive m now => exact h.receiveStep hG hs
  | verus epoch => exact h.verusStep hs
  | curve throws => exact h.curveStep hs

end LockInv

/-- **A restart and `ALCCSend` exclude each other** in every state that the threads reach, in any
order of their steps, as long as no thread holds `restartLock` when `ALCCReceive` unlocks it. -/
theorem exclusive_of_paired {arr : List α} {data : Int → α} {ctl : Window} {acts : List (Action α)}
    (h : Guarded step Paired (.init arr data ctl) acts) :
    Always step Exclusive (.init arr data ctl) acts :=
  (h.always (fun _ _ _ h hG hs => LockInv.step h hG hs) (LockInv.init arr data ctl)).imp
    fun _ h => h.exclusive

/-- A packet of 1448 bytes is sent at the time 0. -/
def sendPacket : List (Action Unit) :=
  .alccSend (List.replicate 1448 ()) 1448 :: List.replicate 5 (.send ⟨0, 0⟩ 1448) ++
    List.replicate 9 (.send ⟨0, 0⟩ 0)

/-- Its segment and its acknowledgement reach `ALCCReceive`, which credits it at the time `now`. -/
def creditAt (now : Timeval) : List (Action Unit) :=
  [.receive none now, .receive (some ⟨CC_PORT, 50000, 1, 0⟩) now, .receive none now,
    .receive none now, .receive (some ⟨50000, CC_PORT, 0, 1449⟩) now, .receive none now]

theorem exclusive_one_packet :
    Always step Exclusive (.init (List.replicate 2000 ()) (fun _ => ()) .initial)
      (sendPacket ++ creditAt ⟨0, 20000⟩ ++ [.receive none ⟨0, 20000⟩]) :=
  exclusive_of_paired (by decide +kernel)

/-- The delay of a second ends slow start, so that `ALCCCurve` restarts. It is before its lock when
`ALCCSend` takes `restartLock`, and `ALCCReceive` unlocks it. -/
theorem unlock_not_exclusive :
    ¬ Always step Exclusive (.init (List.replicate 2000 ()) (fun _ => ()) .initial)
      (sendPacket ++ creditAt ⟨1, 0⟩ ++ [.curve false, .send ⟨1, 0⟩ 0, .send ⟨1, 0⟩ 0,
        .receive none ⟨1, 0⟩, .curve false]) :=
  fun h =>
    have hrun := (Option.some_get (by decide +kernel)).symm
    absurd (h.last hrun) (by decide +kernel)

end Locked

end ALCC.Verus
