import ALCC.Verify.CopaWindow

/-! The range of `delta` in the automatic mode. `init` sets it to one, which is above
`default_delta`, and no time of an update is recorded then. The first call clamps it in either mode,
since it finds `prev_delta_update_time` at zero. From then on no skipped update, doubling or step of
`1 / delta` takes it out of the range, so every call ends with `0 < delta <= default_delta`
(`delta_range`). -/

namespace ALCC.Copa

open Machine

namespace Window

variable {w : Window} {pkt_lost : Bool} {cur_rtt : ℚ}

/-- A call of `update_delta` with the clock and the RTT window at the time of the call. The outcome
of `is_copa` is that of the RTT window. -/
structure DeltaCall where
  cur_tick : ℚ
  rtt_window : RTTWindow
  pkt_lost : Bool
  cur_rtt : ℚ

def deltaStep (w : Window) (call : DeltaCall) : Window :=
  { w with cur_tick := call.cur_tick, rtt_window := call.rtt_window }.updateDelta call.pkt_lost
    call.cur_rtt

/-- The range after a call. -/
structure DeltaRange (w : Window) : Prop where
  pos : 0 < w.delta
  le : w.delta ≤ default_delta

/-- What holds before a call: `delta` is in the range, unless no update of it is recorded. -/
structure DeltaInv (w : Window) : Prop where
  pos : 0 < w.delta
  le : w.prev_delta_update_time ≠ 0 → w.delta ≤ default_delta

theorem DeltaRange.inv (h : DeltaRange w) : DeltaInv w := ⟨h.pos, fun _ => h.le⟩

theorem DeltaInv.init (w : Window) : DeltaInv w.init := ⟨one_pos, fun h => absurd rfl h⟩

theorem DeltaInv.updateMode (h : DeltaInv w) : DeltaInv w.updateMode := by
  unfold Window.updateMode
  split
  · exact ⟨h.pos, h.le⟩
  · exact h

/-- The automatic mode chooses between two modes. -/
theorem updateMode_operation_mode (w : Window) : w.updateMode.operation_mode = .DEFAULT_MODE ∨
    w.updateMode.operation_mode = .LOSS_SENSITIVE_MODE := by
  have hauto : utility_mode = .AUTO_MODE := rfl
  simp only [updateMode, if_pos hauto]
  split
  · exact .inl rfl
  · exact .inr rfl

theorem DeltaInv.updateDeltaDefault (h : DeltaInv w) (cur_rtt : ℚ) :
    (w.updateDeltaDefault cur_rtt).delta ≤ default_delta := by
  unfold Window.updateDeltaDefault
  split
  · exact min_le_right _ _
  · next hskip => exact h.le (not_or.mp hskip).1

/-- **A call clamps `delta`.** -/
theorem DeltaInv.updateDelta (h : DeltaInv w) : DeltaRange (w.updateDelta pkt_lost cur_rtt) := by
  refine ⟨(DeltaOnly.updateDelta w pkt_lost cur_rtt).delta h.pos, ?_⟩
  unfold Window.updateDelta
  simp only
  split_ifs with hdefault hloss
  · exact h.updateMode.updateDeltaDefault cur_rtt
  · exact min_le_right _ _
  · obtain hmode | hmode := updateMode_operation_mode w
    · exact absurd ⟨hmode, by decide⟩ hdefault
    · exact absurd (.inr hmode) hloss

theorem DeltaInv.deltaStep (h : DeltaInv w) (call : DeltaCall) : DeltaRange (w.deltaStep call) :=
  DeltaInv.updateDelta ⟨h.pos, h.le⟩

theorem DeltaRange.deltaCalls (h : DeltaRange w) (calls : List DeltaCall) :
    DeltaRange (calls.foldl Window.deltaStep w) := by
  induction calls generalizing w with
  | nil => exact h
  | cons call calls ih => exact ih (h.inv.deltaStep call)

/-! ## The calls of the two threads -/

theorem DeltaRange.updateIntersendTime (h : DeltaRange w) : DeltaRange w.updateIntersendTime := by
  unfold Window.updateIntersendTime
  split_ifs
  · exact h
  · have hdelta := (slowStart_kept w).2
    exact ⟨hdelta ▸ h.pos, hdelta ▸ h.le⟩
  · have hdelta := (updateWindow_kept w).2
    exact ⟨hdelta ▸ h.pos, hdelta ▸ h.le⟩

theorem DeltaRange.settle {seq_num : Int} (h : DeltaRange w) : DeltaRange (w.settle seq_num) := by
  apply settle_keeps
  · exact fun _ => ⟨h.pos, h.le⟩
  · exact fun _ hw => hw.inv.updateDelta
  · exact fun _ _ hw => ⟨hw.pos, hw.le⟩
  · exact fun _ _ hw => ⟨hw.pos, hw.le⟩
  · exact fun _ _ hw => ⟨hw.pos, hw.le⟩

/-- Every acknowledgement calls `update_delta`. -/
theorem DeltaInv.onACK {ack : Int} {sent_time : ℚ} (h : DeltaInv w) :
    DeltaRange (w.onACK ack sent_time) :=
  have hsample : DeltaRange (w.sample sent_time) := DeltaInv.updateDelta ⟨h.pos, h.le⟩
  hsample.updateIntersendTime.settle

/-- `delta` is in its range after an acknowledgement. -/
def RangedCall (w : Window) : Call → Prop
  | .onACK ack sent_time => DeltaRange (w.onACK ack sent_time)
  | _ => True

theorem DeltaInv.step {w' : Window} {call : Call} (h : DeltaInv w) (hs : step w call = some w') :
    DeltaInv w' := by
  cases call with
  | setTimestamp | onPktSent =>
    cases hs
    exact ⟨h.pos, h.le⟩
  | onACK ack sent_time =>
    cases hs
    exact h.onACK.inv

/-- Every acknowledgement of a run of the two threads leaves `delta` in its range. -/
theorem ranged_of_run (cur_time : ℚ) (calls : List Call) :
    Guarded step RangedCall (.start cur_time) calls := by
  have h : Guarded step (fun _ _ => True) (.start cur_time) calls :=
    guarded_of_forall fun _ _ _ => trivial
  refine h.guarded (I := DeltaInv) (fun w call w' hw _ => hw.step) (fun w call hw _ => ?_)
    (.init _)
  cases call with
  | setTimestamp | onPktSent => trivial
  | onACK ack sent_time => exact hw.onACK

end Window

/-- **`delta` stays in its range.** After `init` and any calls of `update_delta`, of which there is
at least one, `delta` is positive and at most `default_delta`, whatever the losses, the RTTs, the
times and the outcomes of `is_copa` are. -/
theorem delta_range (w : Window) (call : Window.DeltaCall) (calls : List Window.DeltaCall) :
    0 < ((call :: calls).foldl Window.deltaStep w.init).delta ∧
      ((call :: calls).foldl Window.deltaStep w.init).delta ≤ default_delta := by
  have hfirst := (Window.DeltaInv.init w).deltaStep call
  have hlast := hfirst.deltaCalls calls
  exact ⟨hlast.pos, hlast.le⟩

end ALCC.Copa
