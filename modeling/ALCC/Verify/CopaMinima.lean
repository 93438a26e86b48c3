import ALCC.Verify.CopaWindow

/-! The values of `rtt-window.cc` after a sample: the minimum, the unjittered RTT and the latest RTT
do not decrease in this order. Therefore the queuing delay of `update_intersend_time` is not
negative (`queuing_delay_nonneg`), and the assertion that is commented out in `onACK` holds. -/

namespace ALCC.Copa

open Machine MonotoneDeque

/-- The latest sample is in the window. -/
theorem ExtremeWindow.MinInv.newSample_le {w : ExtremeWindow} {val : ℚ} (now : ℚ) (h : w.MinInv)
    (hval : 0 < val) : (w.newSample val now).extreme ≤ val := by
  have hnew : (w.newSample val now).MinInv := h.newSample hval
  have hlast := suffix_expire_push (w.Old now) now val w.vals
  rw [← newSample_vals h.find_min] at hlast
  obtain ⟨x, rest, hvals⟩ :=
    List.exists_cons_of_ne_nil (List.ne_nil_of_mem (hlast.subset List.mem_cons_self))
  have hsorted := hnew.sorted
  rw [hvals] at hlast hsorted
  rw [hnew.extreme, hvals]
  exact WithTop.coe_le_coe.mpr (hsorted.head_le hlast)

namespace RTTWindow

/-- The calls that change an `RTTWindow`. -/
inductive Call where
  | clear
  | newRttSample (rtt now : ℚ)

def step (r : RTTWindow) : Call → Option RTTWindow
  | .clear => some r.clear
  | .newRttSample rtt now => some (r.newRttSample rtt now)

/-- `get_min_rtt() <= get_unjittered_rtt() <= get_latest_rtt()`. -/
structure Ordered (r : RTTWindow) : Prop where
  min_rtt : r.min_rtt.extreme ≤ r.unjittered_rtt.extreme
  unjittered_rtt : r.unjittered_rtt.extreme ≤ r.latest_rtt

/-- Every RTT sample is positive. -/
def PositiveRtt (_ : RTTWindow) : Call → Prop
  | .newRttSample rtt _ => 0 < rtt
  | .clear => True

/-- The values are in order after a sample. -/
def OrderedCall (r : RTTWindow) : Call → Prop
  | .newRttSample rtt now => Ordered (r.newRttSample rtt now)
  | .clear => True

instance (r : RTTWindow) : DecidablePred r.PositiveRtt
  | .newRttSample .. => inferInstanceAs (Decidable (_ < _))
  | .clear => .isTrue trivial

end RTTWindow

namespace RTTInv

variable {r t : RTTWindow} {rtt now : ℚ}

theorem ordered (now : ℚ) (h : RTTInv r) (hrtt : 0 < rtt) : (r.newRttSample rtt now).Ordered where
  min_rtt := by
    obtain ⟨m, u, hm, hu, -, hle⟩ := (h.newRttSample now hrtt).values h.newRttSample_ne_nil
    rw [hm, hu]
    exact WithTop.coe_le_coe.mpr hle
  unjittered_rtt := (h.unjittered_rtt.updateMaxTime _).newSample_le now hrtt

theorem step {call : RTTWindow.Call} (h : RTTInv r) (hrtt : r.PositiveRtt call)
    (hs : r.step call = some t) : RTTInv t := by
  cases call with
  | clear =>
    cases hs
    exact .clear h.min_rtt.find_min h.unjittered_rtt.find_min
  | newRttSample rtt now =>
    cases hs
    exact h.newRttSample now hrtt

end RTTInv

namespace Window

/-- The assertion after a sample, and the queuing delay in `update_intersend_time`. -/
def DelayedCall (w : Window) : Call → Prop
  | .onACK _ sent_time =>
    (w.sample sent_time).rtt_window.Ordered ∧ 0 ≤ (w.sample sent_time).queuing_delay
  | _ => True

theorem Called.delay_nonneg {u : Window} (h : Called u) : 0 ≤ u.queuing_delay := by
  obtain ⟨m, hm, -, hle⟩ := h.rtts
  rw [queuing_delay, hm, WithTop.untopD_coe]
  exact sub_nonneg.mpr hle

theorem WindowInv.ordered {w : Window} {sent_time : ℚ} (h : WindowInv w)
    (hrtt : 0 < w.cur_tick - sent_time) : (w.sample sent_time).rtt_window.Ordered := by
  rw [Window.sample, (DeltaOnly.updateDelta _ _ _).rtt_window]
  exact h.rtt.ordered w.cur_tick hrtt

end Window

/-- **The queuing delay is never negative.** In every run of an `RTTWindow` with positive samples,
at any times, the minimum is at most the unjittered RTT after each sample, and this is at most the
latest RTT. So is it at every acknowledgement, and the difference of the first two is what
`update_intersend_time` takes for the queuing delay. -/
theorem queuing_delay_nonneg :
    (∀ calls, Guarded RTTWindow.step RTTWindow.PositiveRtt .new calls →
      Guarded RTTWindow.step RTTWindow.OrderedCall .new calls) ∧
    ∀ cur_time calls, Guarded Window.step Window.PositiveRtt (.start cur_time) calls →
      Guarded Window.step Window.DelayedCall (.start cur_time) calls := by
  refine ⟨fun calls h => ?_, fun cur_time calls h => ?_⟩
  · refine h.guarded (I := RTTInv) (fun r call t hr => hr.step) (fun r call hr hrtt => ?_) ?_
    · cases call with
      | clear => trivial
      | newRttSample rtt now => exact hr.ordered now hrtt
    · exact ⟨.new, .new, List.suffix_rfl⟩
  · refine h.guarded (I := Window.WindowInv) (fun w call w' hw => hw.step)
      (fun w call hw hrtt => ?_) (.start cur_time)
    cases call with
    | setTimestamp s_cur_tick | onPktSent seq_num => trivial
    | onACK ack sent_time => exact ⟨hw.ordered hrtt, (hw.sample hrtt).delay_nonneg⟩

theorem queuing_delay_twenty_acks :
    Guarded RTTWindow.step RTTWindow.OrderedCall .new
      [.newRttSample 5 0, .newRttSample 3 1, .newRttSample 4 9, .clear, .newRttSample 6 10] ∧
    Guarded Window.step Window.DelayedCall (.start 100) Window.twentyAcks :=
  ⟨queuing_delay_nonneg.1 _ (by decide +kernel), queuing_delay_nonneg.2 _ _ (by decide +kernel)⟩

end ALCC.Copa
