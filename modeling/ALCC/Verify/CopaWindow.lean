import ALCC.Model.CopaWindow
import ALCC.Theory.MonotoneDeque
import ALCC.Theory.Run

/-! The pacing interval of `libalcc_copa.cpp` stays positive. The two minima that it is computed
from are those of sliding windows with different horizons. The window of `unjittered_rtt` is never
longer than that of `min_rtt`, so its samples are the last ones of the other (`RTTInv`), and the
queueing delay is not negative. -/

namespace ALCC.Copa

open Binary64 Machine MonotoneDeque

namespace ExtremeWindow

variable {w w₁ w₂ : ExtremeWindow} {val now : ℚ}

/-- A window that finds the minimum: it stands at the front of the samples, which are positive. -/
structure MinInv (w : ExtremeWindow) : Prop where
  find_min : w.find_min = true
  sorted : Sorted w.vals
  pos : ∀ x ∈ w.vals, 0 < x.2
  extreme : w.extreme = w.vals.head?.elim ⊤ fun x => (x.2 : WithTop ℚ)

theorem MinInv.new : MinInv (.new true) where
  find_min := rfl
  sorted := .nil
  pos := by rintro _ ⟨⟩
  extreme := rfl

theorem popOld_fst (vals : List (ℚ × ℚ)) (recompute : Bool) :
    (w.popOld now vals recompute).1 = expire (w.Old now) vals := by
  induction vals using expire.induct (w.Old now) generalizing recompute with
  | case1 x y rest hold ih => rw [popOld, if_pos hold, expire, if_pos hold, ih]
  | case2 x y rest hold => rw [popOld, if_neg hold, expire, if_neg hold]
  | case3 l hl =>
    rw [popOld.eq_def, expire.eq_def]
    split
    · exact absurd rfl (hl _ _ _)
    · split
      · exact absurd rfl (hl _ _ _)
      · rfl

/-- If no recomputation is due, no sample has left. -/
theorem popOld_snd (now : ℚ) {vals : List (ℚ × ℚ)} (hextreme : ∀ x ∈ vals.head?, w.extreme = x.2) :
    (w.popOld now vals false).2 = true ∨ (w.popOld now vals false).1 = vals := by
  match vals with
  | [] => exact .inr rfl
  | [x] => exact .inr rfl
  | x :: y :: rest =>
    rw [popOld]
    split
    · refine .inl ?_
      have hrecompute : ∀ vals, (w.popOld now vals true).2 = true := by
        intro vals
        induction vals using expire.induct (w.Old now) with
        | case1 x y rest hold ih => rw [popOld, if_pos hold, Bool.or_true, ih]
        | case2 x y rest hold => rw [popOld, if_neg hold]
        | case3 l hl =>
          rw [popOld.eq_def]
          split
          · exact absurd rfl (hl _ _ _)
          · rfl
      simp only [hextreme x rfl, le_refl, ite_self, decide_true, Bool.true_or, hrecompute]
    · exact .inr rfl

theorem clearOldHist_vals : (w.clearOldHist now).vals = expire (w.Old now) w.vals :=
  popOld_fst w.vals false

/-- The extreme is that of the front, or `initial`, and stays so. -/
theorem clearOldHist_extreme {initial : WithTop ℚ}
    (hextreme : w.extreme = w.vals.head?.elim initial fun x => (x.2 : WithTop ℚ)) :
    (w.clearOldHist now).extreme =
      (w.clearOldHist now).vals.head?.elim initial fun x => (x.2 : WithTop ℚ) := by
  have hfront : ∀ x ∈ w.vals.head?, w.extreme = x.2 := by
    intro x hx
    rw [hextreme, Option.mem_def.mp hx, Option.elim_some]
  simp only [ExtremeWindow.clearOldHist]
  have hsnd := popOld_snd now hfront
  split
  · rename_i x rest hvals
    rw [hvals] at hsnd ⊢
    split
    · rfl
    · rename_i hrecompute
      rw [hsnd.resolve_left hrecompute]
      exact hextreme
  · rename_i hvals
    rw [hvals]
    rw [popOld_fst] at hvals
    by_cases hnil : w.vals = []
    · rw [hextreme, hnil]
    · exact absurd hvals (expire_ne_nil hnil)

theorem MinInv.clearOldHist (h : w.MinInv) : (w.clearOldHist now).MinInv where
  find_min := h.find_min
  sorted := by
    rw [clearOldHist_vals]
    exact h.sorted.suffix (expire_suffix w.vals)
  pos x hx := by
    rw [clearOldHist_vals] at hx
    exact h.pos x ((expire_suffix w.vals).subset hx)
  extreme := clearOldHist_extreme h.extreme

theorem pushSample_vals (hmin : w.find_min = true) :
    (w.pushSample val now).vals = push now val w.vals := by
  simp only [pushSample, hmin, if_true]
  rfl

theorem MinInv.pushSample (h : w.MinInv) (hval : 0 < val) : (w.pushSample val now).MinInv where
  find_min := h.find_min
  sorted := by
    rw [pushSample_vals h.find_min]
    exact h.sorted.push
  pos x hx := by
    rw [pushSample_vals h.find_min] at hx
    rcases mem_push hx with rfl | hx
    · exact hval
    · exact h.pos x hx
  extreme := by
    have hextreme :
        (w.pushSample val now).extreme = if val < w.extreme then ↑val else w.extreme := by
      simp only [ExtremeWindow.pushSample, h.find_min, if_true]
    rw [pushSample_vals h.find_min, hextreme, h.extreme, head?_push h.sorted]
    cases w.vals.head? with
    | none => exact if_pos (WithTop.coe_lt_top val)
    | some x =>
      simp only [Option.elim_some, WithTop.coe_lt_coe]
      split <;> rfl

theorem newSample_vals (hmin : w.find_min = true) :
    (w.newSample val now).vals = expire (w.Old now) (push now val w.vals) := by
  rw [newSample, clearOldHist_vals, pushSample_vals hmin]
  rfl

theorem MinInv.newSample (h : w.MinInv) (hval : 0 < val) : (w.newSample val now).MinInv :=
  (h.pushSample hval).clearOldHist

theorem MinInv.updateMaxTime (h : w.MinInv) (t : WithTop ℚ) : (w.updateMaxTime t).MinInv :=
  ⟨h.find_min, h.sorted, h.pos, h.extreme⟩

end ExtremeWindow

/-- The samples of `unjittered_rtt` are the last ones of `min_rtt`. -/
structure RTTInv (r : RTTWindow) : Prop where
  min_rtt : r.min_rtt.MinInv
  unjittered_rtt : r.unjittered_rtt.MinInv
  suffix : r.unjittered_rtt.vals <:+ r.min_rtt.vals

namespace RTTInv

variable {r : RTTWindow} {rtt now : ℚ}

theorem clear (hmin : r.min_rtt.find_min = true) (hunj : r.unjittered_rtt.find_min = true) :
    RTTInv r.clear := by
  have hnew : ∀ {w : ExtremeWindow}, w.find_min = true → w.clear.MinInv := by
    intro w hw
    rw [ExtremeWindow.clear, hw]
    exact .new
  exact ⟨hnew hmin, hnew hunj, List.suffix_rfl⟩

theorem newRttSample (now : ℚ) (h : RTTInv r) (hrtt : 0 < rtt) :
    RTTInv (r.newRttSample rtt now) := by
  have hmin := h.min_rtt.updateMaxTime
  have hunj := h.unjittered_rtt.updateMaxTime
  refine ⟨(hmin _).newSample hrtt, (hunj _).newSample hrtt, ?_⟩
  simp only [RTTWindow.newRttSample]
  rw [ExtremeWindow.newSample_vals (hunj _).find_min,
    ExtremeWindow.newSample_vals (hmin _).find_min]
  apply expire_suffix_expire _ (push_suffix_push h.suffix) push_ne_nil
  -- the window of `unjittered_rtt` is not longer
  intro x hold
  exact lt_of_le_of_lt (add_le_add_right (min_le_left _ _) _) hold

theorem newRttSample_ne_nil (h : RTTInv r) :
    (r.newRttSample rtt now).unjittered_rtt.vals ≠ [] := by
  simp only [RTTWindow.newRttSample]
  rw [ExtremeWindow.newSample_vals (h.unjittered_rtt.updateMaxTime _).find_min]
  exact expire_ne_nil push_ne_nil

/-- The two minima after a sample. -/
theorem values (h : RTTInv r) (hne : r.unjittered_rtt.vals ≠ []) :
    ∃ m u : ℚ, r.min_rtt.extreme = m ∧ r.unjittered_rtt.extreme = u ∧ 0 < m ∧ m ≤ u := by
  obtain ⟨y, l₁, hy⟩ := List.exists_cons_of_ne_nil hne
  have hsuffix := h.suffix
  rw [hy] at hsuffix
  obtain ⟨x, l₂, hx⟩ := List.exists_cons_of_ne_nil
    (List.ne_nil_of_mem (hsuffix.subset List.mem_cons_self))
  have hsorted := h.min_rtt.sorted
  rw [hx] at hsuffix hsorted
  refine ⟨x.2, y.2, ?_, ?_, ?_, hsorted.head_le hsuffix⟩
  · rw [h.min_rtt.extreme, hx]
    rfl
  · rw [h.unjittered_rtt.extreme, hy]
    rfl
  · exact h.min_rtt.pos x (hx ▸ List.mem_cons_self)

end RTTInv

namespace Window

variable {w w' w'' : Window} {pkt_lost : Bool} {cur_rtt sent_time : ℚ}

/-- `w'` differs from `w` in `delta` at most, as far as the samples and the window are concerned. -/
structure DeltaOnly (w w' : Window) : Prop where
  rtt_window : w'.rtt_window = w.rtt_window
  min_rtt : w'.min_rtt = w.min_rtt
  the_window : w'.the_window = w.the_window
  delta : 0 < w.delta → 0 < w'.delta

namespace DeltaOnly

theorem refl (w : Window) : DeltaOnly w w := ⟨rfl, rfl, rfl, id⟩

theorem trans (h : DeltaOnly w w') (h' : DeltaOnly w' w'') : DeltaOnly w w'' :=
  ⟨h'.rtt_window.trans h.rtt_window, h'.min_rtt.trans h.min_rtt, h'.the_window.trans h.the_window,
    h'.delta ∘ h.delta⟩

/-- A change of `delta`, and of nothing else that counts here. -/
theorem of_delta (hdelta : 0 < w.delta → 0 < w'.delta)
    (hkept : (w'.rtt_window, w'.min_rtt, w'.the_window) = (w.rtt_window, w.min_rtt, w.the_window)) :
    DeltaOnly w w' := by
  simp only [Prod.mk.injEq] at hkept
  exact ⟨hkept.1, hkept.2.1, hkept.2.2, hdelta⟩

theorem default_delta_pos : 0 < default_delta := by norm_num [default_delta]

theorem updateMode (w : Window) : DeltaOnly w w.updateMode := by
  unfold Window.updateMode
  split
  · exact of_delta id rfl
  · exact refl w

theorem updateDeltaDefault (w : Window) : DeltaOnly w (w.updateDeltaDefault cur_rtt) := by
  unfold Window.updateDeltaDefault
  split
  · refine of_delta (fun hdelta => lt_min ?_ default_delta_pos) rfl
    split
    · exact default_delta_pos
    · exact hdelta
  · exact refl w

theorem changeDelta (w : Window) (pkt_lost : Bool) (cur_rtt : ℚ) :
    DeltaOnly w (w.changeDelta pkt_lost cur_rtt) := by
  unfold Window.changeDelta
  split_ifs
  · exact of_delta (fun hdelta => mul_pos hdelta two_pos) rfl
  · refine of_delta (fun hdelta => ?_) rfl
    have : 0 < w.delta := hdelta
    simp only
    positivity
  · exact refl w

theorem updateDeltaLoss (w : Window) : DeltaOnly w (w.updateDeltaLoss pkt_lost cur_rtt) := by
  have hstart : DeltaOnly w
      (if w.prev_delta_update_time = 0 then { w with delta := default_delta } else w) := by
    split
    · exact of_delta (fun _ => default_delta_pos) rfl
    · exact refl w
  have hchange := hstart.trans (changeDelta _ pkt_lost cur_rtt)
  exact hchange.trans (of_delta (fun hdelta => lt_min hdelta default_delta_pos) rfl)

theorem updateDelta (w : Window) (pkt_lost : Bool) (cur_rtt : ℚ) :
    DeltaOnly w (w.updateDelta pkt_lost cur_rtt) := by
  have hmode := updateMode w
  unfold Window.updateDelta
  simp only
  split_ifs
  · exact hmode.trans (updateDeltaDefault _)
  · exact hmode.trans (updateDeltaLoss _)
  · exact hmode

end DeltaOnly

/-- What holds between the calls. -/
structure WindowInv (w : Window) : Prop where
  rtt : RTTInv w.rtt_window
  delta : 0 < w.delta
  the_window : 2 ≤ w.the_window

/-- What holds at the call of `update_intersend_time`, after a sample. -/
structure Called (u : Window) : Prop extends WindowInv u where
  rtts : ∃ min_rtt : ℚ, u.min_rtt = min_rtt ∧ 0 < min_rtt ∧ min_rtt ≤ u.rtt

theorem DeltaOnly.inv (h : DeltaOnly w w') (hw : WindowInv w) : WindowInv w' :=
  ⟨h.rtt_window ▸ hw.rtt, h.delta hw.delta, h.the_window ▸ hw.the_window⟩

theorem WindowInv.sample (h : WindowInv w) (hrtt : 0 < w.cur_tick - sent_time) :
    Called (w.sample sent_time) := by
  have hsampled := h.rtt.newRttSample w.cur_tick hrtt
  obtain ⟨m, u, hm, hu, hpos, hle⟩ := hsampled.values h.rtt.newRttSample_ne_nil
  have hdelta := DeltaOnly.updateDelta { w with
    rtt_window := w.rtt_window.newRttSample (w.cur_tick - sent_time) w.cur_tick
    min_rtt := (w.rtt_window.newRttSample (w.cur_tick - sent_time) w.cur_tick).min_rtt.extreme }
    false (w.cur_tick - sent_time)
  refine ⟨hdelta.inv ⟨hsampled, h.delta, h.the_window⟩, m, hdelta.min_rtt.trans hm, hpos, ?_⟩
  rw [Window.rtt, Window.sample, hdelta.rtt_window, ExtremeWindow.value, hu]
  exact hle

/-- The velocity changes neither the window nor what its target is computed from. -/
theorem updateAmt_kept (w : Window) : w.updateAmt.rtt_window = w.rtt_window ∧
    w.updateAmt.delta = w.delta ∧ w.updateAmt.the_window = w.the_window := by
  simp only [updateAmt]
  split_ifs <;> exact ⟨rfl, rfl, rfl⟩

theorem slowStart_kept (w : Window) : w.slowStart.rtt_window = w.rtt_window ∧
    w.slowStart.delta = w.delta := by
  simp only [slowStart]
  split <;> exact ⟨rfl, rfl⟩

theorem updateWindow_kept (w : Window) : w.updateWindow.rtt_window = w.rtt_window ∧
    w.updateWindow.delta = w.delta := by
  obtain ⟨hrtt, hdelta, -⟩ := updateAmt_kept w
  simp only [updateWindow]
  split <;> exact ⟨hrtt, hdelta⟩

/-- The boundary check. -/
theorem WindowInv.setIntersendTime (hrtt : RTTInv w.rtt_window) (hdelta : 0 < w.delta) :
    WindowInv w.setIntersendTime :=
  ⟨hrtt, hdelta, le_max_left _ _⟩

theorem setIntersendTime_eq (w : Window) : w.setIntersendTime.intersend_time =
    w.setIntersendTime.rtt / (2 * w.setIntersendTime.the_window) := by
  simp only [setIntersendTime, Window.rtt]
  rw [div_mul_eq_div_div]
  ring

theorem WindowInv.updateIntersendTime (h : WindowInv w) : WindowInv w.updateIntersendTime := by
  unfold Window.updateIntersendTime
  split_ifs
  · exact h
  · obtain ⟨hrtt, hdelta⟩ := slowStart_kept w
    exact setIntersendTime (hrtt ▸ h.rtt) (hdelta ▸ h.delta)
  · obtain ⟨hrtt, hdelta⟩ := updateWindow_kept w
    exact setIntersendTime (hrtt ▸ h.rtt) (hdelta ▸ h.delta)

theorem updateIntersendTime_eq (hprobing : ¬ w.Probing) :
    w.updateIntersendTime.rtt = w.rtt ∧ w.updateIntersendTime.intersend_time =
      w.updateIntersendTime.rtt / (2 * w.updateIntersendTime.the_window) := by
  rw [updateIntersendTime, if_neg hprobing]
  split
  · refine ⟨?_, setIntersendTime_eq _⟩
    exact congrArg (·.unjittered_rtt.value) (slowStart_kept w).1
  · refine ⟨?_, setIntersendTime_eq _⟩
    exact congrArg (·.unjittered_rtt.value) (updateWindow_kept w).1

/-- What the loop over `unacknowledged_packets` finds decides whether `update_delta` is called and
whether the window is cut. A property that all of this keeps does not depend on it. -/
theorem settle_keeps {P : Window → Prop} {seq_num : Int}
    (hleft : ∀ left, P { w with unacknowledged_packets := left })
    (hlost : ∀ w', P w' → P (w'.updateDelta true 0))
    (hcut : ∀ w' reduce_on_loss, P w' →
      P ({ w' with reduce_on_loss, the_window := w'.the_window * (7 / 10) }.setIntersendTime))
    (hkept : ∀ w' reduce_on_loss, P w' → P { w' with reduce_on_loss })
    (hacked : ∀ w' num_pkts_acked, P w' → P { w' with num_pkts_acked }) : P (w.settle seq_num) := by
  simp only [Window.settle]
  generalize (if seq_num ∈ w.unacknowledged_packets then _ else _ : AckLoop) = r
  have hdelta : P (if r.pkt_lost then
      Window.updateDelta true 0 { w with unacknowledged_packets := r.left }
      else { w with unacknowledged_packets := r.left }) := by
    split
    · exact hlost _ (hleft _)
    · exact hleft _
  generalize (if r.pkt_lost then _ else _ : Window) = w' at hdelta ⊢
  apply hacked
  split
  · exact hcut w' _ hdelta
  · exact hkept w' _ hdelta

theorem WindowInv.settle {seq_num : Int} (h : WindowInv w) : WindowInv (w.settle seq_num) := by
  apply settle_keeps
  · exact fun _ => ⟨h.rtt, h.delta, h.the_window⟩
  · exact fun _ => (DeltaOnly.updateDelta _ _ _).inv
  · exact fun _ _ hw => setIntersendTime hw.rtt hw.delta
  · exact fun _ _ hw => ⟨hw.rtt, hw.delta, hw.the_window⟩
  · exact fun _ _ hw => ⟨hw.rtt, hw.delta, hw.the_window⟩

theorem WindowInv.onPktSent {seq_num : Int} (h : WindowInv w) : WindowInv (w.onPktSent seq_num) :=
  ⟨h.rtt, h.delta, h.the_window⟩

theorem WindowInv.setTimestamp {t : ℚ} (h : WindowInv w) : WindowInv (w.setTimestamp t) :=
  ⟨h.rtt, h.delta, h.the_window⟩

theorem WindowInv.start (cur_time : ℚ) : WindowInv (.start cur_time) where
  rtt := .clear rfl rfl
  delta := one_pos
  the_window := by
    simp only [Window.start, init, num_probe_pkts]
    norm_num

/-- What `update_intersend_time` relies on and what it gives, past the probing. The divisors are
those of `target_window`, of the step towards it and of the intersend time. -/
structure Paced (u : Window) : Prop where
  target_divisor : u.queuing_delay ≠ 0 → 0 < u.queuing_delay * u.delta
  step_divisor : u.slow_start = false → 0 < u.updateAmt.delta * u.updateAmt.the_window
  window_divisor : 0 < u.updateIntersendTime.the_window
  target_window : (1 / u.delta : ℚ) < u.target_window
  the_window : 2 ≤ u.updateIntersendTime.the_window
  intersend_time : u.updateIntersendTime.intersend_time =
    u.rtt / (2 * u.updateIntersendTime.the_window)
  intersend_time_pos : 0 < u.updateIntersendTime.intersend_time

namespace Called

variable {u : Window}

theorem rtt_pos (h : Called u) : 0 < u.rtt := by
  obtain ⟨m, -, hpos, hle⟩ := h.rtts
  exact hpos.trans_le hle

theorem target_divisor (h : Called u) (hdelay : u.queuing_delay ≠ 0) :
    0 < u.queuing_delay * u.delta := by
  obtain ⟨m, hm, -, hle⟩ := h.rtts
  have hnonneg : 0 ≤ u.queuing_delay := by
    rw [queuing_delay, hm, WithTop.untopD_coe]
    exact sub_nonneg.mpr hle
  exact mul_pos (hnonneg.lt_of_ne hdelay.symm) h.delta

/-- The queueing delay is a part of the RTT. -/
theorem target_window (h : Called u) : (1 / u.delta : ℚ) < u.target_window := by
  obtain ⟨m, hm, hpos, -⟩ := h.rtts
  have hlt : u.queuing_delay < u.rtt := by
    rw [queuing_delay, hm, WithTop.untopD_coe]
    exact sub_lt_self _ hpos
  rw [Window.target_window]
  split
  · exact WithTop.coe_lt_top _
  · rename_i hdelay
    have hdivisor := h.target_divisor hdelay
    rw [WithTop.coe_lt_coe, lt_div_iff₀ hdivisor, one_div, mul_comm u.queuing_delay,
      inv_mul_cancel_left₀ h.delta.ne']
    exact hlt

theorem paced (h : Called u) (hprobing : ¬ u.Probing) : Paced u := by
  have hwindow := h.toWindowInv.updateIntersendTime.the_window
  have hdivisor : 0 < u.updateIntersendTime.the_window := two_pos.trans_le hwindow
  obtain ⟨hrtt, hintersend⟩ := updateIntersendTime_eq hprobing
  rw [hrtt] at hintersend
  refine ⟨h.target_divisor, fun _ => ?_, hdivisor, h.target_window, hwindow, hintersend, ?_⟩
  · obtain ⟨-, hdelta, hstep⟩ := updateAmt_kept u
    rw [hdelta, hstep]
    exact mul_pos h.delta (two_pos.trans_le h.the_window)
  · rw [hintersend]
    exact div_pos h.rtt_pos (mul_pos two_pos hdivisor)

end Called

/-- Every RTT sample is positive. -/
def PositiveRtt (w : Window) : Call → Prop
  | .onACK _ sent_time => 0 < w.cur_tick - sent_time
  | _ => True

/-- Each call of `update_intersend_time` past the probing is as it should be. -/
def PacedCall (w : Window) : Call → Prop
  | .onACK _ sent_time => ¬ (w.sample sent_time).Probing → Paced (w.sample sent_time)
  | _ => True

instance (w : Window) : DecidablePred (PositiveRtt w)
  | .onACK .. => inferInstanceAs (Decidable (_ < _))
  | .setTimestamp _ | .onPktSent _ => .isTrue trivial

theorem WindowInv.step {call : Call} (h : WindowInv w) (hrtt : PositiveRtt w call)
    (hstep : w.step call = some w') : WindowInv w' := by
  cases call with
  | setTimestamp s_cur_tick => exact Option.some.inj hstep ▸ h.setTimestamp
  | onPktSent seq_num => exact Option.some.inj hstep ▸ h.onPktSent
  | onACK ack sent_time =>
    exact Option.some.inj hstep ▸ (h.sample hrtt).toWindowInv.updateIntersendTime.settle

theorem WindowInv.pacedCall {call : Call} (h : WindowInv w) (hrtt : PositiveRtt w call) :
    PacedCall w call := by
  cases call with
  | setTimestamp s_cur_tick | onPktSent seq_num => trivial
  | onACK ack sent_time => exact fun hprobing => (h.sample hrtt).paced hprobing

/-- **The pacing interval is positive.** In every run with positive RTT samples, at every call of
`update_intersend_time` past the probing, what it divides by is positive, the window that it aims at
is larger than `1 / delta`, and its own window is at least 2. The readings of the clock may come in
any order. -/
theorem paced_of_run {cur_time : ℚ} {calls : List Call}
    (h : Guarded step PositiveRtt (.start cur_time) calls) :
    Guarded step PacedCall (.start cur_time) calls := by
  refine Guarded.guarded (I := WindowInv) (fun w call w' => ?_) ?_ (.start cur_time) h
  · intro hw hrtt hstep
    exact hw.step hrtt hstep
  · intro w call hw hrtt
    exact hw.pacedCall hrtt

/-- Twenty packets are acknowledged, the last one past the probing. -/
def twentyAcks : List Call :=
  .setTimestamp 101 :: (List.range 20).map fun ack => .onACK (ack + 1) 100

theorem paced_twenty_acks : Guarded step PacedCall (.start 100) twentyAcks ∧
    (run step (.start 100) twentyAcks).any (fun w => ¬ w.Probing) = true :=
  ⟨paced_of_run (by decide +kernel), by decide +kernel⟩

end Window

end ALCC.Copa
