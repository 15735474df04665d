-- SUMMARY: The timeout of stalled fan-ins over a sequence of calls, and when it is measured from the current stall.
import NeuralPubSub.Base.Scan
import NeuralPubSub.Broker.ReadyStages

open Base

/-!
# Funnel timeouts

Calls of `_find_ready_stages` on one pipeline in `wait` mode, with completions,
dispatches, re-placements and changes of the dead workers in between. One field
of the pipeline, `funnel_wait_start`, serves all its fan-in stages.
-/

namespace NeuralPubSub

/-- A call of `_find_ready_stages`: the pipeline it finds, and its arguments. -/
structure ReadyCall where
  ps : PipelineState
  dead : Finset NodeId
  now : ℚ
  deriving DecidableEq

/-- A pipeline, and the calls on it so far. -/
structure FunnelRun where
  ps : PipelineState
  calls : List ReadyCall := []
  deriving DecidableEq

inductive FunnelEvent where
  | complete (sid : StageId)
  | dispatch (sid : StageId)
  | place (placement : Dict StageId NodeId)
  | call (dead : Finset NodeId) (now : ℚ)
  deriving DecidableEq

namespace ReadyCall

def result (cfg : FunnelConfig) (c : ReadyCall) : ReadyScan := findReadyStages cfg c.dead c.now c.ps

/-- The call consults the funnel policy about the stage. -/
def Meets (c : ReadyCall) (sid : StageId) : Prop := c.ps.Pending sid ∧ c.ps.StalledFanIn c.dead sid

instance (c : ReadyCall) : DecidablePred c.Meets := fun _ => inferInstanceAs (Decidable (_ ∧ _))

/-- The fan-in stages that the call consults the policy about, in the order of the scan. -/
def stalledFanIns (c : ReadyCall) : List StageId := c.ps.dag.stages.keys.filter fun sid => c.Meets sid

/-- The result of the call is that on the last of them. -/
def FailsBecauseOf (cfg : FunnelConfig) (c : ReadyCall) (sid : StageId) : Prop :=
  (∃ r, (c.result cfg).funnelResult = some r ∧ r.action = .fail) ∧
    c.stalledFanIns.getLast? = some sid

instance (cfg : FunnelConfig) (c : ReadyCall) : DecidablePred (c.FailsBecauseOf cfg) := fun _ =>
  inferInstanceAs (Decidable ((∃ _, _ ∧ _) ∧ _))

end ReadyCall

/-- The first call that met a stalled fan-in. -/
def firstStall (calls : List ReadyCall) : Option ReadyCall :=
  calls.find? fun c => c.stalledFanIns ≠ []

/-- The calls of the current stall of a stage: the latest ones, all of which find it
stalled. -/
def currentStall (calls : List ReadyCall) (sid : StageId) : List ReadyCall :=
  calls.rtakeWhile fun c => c.ps.StalledFanIn c.dead sid

/-- The current stall has lasted for the timeout. -/
def StalledFor (timeout now : ℚ) (calls : List ReadyCall) (sid : StageId) : Prop :=
  ∃ first, (currentStall calls sid).head? = some first ∧ now - first.now ≥ timeout

instance (timeout now : ℚ) (calls : List ReadyCall) (sid : StageId) :
    Decidable (StalledFor timeout now calls sid) :=
  inferInstanceAs (Decidable (∃ _, _ ∧ _))

namespace FunnelRun

/-- What an event does; the clock does not go back. -/
def perform (cfg : FunnelConfig) (r : FunnelRun) : FunnelEvent → Option FunnelRun
  | .complete sid =>
    some { r with ps := { r.ps with completedStages := insert sid r.ps.completedStages } }
  | .dispatch sid =>
    some { r with ps := { r.ps with dispatchedStages := insert sid r.ps.dispatchedStages } }
  | .place placement => some { r with ps := { r.ps with placement := placement } }
  | .call dead now =>
    if ∀ c ∈ r.calls.getLast?, c.now ≤ now then
      some { ps := (findReadyStages cfg dead now r.ps).ps, calls := r.calls ++ [⟨r.ps, dead, now⟩] }
    else none

/-- The runs on a pipeline since its admission. -/
def Reachable (cfg : FunnelConfig) (dag : PipelineDAG) (r : FunnelRun) : Prop :=
  ∃ pipelineId pipelineType placement, ∃ events : List FunnelEvent,
    events.foldlM (perform cfg) ⟨{ pipelineId, pipelineType, dag, placement }, []⟩ = some r

/-- A call fails because of a fan-in stage only if each call of the last `timeout` seconds
has found it stalled, and its current stall has lasted for the timeout. -/
def TimesOutPerStall (cfg : FunnelConfig) (r : FunnelRun) : Prop :=
  ∀ past c later, r.calls = past ++ c :: later → ∀ sid, c.FailsBecauseOf cfg sid →
    (∀ c' ∈ past ++ [c], c.now - c'.now < cfg.timeout → c'.ps.StalledFanIn c'.dead sid) ∧
      StalledFor cfg.timeout c.now (past ++ [c]) sid

/-- No call fails a fan-in whose current stall is younger than the timeout: if the first
call of the run that met a stalled fan-in is that old, then so is the stall at hand. -/
def StallsAlone (cfg : FunnelConfig) (r : FunnelRun) : Prop :=
  ∀ past c later, r.calls = past ++ c :: later → ∀ sid, c.stalledFanIns.getLast? = some sid →
    ∀ first, firstStall (past ++ [c]) = some first →
      c.now - first.now ≥ cfg.timeout → StalledFor cfg.timeout c.now (past ++ [c]) sid

end FunnelRun

/-! ## One call -/

section Call
variable {cfg : FunnelConfig} {dead : Finset NodeId} {ps : PipelineState}

theorem fanInResult_fail (now : ℚ) {sid : StageId} (hmode : cfg.mode = .wait)
    (hstalled : ps.StalledFanIn dead sid) :
    (ReadyScan.fanInResult cfg now ps sid).action = .fail ↔
      now - ps.funnelWaitStart.getD now ≥ cfg.timeout := by
  have hmissing : ¬ (ps.dag.predecessors sid).toFinset ⊆
      ps.completedStages ∩ (ps.dag.predecessors sid).toFinset := fun hsub =>
    hstalled.not_inputsComplete fun p hp =>
      (Finset.mem_inter.mp (hsub (List.mem_toFinset.mpr hp))).1
  unfold ReadyScan.fanInResult applyFunnelPolicy
  rw [if_neg hmissing, hmode]
  by_cases htimeout : now - ps.funnelWaitStart.getD now ≥ cfg.timeout <;> simp [htimeout]

/-- In `wait` mode a call writes the start of the waiting only, once it meets a stalled
fan-in. -/
theorem findReadyStages_wait (hmode : cfg.mode = .wait) (c : ReadyCall) :
    (c.result cfg).ps =
        (if c.stalledFanIns = [] then c.ps
         else { c.ps with funnelWaitStart := some (c.ps.funnelWaitStart.getD c.now) }) ∧
      ((∃ r, (c.result cfg).funnelResult = some r ∧ r.action = .fail) ↔
        c.stalledFanIns ≠ [] ∧ c.now - c.ps.funnelWaitStart.getD c.now ≥ cfg.timeout) := by
  refine foldl_scan (P := fun done (s : ReadyScan) =>
    s.ps = (if done.filter (fun sid => c.Meets sid) = [] then c.ps
        else { c.ps with funnelWaitStart := some (c.ps.funnelWaitStart.getD c.now) }) ∧
      ((∃ r, s.funnelResult = some r ∧ r.action = .fail) ↔
        done.filter (fun sid => c.Meets sid) ≠ [] ∧
          c.now - c.ps.funnelWaitStart.getD c.now ≥ cfg.timeout)) ⟨rfl, by simp⟩ ?_
  intro done sid rest s _ ⟨hps, hfail⟩
  -- the scan sees the pipeline as the call found it, but for the start of the waiting
  have hseen : ∃ waitStart, s.ps = { c.ps with funnelWaitStart := waitStart } ∧
      waitStart.getD c.now = c.ps.funnelWaitStart.getD c.now := by
    split at hps
    · exact ⟨_, hps, rfl⟩
    · exact ⟨_, hps, rfl⟩
  obtain ⟨waitStart, hs, hwait⟩ := hseen
  have hmeets : s.ps.Pending sid → s.ps.StalledFanIn c.dead sid → c.Meets sid := by
    rw [hs]
    exact fun hpending hstalled => ⟨hpending, hstalled⟩
  have hskip : ¬ c.Meets sid →
      (done ++ [sid]).filter (fun sid => c.Meets sid) = done.filter fun sid => c.Meets sid := by
    intro hno
    rw [List.filter_append, List.filter_cons_of_neg (by simpa using hno), List.filter_nil,
      List.append_nil]
  rcases ReadyScan.considerStage_cases cfg c.dead c.now s sid with
    ⟨heq, hnone⟩ | ⟨heq, hpending, hinputs⟩ | ⟨-, -, -, hproceed⟩ | ⟨heq, hpending, hstalled, -⟩
  · have hno : ¬ c.Meets sid := by
      rw [hs] at hnone
      exact fun hmet => (hnone hmet.1).2 hmet.2
    rw [heq, hskip hno]
    exact ⟨hps, hfail⟩
  · have hno : ¬ c.Meets sid := by
      rw [hs] at hinputs
      exact fun hmet => hmet.2.not_inputsComplete hinputs
    rw [heq, hskip hno]
    exact ⟨hps, hfail⟩
  · rw [hmode] at hproceed
    cases hproceed
  · have hyes := hmeets hpending hstalled
    have hresult := fanInResult_fail c.now hmode hstalled
    rw [heq, List.filter_append, List.filter_cons_of_pos (by simpa using hyes)]
    simp only [Option.some.injEq, exists_eq_left', hresult]
    rw [hs]
    simp [hwait]

end Call

/-! ## Runs -/

/-- A stall that has lasted for the timeout covers the calls since. -/
theorem StalledFor.covers {timeout now : ℚ} {calls : List ReadyCall} {sid : StageId}
    (h : StalledFor timeout now calls sid) (hclock : calls.Pairwise fun c c' => c.now ≤ c'.now)
    {c : ReadyCall} (hc : c ∈ calls) (hrecent : now - c.now < timeout) :
    c.ps.StalledFanIn c.dead sid := by
  obtain ⟨first, hfirst, hold⟩ := h
  obtain ⟨before, hsplit⟩ : currentStall calls sid <:+ calls := List.rtakeWhile_suffix ..
  rw [← hsplit] at hc hclock
  cases List.mem_append.mp hc with
  | inl hbefore =>
    have hle := (List.pairwise_append.mp hclock).2.2 c hbefore first (List.mem_of_head? hfirst)
    linarith
  | inr hstall =>
    have hstalled := List.mem_rtakeWhile_imp hstall
    exact of_decide_eq_true hstalled

namespace FunnelRun
variable {cfg : FunnelConfig} {dag : PipelineDAG} {r r' : FunnelRun}

/-- The waiting of a pipeline starts with the first call that meets a stalled fan-in, and
never again. -/
structure WaitsOnce (r : FunnelRun) : Prop where
  found : ∀ past c later, r.calls = past ++ c :: later →
    c.ps.funnelWaitStart = (firstStall past).map (·.now)
  left : r.ps.funnelWaitStart = (firstStall r.calls).map (·.now)

theorem firstStall_concat (past : List ReadyCall) (c : ReadyCall) :
    firstStall (past ++ [c]) =
      (firstStall past).or (if c.stalledFanIns ≠ [] then some c else none) := by
  unfold firstStall
  rw [List.find?_append, List.find?_singleton]
  simp only [decide_eq_true_eq]

/-- The clock at which the waiting has started once a call has met a stalled fan-in. -/
theorem getD_waitStart {past : List ReadyCall} {c : ReadyCall} {waitStart : Option ℚ}
    (hstart : waitStart = (firstStall past).map (·.now)) (hmeets : c.stalledFanIns ≠ []) :
    some (waitStart.getD c.now) = (firstStall (past ++ [c])).map (·.now) := by
  rw [hstart, firstStall_concat, if_pos hmeets]
  cases firstStall past <;> rfl

namespace WaitsOnce

theorem step (hmode : cfg.mode = .wait) {event : FunnelEvent} (h : r.WaitsOnce)
    (hperform : r.perform cfg event = some r') : r'.WaitsOnce := by
  cases event with
  | complete sid =>
    obtain rfl := Option.some.inj hperform
    exact ⟨h.found, h.left⟩
  | dispatch sid =>
    obtain rfl := Option.some.inj hperform
    exact ⟨h.found, h.left⟩
  | place placement =>
    obtain rfl := Option.some.inj hperform
    exact ⟨h.found, h.left⟩
  | call dead now =>
    simp only [perform, Option.ite_none_right_eq_some, Option.some.injEq] at hperform
    obtain ⟨-, rfl⟩ := hperform
    constructor
    · intro past c later hcalls
      have hsplit := exists_split_concat (P := fun pre => pre = past).mp ⟨past, later, hcalls, rfl⟩
      rcases hsplit with ⟨pre, post, hold, rfl⟩ | ⟨rfl, rfl⟩
      · exact h.found _ c post hold
      · exact h.left
    · have hwrites := (findReadyStages_wait hmode ⟨r.ps, dead, now⟩).1
      rw [ReadyCall.result] at hwrites
      dsimp only at hwrites ⊢
      rw [hwrites]
      by_cases hmeets : ReadyCall.stalledFanIns ⟨r.ps, dead, now⟩ = []
      · rw [if_pos hmeets, firstStall_concat, if_neg (not_not.mpr hmeets), Option.or_none]
        exact h.left
      · rw [if_neg hmeets]
        exact getD_waitStart h.left hmeets

theorem reachable (hmode : cfg.mode = .wait) (h : Reachable cfg dag r) : r.WaitsOnce := by
  obtain ⟨pipelineId, pipelineType, placement, events, hrun⟩ := h
  refine foldlM_scan_some (P := fun _ r => WaitsOnce r) ?_ ?_ hrun
  · exact ⟨fun past c later h => by simp at h, rfl⟩
  · exact fun _ _ _ _ _ _ hr hperform => hr.step hmode hperform

end WaitsOnce

/-- The clock of the calls does not go back. -/
theorem pairwise_now (h : Reachable cfg dag r) : r.calls.Pairwise fun c c' => c.now ≤ c'.now := by
  obtain ⟨pipelineId, pipelineType, placement, events, hrun⟩ := h
  refine foldlM_scan_some (P := fun _ r => r.calls.Pairwise fun c c' => c.now ≤ c'.now) .nil ?_ hrun
  intro _ event _ r r' _ hclock hperform
  cases event with
  | complete sid =>
    obtain rfl := Option.some.inj hperform
    exact hclock
  | dispatch sid =>
    obtain rfl := Option.some.inj hperform
    exact hclock
  | place placement =>
    obtain rfl := Option.some.inj hperform
    exact hclock
  | call dead now =>
    simp only [perform, Option.ite_none_right_eq_some, Option.some.injEq] at hperform
    obtain ⟨hlast, rfl⟩ := hperform
    refine List.pairwise_append.mpr ⟨hclock, List.pairwise_singleton .., fun c hc c' hc' => ?_⟩
    obtain rfl := List.mem_singleton.mp hc'
    have hle := hlast _ (List.getLast?_eq_getLast_of_ne_nil (List.ne_nil_of_mem hc))
    exact (hclock.rel_getLast hc).trans hle

/-- A call fails exactly if it is the timeout or more after the first one of the run that
met a stalled fan-in. -/
theorem failsBecauseOf_iff (hmode : cfg.mode = .wait) {past : List ReadyCall} {c : ReadyCall}
    (hstart : c.ps.funnelWaitStart = (firstStall past).map (·.now)) (sid : StageId) :
    c.FailsBecauseOf cfg sid ↔ c.stalledFanIns.getLast? = some sid ∧
      ∃ first, firstStall (past ++ [c]) = some first ∧ c.now - first.now ≥ cfg.timeout := by
  rw [ReadyCall.FailsBecauseOf, and_comm, (findReadyStages_wait hmode c).2]
  refine and_congr_right fun hlast => ?_
  have hmeets : c.stalledFanIns ≠ [] := by
    intro hnil
    simp [hnil] at hlast
  obtain ⟨first, hfirst, hnow⟩ := Option.map_eq_some_iff.mp (getD_waitStart hstart hmeets).symm
  simp [hmeets, hfirst, hnow]

/-- The timeout is per stall exactly if no call meets a fan-in in a younger stall once the
first stall of the pipeline is as old as the timeout. -/
theorem timesOutPerStall_iff (hmode : cfg.mode = .wait) (h : Reachable cfg dag r) :
    r.TimesOutPerStall cfg ↔ r.StallsAlone cfg := by
  have hwaits := WaitsOnce.reachable hmode h
  constructor
  · intro htimes past c later hcalls sid hlast first hfirst hold
    have hfails := (failsBecauseOf_iff hmode (hwaits.found past c later hcalls) sid).mpr
      ⟨hlast, first, hfirst, hold⟩
    exact (htimes past c later hcalls sid hfails).2
  · intro halone past c later hcalls sid hfails
    obtain ⟨hlast, first, hfirst, hold⟩ :=
      (failsBecauseOf_iff hmode (hwaits.found past c later hcalls) sid).mp hfails
    have hlong := halone past c later hcalls sid hlast first hfirst hold
    have hclock : (past ++ [c]).Pairwise fun c c' => c.now ≤ c'.now := by
      refine (pairwise_now h).sublist ?_
      rw [hcalls, List.append_sublist_append_left]
      exact List.singleton_sublist.mpr (List.mem_cons_self ..)
    exact ⟨fun c' hc' hrecent => hlong.covers hclock hc' hrecent, hlong⟩

private def funnelDag : PipelineDAG :=
  .ofLists [⟨"a", "sense", 0, 1, none, none, none⟩, ⟨"b", "sense", 0, 1, none, none, none⟩,
      ⟨"f", "fuse", 0, 1, none, none, none⟩]
    [⟨"a", "f", 10⟩, ⟨"b", "f", 10⟩]

private def funnelPipeline : PipelineState :=
  { pipelineId := "p", pipelineType := "funnel", dag := funnelDag
    placement := .ofList [("a", "w1"), ("b", "w2"), ("f", "w2")] }

/-- The first call finds `a` on a dead worker. -/
private def firstCall : ReadyCall := ⟨funnelPipeline, {"w1"}, 0⟩

private def lastCall (now : ℚ) : ReadyCall :=
  ⟨{ funnelPipeline with funnelWaitStart := some 0 }, {"w1"}, now⟩

theorem timesOutPerStall_iff_stall :
    TimesOutPerStall {} ⟨(lastCall 30).ps, [firstCall, lastCall 30]⟩ ∧
      (lastCall 30).FailsBecauseOf {} "f" := by
  have hrun : Reachable {} funnelDag ⟨(lastCall 30).ps, [firstCall, lastCall 30]⟩ :=
    ⟨"p", "funnel", funnelPipeline.placement, [.call {"w1"} 0, .call {"w1"} 30], by decide +kernel⟩
  have hlong : StalledFor 30 30 [firstCall, lastCall 30] "f" := by decide +kernel
  refine ⟨(timesOutPerStall_iff rfl hrun).mpr ?_, by decide +kernel⟩
  intro past c later hcalls sid hlast first hfirst hold
  match past, hcalls with
  | [], hcalls =>
    obtain ⟨rfl, -⟩ := List.cons.inj hcalls
    obtain ⟨-, rfl⟩ : _ ∧ firstCall = first := by
      simpa [firstStall, List.find?_singleton] using hfirst
    norm_num [firstCall] at hold
  | [_], hcalls =>
    simp only [List.cons_append, List.nil_append, List.cons.injEq] at hcalls
    obtain ⟨rfl, rfl, -⟩ := hcalls
    have hsid : (lastCall 30).stalledFanIns.getLast? = some "f" := by decide +kernel
    obtain rfl := Option.some.inj (hlast.symm.trans hsid)
    exact hlong
  | _ :: _ :: _, hcalls => simp at hcalls

private def movedPlacement : Dict StageId NodeId :=
  .ofList [("a", "w3"), ("b", "w2"), ("f", "w2")]

/-- `a` has moved and completed. -/
private def movedCall (dead : Finset NodeId) (now : ℚ) : ReadyCall :=
  ⟨{ funnelPipeline with
    placement := movedPlacement, completedStages := {"a"}, funnelWaitStart := some 0 }, dead, now⟩

/-- The first stall is over when the second one begins: the call fails at once. -/
theorem not_timesOutPerStall :
    ¬ ∀ (cfg : FunnelConfig) (dag : PipelineDAG) (r : FunnelRun), dag.Built →
      cfg.mode = .wait → Reachable cfg dag r → r.TimesOutPerStall cfg := by
  intro h
  have hrun : Reachable {} funnelDag ⟨(movedCall {"w2"} 40).ps,
      [firstCall, movedCall ∅ 20, movedCall {"w2"} 40]⟩ :=
    ⟨"p", "funnel", funnelPipeline.placement,
      [.call {"w1"} 0, .place movedPlacement, .complete "a", .call ∅ 20, .call {"w2"} 40],
      by decide +kernel⟩
  have htimes := (h _ _ _ (PipelineDAG.built_ofLists _ _) rfl hrun [firstCall, movedCall ∅ 20]
    (movedCall {"w2"} 40) [] rfl "f" (by decide +kernel)).2
  revert htimes
  decide +kernel

end FunnelRun

end NeuralPubSub
