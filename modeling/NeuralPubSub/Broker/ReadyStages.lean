-- SUMMARY: Which stages of a pipeline are ready to dispatch, and when that choice respects the precedence of the DAG.
import NeuralPubSub.Base.Scan
import NeuralPubSub.Broker.FunnelResilience
import NeuralPubSub.Pipeline.DagInvariants

open Base

/-!
# Ready stages

`BaseBroker._find_ready_stages` scans the stages in insertion order. It
mutates the pipeline while it scans: a fan-in stage that proceeds with partial
inputs marks its dead predecessors as skipped, and stages scanned later see
that mark.
-/

namespace NeuralPubSub

/-! ## The scan -/

/-- The condition `ps.placement.get(p) in dead_workers`. -/
def PipelineState.onDeadWorker (ps : PipelineState) (dead : Finset NodeId) (sid : StageId) : Bool :=
  (ps.placement.get? sid).any (· ∈ dead)

/-- The predecessors that are on dead workers and incomplete. -/
def PipelineState.deadPreds (ps : PipelineState) (dead : Finset NodeId) (sid : StageId) :
    Finset StageId :=
  (ps.dag.predecessors sid).toFinset.filter fun p =>
    p ∉ ps.completedStages ∧ ps.onDeadWorker dead p = true

/-- The pipeline under the scan, the stages found ready so far, and the latest
funnel decision. -/
structure ReadyScan where
  ps : PipelineState
  ready : List StageId := []
  funnelResult : Option FunnelPolicyResult := none
  deriving DecidableEq

/-- One iteration of the loop of `_find_ready_stages`. -/
def ReadyScan.considerStage (cfg : FunnelConfig) (dead : Finset NodeId) (now : ℚ) (s : ReadyScan)
    (sid : StageId) : ReadyScan :=
  if sid ∈ s.ps.completedStages then s
  else if sid ∈ s.ps.dispatchedStages then s
  else if sid ∈ s.ps.skippedStages then s
  else
    let preds := s.ps.dag.predecessors sid
    if ∀ p ∈ preds, p ∈ s.ps.completedStages then { s with ready := s.ready ++ [sid] }
    else if preds.length ≤ 1 then s
    else
      let deadPreds := s.ps.deadPreds dead sid
      if deadPreds = ∅ then s
      else
        let waitStart := s.ps.funnelWaitStart.getD now
        let ps := { s.ps with funnelWaitStart := some waitStart }
        let result := applyFunnelPolicy cfg.mode preds.toFinset
          (ps.completedStages ∩ preds.toFinset) (now - waitStart ≥ cfg.timeout)
        match result.action with
        | .proceed =>
          { ps := { ps with
              skippedStages := ps.skippedStages ∪ deadPreds
              isPartial := true }
            ready := s.ready ++ [sid]
            funnelResult := some result }
        | .abort | .fail | .wait => { s with ps := ps, funnelResult := some result }

/-- `_find_ready_stages`: the pipeline it leaves behind, the ready stages and
the funnel decision. `now` is the reading of the clock. -/
def findReadyStages (cfg : FunnelConfig) (dead : Finset NodeId) (now : ℚ) (ps : PipelineState) :
    ReadyScan :=
  ps.dag.stages.keys.foldl (ReadyScan.considerStage cfg dead now) { ps := ps }

/-! ## What one iteration can do -/

/-- Neither completed, dispatched nor skipped. -/
def PipelineState.Pending (ps : PipelineState) (sid : StageId) : Prop :=
  sid ∉ ps.completedStages ∧ sid ∉ ps.dispatchedStages ∧ sid ∉ ps.skippedStages

/-- All predecessors have completed. -/
def PipelineState.InputsComplete (ps : PipelineState) (sid : StageId) : Prop :=
  ∀ p ∈ ps.dag.predecessors sid, p ∈ ps.completedStages

/-- A fan-in stage some of whose missing inputs are on dead workers. -/
def PipelineState.StalledFanIn (ps : PipelineState) (dead : Finset NodeId) (sid : StageId) : Prop :=
  1 < (ps.dag.predecessors sid).length ∧ ps.deadPreds dead sid ≠ ∅

instance (ps : PipelineState) (sid : StageId) : Decidable (ps.Pending sid) :=
  inferInstanceAs (Decidable (_ ∧ _ ∧ _))

instance (ps : PipelineState) (sid : StageId) : Decidable (ps.InputsComplete sid) :=
  inferInstanceAs (Decidable (∀ p ∈ _, _))

instance (ps : PipelineState) (dead : Finset NodeId) (sid : StageId) :
    Decidable (ps.StalledFanIn dead sid) :=
  inferInstanceAs (Decidable (_ ∧ _))

theorem PipelineState.mem_deadPreds {ps : PipelineState} {dead : Finset NodeId} {sid p : StageId} :
    p ∈ ps.deadPreds dead sid ↔ p ∈ ps.dag.predecessors sid ∧ p ∉ ps.completedStages ∧
      ps.onDeadWorker dead p = true := by
  simp [PipelineState.deadPreds]

theorem PipelineState.StalledFanIn.not_inputsComplete {ps : PipelineState} {dead : Finset NodeId}
    {sid : StageId} (h : ps.StalledFanIn dead sid) : ¬ ps.InputsComplete sid := by
  obtain ⟨p, hp⟩ := Finset.nonempty_iff_ne_empty.mpr h.2
  obtain ⟨hpred, hpc, -⟩ := PipelineState.mem_deadPreds.mp hp
  exact fun hall => hpc (hall p hpred)

namespace ReadyScan

variable {cfg : FunnelConfig} {dead : Finset NodeId} {now : ℚ} {s : ReadyScan} {sid : StageId}

/-- The pipeline fields that the scan does not touch. -/
def Frame (ps ps' : PipelineState) : Prop :=
  ∃ skipped isPartial waitStart,
    ps' = { ps with
      skippedStages := skipped, isPartial := isPartial, funnelWaitStart := waitStart }

/-- The decision taken on a stalled fan-in. -/
def fanInResult (cfg : FunnelConfig) (now : ℚ) (ps : PipelineState) (sid : StageId) :
    FunnelPolicyResult :=
  applyFunnelPolicy cfg.mode (ps.dag.predecessors sid).toFinset
    (ps.completedStages ∩ (ps.dag.predecessors sid).toFinset)
    (now - ps.funnelWaitStart.getD now ≥ cfg.timeout)

/-- Everything an iteration can do: leave the scan alone, find a stage with all
its inputs ready, let a stalled fan-in proceed, or hold it back. -/
theorem considerStage_cases (cfg : FunnelConfig) (dead : Finset NodeId) (now : ℚ) (s : ReadyScan)
    (sid : StageId) :
    (s.considerStage cfg dead now sid = s ∧
      (s.ps.Pending sid → ¬ s.ps.InputsComplete sid ∧ ¬ s.ps.StalledFanIn dead sid)) ∨
    (s.considerStage cfg dead now sid = { s with ready := s.ready ++ [sid] } ∧
      s.ps.Pending sid ∧ s.ps.InputsComplete sid) ∨
    (s.considerStage cfg dead now sid =
        { ps := { s.ps with
            skippedStages := s.ps.skippedStages ∪ s.ps.deadPreds dead sid
            isPartial := true
            funnelWaitStart := some (s.ps.funnelWaitStart.getD now) }
          ready := s.ready ++ [sid]
          funnelResult := some (fanInResult cfg now s.ps sid) } ∧
      s.ps.Pending sid ∧ s.ps.StalledFanIn dead sid ∧ cfg.mode = .proceed) ∨
    (s.considerStage cfg dead now sid =
        { s with
          ps := { s.ps with funnelWaitStart := some (s.ps.funnelWaitStart.getD now) }
          funnelResult := some (fanInResult cfg now s.ps sid) } ∧
      s.ps.Pending sid ∧ s.ps.StalledFanIn dead sid ∧ cfg.mode ≠ .proceed) := by
  unfold considerStage
  dsimp only
  split_ifs with hc hd hs hin hlen hdead
  · exact .inl ⟨rfl, fun h => absurd hc h.1⟩
  · exact .inl ⟨rfl, fun h => absurd hd h.2.1⟩
  · exact .inl ⟨rfl, fun h => absurd hs h.2.2⟩
  · exact .inr (.inl ⟨rfl, ⟨hc, hd, hs⟩, hin⟩)
  · exact .inl ⟨rfl, fun _ => ⟨hin, fun h => absurd h.1 (by omega)⟩⟩
  · exact .inl ⟨rfl, fun _ => ⟨hin, fun h => h.2 hdead⟩⟩
  · have hpending : s.ps.Pending sid := ⟨hc, hd, hs⟩
    have hstalled : s.ps.StalledFanIn dead sid := ⟨by omega, hdead⟩
    -- an input is missing, so the mode alone decides whether the stage proceeds
    have hmissing : ¬ (s.ps.dag.predecessors sid).toFinset ⊆
        s.ps.completedStages ∩ (s.ps.dag.predecessors sid).toFinset := by
      intro hsub
      exact hin fun p hp => (Finset.mem_inter.mp (hsub (List.mem_toFinset.mpr hp))).1
    have haction := applyFunnelPolicy_action_eq_proceed cfg.mode
      (now - s.ps.funnelWaitStart.getD now ≥ cfg.timeout) hmissing
    refine .inr (.inr ?_)
    split
    · next hp => exact .inl ⟨rfl, hpending, hstalled, haction.mp hp⟩
    all_goals
      next hp => exact .inr ⟨rfl, hpending, hstalled, fun hm => by simp [haction.mpr hm] at hp⟩

end ReadyScan

/-! ## What the whole scan does -/

/-- The stages skipped once the scan has passed `done`. -/
def PipelineState.skippedAfter (cfg : FunnelConfig) (dead : Finset NodeId) (ps : PipelineState)
    (done : List StageId) : Finset StageId :=
  done.foldl (fun skipped sid =>
    if cfg.mode = .proceed ∧ ps.Pending sid ∧ sid ∉ skipped ∧ ps.StalledFanIn dead sid then
      skipped ∪ ps.deadPreds dead sid
    else skipped) ps.skippedStages

/-- The scan of `done` meets the stage while it is pending: no stalled fan-in
before it has had it skipped. -/
def PipelineState.Meets (cfg : FunnelConfig) (dead : Finset NodeId) (ps : PipelineState)
    (done : List StageId) (sid : StageId) : Prop :=
  ps.Pending sid ∧ ∃ pre post, done = pre ++ sid :: post ∧ sid ∉ ps.skippedAfter cfg dead pre

/-- The scan lets the stage start with all its inputs. -/
def PipelineState.StartsComplete (cfg : FunnelConfig) (dead : Finset NodeId) (ps : PipelineState)
    (sid : StageId) : Prop :=
  ps.Meets cfg dead ps.dag.stages.keys sid ∧ ps.InputsComplete sid

/-- The scan lets the stage, a stalled fan-in, proceed without its missing inputs. -/
def PipelineState.StartsPartial (cfg : FunnelConfig) (dead : Finset NodeId) (ps : PipelineState)
    (sid : StageId) : Prop :=
  cfg.mode = .proceed ∧ ps.Meets cfg dead ps.dag.stages.keys sid ∧ ps.StalledFanIn dead sid

/-- The funnel policy gives up on missing inputs at time `now`. -/
def PipelineState.FunnelFails (cfg : FunnelConfig) (now : ℚ) (ps : PipelineState) : Prop :=
  cfg.mode = .abort ∨ (cfg.mode = .wait ∧ now - ps.funnelWaitStart.getD now ≥ cfg.timeout)

namespace ReadyScan

variable {cfg : FunnelConfig} {dead : Finset NodeId} {now : ℚ} {ps : PipelineState}

theorem skippedAfter_concat (cfg : FunnelConfig) (dead : Finset NodeId) (ps : PipelineState)
    (done : List StageId) (sid : StageId) :
    ps.skippedAfter cfg dead (done ++ [sid]) =
      if cfg.mode = .proceed ∧ ps.Pending sid ∧ sid ∉ ps.skippedAfter cfg dead done ∧
          ps.StalledFanIn dead sid then
        ps.skippedAfter cfg dead done ∪ ps.deadPreds dead sid
      else ps.skippedAfter cfg dead done := by
  rw [PipelineState.skippedAfter, List.foldl_append]
  rfl

theorem subset_skippedAfter (cfg : FunnelConfig) (dead : Finset NodeId) (ps : PipelineState)
    (done : List StageId) : ps.skippedStages ⊆ ps.skippedAfter cfg dead done := by
  induction done using List.reverseRecOn with
  | nil => exact Finset.Subset.refl _
  | append_singleton done sid ih =>
    rw [skippedAfter_concat]
    split
    · exact ih.trans Finset.subset_union_left
    · exact ih

theorem meets_concat (cfg : FunnelConfig) (dead : Finset NodeId) (ps : PipelineState)
    (done : List StageId) (sid sid' : StageId) :
    ps.Meets cfg dead (done ++ [sid]) sid' ↔ ps.Meets cfg dead done sid' ∨
      sid' = sid ∧ ps.Pending sid ∧ sid ∉ ps.skippedAfter cfg dead done := by
  rw [PipelineState.Meets, PipelineState.Meets, exists_split_concat, and_or_left]
  refine or_congr_right ⟨?_, ?_⟩
  · rintro ⟨hp, rfl, hs⟩
    exact ⟨rfl, hp, hs⟩
  · rintro ⟨rfl, hp, hs⟩
    exact ⟨hp, rfl, hs⟩

theorem mem_skippedAfter_iff (cfg : FunnelConfig) (dead : Finset NodeId) (ps : PipelineState)
    (done : List StageId) (p : StageId) :
    p ∈ ps.skippedAfter cfg dead done ↔ p ∈ ps.skippedStages ∨
      ∃ sid, cfg.mode = .proceed ∧ ps.Meets cfg dead done sid ∧ ps.StalledFanIn dead sid ∧
        p ∈ ps.deadPreds dead sid := by
  induction done using List.reverseRecOn with
  | nil => simp [PipelineState.skippedAfter, PipelineState.Meets]
  | append_singleton done sid ih =>
    have hmeets := meets_concat cfg dead ps done sid
    rw [skippedAfter_concat]
    split
    · next h => grind
    · next h => grind

/-- What holds of the scan once it has passed `done`. -/
structure Inv (cfg : FunnelConfig) (dead : Finset NodeId) (now : ℚ) (ps : PipelineState)
    (done : List StageId) (s : ReadyScan) : Prop where
  frame : Frame ps s.ps
  skipped : s.ps.skippedStages = ps.skippedAfter cfg dead done
  waitStart : s.ps.funnelWaitStart.getD now = ps.funnelWaitStart.getD now
  isPartial : s.ps.isPartial = true ↔ ps.isPartial = true ∨
    ∃ sid, cfg.mode = .proceed ∧ ps.Meets cfg dead done sid ∧ ps.StalledFanIn dead sid
  ready_sublist : s.ready.Sublist done
  mem_ready : ∀ sid, sid ∈ s.ready ↔ ps.Meets cfg dead done sid ∧
    (ps.InputsComplete sid ∨ cfg.mode = .proceed ∧ ps.StalledFanIn dead sid)
  failed : (∃ r, s.funnelResult = some r ∧ r.pipelineFailed = true) ↔
    ps.FunnelFails cfg now ∧ ∃ sid ∈ done, ps.Pending sid ∧ ps.StalledFanIn dead sid

namespace Frame

variable {ps ps' : PipelineState}

theorem refl (ps : PipelineState) : Frame ps ps := ⟨_, _, _, rfl⟩

theorem pending_iff (h : Frame ps ps') (sid : StageId) :
    ps'.Pending sid ↔ sid ∉ ps.completedStages ∧ sid ∉ ps.dispatchedStages ∧
      sid ∉ ps'.skippedStages := by
  obtain ⟨skipped, isPartial, waitStart, rfl⟩ := h
  exact Iff.rfl

theorem inputsComplete_iff (h : Frame ps ps') (sid : StageId) :
    ps'.InputsComplete sid ↔ ps.InputsComplete sid := by
  obtain ⟨skipped, isPartial, waitStart, rfl⟩ := h
  exact Iff.rfl

theorem deadPreds_eq (h : Frame ps ps') (dead : Finset NodeId) (sid : StageId) :
    ps'.deadPreds dead sid = ps.deadPreds dead sid := by
  obtain ⟨skipped, isPartial, waitStart, rfl⟩ := h
  rfl

theorem stalledFanIn_iff (h : Frame ps ps') (dead : Finset NodeId) (sid : StageId) :
    ps'.StalledFanIn dead sid ↔ ps.StalledFanIn dead sid := by
  obtain ⟨skipped, isPartial, waitStart, rfl⟩ := h
  exact Iff.rfl

end Frame

theorem inv_nil : Inv cfg dead now ps [] { ps := ps } where
  frame := .refl ps
  skipped := rfl
  waitStart := rfl
  isPartial := by simp [PipelineState.Meets]
  ready_sublist := .slnil
  mem_ready := by simp [PipelineState.Meets]
  failed := by simp

/-- The scan's own view of a pending stage, in terms of the pipeline it started from. -/
theorem Inv.pending_iff {done : List StageId} {s : ReadyScan} (h : Inv cfg dead now ps done s)
    (sid : StageId) :
    s.ps.Pending sid ↔ ps.Pending sid ∧ sid ∉ ps.skippedAfter cfg dead done := by
  rw [h.frame.pending_iff, h.skipped]
  have hsub := subset_skippedAfter cfg dead ps done
  exact ⟨fun ⟨hc, hd, hs⟩ => ⟨⟨hc, hd, fun hm => hs (hsub hm)⟩, hs⟩,
    fun ⟨⟨hc, hd, _⟩, hs⟩ => ⟨hc, hd, hs⟩⟩

/-- Outside `proceed` mode the scan skips nothing. -/
theorem skippedAfter_eq_of_ne (hmode : cfg.mode ≠ .proceed) (done : List StageId) :
    ps.skippedAfter cfg dead done = ps.skippedStages := by
  induction done using List.reverseRecOn with
  | nil => rfl
  | append_singleton done sid ih =>
    rw [skippedAfter_concat, if_neg fun h => hmode h.1, ih]

theorem fanInResult_failed {ps' : PipelineState} {sid : StageId}
    (hwait : ps'.funnelWaitStart.getD now = ps.funnelWaitStart.getD now)
    (hstalled : ps'.StalledFanIn dead sid) :
    (fanInResult cfg now ps' sid).pipelineFailed = true ↔ ps.FunnelFails cfg now := by
  have hmissing : ¬ (ps'.dag.predecessors sid).toFinset ⊆
      ps'.completedStages ∩ (ps'.dag.predecessors sid).toFinset := fun hsub =>
    hstalled.not_inputsComplete fun p hp =>
      (Finset.mem_inter.mp (hsub (List.mem_toFinset.mpr hp))).1
  rw [fanInResult, applyFunnelPolicy_pipelineFailed hmissing, hwait]
  simp [PipelineState.FunnelFails]

/-- A funnel decision taken in `s` agrees with the pipeline the scan started from. -/
theorem Inv.failed_concat {done : List StageId} {s : ReadyScan} {sid : StageId}
    (h : Inv cfg dead now ps done s) (hpending : s.ps.Pending sid)
    (hstalled : s.ps.StalledFanIn dead sid) :
    (∃ r, some (fanInResult cfg now s.ps sid) = some r ∧ r.pipelineFailed = true) ↔
      ps.FunnelFails cfg now ∧ ∃ sid' ∈ done ++ [sid], ps.Pending sid' ∧ ps.StalledFanIn dead sid' := by
  have hmem : ∃ sid' ∈ done ++ [sid], ps.Pending sid' ∧ ps.StalledFanIn dead sid' :=
    ⟨sid, by simp, ((h.pending_iff sid).mp hpending).1, (h.frame.stalledFanIn_iff dead sid).mp hstalled⟩
  simp only [Option.some.injEq, exists_eq_left', fanInResult_failed h.waitStart hstalled, hmem,
    and_true]

/-- Adding a scanned stage on which no funnel decision is taken. -/
theorem Inv.failed_of_not_stalled {done : List StageId} {s : ReadyScan} {sid : StageId}
    (h : Inv cfg dead now ps done s)
    (hsid : s.ps.Pending sid → ¬ s.ps.StalledFanIn dead sid) :
    (∃ r, s.funnelResult = some r ∧ r.pipelineFailed = true) ↔
      ps.FunnelFails cfg now ∧ ∃ sid' ∈ done ++ [sid], ps.Pending sid' ∧ ps.StalledFanIn dead sid' := by
  rw [h.failed]
  refine and_congr_right fun hfails => ⟨?_, ?_⟩
  · rintro ⟨sid', hmem, hp⟩
    exact ⟨sid', by simp [hmem], hp⟩
  · rintro ⟨sid', hmem, hp, hst⟩
    rcases List.mem_append.mp hmem with hmem | hmem
    · exact ⟨sid', hmem, hp, hst⟩
    · -- the policy fails outside `proceed` mode only, where the scan skips nothing
      obtain rfl := List.mem_singleton.mp hmem
      have hmode : cfg.mode ≠ .proceed := by
        rcases hfails with hm | ⟨hm, -⟩ <;> simp [hm]
      have hpend : s.ps.Pending sid' := (h.pending_iff sid').mpr
        ⟨hp, by rw [skippedAfter_eq_of_ne hmode]; exact hp.2.2⟩
      exact absurd ((h.frame.stalledFanIn_iff dead sid').mpr hst) (hsid hpend)

/-- One iteration keeps the invariant. -/
theorem Inv.step {done : List StageId} {s : ReadyScan} (h : Inv cfg dead now ps done s)
    (sid : StageId) : Inv cfg dead now ps (done ++ [sid]) (s.considerStage cfg dead now sid) := by
  have hpend := h.pending_iff sid
  have hin := h.frame.inputsComplete_iff sid
  have hstalled := h.frame.stalledFanIn_iff dead sid
  have hmeets := meets_concat cfg dead ps done sid
  have hskip := skippedAfter_concat cfg dead ps done sid
  obtain ⟨skipped, isPartial, waitStart, hframe⟩ := h.frame
  rcases considerStage_cases cfg dead now s sid with
    ⟨heq, hnone⟩ | ⟨heq, hp, hi⟩ | ⟨heq, hp, hs, hmode⟩ | ⟨heq, hp, hs, hmode⟩ <;> rw [heq]
  · -- the scan is left alone
    refine { h with
      skipped := ?_
      isPartial := ?_
      ready_sublist := h.ready_sublist.trans (List.sublist_append_left _ _)
      mem_ready := fun sid' => ?_
      failed := h.failed_of_not_stalled fun hp => (hnone hp).2 }
    · rw [hskip, if_neg, h.skipped]
      exact fun ⟨_, hp, hns, hst⟩ => (hnone (hpend.mpr ⟨hp, hns⟩)).2 (hstalled.mpr hst)
    · have := h.isPartial
      grind
    · have := h.mem_ready sid'
      grind
  · -- a stage with all its inputs
    have hst : ¬ ps.StalledFanIn dead sid := fun hst => hst.not_inputsComplete (hin.mp hi)
    refine { h with
      skipped := ?_
      isPartial := ?_
      ready_sublist := h.ready_sublist.append (.refl _)
      mem_ready := fun sid' => ?_
      failed := h.failed_of_not_stalled fun _ => mt hstalled.mp hst }
    · rw [hskip, if_neg fun hc => hst hc.2.2.2, h.skipped]
    · have := h.isPartial
      grind
    · have := h.mem_ready sid'
      grind
  · -- a stalled fan-in proceeds
    have hp' := hpend.mp hp
    refine
      { frame := ⟨_, _, _, by rw [hframe]⟩
        skipped := ?_
        waitStart := h.waitStart
        isPartial := ?_
        ready_sublist := h.ready_sublist.append (.refl _)
        mem_ready := fun sid' => ?_
        failed := h.failed_concat hp hs }
    · rw [hskip, if_pos ⟨hmode, hp'.1, hp'.2, hstalled.mp hs⟩, h.frame.deadPreds_eq, h.skipped]
    · have := (hmeets sid).mpr (.inr ⟨rfl, hp'⟩)
      grind
    · have := h.mem_ready sid'
      grind
  · -- a stalled fan-in is held back
    refine
      { frame := ⟨_, _, _, by rw [hframe]⟩
        skipped := ?_
        waitStart := h.waitStart
        isPartial := ?_
        ready_sublist := h.ready_sublist.trans (List.sublist_append_left _ _)
        mem_ready := fun sid' => ?_
        failed := h.failed_concat hp hs }
    · rw [hskip, if_neg fun hc => hmode hc.1]
      exact h.skipped
    · have := h.isPartial
      grind
    · have := h.mem_ready sid'
      have hni := hs.not_inputsComplete
      grind

theorem findReadyStages_inv (cfg : FunnelConfig) (dead : Finset NodeId) (now : ℚ)
    (ps : PipelineState) :
    Inv cfg dead now ps ps.dag.stages.keys (findReadyStages cfg dead now ps) :=
  foldl_scan inv_nil fun _ sid _ _ _ hinv => hinv.step sid

end ReadyScan

/-! ## Specification of `findReadyStages` -/

section Spec

variable (cfg : FunnelConfig) (dead : Finset NodeId) (now : ℚ) (ps : PipelineState)

theorem findReadyStages_frame : ReadyScan.Frame ps (findReadyStages cfg dead now ps).ps :=
  (ReadyScan.findReadyStages_inv cfg dead now ps).frame

theorem mem_ready_iff (sid : StageId) :
    sid ∈ (findReadyStages cfg dead now ps).ready ↔
      ps.StartsComplete cfg dead sid ∨ ps.StartsPartial cfg dead sid := by
  rw [(ReadyScan.findReadyStages_inv cfg dead now ps).mem_ready, and_or_left, and_left_comm]
  rfl

theorem ready_sublist : (findReadyStages cfg dead now ps).ready.Sublist ps.dag.stages.keys :=
  (ReadyScan.findReadyStages_inv cfg dead now ps).ready_sublist

variable {cfg dead now ps} in
/-- A ready stage was pending before the scan. -/
theorem pending_of_mem_ready {sid : StageId} (h : sid ∈ (findReadyStages cfg dead now ps).ready) :
    ps.Pending sid :=
  (((ReadyScan.findReadyStages_inv cfg dead now ps).mem_ready sid).mp h).1.1

theorem ready_nodup : (findReadyStages cfg dead now ps).ready.Nodup :=
  (ready_sublist cfg dead now ps).nodup ps.dag.stages.keys_nodup

/-- The skipped stages are those skipped before and the dead predecessors of the
fan-ins that start without them. -/
theorem mem_skippedStages_iff (p : StageId) :
    p ∈ (findReadyStages cfg dead now ps).ps.skippedStages ↔ p ∈ ps.skippedStages ∨
      ∃ sid, ps.StartsPartial cfg dead sid ∧ p ∈ ps.deadPreds dead sid := by
  rw [(ReadyScan.findReadyStages_inv cfg dead now ps).skipped, ReadyScan.mem_skippedAfter_iff]
  simp only [PipelineState.StartsPartial, and_assoc]

variable {cfg dead now ps} in
/-- Without a stalled fan-in the scan asks the funnel policy nothing. -/
theorem findReadyStages_of_not_stalled (h : ∀ sid, ¬ ps.StalledFanIn dead sid) :
    (findReadyStages cfg dead now ps).ps = ps ∧
      (findReadyStages cfg dead now ps).funnelResult = none := by
  refine foldl_scan (P := fun _ (s : ReadyScan) => s.ps = ps ∧ s.funnelResult = none) ⟨rfl, rfl⟩ ?_
  intro _ sid _ s _ hs
  rcases ReadyScan.considerStage_cases cfg dead now s sid with
    ⟨heq, -⟩ | ⟨heq, -⟩ | ⟨-, -, hstalled, -⟩ | ⟨-, -, hstalled, -⟩
  · rw [heq]
    exact hs
  · rw [heq]
    exact hs
  · exact absurd (hs.1 ▸ hstalled) (h sid)
  · exact absurd (hs.1 ▸ hstalled) (h sid)

variable {cfg dead now ps} in
/-- It then finds every pending stage that has its inputs. -/
theorem mem_ready_of_not_stalled (h : ∀ sid, ¬ ps.StalledFanIn dead sid) (sid : StageId) :
    sid ∈ (findReadyStages cfg dead now ps).ready ↔
      sid ∈ ps.dag.stages.keys ∧ ps.Pending sid ∧ ps.InputsComplete sid := by
  rw [mem_ready_iff, or_iff_left fun hpartial => h sid hpartial.2.2]
  constructor
  · rintro ⟨⟨hpending, pre, post, hsplit, -⟩, hinputs⟩
    exact ⟨by rw [hsplit]; simp, hpending, hinputs⟩
  · rintro ⟨hmem, hpending, hinputs⟩
    obtain ⟨pre, post, hsplit⟩ := List.append_of_mem hmem
    refine ⟨⟨hpending, pre, post, hsplit, fun hskipped => ?_⟩, hinputs⟩
    rcases (ReadyScan.mem_skippedAfter_iff cfg dead ps pre sid).mp hskipped with
      hold | ⟨sid', -, -, hstalled, -⟩
    · exact hpending.2.2 hold
    · exact h sid' hstalled

end Spec

/-! ## Precedence -/

/-- Each ready stage is neither completed, dispatched nor skipped, and each of its
predecessors has completed or is skipped with its worker dead. -/
def ReadyScan.RespectsPrecedence (dead : Finset NodeId) (s : ReadyScan) : Prop :=
  ∀ sid ∈ s.ready, s.ps.Pending sid ∧ ∀ p ∈ s.ps.dag.predecessors sid,
    p ∈ s.ps.completedStages ∨ p ∈ s.ps.skippedStages ∧ s.ps.onDeadWorker dead p = true

namespace PipelineState

/-- What the broker does to one pipeline: it records results and failures,
replaces the placement, and runs dispatch rounds. -/
inductive Reachable (cfg : FunnelConfig) (dag : PipelineDAG) : PipelineState → Prop
  | admitted (pipelineId : PipelineId) (pipelineType : String) (placement : Dict StageId NodeId) :
    Reachable cfg dag { pipelineId, pipelineType, dag, placement }
  | completed {ps : PipelineState} (sid : StageId) : Reachable cfg dag ps →
    Reachable cfg dag { ps with completedStages := insert sid ps.completedStages }
  | failed {ps : PipelineState} (error : String) : Reachable cfg dag ps →
    Reachable cfg dag { ps with failed := true, error := some error }
  | replaced {ps : PipelineState} (placement : Dict StageId NodeId) : Reachable cfg dag ps →
    Reachable cfg dag { ps with placement := placement }
  | scanned {ps : PipelineState} (dead : Finset NodeId) (now : ℚ) : Reachable cfg dag ps →
    Reachable cfg dag (findReadyStages cfg dead now ps).ps
  | dispatched {ps : PipelineState} (dead : Finset NodeId) (now : ℚ) : Reachable cfg dag ps →
    Reachable cfg dag { (findReadyStages cfg dead now ps).ps with
      dispatchedStages :=
        ps.dispatchedStages ∪ (findReadyStages cfg dead now ps).ready.toFinset }

end PipelineState

/-- Precedence is respected exactly when every fan-in that starts without its
missing inputs misses inputs on dead workers only, none of which starts itself. -/
theorem respectsPrecedence_iff (cfg : FunnelConfig) (dead : Finset NodeId) (now : ℚ)
    (ps : PipelineState) :
    (findReadyStages cfg dead now ps).RespectsPrecedence dead ↔
      ∀ sid, ps.StartsPartial cfg dead sid → ∀ p ∈ ps.dag.predecessors sid,
        p ∉ ps.completedStages →
        ps.onDeadWorker dead p = true ∧ ¬ ps.StartsComplete cfg dead p ∧
          ¬ ps.StartsPartial cfg dead p := by
  have hready := mem_ready_iff cfg dead now ps
  have hskipped := mem_skippedStages_iff cfg dead now ps
  have hframe := findReadyStages_frame cfg dead now ps
  have hpending := hframe.pending_iff
  unfold ReadyScan.RespectsPrecedence
  generalize hs : findReadyStages cfg dead now ps = s at *
  obtain ⟨skipped, isPartial, waitStart, hps⟩ := hframe
  have hcompleted : s.ps.completedStages = ps.completedStages := by rw [hps]
  have hpreds : ∀ sid, s.ps.dag.predecessors sid = ps.dag.predecessors sid := by
    intro sid; rw [hps]
  have hdead : ∀ sid, s.ps.onDeadWorker dead sid = ps.onDeadWorker dead sid := by
    intro sid; rw [hps]; rfl
  simp only [hcompleted, hpreds, hdead]
  constructor
  · intro h sid hsid p hp hpc
    have hdeadp : ps.onDeadWorker dead p = true := by
      rcases (h sid ((hready sid).mpr (.inr hsid))).2 p hp with hc | ⟨-, hd⟩
      · exact absurd hc hpc
      · exact hd
    -- the scan skips `p`, so `p` must not be ready
    have hskip : p ∈ s.ps.skippedStages :=
      (hskipped p).mpr (.inr ⟨sid, hsid, PipelineState.mem_deadPreds.mpr ⟨hp, hpc, hdeadp⟩⟩)
    have hnot : p ∉ s.ready := fun hr => (h p hr).1.2.2 hskip
    rw [hready, not_or] at hnot
    exact ⟨hdeadp, hnot.1, hnot.2⟩
  · intro h sid hsid
    have hstarts := (hready sid).mp hsid
    constructor
    · have hp : ps.Pending sid := by
        rcases hstarts with h' | h'
        · exact h'.1.1
        · exact h'.2.1.1
      refine (hpending sid).mpr ⟨hp.1, hp.2.1, fun hskip => ?_⟩
      rcases (hskipped sid).mp hskip with h0 | ⟨f, hf, hdp⟩
      · exact hp.2.2 h0
      · obtain ⟨hpred, hpc, -⟩ := PipelineState.mem_deadPreds.mp hdp
        obtain ⟨-, hnc, hnp⟩ := h f hf sid hpred hpc
        exact hstarts.elim hnc hnp
    · intro p hp
      by_cases hpc : p ∈ ps.completedStages
      · exact .inl hpc
      · rcases hstarts with hc | hf
        · exact absurd (hc.2 p hp) hpc
        · have hd := (h sid hf p hp hpc).1
          exact .inr ⟨(hskipped p).mpr
            (.inr ⟨sid, hf, PipelineState.mem_deadPreds.mpr ⟨hp, hpc, hd⟩⟩), hd⟩

/-- Outside `proceed` mode precedence is always respected. -/
theorem respectsPrecedence_of_ne_proceed {cfg : FunnelConfig} (hmode : cfg.mode ≠ .proceed)
    (dead : Finset NodeId) (now : ℚ) (ps : PipelineState) :
    (findReadyStages cfg dead now ps).RespectsPrecedence dead :=
  (respectsPrecedence_iff cfg dead now ps).mpr fun _ h => absurd h.1 hmode

private def fanInDag : PipelineDAG :=
  .ofLists [⟨"a", "sense", 0, 1, none, none, none⟩, ⟨"b", "sense", 0, 1, none, none, none⟩,
      ⟨"c", "sense", 0, 1, none, none, none⟩, ⟨"f", "fuse", 0, 1, none, none, none⟩]
    [⟨"a", "f", 10⟩, ⟨"b", "f", 10⟩, ⟨"c", "f", 10⟩]

private def fanInPlacement : Dict StageId NodeId :=
  .ofList [("a", "w1"), ("b", "w2"), ("c", "w2"), ("f", "w2")]

/-- In `proceed` mode a fan-in starts while one of its inputs still runs on a
live worker: `a` is on the dead worker, `c` has completed, `b` is running. -/
theorem not_respectsPrecedence :
    ¬ ∀ (cfg : FunnelConfig) (dag : PipelineDAG) (ps : PipelineState) (dead : Finset NodeId)
      (now : ℚ), dag.Built → ps.Reachable cfg dag →
        (findReadyStages cfg dead now ps).RespectsPrecedence dead := by
  intro h
  have hnew : PipelineState.Reachable { mode := .proceed } fanInDag _ :=
    .admitted "p" "funnel" fanInPlacement
  have hreach := (hnew.dispatched ∅ 0).completed "c"
  have hp := h _ _ _ {"w1"} 1 (PipelineDAG.built_ofLists _ _) hreach "f" (by decide +kernel)
  have hb := hp.2 "b" (by decide +kernel)
  revert hb
  decide +kernel

end NeuralPubSub
