-- SUMMARY: When the placement that a re-placement merges still passes the slice, sovereignty, latency and trust checks.
import NeuralPubSub.Broker.Placement.Splice
import NeuralPubSub.Broker.RegistryAgreement
import NeuralPubSub.Broker.ShardedOracle

open Base

/-!
# Re-placement

`replan` is what the recovery from a dead worker and the retry of a failed send
share: both solve the whole DAG again, and take over only the hosts of the stages
that they were asked to move.
-/

namespace NeuralPubSub
namespace NeuralBroker

variable {cfg : BrokerConfig} {b : Broker} {pid : PipelineId} {stages : List StageId}

/-! ## The merge -/

/-- The loop that takes the hosts over changes the placement at the given stages only. -/
theorem takeOver_run {q : Placement} {ps : PipelineState} {s s' : Solo Broker WorkerMessage PyError}
    (hps : s.state.pipelines.get? pid = some ps)
    (h : (Co.forEach stages fun sid => do
      let nodeId ← Co.ofExcept (subscript q sid)
      Co.modify (·.updatePipeline pid fun ps =>
        { ps with placement := ps.placement.insert sid nodeId }) : BrokerM Unit).alone s =
          (some (.ok ()), s')) :
    (∀ sid ∈ stages, sid ∈ q) ∧ ∃ p', s'.state.pipelines.get? pid = some { ps with placement := p' } ∧
      ∀ sid, p'.get? sid = spliced ps.placement q stages sid := by
  induction stages generalizing s ps with
  | nil =>
    obtain ⟨-, rfl⟩ := Prod.mk.inj h
    refine ⟨by simp, ps.placement, hps, fun sid => ?_⟩
    rw [spliced, if_neg List.not_mem_nil]
  | cons sid stages ih =>
    rw [Co.forEach_cons, Co.alone_bind, Co.alone_bind, Co.alone_ofExcept] at h
    cases hsub : subscript q sid with
    | error e =>
      rw [hsub] at h
      cases h
    | ok nodeId =>
      have hnode : q.get? sid = some nodeId := subscript_eq_ok_iff.mp hsub
      rw [hsub] at h
      simp only [Co.alone_modify] at h
      have hnext : (s.state.updatePipeline pid fun ps =>
          { ps with placement := ps.placement.insert sid nodeId }).pipelines.get? pid =
            some { ps with placement := ps.placement.insert sid nodeId } := by
        rw [Broker.get?_updatePipeline, if_pos rfl, hps]
        rfl
      obtain ⟨hmem, p', hp', hget⟩ := ih hnext h
      refine ⟨?_, p', hp', ?_⟩
      · intro x hx
        cases List.mem_cons.mp hx with
        | inl heq => exact heq ▸ Dict.mem_of_get?_eq_some hnode
        | inr hrest => exact hmem x hrest
      · intro x
        rw [hget, spliced, spliced]
        by_cases hrest : x ∈ stages
        · rw [if_pos hrest, if_pos (List.mem_cons_of_mem _ hrest)]
        · rw [if_neg hrest, Dict.get?_insert]
          by_cases heq : x = sid
          · rw [if_pos heq, heq, if_pos List.mem_cons_self, hnode]
          · rw [if_neg heq, if_neg (by simp [heq, hrest])]

/-- A re-placement that succeeds merges a solution for the present topology. -/
theorem replan_run {ps : PipelineState} {s' : Solo Broker WorkerMessage PyError}
    (hps : b.pipelines.get? pid = some ps)
    (hrun : (replan cfg pid stages).alone ⟨b, [], []⟩ = (some (.ok true), s')) :
    ∃ q, findPlacement ps.dag b.topology cfg.governance cfg.weights = .ok q ∧
      (∀ sid ∈ stages, sid ∈ q) ∧
      ∃ p', s'.state.pipelines.get? pid = some { ps with placement := p' } ∧
        ∀ sid, p'.get? sid = spliced ps.placement q stages sid := by
  have hsub : subscript b.pipelines pid = .ok ps := subscript_eq_ok_iff.mpr hps
  unfold replan at hrun
  rw [Co.alone_bind, Co.alone_read] at hrun
  simp only at hrun
  split at hrun
  · cases hrun
  · simp only [getPipeline, Co.alone_bind, Co.alone_read, Co.alone_ofExcept, hsub] at hrun
    split at hrun
    · next q hq =>
      rw [Co.alone_bind] at hrun
      refine ⟨q, hq, ?_⟩
      split at hrun
      · next s'' hloop =>
        obtain ⟨-, rfl⟩ := Prod.mk.inj hrun
        exact takeOver_run (s := ⟨b, [], []⟩) hps hloop
      · cases hrun
      · cases hrun
    · cases hrun
    · cases hrun

/-! ## The surviving topology -/

/-- The topology that a broker builds from its registry is complete, and its latencies
depend on the domains only. -/
theorem Named.complete (h : Named b) : (rebuildTopology b).topology.Complete ∧
    ∀ x ∈ (rebuildTopology b).topology.nodes, ∀ y ∈ (rebuildTopology b).topology.nodes, x ≠ y →
      (rebuildTopology b).topology.latencyOf x.nodeId y.nodeId = domainLatency x y := by
  have hids : (b.workers.values.map (·.nodeId)).Nodup := h.values_ids ▸ b.workers.keys_nodup
  have hmeshed : (rebuildTopology b).topology.Meshed := by
    have htopology := topologyOf_meshed hids
    rw [topologyOf_eq hids] at htopology
    exact htopology
  apply hmeshed.complete
  show ((b.workers.values.map executionUnit).map (·.nodeId)).Nodup
  rw [List.map_map]
  exact hids

/-- What is left after the removal of a worker survives it. -/
theorem Named.survives (h : Named b) (nodeId : NodeId) : Survives (rebuildTopology b).topology
    (rebuildTopology { b with workers := b.workers.erase nodeId }).topology := by
  have hsub : ∀ x ∈ (rebuildTopology { b with workers := b.workers.erase nodeId }).topology.nodes,
      x ∈ (rebuildTopology b).topology.nodes := by
    intro x hx
    obtain ⟨worker, hworker, rfl⟩ := List.mem_map.mp hx
    obtain ⟨e, he, rfl⟩ := List.mem_map.mp hworker
    have hget := Dict.get?_eq_some_iff.mpr he
    rw [Dict.get?_erase] at hget
    split at hget
    · cases hget
    · exact List.mem_map_of_mem (List.mem_map_of_mem (Dict.get?_eq_some_iff.mp hget))
  constructor
  · exact fun x hx => ⟨x, hsub x hx, rfl, rfl, rfl⟩
  · intro x hx y hy
    by_cases heq : x = y
    · simp [heq, NetworkTopology.latencyOf, NetworkTopology.latency]
    · rw [h.complete.2 x (hsub x hx) y (hsub y hy) heq, (h.erase nodeId).complete.2 x hx y hy heq]

/-! ## The constraints afterwards -/

/-- The stages whose results are still to come. -/
def Incomplete (ps : PipelineState) (sid : StageId) : Prop := sid ∉ ps.completedStages

instance (ps : PipelineState) : DecidablePred (Incomplete ps) := fun _ =>
  inferInstanceAs (Decidable (_ ∉ _))

/-- For every placement that passed the slice, sovereignty, latency and trust checks of
its incomplete stages and every surviving topology, the merged placement passes them too
when the seams are safe: no stage that stays is on a node that has gone, and the edges of
the stages that move are allowed wherever the solver may put them. -/
theorem replan_passesOn {ps ps' : PipelineState} {t₀ : NetworkTopology}
    {s' : Solo Broker WorkerMessage PyError} (hps : b.pipelines.get? pid = some ps)
    (hbuilt : ps.dag.Built) (hc₀ : t₀.Complete) (hc : b.topology.Complete)
    (hsurvives : Survives t₀ b.topology)
    (hp : PassesOn ps.dag t₀ cfg.governance ps.placement (Incomplete ps))
    (hsafe : SeamsSafe ps.dag b.topology cfg.governance ps.placement stages (Incomplete ps))
    (hrun : (replan cfg pid stages).alone ⟨b, [], []⟩ = (some (.ok true), s'))
    (hps' : s'.state.pipelines.get? pid = some ps') :
    PassesOn ps.dag b.topology cfg.governance ps'.placement (Incomplete ps) := by
  obtain ⟨q, hq, hmem, p', hp', hget⟩ := replan_run hps hrun
  obtain rfl := Option.some.inj (hp'.symm.trans hps')
  exact hsafe.passesOn hbuilt hc₀ hc hsurvives hp hq hmem hget

/-- Without the bypass every stage that stays has a host that has not gone. -/
theorem hostIn_of_kept {ps : PipelineState} {deadNodeId : NodeId} (h : Named b)
    (hbypass : cfg.funnel.bypassReplace = false)
    (hp : PassesOn ps.dag (rebuildTopology b).topology cfg.governance ps.placement (Incomplete ps))
    {sid : StageId} (hsid : sid ∈ ps.dag.stages) (hincomplete : Incomplete ps sid)
    (hkept : sid ∉ stagesToReplace cfg ps deadNodeId) :
    HostIn (rebuildTopology { b with workers := b.workers.erase deadNodeId }).topology
      (ps.placement.get? sid) := by
  obtain ⟨x, hx, hhost, -⟩ :=
    ((passesOn_iff h.complete.1).mp hp).1 sid hsid hincomplete
  obtain ⟨worker, hworker, rfl⟩ := List.mem_map.mp hx
  obtain ⟨⟨key, worker⟩, he, rfl⟩ := List.mem_map.mp hworker
  have hget := Dict.get?_eq_some_iff.mpr he
  have hname : worker.nodeId = key := h key worker hget
  have hne : key ≠ deadNodeId := by
    rintro rfl
    apply hkept
    rw [stagesToReplace, hbypass]
    have hentry := Dict.get?_eq_some_iff.mp hhost
    have hmem : (sid, worker.nodeId) ∈ ps.placement.entries.filter
        fun e => e.2 = key ∧ e.1 ∉ ps.completedStages :=
      List.mem_filter.mpr ⟨hentry, by simpa using ⟨hname, hincomplete⟩⟩
    exact List.mem_map_of_mem hmem
  have hleft : (b.workers.erase deadNodeId).get? key = some worker := by
    rw [Dict.get?_erase, if_neg hne, hget]
  refine ⟨executionUnit worker, List.mem_map_of_mem ?_, hhost⟩
  exact List.mem_map_of_mem (Dict.get?_eq_some_iff.mp hleft)

private def splicePipeline : PipelineState where
  pipelineId := "p"
  pipelineType := "chain"
  dag := .ofLists [⟨"a", "sense", 1, 1, none, none, none⟩, ⟨"b", "fuse", 1, 1, none, none, none⟩]
      [⟨"a", "b", 30⟩]
  placement := .ofList [("a", "w1"), ("b", "w2")]

private def spliceConfig : BrokerConfig := { domainId := "d1", brokerId := "b1" }

private def openConfig : BrokerConfig :=
  { spliceConfig with governanceEnabled := true, trustLevels := .ofList [("d2", 1)] }

/-- Two workers of `d1`, of which the second has no room left, and one of `d2`. -/
private def spliceBroker : Broker := rebuildTopology
  { workers := .ofList [("w1", ⟨"w1", "d1", "flat", 4, "http://w1", 0, 0⟩),
      ("w2", ⟨"w2", "d1", "flat", 1, "http://w2", 1, 0⟩),
      ("w3", ⟨"w3", "d2", "flat", 4, "http://w3", 0, 0⟩)]
    pipelines := .ofList [("p", splicePipeline)]
    activePipelines := ["p"] }

/-- The same broker without `w1`. -/
private def spliceSurvivors : Broker :=
  rebuildTopology { spliceBroker with workers := spliceBroker.workers.erase "w1" }

/-- The broker once the stages have been re-placed. -/
private def spliceRun (stages : List StageId) : Solo Broker WorkerMessage PyError :=
  ((replan spliceConfig "p" stages).alone ⟨spliceSurvivors, [], []⟩).2

private theorem complete_spliceBroker : spliceBroker.topology.Complete := by decide +kernel

/-- The same broker where the two domains trust each other: `a` moves to `w3`, within the
bound of its edge to `b`, which stays on `w2`. -/
theorem replan_passesOn_open :
    PassesOn splicePipeline.dag spliceSurvivors.topology openConfig.governance
      (.ofList [("a", "w3"), ("b", "w2")]) (Incomplete splicePipeline) := by
  have hbypass : openConfig.funnel.bypassReplace = false := rfl
  have hnamed : Named spliceBroker := by
    intro nodeId worker hget
    have hall : ∀ e ∈ spliceBroker.workers.entries, e.2.nodeId = e.1 := by decide +kernel
    exact hall _ (Dict.get?_eq_some_iff.mp hget)
  have hp : PassesOn splicePipeline.dag spliceBroker.topology openConfig.governance
      splicePipeline.placement (Incomplete splicePipeline) := by decide +kernel
  have hallowed : ∀ e ∈ splicePipeline.dag.edges, ∀ x ∈ spliceSurvivors.topology.nodes,
      ∀ y ∈ spliceSurvivors.topology.nodes,
        spliceSurvivors.topology.latencyOf x.nodeId y.nodeId ≤ e.latencyBound + tolerance ∧
          openConfig.governance.trusts x.domainId y.domainId = true := by
    decide +kernel
  have hsafe : SeamsSafe splicePipeline.dag spliceSurvivors.topology openConfig.governance
      splicePipeline.placement ["a"] (Incomplete splicePipeline) := by
    refine ⟨fun sid hsid hincomplete hkept => ?_, fun e he _ _ _ _ x hx _ y hy _ => hallowed e he x hx y hy,
      fun e he _ _ _ _ x hx _ y hy _ => hallowed e he x hx y hy,
      fun e he _ _ _ _ => .inr fun x hx y hy _ _ => hallowed e he x hx y hy⟩
    exact hostIn_of_kept hnamed hbypass hp hsid hincomplete hkept
  have hrun : (replan openConfig "p" ["a"]).alone ⟨spliceSurvivors, [], []⟩ =
      (some (.ok true), ((replan openConfig "p" ["a"]).alone ⟨spliceSurvivors, [], []⟩).2) :=
    Prod.ext (by decide +kernel) rfl
  have hget : ((replan openConfig "p" ["a"]).alone ⟨spliceSurvivors, [], []⟩).2.state.pipelines.get?
      "p" = some { splicePipeline with placement := .ofList [("a", "w3"), ("b", "w2")] } := by
    decide +kernel
  exact replan_passesOn (by decide +kernel) (PipelineDAG.built_ofLists _ _) complete_spliceBroker
    (by decide +kernel) (hnamed.survives "w1") hp hsafe hrun hget

/-- `w1` dies. The solver puts both stages on `w3`; only `a` moves there, and `b` stays on
`w2`, which `w3` does not trust. -/
theorem not_passesOn :
    PassesOn splicePipeline.dag spliceBroker.topology spliceConfig.governance
        splicePipeline.placement (fun _ => True) ∧
      stagesToReplace spliceConfig splicePipeline "w1" = ["a"] ∧
      ((replan spliceConfig "p" ["a"]).alone ⟨spliceSurvivors, [], []⟩).1 = some (.ok true) ∧
      ¬ ∃ ps' ∈ (spliceRun ["a"]).state.pipelines.get? "p",
        PassesOn splicePipeline.dag spliceSurvivors.topology spliceConfig.governance ps'.placement
          (Incomplete splicePipeline) := by
  decide +kernel

end NeuralBroker
end NeuralPubSub
