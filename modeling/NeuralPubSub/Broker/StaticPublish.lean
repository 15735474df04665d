-- SUMMARY: Publishes to a static broker: each places every stage, and together they spread the stages evenly over the workers.
import NeuralPubSub.Broker.Publish

open Base

/-!
# Publishes to the static broker

Placing a pipeline is a series of picks, one for each stage in topological order.
What holds of a run of picks therefore holds of the placements: pipelines that are
published one after the other load the workers evenly.
-/

namespace NeuralPubSub
namespace StaticBroker

/-! ## Placements as picks -/

/-- The slice that the stage asks for. -/
def sliceOf (dag : PipelineDAG) (sid : StageId) : Option SliceId :=
  (dag.stage? sid).bind (·.sliceRequirement)

/-- The picks that placing the stages in this order makes. -/
def picksFor (dag : PipelineDAG) (order : List StageId) : List RegistryEvent :=
  order.map fun sid => .pick (sliceOf dag sid)

/-- How many stages that ask for the slice a placement puts on the worker. -/
def stagesOn (s : Option SliceId) (nodeId : NodeId) (dag : PipelineDAG) (placement : Placement) : Nat :=
  dag.stages.values.countP fun stage =>
    stage.sliceRequirement = s ∧ placement.get? stage.id = some nodeId

/-- The placements of pipelines that are published one after the other. -/
def computePlacements (cfg : BrokerConfig) :
    List PipelineDAG → Broker → Except PyError (List Placement) × Broker
  | [], b => (.ok [], b)
  | dag :: dags, b =>
    match computePlacement cfg dag b with
    | (.error e, b') => (.error e, b')
    | (.ok placement, b') =>
      match computePlacements cfg dags b' with
      | (.error e, b'') => (.error e, b'')
      | (.ok placements, b'') => (.ok (placement :: placements), b'')

section Picks

variable {cfg : BrokerConfig} {dag : PipelineDAG} {b b' : Broker}

theorem picked_append (s : Option SliceId) (b : Broker) (first rest : List RegistryEvent) :
    picked cfg s b (first ++ rest) =
      picked cfg s b first ++ picked cfg s (first.foldl (onEvent cfg) b) rest := by
  induction first generalizing b with
  | nil => rfl
  | cons event first ih =>
    cases event with
    | pick s' =>
      rw [List.cons_append, picked, picked, List.append_assoc, ih]
      rfl
    | register | deregister | removeDead | evict => exact ih _

/-- The loop makes its picks, and they give the workers of the stages. -/
theorem placeInOrder_picks {order : List StageId} {placement p : Placement} (hnodup : order.Nodup)
    (h : placeInOrder cfg dag order placement b = (.ok p, b')) :
    b' = (picksFor dag order).foldl (onEvent cfg) b ∧
      (∀ sid, sid ∉ order → p.get? sid = placement.get? sid) ∧
      ∀ s nodeId, (picked cfg s b (picksFor dag order)).count nodeId =
        order.countP fun sid => sliceOf dag sid = s ∧ p.get? sid = some nodeId := by
  induction order generalizing placement b with
  | nil =>
    obtain ⟨hp, rfl⟩ := Prod.mk.inj h
    obtain rfl := Except.ok.inj hp
    exact ⟨rfl, fun _ _ => rfl, fun _ _ => rfl⟩
  | cons sid rest ih =>
    obtain ⟨hsid, hrest⟩ := List.nodup_cons.mp hnodup
    rw [placeInOrder] at h
    split at h
    · cases h
    · next stage hstage =>
      have hslice : sliceOf dag sid = stage.sliceRequirement := by
        rw [sliceOf, show dag.stage? sid = some stage from subscript_eq_ok_iff.mp hstage]
        rfl
      split at h
      · cases h
      · next nodeId b₁ hpick =>
        obtain ⟨hb', hkept, hcount⟩ := ih hrest h
        have hself : p.get? sid = some nodeId := by
          rw [hkept sid hsid, Dict.get?_insert_self]
        have hafter : onEvent cfg b (.pick (sliceOf dag sid)) = b₁ := by
          rw [hslice, onEvent, hpick]
        refine ⟨?_, fun x hx => ?_, fun s u => ?_⟩
        · rw [picksFor, List.map_cons, List.foldl_cons, hafter]
          exact hb'
        · rw [hkept x fun hmem => hx (List.mem_cons_of_mem _ hmem),
            Dict.get?_insert_of_ne _ _ (by rintro rfl; exact hx List.mem_cons_self)]
        · rw [picksFor, List.map_cons, picked, List.count_append, hslice, hpick,
            show picked cfg s b₁ (rest.map _) = picked cfg s b₁ (picksFor dag rest) from rfl, hcount,
            List.countP_cons, hself, hslice, Nat.add_comm]
          congr 1
          by_cases hs : stage.sliceRequirement = s
          · simp [hs, Except.toOption, List.count_singleton, beq_eq_decide, eq_comm]
          · simp [hs]

/-- The stages of the DAG as values and as keys. -/
theorem countP_keys (hw : dag.WellFormed) (p : Placement) (s : Option SliceId) (nodeId : NodeId) :
    (dag.stages.keys.countP fun sid => sliceOf dag sid = s ∧ p.get? sid = some nodeId) =
      stagesOn s nodeId dag p := by
  rw [← hw.map_id_values, List.countP_map, stagesOn]
  refine List.countP_congr fun stage hstage => ?_
  obtain ⟨e, he, rfl⟩ := List.mem_map.mp hstage
  have hget : dag.stage? e.1 = some e.2 := Dict.get?_eq_some_iff.mpr he
  rw [← hw.stageId e.1 e.2 hget] at hget
  simp [sliceOf, hget]

theorem computePlacement_picks (hbuilt : dag.Built) {p : Placement}
    (h : computePlacement cfg dag b = (.ok p, b')) :
    ∃ order, b' = (picksFor dag order).foldl (onEvent cfg) b ∧
      ∀ s nodeId, (picked cfg s b (picksFor dag order)).count nodeId = stagesOn s nodeId dag p := by
  obtain ⟨order, horder, hperm, -⟩ := hbuilt.wellFormed.topologicalSort_eq
  rw [computePlacement, horder] at h
  have hnodup : order.Nodup := hperm.nodup_iff.mpr dag.stages.keys_nodup
  obtain ⟨hb', -, hcount⟩ := placeInOrder_picks hnodup h
  refine ⟨order, hb', fun s nodeId => ?_⟩
  rw [hcount, hperm.countP_eq, countP_keys hbuilt.wellFormed]

/-- Successive publishes make a run of picks, which give the workers of all stages. -/
theorem computePlacements_picks {dags : List PipelineDAG} (hbuilt : ∀ dag ∈ dags, dag.Built)
    {ps : List Placement} (h : computePlacements cfg dags b = (.ok ps, b')) :
    ∃ picks, (∀ event ∈ picks, ∃ s, event = .pick s) ∧ b' = picks.foldl (onEvent cfg) b ∧
      ∀ s nodeId, (picked cfg s b picks).count nodeId =
        (List.zipWith (stagesOn s nodeId) dags ps).sum := by
  induction dags generalizing b ps with
  | nil =>
    obtain ⟨hps, rfl⟩ := Prod.mk.inj h
    obtain rfl := Except.ok.inj hps
    exact ⟨[], by simp, rfl, fun _ _ => rfl⟩
  | cons dag dags ih =>
    rw [computePlacements] at h
    split at h
    · cases h
    · next p b₁ hp =>
      split at h
      · cases h
      · next rest b₂ hrest =>
        obtain ⟨hps, rfl⟩ := Prod.mk.inj h
        obtain rfl := Except.ok.inj hps
        obtain ⟨order, rfl, hfirst⟩ := computePlacement_picks (hbuilt dag List.mem_cons_self) hp
        obtain ⟨picks, hpicks, rfl, hlater⟩ :=
          ih (fun dag hdag => hbuilt dag (List.mem_cons_of_mem _ hdag)) hrest
        refine ⟨picksFor dag order ++ picks, fun event hevent => ?_, ?_, fun s nodeId => ?_⟩
        · rcases List.mem_append.mp hevent with hevent | hevent
          · obtain ⟨sid, -, rfl⟩ := List.mem_map.mp hevent
            exact ⟨_, rfl⟩
          · exact hpicks event hevent
        · rw [List.foldl_append]
        · rw [picked_append, List.count_append, hfirst, hlater, List.zipWith_cons_cons, List.sum_cons]

end Picks

/-! ## Placements of a series of publishes -/

section Spread

variable {cfg : BrokerConfig} {dags : List PipelineDAG} {b : Broker}

variable (cfg) in
/-- The publishes place everything, or one meets a stage without eligible workers. -/
theorem computePlacements_returns (hbuilt : ∀ dag ∈ dags, dag.Built) (hcycles : CyclesValid b) :
    (∃ ps b', computePlacements cfg dags b = (.ok ps, b') ∧
      List.Forall₂ (fun dag p => (∀ sid, sid ∈ p ↔ sid ∈ dag.stages) ∧ PlacedOn dag b p) dags ps) ∨
    ∃ e b', computePlacements cfg dags b = (.error e, b') ∧ ∃ dag ∈ dags, ∃ sid stage,
      dag.stage? sid = some stage ∧ ∀ nodeId, ¬ Eligible b stage.sliceRequirement nodeId := by
  induction dags generalizing b with
  | nil => exact .inl ⟨[], b, rfl, .nil⟩
  | cons dag dags ih =>
    obtain ⟨b₁, hworkers, hcycles₁, hplaced⟩ :=
      computePlacement_returns cfg (hbuilt dag List.mem_cons_self) hcycles
    have heligible : ∀ s nodeId, Eligible b₁ s nodeId ↔ Eligible b s nodeId := fun s nodeId =>
      Eligible.congr hworkers
    rw [computePlacements]
    rcases hplaced with ⟨p, hp, hon, hmem⟩ | ⟨msg, herror, sid, stage, hstage, hnone⟩
    · rw [hp]
      rcases ih (fun dag hdag => hbuilt dag (List.mem_cons_of_mem _ hdag)) hcycles₁ with
        ⟨ps, b', hps, hall⟩ | ⟨e, b', herror, dag', hdag', sid, stage, hstage, hnone⟩
      · refine .inl ⟨p :: ps, b', by simp only [hps], .cons ⟨hmem, hon⟩ (hall.imp ?_)⟩
        rintro dag' p' ⟨hmem', hon'⟩
        exact ⟨hmem', fun sid stage nodeId hs hn => (heligible _ _).mp (hon' sid stage nodeId hs hn)⟩
      · refine .inr ⟨e, b', by simp only [herror], dag', List.mem_cons_of_mem _ hdag', sid, stage,
          hstage, fun nodeId h => hnone nodeId ((heligible _ _).mpr h)⟩
    · rw [herror]
      exact .inr ⟨_, b₁, rfl, dag, List.mem_cons_self, sid, stage, hstage, hnone⟩

theorem CyclesValid.computePlacements (hcycles : CyclesValid b) (hbuilt : ∀ dag ∈ dags, dag.Built)
    {ps : List Placement} {b' : Broker} (h : computePlacements cfg dags b = (.ok ps, b')) :
    List.Forall₂ (fun dag p => (∀ sid, sid ∈ p ↔ sid ∈ dag.stages) ∧ PlacedOn dag b p) dags ps := by
  rcases computePlacements_returns cfg hbuilt hcycles with ⟨ps', b'', hps, hall⟩ | ⟨e, b'', herror, -⟩
  · obtain rfl := Except.ok.inj (Prod.mk.inj (hps.symm.trans h)).1
    exact hall
  · cases (Prod.mk.inj (herror.symm.trans h)).1

end Spread

/-- Pipelines published one after the other, after any registrations, departures and
picks: they are all placed exactly if every stage has an eligible worker. Then each stage
is on one, and of two workers eligible for a slice neither has more than one stage more
that asks for it. What the broker is left with is again a state after picks. -/
theorem computePlacements_spread {cfg : BrokerConfig} (hrr : cfg.placementStrategy = .roundRobin)
    (events : List RegistryEvent) {dags : List PipelineDAG} (hbuilt : ∀ dag ∈ dags, dag.Built) :
    ((∃ ps b', computePlacements cfg dags (after cfg events) = (.ok ps, b')) ↔
      ∀ dag ∈ dags, ∀ stage ∈ dag.stages.values, ∃ nodeId,
        Eligible (after cfg events) stage.sliceRequirement nodeId) ∧
    ∀ ps b', computePlacements cfg dags (after cfg events) = (.ok ps, b') →
      List.Forall₂ (fun dag p => (∀ sid, sid ∈ p ↔ sid ∈ dag.stages) ∧
        PlacedOn dag (after cfg events) p) dags ps ∧
      (∃ picks, b' = after cfg (events ++ picks)) ∧
      ∀ s u v, Eligible (after cfg events) s u → Eligible (after cfg events) s v →
        (List.zipWith (stagesOn s u) dags ps).sum ≤ (List.zipWith (stagesOn s v) dags ps).sum + 1 := by
  have hcycles := cyclesValid_after hrr events
  refine ⟨⟨?_, fun hall => ?_⟩, fun ps b' h => ?_⟩
  · rintro ⟨ps, b', h⟩ dag hdag stage hstage
    have hplaced := hcycles.computePlacements hbuilt h
    obtain ⟨i, hi, hget⟩ := List.getElem_of_mem hdag
    have hlength := hplaced.length_eq
    obtain ⟨hmem, hon⟩ := hplaced.get hi (hlength ▸ hi)
    simp only [List.get_eq_getElem, hget] at hmem hon
    obtain ⟨e, he, rfl⟩ := List.mem_map.mp hstage
    have hstage : dag.stage? e.1 = some e.2 := Dict.get?_eq_some_iff.mpr he
    obtain ⟨nodeId, hnode⟩ := Dict.exists_get?_of_mem
      ((hmem e.1).mpr (Dict.mem_of_get?_eq_some hstage))
    exact ⟨nodeId, hon e.1 e.2 nodeId hstage hnode⟩
  · rcases computePlacements_returns cfg hbuilt hcycles with
      ⟨ps, b', hps, -⟩ | ⟨e, b', -, dag, hdag, sid, stage, hstage, hnone⟩
    · exact ⟨ps, b', hps⟩
    · have hvalue : stage ∈ dag.stages.values :=
        List.mem_map.mpr ⟨(sid, stage), Dict.get?_eq_some_iff.mp hstage, rfl⟩
      obtain ⟨nodeId, heligible⟩ := hall dag hdag stage hvalue
      exact absurd heligible (hnone nodeId)
  · obtain ⟨picks, hpicks, rfl, hcount⟩ := computePlacements_picks hbuilt h
    refine ⟨hcycles.computePlacements hbuilt h, ⟨picks, by rw [after, after, List.foldl_append]⟩, ?_⟩
    intro s u v hu hv
    have hquiet : ∀ event ∈ picks, ¬ Rebuilds (after cfg events) event := by
      intro event hevent
      obtain ⟨s', rfl⟩ := hpicks event hevent
      exact id
    obtain ⟨cycle, hperm, heven⟩ := even_picked hrr s hcycles hquiet
      (RoundRobin.even_const 0 (currentCycle (after cfg events) s))
    have hmem : ∀ nodeId, Eligible (after cfg events) s nodeId → nodeId ∈ cycle := fun nodeId h =>
      hperm.mem_iff.mpr (mem_eligibleWorkers.mpr h)
    simpa [hcount] using heven.le_succ (hmem u hu) (hmem v hv)

private def spreadConfig : BrokerConfig := { domainId := "d1", brokerId := "b1" }

private def spreadFleet : List RegistryEvent :=
  [.register ⟨"w1", "d1", "eMBB", 4, "http://w1", 0, ""⟩,
    .register ⟨"w2", "d1", "eMBB", 4, "http://w2", 0, ""⟩,
    .register ⟨"w3", "d1", "URLLC", 4, "http://w3", 0, ""⟩]

private def spreadDag : PipelineDAG :=
  .ofLists [⟨"a", "collect", 1, 1, some "eMBB", none, none⟩,
      ⟨"b", "detect", 1, 1, some "eMBB", none, none⟩,
    ⟨"c", "report", 1, 1, some "eMBB", none, none⟩] [⟨"a", "b", 5⟩, ⟨"b", "c", 5⟩]

/-- Two chains of three stages on the two workers of their slice. -/
theorem computePlacements_spread_chains :
    ∃ ps b', computePlacements spreadConfig [spreadDag, spreadDag] (after spreadConfig spreadFleet) =
        (.ok ps, b') ∧
      (List.zipWith (stagesOn (some "eMBB") "w1") [spreadDag, spreadDag] ps).sum = 3 ∧
      (List.zipWith (stagesOn (some "eMBB") "w1") [spreadDag, spreadDag] ps).sum ≤
        (List.zipWith (stagesOn (some "eMBB") "w2") [spreadDag, spreadDag] ps).sum + 1 := by
  have hbuilt : ∀ dag ∈ [spreadDag, spreadDag], dag.Built := by
    simp [spreadDag, PipelineDAG.built_ofLists]
  have heligible : ∀ nodeId ∈ ["w1", "w2"],
      Eligible (after spreadConfig spreadFleet) (some "eMBB") nodeId := by
    simp only [← mem_eligibleWorkers]
    decide +kernel
  have hrun : ∃ ps, (computePlacements spreadConfig [spreadDag, spreadDag]
      (after spreadConfig spreadFleet)).1.toOption = some ps ∧
      (List.zipWith (stagesOn (some "eMBB") "w1") [spreadDag, spreadDag] ps).sum = 3 := by
    decide +kernel
  obtain ⟨ps, hps, hthree⟩ := hrun
  cases hplaced : computePlacements spreadConfig [spreadDag, spreadDag]
      (after spreadConfig spreadFleet) with
  | mk result b' =>
    rw [hplaced] at hps
    cases result with
    | error e => cases hps
    | ok ps' =>
      obtain rfl := Option.some.inj hps
      have hrr : spreadConfig.placementStrategy = .roundRobin := rfl
      have hspread := (computePlacements_spread hrr spreadFleet hbuilt).2 _ b' hplaced
      exact ⟨_, b', rfl, hthree, hspread.2.2 (some "eMBB") "w1" "w2" (heligible _ (by simp))
        (heligible _ (by simp))⟩

end StaticBroker
end NeuralPubSub
