-- SUMMARY: What the feasibility check says of a placement that takes some hosts from a new solution and keeps the others.
import NeuralPubSub.Broker.Placement.TrustedEdges

open Base

/-!
# Splicing placements

Re-placement solves the whole DAG again but takes over the hosts of a few stages
only. The new hosts suit their stages and the kept hosts suit theirs; what
neither solution looks at are the edges between the two.
-/

namespace NeuralPubSub

variable {dag : PipelineDAG} {topology : NetworkTopology} {governance : GovernancePolicy}
  {w : Weights} {p q : Placement} {S : StageId → Prop}

/-! ## The checks of a set of stages -/

/-- The placement passes the slice and governance checks of the stages in `S`, and the
latency and trust checks of the edges between them. -/
structure PassesOn (dag : PipelineDAG) (topology : NetworkTopology) (governance : GovernancePolicy)
    (p : Placement) (S : StageId → Prop) : Prop where
  stages : ∀ sid ∈ dag.stages, S sid → ∃ nid, p.get? sid = some nid ∧
    governanceViolations dag topology governance (sid, nid) = .ok [] ∧
      sliceViolations dag topology (sid, nid) = .ok []
  edges : ∀ e ∈ dag.edges, S e.sourceId → S e.targetId →
    edgeViolations p topology governance e = .ok []

instance [DecidablePred S] : Decidable (PassesOn dag topology governance p S) :=
  decidable_of_iff
    ((∀ sid ∈ dag.stages.keys, S sid → ∃ nid ∈ p.get? sid,
      governanceViolations dag topology governance (sid, nid) = .ok [] ∧
        sliceViolations dag topology (sid, nid) = .ok []) ∧
    ∀ e ∈ dag.edges, S e.sourceId → S e.targetId →
      edgeViolations p topology governance e = .ok [])
    ⟨fun h => ⟨h.1, h.2⟩, fun h => ⟨h.stages, h.edges⟩⟩

/-- The host is a node that slice and sovereignty of the stage allow. -/
def StageFits (dag : PipelineDAG) (topology : NetworkTopology) (sid : StageId) (host : Option NodeId) :
    Prop :=
  ∃ x ∈ topology.nodes, host = some x.nodeId ∧
    ∀ stage, dag.stage? sid = some stage → stage.allowedOn x

/-- The hosts are two nodes that keep the bound of the edge and trust each other. -/
def EdgeFits (topology : NetworkTopology) (governance : GovernancePolicy) (e : Edge)
    (src tgt : Option NodeId) : Prop :=
  ∃ x ∈ topology.nodes, ∃ y ∈ topology.nodes, src = some x.nodeId ∧ tgt = some y.nodeId ∧
    EdgeAllowed topology governance e x y

theorem getNode_eq_ok {nid : NodeId} {x : ExecutionUnit} (h : topology.getNode nid = .ok x) :
    x ∈ topology.nodes ∧ x.nodeId = nid := by
  unfold NetworkTopology.getNode at h
  cases hget : topology.nodeMap.get? nid with
  | none =>
    rw [hget] at h
    cases h
  | some y =>
    rw [hget] at h
    obtain rfl := Except.ok.inj h
    have hmem := Dict.mem_of_get?_ofList hget
    obtain ⟨z, hz, heq⟩ := List.mem_map.mp hmem
    obtain ⟨rfl, rfl⟩ := Prod.mk.inj heq
    exact ⟨hz, rfl⟩

/-- The stage checks pass exactly on the nodes that the stage is allowed on. -/
theorem stageFits_iff (hids : (topology.nodes.map (·.nodeId)).Nodup) {sid : StageId}
    (hsid : sid ∈ dag.stages) {host : Option NodeId} :
    (∃ nid, host = some nid ∧ governanceViolations dag topology governance (sid, nid) = .ok [] ∧
      sliceViolations dag topology (sid, nid) = .ok []) ↔ StageFits dag topology sid host := by
  obtain ⟨stage, hstage, hstage?, -⟩ := getStage_of_mem hsid
  -- both checks look the node up first
  have hchecks : ∀ x ∈ topology.nodes,
      (governanceViolations dag topology governance (sid, x.nodeId) = .ok [] ∧
        sliceViolations dag topology (sid, x.nodeId) = .ok []) ↔ stage.allowedOn x := by
    intro x hx
    have hnode : topology.getNode x.nodeId = .ok x := by
      rw [NetworkTopology.getNode, topology.get?_nodeMap hids hx]
    unfold governanceViolations sliceViolations Stage.allowedOn
    simp only [hstage, hnode, bind, Except.bind]
    constructor
    · rintro ⟨hgovernance, hslice⟩
      split at hslice
      · next hmatch =>
        refine ⟨hmatch, ?_⟩
        have hnil := Except.ok.inj hgovernance
        simp only [List.append_eq_nil_iff] at hnil
        unfold Stage.outsideDomain
        cases hdomain : stage.dataSovereigntyDomain with
        | none => rfl
        | some required =>
          have hfirst := hnil.1
          rw [hdomain] at hfirst
          by_cases hne : x.domainId = required
          · simp [hne]
          · simp [hne] at hfirst
      · cases Except.ok.inj hslice
    · rintro ⟨hmatch, hdomain⟩
      refine ⟨congrArg Except.ok ?_, by rw [if_pos hmatch]; rfl⟩
      simp only [List.append_eq_nil_iff, hdomain, Bool.false_eq_true, and_false, if_false, and_true]
      unfold Stage.outsideDomain at hdomain
      cases hrequired : stage.dataSovereigntyDomain with
      | none => rfl
      | some required =>
        rw [hrequired] at hdomain
        have heq : required = x.domainId := by simpa using hdomain
        simp [← heq]
  constructor
  · rintro ⟨nid, rfl, hgovernance, hslice⟩
    have hnode : ∃ x, topology.getNode nid = .ok x := by
      unfold sliceViolations at hslice
      cases hget : topology.getNode nid with
      | ok x => exact ⟨x, rfl⟩
      | error e => simp [hstage, hget, bind, Except.bind] at hslice
    obtain ⟨x, hget⟩ := hnode
    obtain ⟨hx, rfl⟩ := getNode_eq_ok hget
    refine ⟨x, hx, rfl, fun stage' hstage' => ?_⟩
    obtain rfl := Option.some.inj (hstage?.symm.trans hstage')
    exact (hchecks x hx).mp ⟨hgovernance, hslice⟩
  · rintro ⟨x, hx, rfl, hallowed⟩
    exact ⟨x.nodeId, rfl, (hchecks x hx).mpr (hallowed stage hstage?)⟩

/-- The edge check passes exactly on hosts that fit the edge. -/
theorem edgeViolations_eq_nil_iff (hc : topology.Complete) {e : Edge} :
    edgeViolations p topology governance e = .ok [] ↔
      EdgeFits topology governance e (p.get? e.sourceId) (p.get? e.targetId) := by
  unfold edgeViolations EdgeFits
  cases hsrc : p.get? e.sourceId with
  | none => simp [pure, Except.pure]
  | some src =>
    cases htgt : p.get? e.targetId with
    | none => simp [pure, Except.pure]
    | some tgt =>
      have hallowed : ∀ x ∈ topology.nodes, ∀ y ∈ topology.nodes, (do
          let actual ← topology.latency x.nodeId y.nodeId
          let late := if actual > e.latencyBound + tolerance then
            [Violation.latency e.sourceId e.targetId actual e.latencyBound x.nodeId y.nodeId] else []
          let srcDomain := (← topology.getNode x.nodeId).domainId
          let tgtDomain := (← topology.getNode y.nodeId).domainId
          let untrusted := if srcDomain ≠ tgtDomain ∧ governance.getTrust srcDomain tgtDomain ≤ 0 then
            [.noTrust srcDomain tgtDomain e.sourceId e.targetId] else []
          return late ++ untrusted) = Except.ok [] ↔ EdgeAllowed topology governance e x y := by
        intro x hx y hy
        rw [hc.latency_eq hx hy, hc.getNode hx, hc.getNode hy]
        simp only [bind, Except.bind, pure, Except.pure, Except.ok.injEq, List.append_eq_nil_iff,
          EdgeAllowed, GovernancePolicy.trusts]
        split_ifs <;> simp_all
      constructor
      · intro h
        have hnodes : (∃ x, topology.getNode src = .ok x) ∧ ∃ y, topology.getNode tgt = .ok y := by
          cases hx : topology.getNode src with
          | error err => cases hl : topology.latency src tgt <;> simp [hl, hx, bind, Except.bind] at h
          | ok x =>
            cases hy : topology.getNode tgt with
            | error err =>
              cases hl : topology.latency src tgt <;> simp [hl, hx, hy, bind, Except.bind] at h
            | ok y => exact ⟨⟨x, rfl⟩, ⟨y, rfl⟩⟩
        obtain ⟨⟨x, hx⟩, ⟨y, hy⟩⟩ := hnodes
        obtain ⟨hxmem, rfl⟩ := getNode_eq_ok hx
        obtain ⟨hymem, rfl⟩ := getNode_eq_ok hy
        exact ⟨x, hxmem, y, hymem, rfl, rfl, (hallowed x hxmem y hymem).mp h⟩
      · rintro ⟨x, hx, y, hy, hsx, hty, hedge⟩
        obtain rfl := Option.some.inj hsx
        obtain rfl := Option.some.inj hty
        exact (hallowed x hx y hy).mpr hedge

theorem passesOn_iff (hc : topology.Complete) : PassesOn dag topology governance p S ↔
    (∀ sid ∈ dag.stages, S sid → StageFits dag topology sid (p.get? sid)) ∧
      ∀ e ∈ dag.edges, S e.sourceId → S e.targetId →
        EdgeFits topology governance e (p.get? e.sourceId) (p.get? e.targetId) := by
  constructor
  · exact fun h => ⟨fun sid hsid hS => (stageFits_iff hc.nodupIds hsid).mp (h.stages sid hsid hS),
      fun e he hs ht => (edgeViolations_eq_nil_iff hc).mp (h.edges e he hs ht)⟩
  · exact fun h => ⟨fun sid hsid hS => (stageFits_iff hc.nodupIds hsid).mpr (h.1 sid hsid hS),
      fun e he hs ht => (edgeViolations_eq_nil_iff hc).mpr (h.2 e he hs ht)⟩

/-! ## What the solver guarantees -/

theorem isNodeFeasibleSimple_of_isNodeFeasible {stage : Stage} {node : ExecutionUnit}
    {ledger : Dict NodeId ℚ}
    (h : isNodeFeasible stage node dag topology governance p ledger = .ok true) :
    isNodeFeasibleSimple stage node governance = true := by
  unfold isNodeFeasible at h
  cases hsimple : isNodeFeasibleSimple stage node governance with
  | true => rfl
  | false => simp [hsimple, pure, Except.pure] at h

/-- The host is a node that is feasible for the stage on its own. -/
def SuitedHost (dag : PipelineDAG) (topology : NetworkTopology) (governance : GovernancePolicy)
    (sid : StageId) (host : Option NodeId) : Prop :=
  ∃ x ∈ topology.nodes, host = some x.nodeId ∧ Suits dag governance sid x

theorem SuitedHost.stageFits {sid : StageId} {host : Option NodeId}
    (h : SuitedHost dag topology governance sid host) : StageFits dag topology sid host := by
  obtain ⟨x, hx, rfl, hsuits⟩ := h
  exact ⟨x, hx, rfl, fun stage hstage =>
    ((isNodeFeasibleSimple_iff stage x governance).mp (hsuits stage hstage)).2⟩

theorem greedyPlacement_suited (hw : dag.WellFormed)
    (hq : greedyPlacement dag topology governance w = .ok q) :
    ∀ sid ∈ q, SuitedHost dag topology governance sid (q.get? sid) := by
  obtain ⟨-, -, hsuited⟩ := greedyPlacement_rule
    (P := fun _ p => ∀ sid ∈ p, SuitedHost dag topology governance sid (p.get? sid)) hw hq (by simp)
    (by
      intro order done rest sid s s' _ _ _ h hstep x hx
      obtain ⟨stage, hget, node, hmem, hfeasible, hplaced⟩ := greedyStep_eq_ok hstep
      rw [hplaced, Dict.mem_insert] at hx
      rw [hplaced, Dict.get?_insert]
      split
      · next heq =>
        rw [heq]
        refine ⟨node, hmem, rfl, fun stage' hstage' => ?_⟩
        obtain rfl := Option.some.inj ((subscript_eq_ok_iff.mp hget).symm.trans hstage')
        exact isNodeFeasibleSimple_of_isNodeFeasible hfeasible
      · next hne => exact h x (hx.resolve_left hne))
  exact hsuited

/-- Both solvers put every stage on a node that is feasible for it. -/
theorem findPlacement_suited (hbuilt : dag.Built) (hc : topology.Complete)
    (hq : findPlacement dag topology governance w = .ok q) :
    ∀ sid ∈ q, SuitedHost dag topology governance sid (q.get? sid) := by
  by_cases htree : dag.isTree = true
  · obtain ⟨host, moves, final, hfirst, hrun, hhosts, -⟩ := findPlacement_run hbuilt htree hc hq
    intro sid hsid
    have hmem := (hhosts.mem_iff sid).mp hsid
    exact ⟨final sid, hhosts.mem_nodes sid hmem, hhosts.get? sid hmem,
      hrun.suits hfirst.admissible.stages sid⟩
  · rw [findPlacement, if_neg htree] at hq
    split at hq
    · cases hq
      simp
    · exact greedyPlacement_suited hbuilt.wellFormed hq

theorem findPlacement_stageFits (hbuilt : dag.Built) (hc : topology.Complete)
    (hq : findPlacement dag topology governance w = .ok q) :
    ∀ sid ∈ q, StageFits dag topology sid (q.get? sid) := fun sid hsid =>
  (findPlacement_suited hbuilt hc hq sid hsid).stageFits

/-- The solver keeps the constraints of the edge: on a tree no end of it is a sibling, which
the redistribution pass may move; elsewhere no two edges join the same stages. -/
structure SolverKeeps (dag : PipelineDAG) (e : Edge) : Prop where
  tree : dag.isTree = true → ¬ dag.Sibling e.sourceId ∧ ¬ dag.Sibling e.targetId
  simple : dag.isTree = false → dag.SimpleEdges

theorem findPlacement_edgeFits (hbuilt : dag.Built) (hc : topology.Complete)
    (hq : findPlacement dag topology governance w = .ok q) {e : Edge} (he : e ∈ dag.edges)
    (hkeeps : SolverKeeps dag e) (hsource : e.sourceId ∈ q) (htarget : e.targetId ∈ q) :
    EdgeFits topology governance e (q.get? e.sourceId) (q.get? e.targetId) := by
  have hw := hbuilt.wellFormed
  obtain ⟨x, hx, hsrc, -⟩ := findPlacement_suited hbuilt hc hq _ hsource
  obtain ⟨y, hy, htgt, -⟩ := findPlacement_suited hbuilt hc hq _ htarget
  refine ⟨x, hx, y, hy, hsrc, htgt, ?_⟩
  cases htree : dag.isTree with
  | true =>
    obtain ⟨host, moves, final, hfirst, hrun, hhosts, hcolocated⟩ :=
      findPlacement_run hbuilt htree hc hq
    have hadm := hfirst.admissible
    have hsource' := hw.source_mem e he
    have htarget' := hw.target_mem e he
    rw [hhosts.get? _ hsource'] at hsrc
    rw [hhosts.get? _ htarget'] at htgt
    rw [← hc.eq_of_nodeId_eq (hhosts.mem_nodes _ hsource') hx (Option.some.inj hsrc),
      ← hc.eq_of_nodeId_eq (hhosts.mem_nodes _ htarget') hy (Option.some.inj htgt)]
    refine hrun.edge_kept hw hadm.mem_nodes hadm.stages he (hadm.edges e he) fun m hm hend => ?_
    have hsibling := (hcolocated m hm).sibling
    rcases hend with heq | heq
    · exact absurd (heq ▸ hsibling) (hkeeps.tree htree).1
    · exact absurd (heq ▸ hsibling) (hkeeps.tree htree).2
  | false =>
    rw [findPlacement, htree] at hq
    split at hq
    · cases hq
      simp at hsource
    · exact ⟨greedyPlacement_edges hw hc.nodupIds (testsEdges_inTime hw (hkeeps.simple htree) hc) hq
          e he x hx y hy hsrc htgt,
        greedyPlacement_trusted hw hc.nodupIds hq e he x hx y hy hsrc htgt⟩

/-! ## Surviving topologies -/

/-- What is left of a topology: nodes may have gone and loads may have changed. -/
structure Survives (t₀ t : NetworkTopology) : Prop where
  nodes : ∀ x ∈ t.nodes, ∃ x₀ ∈ t₀.nodes,
    x₀.nodeId = x.nodeId ∧ x₀.domainId = x.domainId ∧ x₀.sliceId = x.sliceId
  latency : ∀ x ∈ t.nodes, ∀ y ∈ t.nodes,
    t₀.latencyOf x.nodeId y.nodeId = t.latencyOf x.nodeId y.nodeId

/-- The host is one of the nodes. -/
def HostIn (topology : NetworkTopology) (host : Option NodeId) : Prop :=
  ∃ x ∈ topology.nodes, host = some x.nodeId

namespace Survives

variable {t₀ t : NetworkTopology}

theorem refl : Survives t t where
  nodes x hx := ⟨x, hx, rfl, rfl, rfl⟩
  latency _ _ _ _ := rfl

/-- A host that survives has the domain and the slice that it had. -/
theorem same (h : Survives t₀ t) (hids : (t₀.nodes.map (·.nodeId)).Nodup) {x x₀ : ExecutionUnit}
    (hx : x ∈ t.nodes) (hx₀ : x₀ ∈ t₀.nodes) (hid : x₀.nodeId = x.nodeId) :
    x₀.domainId = x.domainId ∧ x₀.sliceId = x.sliceId := by
  obtain ⟨y, hy, hyid, hdomain, hslice⟩ := h.nodes x hx
  obtain rfl := List.inj_on_of_nodup_map hids hx₀ hy (hid.trans hyid.symm)
  exact ⟨hdomain, hslice⟩

theorem stageFits (h : Survives t₀ t) (hids : (t₀.nodes.map (·.nodeId)).Nodup) {sid : StageId}
    {host : Option NodeId} (hfits : StageFits dag t₀ sid host) (hhost : HostIn t host) :
    StageFits dag t sid host := by
  obtain ⟨x₀, hx₀, rfl, hallowed⟩ := hfits
  obtain ⟨x, hx, heq⟩ := hhost
  obtain ⟨hdomain, hslice⟩ := h.same hids hx hx₀ (Option.some.inj heq)
  refine ⟨x, hx, heq, fun stage hstage => ?_⟩
  have hold := hallowed stage hstage
  rw [Stage.allowedOn, hdomain, hslice] at hold
  exact hold

theorem edgeFits (h : Survives t₀ t) (hids : (t₀.nodes.map (·.nodeId)).Nodup) {e : Edge}
    {src tgt : Option NodeId} (hfits : EdgeFits t₀ governance e src tgt) (hsrc : HostIn t src)
    (htgt : HostIn t tgt) : EdgeFits t governance e src tgt := by
  obtain ⟨x₀, hx₀, y₀, hy₀, rfl, rfl, hlatency, htrust⟩ := hfits
  obtain ⟨x, hx, hxid⟩ := hsrc
  obtain ⟨y, hy, hyid⟩ := htgt
  have hx' := h.same hids hx hx₀ (Option.some.inj hxid)
  have hy' := h.same hids hy hy₀ (Option.some.inj hyid)
  rw [Option.some.inj hxid, Option.some.inj hyid, h.latency x hx y hy] at hlatency
  rw [hx'.1, hy'.1] at htrust
  exact ⟨x, hx, y, hy, hxid, hyid, hlatency, htrust⟩

end Survives

/-! ## Splicing -/

/-- The hosts of `q` for the given stages, and those of `p` for the others. -/
def spliced (p q : Placement) (taken : List StageId) (sid : StageId) : Option NodeId :=
  if sid ∈ taken then q.get? sid else p.get? sid

/-- What neither placement looks at: the hosts that are kept are still there; an edge
between a stage that is taken over and one that is not is allowed between every node that
suits the one and the host of the other; and an edge between two stages that are taken over
is one whose constraints the solver keeps, or is allowed between any two nodes. -/
structure SeamsSafe (dag : PipelineDAG) (topology : NetworkTopology) (governance : GovernancePolicy)
    (p : Placement) (taken : List StageId) (S : StageId → Prop) : Prop where
  kept : ∀ sid ∈ dag.stages, S sid → sid ∉ taken → HostIn topology (p.get? sid)
  leaving : ∀ e ∈ dag.edges, S e.sourceId → S e.targetId → e.sourceId ∈ taken → e.targetId ∉ taken →
    ∀ x ∈ topology.nodes, Suits dag governance e.sourceId x → ∀ y ∈ topology.nodes,
      p.get? e.targetId = some y.nodeId → EdgeAllowed topology governance e x y
  entering : ∀ e ∈ dag.edges, S e.sourceId → S e.targetId → e.sourceId ∉ taken → e.targetId ∈ taken →
    ∀ x ∈ topology.nodes, p.get? e.sourceId = some x.nodeId → ∀ y ∈ topology.nodes,
      Suits dag governance e.targetId y → EdgeAllowed topology governance e x y
  inner : ∀ e ∈ dag.edges, S e.sourceId → S e.targetId → e.sourceId ∈ taken → e.targetId ∈ taken →
    SolverKeeps dag e ∨ HoldsAnywhere dag topology governance (EdgeAllowed topology governance) e

/-- The edges of the spliced placement fit when the seams are safe. -/
theorem SeamsSafe.edgeFits {taken : List StageId} (hbuilt : dag.Built) (hc : topology.Complete)
    (h : SeamsSafe dag topology governance p taken S)
    (hq : findPlacement dag topology governance w = .ok q) (hmem : ∀ sid ∈ taken, sid ∈ q)
    {e : Edge} (he : e ∈ dag.edges) (hs : S e.sourceId) (ht : S e.targetId)
    (htaken : e.sourceId ∈ taken ∨ e.targetId ∈ taken) :
    EdgeFits topology governance e (spliced p q taken e.sourceId) (spliced p q taken e.targetId) := by
  have hw := hbuilt.wellFormed
  have hsuited := fun sid hsid => findPlacement_suited hbuilt hc hq sid (hmem sid hsid)
  unfold spliced
  by_cases hsource : e.sourceId ∈ taken
  · rw [if_pos hsource]
    obtain ⟨x, hx, hsrc, hsuitsSource⟩ := hsuited _ hsource
    by_cases htarget : e.targetId ∈ taken
    · rw [if_pos htarget]
      rcases h.inner e he hs ht hsource htarget with hkeeps | hanywhere
      · exact findPlacement_edgeFits hbuilt hc hq he hkeeps (hmem _ hsource) (hmem _ htarget)
      · obtain ⟨y, hy, htgt, hsuitsTarget⟩ := hsuited _ htarget
        exact ⟨x, hx, y, hy, hsrc, htgt, hanywhere x hx y hy hsuitsSource hsuitsTarget⟩
    · rw [if_neg htarget]
      obtain ⟨y, hy, htgt⟩ := h.kept _ (hw.target_mem e he) ht htarget
      exact ⟨x, hx, y, hy, hsrc, htgt, h.leaving e he hs ht hsource htarget x hx hsuitsSource y hy htgt⟩
  · have htarget := htaken.resolve_left hsource
    rw [if_neg hsource, if_pos htarget]
    obtain ⟨x, hx, hsrc⟩ := h.kept _ (hw.source_mem e he) hs hsource
    obtain ⟨y, hy, htgt, hsuitsTarget⟩ := hsuited _ htarget
    exact ⟨x, hx, y, hy, hsrc, htgt, h.entering e he hs ht hsource htarget x hx hsrc y hy hsuitsTarget⟩

/-- A placement that passed the checks passes them again once hosts of a new solution have
been spliced into it, when the seams are safe. -/
theorem SeamsSafe.passesOn {t₀ t : NetworkTopology} {p' : Placement} {taken : List StageId}
    (h : SeamsSafe dag t governance p taken S) (hbuilt : dag.Built) (hc₀ : t₀.Complete)
    (hc : t.Complete) (hsurvives : Survives t₀ t) (hp : PassesOn dag t₀ governance p S)
    (hq : findPlacement dag t governance w = .ok q) (hmem : ∀ sid ∈ taken, sid ∈ q)
    (hp' : ∀ sid, p'.get? sid = spliced p q taken sid) : PassesOn dag t governance p' S := by
  have hw := hbuilt.wellFormed
  have hold := (passesOn_iff hc₀).mp hp
  have hids := hc₀.nodupIds
  rw [passesOn_iff hc]
  simp only [hp']
  constructor
  · intro sid hsid hS
    unfold spliced
    split
    · next htaken => exact findPlacement_stageFits hbuilt hc hq sid (hmem sid htaken)
    · next hnot => exact hsurvives.stageFits hids (hold.1 sid hsid hS) (h.kept sid hsid hS hnot)
  · intro e he hs ht
    by_cases htaken : e.sourceId ∈ taken ∨ e.targetId ∈ taken
    · exact h.edgeFits hbuilt hc hq hmem he hs ht htaken
    · -- an edge between two kept hosts was checked before
      rw [not_or] at htaken
      rw [spliced, spliced, if_neg htaken.1, if_neg htaken.2]
      exact hsurvives.edgeFits hids (hold.2 e he hs ht)
        (h.kept _ (hw.source_mem e he) hs htaken.1) (h.kept _ (hw.target_mem e he) ht htaken.2)

end NeuralPubSub
