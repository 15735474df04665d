-- SUMMARY: Parties with their own event loops on one wire, and the assume-guarantee rule for their runs.
import NeuralPubSub.Base.Coroutine

/-!
# Networks

Each party runs its handlers on its own event loop. What a party has done may put
things on the wire, and what is on the wire may bring calls to the parties, once,
several times, late or never. The rule of this module takes the runs of a network
apart: if every party guarantees what it puts on the wire while its calls are as it
assumes, and the guarantees together imply the assumptions, then each party alone
runs as it assumes.
-/

namespace Base

variable {ι σ κ μ ε ω β : Type}

/-- The event loops of the parties, and what has been put on the wire. -/
structure Network (ι σ κ μ ε ω β : Type) where
  worlds : ι → World σ κ μ ε ω
  wire : List β := []

/-- What the parties run, and how the wire joins them. -/
structure Protocol (ι σ κ μ ε ω β : Type) where
  rules : ι → Rules σ κ μ ε ω
  /-- The wire may bring the call to the party. -/
  brings : List β → ι → κ → Prop
  /-- What the party has done may put this on the wire. -/
  emits : ι → Scene σ κ μ ε ω → β → Prop

namespace Rules

variable {r : Rules σ κ μ ε ω} {p q : Scene σ κ μ ε ω → κ → Prop} {w w' : World σ κ μ ε ω}
  {move : Move κ ε}

theorem Permits.of_provided (hp : (r.provided p).Permits w move) : r.Permits w move := by
  cases move with
  | call c => exact hp.1
  | start id => exact hp
  | reply id e => exact hp
  | join id => exact hp

/-- Only calls are asked for more. -/
theorem Permits.provided_imp (hp : (r.provided p).Permits w move)
    (h : ∀ c, p w.scene c → q w.scene c) : (r.provided q).Permits w move := by
  cases move with
  | call c => exact ⟨hp.1, h c hp.2⟩
  | start id => exact hp
  | reply id e => exact hp
  | join id => exact hp

/-- A run in an environment that does less is a run in one that does more. -/
theorem Reachable.provided_mono (h : ∀ sc c, p sc c → q sc c)
    (hr : (r.provided p).Reachable w w') : (r.provided q).Reachable w w' := by
  induction hr with
  | refl => exact .refl
  | step _ hp hw ih => exact ih.step (hp.provided_imp (h _)) hw

theorem Reachable.of_provided (hr : (r.provided p).Reachable w w') : r.Reachable w w' := by
  induction hr with
  | refl => exact .refl
  | step _ hp hw ih => exact ih.step hp.of_provided hw

end Rules

namespace Protocol

variable (p : Protocol ι σ κ μ ε ω β)

/-- The rules of a party with these things on the wire. -/
def rulesAt (wire : List β) (i : ι) : Rules σ κ μ ε ω :=
  (p.rules i).provided fun _ c => p.brings wire i c

instance [∀ i, (p.rules i).DecidableRules] [∀ wire i c, Decidable (p.brings wire i c)]
    (wire : List β) (i : ι) : (p.rulesAt wire i).DecidableRules :=
  inferInstanceAs (Rules.DecidableRules (Rules.provided _ _))

/-- One step of the network. -/
inductive Step [DecidableEq ι] (n : Network ι σ κ μ ε ω β) : Network ι σ κ μ ε ω β → Prop
  /-- The event loop of a party makes a move. -/
  | moved (i : ι) {move : Move κ ε} {w : World σ κ μ ε ω}
    (permits : (p.rulesAt n.wire i).Permits (n.worlds i) move)
    (performs : (n.worlds i).perform (p.rules i).body move = some w) :
    Step n { n with worlds := Function.update n.worlds i w }
  | emitted (i : ι) {x : β} (emits : p.emits i (n.worlds i).scene x) :
    Step n { n with wire := n.wire ++ [x] }

abbrev Run [DecidableEq ι] : Network ι σ κ μ ε ω β → Network ι σ κ μ ε ω β → Prop :=
  Relation.ReflTransGen p.Step

/-- A run of one party is a run of the network. -/
theorem run_of_reachable [DecidableEq ι] {n : Network ι σ κ μ ε ω β} {i : ι} {w : World σ κ μ ε ω}
    (hr : (p.rulesAt n.wire i).Reachable (n.worlds i) w) :
    p.Run n { n with worlds := Function.update n.worlds i w } := by
  induction hr with
  | refl => rw [Function.update_eq_self]
  | @step w w' move _ hp hw ih =>
    have hself : Function.update n.worlds i w i = w := Function.update_self ..
    have hmoved := ih.tail (.moved i (hself.symm ▸ hp) (hself.symm ▸ hw))
    rwa [Function.update_idem] at hmoved

/-- What the parties assume of the calls they get and guarantee of what they put on
the wire. -/
structure Contract (start : ι → World σ κ μ ε ω) where
  assumes : ι → Scene σ κ μ ε ω → κ → Prop
  guarantees : ι → Scene σ κ μ ε ω → β → Prop
  lasting : ∀ {i sc sc' x}, guarantees i sc x → sc.Before sc' → guarantees i sc' x
  /-- A party that gets the calls it assumes guarantees what it emits. -/
  emits : ∀ {i w x}, ((p.rules i).provided (assumes i)).Reachable (start i) w →
    p.emits i w.scene x → guarantees i w.scene x
  /-- A wire with guaranteed things brings the calls that are assumed. -/
  brings : ∀ {n : Network ι σ κ μ ε ω β} {i c},
    (∀ x ∈ n.wire, ∃ j, guarantees j (n.worlds j).scene x) → p.brings n.wire i c →
      assumes i (n.worlds i).scene c

variable {p}

/-- The assume-guarantee rule: in a run of the network each party makes a run with the
calls it assumes, and everything on the wire is guaranteed by a party. -/
theorem Contract.run [DecidableEq ι] {start : ι → World σ κ μ ε ω} (h : p.Contract start)
    {n : Network ι σ κ μ ε ω β} (hrun : p.Run { worlds := start } n) :
    (∀ i, ((p.rules i).provided (h.assumes i)).Reachable (start i) (n.worlds i)) ∧
      ∀ x ∈ n.wire, ∃ i, h.guarantees i (n.worlds i).scene x := by
  induction hrun with
  | refl => exact ⟨fun _ => .refl, by simp⟩
  | @tail n n' _ hstep ih =>
    obtain ⟨hparties, hwire⟩ := ih
    cases hstep with
    | @moved i move w permits performs =>
      have hassumed : ((p.rules i).provided (h.assumes i)).Permits (n.worlds i) move :=
        permits.provided_imp fun _ => h.brings hwire
      have hbefore : ∀ j, (n.worlds j).scene.Before (Function.update n.worlds i w j).scene := by
        intro j
        rw [Function.update_apply]
        split
        · next heq =>
          rw [heq]
          exact Rules.before_perform (r := p.rules i) performs
        · exact .refl _
      refine ⟨fun j => ?_, fun x hx => ?_⟩
      · show ((p.rules j).provided (h.assumes j)).Reachable (start j)
          (Function.update n.worlds i w j)
        rw [Function.update_apply]
        split
        · next heq =>
          subst heq
          exact (hparties j).step hassumed performs
        · exact hparties j
      · obtain ⟨j, hj⟩ := hwire x hx
        exact ⟨j, h.lasting hj (hbefore j)⟩
    | @emitted i x emits =>
      refine ⟨hparties, fun y hy => ?_⟩
      rcases List.mem_append.mp hy with hy | hy
      · exact hwire y hy
      · obtain rfl := List.mem_singleton.mp hy
        exact ⟨i, h.emits (hparties i) emits⟩

end Protocol
end Base
