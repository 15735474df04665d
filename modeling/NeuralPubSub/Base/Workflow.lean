-- SUMMARY: Engines that run workflows: the steps of an engine, and what holds in all of its runs.
import Mathlib.Data.Set.Insert
import Mathlib.Logic.Function.Basic
import Mathlib.Logic.Relation

/-!
# Workflow engines

A workflow is a set of tasks, some of which await others. An engine takes in workflows
as jobs, hands a task out when all that it awaits has been completed, and reports a
job as a success when its tasks have been completed.
-/

namespace Base

variable {ι τ : Type}

/-- The tasks of a job. `awaits a t` is that the task `t` is not started before `a` is done. -/
structure Workflow (τ : Type) where
  tasks : Set τ
  awaits : τ → τ → Prop

/-- What an engine knows of its jobs. -/
@[ext]
structure Engine (ι τ : Type) where
  jobs : ι → Option (Workflow τ) := fun _ => none
  handedOut : Set (ι × τ) := ∅
  completed : Set (ι × τ) := ∅
  succeeded : Set ι := ∅

namespace Engine

/-- One step of an engine. -/
inductive Step [DecidableEq ι] (e : Engine ι τ) : Engine ι τ → Prop
  | admits {j : ι} (flow : Workflow τ) (fresh : e.jobs j = none) :
    Step e { e with jobs := Function.update e.jobs j (some flow) }
  | handsOut {j : ι} {t : τ} {flow : Workflow τ} (job : e.jobs j = some flow) (task : t ∈ flow.tasks)
    (ready : ∀ a, flow.awaits a t → (j, a) ∈ e.completed) :
    Step e { e with handedOut := insert (j, t) e.handedOut }
  | completes {k : ι × τ} (handed : k ∈ e.handedOut) :
    Step e { e with completed := insert k e.completed }
  | reports {j : ι} {flow : Workflow τ} (job : e.jobs j = some flow)
    (all : ∀ t ∈ flow.tasks, (j, t) ∈ e.completed) :
    Step e { e with succeeded := insert j e.succeeded }

abbrev Run [DecidableEq ι] : Engine ι τ → Engine ι τ → Prop := Relation.ReflTransGen Step

/-- What holds between the steps. -/
structure Valid (e : Engine ι τ) : Prop where
  handedOut : ∀ k ∈ e.handedOut, ∃ flow, e.jobs k.1 = some flow ∧ k.2 ∈ flow.tasks ∧
    ∀ a, flow.awaits a k.2 → (k.1, a) ∈ e.completed
  completed : e.completed ⊆ e.handedOut
  succeeded : ∀ j ∈ e.succeeded, ∃ flow, e.jobs j = some flow ∧
    ∀ t ∈ flow.tasks, (j, t) ∈ e.completed

theorem valid_initial : ({} : Engine ι τ).Valid where
  handedOut := fun _ hk => hk.elim
  completed := fun _ hk => hk
  succeeded := fun _ hj => hj.elim

section Runs

variable [DecidableEq ι] {e e' : Engine ι τ}

theorem Valid.step (h : e.Valid) (hstep : e.Step e') : e'.Valid := by
  cases hstep with
  | @admits j flow fresh =>
    -- the jobs that were there are other ones
    have hkept : ∀ {i flow'}, e.jobs i = some flow' →
        Function.update e.jobs j (some flow) i = some flow' := by
      intro i flow' hjob
      rw [Function.update_of_ne, hjob]
      rintro rfl
      rw [fresh] at hjob
      cases hjob
    constructor
    · intro k hk
      obtain ⟨flow', hjob, hrest⟩ := h.handedOut k hk
      exact ⟨flow', hkept hjob, hrest⟩
    · exact h.completed
    · intro i hi
      obtain ⟨flow', hjob, hall⟩ := h.succeeded i hi
      exact ⟨flow', hkept hjob, hall⟩
  | handsOut job task ready =>
    refine ⟨fun k hk => ?_, fun k hk => .inr (h.completed hk), h.succeeded⟩
    rcases hk with rfl | hk
    · exact ⟨_, job, task, ready⟩
    · exact h.handedOut k hk
  | completes handed =>
    refine ⟨fun k hk => ?_, Set.insert_subset handed h.completed, fun j hj => ?_⟩
    · obtain ⟨flow, hjob, htask, hready⟩ := h.handedOut k hk
      exact ⟨flow, hjob, htask, fun a ha => .inr (hready a ha)⟩
    · obtain ⟨flow, hjob, hall⟩ := h.succeeded j hj
      exact ⟨flow, hjob, fun t ht => .inr (hall t ht)⟩
  | reports job all =>
    refine ⟨h.handedOut, h.completed, fun j hj => ?_⟩
    rcases hj with rfl | hj
    · exact ⟨_, job, all⟩
    · exact h.succeeded j hj

theorem Run.valid (hrun : Run e e') (h : e.Valid) : e'.Valid := by
  induction hrun with
  | refl => exact h
  | tail _ hstep ih => exact ih.step hstep

end Runs
end Engine
end Base
