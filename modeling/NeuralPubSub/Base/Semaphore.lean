-- SUMMARY: A counting semaphore that grants its permits in the order of the requests.
import Mathlib.Data.List.Perm.Basic
import Mathlib.Data.List.Nodup
import Mathlib.Tactic.Common

/-!
# Semaphores

A semaphore that hands a released permit to the task that has waited longest. A
state records who has asked, who has been granted a permit, who holds one and who
waits, and carries the proof that these agree.
-/

namespace Base

structure Semaphore (τ : Type) (permits : Nat) where
  /-- The tasks that have asked for a permit, in order. -/
  requested : List τ
  /-- The tasks that have been granted one, in order. -/
  granted : List τ
  holding : List τ
  waiting : List τ
  bounded : holding.length ≤ permits
  /-- A task waits only while all permits are taken. -/
  busy : waiting ≠ [] → holding.length = permits
  fifo : requested = granted ++ waiting
  held : holding.Sublist granted
  deriving DecidableEq

namespace Semaphore

variable {τ : Type} {permits : Nat}

def idle (τ : Type) (permits : Nat) : Semaphore τ permits where
  requested := []
  granted := []
  holding := []
  waiting := []
  bounded := Nat.zero_le _
  busy h := absurd rfl h
  fifo := rfl
  held := .slnil

/-- The tasks that hold a permit or wait for one. -/
def pending (s : Semaphore τ permits) : List τ := s.holding ++ s.waiting

theorem not_waiting_of_lt (s : Semaphore τ permits) (h : s.holding.length < permits) :
    s.waiting = [] := by
  by_contra hne
  exact absurd (s.busy hne) (Nat.ne_of_lt h)

/-- Ask for a permit: it is granted at once when one is free, as then nobody waits. -/
def acquire (s : Semaphore τ permits) (t : τ) : Semaphore τ permits :=
  if h : s.holding.length < permits then
    { requested := s.requested ++ [t]
      granted := s.granted ++ [t]
      holding := s.holding ++ [t]
      waiting := []
      bounded := by rw [List.length_append, List.length_singleton]; exact h
      busy := fun hne => absurd rfl hne
      fifo := by rw [s.fifo, s.not_waiting_of_lt h, List.append_nil, List.append_nil]
      held := s.held.append (.refl _) }
  else
    { requested := s.requested ++ [t]
      granted := s.granted
      holding := s.holding
      waiting := s.waiting ++ [t]
      bounded := s.bounded
      busy := fun _ => Nat.le_antisymm s.bounded (Nat.le_of_not_lt h)
      fifo := by rw [s.fifo, List.append_assoc]
      held := s.held }

variable [DecidableEq τ]

/-- Give a permit back; the task that has waited longest takes it. -/
def release (s : Semaphore τ permits) (t : τ) : Semaphore τ permits :=
  if ht : t ∈ s.holding then
    match hwaiting : s.waiting with
    | [] =>
      { requested := s.requested
        granted := s.granted
        holding := s.holding.erase t
        waiting := []
        bounded := Nat.le_trans List.length_erase_le s.bounded
        busy := fun hne => absurd rfl hne
        fifo := by rw [s.fifo, hwaiting]
        held := List.erase_sublist.trans s.held }
    | next :: rest =>
      have hlen : (s.holding.erase t).length + 1 = permits := by
        rw [List.length_erase_add_one ht, s.busy (by simp [hwaiting])]
      { requested := s.requested
        granted := s.granted ++ [next]
        holding := s.holding.erase t ++ [next]
        waiting := rest
        bounded := Nat.le_of_eq (by rw [List.length_append, List.length_singleton, hlen])
        busy := fun _ => by rw [List.length_append, List.length_singleton, hlen]
        fifo := by rw [s.fifo, hwaiting, List.append_assoc, List.singleton_append]
        held := (List.erase_sublist.trans s.held).append (.refl _) }
  else s

/-! ## What the operations do -/

omit [DecidableEq τ] in
@[simp] theorem requested_acquire (s : Semaphore τ permits) (t : τ) :
    (s.acquire t).requested = s.requested ++ [t] := by
  unfold acquire
  split <;> rfl

omit [DecidableEq τ] in
theorem pending_acquire (s : Semaphore τ permits) (t : τ) :
    (s.acquire t).pending = s.pending ++ [t] := by
  unfold acquire pending
  split
  · next h => rw [s.not_waiting_of_lt h, List.append_nil, List.append_nil]
  · rw [List.append_assoc]

@[simp] theorem requested_release (s : Semaphore τ permits) (t : τ) :
    (s.release t).requested = s.requested := by
  unfold release
  split
  · split <;> rfl
  · rfl

theorem pending_release (s : Semaphore τ permits) (t : τ) (ht : t ∈ s.holding) :
    (s.release t).pending = s.pending.erase t := by
  rw [pending, pending, List.erase_append_left _ ht]
  unfold release
  rw [dif_pos ht]
  split
  · next hwaiting => simp [hwaiting]
  · next hwaiting => simp [hwaiting]

omit [DecidableEq τ] in
theorem granted_prefix (s : Semaphore τ permits) : s.granted <+: s.requested := by
  rw [s.fifo]
  exact List.prefix_append _ _

omit [DecidableEq τ] in
/-- With a permit at all, somebody holds one while somebody is pending. -/
theorem exists_holding (s : Semaphore τ permits) (hpermits : 0 < permits) (h : s.pending ≠ []) :
    s.holding ≠ [] := by
  intro hnone
  have hwaiting : s.waiting ≠ [] := by simpa [pending, hnone] using h
  have hlen := s.busy hwaiting
  rw [hnone, List.length_nil] at hlen
  exact absurd hlen (Nat.ne_of_lt hpermits)

end Semaphore
end Base
