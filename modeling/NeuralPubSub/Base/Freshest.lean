-- SUMMARY: A keyed store that keeps the freshest value of each key, and its independence of the order of arrival.
import NeuralPubSub.Base.Dict
import NeuralPubSub.Base.Scan

/-!
# The freshest value of each key

Values arrive one after the other, each with a key and a stamp. A value replaces
the stored one of its key unless its stamp is smaller. Where equal stamps of one
key mean equal values, what the store ends up with depends only on which values
have arrived.
-/

namespace Base

variable {κ α τ : Type} [DecidableEq κ] [LinearOrder τ]

/-- Store the value under its key, unless the stored value has a larger stamp. -/
def keepFresher (key : α → κ) (stamp : α → τ) (d : Dict κ α) (x : α) : Dict κ α :=
  if (d.get? (key x)).any fun y => stamp x < stamp y then d else d.insert (key x) x

section Step

variable {key : α → κ} {stamp : α → τ} {d : Dict κ α} {x : α}

theorem keepFresher_of_lt {y : α} (hy : d.get? (key x) = some y) (h : stamp x < stamp y) :
    keepFresher key stamp d x = d := by
  unfold keepFresher
  rw [hy]
  exact if_pos (by simpa using h)

theorem keepFresher_of_not_lt (h : ∀ y, d.get? (key x) = some y → ¬ stamp x < stamp y) :
    keepFresher key stamp d x = d.insert (key x) x := by
  unfold keepFresher
  apply if_neg
  cases hy : d.get? (key x) with
  | none => simp
  | some y => simpa using h y hy

/-- What a value can do to the store: nothing, if its key has a fresher one, or
replace the value of its key. -/
theorem keepFresher_cases (key : α → κ) (stamp : α → τ) (d : Dict κ α) (x : α) :
    (∃ y, d.get? (key x) = some y ∧ stamp x < stamp y ∧ keepFresher key stamp d x = d) ∨
      (∀ y, d.get? (key x) = some y → stamp y ≤ stamp x) ∧
        keepFresher key stamp d x = d.insert (key x) x := by
  cases hy : d.get? (key x) with
  | none =>
    have hnone : ∀ y, d.get? (key x) ≠ some y := fun y => by simp [hy]
    exact .inr ⟨by simp, keepFresher_of_not_lt fun y hy' => absurd hy' (hnone y)⟩
  | some y =>
    cases lt_or_ge (stamp x) (stamp y) with
    | inl hlt => exact .inl ⟨y, rfl, hlt, keepFresher_of_lt hy hlt⟩
    | inr hge =>
      refine .inr ⟨fun z hz => Option.some.inj hz ▸ hge, keepFresher_of_not_lt fun z hz => ?_⟩
      obtain rfl := Option.some.inj (hy.symm.trans hz)
      exact not_lt.mpr hge

/-- The stamp stored under a key never decreases. -/
theorem stamp_le_keepFresher (key : α → κ) (stamp : α → τ) (x : α) {k : κ} {y : α}
    (hy : d.get? k = some y) :
    ∃ z, (keepFresher key stamp d x).get? k = some z ∧ stamp y ≤ stamp z := by
  rcases keepFresher_cases key stamp d x with ⟨-, -, -, heq⟩ | ⟨hle, heq⟩
  · exact ⟨y, by rw [heq, hy], le_refl _⟩
  · rw [heq, Dict.get?_insert]
    split
    · next hk => exact ⟨x, rfl, hle y (hk ▸ hy)⟩
    · exact ⟨y, hy, le_refl _⟩

end Step

/-! ## Many values -/

/-- The store holds, for each key of a value that has arrived, one with the largest stamp. -/
structure Freshest (key : α → κ) (stamp : α → τ) (l : List α) (d : Dict κ α) : Prop where
  arrived : ∀ k x, d.get? k = some x → x ∈ l ∧ key x = k
  largest : ∀ y ∈ l, ∃ x, d.get? (key y) = some x ∧ stamp y ≤ stamp x

section Arrivals

variable {key : α → κ} {stamp : α → τ} {d : Dict κ α} {l : List α}

theorem freshest_nil : Freshest key stamp [] Dict.empty := ⟨by simp, by simp⟩

theorem Freshest.concat (h : Freshest key stamp l d) (x : α) :
    Freshest key stamp (l ++ [x]) (keepFresher key stamp d x) := by
  constructor
  · intro k y hy
    rcases keepFresher_cases key stamp d x with ⟨-, -, -, heq⟩ | ⟨-, heq⟩
    · rw [heq] at hy
      exact (h.arrived k y hy).imp (List.mem_append_left _) id
    · rw [heq, Dict.get?_insert] at hy
      split at hy
      · next hk =>
        obtain rfl := Option.some.inj hy
        exact ⟨by simp, hk.symm⟩
      · exact (h.arrived k y hy).imp (List.mem_append_left _) id
  · intro y hy
    rcases List.mem_append.mp hy with hy | hy
    · obtain ⟨z, hz, hle⟩ := h.largest y hy
      obtain ⟨z', hz', hle'⟩ := stamp_le_keepFresher key stamp x hz
      exact ⟨z', hz', hle.trans hle'⟩
    · obtain rfl := List.mem_singleton.mp hy
      rcases keepFresher_cases key stamp d y with ⟨z, hz, hlt, heq⟩ | ⟨-, heq⟩
      · exact ⟨z, heq.symm ▸ hz, hlt.le⟩
      · exact ⟨y, by rw [heq, Dict.get?_insert_self], le_refl _⟩

theorem freshest_foldl (key : α → κ) (stamp : α → τ) (l : List α) :
    Freshest key stamp l (l.foldl (keepFresher key stamp) Dict.empty) :=
  foldl_scan freshest_nil fun _ x _ _ _ h => h.concat x

theorem stamp_le_foldl {k : κ} {y : α} (hy : d.get? k = some y) :
    ∃ z, (l.foldl (keepFresher key stamp) d).get? k = some z ∧ stamp y ≤ stamp z := by
  refine foldl_scan (P := fun _ (d' : Dict κ α) => ∃ z, d'.get? k = some z ∧ stamp y ≤ stamp z)
    ⟨y, hy, le_refl _⟩ ?_
  rintro _ x _ d' _ ⟨z, hz, hle⟩
  obtain ⟨z', hz', hle'⟩ := stamp_le_keepFresher key stamp x hz
  exact ⟨z', hz', hle.trans hle'⟩

theorem Freshest.mem_iff (h : Freshest key stamp l d) (k : κ) : k ∈ d ↔ ∃ x ∈ l, key x = k := by
  constructor
  · intro hk
    obtain ⟨x, hx⟩ := Dict.exists_get?_of_mem hk
    exact ⟨x, h.arrived k x hx⟩
  · rintro ⟨x, hx, rfl⟩
    obtain ⟨y, hy, -⟩ := h.largest x hx
    exact Dict.mem_of_get?_eq_some hy

/-- Where a key has no two values of one stamp, the store holds the value of the
largest stamp. -/
theorem Freshest.get?_eq_some_iff (h : Freshest key stamp l d)
    (hdistinct : ∀ x ∈ l, ∀ y ∈ l, key x = key y → stamp x = stamp y → x = y) (k : κ) (x : α) :
    d.get? k = some x ↔ x ∈ l ∧ key x = k ∧ ∀ y ∈ l, key y = k → stamp y ≤ stamp x := by
  constructor
  · intro hx
    obtain ⟨hmem, hkey⟩ := h.arrived k x hx
    refine ⟨hmem, hkey, ?_⟩
    rintro y hy rfl
    obtain ⟨z, hz, hle⟩ := h.largest y hy
    obtain rfl := Option.some.inj (hx.symm.trans hz)
    exact hle
  · rintro ⟨hmem, rfl, hlargest⟩
    obtain ⟨z, hz, hle⟩ := h.largest x hmem
    obtain ⟨hzmem, hzkey⟩ := h.arrived _ z hz
    obtain rfl := hdistinct x hmem z hzmem hzkey.symm (le_antisymm hle (hlargest z hzmem hzkey))
    exact hz

end Arrivals
end Base
