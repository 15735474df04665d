-- SUMMARY: Dictionaries that a loop fills item by item or changes value by value, and sums that telescope along a list.
import Mathlib.Algebra.BigOperators.Group.List.Basic
import NeuralPubSub.Base.Dict

/-!
# Collected dictionaries

A loop that gives each item of a list a key and perhaps a value. With distinct
keys the dictionary lists the values in the order of the items. The sums over
such dictionaries telescope where one item ends and the next one starts.
-/

namespace Base

variable {α κ ν : Type}

namespace Dict

section Collect

variable [DecidableEq κ]

/-- Items with a value are entered under their key, one after the other. -/
def collect (key : α → κ) (f : α → Option ν) (l : List α) : Dict κ ν :=
  l.foldl (fun d x => match f x with
    | some v => d.insert (key x) v
    | none => d) empty

variable {key : α → κ} {f : α → Option ν}

private theorem entries_foldl_collect (l : List α) (d : Dict κ ν) (hl : (l.map key).Nodup)
    (hd : ∀ x ∈ l, key x ∉ d) :
    (l.foldl (fun d x => match f x with
      | some v => d.insert (key x) v
      | none => d) d).entries = d.entries ++ l.filterMap fun x => (f x).map (key x, ·) := by
  induction l generalizing d with
  | nil => simp
  | cons x l ih =>
    obtain ⟨hx, hl⟩ := List.nodup_cons.mp hl
    rw [List.foldl_cons]
    cases hfx : f x with
    | none =>
      rw [ih d hl fun y hy => hd y (by simp [hy])]
      simp [hfx]
    | some v =>
      have hnew : ∀ y ∈ l, key y ∉ d.insert (key x) v := by
        intro y hy hmem
        rcases mem_insert.mp hmem with heq | hmem
        · exact hx (heq ▸ List.mem_map_of_mem hy)
        · exact hd y (by simp [hy]) hmem
      rw [ih _ hl hnew, entries_insert_of_not_mem v (hd x (by simp))]
      simp [hfx]

theorem entries_collect {l : List α} (hl : (l.map key).Nodup) :
    (collect key f l).entries = l.filterMap fun x => (f x).map (key x, ·) := by
  rw [collect, entries_foldl_collect l empty hl fun _ _ => not_mem_empty]
  rfl

theorem values_collect {l : List α} (hl : (l.map key).Nodup) :
    (collect key f l).values = l.filterMap f := by
  rw [values, entries_collect hl, List.map_filterMap]
  congr 1
  funext x
  cases f x <;> rfl

theorem mem_collect {l : List α} (hl : (l.map key).Nodup) {k : κ} :
    k ∈ collect key f l ↔ ∃ x ∈ l, key x = k ∧ (f x).isSome := by
  rw [mem_iff_mem_keys, keys, entries_collect hl, List.map_filterMap, List.mem_filterMap]
  refine exists_congr fun x => and_congr_right fun _ => ?_
  cases f x <;> simp

end Collect

/-! ## Changing every value -/

/-- The dictionary with `f` applied to each value. -/
def mapValues {ω : Type} (f : ν → ω) (d : Dict κ ν) : Dict κ ω where
  entries := d.entries.map fun e => (e.1, f e.2)
  nodupKeys := by simpa [Function.comp_def] using d.nodupKeys

section MapValues

variable {ω : Type} (f : ν → ω) (d : Dict κ ν)

@[simp] theorem keys_mapValues : (d.mapValues f).keys = d.keys := by
  simp [keys, mapValues, Function.comp_def]

@[simp] theorem values_mapValues : (d.mapValues f).values = d.values.map f := by
  simp [values, mapValues, Function.comp_def]

@[simp] theorem mem_mapValues {k : κ} : k ∈ d.mapValues f ↔ k ∈ d := by
  rw [mem_iff_mem_keys, keys_mapValues, mem_iff_mem_keys]

variable [DecidableEq κ]

@[simp] theorem get?_mapValues (k : κ) : (d.mapValues f).get? k = (d.get? k).map f := by
  show lookupEntry k (d.entries.map fun e => (e.1, f e.2)) = (lookupEntry k d.entries).map f
  induction d.entries with
  | nil => rfl
  | cons e es ih =>
    obtain ⟨k', v⟩ := e
    rw [List.map_cons, lookupEntry, lookupEntry]
    split
    · rfl
    · exact ih

/-- Changing the values commutes with entering one. -/
theorem mapValues_insert (k : κ) (v : ν) :
    (d.insert k v).mapValues f = (d.mapValues f).insert k (f v) := by
  ext1
  show (insertEntry k v d.entries).map (fun e => (e.1, f e.2)) =
    insertEntry k (f v) (d.entries.map fun e => (e.1, f e.2))
  induction d.entries with
  | nil => rfl
  | cons e es ih =>
    obtain ⟨k', v'⟩ := e
    rw [List.map_cons, insertEntry, insertEntry]
    split
    · rfl
    · rw [List.map_cons, ih]

end MapValues
end Dict

/-! ## Telescoping sums -/

/-- What lies within the items and what lies between neighbours adds up to what lies
between the first start and the last stop. -/
theorem sum_within_add_sum_between {G : Type} [AddCommGroup G] (start stop : α → G) (first : α)
    (rest : List α) :
    ((first :: rest).map fun x => stop x - start x).sum +
      (((first :: rest).zip rest).map fun p => start p.2 - stop p.1).sum =
    stop ((first :: rest).getLast (List.cons_ne_nil _ _)) - start first := by
  induction rest generalizing first with
  | nil => simp
  | cons second rest ih =>
    have hrest := ih second
    rw [List.getLast_cons (List.cons_ne_nil _ _)]
    calc ((first :: second :: rest).map fun x => stop x - start x).sum +
          (((first :: second :: rest).zip (second :: rest)).map fun p => start p.2 - stop p.1).sum
        = (stop first - start first + ((second :: rest).map fun x => stop x - start x).sum) +
          (start second - stop first +
            (((second :: rest).zip rest).map fun p => start p.2 - stop p.1).sum) := rfl
      _ = (((second :: rest).map fun x => stop x - start x).sum +
            (((second :: rest).zip rest).map fun p => start p.2 - stop p.1).sum) +
          (start second - start first) := by abel
      _ = stop ((second :: rest).getLast (List.cons_ne_nil _ _)) - start first := by
          rw [hrest]
          abel

end Base
