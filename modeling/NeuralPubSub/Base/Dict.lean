-- SUMMARY: Insertion-ordered dictionaries: an association list that carries the uniqueness of its keys, with its lookup and update laws.
import Mathlib

/-!
# Insertion-ordered dictionaries

A `Dict κ ν` is a finite map that remembers the order in which its keys were
first inserted. Assigning to a key that is present replaces the value in place;
a new key goes to the end; erasing a key keeps the order of the others.
-/

namespace Base

/-- A finite map as an association list whose keys are distinct. -/
structure Dict (κ : Type) (ν : Type) where
  entries : List (κ × ν)
  nodupKeys : (entries.map Prod.fst).Nodup

namespace Dict

variable {κ ν : Type}

@[ext] theorem ext {d d' : Dict κ ν} (h : d.entries = d'.entries) : d = d' := by
  cases d; cases d'; simp_all

instance [DecidableEq κ] [DecidableEq ν] : DecidableEq (Dict κ ν) := fun d d' =>
  decidable_of_iff (d.entries = d'.entries) ⟨ext, fun h => h ▸ rfl⟩

instance [Repr κ] [Repr ν] : Repr (Dict κ ν) := ⟨fun d => reprPrec d.entries⟩

/-! ## Operations -/

def empty : Dict κ ν := ⟨[], List.nodup_nil⟩

instance : Inhabited (Dict κ ν) := ⟨empty⟩

/-- The keys, in insertion order. -/
def keys (d : Dict κ ν) : List κ := d.entries.map Prod.fst

/-- The values, in the order of their keys. -/
def values (d : Dict κ ν) : List ν := d.entries.map Prod.snd

instance : Membership κ (Dict κ ν) := ⟨fun d k => k ∈ d.keys⟩

instance [DecidableEq κ] (d : Dict κ ν) (k : κ) : Decidable (k ∈ d) :=
  inferInstanceAs (Decidable (k ∈ d.keys))

section Lookup
variable [DecidableEq κ]

def lookupEntry (k : κ) : List (κ × ν) → Option ν
  | [] => none
  | (k', v) :: es => if k' = k then some v else lookupEntry k es

def get? (d : Dict κ ν) (k : κ) : Option ν := lookupEntry k d.entries

def getD (d : Dict κ ν) (k : κ) (v : ν) : ν := (d.get? k).getD v

end Lookup

section Update
variable [DecidableEq κ]

/-- Replace the value of `k` where it stands, or put the pair at the end. -/
def insertEntry (k : κ) (v : ν) : List (κ × ν) → List (κ × ν)
  | [] => [(k, v)]
  | (k', v') :: es => if k' = k then (k, v) :: es else (k', v') :: insertEntry k v es

theorem insertEntry_keys_of_mem {k : κ} {v : ν} {es : List (κ × ν)}
    (h : k ∈ es.map Prod.fst) : (insertEntry k v es).map Prod.fst = es.map Prod.fst := by
  induction es with
  | nil => simp at h
  | cons e es ih =>
    obtain ⟨k', v'⟩ := e
    by_cases hk : k' = k
    · simp [insertEntry, hk]
    · have : k ∈ es.map Prod.fst := by simpa [Ne.symm hk] using h
      simp [insertEntry, hk, ih this]

theorem insertEntry_of_not_mem {k : κ} {v : ν} {es : List (κ × ν)}
    (h : k ∉ es.map Prod.fst) : insertEntry k v es = es ++ [(k, v)] := by
  induction es with
  | nil => rfl
  | cons e es ih =>
    obtain ⟨k', v'⟩ := e
    have hk : k' ≠ k := fun hk => h (by simp [hk])
    have hes : k ∉ es.map Prod.fst := fun hes => h (List.mem_cons_of_mem _ hes)
    simp [insertEntry, hk, ih hes]

theorem insertEntry_nodup {k : κ} {v : ν} {es : List (κ × ν)}
    (h : (es.map Prod.fst).Nodup) : ((insertEntry k v es).map Prod.fst).Nodup := by
  by_cases hk : k ∈ es.map Prod.fst
  · rwa [insertEntry_keys_of_mem hk]
  · rw [insertEntry_of_not_mem hk, List.map_append]
    exact h.append (List.nodup_singleton k) (by simpa using hk)

theorem lookup_insertEntry {k k' : κ} {v : ν} {es : List (κ × ν)} :
    lookupEntry k' (insertEntry k v es) = if k' = k then some v else lookupEntry k' es := by
  induction es with
  | nil => simp [insertEntry, lookupEntry, eq_comm]
  | cons e es ih =>
    obtain ⟨a, b⟩ := e
    by_cases ha : a = k
    · subst ha
      by_cases h : k' = a
      · simp [insertEntry, lookupEntry, h]
      · simp [insertEntry, lookupEntry, h, Ne.symm h]
    · by_cases h : a = k'
      · subst h; simp [insertEntry, lookupEntry, ha]
      · simp [insertEntry, lookupEntry, ha, h, ih]

def insert (d : Dict κ ν) (k : κ) (v : ν) : Dict κ ν :=
  ⟨insertEntry k v d.entries, insertEntry_nodup d.nodupKeys⟩

def erase (d : Dict κ ν) (k : κ) : Dict κ ν :=
  ⟨d.entries.filter (fun e => e.1 ≠ k), (List.filter_sublist.map Prod.fst).nodup d.nodupKeys⟩

/-- Apply `f` to the value of `k`, if there is one. -/
def modify (d : Dict κ ν) (k : κ) (f : ν → ν) : Dict κ ν :=
  match d.get? k with
  | some v => d.insert k (f v)
  | none => d

/-- Assign the pairs of a list one after the other. -/
def ofList (es : List (κ × ν)) : Dict κ ν :=
  es.foldl (fun d e => d.insert e.1 e.2) empty

end Update

/-! ## Membership -/

theorem mem_iff_mem_keys {d : Dict κ ν} {k : κ} : k ∈ d ↔ k ∈ d.keys := Iff.rfl

theorem keys_nodup (d : Dict κ ν) : d.keys.Nodup := d.nodupKeys

@[simp] theorem not_mem_empty {k : κ} : k ∉ (empty : Dict κ ν) := List.not_mem_nil

@[simp] theorem keys_empty : (empty : Dict κ ν).keys = [] := rfl

@[simp] theorem entries_empty : (empty : Dict κ ν).entries = [] := rfl

theorem mem_of_mem_entries {d : Dict κ ν} {k : κ} {v : ν} (h : (k, v) ∈ d.entries) : k ∈ d :=
  List.mem_map_of_mem (f := Prod.fst) h

variable [DecidableEq κ]

/-! ## Lookup -/

@[simp] theorem get?_empty (k : κ) : (empty : Dict κ ν).get? k = none := rfl

private theorem lookup_eq_some_iff {es : List (κ × ν)} (h : (es.map Prod.fst).Nodup) {k : κ} {v : ν} :
    lookupEntry k es = some v ↔ (k, v) ∈ es := by
  induction es with
  | nil => simp [lookupEntry]
  | cons e es ih =>
    obtain ⟨a, b⟩ := e
    simp only [List.map_cons, List.nodup_cons] at h
    by_cases hk : a = k
    · subst hk
      have hne : (a, v) ∉ es := fun hm => h.1 (List.mem_map_of_mem (f := Prod.fst) hm)
      simp [lookupEntry, hne, eq_comm]
    · simp [lookupEntry, hk, ih h.2, Ne.symm hk]

theorem get?_eq_some_iff {d : Dict κ ν} {k : κ} {v : ν} :
    d.get? k = some v ↔ (k, v) ∈ d.entries :=
  lookup_eq_some_iff d.nodupKeys

theorem get?_isSome_iff {d : Dict κ ν} {k : κ} : (d.get? k).isSome ↔ k ∈ d := by
  rw [Option.isSome_iff_exists]
  constructor
  · rintro ⟨v, h⟩
    exact mem_of_mem_entries (get?_eq_some_iff.mp h)
  · intro h
    obtain ⟨⟨a, v⟩, he, rfl⟩ := List.mem_map.mp h
    exact ⟨v, get?_eq_some_iff.mpr he⟩

theorem get?_eq_none_iff {d : Dict κ ν} {k : κ} : d.get? k = none ↔ k ∉ d := by
  rw [← get?_isSome_iff, Option.not_isSome_iff_eq_none]

theorem mem_of_get?_eq_some {d : Dict κ ν} {k : κ} {v : ν} (h : d.get? k = some v) : k ∈ d :=
  get?_isSome_iff.mp (by simp [h])

theorem exists_get?_of_mem {d : Dict κ ν} {k : κ} (h : k ∈ d) : ∃ v, d.get? k = some v :=
  Option.isSome_iff_exists.mp (get?_isSome_iff.mpr h)

/-! ## Assignment -/

theorem get?_insert (d : Dict κ ν) (k k' : κ) (v : ν) :
    (d.insert k v).get? k' = if k' = k then some v else d.get? k' :=
  lookup_insertEntry

@[simp] theorem get?_insert_self (d : Dict κ ν) (k : κ) (v : ν) :
    (d.insert k v).get? k = some v := by simp [get?_insert]

theorem get?_insert_of_ne (d : Dict κ ν) {k k' : κ} (v : ν) (h : k' ≠ k) :
    (d.insert k v).get? k' = d.get? k' := by simp [get?_insert, h]

theorem keys_insert_of_mem {d : Dict κ ν} {k : κ} (v : ν) (h : k ∈ d) :
    (d.insert k v).keys = d.keys :=
  insertEntry_keys_of_mem h

theorem entries_insert_of_not_mem {d : Dict κ ν} {k : κ} (v : ν) (h : k ∉ d) :
    (d.insert k v).entries = d.entries ++ [(k, v)] :=
  insertEntry_of_not_mem h

theorem keys_insert_of_not_mem {d : Dict κ ν} {k : κ} (v : ν) (h : k ∉ d) :
    (d.insert k v).keys = d.keys ++ [k] := by
  simp [keys, entries_insert_of_not_mem v h]

@[simp] theorem mem_insert {d : Dict κ ν} {k k' : κ} {v : ν} :
    k' ∈ d.insert k v ↔ k' = k ∨ k' ∈ d := by
  rw [← get?_isSome_iff, ← get?_isSome_iff, get?_insert]
  split <;> simp_all

theorem getD_insert (d : Dict κ ν) (k k' : κ) (v w : ν) :
    (d.insert k v).getD k' w = if k' = k then v else d.getD k' w := by
  simp only [getD, get?_insert]
  split <;> rfl

/-- Replacing one value changes the values at one place. -/
theorem forall₂_values_insert {R : ν → ν → Prop} (hrefl : ∀ v, R v v) {d : Dict κ ν} {k : κ}
    {v v' : ν} (hget : d.get? k = some v) (hR : R v v') :
    List.Forall₂ R d.values (d.insert k v').values := by
  have go : ∀ es : List (κ × ν), lookupEntry k es = some v →
      List.Forall₂ R (es.map Prod.snd) ((insertEntry k v' es).map Prod.snd) := by
    intro es
    induction es with
    | nil => intro h; cases h
    | cons e es ih =>
      intro h
      simp only [lookupEntry, insertEntry] at h ⊢
      split at h
      · next hk =>
        cases h
        rw [if_pos hk]
        exact .cons hR (List.forall₂_same.mpr fun _ _ => hrefl _)
      · next hk =>
        rw [if_neg hk]
        exact .cons (hrefl _) (ih h)
  exact go d.entries hget

/-! ## Dictionaries built from lists -/

private theorem entries_foldl_insert (es : List (κ × ν)) (d : Dict κ ν)
    (h : (d.keys ++ es.map Prod.fst).Nodup) :
    (es.foldl (fun d e => d.insert e.1 e.2) d).entries = d.entries ++ es := by
  induction es generalizing d with
  | nil => simp
  | cons e es ih =>
    have he : e.1 ∉ d := fun hm =>
      (List.nodup_append.mp h).2.2 e.1 hm e.1 (by simp) rfl
    rw [List.foldl_cons, ih _ (by simpa [keys_insert_of_not_mem _ he] using h),
      entries_insert_of_not_mem _ he]
    simp

theorem entries_ofList (es : List (κ × ν)) (h : (es.map Prod.fst).Nodup) :
    (ofList es).entries = es := by
  simpa [ofList] using entries_foldl_insert es empty (by simpa using h)

@[simp] theorem ofList_entries (d : Dict κ ν) : ofList d.entries = d :=
  ext (entries_ofList d.entries d.nodupKeys)

/-- What a list assigns: later pairs replace earlier ones of the same key. -/
theorem get?_ofList_concat (es : List (κ × ν)) (e : κ × ν) (k : κ) :
    (ofList (es ++ [e])).get? k = if k = e.1 then some e.2 else (ofList es).get? k := by
  rw [ofList, List.foldl_append, List.foldl_cons, List.foldl_nil, get?_insert]
  rfl

theorem get?_ofList_append (es es' : List (κ × ν)) (k : κ) :
    (ofList (es ++ es')).get? k = ((ofList es').get? k).or ((ofList es).get? k) := by
  induction es' using List.reverseRecOn with
  | nil => simp [ofList]
  | append_singleton es' e ih =>
    rw [← List.append_assoc, get?_ofList_concat, get?_ofList_concat, ih]
    split <;> rfl

theorem mem_of_get?_ofList {es : List (κ × ν)} {k : κ} {v : ν} (h : (ofList es).get? k = some v) :
    (k, v) ∈ es := by
  induction es using List.reverseRecOn with
  | nil => cases h
  | append_singleton es e ih =>
    rw [get?_ofList_concat] at h
    split at h
    · next heq =>
      cases h
      simp [heq]
    · exact List.mem_append_left _ (ih h)

theorem mem_ofList {es : List (κ × ν)} {k : κ} : k ∈ ofList es ↔ k ∈ es.map Prod.fst := by
  induction es using List.reverseRecOn with
  | nil => simp [ofList]
  | append_singleton es e ih =>
    rw [← get?_isSome_iff, get?_ofList_concat] at *
    split
    · next heq => simp [heq]
    · next hne => simp [ih, hne]

theorem keys_ofList (es : List (κ × ν)) (h : (es.map Prod.fst).Nodup) :
    (ofList es).keys = es.map Prod.fst := by
  rw [keys, entries_ofList es h]

theorem keys_ofList_const {ks : List κ} (h : ks.Nodup) (v : ν) :
    (ofList (ks.map fun k => (k, v))).keys = ks := by
  have hfst : (ks.map fun k => (k, v)).map Prod.fst = ks := by simp [Function.comp_def]
  rw [keys_ofList _ (by rwa [hfst]), hfst]

theorem get?_ofList_const (ks : List κ) (v : ν) (k : κ) :
    (ofList (ks.map fun k => (k, v))).get? k = if k ∈ ks then some v else none := by
  induction ks using List.reverseRecOn with
  | nil => rfl
  | append_singleton ks a ih =>
    rw [List.map_append, List.map_cons, List.map_nil, get?_ofList_concat, ih]
    grind

/-- A dictionary that gives every listed key the default gives the default
everywhere. -/
theorem getD_ofList_const (ks : List κ) (v : ν) (k : κ) :
    (ofList (ks.map fun k => (k, v))).getD k v = v := by
  have hfold : ∀ (ks : List κ) (d : Dict κ ν), d.getD k v = v →
      ((ks.map fun k => (k, v)).foldl (fun d e => d.insert e.1 e.2) d).getD k v = v := by
    intro ks
    induction ks with
    | nil => exact fun _ h => h
    | cons a ks ih => exact fun d h => ih _ (by rw [getD_insert]; split <;> simp [h])
  exact hfold ks empty rfl

/-! ## Removal and in-place modification -/

theorem keys_erase (d : Dict κ ν) (k : κ) : (d.erase k).keys = d.keys.filter (· ≠ k) := by
  simp [keys, erase, List.filter_map, Function.comp_def]

@[simp] theorem mem_erase {d : Dict κ ν} {k k' : κ} : k' ∈ d.erase k ↔ k' ≠ k ∧ k' ∈ d := by
  simp [mem_iff_mem_keys, keys_erase, and_comm]

theorem get?_erase (d : Dict κ ν) (k k' : κ) :
    (d.erase k).get? k' = if k' = k then none else d.get? k' := by
  split
  · next h => exact get?_eq_none_iff.mpr (by simp [h])
  · next h =>
    apply Option.ext
    intro v
    simp [get?_eq_some_iff, erase, h]

theorem get?_modify (d : Dict κ ν) (k k' : κ) (f : ν → ν) :
    (d.modify k f).get? k' = if k' = k then (d.get? k).map f else d.get? k' := by
  unfold modify
  split
  · next v h => simp [get?_insert, h]
  · next h => split <;> simp_all

theorem modify_eq_insert {d : Dict κ ν} {k : κ} {f : ν → ν} {v : ν} (h : d.get? k = some v) :
    d.modify k f = d.insert k (f v) := by
  unfold modify
  rw [h]

theorem insertEntry_self {k : κ} {v : ν} {es : List (κ × ν)} (h : lookupEntry k es = some v) :
    insertEntry k v es = es := by
  induction es with
  | nil => cases h
  | cons e es ih =>
    obtain ⟨k', v'⟩ := e
    by_cases hk : k' = k
    · simp only [lookupEntry, hk, if_true, Option.some.injEq] at h
      simp [insertEntry, hk, h]
    · simp only [lookupEntry, hk, if_false] at h
      simp [insertEntry, hk, ih h]

/-- A modification that leaves the value of the key alone leaves everything alone. -/
theorem modify_eq_self {d : Dict κ ν} {k : κ} {f : ν → ν} (h : ∀ v, d.get? k = some v → f v = v) :
    d.modify k f = d := by
  unfold modify
  split
  · next v hv =>
    rw [h v hv]
    exact ext (insertEntry_self hv)
  · rfl

@[simp] theorem keys_modify (d : Dict κ ν) (k : κ) (f : ν → ν) : (d.modify k f).keys = d.keys := by
  unfold modify
  split
  · next v h => exact keys_insert_of_mem _ (mem_of_get?_eq_some h)
  · rfl

@[simp] theorem mem_modify {d : Dict κ ν} {k k' : κ} {f : ν → ν} :
    k' ∈ d.modify k f ↔ k' ∈ d := by
  simp [mem_iff_mem_keys]

end Dict
end Base
