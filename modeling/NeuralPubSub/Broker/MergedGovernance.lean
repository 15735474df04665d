-- SUMMARY: The merged governance policy of several shards, and when it is as strict as each of them.
import NeuralPubSub.Broker.Placement.Topology

open Base

/-!
# Merged governance

`merge_governance` of `src/broker/sharded_oracle_broker.py`. It keeps the least
level of each key of the trust table, while `get_trust` prefers one orientation
of a pair of domains to the other.
-/

namespace NeuralPubSub

/-- The loop over the trust levels of one policy. -/
def mergeTrust (minTrust : Dict (DomainId × DomainId) ℚ) (e : (DomainId × DomainId) × ℚ) :
    Dict (DomainId × DomainId) ℚ :=
  match minTrust.get? e.1 with
  | none => minTrust.insert e.1 e.2
  | some existing => if e.2 < existing then minTrust.insert e.1 e.2 else minTrust

/-- `merge_governance`. -/
def mergeGovernance (policies : List GovernancePolicy) : GovernancePolicy :=
  policies.foldl (fun merged pol =>
    { localStageTypes := merged.localStageTypes ∪ pol.localStageTypes
      trustLevels := pol.trustLevels.entries.foldl mergeTrust merged.trustLevels }) {}

/-- Some policy stores the level under this orientation of the pair. -/
def Stored (policies : List GovernancePolicy) (a b : DomainId) (level : ℚ) : Prop :=
  ∃ p ∈ policies, p.trustLevels.get? (a, b) = some level

/-- Some policy stores the level for the pair. -/
def StoredEither (policies : List GovernancePolicy) (a b : DomainId) (level : ℚ) : Prop :=
  Stored policies a b level ∨ Stored policies b a level

/-! ## The least level of a key -/

section Merge

variable {policies policies' : List GovernancePolicy} {a b : DomainId} {level m : ℚ}

/-- The table holds the least level of each key that has one. -/
structure KeepsLeast (es : List ((DomainId × DomainId) × ℚ)) (d : Dict (DomainId × DomainId) ℚ) :
    Prop where
  least : ∀ k m, d.get? k = some m → IsLeast {l | (k, l) ∈ es} m
  held : ∀ e ∈ es, e.1 ∈ d

theorem KeepsLeast.concat {es : List ((DomainId × DomainId) × ℚ)}
    {d : Dict (DomainId × DomainId) ℚ} (h : KeepsLeast es d) (e : (DomainId × DomainId) × ℚ) :
    KeepsLeast (es ++ [e]) (mergeTrust d e) := by
  obtain ⟨key, l⟩ := e
  -- another key has the levels it had
  have hother : ∀ k m, k ≠ key → d.get? k = some m → IsLeast {l' | (k, l') ∈ es ++ [(key, l)]} m := by
    intro k m hne hget
    have hsame : {l' | (k, l') ∈ es ++ [(key, l)]} = {l' | (k, l') ∈ es} := by
      ext l'
      simp [hne]
    exact hsame ▸ h.least k m hget
  have hinsert : (∀ m, d.get? key = some m → l ≤ m) → KeepsLeast (es ++ [(key, l)]) (d.insert key l) := by
    intro hle
    constructor
    · intro k m hget
      rw [Dict.get?_insert] at hget
      split at hget
      · next hk =>
        cases hget
        refine ⟨by simp [hk], ?_⟩
        intro l' hl'
        cases List.mem_append.mp hl' with
        | inl hold =>
          rw [hk] at hold
          obtain ⟨m, hm⟩ := Dict.exists_get?_of_mem (h.held _ hold)
          exact (hle m hm).trans ((h.least key m hm).2 hold)
        | inr hnew =>
          cases List.mem_singleton.mp hnew
          exact le_refl _
      · next hk => exact hother k m hk hget
    · intro e he
      rw [Dict.mem_insert]
      cases List.mem_append.mp he with
      | inl hold => exact .inr (h.held e hold)
      | inr hnew =>
        cases List.mem_singleton.mp hnew
        exact .inl rfl
  unfold mergeTrust
  cases hget : d.get? key with
  | none =>
    apply hinsert
    intro m hm
    cases hget.symm.trans hm
  | some existing =>
    by_cases hlt : l < existing
    · simp only [hlt, if_true]
      apply hinsert
      intro m hm
      cases hget.symm.trans hm
      exact hlt.le
    · simp only [hlt, if_false]
      constructor
      · intro k m hk
        by_cases hkey : k = key
        · subst hkey
          cases hget.symm.trans hk
          refine ⟨List.mem_append_left _ (h.least k existing hget).1, ?_⟩
          intro l' hl'
          cases List.mem_append.mp hl' with
          | inl hold => exact (h.least k existing hget).2 hold
          | inr hnew =>
            cases List.mem_singleton.mp hnew
            exact not_lt.mp hlt
        · exact hother k m hkey hk
      · intro e he
        cases List.mem_append.mp he with
        | inl hold => exact h.held e hold
        | inr hnew =>
          cases List.mem_singleton.mp hnew
          exact Dict.mem_of_get?_eq_some hget

theorem trustLevels_mergeGovernance (policies : List GovernancePolicy) :
    (mergeGovernance policies).trustLevels =
      (policies.flatMap (·.trustLevels.entries)).foldl mergeTrust .empty := by
  induction policies using List.reverseRecOn with
  | nil => rfl
  | append_singleton policies pol ih =>
    rw [mergeGovernance, List.foldl_concat, List.flatMap_append, List.foldl_append, ← ih]
    simp [mergeGovernance]

theorem stored_iff : Stored policies a b level ↔
    ((a, b), level) ∈ policies.flatMap (·.trustLevels.entries) := by
  simp only [Stored, List.mem_flatMap, Dict.get?_eq_some_iff]

theorem keepsLeast_mergeGovernance (policies : List GovernancePolicy) :
    KeepsLeast (policies.flatMap (·.trustLevels.entries)) (mergeGovernance policies).trustLevels := by
  rw [trustLevels_mergeGovernance]
  apply foldl_scan
  · exact ⟨fun k m hget => absurd hget (by simp), by simp⟩
  · intro _ e _ _ _ h
    exact h.concat e

/-- An orientation that is stored has a least level. -/
theorem exists_isLeast (h : Stored policies a b level) : ∃ m, IsLeast {l | Stored policies a b l} m := by
  obtain ⟨m, hm⟩ := Dict.exists_get?_of_mem
    ((keepsLeast_mergeGovernance policies).held _ (stored_iff.mp h))
  simp only [stored_iff]
  exact ⟨m, (keepsLeast_mergeGovernance policies).least (a, b) m hm⟩

/-- The merged policy stores the least level of each orientation. -/
theorem get?_mergeGovernance : (mergeGovernance policies).trustLevels.get? (a, b) = some m ↔
    IsLeast {l | Stored policies a b l} m := by
  simp only [stored_iff]
  have hkept := keepsLeast_mergeGovernance policies
  constructor
  · exact hkept.least (a, b) m
  · intro hleast
    obtain ⟨m', hm'⟩ := Dict.exists_get?_of_mem (hkept.held _ hleast.1)
    rw [hm', (hkept.least (a, b) m' hm').unique hleast]

/-! ## The merged level of a pair -/

theorem getTrust_of_stored (hne : a ≠ b) (h : IsLeast {l | Stored policies a b l} m) :
    (mergeGovernance policies).getTrust a b = m := by
  rw [GovernancePolicy.getTrust, if_neg hne, get?_mergeGovernance.mpr h]

theorem get?_eq_none_of_not_stored (h : ∀ l, ¬ Stored policies a b l) :
    (mergeGovernance policies).trustLevels.get? (a, b) = none := by
  cases hget : (mergeGovernance policies).trustLevels.get? (a, b) with
  | none => rfl
  | some m => exact absurd (get?_mergeGovernance.mp hget).1 (h m)

theorem getTrust_of_reversed (hne : a ≠ b) (hnone : ∀ l, ¬ Stored policies a b l)
    (h : IsLeast {l | Stored policies b a l} m) : (mergeGovernance policies).getTrust a b = m := by
  rw [GovernancePolicy.getTrust, if_neg hne, get?_eq_none_of_not_stored hnone, Dict.getD,
    get?_mergeGovernance.mpr h]
  rfl

theorem getTrust_of_not_stored (hne : a ≠ b) (hnone : ∀ l, ¬ StoredEither policies a b l) :
    (mergeGovernance policies).getTrust a b = 0 := by
  rw [GovernancePolicy.getTrust, if_neg hne,
    get?_eq_none_of_not_stored fun l h => hnone l (.inl h), Dict.getD,
    get?_eq_none_of_not_stored fun l h => hnone l (.inr h)]
  rfl

/-! ## When the merge is conservative -/

/-- The two policies store the same levels for each pair of domains, each under the
orientation that it uses. -/
def Reoriented (p q : GovernancePolicy) : Prop :=
  ∀ a b, (q.trustLevels.get? (a, b) = p.trustLevels.get? (a, b) ∧
      q.trustLevels.get? (b, a) = p.trustLevels.get? (b, a)) ∨
    q.trustLevels.get? (a, b) = p.trustLevels.get? (b, a) ∧
      q.trustLevels.get? (b, a) = p.trustLevels.get? (a, b)

/-- The merged level is at most every level that is stored for the pair. -/
def Bounded (policies : List GovernancePolicy) (a b : DomainId) : Prop :=
  ∀ l, StoredEither policies a b l → (mergeGovernance policies).getTrust a b ≤ l

/-- The merged level does not depend on the order of the policies. -/
def OrderFree (policies : List GovernancePolicy) (a b : DomainId) : Prop :=
  ∀ policies', policies.Perm policies' →
    (mergeGovernance policies').getTrust a b = (mergeGovernance policies).getTrust a b

/-- The merged level does not depend on the orientation that each policy uses. -/
def OrientationFree (policies : List GovernancePolicy) (a b : DomainId) : Prop :=
  ∀ policies', List.Forall₂ Reoriented policies policies' →
    (mergeGovernance policies').getTrust a b = (mergeGovernance policies).getTrust a b

/-- Where `get_trust` finds the pair under the orientation it prefers, no level of the
other orientation is smaller than all of those; a domain's level with itself is full trust. -/
def Aligned (policies : List GovernancePolicy) (a b : DomainId) : Prop :=
  if a = b then ∀ l, Stored policies a b l → 1 ≤ l
  else (∃ x, Stored policies a b x) → ∀ y, Stored policies b a y → ∃ x, Stored policies a b x ∧ x ≤ y

/-- All levels of the pair are equal, or one policy stores the least of them under both
orientations. -/
def Unanimous (policies : List GovernancePolicy) (a b : DomainId) : Prop :=
  a = b ∨ (∀ l l', StoredEither policies a b l → StoredEither policies a b l' → l = l') ∨
    ∃ p ∈ policies, ∃ m, p.trustLevels.get? (a, b) = some m ∧ p.trustLevels.get? (b, a) = some m ∧
      ∀ l, StoredEither policies a b l → m ≤ l

theorem bounded_iff : Bounded policies a b ↔ Aligned policies a b := by
  unfold Bounded Aligned
  by_cases heq : a = b
  · subst heq
    rw [if_pos rfl]
    simp only [StoredEither, or_self, GovernancePolicy.getTrust, if_true]
  · rw [if_neg heq]
    by_cases hstored : ∃ x, Stored policies a b x
    · obtain ⟨x, hx⟩ := hstored
      obtain ⟨m, hm⟩ := exists_isLeast hx
      rw [getTrust_of_stored heq hm]
      constructor
      · intro hbound _ y hy
        exact ⟨m, hm.1, hbound y (.inr hy)⟩
      · intro haligned l hl
        cases hl with
        | inl hl => exact hm.2 hl
        | inr hl =>
          obtain ⟨z, hz, hle⟩ := haligned ⟨x, hx⟩ l hl
          exact (hm.2 hz).trans hle
    · refine iff_of_true ?_ fun hx => absurd hx hstored
      intro l hl
      cases hl with
      | inl hl => exact absurd ⟨l, hl⟩ hstored
      | inr hl =>
        obtain ⟨m, hm⟩ := exists_isLeast hl
        rw [getTrust_of_reversed heq (fun x hx => hstored ⟨x, hx⟩) hm]
        exact hm.2 hl

/-- Policies that store the same levels have the same merged level. -/
theorem getTrust_congr (hab : ∀ l, Stored policies a b l ↔ Stored policies' a b l)
    (hba : ∀ l, Stored policies b a l ↔ Stored policies' b a l) :
    (mergeGovernance policies').getTrust a b = (mergeGovernance policies).getTrust a b := by
  have hget : ∀ {x y}, (∀ l, Stored policies x y l ↔ Stored policies' x y l) →
      (mergeGovernance policies').trustLevels.get? (x, y) =
        (mergeGovernance policies).trustLevels.get? (x, y) := by
    intro x y hiff
    apply Option.ext
    intro m
    rw [get?_mergeGovernance, get?_mergeGovernance]
    simp only [hiff]
  rw [GovernancePolicy.getTrust, GovernancePolicy.getTrust, hget hab, Dict.getD, Dict.getD, hget hba]

theorem orderFree (policies : List GovernancePolicy) (a b : DomainId) : OrderFree policies a b := by
  intro policies' hperm
  have hstored : ∀ x y l, Stored policies x y l ↔ Stored policies' x y l := by
    intro x y l
    simp only [Stored, hperm.mem_iff]
  exact getTrust_congr (hstored a b) (hstored b a)

/-! ## Other orientations -/

/-- The policy with the orientation of each of its pairs reversed. -/
def GovernancePolicy.flipped (p : GovernancePolicy) : GovernancePolicy :=
  { p with trustLevels := .ofList (p.trustLevels.entries.map fun e => (e.1.swap, e.2)) }

theorem get?_flipped (p : GovernancePolicy) (a b : DomainId) :
    p.flipped.trustLevels.get? (a, b) = p.trustLevels.get? (b, a) := by
  have hkeys : ((p.trustLevels.entries.map fun e => (e.1.swap, e.2)).map Prod.fst).Nodup := by
    have hswap : (p.trustLevels.entries.map fun e => (e.1.swap, e.2)).map Prod.fst =
        p.trustLevels.keys.map Prod.swap := by
      rw [Dict.keys, List.map_map, List.map_map]
      rfl
    rw [hswap]
    exact p.trustLevels.keys_nodup.map Prod.swap_injective
  apply Option.ext
  intro l
  rw [GovernancePolicy.flipped, Dict.get?_eq_some_iff, Dict.get?_eq_some_iff,
    Dict.entries_ofList _ hkeys, List.mem_map]
  constructor
  · rintro ⟨⟨⟨x, y⟩, l⟩, hentry, heq⟩
    simp only [Prod.swap_prod_mk, Prod.mk.injEq] at heq
    obtain ⟨⟨rfl, rfl⟩, rfl⟩ := heq
    exact hentry
  · intro hentry
    exact ⟨_, hentry, rfl⟩

/-- Reverse the orientation of the policies that satisfy `f`. -/
def reorient (f : GovernancePolicy → Bool) (policies : List GovernancePolicy) :
    List GovernancePolicy :=
  policies.map fun p => if f p then p.flipped else p

theorem forall₂_reorient (f : GovernancePolicy → Bool) (policies : List GovernancePolicy) :
    List.Forall₂ Reoriented policies (reorient f policies) := by
  unfold reorient
  rw [List.forall₂_map_right_iff, List.forall₂_same]
  intro p _ x y
  split
  · exact .inr ⟨get?_flipped p x y, get?_flipped p y x⟩
  · exact .inl ⟨rfl, rfl⟩

theorem stored_reorient {f : GovernancePolicy → Bool} : Stored (reorient f policies) a b level ↔
    ∃ p ∈ policies, (if f p then p.trustLevels.get? (b, a) else p.trustLevels.get? (a, b)) =
      some level := by
  simp only [Stored, reorient, List.mem_map, exists_exists_and_eq_and]
  refine exists_congr fun p => and_congr_right fun _ => ?_
  split
  · rw [get?_flipped]
  · rfl

theorem storedEither_congr (h : List.Forall₂ Reoriented policies policies') :
    StoredEither policies' a b level ↔ StoredEither policies a b level := by
  have hcons : ∀ (p : GovernancePolicy) ps, StoredEither (p :: ps) a b level ↔
      (p.trustLevels.get? (a, b) = some level ∨ p.trustLevels.get? (b, a) = some level) ∨
        StoredEither ps a b level := by
    intro p ps
    simp only [StoredEither, Stored, List.mem_cons, exists_eq_or_imp]
    exact or_or_or_comm
  induction h with
  | nil => rfl
  | @cons p q ps qs hpq _ ih =>
    rw [hcons, hcons]
    refine or_congr ?_ ih
    cases hpq a b with
    | inl hsame => rw [hsame.1, hsame.2]
    | inr hswap =>
      rw [hswap.1, hswap.2]
      exact or_comm

/-- The levels of the pair have a least one. -/
theorem exists_isLeast_either (h : StoredEither policies a b level) :
    ∃ m, IsLeast {l | StoredEither policies a b l} m := by
  by_cases hab : ∃ x, Stored policies a b x
  · obtain ⟨x, hx⟩ := hab
    obtain ⟨m, hm⟩ := exists_isLeast hx
    by_cases hba : ∃ y, Stored policies b a y
    · obtain ⟨y, hy⟩ := hba
      obtain ⟨m', hm'⟩ := exists_isLeast hy
      exact ⟨_, hm.union hm'⟩
    · refine ⟨m, .inl hm.1, ?_⟩
      intro l hl
      cases hl with
      | inl hl => exact hm.2 hl
      | inr hl => exact absurd ⟨l, hl⟩ hba
  · cases h with
    | inl h => exact absurd ⟨level, h⟩ hab
    | inr h =>
      obtain ⟨m, hm⟩ := exists_isLeast h
      refine ⟨m, .inr hm.1, ?_⟩
      intro l hl
      cases hl with
      | inl hl => exact absurd ⟨l, hl⟩ hab
      | inr hl => exact hm.2 hl

theorem Unanimous.reoriented (hu : Unanimous policies a b)
    (h : List.Forall₂ Reoriented policies policies') : Unanimous policies' a b := by
  unfold Unanimous at hu ⊢
  simp only [storedEither_congr h]
  refine hu.imp id (Or.imp id ?_)
  rintro ⟨p, hp, m, hab, hba, hle⟩
  have hfound : ∃ q ∈ policies', Reoriented p q := by
    clear hle hu
    induction h with
    | nil => cases hp
    | @cons p' q ps qs hpq _ ih =>
      cases List.mem_cons.mp hp with
      | inl heq => exact ⟨q, List.mem_cons_self, heq ▸ hpq⟩
      | inr hp =>
        obtain ⟨q', hq', hpq'⟩ := ih hp
        exact ⟨q', List.mem_cons_of_mem _ hq', hpq'⟩
  obtain ⟨q, hq, hpq⟩ := hfound
  cases hpq a b with
  | inl hsame => exact ⟨q, hq, m, hsame.1.trans hab, hsame.2.trans hba, hle⟩
  | inr hswap => exact ⟨q, hq, m, hswap.1.trans hba, hswap.2.trans hab, hle⟩

/-- Unanimous policies are merged to the least level of the pair. -/
theorem Unanimous.isLeast (hu : Unanimous policies a b) (hne : a ≠ b)
    (h : StoredEither policies a b level) :
    IsLeast {l | StoredEither policies a b l} ((mergeGovernance policies).getTrust a b) := by
  rcases hu with heq | hall | ⟨p, hp, m, hab, -, hle⟩
  · exact absurd heq hne
  · -- the merged level is one of the levels
    have hstored : StoredEither policies a b ((mergeGovernance policies).getTrust a b) := by
      by_cases hab : ∃ x, Stored policies a b x
      · obtain ⟨x, hx⟩ := hab
        obtain ⟨m, hm⟩ := exists_isLeast hx
        rw [getTrust_of_stored hne hm]
        exact .inl hm.1
      · have hba := h.resolve_left fun hx => hab ⟨level, hx⟩
        obtain ⟨m, hm⟩ := exists_isLeast hba
        rw [getTrust_of_reversed hne (fun x hx => hab ⟨x, hx⟩) hm]
        exact .inr hm.1
    exact ⟨hstored, fun l hl => (hall _ l hstored hl).le⟩
  · obtain ⟨m', hm'⟩ := exists_isLeast ⟨p, hp, hab⟩
    rw [getTrust_of_stored hne hm', le_antisymm (hm'.2 ⟨p, hp, hab⟩) (hle m' (.inl hm'.1))]
    exact ⟨.inl ⟨p, hp, hab⟩, fun l hl => hle l hl⟩

theorem Unanimous.orientationFree (hu : Unanimous policies a b) : OrientationFree policies a b := by
  intro policies' h
  by_cases hne : a = b
  · rw [GovernancePolicy.getTrust, GovernancePolicy.getTrust, if_pos hne, if_pos hne]
  by_cases hlevel : ∃ l, StoredEither policies a b l
  · obtain ⟨l, hl⟩ := hlevel
    have hleast := (hu.reoriented h).isLeast hne ((storedEither_congr h).mpr hl)
    simp only [storedEither_congr h] at hleast
    exact hleast.unique (hu.isLeast hne hl)
  · have hnone : ∀ l, ¬ StoredEither policies a b l := fun l hl => hlevel ⟨l, hl⟩
    rw [getTrust_of_not_stored hne hnone, getTrust_of_not_stored hne fun l hl =>
      hnone l ((storedEither_congr h).mp hl)]

/-- Every policy with the least level can be turned so that it counts. -/
theorem exists_low (hne : a ≠ b) (hm : IsLeast {l | StoredEither policies a b l} m) :
    ∃ policies', List.Forall₂ Reoriented policies policies' ∧
      (mergeGovernance policies').getTrust a b = m := by
  refine ⟨_, forall₂_reorient (fun p => p.trustLevels.get? (b, a) = some m) policies, ?_⟩
  refine getTrust_of_stored hne ⟨?_, fun l hl => hm.2 ?_⟩
  · rw [Set.mem_ofPred_eq, stored_reorient]
    cases hm.1 with
    | inl hab =>
      obtain ⟨p, hp, hget⟩ := hab
      refine ⟨p, hp, ?_⟩
      split
      · next hflip => exact of_decide_eq_true hflip
      · exact hget
    | inr hba =>
      obtain ⟨p, hp, hget⟩ := hba
      exact ⟨p, hp, by rw [if_pos (decide_eq_true hget), hget]⟩
  · exact (storedEither_congr (forall₂_reorient _ policies)).mp (.inl hl)

/-- Unless they are unanimous, the policies can be turned so that the least level does
not count. -/
theorem exists_high (hne : a ≠ b) (hm : IsLeast {l | StoredEither policies a b l} m)
    (hu : ¬ Unanimous policies a b) :
    ∃ policies', List.Forall₂ Reoriented policies policies' ∧
      m < (mergeGovernance policies').getTrust a b := by
  unfold Unanimous at hu
  simp only [not_or, not_exists, not_and, not_forall] at hu
  obtain ⟨-, ⟨l, l', hl, hl', hdiffer⟩, hboth⟩ := hu
  set f : GovernancePolicy → Bool := fun p => decide (p.trustLevels.get? (a, b) = some m ∨
    (p.trustLevels.get? (a, b) = none ∧ p.trustLevels.get? (b, a) ≠ some m)) with hf
  -- what counts after turning is more than the least level
  have habove : ∀ l, Stored (reorient f policies) a b l → m < l := by
    intro l hl
    have hle := hm.2 ((storedEither_congr (forall₂_reorient f policies)).mp (.inl hl))
    obtain ⟨p, hp, hget⟩ := stored_reorient.mp hl
    refine lt_of_le_of_ne hle ?_
    rintro rfl
    split at hget
    · next hflip =>
      cases of_decide_eq_true hflip with
      | inl hab =>
        obtain ⟨x, hx, hlt⟩ := hboth p hp m hab hget
        exact hlt (hm.2 hx)
      | inr hnone => exact hnone.2 hget
    · next hkeep => exact hkeep (decide_eq_true (.inl hget))
  have hcounts : ∃ x, Stored (reorient f policies) a b x := by
    -- one of the two levels is not the least
    have hother : ∃ x, StoredEither policies a b x ∧ x ≠ m := by
      by_cases hlm : l = m
      · exact ⟨l', hl', fun heq => hdiffer (hlm.trans heq.symm)⟩
      · exact ⟨l, hl, hlm⟩
    obtain ⟨x, hx, hxm⟩ := hother
    simp only [stored_reorient]
    have hturned : ∃ p ∈ policies, p.trustLevels.get? (a, b) = some x ∨
        p.trustLevels.get? (b, a) = some x := by
      cases hx with
      | inl hab =>
        obtain ⟨p, hp, hget⟩ := hab
        exact ⟨p, hp, .inl hget⟩
      | inr hba =>
        obtain ⟨p, hp, hget⟩ := hba
        exact ⟨p, hp, .inr hget⟩
    obtain ⟨p, hp, hget⟩ := hturned
    cases hab : p.trustLevels.get? (a, b) with
    | some y =>
      by_cases hym : y = m
      · subst hym
        have hba := hget.resolve_left fun h => hxm (Option.some.inj (h.symm.trans hab))
        refine ⟨x, p, hp, ?_⟩
        rw [if_pos (decide_eq_true (.inl hab)), hba]
      · refine ⟨y, p, hp, ?_⟩
        rw [if_neg, hab]
        simp [hf, hab, hym]
    | none =>
      have hba := hget.resolve_left fun h => by cases hab.symm.trans h
      refine ⟨x, p, hp, ?_⟩
      have hturn : p.trustLevels.get? (b, a) ≠ some m := fun h =>
        hxm (Option.some.inj (hba.symm.trans h))
      rw [if_pos (decide_eq_true (.inr ⟨hab, hturn⟩)), hba]
  obtain ⟨x, hx⟩ := hcounts
  obtain ⟨m', hm'⟩ := exists_isLeast hx
  refine ⟨_, forall₂_reorient f policies, ?_⟩
  rw [getTrust_of_stored hne hm']
  exact habove m' hm'.1

theorem orientationFree_iff : OrientationFree policies a b ↔ Unanimous policies a b := by
  refine ⟨fun hfree => ?_, Unanimous.orientationFree⟩
  by_contra hu
  have hne : a ≠ b := fun heq => hu (.inl heq)
  have hlevel : ∃ l, StoredEither policies a b l := by
    by_contra hnone
    exact hu (.inr (.inl fun l _ hl _ => absurd ⟨l, hl⟩ hnone))
  obtain ⟨l, hl⟩ := hlevel
  obtain ⟨m, hm⟩ := exists_isLeast_either hl
  obtain ⟨low, hlow, hlowLevel⟩ := exists_low hne hm
  obtain ⟨high, hhigh, hhighLevel⟩ := exists_high hne hm hu
  rw [hfree high hhigh, ← hfree low hlow, hlowLevel] at hhighLevel
  exact absurd hhighLevel (lt_irrefl m)

/-- The merged level of a pair is a lower bound of the stored ones when the orientations
agree with the preference of `get_trust`; it never depends on the order of the policies,
and it is independent of their orientations when the policies are unanimous. -/
theorem mergeGovernance_conservative_iff (policies : List GovernancePolicy) (a b : DomainId) :
    (Bounded policies a b ↔ Aligned policies a b) ∧ OrderFree policies a b ∧
      (OrientationFree policies a b ↔ Unanimous policies a b) :=
  ⟨bounded_iff, orderFree policies a b, orientationFree_iff⟩

end Merge

private def trusting : GovernancePolicy := { trustLevels := .ofList [(("d1", "d2"), 9 / 10)] }

private def wary : GovernancePolicy := { trustLevels := .ofList [(("d2", "d1"), 1 / 10)] }

/-- Two brokers store the pair, each under its own orientation of the key. -/
theorem not_bounded :
    (mergeGovernance [trusting, wary]).getTrust "d1" "d2" = 9 / 10 ∧
    (mergeGovernance [trusting, wary.flipped]).getTrust "d1" "d2" = 1 / 10 ∧
    ¬ ∀ policies a b, Bounded policies a b ∧ OrderFree policies a b ∧ OrientationFree policies a b := by
  have hlevel : (mergeGovernance [trusting, wary]).getTrust "d1" "d2" = 9 / 10 := by
    decide +kernel
  refine ⟨hlevel, by decide +kernel, fun hall => ?_⟩
  have hstored : Stored [trusting, wary] "d2" "d1" (1 / 10) :=
    ⟨wary, by simp, by decide +kernel⟩
  have hbound := (hall [trusting, wary] "d1" "d2").1 (1 / 10) (.inr hstored)
  rw [hlevel] at hbound
  norm_num at hbound

end NeuralPubSub
