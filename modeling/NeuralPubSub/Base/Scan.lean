-- SUMMARY: Loops over lists: invariant rules for folds, pure and raising, and the scan that keeps the first minimum.
import Mathlib

/-!
# Scans

A loop over a list with an accumulator is a left fold; a loop whose body can
raise is a fold in `Except`. Both have an invariant rule that speaks of the part
of the list scanned so far. `firstMin` is the loop that keeps the cheapest
candidate, the first one among equals.
-/

namespace Base

variable {α β ε : Type}

/-- A sequence of two computations returns when both do. -/
theorem bind_eq_ok_iff {x : Except ε α} {f : α → Except ε β} {b : β} :
    (x >>= f) = .ok b ↔ ∃ a, x = .ok a ∧ f a = .ok b := by
  cases x with
  | error e => exact ⟨fun h => (by cases h), by rintro ⟨a, ⟨⟩, -⟩⟩
  | ok a => exact ⟨fun h => ⟨a, rfl, h⟩, by rintro ⟨_, ⟨⟩, h⟩; exact h⟩

/-! ## Invariant rules -/

/-- The invariant rule for a loop over `l`: `P done acc` holds before each
iteration, where `done` is the part of `l` scanned so far. -/
theorem foldl_scan {f : β → α → β} {P : List α → β → Prop} {l : List α} {b : β} (hinit : P [] b)
    (hstep : ∀ done x rest acc, l = done ++ x :: rest → P done acc → P (done ++ [x]) (f acc x)) :
    P l (l.foldl f b) := by
  have go : ∀ (rest done : List α) (acc : β), l = done ++ rest → P done acc →
      P l (rest.foldl f acc) := by
    intro rest
    induction rest with
    | nil =>
      intro done acc hl hP
      rw [List.append_nil] at hl
      exact hl ▸ hP
    | cons x rest ih =>
      intro done acc hl hP
      exact ih (done ++ [x]) (f acc x) (by simpa using hl) (hstep done x rest acc hl hP)
  exact go l [] b rfl hinit

/-- The rule for a loop whose body may raise: each iteration either keeps the
invariant or raises an exception that satisfies `Q`. -/
theorem foldlM_scan {f : β → α → Except ε β} {P : List α → β → Prop} {Q : ε → Prop} {l : List α}
    {b : β} (hinit : P [] b)
    (hstep : ∀ done x rest acc, l = done ++ x :: rest → P done acc →
      (∃ acc', f acc x = .ok acc' ∧ P (done ++ [x]) acc') ∨ (∃ e, f acc x = .error e ∧ Q e)) :
    (∃ acc, l.foldlM f b = .ok acc ∧ P l acc) ∨ (∃ e, l.foldlM f b = .error e ∧ Q e) := by
  have go : ∀ (rest done : List α) (acc : β), l = done ++ rest → P done acc →
      (∃ acc', rest.foldlM f acc = .ok acc' ∧ P l acc') ∨
        (∃ e, rest.foldlM f acc = .error e ∧ Q e) := by
    intro rest
    induction rest with
    | nil =>
      intro done acc hl hP
      rw [List.append_nil] at hl
      exact .inl ⟨acc, rfl, hl ▸ hP⟩
    | cons x rest ih =>
      intro done acc hl hP
      rw [List.foldlM_cons]
      rcases hstep done x rest acc hl hP with ⟨acc', hf, hP'⟩ | ⟨e, hf, hQ⟩
      · rw [hf]
        exact ih (done ++ [x]) acc' (by simpa using hl) hP'
      · rw [hf]
        exact .inr ⟨e, rfl, hQ⟩
  exact go l [] b rfl hinit

/-- The rule for a loop whose body never raises from a state it reaches. -/
theorem foldlM_scan_ok {f : β → α → Except ε β} {P : List α → β → Prop} {l : List α} {b : β}
    (hinit : P [] b)
    (hstep : ∀ done x rest acc, l = done ++ x :: rest → P done acc →
      ∃ acc', f acc x = .ok acc' ∧ P (done ++ [x]) acc') :
    ∃ acc, l.foldlM f b = .ok acc ∧ P l acc := by
  rcases foldlM_scan (Q := fun _ => False) hinit
    fun done x rest acc hl hP => .inl (hstep done x rest acc hl hP) with h | ⟨_, _, hfalse⟩
  · exact h
  · exact hfalse.elim

/-- The rule for a loop whose body may give up, once the loop has not. -/
theorem foldlM_scan_some {f : β → α → Option β} {P : List α → β → Prop} {l : List α} {b b' : β}
    (hinit : P [] b)
    (hstep : ∀ done x rest acc acc', l = done ++ x :: rest → P done acc → f acc x = some acc' →
      P (done ++ [x]) acc')
    (h : l.foldlM f b = some b') : P l b' := by
  have go : ∀ (rest done : List α) (acc : β), l = done ++ rest → P done acc →
      rest.foldlM f acc = some b' → P l b' := by
    intro rest
    induction rest with
    | nil =>
      intro done acc hl hP hfold
      rw [List.append_nil] at hl
      obtain rfl := Option.some.inj hfold
      exact hl ▸ hP
    | cons x rest ih =>
      intro done acc hl hP hfold
      rw [List.foldlM_cons] at hfold
      obtain ⟨acc', hf, hrest⟩ := Option.bind_eq_some_iff.mp hfold
      exact ih (done ++ [x]) acc' (by simpa using hl) (hstep done x rest acc acc' hl hP hf) hrest
  exact go l [] b rfl hinit h

/-- A loop that gives up where a guard fails is the loop without the guard, once it has not. -/
theorem foldlM_of_guarded {f : β → α → Option β} {p : β → α → Prop} [∀ b x, Decidable (p b x)]
    {l : List α} {b b' : β}
    (h : l.foldlM (fun b x => if p b x then f b x else none) b = some b') :
    l.foldlM f b = some b' := by
  induction l generalizing b with
  | nil => exact h
  | cons x l ih =>
    rw [List.foldlM_cons] at h ⊢
    obtain ⟨b₁, hstep, hrest⟩ := Option.bind_eq_some_iff.mp h
    rw [(Option.ite_none_right_eq_some.mp hstep).2]
    exact ih hrest

/-- Where a loop gives up. -/
theorem exists_of_foldlM_eq_none {f : β → α → Option β} {l : List α} {b : β}
    (h : l.foldlM f b = none) :
    ∃ done x rest acc, l = done ++ x :: rest ∧ done.foldlM f b = some acc ∧ f acc x = none := by
  induction l generalizing b with
  | nil => cases h
  | cons x l ih =>
    cases hx : f b x with
    | none => exact ⟨[], x, l, b, rfl, rfl, hx⟩
    | some b' =>
      rw [List.foldlM_cons, hx] at h
      obtain ⟨done, y, rest, acc, rfl, hdone, hy⟩ := ih h
      refine ⟨x :: done, y, rest, acc, rfl, ?_, hy⟩
      rw [List.foldlM_cons, hx]
      exact hdone

/-- The rule for a loop whose body never gives up in a state it reaches. -/
theorem foldlM_scan_isSome {f : β → α → Option β} {P : List α → β → Prop} {l : List α} {b : β}
    (hinit : P [] b)
    (hstep : ∀ done x rest acc, l = done ++ x :: rest → P done acc →
      ∃ acc', f acc x = some acc' ∧ P (done ++ [x]) acc') :
    ∃ b', l.foldlM f b = some b' ∧ P l b' := by
  have go : ∀ (rest done : List α) (acc : β), l = done ++ rest → P done acc →
      ∃ b', rest.foldlM f acc = some b' ∧ P l b' := by
    intro rest
    induction rest with
    | nil =>
      intro done acc hl hP
      rw [List.append_nil] at hl
      exact ⟨acc, rfl, hl ▸ hP⟩
    | cons x rest ih =>
      intro done acc hl hP
      obtain ⟨acc', hf, hP'⟩ := hstep done x rest acc hl hP
      obtain ⟨b', hrest, hb'⟩ := ih (done ++ [x]) acc' (by simpa using hl) hP'
      exact ⟨b', by rw [List.foldlM_cons, hf]; exact hrest, hb'⟩
  exact go l [] b rfl hinit

/-- The rule for a loop whose body may raise, once the loop has returned. -/
theorem foldlM_scan_returned {f : β → α → Except ε β} {P : List α → β → Prop} {l : List α}
    {b b' : β} (hinit : P [] b)
    (hstep : ∀ done x rest acc acc', l = done ++ x :: rest → P done acc → f acc x = .ok acc' →
      P (done ++ [x]) acc')
    (h : l.foldlM f b = .ok b') : P l b' := by
  have hscan := foldlM_scan (P := P) (Q := fun _ => True) (f := f) (l := l) hinit ?_
  · cases hscan with
    | inl hok =>
      rcases hok with ⟨acc, hacc, hP⟩
      cases h.symm.trans hacc
      exact hP
    | inr herror =>
      rcases herror with ⟨e, he, -⟩
      rw [h] at he
      cases he
  · intro done x rest acc hl hP
    cases hf : f acc x with
    | ok acc' => exact .inl ⟨acc', rfl, hstep done x rest acc acc' hl hP hf⟩
    | error e => exact .inr ⟨e, rfl, trivial⟩

/-- Two loops end alike when their bodies do from every state that the second reaches. -/
theorem foldlM_congr_reached {f g : β → α → Except ε β} {P : β → Prop} {l : List α} {b : β}
    (hinit : P b) (hsame : ∀ acc x, P acc → f acc x = g acc x)
    (hstep : ∀ acc x acc', P acc → g acc x = .ok acc' → P acc') : l.foldlM f b = l.foldlM g b := by
  induction l generalizing b with
  | nil => rfl
  | cons x l ih =>
    rw [List.foldlM_cons, List.foldlM_cons, hsame b x hinit]
    cases hx : g b x with
    | error e => rfl
    | ok b' => exact ih (hstep b x b' hinit hx)

/-- A list sorted by a key stands in the order of that key. -/
theorem pairwise_mergeSort_key {κ : Type} [LinearOrder κ] (key : α → κ) (l : List α) :
    (l.mergeSort fun x y => decide (key x ≤ key y)).Pairwise fun x y => key x ≤ key y := by
  have hsorted : (l.mergeSort fun x y => decide (key x ≤ key y)).Pairwise
      fun x y => decide (key x ≤ key y) = true := by
    apply List.pairwise_mergeSort
    · exact fun x y z hxy hyz => by
        simpa using (of_decide_eq_true hxy).trans (of_decide_eq_true hyz)
    · exact fun x y => by simpa using le_total (key x) (key y)
  exact hsorted.imp of_decide_eq_true

theorem mapM_eq_ok {f : α → Except ε β} {g : α → β} {l : List α}
    (h : ∀ x ∈ l, f x = .ok (g x)) : l.mapM f = .ok (l.map g) := by
  induction l with
  | nil => rfl
  | cons x l ih =>
    rw [List.mapM_cons, h x (by simp), ih fun y hy => h y (by simp [hy])]
    rfl

/-- What a map has computed once it has returned. -/
theorem eq_map_of_mapM_eq_ok [Inhabited β] {f : α → Except ε β} {l : List α} {l' : List β}
    (h : l.mapM f = .ok l') :
    l' = l.map (fun x => (f x).toOption.getD default) ∧ ∀ x ∈ l, ∃ y, f x = .ok y := by
  induction l generalizing l' with
  | nil =>
    cases h
    exact ⟨rfl, by simp⟩
  | cons x l ih =>
    rw [List.mapM_cons] at h
    cases hx : f x with
    | error e =>
      rw [hx] at h
      cases h
    | ok y =>
      cases hl : l.mapM f with
      | error e =>
        rw [hx, hl] at h
        cases h
      | ok ys =>
        rw [hx, hl] at h
        cases h
        have htail := ih hl
        refine ⟨?_, ?_⟩
        · rw [List.map_cons, hx, ← htail.1]
          rfl
        · intro z hz
          cases List.mem_cons.mp hz with
          | inl heq => exact ⟨y, heq ▸ hx⟩
          | inr hmem => exact htail.2 z hmem

/-- The rule for a loop that stops at the first element failing a test. -/
theorem allM_spec {f : α → Except ε Bool} {P : α → Prop} {l : List α}
    (h : ∀ x ∈ l, ∃ b, f x = .ok b ∧ (b = true ↔ P x)) :
    ∃ b, l.allM f = .ok b ∧ (b = true ↔ ∀ x ∈ l, P x) := by
  induction l with
  | nil => exact ⟨true, rfl, by simp⟩
  | cons x l ih =>
    obtain ⟨b, hb, hP⟩ := h x (by simp)
    obtain ⟨c, hc, hall⟩ := ih fun y hy => h y (by simp [hy])
    rw [List.allM, hb]
    cases b with
    | false => exact ⟨false, rfl, by simp [← hP]⟩
    | true => exact ⟨c, hc, by simp [← hP, hall]⟩

theorem allM_total {f : α → Except ε Bool} {l : List α} (h : ∀ x ∈ l, ∃ b, f x = .ok b) :
    ∃ b, l.allM f = .ok b := by
  obtain ⟨b, hb, -⟩ := allM_spec (P := fun x => f x = .ok true) (l := l) fun x hx => by
    obtain ⟨b, hb⟩ := h x hx
    exact ⟨b, hb, by rw [hb, Except.ok.injEq]⟩
  exact ⟨b, hb⟩

theorem of_allM_eq_true {f : α → Except ε Bool} {l : List α} (h : l.allM f = .ok true) :
    ∀ x ∈ l, f x = .ok true := by
  induction l with
  | nil => simp
  | cons y l ih =>
    rw [List.allM] at h
    intro x hx
    cases hy : f y with
    | error e =>
      rw [hy] at h
      cases h
    | ok b =>
      rw [hy] at h
      cases b with
      | false => cases h
      | true =>
        cases List.mem_cons.mp hx with
        | inl heq => rw [heq, hy]
        | inr hx => exact ih h x hx

theorem allM_eq_true {f : α → Except ε Bool} {l : List α} (h : ∀ x ∈ l, f x = .ok true) :
    l.allM f = .ok true := by
  obtain ⟨b, hb, hall⟩ := allM_spec (P := fun _ => True) fun x hx => ⟨true, h x hx, by simp⟩
  rw [hb, hall.mpr fun _ _ => trivial]

/-! ## The states of a loop nest -/

/-- The states that a loop goes through: those between its iterations, and those inside
an iteration, which `inner` describes. -/
inductive LoopState (inner : β → α → β → Prop) (f : β → α → Except ε β) (l : List α) (b : β) :
    β → Prop
  | between {done : List α} {s : β} : done <+: l → done.foldlM f b = .ok s →
    LoopState inner f l b s
  | within {done : List α} {x : α} {acc s : β} : done ++ [x] <+: l → done.foldlM f b = .ok acc →
    inner acc x s → LoopState inner f l b s

section LoopState
variable {R : β → β → Prop} {f : β → α → Except ε β} {l : List α} {b s : β}

/-- A loop whose iterations are runs of steps is such a run. -/
theorem foldlM_reaches
    (hstep : ∀ acc x acc', f acc x = .ok acc' → Relation.ReflTransGen R acc acc')
    (h : l.foldlM f b = .ok s) : Relation.ReflTransGen R b s :=
  foldlM_scan_returned (P := fun _ acc => Relation.ReflTransGen R b acc) .refl
    (fun _ x _ acc acc' _ hacc hf => hacc.trans (hstep acc x acc' hf)) h

theorem LoopState.reaches {inner : β → α → β → Prop}
    (hstep : ∀ acc x acc', f acc x = .ok acc' → Relation.ReflTransGen R acc acc')
    (hinner : ∀ acc x s, inner acc x s → Relation.ReflTransGen R acc s)
    (h : LoopState inner f l b s) : Relation.ReflTransGen R b s := by
  cases h with
  | between _ hs => exact foldlM_reaches hstep hs
  | within _ hacc hs => exact (foldlM_reaches hstep hacc).trans (hinner _ _ _ hs)

end LoopState

/-! ## While loops -/

/-- The call returns `a` as soon as it has enough fuel. -/
def Returns (call : Nat → Option α) (a : α) : Prop :=
  ∃ bound, ∀ fuel, bound ≤ fuel → call fuel = some a

namespace Returns
variable {call : Nat → Option α} {a a' : α}

theorem unique (h : Returns call a) (h' : Returns call a') : a = a' := by
  cases h with
  | intro bound hbound =>
    cases h' with
    | intro bound' hbound' =>
      apply Option.some.inj
      rw [← hbound (max bound bound') (le_max_left _ _),
        hbound' (max bound bound') (le_max_right _ _)]

theorem iff (h : Returns call a) : Returns call a' ↔ a = a' :=
  ⟨h.unique, fun heq => heq ▸ h⟩

theorem map (h : Returns call a) (f : α → β) : Returns (fun fuel => (call fuel).map f) (f a) := by
  cases h with
  | intro bound hbound =>
    refine ⟨bound, fun fuel hfuel => ?_⟩
    simp only [hbound fuel hfuel, Option.map_some]

end Returns

section While
variable {σ : Type} {cond : σ → Prop} [DecidablePred cond] {body : σ → Except ε σ}

/-- `while cond: body`. It is `none` when the fuel runs out before the loop ends. -/
def whileLoop (cond : σ → Prop) [DecidablePred cond] (body : σ → Except ε σ) :
    Nat → σ → Option (Except ε σ)
  | fuel, s =>
    if cond s then
      match fuel with
      | 0 => none
      | fuel + 1 =>
        match body s with
        | .error e => some (.error e)
        | .ok s' => whileLoop cond body fuel s'
    else some (.ok s)

theorem returns_whileLoop_of_not {s : σ} (h : ¬ cond s) :
    Returns (fun fuel => whileLoop cond body fuel s) (.ok s) := by
  refine ⟨0, fun fuel _ => ?_⟩
  unfold whileLoop
  simp only [if_neg h]

theorem returns_whileLoop_of_body {s s' : σ} (h : cond s) (hbody : body s = .ok s')
    {r : Except ε σ} (hr : Returns (fun fuel => whileLoop cond body fuel s') r) :
    Returns (fun fuel => whileLoop cond body fuel s) r := by
  cases hr with
  | intro bound hbound =>
    refine ⟨bound + 1, fun fuel hfuel => ?_⟩
    cases fuel with
    | zero => omega
    | succ fuel =>
      unfold whileLoop
      simp only [if_pos h, hbody]
      exact hbound fuel (by omega)

/-- The rule with an invariant and a variant: the loop ends, with the invariant and without
the condition. -/
theorem whileLoop_total {P : σ → Prop} (rank : σ → Nat)
    (hstep : ∀ s, P s → cond s → ∃ s', body s = .ok s' ∧ P s' ∧ rank s' < rank s)
    {s : σ} (hs : P s) :
    ∃ s', Returns (fun fuel => whileLoop cond body fuel s) (.ok s') ∧ P s' ∧ ¬ cond s' := by
  induction hn : rank s using Nat.strong_induction_on generalizing s with
  | _ n ih =>
    by_cases hcond : cond s
    · rcases hstep s hs hcond with ⟨s₁, hbody, hs₁, hlt⟩
      rcases ih (rank s₁) (hn ▸ hlt) hs₁ rfl with ⟨s', hreturns, hs', hend⟩
      exact ⟨s', returns_whileLoop_of_body hcond hbody hreturns, hs', hend⟩
    · exact ⟨s, returns_whileLoop_of_not hcond, hs, hcond⟩

end While

/-! ## Two scans of one list -/

/-- Two loops over one list keep a relation as long as every element meets the condition in
the states that it finds. -/
theorem foldl_lockstep {σ τ : Type} {f : σ → α → σ} {g : τ → α → τ} {R : σ → τ → Prop}
    {C : σ → τ → α → Prop} (hstep : ∀ s t x, R s t → C s t x → R (f s x) (g t x)) {l : List α}
    {s : σ} {t : τ} (h : R s t)
    (hall : ∀ pre x post, l = pre ++ x :: post → C (pre.foldl f s) (pre.foldl g t) x) :
    ∀ pre, pre <+: l → R (pre.foldl f s) (pre.foldl g t) := by
  induction l generalizing s t with
  | nil =>
    intro pre hpre
    rw [List.prefix_nil.mp hpre]
    exact h
  | cons x l ih =>
    intro pre hpre
    cases pre with
    | nil => exact h
    | cons z pre =>
      obtain ⟨rfl, hrest⟩ := List.cons_prefix_cons.mp hpre
      refine ih (hstep s t z h (hall [] z l rfl)) (fun pre y post hsplit => ?_) pre hrest
      exact hall (z :: pre) y post (by rw [hsplit]; rfl)

/-- A loop that may give up, of which a step from a state with `R` leads to one with `P`
exactly when it meets the condition: `P` holds after every step exactly when every step
meets the condition. -/
theorem foldlM_every_iff {σ : Type} {f : σ → α → Option σ} {R P : σ → Prop} {C : σ → α → Prop}
    {l : List α} (hstep : ∀ s x s', x ∈ l → R s → f s x = some s' → (P s' ↔ C s x))
    (hnext : ∀ s x s', x ∈ l → R s → f s x = some s' → P s' → R s') {s b : σ} (h : R s)
    (hrun : l.foldlM f s = some b) :
    (∀ pre x s', pre ++ [x] <+: l → (pre ++ [x]).foldlM f s = some s' → P s') ↔
      ∀ pre x s', pre ++ [x] <+: l → pre.foldlM f s = some s' → C s' x := by
  induction l generalizing s with
  | nil => simp
  | cons y l ih =>
    rw [List.foldlM_cons] at hrun
    obtain ⟨s₁, hy, hrest⟩ := Option.bind_eq_some_iff.mp hrun
    have hfirst := hstep s y s₁ List.mem_cons_self h hy
    have hlater := fun hP => ih (fun s x s' hx => hstep s x s' (List.mem_cons_of_mem _ hx))
      (fun s x s' hx => hnext s x s' (List.mem_cons_of_mem _ hx))
      (hnext s y s₁ List.mem_cons_self h hy hP) hrest
    have hcons : ∀ pre : List α, (y :: pre).foldlM f s = pre.foldlM f s₁ := by
      intro pre
      rw [List.foldlM_cons, hy]
      rfl
    constructor
    · intro hall
      have hP : P s₁ := hall [] y s₁ (by simp) (by rw [List.nil_append, hcons]; rfl)
      intro pre x s' hpre hs'
      cases pre with
      | nil =>
        obtain rfl : x = y := (List.cons_prefix_cons.mp hpre).1
        obtain rfl := Option.some.inj hs'
        exact hfirst.mp hP
      | cons z pre =>
        obtain ⟨rfl, htail⟩ := List.cons_prefix_cons.mp hpre
        rw [hcons] at hs'
        refine (hlater hP).mp (fun pre x s' hpre hs' => ?_) pre x s' htail hs'
        apply hall (z :: pre) x s' (List.cons_prefix_cons.mpr ⟨rfl, hpre⟩)
        rw [List.cons_append, hcons]
        exact hs'
    · intro hall
      have hP : P s₁ := hfirst.mpr (hall [] y s (by simp) rfl)
      intro pre x s' hpre hs'
      cases pre with
      | nil =>
        obtain rfl : x = y := (List.cons_prefix_cons.mp hpre).1
        rw [List.nil_append, hcons] at hs'
        obtain rfl := Option.some.inj hs'
        exact hP
      | cons z pre =>
        obtain ⟨rfl, htail⟩ := List.cons_prefix_cons.mp hpre
        rw [List.cons_append, hcons] at hs'
        refine (hlater hP).mpr (fun pre x s' hpre hs' => ?_) pre x s' htail hs'
        apply hall (z :: pre) x s' (List.cons_prefix_cons.mpr ⟨rfl, hpre⟩)
        rw [hcons]
        exact hs'

/-! ## Where a scan meets an element -/

/-- The places at which a scan of `l ++ [y]` meets `x`. -/
theorem exists_split_concat {l : List α} {x y : α} {P : List α → Prop} :
    (∃ pre post, l ++ [y] = pre ++ x :: post ∧ P pre) ↔
      (∃ pre post, l = pre ++ x :: post ∧ P pre) ∨ x = y ∧ P l := by
  constructor
  · rintro ⟨pre, post, h, hP⟩
    rcases List.eq_nil_or_concat post with rfl | ⟨post, z, rfl⟩
    · obtain ⟨rfl, hx⟩ := List.append_inj' h rfl
      exact .inr ⟨by simpa using hx.symm, hP⟩
    · rw [List.concat_eq_append, ← List.cons_append, ← List.append_assoc] at h
      exact .inl ⟨pre, post, (List.append_inj' h rfl).1, hP⟩
  · rintro (⟨pre, post, rfl, hP⟩ | ⟨rfl, hP⟩)
    · exact ⟨pre, post ++ [y], by simp, hP⟩
    · exact ⟨l, [], rfl, hP⟩

/-- Two different elements of a list stand in it in one order or the other. -/
theorem pair_sublist_or {l : List α} {a b : α} (ha : a ∈ l) (hb : b ∈ l) (h : a ≠ b) :
    [a, b].Sublist l ∨ [b, a].Sublist l := by
  induction l with
  | nil => cases ha
  | cons x l ih =>
    simp only [List.mem_cons] at ha hb
    cases ha with
    | inl hax =>
      subst hax
      exact .inl (List.Sublist.cons_cons _ (List.singleton_sublist.mpr (hb.resolve_left (Ne.symm h))))
    | inr ha =>
      cases hb with
      | inl hbx =>
        subst hbx
        exact .inr (List.Sublist.cons_cons _ (List.singleton_sublist.mpr ha))
      | inr hb =>
        exact (ih ha hb).imp (List.Sublist.cons _) (List.Sublist.cons _)

theorem index_of_zipIdx_split {l : List α} {x : α × ℕ} {pre post : List (α × ℕ)}
    (h : l.zipIdx = pre ++ x :: post) : x.2 = pre.length := by
  have hget : l.zipIdx[pre.length]? = some x := by simp [h]
  rw [List.getElem?_zipIdx] at hget
  cases Option.map_eq_some_iff.mp hget with
  | intro a ha => simp [← ha.2]

/-- The elements an enumeration meets before index `x.2` are those of smaller index. -/
theorem mem_of_zipIdx_split {l : List α} {x : α × ℕ} {pre post : List (α × ℕ)}
    (h : l.zipIdx = pre ++ x :: post) {j : ℕ} (hj : j < x.2) {y : α} (hy : l[j]? = some y) :
    (y, j) ∈ pre := by
  have hx := index_of_zipIdx_split h
  have hyj : l.zipIdx[j]? = some (y, j) := by simp [List.getElem?_zipIdx, hy]
  rw [h, List.getElem?_append_left (hx ▸ hj)] at hyj
  exact List.mem_of_getElem? hyj

/-! ## Columns written out of order -/

section Scattered
variable {ι : Type} {place : ι → Nat} {value : ι → β} {done : List ι} {column : List β}

/-- The column holds the value of each entry of `done` at the entry's place. -/
def Scattered (place : ι → Nat) (value : ι → β) (done : List ι) (column : List β) : Prop :=
  ∀ x ∈ done, column[place x]? = some (value x)

theorem Scattered.set (h : Scattered place value done column) {x : ι}
    (hx : place x < column.length) (hnew : ∀ y ∈ done, place y ≠ place x) {b : β}
    (hb : b = value x) : Scattered place value (done ++ [x]) (column.set (place x) b) := by
  intro y hy
  cases List.mem_append.mp hy with
  | inl hy =>
    rw [List.getElem?_set_ne (hnew y hy).symm]
    exact h y hy
  | inr hy =>
    rw [List.mem_singleton.mp hy, List.getElem?_set_self hx, hb]

end Scattered

/-! ## The first minimum -/

section FirstMin

variable {κ : Type} [LinearOrder κ] [OrderTop κ]

/-- The loop `for x in l: if cost x < best: best, arg = cost x, x`, which starts
from `⊤` and no candidate. A candidate of cost `⊤` is one the loop passes over. -/
def firstMinM (cost : α → Except ε κ) (l : List α) : Except ε (κ × Option α) :=
  l.foldlM (fun best x => do
    let c ← cost x
    pure (if c < best.1 then (c, some x) else best)) (⊤, none)

/-- `best` is what the loop holds after scanning `l`. -/
structure FirstMin (cost : α → κ) (l : List α) (best : κ × Option α) : Prop where
  le : ∀ x ∈ l, best.1 ≤ cost x
  eq_top : best.2 = none → best.1 = ⊤
  attained : ∀ x, best.2 = some x → best.1 = cost x ∧ cost x < ⊤ ∧
    ∃ pre post, l = pre ++ x :: post ∧ ∀ y ∈ pre, cost x < cost y

theorem FirstMin.concat {cost : α → κ} {l : List α} {best : κ × Option α}
    (h : FirstMin cost l best) (x : α) :
    FirstMin cost (l ++ [x]) (if cost x < best.1 then (cost x, some x) else best) := by
  split
  · next hlt =>
    refine ⟨fun y hy => ?_, fun hn => by simp at hn, fun y hy => ?_⟩
    · rcases List.mem_append.mp hy with hy | hy
      · exact hlt.le.trans (h.le y hy)
      · rw [List.mem_singleton.mp hy]
    · obtain rfl : x = y := by simpa using hy
      exact ⟨rfl, hlt.trans_le le_top, l, [], rfl, fun y hy => hlt.trans_le (h.le y hy)⟩
  · next hlt =>
    refine ⟨fun y hy => ?_, h.eq_top, fun y hy => ?_⟩
    · rcases List.mem_append.mp hy with hy | hy
      · exact h.le y hy
      · rw [List.mem_singleton.mp hy]
        exact not_lt.mp hlt
    · obtain ⟨hb, htop, pre, post, rfl, hpre⟩ := h.attained y hy
      exact ⟨hb, htop, pre, post ++ [x], by simp, hpre⟩

theorem firstMinM_spec {f : α → Except ε κ} {g : α → κ} {l : List α}
    (h : ∀ x ∈ l, f x = .ok (g x)) :
    ∃ best, firstMinM f l = .ok best ∧ FirstMin g l best := by
  refine foldlM_scan_ok (P := FirstMin g) ⟨by simp, by simp, by simp⟩ ?_
  intro done x rest best hl hbest
  refine ⟨_, ?_, hbest.concat x⟩
  rw [h x (by simp [hl])]
  rfl

/-- The scan with costs that are only known to exist. -/
theorem firstMinM_total {cost : α → Except ε κ} {l : List α} (h : ∀ x ∈ l, ∃ c, cost x = .ok c) :
    ∃ best, firstMinM cost l = .ok best ∧
      ∀ x, best.2 = some x → x ∈ l ∧ ∃ c, cost x = .ok c ∧ c < ⊤ := by
  obtain ⟨best, hbest, hmin⟩ := firstMinM_spec (f := cost)
    (g := fun x => (cost x).toOption.getD ⊤) (l := l) fun x hx => by
      obtain ⟨c, hc⟩ := h x hx
      rw [hc]
      rfl
  refine ⟨best, hbest, fun x hx => ?_⟩
  obtain ⟨-, htop, pre, post, rfl, -⟩ := hmin.attained x hx
  obtain ⟨c, hc⟩ := h x (by simp)
  rw [hc] at htop
  exact ⟨by simp, c, hc, htop⟩

/-- A candidate that the scan settles on has a cost below `⊤`. -/
theorem firstMinM_some {cost : α → Except ε κ} {l : List α} {best : κ × Option α}
    (h : firstMinM cost l = .ok best) {x : α} (hx : best.2 = some x) :
    x ∈ l ∧ ∃ c, cost x = .ok c ∧ c < ⊤ := by
  have hscan := foldlM_scan (l := l) (b := ((⊤, none) : κ × Option α))
    (f := fun best x => do
      let c ← cost x
      pure (if c < best.1 then (c, some x) else best))
    (P := fun done best => ∀ x, best.2 = some x → x ∈ done ∧ ∃ c, cost x = .ok c ∧ c < ⊤)
    (Q := fun _ => True) (by simp) (by
      intro done y rest best _ hbest
      cases hy : cost y with
      | error e => exact .inr ⟨e, rfl, trivial⟩
      | ok c =>
        refine .inl ⟨_, rfl, fun x hx => ?_⟩
        split at hx
        · next hlt =>
          cases hx
          exact ⟨by simp, c, hy, lt_of_lt_of_le hlt le_top⟩
        · exact (hbest x hx).imp (List.mem_append_left _) id)
  cases hscan with
  | inl hok =>
    obtain ⟨best', hbest', hP⟩ := hok
    cases h.symm.trans hbest'
    exact hP x hx
  | inr herror =>
    obtain ⟨e, he, -⟩ := herror
    cases h.symm.trans he

theorem FirstMin.mem {cost : α → κ} {l : List α} {best : κ × Option α}
    (h : FirstMin cost l best) {x : α} (hx : best.2 = some x) : x ∈ l := by
  obtain ⟨-, -, pre, post, rfl, -⟩ := h.attained x hx
  simp

theorem FirstMin.eq_top_of_none {cost : α → κ} {l : List α} {best : κ × Option α}
    (h : FirstMin cost l best) (hn : best.2 = none) {x : α} (hx : x ∈ l) : cost x = ⊤ :=
  top_le_iff.mp (h.eq_top hn ▸ h.le x hx)

/-- The scan computes the infimum of what its candidates stand for. -/
theorem FirstMin.eq_inf {γ : Type} {cost : α → κ} {l : List α} {best : κ × Option α}
    (h : FirstMin cost l best) {s : Finset γ} {f : γ → κ}
    (hto : ∀ x ∈ l, ∃ y ∈ s, f y = cost x) (hfrom : ∀ y ∈ s, ∃ x ∈ l, cost x = f y) :
    best.1 = s.inf f := by
  refine le_antisymm (Finset.le_inf fun y hy => ?_) ?_
  · obtain ⟨x, hx, hxy⟩ := hfrom y hy
    exact hxy ▸ h.le x hx
  · cases hb : best.2 with
    | none => exact h.eq_top hb ▸ le_top
    | some x =>
      obtain ⟨heq, -⟩ := h.attained x hb
      obtain ⟨y, hy, hxy⟩ := hto x (h.mem hb)
      rw [heq, ← hxy]
      exact Finset.inf_le hy

end FirstMin

end Base
