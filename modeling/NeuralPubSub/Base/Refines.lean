-- SUMMARY: Fallible programs that agree with another one unless they fail in a given way.
import NeuralPubSub.Base.Scan

/-!
# Agreement up to a failure

Two programs that read different data give the same result unless the first one
raises an error of some kind `E`. The relation passes through the combinators
that fallible programs are built from.
-/

namespace Base

variable {ε α β γ κ : Type} {E : ε → Prop}

variable (E) in
/-- The programs have the same result, or the first one fails with an error of the kind. -/
def Refines (x y : Except ε α) : Prop := x = y ∨ ∃ e, x = .error e ∧ E e

namespace Refines

theorem refl (x : Except ε α) : Refines E x x := .inl rfl

theorem of_error {e : ε} (h : E e) (y : Except ε α) : Refines E (.error e) y := .inr ⟨e, rfl, h⟩

theorem ok {x y : Except ε α} (h : Refines E x y) {a : α} (hx : x = .ok a) : y = .ok a := by
  cases h with
  | inl heq => exact heq ▸ hx
  | inr herror =>
    obtain ⟨e, he, -⟩ := herror
    cases he.symm.trans hx

theorem bind {x y : Except ε α} {f g : α → Except ε β} (h : Refines E x y)
    (hfg : ∀ a, x = .ok a → Refines E (f a) (g a)) : Refines E (x >>= f) (y >>= g) := by
  cases h with
  | inl heq =>
    subst heq
    cases x with
    | error e => exact refl _
    | ok a => exact hfg a rfl
  | inr herror =>
    obtain ⟨e, rfl, he⟩ := herror
    exact of_error he _

theorem foldlM {f g : β → α → Except ε β} {l : List α}
    (h : ∀ b, ∀ a ∈ l, Refines E (f b a) (g b a)) (b : β) :
    Refines E (l.foldlM f b) (l.foldlM g b) := by
  induction l generalizing b with
  | nil => exact refl _
  | cons a l ih =>
    rw [List.foldlM_cons, List.foldlM_cons]
    exact (h b a List.mem_cons_self).bind fun b' _ =>
      ih (fun b a ha => h b a (List.mem_cons_of_mem _ ha)) b'

theorem mapM {f g : α → Except ε β} {l : List α} (h : ∀ a ∈ l, Refines E (f a) (g a)) :
    Refines E (l.mapM f) (l.mapM g) := by
  induction l with
  | nil => exact refl _
  | cons a l ih =>
    rw [List.mapM_cons, List.mapM_cons]
    apply (h a List.mem_cons_self).bind
    intro b _
    apply (ih fun a' ha' => h a' (List.mem_cons_of_mem _ ha')).bind
    intro bs _
    exact refl _

theorem firstMinM [LinearOrder κ] [OrderTop κ] {f g : α → Except ε κ} {l : List α}
    (h : ∀ a ∈ l, Refines E (f a) (g a)) : Refines E (Base.firstMinM f l) (Base.firstMinM g l) :=
  foldlM (fun _ a ha => (h a ha).bind fun _ _ => refl _) _

end Refines
end Base
