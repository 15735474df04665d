-- SUMMARY: File names: stem and extension, prefixes and substrings, and what an extension adds to them.
import Mathlib

/-!
# File names

A file name splits at its last dot into a stem and an extension, unless the dot is its
first or last character. Names are compared character by character.
-/

namespace Base.FileName

/-- `pre` starts `name`. -/
def StartsWith (name pre : String) : Prop := pre.toList <+: name.toList

/-- `sub` occurs in `name`. -/
def Contains (name sub : String) : Prop := sub.toList <:+: name.toList

instance (name pre : String) : Decidable (StartsWith name pre) :=
  inferInstanceAs (Decidable (_ <+: _))

instance (name sub : String) : Decidable (Contains name sub) :=
  inferInstanceAs (Decidable (_ <:+: _))

/-- The characters before the last dot, and those after it. -/
def splitLastDot (name : List Char) : List Char × List Char :=
  ((name.reverse.dropWhile (· ≠ '.')).tail.reverse, (name.reverse.takeWhile (· ≠ '.')).reverse)

/-- The stem and the extension, which keeps its dot. -/
def splitExtension (name : String) : String × String :=
  let (stem, extension) := splitLastDot name.toList
  if stem = [] ∨ extension = [] then (name, "")
  else (.ofList stem, .ofList ('.' :: extension))

def stem (name : String) : String := (splitExtension name).1
def suffix (name : String) : String := (splitExtension name).2

/-! ## Stem and extension -/

theorem splitLastDot_append {stem extension : List Char} (h : '.' ∉ extension) :
    splitLastDot (stem ++ '.' :: extension) = (stem, extension) := by
  have hkeep : ∀ c ∈ extension.reverse, decide (c ≠ '.') = true := fun c hc =>
    decide_eq_true fun heq => h (heq ▸ List.mem_reverse.mp hc)
  have hreverse : (stem ++ '.' :: extension).reverse = extension.reverse ++ '.' :: stem.reverse := by
    simp
  unfold splitLastDot
  rw [hreverse, List.dropWhile_append_of_pos hkeep, List.takeWhile_append_of_pos hkeep]
  simp

theorem append_splitLastDot {name : List Char} (h : (splitLastDot name).1 ≠ []) :
    (splitLastDot name).1 ++ '.' :: (splitLastDot name).2 = name := by
  simp only [splitLastDot] at h ⊢
  have hsplit := List.takeWhile_append_dropWhile (p := (· ≠ '.')) (l := name.reverse)
  cases hdrop : name.reverse.dropWhile (· ≠ '.') with
  | nil =>
    rw [hdrop] at h
    exact absurd rfl h
  | cons c rest =>
    have hdot : c = '.' := by
      have hhead := List.head?_dropWhile_not (· ≠ '.') name.reverse
      rw [hdrop] at hhead
      simpa using hhead
    rw [hdrop] at hsplit
    have hname := congrArg List.reverse hsplit
    rw [List.reverse_reverse] at hname
    simpa [hdot] using hname

theorem splitExtension_append {name extension : String} (hname : name ≠ "")
    (hextension : extension ≠ "") (hdot : '.' ∉ extension.toList) :
    splitExtension (name ++ "." ++ extension) = (name, "." ++ extension) := by
  have hchars : (name ++ "." ++ extension).toList = name.toList ++ '.' :: extension.toList := by
    simp
  have hstem : name.toList ≠ [] := fun h => hname (String.toList_inj.mp h)
  have htail : extension.toList ≠ [] := fun h => hextension (String.toList_inj.mp h)
  simp only [splitExtension, hchars, splitLastDot_append hdot, hstem, htail, or_self, if_false]
  refine Prod.ext ?_ ?_
  · simp
  · apply String.toList_inj.mp
    simp

theorem stem_append_suffix {name : String} (h : suffix name ≠ "") :
    stem name ++ suffix name = name ∧ stem name ≠ "" := by
  simp only [stem, suffix, splitExtension] at h ⊢
  split at h
  · exact absurd rfl h
  · next hsplit =>
    rw [not_or] at hsplit
    simp only [hsplit, or_self, if_false]
    constructor
    · apply String.toList_inj.mp
      rw [String.toList_append, String.toList_ofList, String.toList_ofList]
      exact append_splitLastDot hsplit.1
    · intro hempty
      apply hsplit.1
      simpa using congrArg String.toList hempty

/-! ## Prefixes and substrings of a name with an extension -/

theorem length_pos {name : String} (h : name ≠ "") : 0 < name.toList.length :=
  List.length_pos_of_ne_nil fun hnil => h (String.toList_inj.mp hnil)

theorem startsWith_append_iff {name extension pre : String}
    (hlength : pre.toList.length ≤ name.toList.length) :
    StartsWith (name ++ extension) pre ↔ StartsWith name pre := by
  unfold StartsWith
  rw [String.toList_append]
  constructor
  · exact fun h => List.prefix_of_prefix_length_le h (List.prefix_append _ _) hlength
  · exact fun h => h.trans (List.prefix_append _ _)

/-- An extension starts with a dot, so a name contains what the name with the extension
contains, when that has a dot at its start at most and does not occur in the extension. -/
theorem contains_append_iff {name extension sub : String} (hextension : extension.toList.head? = '.')
    (hdot : '.' ∉ sub.toList.tail) (hsub : ¬ Contains extension sub) :
    Contains (name ++ extension) sub ↔ Contains name sub := by
  unfold Contains at hsub ⊢
  rw [String.toList_append]
  generalize name.toList = u, extension.toList = v, sub.toList = w at hextension hdot hsub ⊢
  constructor
  · rintro ⟨s, t, heq⟩
    rcases List.append_eq_append_iff.mp heq with ⟨rest, rfl, -⟩ | ⟨across, hacross, rfl⟩
    · exact ⟨s, rest, rfl⟩
    · rcases List.append_eq_append_iff.mp hacross with ⟨inside, rfl, rfl⟩ | ⟨gap, -, rfl⟩
      · -- the occurrence reaches from the name into the extension
        cases across with
        | nil => exact ⟨s, [], by simp⟩
        | cons c across =>
          cases inside with
          | nil => exact absurd ⟨[], t, by simp⟩ hsub
          | cons c' inside =>
            cases Option.some.inj hextension
            exact absurd (by simp) hdot
      · exact absurd ⟨gap, t, by simp⟩ hsub
  · exact fun h => h.trans (List.prefix_append _ _).isInfix

end Base.FileName
