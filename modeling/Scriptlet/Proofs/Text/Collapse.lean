import Mathlib.Data.List.Chain
import Scriptlet.Proofs.Text.Tight

/-!
# Collapsed white space

A text and its collapsed form run side by side: a visible character stands in both, and a
run of blanks that no further blank follows stands for one space.  There is one collapsed
form of every text, and `collapseBlanks` computes it.  Its characters other than blanks are
those of the text, and it ends in blanks only where the text does.
-/

namespace Scriptlet.Text

/-- The second text is the first one with every maximal run of blanks replaced by a space. -/
inductive Collapsed : Text → Text → Prop where
  | nil : Collapsed [] []
  | visible {character : Char} {rest short : Text} (solid : isBlank character = false)
      (collapsed : Collapsed rest short) : Collapsed (character :: rest) (character :: short)
  | run {blanks rest short : Text} (nonempty : blanks ≠ [])
      (blank : ∀ character ∈ blanks, isBlank character = true)
      (maximal : startsBlank rest = false) (collapsed : Collapsed rest short) :
      Collapsed (blanks ++ rest) (' ' :: short)

theorem isBlank_space : isBlank ' ' = true := by
  decide

theorem startsBlank_eq_false_iff {text : Text} :
    startsBlank text = false ↔ ∀ character ∈ text.head?, isBlank character = false := by
  cases text <;> simp [startsBlank]

/-- Whether a text ends with a blank, where it has an end. -/
def endBlank? (text : Text) : Option Bool :=
  text.getLast?.map isBlank

theorem endBlank?_append (left right : Text) :
    endBlank? (left ++ right) = (endBlank? right).or (endBlank? left) := by
  rw [endBlank?, List.getLast?_append, Option.map_or, endBlank?, endBlank?]

theorem endBlank?_cons (head : Char) (tail : Text) :
    endBlank? (head :: tail) = (endBlank? tail).or (some (isBlank head)) :=
  endBlank?_append [head] tail

theorem collapseBlanks_cons_of_visible {character : Char} (solid : isBlank character = false)
    (rest : Text) : collapseBlanks (character :: rest) = character :: collapseBlanks rest := by
  simp [collapseBlanks, solid]

theorem collapseBlanks_run {blanks rest : Text} (nonempty : blanks ≠ [])
    (blank : ∀ character ∈ blanks, isBlank character = true)
    (maximal : startsBlank rest = false) :
    collapseBlanks (blanks ++ rest) = ' ' :: collapseBlanks rest := by
  induction blanks with
  | nil => exact absurd rfl nonempty
  | cons head others induction =>
      obtain ⟨headBlank, othersBlank⟩ := List.forall_mem_cons.mp blank
      cases others with
      | nil => simp [collapseBlanks, headBlank, maximal]
      | cons next further =>
          have goesOn : startsBlank (next :: further ++ rest) = true :=
            othersBlank next List.mem_cons_self
          rw [List.cons_append, collapseBlanks, if_pos headBlank, if_pos goesOn]
          exact induction (List.cons_ne_nil _ _) othersBlank

namespace Collapsed

variable {text short : Text}

/-- One more blank in front belongs to the run that a text begins with. -/
theorem lengthen {head : Char} (headBlank : isBlank head = true) (starts : startsBlank text = true)
    (collapsed : Collapsed text short) : Collapsed (head :: text) short := by
  cases collapsed with
  | nil => cases starts
  | visible solid _ =>
      rw [startsBlank, solid] at starts
      cases starts
  | @run blanks rest short nonempty blank maximal collapsed =>
      have longer : ∀ character ∈ head :: blanks, isBlank character = true :=
        List.forall_mem_cons.mpr ⟨headBlank, blank⟩
      exact run (List.cons_ne_nil _ _) longer maximal collapsed

theorem eq_collapseBlanks (collapsed : Collapsed text short) : short = collapseBlanks text := by
  induction collapsed with
  | nil => rfl
  | visible solid _ induction => rw [collapseBlanks_cons_of_visible solid, induction]
  | run nonempty blank maximal _ induction =>
      rw [collapseBlanks_run nonempty blank maximal, induction]

/-- Both texts begin with a blank, or neither of them does. -/
theorem startsBlank_eq (collapsed : Collapsed text short) :
    startsBlank short = startsBlank text := by
  cases collapsed with
  | nil => rfl
  | visible _ _ => rfl
  | run nonempty blank _ _ =>
      obtain ⟨head, others, rfl⟩ := List.exists_cons_of_ne_nil nonempty
      exact isBlank_space.trans (blank head List.mem_cons_self).symm

/-- Both texts end with a blank, or neither of them does. -/
theorem endBlank?_eq (collapsed : Collapsed text short) : endBlank? short = endBlank? text := by
  induction collapsed with
  | nil => rfl
  | visible _ _ induction => rw [endBlank?_cons, endBlank?_cons, induction]
  | @run blanks rest short nonempty blank _ _ induction =>
      have ends : endBlank? blanks = some true := by
        rw [endBlank?, List.getLast?_eq_some_getLast nonempty, Option.map_some,
          blank _ (List.getLast_mem nonempty)]
      rw [endBlank?_cons, endBlank?_append, ends, isBlank_space, induction]

/-- The characters other than blanks are the same. -/
theorem filter_visible (collapsed : Collapsed text short) :
    short.filter (!isBlank ·) = text.filter (!isBlank ·) := by
  induction collapsed with
  | nil => rfl
  | visible solid _ induction => simp [solid, induction]
  | @run blanks rest short _ blank _ _ induction =>
      have dropped : blanks.filter (!isBlank ·) = [] :=
        List.filter_eq_nil_iff.mpr fun character member => by simp [blank character member]
      rw [List.filter_append, dropped, List.nil_append, ← induction]
      simp [isBlank_space]

theorem spaces (collapsed : Collapsed text short) :
    ∀ character ∈ short, isBlank character = true → character = ' ' := by
  induction collapsed with
  | nil => exact fun _ member => absurd member List.not_mem_nil
  | visible solid _ induction =>
      refine List.forall_mem_cons.mpr ⟨fun blank => ?_, induction⟩
      rw [solid] at blank
      cases blank
  | run _ _ _ _ induction => exact List.forall_mem_cons.mpr ⟨fun _ => rfl, induction⟩

/-- Behind a blank of the collapsed text comes a visible character. -/
theorem apart (collapsed : Collapsed text short) :
    short.IsChain fun before after => isBlank before = true → isBlank after = false := by
  induction collapsed with
  | nil => exact .nil
  | visible solid _ induction =>
      refine List.isChain_cons.mpr ⟨fun after _ blank => ?_, induction⟩
      rw [solid] at blank
      cases blank
  | @run blanks rest short _ _ maximal collapsed induction =>
      -- the run was maximal, so what follows it begins with something visible
      refine List.isChain_cons.mpr ⟨fun after next _ => ?_, induction⟩
      have begins := collapsed.startsBlank_eq.trans maximal
      exact startsBlank_eq_false_iff.mp begins after next

end Collapsed

theorem collapsed_collapseBlanks (text : Text) : Collapsed text (collapseBlanks text) := by
  induction text with
  | nil => exact .nil
  | cons head tail induction =>
      rw [collapseBlanks]
      by_cases headBlank : isBlank head = true
      · rw [if_pos headBlank]
        by_cases starts : startsBlank tail = true
        · rw [if_pos starts]
          exact induction.lengthen headBlank starts
        · rw [if_neg starts]
          exact .run (List.cons_ne_nil head []) (by simpa using headBlank)
            (Bool.eq_false_iff.mpr starts) induction
      · rw [if_neg headBlank]
        exact .visible (Bool.eq_false_iff.mpr headBlank) induction

/-- A text without blanks at its ends, where every blank is a space that stands alone. -/
structure Tidy (text : Text) : Prop where
  spaces : ∀ character ∈ text, isBlank character = true → character = ' '
  apart : text.IsChain fun before after => isBlank before = true → isBlank after = false
  first : ∀ character ∈ text.head?, isBlank character = false
  last : ∀ character ∈ text.getLast?, isBlank character = false

theorem Tidy.nil : Tidy [] where
  spaces := fun _ member => absurd member List.not_mem_nil
  apart := .nil
  first := fun _ member => by cases member
  last := fun _ member => by cases member

/-- A text is its own collapsed form where its blanks are spaces that stand alone. -/
theorem collapsed_self {text : Text}
    (spaces : ∀ character ∈ text, isBlank character = true → character = ' ')
    (apart : text.IsChain fun before after => isBlank before = true → isBlank after = false) :
    Collapsed text text := by
  induction text with
  | nil => exact .nil
  | cons head tail induction =>
      obtain ⟨headSpace, tailSpaces⟩ := List.forall_mem_cons.mp spaces
      obtain ⟨next, tailApart⟩ := List.isChain_cons.mp apart
      have rest := induction tailSpaces tailApart
      cases solid : isBlank head with
      | false => exact .visible solid rest
      | true =>
          obtain rfl := headSpace solid
          exact .run (List.cons_ne_nil ' ' []) (by simp [isBlank_space])
            (startsBlank_eq_false_iff.mpr fun after begins => next after begins solid) rest

theorem Tidy.collapseBlanks_eq {text : Text} (tidy : Tidy text) : collapseBlanks text = text :=
  (collapsed_self tidy.spaces tidy.apart).eq_collapseBlanks.symm

/-- Collapsing a trimmed text leaves a tidy one. -/
theorem Collapsed.tidy {text short : Text} (collapsed : Collapsed text short)
    (trimmed : Trimmed text) : Tidy short := by
  by_cases empty : text = []
  · subst empty
    rw [collapsed.eq_collapseBlanks]
    exact .nil
  · have tight := trimmed.tight empty
    constructor
    case spaces => exact collapsed.spaces
    case apart => exact collapsed.apart
    case first =>
      obtain ⟨character, ⟨others, rfl⟩, solid⟩ := tight.first
      exact startsBlank_eq_false_iff.mp (collapsed.startsBlank_eq.trans solid)
    case last =>
      obtain ⟨visible, ⟨others, rfl⟩, solid⟩ := tight.last
      intro character ends
      have same := collapsed.endBlank?_eq
      rw [endBlank?_append, endBlank?, ends] at same
      simpa [endBlank?, solid] using same

end Scriptlet.Text
