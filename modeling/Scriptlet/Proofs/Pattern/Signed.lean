import Scriptlet.Proofs.Pattern.Recognition
import Scriptlet.Proofs.Text.Openings

/-!
# The names in a text

In a text put together from directives every sign stands before the name of one of them,
whatever follows the name.  A directive whose name is apart from all of these, so that neither
begins the other, is absent from the text.
-/

namespace Scriptlet

namespace Text

/-- Neither name begins the other one. -/
def Apart (left right : Text) : Prop :=
  ¬ left.map fold <+: right.map fold ∧ ¬ right.map fold <+: left.map fold

instance (left right : Text) : Decidable (Apart left right) :=
  inferInstanceAs (Decidable (_ ∧ _))

theorem Apart.symm {left right : Text} (apart : Apart left right) : Apart right left :=
  And.symm apart

theorem Apart.ne {left right : Text} (apart : Apart left right) : left ≠ right := by
  rintro rfl
  exact apart.1 List.prefix_rfl

/-- Every sign of a text stands before one of these names. -/
def SignedBy (names : List Text) (text : Text) : Prop :=
  ∀ tail, ('@' :: tail) <:+ text → ∃ name ∈ names, name.map fold <+: tail.map fold

instance (names : List Text) (text : Text) : Decidable (SignedBy names text) :=
  decidable_of_iff _ forall_behind_signs_iff.symm

/-- Each word of a text is read behind a sign. -/
theorem exists_suffix_of_mem_words {word text : Text} (member : word ∈ words text) :
    ∃ tail, ('@' :: tail) <:+ text ∧ word = (tail.takeWhile isLetter).map fold := by
  induction text with
  | nil => simp [words] at member
  | cons head tail induction =>
      by_cases sign : head = '@'
      · subst sign
        rw [words_cons_sign] at member
        rcases List.mem_cons.mp member with here | later
        · exact ⟨tail, List.suffix_rfl, here⟩
        · obtain ⟨behind, suffix, read⟩ := induction later
          exact ⟨behind, suffix.trans (List.suffix_cons _ tail), read⟩
      · rw [words_cons_of_ne sign] at member
        obtain ⟨behind, suffix, read⟩ := induction member
        exact ⟨behind, suffix.trans (List.suffix_cons _ tail), read⟩

namespace SignedBy

variable {names : List Text}

theorem of_unsigned {text : Text} (unsigned : '@' ∉ text) : SignedBy names text :=
  fun _ suffix => absurd (suffix.subset List.mem_cons_self) unsigned

theorem append {left right : Text} (leftSigned : SignedBy names left)
    (rightSigned : SignedBy names right) : SignedBy names (left ++ right) := by
  intro tail suffix
  rcases sign_suffix_append suffix with inRight | ⟨inside, inLeft, rfl⟩
  · exact rightSigned tail inRight
  · obtain ⟨name, listed, begins⟩ := leftSigned inside inLeft
    refine ⟨name, listed, ?_⟩
    rw [List.map_append]
    exact begins.trans (List.prefix_append _ _)

theorem flatMap {α : Type} {written : α → Text} {items : List α}
    (each : ∀ item ∈ items, SignedBy names (written item)) :
    SignedBy names (items.flatMap written) := by
  induction items with
  | nil => exact of_unsigned List.not_mem_nil
  | cons item items induction =>
      rw [List.forall_mem_cons] at each
      exact each.1.append (induction each.2)

theorem weaken {others : List Text} {text : Text} (signed : SignedBy names text)
    (within : names ⊆ others) : SignedBy others text := by
  intro tail suffix
  obtain ⟨name, listed, begins⟩ := signed tail suffix
  exact ⟨name, within listed, begins⟩

/-- A directive has the sign in front of its name only. -/
theorem of_spelled {name written further : Text} (listed : name ∈ names)
    (spelled : written.map fold = name.map fold) (unsigned : '@' ∉ written ++ further) :
    SignedBy names ('@' :: (written ++ further)) := by
  intro tail suffix
  rcases List.suffix_cons_iff.mp suffix with here | later
  · obtain ⟨-, rfl⟩ := List.cons.inj here
    refine ⟨name, listed, ?_⟩
    rw [List.map_append, spelled]
    exact List.prefix_append _ _
  · exact absurd (later.subset List.mem_cons_self) unsigned

theorem of_called {name written argument : Text} (listed : name ∈ names)
    (spelled : written.map fold = name.map fold) (unsigned : '@' ∉ written)
    (argumentUnsigned : '@' ∉ argument) : SignedBy names (called written argument) := by
  apply of_spelled listed spelled
  simp [unsigned, argumentUnsigned]

theorem of_bare {name written : Text} (listed : name ∈ names)
    (spelled : written.map fold = name.map fold) (unsigned : '@' ∉ written) :
    SignedBy names ('@' :: written) := by
  have signed : SignedBy names ('@' :: (written ++ [])) :=
    of_spelled listed spelled (by rwa [List.append_nil])
  rwa [List.append_nil] at signed

/-- A name of letters that is apart from the names of a text begins none of its words. -/
theorem not_prefix_of_mem_words {name text : Text} (signed : SignedBy names text)
    (apart : ∀ own ∈ names, Apart name own) :
    ∀ word ∈ words text, ¬ name.map fold <+: word := by
  intro word member begins
  obtain ⟨tail, suffix, rfl⟩ := exists_suffix_of_mem_words member
  obtain ⟨own, listed, ownBegins⟩ := signed tail suffix
  have inTail : name.map fold <+: tail.map fold :=
    begins.trans ((List.takeWhile_prefix isLetter).map fold)
  rcases List.prefix_or_prefix_of_prefix inTail ownBegins with shorter | longer
  · exact (apart own listed).1 shorter
  · exact (apart own listed).2 longer

/-- A directive is absent, whatever follows, if its name is apart from those of the text. -/
theorem absent {α : Type} {name text : Text} {pattern : Pattern '@' α}
    (signed : SignedBy names text) (named : Pattern.Named name pattern)
    (apart : ∀ own ∈ names, Apart name own) (rest : Text) : pattern.Absent text rest := by
  apply named.absent
  intro tail suffix begins
  obtain ⟨own, listed, ownBegins⟩ := signed tail suffix
  rw [List.map_append] at begins
  rcases List.prefix_or_prefix_of_prefix begins
      (ownBegins.trans (List.prefix_append _ _)) with shorter | longer
  · exact (apart own listed).1 shorter
  · exact (apart own listed).2 longer

end SignedBy

end Text

end Scriptlet
