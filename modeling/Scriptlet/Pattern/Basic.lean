import Scriptlet.Pattern.Scan

/-!
# Patterns

A pattern is a scan whose finds all begin with the same character, which its type
names.  So a find is never empty, and a text can be searched for a pattern from
left to right by looking only at the places where that character stands.
-/

namespace Scriptlet

/-- A scan whose finds all begin with one character. -/
structure Pattern (first : Char) (α : Type) extends Scan α where
  starts : ∀ {text found}, run? text = some found → found.written.head? = some first

namespace Pattern

variable {first : Char} {α β : Type}

theorem written_ne_nil (pattern : Pattern first α) {text : Text} {found : Found α}
    (recognised : pattern.run? text = some found) : found.written ≠ [] := by
  intro empty
  have begins := pattern.starts recognised
  simp [empty] at begins

/-- What follows a find is shorter than the text it was found in. -/
theorem rest_shorter (pattern : Pattern first α) {text : Text} {found : Found α}
    (recognised : pattern.run? text = some found) :
    found.rest.length < text.length := by
  have written := List.length_pos_iff.mpr (pattern.written_ne_nil recognised)
  rw [pattern.whole recognised, List.length_append]
  omega

/-- A text in which a pattern is found at the front begins with its character. -/
theorem head?_of_run? (pattern : Pattern first α) {text : Text} {found : Found α}
    (recognised : pattern.run? text = some found) : text.head? = some first := by
  rw [pattern.whole recognised, List.head?_append, pattern.starts recognised]
  rfl

def map (change : α → β) (pattern : Pattern first α) : Pattern first β where
  toScan := pattern.toScan.map change
  starts := by
    intro text found recognised
    simp only [Scan.map, Option.map_eq_some_iff] at recognised
    obtain ⟨inner, innerRecognised, rfl⟩ := recognised
    exact pattern.starts innerRecognised

/-- The same pattern, capturing also how the find was written. -/
def keepingWritten (pattern : Pattern first α) : Pattern first (Text × α) where
  run? text := (pattern.run? text).map fun found =>
    ⟨found.written, (found.written, found.captured), found.rest⟩
  whole := by
    intro text found recognised
    simp only [Option.map_eq_some_iff] at recognised
    obtain ⟨inner, innerRecognised, rfl⟩ := recognised
    exact pattern.whole innerRecognised
  starts := by
    intro text found recognised
    simp only [Option.map_eq_some_iff] at recognised
    obtain ⟨inner, innerRecognised, rfl⟩ := recognised
    exact pattern.starts innerRecognised

/-- A pattern, and a scan on the text that follows. -/
def andThen (pattern : Pattern first α) (scan : Scan β) : Pattern first (α × β) where
  toScan := pattern.toScan.andThen scan
  starts := by
    intro text found recognised
    simp only [Scan.andThen, Option.bind_eq_some_iff, Option.map_eq_some_iff] at recognised
    obtain ⟨head, headRecognised, next, _, rfl⟩ := recognised
    rw [List.head?_append, pattern.starts headRecognised]
    rfl

/-- One of several patterns: of those that are found, the one that is listed
first. -/
def oneOf (patterns : List (Pattern first α)) : Pattern first α where
  run? text := patterns.findSome? fun pattern => pattern.run? text
  whole := by
    intro text found recognised
    obtain ⟨pattern, _, patternRecognised⟩ := List.exists_of_findSome?_eq_some recognised
    exact pattern.whole patternRecognised
  starts := by
    intro text found recognised
    obtain ⟨pattern, _, patternRecognised⟩ := List.exists_of_findSome?_eq_some recognised
    exact pattern.starts patternRecognised

def exactly (character : Char) : Pattern character Unit where
  toScan := Scan.exactly character
  starts := by
    intro text found recognised
    cases text with
    | nil => simp [Scan.exactly] at recognised
    | cons head tail =>
        simp only [Scan.exactly] at recognised
        split at recognised
        · rename_i same
          cases recognised
          simp [same]
        · simp at recognised

def literal (first : Char) (others : Text) : Pattern first Unit :=
  ((exactly first).andThen (Scan.literal others)).map fun _ => ()

/-- A directive written `@name`. -/
def bare (name : Text) : Pattern '@' Unit :=
  ((exactly '@').andThen (Scan.word name)).map fun _ => ()

/-- A directive written `@name(argument)`. -/
def withArgument (name : Text) : Pattern '@' Text :=
  ((bare name).andThen ((Scan.exactly '(').andThen (Scan.through ')'))).map (·.2.2)

/-- A directive written `@name(argument)` whose argument has at least one
character, which may be any. -/
def withSomeArgument (name : Text) : Pattern '@' Text :=
  ((bare name).andThen ((Scan.exactly '(').andThen (Scan.oneThenThrough ')'))).map (·.2.2)

/-- A directive written `@name(key,value)`, whose key has no comma. -/
def withKeyAndValue (name : Text) : Pattern '@' (Text × Text) :=
  ((bare name).andThen
    ((Scan.exactly '(').andThen
      ((Scan.run fun character => character ≠ ',' && character ≠ ')').andThen
        ((Scan.exactly ',').andThen (Scan.oneThenThrough ')'))))).map
    fun captured => (captured.2.2.1, captured.2.2.2.2)

/-- A directive written `@name`, or `@name(argument)` where the parentheses are
complete. -/
def withOptionalArgument (name : Text) : Pattern '@' (Option Text) :=
  ((bare name).andThen
    ((Scan.exactly '(').andThen (Scan.through ')')).optional).map
    fun captured => captured.2.map (·.2)

end Pattern

end Scriptlet
