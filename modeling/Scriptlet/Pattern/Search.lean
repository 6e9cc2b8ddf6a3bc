import Scriptlet.Pattern.Basic

/-!
# Searching

The first use of a pattern in a text is its find at the earliest place where it
has one.  The search tries only the places where the pattern can begin, and builds
nothing where there is no use.
-/

namespace Scriptlet.Pattern

variable {first : Char} {α : Type}

/-- The first use of a pattern in a text that is reached after some characters:
how many characters are before it, and what is found there. -/
def firstUse? (pattern : Pattern first α) : (passed : Nat) → Text → Option (Nat × Found α)
  | _, [] => none
  | passed, head :: tail =>
      if head = first then
        match pattern.run? (head :: tail) with
        | some found => some (passed, found)
        | none => pattern.firstUse? (passed + 1) tail
      else pattern.firstUse? (passed + 1) tail

@[simp] theorem firstUse?_nil (pattern : Pattern first α) (passed : Nat) :
    pattern.firstUse? passed [] = none :=
  rfl

/-- Where the pattern is found, that is its first use. -/
theorem firstUse?_of_found (pattern : Pattern first α) {text : Text} {found : Found α}
    (recognised : pattern.run? text = some found) (passed : Nat) :
    pattern.firstUse? passed text = some (passed, found) := by
  have begins := pattern.head?_of_run? recognised
  cases text with
  | nil => simp at begins
  | cons head tail =>
      have same : head = first := by simpa using begins
      rw [firstUse?, if_pos same, recognised]

/-- Where the pattern is not found, its first use is the first one further on. -/
theorem firstUse?_of_absent (pattern : Pattern first α) {head : Char} {tail : Text}
    (absent : pattern.run? (head :: tail) = none) (passed : Nat) :
    pattern.firstUse? passed (head :: tail) = pattern.firstUse? (passed + 1) tail := by
  rw [firstUse?]
  split
  · rw [absent]
  · rfl

theorem firstUse?_succ (pattern : Pattern first α) (passed : Nat) (text : Text) :
    pattern.firstUse? (passed + 1) text =
      (pattern.firstUse? passed text).map fun use => (use.1 + 1, use.2) := by
  induction text generalizing passed with
  | nil => rfl
  | cons head tail ih =>
      cases recognised : pattern.run? (head :: tail) with
      | some found => simp [pattern.firstUse?_of_found recognised]
      | none => simp [pattern.firstUse?_of_absent recognised, ih]

/-- The text before a first use, how the use is written and what follows it are
the whole text. -/
theorem firstUse?_whole (pattern : Pattern first α) {text : Text} {use : Nat × Found α}
    (used : pattern.firstUse? 0 text = some use) :
    text = text.take use.1 ++ (use.2.written ++ use.2.rest) := by
  induction text generalizing use with
  | nil => simp at used
  | cons head tail ih =>
      cases recognised : pattern.run? (head :: tail) with
      | some found =>
          rw [pattern.firstUse?_of_found recognised] at used
          cases used
          exact pattern.whole recognised
      | none =>
          rw [pattern.firstUse?_of_absent recognised, pattern.firstUse?_succ,
            Option.map_eq_some_iff] at used
          obtain ⟨inner, innerUsed, rfl⟩ := used
          rw [List.take_succ_cons, List.cons_append, ← ih innerUsed]

/-- A first use is found behind the text before it. -/
theorem run?_of_firstUse? (pattern : Pattern first α) {text : Text} {use : Nat × Found α}
    (used : pattern.firstUse? 0 text = some use) :
    pattern.run? (text.drop use.1) = some use.2 := by
  induction text generalizing use with
  | nil => simp at used
  | cons head tail ih =>
      cases recognised : pattern.run? (head :: tail) with
      | some found =>
          rw [pattern.firstUse?_of_found recognised] at used
          cases used
          exact recognised
      | none =>
          rw [pattern.firstUse?_of_absent recognised, pattern.firstUse?_succ,
            Option.map_eq_some_iff] at used
          obtain ⟨inner, innerUsed, rfl⟩ := used
          exact ih innerUsed

/-- What follows a first use is shorter than the text. -/
theorem firstUse?_rest_shorter (pattern : Pattern first α) {passed : Nat} {text : Text}
    {use : Nat × Found α} (used : pattern.firstUse? passed text = some use) :
    use.2.rest.length < text.length := by
  induction text generalizing passed with
  | nil => simp at used
  | cons head tail ih =>
      cases recognised : pattern.run? (head :: tail) with
      | some found =>
          rw [pattern.firstUse?_of_found recognised] at used
          cases used
          exact pattern.rest_shorter recognised
      | none =>
          rw [pattern.firstUse?_of_absent recognised] at used
          exact Nat.lt_succ_of_lt (ih used)

/-- Where none of several patterns is used, each one of them is not. -/
theorem firstUse?_of_oneOf {patterns : List (Pattern first α)} {pattern : Pattern first α}
    (listed : pattern ∈ patterns) {passed : Nat} {text : Text}
    (unused : (oneOf patterns).firstUse? passed text = none) :
    pattern.firstUse? passed text = none := by
  induction text generalizing passed with
  | nil => rfl
  | cons head tail ih =>
      cases recognised : (oneOf patterns).run? (head :: tail) with
      | some found =>
          rw [(oneOf patterns).firstUse?_of_found recognised] at unused
          cases unused
      | none =>
          rw [(oneOf patterns).firstUse?_of_absent recognised] at unused
          have absent := List.findSome?_eq_none_iff.mp recognised pattern listed
          rw [pattern.firstUse?_of_absent absent]
          exact ih unused

/-- The text before the first use of a pattern, up to and with that use. -/
def upTo (ending : Pattern first α) : Scan (Text × α) where
  run? text := (ending.firstUse? 0 text).map fun use =>
    ⟨text.take use.1 ++ use.2.written, (text.take use.1, use.2.captured), use.2.rest⟩
  whole := by
    intro text found recognised
    simp only [Option.map_eq_some_iff] at recognised
    obtain ⟨use, used, rfl⟩ := recognised
    rw [List.append_assoc]
    exact ending.firstUse?_whole used

/-- A directive with an argument, and the text before the directive that ends it:
`@opening(argument) … @ending`. -/
def blockOf (opening : Pattern first α) (ending : Text) : Pattern first (α × Text) :=
  (opening.andThen (upTo (bare ending))).map fun captured => (captured.1, captured.2.1)

/-- The text between an opening mark and the first closing mark after it. -/
def between {last : Char} (opening : Pattern first Unit) (closing : Pattern last Unit) :
    Pattern first Text :=
  (opening.andThen (upTo closing)).map (·.2.1)

end Scriptlet.Pattern
