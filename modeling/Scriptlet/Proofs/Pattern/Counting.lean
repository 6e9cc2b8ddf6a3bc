import Scriptlet.Pattern.Replace
import Scriptlet.Proofs.Pattern.Named

/-!
# Counting signs

Every directive costs its text at least one sign.  A scan carries a weight if what
it captures never weighs more than the signs it was written with; the parts of a
directive then share the signs of the whole, less the one in front.
-/

namespace Scriptlet

def Text.signs (text : Text) : Nat :=
  text.count '@'

namespace Text

@[simp] theorem signs_append (left right : Text) :
    signs (left ++ right) = signs left + signs right :=
  List.count_append

theorem signs_eq_zero {text : Text} : signs text = 0 ↔ '@' ∉ text :=
  List.count_eq_zero

theorem signs_le_of_sublist {left right : Text} (sublist : left.Sublist right) :
    signs left ≤ signs right :=
  sublist.count_le '@'

end Text

variable {α β : Type}

namespace Scan

/-- Whatever is captured weighs at most as much as the signs it was written with. -/
def Carries (weight : α → Nat) (scan : Scan α) : Prop :=
  ∀ text found, scan.run? text = some found →
    weight found.captured ≤ Text.signs found.written

namespace Carries

theorem weaken {weight lighter : α → Nat} {scan : Scan α} (carries : Carries weight scan)
    (lighterThan : ∀ captured, lighter captured ≤ weight captured) :
    Carries lighter scan := by
  intro text found recognised
  exact Nat.le_trans (lighterThan found.captured) (carries text found recognised)

theorem nothing (scan : Scan α) : Carries (fun _ => 0) scan :=
  fun _ _ _ => Nat.zero_le _

theorem map {weight : β → Nat} {change : α → β} {scan : Scan α}
    (carries : Carries (fun captured => weight (change captured)) scan) :
    Carries weight (scan.map change) := by
  intro text found recognised
  simp only [Scan.map, Option.map_eq_some_iff] at recognised
  obtain ⟨inner, innerFound, rfl⟩ := recognised
  exact carries text inner innerFound

theorem andThen {first : α → Nat} {second : β → Nat} {left : Scan α} {right : Scan β}
    (leftCarries : Carries first left) (rightCarries : Carries second right) :
    Carries (fun captured => first captured.1 + second captured.2) (left.andThen right) := by
  intro text found recognised
  simp only [Scan.andThen, Option.bind_eq_some_iff, Option.map_eq_some_iff] at recognised
  obtain ⟨head, headFound, next, nextFound, rfl⟩ := recognised
  rw [Text.signs_append]
  exact Nat.add_le_add (leftCarries text head headFound)
    (rightCarries head.rest next nextFound)

theorem through (stop : Char) : Carries Text.signs (Scan.through stop) := by
  intro text found recognised
  simp only [Scan.through, Option.map_eq_some_iff] at recognised
  obtain ⟨cut, -, rfl⟩ := recognised
  rw [Text.signs_append]
  exact Nat.le_add_right _ _

theorem oneThenThrough (stop : Char) : Carries Text.signs (Scan.oneThenThrough stop) := by
  have character : Carries (fun head => Text.signs [head]) Scan.character := by
    intro text found recognised
    cases text with
    | nil => simp [Scan.character] at recognised
    | cons head tail =>
        cases recognised
        exact Nat.le_refl _
  apply map
  apply (character.andThen (through stop)).weaken
  intro captured
  exact Nat.le_of_eq (Text.signs_append [captured.1] captured.2)

end Carries

end Scan

namespace Pattern

theorem signs_pos {pattern : Pattern '@' α} {text : Text} {found : Found α}
    (recognised : pattern.run? text = some found) : 0 < Text.signs found.written := by
  have begins := pattern.starts recognised
  cases whole : found.written with
  | nil => simp [whole] at begins
  | cons head tail =>
      have sign : head = '@' := by simpa [whole] using begins
      simp [Text.signs, sign]

theorem signs_whole {first : Char} (pattern : Pattern first α) {text : Text} {found : Found α}
    (recognised : pattern.run? text = some found) :
    Text.signs text = Text.signs found.written + Text.signs found.rest := by
  rw [← Text.signs_append, ← pattern.whole recognised]

theorem map_carries {first : Char} {weight : β → Nat} {change : α → β}
    {pattern : Pattern first α}
    (carries : pattern.toScan.Carries fun captured => weight (change captured)) :
    (pattern.map change).toScan.Carries weight :=
  Scan.Carries.map carries

theorem bare_carries (name : Text) : (bare name).toScan.Carries fun _ => 1 :=
  fun _ _ recognised => signs_pos recognised

theorem withArgument_carries (name : Text) :
    (withArgument name).toScan.Carries fun argument => Text.signs argument + 1 := by
  unfold withArgument
  apply map_carries
  apply ((bare_carries name).andThen
    ((Scan.Carries.nothing (Scan.exactly '(')).andThen (Scan.Carries.through ')'))).weaken
  intro captured
  omega

theorem withSomeArgument_carries (name : Text) :
    (withSomeArgument name).toScan.Carries fun argument => Text.signs argument + 1 := by
  unfold withSomeArgument
  apply map_carries
  apply ((bare_carries name).andThen
    ((Scan.Carries.nothing (Scan.exactly '(')).andThen
      (Scan.Carries.oneThenThrough ')'))).weaken
  intro captured
  omega

theorem upTo_carries {first : Char} (ending : Pattern first α) :
    (upTo ending).Carries fun captured => Text.signs captured.1 := by
  intro text found recognised
  simp only [upTo, Option.map_eq_some_iff] at recognised
  obtain ⟨use, -, rfl⟩ := recognised
  rw [Text.signs_append]
  exact Nat.le_add_right _ _

/-- The argument and the body of a block leave a sign for the block itself. -/
theorem blockOf_carries {opening : Pattern '@' Text} (ending : Text)
    (carries : opening.toScan.Carries fun argument => Text.signs argument + 1) :
    (blockOf opening ending).toScan.Carries fun block =>
      Text.signs block.1 + Text.signs block.2 + 1 := by
  unfold blockOf
  apply map_carries
  apply (carries.andThen (upTo_carries (bare ending))).weaken
  intro captured
  simp only
  omega

theorem between_carries {first last : Char} (opening : Pattern first Unit)
    (closing : Pattern last Unit) :
    (between opening closing).toScan.Carries Text.signs := by
  unfold between
  apply map_carries
  apply ((Scan.Carries.nothing opening.toScan).andThen (upTo_carries closing)).weaken
  intro captured
  omega

/-- Replacing adds no signs if no replacement has more of them than what it
replaces. -/
theorem signs_replace_le {first : Char} (pattern : Pattern first α)
    {replacement : α → Text}
    (carries : pattern.toScan.Carries fun captured => Text.signs (replacement captured))
    (text : Text) : Text.signs (pattern.replace replacement text) ≤ Text.signs text := by
  induction text using pattern.search_induction with
  | nil => simp
  | found text found recognised induction =>
      rw [pattern.replace_of_found replacement recognised, Text.signs_append,
        pattern.signs_whole recognised]
      exact Nat.add_le_add (carries text found recognised) induction
  | absent head tail unrecognised induction =>
      have before := Text.signs_append [head] tail
      have after := Text.signs_append [head] (pattern.replace replacement tail)
      rw [List.singleton_append] at before after
      rw [pattern.replace_of_absent replacement unrecognised, before, after]
      exact Nat.add_le_add_left induction (Text.signs [head])

theorem signs_replaceEach_le {first : Char} {patterns : List (Pattern first Text)}
    (carries : ∀ pattern ∈ patterns, pattern.toScan.Carries Text.signs) (text : Text) :
    Text.signs (replaceEach patterns text) ≤ Text.signs text := by
  rw [replaceEach_eq_foldl]
  induction patterns generalizing text with
  | nil => exact Nat.le_refl _
  | cons pattern patterns induction =>
      rw [List.foldl_cons]
      have here : Text.signs (pattern.replace id text) ≤ Text.signs text :=
        signs_replace_le pattern (carries pattern List.mem_cons_self) text
      have later := induction
        (fun other member => carries other (List.mem_cons_of_mem pattern member))
        (pattern.replace id text)
      exact Nat.le_trans later here

end Pattern

end Scriptlet
