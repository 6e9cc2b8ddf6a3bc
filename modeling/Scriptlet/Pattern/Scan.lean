import Scriptlet.Text.Folding

/-!
# Scans

A scan recognises something at the front of a text.  It says how the thing was
written, what it captured and what text follows, and its law is that nothing is
lost: the written part and the rest are the whole text again.  Scans are put
together one after another, so the law has to be shown once for each small part.
-/

namespace Scriptlet

structure Found (α : Type) where
  written : Text
  captured : α
  rest : Text
deriving DecidableEq

/-- A recogniser of something at the front of a text. -/
structure Scan (α : Type) where
  run? : Text → Option (Found α)
  whole : ∀ {text found}, run? text = some found → text = found.written ++ found.rest

namespace Scan

variable {α β : Type}

def map (change : α → β) (scan : Scan α) : Scan β where
  run? text := (scan.run? text).map fun found =>
    ⟨found.written, change found.captured, found.rest⟩
  whole := by
    intro text found recognised
    simp only [Option.map_eq_some_iff] at recognised
    obtain ⟨inner, innerRecognised, rfl⟩ := recognised
    exact scan.whole innerRecognised

/-- One scan, and another one on the text that follows. -/
def andThen (first : Scan α) (second : Scan β) : Scan (α × β) where
  run? text := (first.run? text).bind fun found =>
    (second.run? found.rest).map fun next =>
      ⟨found.written ++ next.written, (found.captured, next.captured), next.rest⟩
  whole := by
    intro text found recognised
    simp only [Option.bind_eq_some_iff, Option.map_eq_some_iff] at recognised
    obtain ⟨head, headRecognised, next, nextRecognised, rfl⟩ := recognised
    rw [first.whole headRecognised, second.whole nextRecognised, List.append_assoc]

/-- The scan where it succeeds, and otherwise nothing at all. -/
def optional (scan : Scan α) : Scan (Option α) where
  run? text :=
    match scan.run? text with
    | some found => some ⟨found.written, some found.captured, found.rest⟩
    | none => some ⟨[], none, text⟩
  whole := by
    intro text found recognised
    split at recognised
    · rename_i inner innerRecognised
      cases recognised
      exact scan.whole innerRecognised
    · cases recognised
      rfl

def exactly (character : Char) : Scan Unit where
  run?
    | [] => none
    | head :: tail => if head = character then some ⟨[head], (), tail⟩ else none
  whole := by
    intro text found recognised
    cases text with
    | nil => simp at recognised
    | cons head tail =>
        simp only at recognised
        split at recognised
        · cases recognised
          rfl
        · simp at recognised

def literal : Text → Scan Unit
  | [] => ⟨fun text => some ⟨[], (), text⟩, by
      intro text found recognised
      cases recognised
      rfl⟩
  | character :: characters => ((exactly character).andThen (literal characters)).map fun _ => ()

def word (name : Text) : Scan Unit where
  run? text := (Text.cutWord? name text).map fun cut => ⟨cut.1, (), cut.2⟩
  whole := by
    intro text found recognised
    simp only [Option.map_eq_some_iff] at recognised
    obtain ⟨⟨written, rest⟩, cut, rfl⟩ := recognised
    exact (Text.cutWord?_eq_some cut).1

def character : Scan Char where
  run?
    | [] => none
    | head :: tail => some ⟨[head], head, tail⟩
  whole := by
    intro text found recognised
    cases text with
    | nil => simp at recognised
    | cons head tail =>
        cases recognised
        rfl

/-- One or more characters of a class, as many as there are. -/
def run (member : Char → Bool) : Scan Text where
  run? text :=
    if text.takeWhile member = [] then none
    else some ⟨text.takeWhile member, text.takeWhile member, text.dropWhile member⟩
  whole := by
    intro text found recognised
    split at recognised
    · simp at recognised
    · cases recognised
      exact List.takeWhile_append_dropWhile.symm

/-- The text before the first `stop`, which is recognised too and not captured. -/
def through (stop : Char) : Scan Text where
  run? text := (Text.cutAt? stop text).map fun cut => ⟨cut.1 ++ [stop], cut.1, cut.2⟩
  whole := by
    intro text found recognised
    simp only [Option.map_eq_some_iff] at recognised
    obtain ⟨⟨before, after⟩, cut, rfl⟩ := recognised
    simp [(Text.cutAt?_eq_some cut).1]

/-- One character, whatever it is, and then the text before the first `stop`. -/
def oneThenThrough (stop : Char) : Scan Text :=
  (character.andThen (through stop)).map fun captured => captured.1 :: captured.2

end Scan

end Scriptlet
