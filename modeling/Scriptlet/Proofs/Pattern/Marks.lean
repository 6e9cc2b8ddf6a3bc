import Scriptlet.Proofs.Pattern.Recognition
import Scriptlet.Proofs.Text.Openings
import Scriptlet.Proofs.Text.Quiet

/-!
# Marks

Comments and echoes are found between an opening and a closing mark.  They are absent
from quiet texts.
-/

namespace Scriptlet

theorem Scan.literal_run? (characters rest : Text) :
    (Scan.literal characters).run? (characters ++ rest) = some ⟨characters, (), rest⟩ := by
  induction characters with
  | nil => rfl
  | cons character characters induction =>
      have first := Scan.exactly_run? character (characters ++ rest)
      have both := Scan.andThen_run? first induction
      simp [Scan.literal, Scan.map, both]

theorem Scan.written_of_exactly {character : Char} {text : Text} {found : Found Unit}
    (recognised : (Scan.exactly character).run? text = some found) :
    found.written = [character] := by
  cases text with
  | nil => simp [Scan.exactly] at recognised
  | cons other tail =>
      simp only [Scan.exactly] at recognised
      split at recognised
      · rename_i same
        cases recognised
        rw [same]
      · cases recognised

theorem Scan.written_of_literal {characters text : Text} {found : Found Unit}
    (recognised : (Scan.literal characters).run? text = some found) :
    found.written = characters := by
  induction characters generalizing text found with
  | nil =>
      cases recognised
      rfl
  | cons character characters induction =>
      simp only [Scan.literal, Scan.map, Scan.andThen, Option.map_eq_some_iff,
        Option.bind_eq_some_iff] at recognised
      obtain ⟨_, ⟨head, headFound, next, nextFound, rfl⟩, rfl⟩ := recognised
      rw [Scan.written_of_exactly headFound, induction nextFound, List.singleton_append]

namespace Pattern

variable {α β : Type} {first last : Char} {others closers : Text}

theorem literal_run? (first : Char) (others rest : Text) :
    (literal first others).run? (first :: (others ++ rest)) =
      some ⟨first :: others, (), rest⟩ := by
  have head := Scan.exactly_run? first (others ++ rest)
  have both := Scan.andThen_run? head (Scan.literal_run? others rest)
  exact map_run?_eq_some.mpr ⟨_, both, rfl⟩

theorem written_of_literal {text : Text} {found : Found Unit}
    (recognised : (literal first others).run? text = some found) :
    found.written = first :: others := by
  obtain ⟨_, bothFound, rfl⟩ := map_run?_eq_some.mp recognised
  obtain ⟨head, next, headFound, nextFound, rfl⟩ := andThen_run?_eq_some.mp bothFound
  have headWritten : head.written = [first] := Scan.written_of_exactly headFound
  rw [headWritten, Scan.written_of_literal nextFound, List.singleton_append]

theorem prefix_of_literal {text : Text} {found : Found Unit}
    (recognised : (literal first others).run? text = some found) :
    first :: others <+: text := by
  refine ⟨found.rest, ?_⟩
  rw [← written_of_literal recognised]
  exact ((literal first others).whole recognised).symm

def Opened (mark : Text) (pattern : Pattern first α) : Prop :=
  ∀ text found, pattern.run? text = some found → mark <+: text

theorem Opened.map {mark : Text} {pattern : Pattern first α} (opened : Opened mark pattern)
    (change : α → β) : Opened mark (pattern.map change) := by
  intro text found recognised
  obtain ⟨inner, innerFound, -⟩ := map_run?_eq_some.mp recognised
  exact opened text inner innerFound

theorem Opened.ofBetween (first : Char) (others : Text) (closing : Pattern last Unit) :
    Opened (first :: others) (between (literal first others) closing) := by
  apply Opened.map
  intro text found recognised
  obtain ⟨head, next, headFound, -, -⟩ := andThen_run?_eq_some.mp recognised
  exact prefix_of_literal headFound

theorem run?_eq_none_of_opened {mark : Text} {pattern : Pattern first α}
    (opened : Opened mark pattern) {text : Text} (apart : ¬ mark <+: text) :
    pattern.run? text = none := by
  cases recognised : pattern.run? text with
  | none => rfl
  | some found => exact absurd (opened text found recognised) apart

/-- What stands between two marks is found if the closing one is absent from it. -/
theorem between_run? {left right inside rest : Text} (leftEq : left = first :: others)
    (rightEq : right = last :: closers)
    (absent : (literal last closers).Absent inside (right ++ rest)) :
    (between (literal first others) (literal last closers)).run?
        (left ++ inside ++ right ++ rest) =
      some ⟨left ++ inside ++ right, inside, rest⟩ := by
  subst leftEq rightEq
  have opened := literal_run? first others (inside ++ last :: (closers ++ rest))
  have ended := upTo_run? (literal_run? last closers rest) absent
  have whole := andThen_run?_eq_some.mpr ⟨_, _, opened, ended, rfl⟩
  have parts : first :: others ++ inside ++ last :: closers ++ rest =
      first :: (others ++ (inside ++ last :: (closers ++ rest))) := by
    simp
  rw [parts]
  exact map_run?_eq_some.mpr ⟨_, whole, by simp⟩

/-- A literal is absent from a text that ends in a character which it does not have, if
it is nowhere else in the text. -/
theorem absent_of_not_infix {inside rest : Text} {stop : Char} (apart : stop ∉ first :: others)
    (nowhere : ¬ first :: others <:+: inside) :
    (literal first others).Absent (inside ++ [stop]) rest := by
  intro tail suffix nonempty
  cases recognised : (literal first others).run? (tail ++ rest) with
  | none => rfl
  | some found =>
      have begins := prefix_of_literal recognised
      rcases List.suffix_concat_iff.mp suffix with empty | ⟨front, rfl, frontSuffix⟩
      · exact absurd empty nonempty
      · rw [List.append_assoc, List.singleton_append] at begins
        have inFront := Text.prefix_before_stop apart begins
        exact absurd (inFront.isInfix.trans frontSuffix.isInfix) nowhere

/-- Comments and echoes are absent from quiet texts. -/
theorem absent_of_quiet {mark : String} {pattern : Pattern '\x7b' α}
    (opened : Opened mark.toList pattern) (begins : ∃ opening ∈ ["\x7b\x7b", "\x7b!!"],
      opening.toList <+: mark.toList) {text : Text} (quiet : Text.isQuiet text = true)
    (rest : Text) : pattern.Absent text rest := by
  obtain ⟨opening, listed, begins⟩ := begins
  induction text with
  | nil => exact Absent.nil
  | cons head tail induction =>
      simp only [Text.isQuiet, Bool.and_eq_true, Bool.or_eq_true, decide_eq_true_eq] at quiet
      refine Absent.cons ?_ (induction quiet.2)
      by_cases brace : head = '\x7b'
      · subst brace
        have quietTail := quiet.1.resolve_left (fun other => other rfl)
        apply run?_eq_none_of_opened opened
        intro whole
        exact Text.not_mark_prefix quietTail listed rest (begins.trans whole)
      · exact pattern.run?_eq_none_of_ne brace _

/-- What stands between two marks is written with both of them. -/
theorem written_of_between {text : Text} {found : Found Text}
    (recognised : (between (literal first others) (literal last closers)).run? text =
      some found) :
    found.written = first :: others ++ (found.captured ++ last :: closers) := by
  obtain ⟨_, bothFound, rfl⟩ := map_run?_eq_some.mp recognised
  obtain ⟨head, next, headFound, nextFound, rfl⟩ := andThen_run?_eq_some.mp bothFound
  simp only [upTo, Option.map_eq_some_iff] at nextFound
  obtain ⟨use, used, rfl⟩ := nextFound
  rw [written_of_literal headFound,
    written_of_literal ((literal last closers).run?_of_firstUse? used)]

/-- A pattern between marks is absent from a text without its opening mark, also in front
of a text that cannot close it. -/
theorem absent_between_of_unclosed {front back : Text} {closer : Char}
    (closes : closer ∈ last :: closers) (unclosed : closer ∉ back)
    (nowhere : ¬ first :: others <:+: front) :
    (between (literal first others) (literal last closers)).Absent (front ++ back) [] := by
  intro tail suffix nonempty
  rw [List.append_nil]
  cases recognised : (between (literal first others) (literal last closers)).run? tail with
  | none => rfl
  | some found =>
      have written := written_of_between recognised
      obtain ⟨before, beforeEq⟩ := suffix
      obtain ⟨closingFront, closingBack, closingEq⟩ := List.append_of_mem closes
      have whole := (between (literal first others) (literal last closers)).whole recognised
      rw [written, closingEq] at whole
      have split : front ++ back =
          before ++ (first :: others) ++ (found.captured ++ closingFront) ++
            closer :: (closingBack ++ found.rest) := by
        rw [← beforeEq, whole]
        simp
      -- the closing mark ends in front, since it has a character that is not behind
      rcases List.append_eq_append_iff.mp split with
        ⟨further, _, backEq⟩ | ⟨further, frontEq, _⟩
      · exact absurd (backEq ▸ List.mem_append_right _ List.mem_cons_self) unclosed
      · exact absurd ⟨before, found.captured ++ closingFront ++ further, by simp [frontEq]⟩ nowhere

/-- No part at the end of a mark but the whole of it begins the mark. -/
def Unbordered (mark : Text) : Prop :=
  ∀ into ∈ mark.tails, into ≠ [] → into <+: mark → into = mark

instance (mark : Text) : Decidable (Unbordered mark) :=
  inferInstanceAs (Decidable (∀ into ∈ mark.tails, _))

/-- A mark that is not in a passage does not begin in it in front of another one either. -/
theorem absent_before_mark {mark passage : Text} {pattern : Pattern first α}
    (opened : Opened mark pattern) (unbordered : Unbordered mark) (nowhere : ¬ mark <:+: passage)
    (rest : Text) : pattern.Absent passage (mark ++ rest) := by
  intro tail suffix nonempty
  apply run?_eq_none_of_opened opened
  intro begins
  rcases List.prefix_or_prefix_of_prefix begins (List.prefix_append tail _) with inside | longer
  · exact nowhere (inside.isInfix.trans suffix.isInfix)
  · obtain ⟨into, rfl⟩ := longer
    rw [List.prefix_append_right_inj] at begins
    have shorter : into <+: tail ++ into :=
      List.prefix_of_prefix_length_le begins (List.prefix_append _ rest) (by simp)
    by_cases filled : into = []
    · rw [filled, List.append_nil] at nowhere
      exact nowhere suffix.isInfix
    · have whole := unbordered into ((List.mem_tails _ _).mpr (List.suffix_append tail into))
        filled shorter
      exact nonempty (List.self_eq_append_left.mp whole)

end Pattern

end Scriptlet
