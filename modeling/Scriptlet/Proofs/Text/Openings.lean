import Mathlib.Data.List.Infix
import Scriptlet.Proofs.Text.Words

/-!
# Openings

What a directive begins with behind its sign is its opening: its name, or its name and the
parenthesis that opens an argument.  Code of directives begins and ends with a character that
stands in no opening, so putting code into a text opens nothing that was not open before.
-/

namespace Scriptlet.Text

/-- No sign of the text stands before this opening, in any letter case. -/
def Unopened (opening text : Text) : Prop :=
  ∀ tail, '@' :: tail <:+ text → ¬ opening.map fold <+: tail.map fold

/-- What is said of the text behind each sign can be checked sign by sign. -/
theorem forall_behind_signs_iff {text : Text} {property : Text → Prop} :
    (∀ tail, '@' :: tail <:+ text → property tail) ↔
      ∀ rest ∈ text.tails, rest.head? = some '@' → property rest.tail := by
  constructor
  · intro each rest listed begins
    obtain ⟨tail, rfl⟩ := List.head?_eq_some_iff.mp begins
    exact each tail ((List.mem_tails _ _).mp listed)
  · intro each tail suffix
    exact each _ ((List.mem_tails _ _).mpr suffix) rfl

instance (opening text : Text) : Decidable (Unopened opening text) :=
  decidable_of_iff _ forall_behind_signs_iff.symm

/-- Characters at which code begins and ends. -/
def edges : List Char := ['<', '>', ' ']

/-- Characters of code, of closed arguments and of marks. -/
def stops : List Char := '-' :: '\x7b' :: ')' :: edges

/-- A text that goes on over none of these characters. -/
def IsOpening (opening : Text) : Prop :=
  ∀ stop ∈ stops, stop ∉ opening.map fold

instance (opening : Text) : Decidable (IsOpening opening) :=
  inferInstanceAs (Decidable (∀ stop ∈ stops, _))

/-- A text that begins and ends like code. -/
structure Edged (text : Text) : Prop where
  first : ∃ edge ∈ edges, text.head? = some edge
  last : ∃ edge ∈ edges, text.getLast? = some edge

instance (text : Text) : Decidable (Edged text) :=
  decidable_of_iff ((∃ edge ∈ edges, text.head? = some edge) ∧
      ∃ edge ∈ edges, text.getLast? = some edge)
    ⟨fun both => ⟨both.1, both.2⟩, fun edged => ⟨edged.first, edged.last⟩⟩

/-- Where one text goes over into the other, code begins or ends. -/
def Seam (left right : Text) : Prop :=
  (∃ edge ∈ edges, right.head? = some edge) ∨ ∃ edge ∈ edges, left.getLast? = some edge

variable {opening passage inside rest left right : Text}

theorem Edged.seam_left (edged : Edged right) (left rest : Text) : Seam left (right ++ rest) := by
  obtain ⟨edge, listed, first⟩ := edged.first
  exact .inl ⟨edge, listed, by rw [List.head?_append, first, Option.some_or]⟩

theorem Edged.seam_right (edged : Edged left) (right : Text) : Seam left right :=
  .inr edged.last

theorem unopened_of_unsigned (unsigned : '@' ∉ inside) : Unopened opening inside :=
  fun _ suffix => absurd (suffix.subset List.mem_cons_self) unsigned

theorem mem_stops_of_mem {edge : Char} (listed : edge ∈ edges) : edge ∈ stops :=
  List.mem_append_right ['-', '\x7b', ')'] listed

/-- A text in front of which a word without `stop` is read has it before `stop`. -/
theorem prefix_before_stop {word : Text} {stop : Char} (apart : stop ∉ word)
    (begins : word <+: left ++ stop :: right) : word <+: left := by
  rcases List.prefix_or_prefix_of_prefix begins (List.prefix_append left (stop :: right)) with
    shorter | ⟨further, longer⟩
  · exact shorter
  · subst longer
    rw [List.prefix_append_right_inj] at begins
    cases further with
    | nil => simp
    | cons head tail =>
        have same := (List.cons_prefix_cons.mp begins).1
        simp [same] at apart

/-- An opening that a text begins with is in front of what it cannot go on with. -/
theorem prefix_of_apart (apart : ∀ head ∈ rest.head?, fold head ∉ opening.map fold)
    (begins : opening.map fold <+: (inside ++ rest).map fold) :
    opening.map fold <+: inside.map fold := by
  cases rest with
  | nil => rwa [List.append_nil] at begins
  | cons head rest =>
      rw [List.map_append, List.map_cons] at begins
      exact prefix_before_stop (apart head rfl) begins

theorem IsOpening.apart {stop : Char} (isOpening : IsOpening opening) (listed : stop ∈ stops) :
    ∀ head ∈ (stop :: rest).head?, fold head ∉ opening.map fold := by
  have unfolded : ∀ stop ∈ stops, fold stop = stop := by
    decide
  rintro head ⟨⟩
  rw [unfolded stop listed]
  exact isOpening stop listed

/-- An opening that a text begins with is in front of any stop in it. -/
theorem prefix_of_stop {stop : Char} (isOpening : IsOpening opening) (listed : stop ∈ stops)
    (begins : opening.map fold <+: (inside ++ stop :: rest).map fold) :
    opening.map fold <+: inside.map fold :=
  prefix_of_apart (isOpening.apart listed) begins

/-- An opening behind a sign does not go across a seam. -/
theorem prefix_of_seam (isOpening : IsOpening opening) (seam : Seam left right)
    (suffix : '@' :: inside <:+ left)
    (begins : opening.map fold <+: (inside ++ right).map fold) :
    opening.map fold <+: inside.map fold := by
  rcases seam with ⟨edge, listed, first⟩ | ⟨edge, listed, last⟩
  · obtain ⟨further, rfl⟩ := List.head?_eq_some_iff.mp first
    exact prefix_of_stop isOpening (mem_stops_of_mem listed) begins
  · have signEnds : ('@' :: inside).getLast? = some edge := by
      obtain ⟨before, rfl⟩ := suffix
      rwa [List.getLast?_append_of_ne_nil before (List.cons_ne_nil _ _)] at last
    obtain ⟨front, signed⟩ := List.getLast?_eq_some_iff.mp signEnds
    cases front with
    | nil =>
        cases signed
        exact absurd listed (by decide)
    | cons head front =>
        have insideEq : inside = front ++ [edge] := (List.cons.inj signed).2
        rw [insideEq, List.append_assoc, List.singleton_append] at begins
        have inFront := prefix_of_stop isOpening (mem_stops_of_mem listed) begins
        rw [insideEq, List.map_append]
        exact inFront.trans (List.prefix_append _ _)

theorem Unopened.append (isOpening : IsOpening opening) (leftUnopened : Unopened opening left)
    (rightUnopened : Unopened opening right) (seam : Seam left right) :
    Unopened opening (left ++ right) := by
  intro tail suffix begins
  rcases sign_suffix_append suffix with inRight | ⟨inside, inLeft, rfl⟩
  · exact rightUnopened tail inRight begins
  · exact leftUnopened inside inLeft (prefix_of_seam isOpening seam inLeft begins)

theorem Unopened.of_isInfix (unopened : Unopened opening left) (within : inside <:+: left) :
    Unopened opening inside := by
  obtain ⟨front, back, rfl⟩ := within
  intro tail suffix begins
  obtain ⟨before, rfl⟩ := suffix
  refine unopened (tail ++ back) ⟨front ++ before, by simp⟩ ?_
  rw [List.map_append]
  exact begins.trans (List.prefix_append _ _)

/-- A passage does not go across a place where one of the two texts has a character beside it
that the passage does not have. -/
theorem infix_of_guarded
    (guarded : (∃ head, right.head? = some head ∧ head ∉ passage) ∨
      ∃ last, left.getLast? = some last ∧ last ∉ passage)
    (within : passage <:+: left ++ right) : passage <:+: left ∨ passage <:+: right := by
  obtain ⟨before, after, whole⟩ := within
  rcases List.append_eq_append_iff.mp whole with ⟨more, leftEq, -⟩ | ⟨more, passageEq, rightEq⟩
  · exact .inl ⟨before, more, leftEq.symm⟩
  · rcases List.append_eq_append_iff.mp passageEq with ⟨into, leftEq, rfl⟩ | ⟨into, -, rfl⟩
    · cases more with
      | nil => exact .inl ⟨before, [], by simp [leftEq]⟩
      | cons head more =>
          cases inEnd : into.getLast? with
          | none =>
              rw [List.getLast?_eq_none_iff.mp inEnd, List.nil_append]
              exact .inr ⟨[], after, rightEq.symm⟩
          | some last =>
              rcases guarded with ⟨guard, first, other⟩ | ⟨guard, ends, other⟩
              · rw [rightEq, List.cons_append, List.head?_cons, Option.some.injEq] at first
                exact absurd (first ▸ List.mem_append_right into List.mem_cons_self) other
              · rw [leftEq, List.getLast?_append, inEnd, Option.some_or, Option.some.injEq] at ends
                have member := List.mem_append_left (head :: more) (List.mem_of_getLast? inEnd)
                exact absurd (ends ▸ member) other
    · exact .inr ⟨into, after, rightEq.symm⟩

theorem infix_of_seam (plain : ∀ edge ∈ edges, edge ∉ passage) (seam : Seam left right) :
    passage <:+: left ++ right → passage <:+: left ∨ passage <:+: right := by
  apply infix_of_guarded
  rcases seam with ⟨edge, listed, first⟩ | ⟨edge, listed, last⟩
  · exact .inl ⟨edge, first, plain edge listed⟩
  · exact .inr ⟨edge, last, plain edge listed⟩

end Scriptlet.Text
