import Mathlib.Tactic.SplitIfs
import Scriptlet.Proofs.Compilation.Frames
import Scriptlet.Proofs.Text.Openings

/-!
# Sealed texts

A text is sealed if it ends no comment, certain directives are not opened in it, and the
arguments of others are closed in it before the next sign.  Then nothing goes across its end,
and putting code in the places of directives leaves it sealed.
-/

namespace Scriptlet

namespace Text

/-- What a comment ends with. -/
def commentEnd : Text := "--\x7d\x7d"

/-- A closing parenthesis comes before any of the special characters. -/
def Closes (special text : Text) : Prop :=
  text.find? (· ∈ ')' :: special) = some ')'

instance (special text : Text) : Decidable (Closes special text) :=
  inferInstanceAs (Decidable (_ = _))

/-- A text without signs that ends no comment. -/
structure Calm (text : Text) : Prop where
  unsigned : '@' ∉ text
  unended : ¬ commentEnd <:+: text

instance (text : Text) : Decidable (Calm text) :=
  decidable_of_iff ('@' ∉ text ∧ ¬ commentEnd <:+: text)
    ⟨fun both => ⟨both.1, both.2⟩, fun calm => ⟨calm.unsigned, calm.unended⟩⟩

variable {special name spelled left right inside rest text : Text}

namespace Closes

theorem append (closes : Closes special left) (right : Text) : Closes special (left ++ right) := by
  rw [Closes, List.find?_append, closes, Option.some_or]

theorem of_append (closes : Closes special (left ++ right)) (open_ : ¬ Closes special right) :
    Closes special left := by
  rw [Closes, List.find?_append] at closes
  cases found : left.find? (· ∈ ')' :: special) with
  | none =>
      rw [found, Option.none_or] at closes
      exact absurd closes open_
  | some character =>
      rw [found, Option.some_or] at closes
      exact found.trans closes

/-- What stands in front of the closing parenthesis is free of the special characters. -/
theorem exists_argument (closes : Closes special text) :
    ∃ argument more, text = argument ++ ')' :: more ∧
      ∀ character ∈ ')' :: special, character ∉ argument := by
  obtain ⟨-, argument, more, whole, before⟩ := List.find?_eq_some_iff_append.mp closes
  refine ⟨argument, more, whole, fun character listed member => ?_⟩
  have other := before character member
  simp [listed] at other

end Closes

theorem not_closes_of_head {head : Char} (listed : head ∈ special) (other : head ≠ ')')
    (tail : Text) : ¬ Closes special (head :: tail) := by
  rw [Closes, List.find?_cons_of_pos (by simp [listed])]
  simpa using other

namespace Calm

theorem of_isInfix (calm : Calm text) (within : inside <:+: text) : Calm inside :=
  ⟨fun member => calm.unsigned (within.subset member),
    fun ended => calm.unended (ended.trans within)⟩

theorem append (leftCalm : Calm left) (rightCalm : Calm right)
    (guarded : (∃ head, right.head? = some head ∧ head ∉ commentEnd) ∨
      ∃ last, left.getLast? = some last ∧ last ∉ commentEnd) : Calm (left ++ right) where
  unsigned := by simp [leftCalm.unsigned, rightCalm.unsigned]
  unended := fun ended => (infix_of_guarded guarded ended).elim leftCalm.unended rightCalm.unended

/-- Brackets, quotes and the like keep a text apart from what is around it. -/
theorem between (leftCalm : Calm left) (calm : Calm text) (rightCalm : Calm right)
    (opened : ∃ last ∈ ['(', '"', ' '], left.getLast? = some last)
    (closed : ∃ head ∈ [')', '"', ' ', ':', ';'], right.head? = some head) :
    Calm (left ++ text ++ right) := by
  obtain ⟨last, lastListed, ends⟩ := opened
  obtain ⟨head, headListed, begins⟩ := closed
  have lastPlain : ∀ last ∈ ['(', '"', ' '], last ∉ commentEnd := by decide
  have headPlain : ∀ head ∈ [')', '"', ' ', ':', ';'], head ∉ commentEnd := by decide
  have inFront := leftCalm.append calm (.inr ⟨last, ends, lastPlain last lastListed⟩)
  exact inFront.append rightCalm (.inl ⟨head, begins, headPlain head headListed⟩)

end Calm

/-- Only a parenthesis folds onto one. -/
theorem eq_of_fold_eq {character : Char} (same : fold character = '(') : character = '(' := by
  unfold fold at same
  split_ifs at same with long kelvin
  · cases same
  · cases same
  · unfold Char.toLower at same
    split_ifs at same with upper
    · -- the code of a capital letter is folded onto one that is larger
      simp only [ge_iff_le, UInt32.le_iff_toNat_le] at upper
      have bounds : ('A' : Char).val.toNat = 65 ∧ ('Z' : Char).val.toNat = 90 ∧
          ('(' : Char).val.toNat = 40 ∧ ('a'.val - 'A'.val).toNat = 32 := by
        decide
      have code := congrArg (fun folded => folded.val.toNat) same
      simp only [UInt32.toNat_add] at code
      omega
    · exact same

/-- A name and a parenthesis in front of a text, in any letter case. -/
theorem exists_of_prefix (begins : (name ++ ['(']).map fold <+: text.map fold) :
    ∃ spelled rest, text = spelled ++ '(' :: rest ∧ spelled.map fold = name.map fold := by
  obtain ⟨further, whole⟩ := begins
  rw [List.map_append, List.append_assoc] at whole
  obtain ⟨spelled, behind, rfl, folded, behindEq⟩ := List.map_eq_append_iff.mp whole.symm
  cases behind with
  | nil => cases behindEq
  | cons head rest =>
      obtain ⟨same, -⟩ := List.cons.inj behindEq
      exact ⟨spelled, rest, by rw [eq_of_fold_eq same], folded⟩

/-- The parenthesis that opens an argument, if it is read before the end of a passage. -/
theorem exists_of_opened (whole : inside ++ right = spelled ++ '(' :: rest)
    (begins : (spelled ++ ['(']).map fold <+: inside.map fold) :
    ∃ between, inside = spelled ++ '(' :: between ∧ rest = between ++ right := by
  have parts : inside ++ right = (spelled ++ ['(']) ++ rest := by
    rw [whole, List.append_assoc, List.singleton_append]
  have shorter : (spelled ++ ['(']).length ≤ inside.length := by
    simpa using begins.length_le
  obtain ⟨between, rfl⟩ := List.prefix_of_prefix_length_le
    (parts ▸ List.prefix_append _ rest) (List.prefix_append inside right) shorter
  rw [List.append_assoc, List.append_right_inj] at parts
  exact ⟨between, by simp, parts.symm⟩

end Text

namespace Directive

open Text Pattern

/-- What may not come before the closing parenthesis of a call. -/
def specials : List Text := ["@", "@\x7b"]

/-- Directives with arguments, each with what may not come before the closing parenthesis, and
openings. -/
structure Regular (calls : List (Text × Text)) (unused : List Text) : Prop where
  letters : ∀ call ∈ calls, ∀ character ∈ call.1, isLetter character
  special : ∀ call ∈ calls, call.2 ∈ specials
  opening : ∀ opening ∈ unused, IsOpening opening

instance (calls : List (Text × Text)) (unused : List Text) : Decidable (Regular calls unused) :=
  decidable_of_iff ((∀ call ∈ calls, ∀ character ∈ call.1, isLetter character) ∧
      (∀ call ∈ calls, call.2 ∈ specials) ∧ ∀ opening ∈ unused, IsOpening opening)
    ⟨fun all => ⟨all.1, all.2.1, all.2.2⟩,
      fun regular => ⟨regular.letters, regular.special, regular.opening⟩⟩

/-- A text that ends no comment, in which the openings are not used, and in which the arguments
of the calls are closed. -/
structure Sealed (calls : List (Text × Text)) (unused : List Text) (text : Text) : Prop where
  unended : ¬ commentEnd <:+: text
  unopened : ∀ opening ∈ unused, Unopened opening text
  closed : ∀ call ∈ calls, ∀ spelled rest, '@' :: (spelled ++ '(' :: rest) <:+ text →
    spelled.map fold = call.1.map fold → Closes call.2 rest

variable {calls : List (Text × Text)} {unused : List Text} {name special left right text : Text}

/-- Whether the arguments of a call are closed can be checked sign by sign. -/
private theorem closed_iff :
    (∀ spelled rest, '@' :: (spelled ++ '(' :: rest) <:+ text →
        spelled.map fold = name.map fold → Closes special rest) ↔
      ∀ tail, '@' :: tail <:+ text → (name ++ ['(']).map fold <+: tail.map fold →
        Closes special (tail.drop (name.length + 1)) := by
  have behind : ∀ {spelled : Text} (rest : Text), spelled.map fold = name.map fold →
      (spelled ++ '(' :: rest).drop (name.length + 1) = rest := by
    intro spelled rest folded
    have lengths := congrArg List.length folded
    rw [List.length_map, List.length_map] at lengths
    rw [← lengths, ← List.drop_drop, List.drop_left]
    rfl
  constructor
  · intro closed tail suffix begins
    obtain ⟨spelled, rest, rfl, folded⟩ := exists_of_prefix begins
    rw [behind rest folded]
    exact closed spelled rest suffix folded
  · intro closed spelled rest suffix folded
    rw [← behind rest folded]
    refine closed _ suffix ?_
    rw [List.map_append, List.map_append, folded]
    exact (List.prefix_append_right_inj _).mpr ⟨rest.map fold, rfl⟩

instance (calls : List (Text × Text)) (unused : List Text) (text : Text) :
    Decidable (Sealed calls unused text) :=
  have : ∀ call : Text × Text, Decidable (∀ spelled rest,
      '@' :: (spelled ++ '(' :: rest) <:+ text → spelled.map fold = call.1.map fold →
        Closes call.2 rest) := fun _ =>
    decidable_of_iff _ (closed_iff.trans forall_behind_signs_iff).symm
  decidable_of_iff (¬ commentEnd <:+: text ∧ (∀ opening ∈ unused, Unopened opening text) ∧
      ∀ call ∈ calls, ∀ spelled rest, '@' :: (spelled ++ '(' :: rest) <:+ text →
        spelled.map fold = call.1.map fold → Closes call.2 rest)
    ⟨fun all => ⟨all.1, all.2.1, all.2.2⟩,
      fun parts => ⟨parts.unended, parts.unopened, parts.closed⟩⟩

theorem isOpening_of_letters (letters : ∀ character ∈ name, isLetter character) :
    IsOpening name := by
  have others : ∀ stop ∈ stops, fold stop = stop ∧ isLetter stop = false := by
    decide
  intro stop listed member
  obtain ⟨folded, other⟩ := others stop listed
  obtain ⟨character, inside, same⟩ := List.mem_map.mp member
  rw [← folded] at same
  rw [← isLetter_congr same, letters character inside] at other
  cases other

theorem isOpening_call (isOpening : IsOpening name) : IsOpening (name ++ ['(']) := by
  have others : ∀ stop ∈ stops, stop ≠ '(' := by
    decide
  intro stop listed member
  rw [List.map_append, List.mem_append] at member
  rcases member with inName | last
  · exact isOpening stop listed inName
  · exact others stop listed (List.mem_singleton.mp last)

/-- What stands around a sealed text: places in front of it, and others behind it, after a
dash. -/
structure Setting (front back : Text) : Prop where
  frontSigned : SignedBy ["yield"] front
  backSigned : SignedBy ["yield"] back
  dash : ∀ head ∈ back.head?, head = '-'

namespace Setting

variable {front back opening : Text}

theorem nil : Setting [] [] :=
  ⟨SignedBy.of_unsigned List.not_mem_nil, SignedBy.of_unsigned List.not_mem_nil, nofun⟩

/-- No opening goes on behind the text. -/
theorem apart (setting : Setting front back) (isOpening : IsOpening opening) :
    ∀ head ∈ back.head?, fold head ∉ opening.map fold := by
  intro head first
  obtain rfl := setting.dash head first
  exact isOpening '-' List.mem_cons_self

end Setting

/-- The code of arguments without the special characters is calm. -/
def Tames (special : Text) (code : Text → Text) : Prop :=
  ∀ argument, (∀ character ∈ ')' :: special, character ∉ argument) →
    ¬ commentEnd <:+: argument → Edged (code argument) ∧ Calm (code argument)

namespace Sealed

theorem of_suffix (isSealed : Sealed calls unused text) (suffix : left <:+ text) :
    Sealed calls unused left where
  unended := fun ended => isSealed.unended (ended.trans suffix.isInfix)
  unopened := fun opening listed =>
    (isSealed.unopened opening listed).of_isInfix suffix.isInfix
  closed := fun call listed spelled rest behind =>
    isSealed.closed call listed spelled rest (behind.trans suffix)

/-- What stands in front of a text that closes no argument. -/
theorem of_append (isSealed : Sealed calls unused (left ++ right))
    (unclosed : ∀ call ∈ calls, ¬ Closes call.2 right) : Sealed calls unused left where
  unended := fun ended => isSealed.unended (ended.trans (List.prefix_append left right).isInfix)
  unopened := fun opening listed =>
    (isSealed.unopened opening listed).of_isInfix (List.prefix_append left right).isInfix
  closed := by
    intro call listed spelled rest ⟨before, leftEq⟩ folded
    have suffix : '@' :: (spelled ++ '(' :: (rest ++ right)) <:+ left ++ right :=
      ⟨before, by rw [← leftEq]; simp⟩
    exact (isSealed.closed call listed spelled _ suffix folded).of_append (unclosed call listed)

theorem of_calm (calm : Calm text) : Sealed calls unused text where
  unended := calm.unended
  unopened := fun _ _ => unopened_of_unsigned calm.unsigned
  closed := fun _ _ _ _ suffix => absurd (suffix.subset List.mem_cons_self) calm.unsigned

/-- Fewer calls, and calls whose names are not used with an argument. -/
theorem weaken {others : List (Text × Text)} {fewer : List Text}
    (isSealed : Sealed calls unused text) (within : fewer ⊆ unused)
    (known : ∀ call ∈ others, call ∈ calls ∨ call.1 ++ ['('] ∈ unused) :
    Sealed others fewer text where
  unended := isSealed.unended
  unopened := fun opening listed => isSealed.unopened opening (within listed)
  closed := by
    intro call listed spelled rest suffix folded
    rcases known call listed with same | never
    · exact isSealed.closed call same spelled rest suffix folded
    · refine absurd ?_ (isSealed.unopened _ never _ suffix)
      rw [List.map_append, List.map_append, folded]
      exact (List.prefix_append_right_inj _).mpr ⟨rest.map fold, rfl⟩

theorem mono {fewer : List Text} (isSealed : Sealed calls unused text) (within : fewer ⊆ unused) :
    Sealed calls fewer text :=
  isSealed.weaken within fun _ listed => .inl listed

theorem append (regular : Regular calls unused) (leftSealed : Sealed calls unused left)
    (rightSealed : Sealed calls unused right) (seam : Seam left right) :
    Sealed calls unused (left ++ right) where
  unended := fun ended => (infix_of_seam (by decide) seam ended).elim leftSealed.unended
    rightSealed.unended
  unopened := fun opening listed => (leftSealed.unopened opening listed).append
    (regular.opening opening listed) (rightSealed.unopened opening listed) seam
  closed := by
    intro call listed spelled rest suffix folded
    rcases sign_suffix_append suffix with inRight | ⟨inside, inLeft, whole⟩
    · exact rightSealed.closed call listed spelled rest inRight folded
    · have isOpening : IsOpening (spelled ++ ['(']) :=
        isOpening_call
          (isOpening_of_letters (isLetter_of_map_fold_eq folded (regular.letters call listed)))
      have begins : (spelled ++ ['(']).map fold <+: (inside ++ right).map fold := by
        rw [← whole, List.map_append, List.map_append]
        exact (List.prefix_append_right_inj _).mpr ⟨rest.map fold, rfl⟩
      obtain ⟨between, rfl, rfl⟩ :=
        exists_of_opened whole.symm (prefix_of_seam isOpening seam inLeft begins)
      exact (leftSealed.closed call listed spelled between inLeft folded).append right

/-- In front of a sign, no argument is open. -/
theorem before_sign (regular : Regular calls unused)
    (isSealed : Sealed calls unused (left ++ '@' :: right)) : Sealed calls unused left := by
  have signed : ∀ special ∈ specials, '@' ∈ special := by decide
  exact isSealed.of_append fun call listed =>
    not_closes_of_head (signed _ (regular.special call listed)) (by decide) right

theorem trim (isSealed : Sealed calls unused text) :
    Sealed calls unused (trim text) := by
  obtain ⟨front, back, whole, -, blank⟩ := trimBy_parts isBlank text
  have behind : Sealed calls unused (Text.trim text ++ back) :=
    isSealed.of_suffix ⟨front, whole.symm⟩
  refine behind.of_append fun call listed closes => ?_
  have member := List.mem_of_find?_eq_some closes
  have solid : isBlank ')' = false := by decide
  rw [blank _ member] at solid
  cases solid

/-- Sealed code in the places of finds keeps a text sealed. -/
theorem replace {first : Char} {α : Type} {pattern : Pattern first α} {replacement : α → Text}
    (regular : Regular calls unused) (cut : first = '@' ∨ calls = [])
    (isSealed : Sealed calls unused text)
    (each : ∀ tail found, tail <:+ text → pattern.run? tail = some found →
      Sealed calls unused (replacement found.captured) ∧ Edged (replacement found.captured)) :
    Sealed calls unused (pattern.replace replacement text) := by
  fun_induction uses pattern text with
  | case1 text unfound =>
      rwa [pattern.replace_of_firstUse?_none replacement unfound]
  | case2 text use used shorter induction =>
      have recognised := pattern.run?_of_firstUse? used
      have whole := pattern.firstUse?_whole used
      have behind : use.2.rest <:+ text := ⟨text.take use.1 ++ use.2.written, by
        rw [List.append_assoc]; exact whole.symm⟩
      obtain ⟨code, edged⟩ := each _ _ (List.drop_suffix use.1 text) recognised
      -- a use begins with a sign, so no argument is open where it begins
      have front : Sealed calls unused (text.take use.1) := by
        rw [whole] at isSealed
        rcases cut with rfl | rfl
        · obtain ⟨written, writtenEq⟩ := List.head?_eq_some_iff.mp (pattern.starts recognised)
          rw [writtenEq, List.cons_append] at isSealed
          exact isSealed.before_sign regular
        · exact isSealed.of_append fun _ listed => absurd listed List.not_mem_nil
      have further := induction (isSealed.of_suffix behind)
        fun tail found suffix => each tail found (suffix.trans behind)
      rw [pattern.replace_of_firstUse?_some replacement used]
      exact front.append regular (code.append regular further (edged.seam_right _))
        (edged.seam_left _ _)

/-- A call that is listed is found where it is opened, whatever follows the text. -/
theorem exists_call (isSealed : Sealed calls unused text) (listed : (name, special) ∈ calls)
    {spelled rest : Text} (suffix : '@' :: (spelled ++ '(' :: rest) <:+ text)
    (folded : spelled.map fold = name.map fold) :
    ∃ argument more, rest = argument ++ ')' :: more ∧
      (∀ character ∈ ')' :: special, character ∉ argument) ∧
      ∀ back, (withArgument name).run? ('@' :: (spelled ++ '(' :: (rest ++ back))) =
        some ⟨called spelled argument, argument, more ++ back⟩ := by
  obtain ⟨argument, more, rfl, free⟩ :=
    (isSealed.closed _ listed spelled rest suffix folded).exists_argument
  refine ⟨argument, more, rfl, free, fun back => withArgument_run?_eq_some.mpr
    ⟨spelled, folded, free ')' List.mem_cons_self, rfl, ?_⟩⟩
  rw [called_append]
  simp

/-- The argument of a listed call has none of the special characters, and ends no comment. -/
theorem free_of_call (isSealed : Sealed calls unused text) (listed : (name, special) ∈ calls)
    {tail : Text} {found : Found Text} (suffix : tail <:+ text)
    (recognised : (withArgument name).run? tail = some found) :
    (∀ character ∈ ')' :: special, character ∉ found.captured) ∧
      ¬ commentEnd <:+: found.captured := by
  obtain ⟨spelled, folded, -, written, whole⟩ := withArgument_run?_eq_some.mp recognised
  rw [written, called_append] at whole
  obtain ⟨argument, more, -, free, again⟩ := isSealed.exists_call listed (whole ▸ suffix) folded
  have same := again []
  rw [List.append_nil, ← whole, recognised, Option.some.injEq] at same
  have captured : found.captured = argument := congrArg Found.captured same
  refine ⟨captured ▸ free, fun ended => isSealed.unended (ended.trans ?_)⟩
  have inside : found.captured <:+: tail :=
    ⟨'@' :: (spelled ++ ['(']), ')' :: found.rest, by rw [whole]; simp⟩
  exact inside.trans suffix.isInfix

/-- Listed calls are contained in a sealed text. -/
theorem contained (isSealed : Sealed calls unused text) (listed : (name, special) ∈ calls)
    {back : Text} (apart : ∀ head ∈ back.head?, fold head ∉ (name ++ ['(']).map fold) :
    (withArgument name).Contained text back := by
  intro tail suffix nonempty found recognised
  obtain ⟨spelled, folded, -, written, whole⟩ := withArgument_run?_eq_some.mp recognised
  rw [written, called_append] at whole
  cases tail with
  | nil => exact absurd rfl nonempty
  | cons head tail =>
      obtain ⟨rfl, behind⟩ := List.cons.inj whole
      have opened : (spelled ++ ['(']).map fold = (name ++ ['(']).map fold := by
        rw [List.map_append, List.map_append, folded]
      have begins : (spelled ++ ['(']).map fold <+: tail.map fold := by
        rw [opened]
        refine prefix_of_apart apart ?_
        rw [← opened, show tail ++ back = _ from behind, List.map_append, List.map_append]
        exact (List.prefix_append_right_inj _).mpr ⟨_, rfl⟩
      obtain ⟨between, rfl, -⟩ := exists_of_opened behind begins
      obtain ⟨argument, more, -, -, again⟩ := isSealed.exists_call listed suffix folded
      have parts : '@' :: (spelled ++ '(' :: between) ++ back =
          '@' :: (spelled ++ '(' :: (between ++ back)) := by
        simp
      have same := again back
      rw [← parts, recognised, Option.some.injEq] at same
      rw [same]
      exact List.suffix_append more back

/-- Where a listed call is not found, it is not opened. -/
theorem unopened_of_absent {passage rest : Text} (isSealed : Sealed calls unused (passage ++ rest))
    (listed : (name, special) ∈ calls) (absent : (withArgument name).Absent passage rest) :
    Unopened (name ++ ['(']) passage := by
  rintro tail ⟨before, rfl⟩ begins
  obtain ⟨spelled, further, rfl, folded⟩ := exists_of_prefix begins
  have suffix : '@' :: (spelled ++ '(' :: (further ++ rest)) <:+
      before ++ '@' :: (spelled ++ '(' :: further) ++ rest := ⟨before, by simp⟩
  obtain ⟨argument, more, -, -, again⟩ := isSealed.exists_call listed suffix folded
  have none := absent _ (List.suffix_append before _) (List.cons_ne_nil _ _)
  have parts : '@' :: (spelled ++ '(' :: further) ++ rest =
      '@' :: (spelled ++ '(' :: (further ++ rest)) := by
    simp
  have found := again []
  rw [List.append_nil, ← parts, none] at found
  cases found

/-- Behind the replacement of a listed call by calm code, it is not opened. -/
theorem unopened_replace (regular : Regular calls unused) (isSealed : Sealed calls unused text)
    (listed : (name, special) ∈ calls) {code : Text → Text} (tames : Tames special code) :
    Unopened (name ++ ['(']) ((withArgument name).replace code text) := by
  have isOpening := isOpening_call (isOpening_of_letters (regular.letters _ listed))
  fun_induction uses (withArgument name) text with
  | case1 text unfound =>
      rw [(withArgument name).replace_of_firstUse?_none code unfound]
      have whole : Sealed calls unused (text ++ []) := by rwa [List.append_nil]
      exact whole.unopened_of_absent listed (absent_of_firstUse?_none unfound)
  | case2 text use used shorter induction =>
      have whole := (withArgument name).firstUse?_whole used
      have behind : use.2.rest <:+ text := ⟨text.take use.1 ++ use.2.written, by
        rw [List.append_assoc]; exact whole.symm⟩
      have free := isSealed.free_of_call listed (List.drop_suffix use.1 text)
        ((withArgument name).run?_of_firstUse? used)
      obtain ⟨edged, calm⟩ := tames use.2.captured free.1 free.2
      have front : Unopened (name ++ ['(']) (text.take use.1) := by
        apply unopened_of_absent (whole ▸ isSealed) listed
        exact absent_of_firstUse?_some used
      have further := induction (isSealed.of_suffix behind)
      rw [(withArgument name).replace_of_firstUse?_some code used]
      exact front.append isOpening ((unopened_of_unsigned calm.unsigned).append isOpening further
        (edged.seam_right _)) (edged.seam_left _ _)

end Sealed

/-- The code of an entry is calm. -/
def Entry.Tame (special : Text) : Entry → Prop
  | .argument _ code => Tames special code
  | .word _ code => Edged code ∧ Calm code

/-- The name that an entry has in front of an argument. -/
def Entry.called : Entry → List Text
  | .argument name _ => [name]
  | .word _ _ => []

/-- What entries open arguments with. -/
def openings (entries : List Entry) : List Text :=
  (entries.flatMap Entry.called).map (· ++ ['('])

/-- Entries with calm code whose calls are listed. -/
structure Seals (calls : List (Text × Text)) (special : Text) (entries : List Entry) : Prop where
  tame : ∀ entry ∈ entries, entry.Tame special
  listed : ∀ name ∈ entries.flatMap Entry.called, (name, special) ∈ calls

section Rules

variable {entry : Entry} {entries : List Entry}

theorem Regular.opened (regular : Regular calls unused) (seals : Seals calls special entries) :
    Regular calls (openings entries ++ unused) where
  letters := regular.letters
  special := regular.special
  opening := by
    rw [List.forall_mem_append]
    refine ⟨?_, regular.opening⟩
    rw [openings, List.forall_mem_map]
    exact fun name called =>
      isOpening_call (isOpening_of_letters (regular.letters _ (seals.listed name called)))

namespace Sealed

/-- The code of an entry keeps a text sealed, and the entry is not opened with an argument any
more. -/
theorem replace_rule (regular : Regular calls unused) (isSealed : Sealed calls unused text)
    (seals : Seals calls special [entry]) :
    Sealed calls (openings [entry] ++ unused) (entry.rule.replace id text) := by
  have tame := seals.tame entry List.mem_cons_self
  cases entry with
  | word name code =>
      refine isSealed.replace regular (.inl rfl) fun tail found _ recognised => ?_
      obtain ⟨inner, -, rfl⟩ := map_run?_eq_some.mp recognised
      exact ⟨of_calm tame.2, tame.1⟩
  | argument name code =>
      have listed := seals.listed name List.mem_cons_self
      have lowered : (Entry.argument name code).rule.replace id text =
          (withArgument name).replace code text :=
        replace_map _ _ _ _
      have kept : Sealed calls unused ((withArgument name).replace code text) := by
        refine isSealed.replace regular (.inl rfl) fun tail found suffix recognised => ?_
        obtain ⟨free, unended⟩ := isSealed.free_of_call listed suffix recognised
        obtain ⟨edged, calm⟩ := tame found.captured free unended
        exact ⟨of_calm calm, edged⟩
      have gone := isSealed.unopened_replace regular listed tame
      rw [lowered]
      exact ⟨kept.unended, List.forall_mem_cons.mpr ⟨gone, kept.unopened⟩, kept.closed⟩

/-- A rule works on a sealed text by itself behind a text without a use of it, and in front of
a text that its opening does not go on in. -/
theorem replace_rule_between (isSealed : Sealed calls unused text)
    (seals : Seals calls special [entry]) {front back : Text}
    (frontAbsent : entry.rule.Absent front (text ++ back))
    (apart : ∀ head ∈ back.head?, fold head ∉ entry.opening.map fold) :
    entry.rule.replace id (front ++ (text ++ back)) =
      front ++ (entry.rule.replace id text ++ entry.rule.replace id back) := by
  have inPlace : entry.rule.Local ∧ entry.rule.Contained text back := by
    cases entry with
    | argument name code =>
        have within := isSealed.contained (seals.listed name List.mem_cons_self) apart
        exact ⟨(Local.withArgument name).map _, within.map _⟩
    | word name code =>
        exact ⟨(Local.bare name).map _, (Contained.bare apart text).map _⟩
  rw [replace_append id frontAbsent, replace_append_of_contained inPlace.1 id inPlace.2]

end Sealed

theorem Seals.of_cons (seals : Seals calls special (entry :: entries)) :
    Seals calls special [entry] ∧ Seals calls special entries := by
  have tame := List.forall_mem_cons.mp seals.tame
  have listed := seals.listed
  rw [List.flatMap_cons, List.forall_mem_append] at listed
  exact ⟨⟨List.forall_mem_singleton.mpr tame.1, by simpa using listed.1⟩, tame.2, listed.2⟩

theorem Entry.isOpening (letters : ∀ character ∈ entry.name, isLetter character) :
    IsOpening entry.opening := by
  cases entry with
  | argument name code => exact isOpening_call (isOpening_of_letters letters)
  | word name code => exact isOpening_of_letters letters

/-- The rules of entries keep a text sealed, and the entries are not opened with arguments any
more.  They work in the same way between places. -/
theorem Sealed.replaceEach_rules (regular : Regular calls unused)
    (isSealed : Sealed calls unused text) (seals : Seals calls special entries)
    (letters : ∀ entry ∈ entries, ∀ character ∈ entry.name, isLetter character)
    (apart : ∀ entry ∈ entries, Apart entry.name "yield") :
    Sealed calls (openings entries ++ unused) (replaceEach (entries.map Entry.rule) text) ∧
      ∀ {front back}, Setting front back →
        replaceEach (entries.map Entry.rule) (front ++ (text ++ back)) =
          front ++ (replaceEach (entries.map Entry.rule) text ++ back) := by
  simp only [replaceEach_eq_foldl]
  induction entries generalizing unused text with
  | nil => exact ⟨isSealed, fun _ => rfl⟩
  | cons entry entries induction =>
      rw [List.forall_mem_cons] at letters apart
      obtain ⟨here, others⟩ := seals.of_cons
      have next := isSealed.replace_rule regular here
      obtain ⟨sealed, between⟩ := induction (regular.opened here) next others letters.2 apart.2
      refine ⟨sealed.mono ?_, fun setting => ?_⟩
      · intro opening listed
        simp only [openings, List.flatMap_cons, List.flatMap_nil, List.append_nil, List.map_append,
          List.mem_append] at listed ⊢
        tauto
      · have apartAll := List.forall_mem_singleton.mpr apart.1
        have step := isSealed.replace_rule_between here
          (setting.frontSigned.absent entry.rule_named apartAll _)
          (setting.apart (Entry.isOpening letters.1))
        have backAbsent := setting.backSigned.absent entry.rule_named apartAll []
        rw [replace_of_absent_text id backAbsent] at step
        rw [List.map_cons, List.foldl_cons, step, between setting]
        rfl

end Rules

end Directive

end Scriptlet
