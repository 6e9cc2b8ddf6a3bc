import Scriptlet.Proofs.Pattern.Decided

/-!
# What a find depends on

Scans read from left to right and stop as soon as they have what they look for.  So a find
depends on nothing behind it, and a text can be cut wherever no find goes across the cut: the
pieces are replaced on their own.
-/

namespace Scriptlet

variable {α β : Type}

namespace Scan

/-- What is found does not depend on what follows it. -/
def Local (scan : Scan α) : Prop :=
  ∀ ⦃text found⦄, scan.run? text = some found → ∀ rest,
    scan.run? (found.written ++ rest) = some ⟨found.written, found.captured, rest⟩

/-- All finds are equally long. -/
def Sized (size : Nat) (scan : Scan α) : Prop :=
  ∀ ⦃text found⦄, scan.run? text = some found → found.written.length = size

/-- All finds end with this character. -/
def EndsWith (stop : Char) (scan : Scan α) : Prop :=
  ∀ ⦃text found⦄, scan.run? text = some found → found.written.getLast? = some stop

theorem andThen_run?_eq_some {first : Scan α} {second : Scan β} {text : Text}
    {found : Found (α × β)} :
    (first.andThen second).run? text = some found ↔
      ∃ head next, first.run? text = some head ∧ second.run? head.rest = some next ∧
        found = ⟨head.written ++ next.written, (head.captured, next.captured), next.rest⟩ := by
  simp only [andThen, Option.bind_eq_some_iff, Option.map_eq_some_iff]
  constructor
  · rintro ⟨head, headFound, next, nextFound, rfl⟩
    exact ⟨head, next, headFound, nextFound, rfl⟩
  · rintro ⟨head, next, headFound, nextFound, rfl⟩
    exact ⟨head, headFound, next, nextFound, rfl⟩

theorem map_run?_eq_some {scan : Scan α} {change : α → β} {text : Text} {found : Found β} :
    (scan.map change).run? text = some found ↔
      ∃ inner, scan.run? text = some inner ∧
        found = ⟨inner.written, change inner.captured, inner.rest⟩ := by
  simp only [map, Option.map_eq_some_iff]
  constructor
  · rintro ⟨inner, innerFound, rfl⟩
    exact ⟨inner, innerFound, rfl⟩
  · rintro ⟨inner, innerFound, rfl⟩
    exact ⟨inner, innerFound, rfl⟩

namespace Local

theorem map {scan : Scan α} (isLocal : scan.Local) (change : α → β) :
    (scan.map change).Local := by
  intro text found recognised rest
  obtain ⟨inner, innerFound, rfl⟩ := map_run?_eq_some.mp recognised
  exact map_run?_eq_some.mpr ⟨_, isLocal innerFound rest, rfl⟩

theorem andThen {first : Scan α} {second : Scan β} (firstLocal : first.Local)
    (secondLocal : second.Local) : (first.andThen second).Local := by
  intro text found recognised rest
  obtain ⟨head, next, headFound, nextFound, rfl⟩ := andThen_run?_eq_some.mp recognised
  have headAgain := firstLocal headFound (next.written ++ rest)
  rw [← List.append_assoc] at headAgain
  exact andThen_run?_eq_some.mpr ⟨_, _, headAgain, secondLocal nextFound rest, rfl⟩

theorem exactly (character : Char) : (Scan.exactly character).Local := by
  intro text found recognised rest
  rw [written_of_exactly recognised]
  exact exactly_run? character rest

theorem character : Scan.character.Local := by
  intro text found recognised rest
  cases text with
  | nil => cases recognised
  | cons head tail =>
      cases recognised
      rfl

theorem literal (characters : Text) : (Scan.literal characters).Local := by
  intro text found recognised rest
  rw [written_of_literal recognised]
  exact literal_run? characters rest

theorem word (name : Text) : (Scan.word name).Local := by
  intro text found recognised rest
  simp only [Scan.word, Option.map_eq_some_iff] at recognised
  obtain ⟨⟨written, after⟩, cut, rfl⟩ := recognised
  simp [Scan.word, Text.cutWord?_append (Text.cutWord?_eq_some cut).2]

theorem through (stop : Char) : (Scan.through stop).Local := by
  intro text found recognised rest
  simp only [Scan.through, Option.map_eq_some_iff] at recognised
  obtain ⟨⟨before, after⟩, cut, rfl⟩ := recognised
  rw [List.append_assoc, List.singleton_append]
  exact through_run? (Text.cutAt?_eq_some cut).2 rest

theorem oneThenThrough (stop : Char) : (Scan.oneThenThrough stop).Local :=
  (character.andThen (through stop)).map _

/-- A run of characters does not depend on what follows the character that ends it. -/
theorem run_andThen {member : Char → Bool} {stop : Char} (other : member stop = false)
    {scan : Scan β} (isLocal : scan.Local)
    (starts : ∀ ⦃text found⦄, scan.run? text = some found → found.written.head? = some stop) :
    ((Scan.run member).andThen scan).Local := by
  intro text found recognised rest
  obtain ⟨head, next, headFound, nextFound, rfl⟩ := andThen_run?_eq_some.mp recognised
  have nextAgain := isLocal nextFound rest
  simp only [Scan.run] at headFound
  split at headFound
  · cases headFound
  · rename_i nonempty
    cases headFound
    obtain ⟨tail, written⟩ := List.head?_eq_some_iff.mp (starts nextFound)
    have members : ∀ character ∈ text.takeWhile member, member character = true :=
      fun _ listed => List.mem_takeWhile_imp listed
    have headAgain := run_run? nonempty members other (tail ++ rest)
    rw [← List.cons_append, ← written, ← List.append_assoc] at headAgain
    exact andThen_run?_eq_some.mpr ⟨_, _, headAgain, nextAgain, rfl⟩

end Local

namespace EndsWith

variable {stop : Char}

theorem map {scan : Scan α} (ends : scan.EndsWith stop) (change : α → β) :
    (scan.map change).EndsWith stop := by
  intro text found recognised
  obtain ⟨inner, innerFound, rfl⟩ := map_run?_eq_some.mp recognised
  exact ends innerFound

theorem andThen (first : Scan α) {second : Scan β} (ends : second.EndsWith stop) :
    (first.andThen second).EndsWith stop := by
  intro text found recognised
  obtain ⟨head, next, -, nextFound, rfl⟩ := andThen_run?_eq_some.mp recognised
  rw [List.getLast?_append, ends nextFound]
  rfl

theorem through (stop : Char) : (Scan.through stop).EndsWith stop := by
  intro text found recognised
  simp only [Scan.through, Option.map_eq_some_iff] at recognised
  obtain ⟨cut, -, rfl⟩ := recognised
  exact List.getLast?_concat

theorem oneThenThrough (stop : Char) : (Scan.oneThenThrough stop).EndsWith stop :=
  (andThen Scan.character (through stop)).map _

end EndsWith

end Scan

namespace Pattern

variable {first last : Char} {pattern : Pattern first α} {text passage rest : Text}

/-- What is found of the pattern does not depend on what follows it. -/
def Local (pattern : Pattern first α) : Prop :=
  pattern.toScan.Local

/-- All finds of the pattern end with this character. -/
def EndsWith (stop : Char) (pattern : Pattern first α) : Prop :=
  pattern.toScan.EndsWith stop

/-- All finds of the pattern are equally long. -/
def Sized (size : Nat) (pattern : Pattern first α) : Prop :=
  pattern.toScan.Sized size

theorem sized_literal (first : Char) (others : Text) :
    (literal first others).Sized (others.length + 1) := by
  intro text found recognised
  rw [written_of_literal recognised, List.length_cons]

theorem sized_bare (name : Text) : (bare name).Sized (name.length + 1) := by
  intro text found recognised
  obtain ⟨spelled, folded, written, -⟩ := bare_run?_eq_some.mp recognised
  have lengths := congrArg List.length folded
  rw [List.length_map, List.length_map] at lengths
  rw [written, List.length_cons, lengths]

namespace Local

theorem map (isLocal : pattern.Local) (change : α → β) : (pattern.map change).Local :=
  Scan.Local.map isLocal change

theorem andThen (isLocal : pattern.Local) {scan : Scan β} (scanLocal : scan.Local) :
    (pattern.andThen scan).Local :=
  Scan.Local.andThen isLocal scanLocal

theorem keepingWritten (isLocal : pattern.Local) : pattern.keepingWritten.Local := by
  intro text found recognised rest
  simp only [Pattern.keepingWritten, Option.map_eq_some_iff] at recognised
  obtain ⟨inner, innerFound, rfl⟩ := recognised
  exact keepingWritten_run? (isLocal innerFound rest)

theorem exactly (character : Char) : (exactly character).Local :=
  Scan.Local.exactly character

theorem literal (first : Char) (others : Text) : (literal first others).Local :=
  ((exactly first).andThen (Scan.Local.literal others)).map _

theorem bare (name : Text) : (bare name).Local :=
  ((exactly '@').andThen (Scan.Local.word name)).map _

theorem withArgument (name : Text) : (withArgument name).Local :=
  ((bare name).andThen ((Scan.Local.exactly '(').andThen (Scan.Local.through ')'))).map _

theorem withSomeArgument (name : Text) : (withSomeArgument name).Local :=
  ((bare name).andThen
    ((Scan.Local.exactly '(').andThen (Scan.Local.oneThenThrough ')'))).map _

theorem withKeyAndValue (name : Text) : (withKeyAndValue name).Local := by
  have value := (Scan.Local.exactly ',').andThen (Scan.Local.oneThenThrough ')')
  have keyed : ((Scan.run fun character => character ≠ ',' && character ≠ ')').andThen
      ((Scan.exactly ',').andThen (Scan.oneThenThrough ')'))).Local := by
    have other : (',' ≠ ',' && ',' ≠ ')') = false := by decide
    refine Scan.Local.run_andThen other value ?_
    intro text found recognised
    obtain ⟨comma, next, commaFound, -, rfl⟩ := Scan.andThen_run?_eq_some.mp recognised
    rw [Scan.written_of_exactly commaFound]
    rfl
  exact ((bare name).andThen ((Scan.Local.exactly '(').andThen keyed)).map _

end Local

/-- Before its first use a pattern is absent. -/
theorem absent_of_firstUse?_some {use : Nat × Found α}
    (used : pattern.firstUse? 0 text = some use) :
    pattern.Absent (text.take use.1) (use.2.written ++ use.2.rest) := by
  induction text generalizing use with
  | nil => cases used
  | cons head tail induction =>
      cases recognised : pattern.run? (head :: tail) with
      | some found =>
          rw [pattern.firstUse?_of_found recognised] at used
          cases used
          exact Absent.nil
      | none =>
          rw [pattern.firstUse?_of_absent recognised, pattern.firstUse?_succ,
            Option.map_eq_some_iff] at used
          obtain ⟨inner, innerUsed, rfl⟩ := used
          rw [List.take_succ_cons]
          refine Absent.cons ?_ (induction innerUsed)
          rwa [← pattern.firstUse?_whole innerUsed]

/-- A pattern that is absent from a passage is absent from each part of it. -/
theorem Absent.of_isInfix (isLocal : pattern.Local) (absent : pattern.Absent passage rest)
    {inner : Text} (inside : inner <:+: passage) : pattern.Absent inner [] := by
  obtain ⟨front, back, rfl⟩ := inside
  rintro tail ⟨before, rfl⟩ nonempty
  rw [List.append_nil, Option.eq_none_iff_forall_not_mem]
  intro found recognised
  have whole := pattern.whole recognised
  have again := isLocal recognised (found.rest ++ (back ++ rest))
  rw [← List.append_assoc, ← whole, ← List.append_assoc] at again
  have suffix : tail ++ back <:+ front ++ (before ++ tail) ++ back := ⟨front ++ before, by simp⟩
  have none := absent _ suffix (by simp [nonempty])
  cases none.symm.trans again

/-- A block is found as a find of its head, a text, and the first directive in the text behind
the head that ends it. -/
theorem exists_of_blockOf {ending : Text} {found : Found (α × Text)}
    (recognised : (blockOf pattern ending).run? text = some found) :
    ∃ head closing, pattern.run? text = some head ∧ found.captured.1 = head.captured ∧
      closing.map Text.fold = ending.map Text.fold ∧
      found.written = head.written ++ (found.captured.2 ++ '@' :: closing) ∧
      head.rest = found.captured.2 ++ ('@' :: closing ++ found.rest) ∧
      (bare ending).Absent found.captured.2 ('@' :: closing ++ found.rest) := by
  obtain ⟨inner, innerFound, rfl⟩ := map_run?_eq_some.mp recognised
  obtain ⟨head, next, headFound, nextFound, rfl⟩ := andThen_run?_eq_some.mp innerFound
  simp only [upTo, Option.map_eq_some_iff] at nextFound
  obtain ⟨use, used, rfl⟩ := nextFound
  obtain ⟨closing, folded, written, -⟩ :=
    bare_run?_eq_some.mp ((bare ending).run?_of_firstUse? used)
  have whole := (bare ending).firstUse?_whole used
  have absent := absent_of_firstUse?_some used
  rw [written] at whole absent
  exact ⟨head, closing, headFound, rfl, folded, by rw [← written], whole, absent⟩

/-- Without a directive that ends them, there are no blocks. -/
theorem Absent.blockOf {ending : Text} (unended : (bare ending).Absent passage []) :
    (blockOf pattern ending).Absent passage [] := by
  intro tail suffix nonempty
  rw [List.append_nil, Option.eq_none_iff_forall_not_mem]
  intro found recognised
  obtain ⟨head, closing, headFound, -, folded, -, headRest, -⟩ := exists_of_blockOf recognised
  have closes := bare_run?_of_spelled folded found.rest
  have inside : '@' :: closing ++ found.rest <:+ passage := by
    have whole := pattern.whole headFound
    rw [headRest, ← List.append_assoc] at whole
    exact List.IsSuffix.trans ⟨_, whole.symm⟩ suffix
  have none := unended _ inside (List.cons_ne_nil _ _)
  rw [List.append_nil, List.cons_append, closes] at none
  cases none

/-- A pattern whose finds are equally long is absent before one of them, whatever follows. -/
theorem Absent.before_find {size : Nat} (isLocal : pattern.Local)
    (sized : pattern.Sized size) {found : Found α}
    (recognised : pattern.run? text = some found)
    (absent : pattern.Absent passage (found.written ++ rest)) (further : Text) :
    pattern.Absent passage (found.written ++ further) := by
  intro tail suffix nonempty
  rw [Option.eq_none_iff_forall_not_mem]
  intro early earlyFound
  have whole := pattern.whole earlyFound
  rw [← List.append_assoc] at whole
  have short : early.written.length ≤ (tail ++ found.written).length := by
    rw [List.length_append, sized earlyFound, sized recognised]
    omega
  obtain ⟨between, inside⟩ := List.prefix_of_prefix_length_le
    (List.prefix_append early.written early.rest) (whole ▸ List.prefix_append _ further) short
  have again := isLocal earlyFound (between ++ rest)
  rw [← List.append_assoc, inside, List.append_assoc, absent tail suffix nonempty] at again
  cases again

namespace Local

theorem upTo {ending : Pattern last β} {size : Nat} (isLocal : ending.Local)
    (sized : ending.Sized size) : (upTo ending).Local := by
  intro text found recognised rest
  simp only [Pattern.upTo, Option.map_eq_some_iff] at recognised
  obtain ⟨use, used, rfl⟩ := recognised
  have ended := ending.run?_of_firstUse? used
  have absent := (absent_of_firstUse?_some used).before_find isLocal sized ended rest
  have again := upTo_run? (isLocal ended rest) absent
  rwa [← List.append_assoc] at again

theorem blockOf (isLocal : pattern.Local) (ending : Text) : (blockOf pattern ending).Local :=
  (isLocal.andThen ((bare ending).upTo (sized_bare ending))).map _

theorem between (first last : Char) (others closers : Text) :
    (between (Pattern.literal first others) (Pattern.literal last closers)).Local :=
  ((literal first others).andThen
    ((literal last closers).upTo (sized_literal last closers))).map _

end Local

namespace EndsWith

theorem map {stop : Char} (ends : pattern.EndsWith stop) (change : α → β) :
    (pattern.map change).EndsWith stop :=
  Scan.EndsWith.map ends change

theorem keepingWritten {stop : Char} (ends : pattern.EndsWith stop) :
    pattern.keepingWritten.EndsWith stop := by
  intro text found recognised
  simp only [Pattern.keepingWritten, Option.map_eq_some_iff] at recognised
  obtain ⟨inner, innerFound, rfl⟩ := recognised
  exact ends innerFound

theorem andThen (pattern : Pattern first α) {scan : Scan β} {stop : Char}
    (ends : scan.EndsWith stop) : (pattern.andThen scan).EndsWith stop :=
  Scan.EndsWith.andThen pattern.toScan ends

theorem withArgument (name : Text) : (withArgument name).EndsWith ')' :=
  (andThen _ (Scan.EndsWith.andThen _ (Scan.EndsWith.through ')'))).map _

theorem withSomeArgument (name : Text) : (withSomeArgument name).EndsWith ')' :=
  (andThen _ (Scan.EndsWith.andThen _ (Scan.EndsWith.oneThenThrough ')'))).map _

theorem withKeyAndValue (name : Text) : (withKeyAndValue name).EndsWith ')' :=
  (andThen _ (Scan.EndsWith.andThen _ (Scan.EndsWith.andThen _
    (Scan.EndsWith.andThen _ (Scan.EndsWith.oneThenThrough ')'))))).map _

theorem between {others closers : Text} {stop : Char}
    (last_eq : (last :: closers).getLast? = some stop) :
    (between (literal first others) (literal last closers)).EndsWith stop := by
  intro text found recognised
  rw [written_of_between recognised, ← List.append_assoc, List.getLast?_append, last_eq]
  rfl

end EndsWith

/-- What is found at a place of the passage, read on into the rest, ends before the rest. -/
def Contained (pattern : Pattern first α) (passage rest : Text) : Prop :=
  ∀ tail, tail <:+ passage → tail ≠ [] → ∀ found, pattern.run? (tail ++ rest) = some found →
    rest <:+ found.rest

namespace Contained

theorem map (contained : pattern.Contained passage rest) (change : α → β) :
    (pattern.map change).Contained passage rest := by
  intro tail suffix nonempty found recognised
  obtain ⟨inner, innerFound, rfl⟩ := map_run?_eq_some.mp recognised
  exact contained tail suffix nonempty inner innerFound

theorem of_suffix {tail : Text} (contained : pattern.Contained passage rest)
    (suffix : tail <:+ passage) : pattern.Contained tail rest :=
  fun further inTail => contained further (inTail.trans suffix)

/-- Finds are contained if none of them can go on with a beginning of the rest. -/
theorem of_apart (apart : ∀ text found before into, pattern.run? text = some found →
      found.written = before ++ into → before ≠ [] → into <+: rest → into = [])
    (passage : Text) : pattern.Contained passage rest := by
  intro tail _ nonempty found recognised
  have whole := pattern.whole recognised
  rcases List.append_eq_append_iff.mp whole with ⟨into, written, restEq⟩ | ⟨further, _, restEq⟩
  · have none : into = [] := apart _ _ tail into recognised written nonempty
      (restEq ▸ List.prefix_append into found.rest)
    rw [restEq, none]
    exact List.suffix_rfl
  · exact restEq ▸ List.suffix_append further rest

/-- Finds that end with a character are contained before a text without it. -/
theorem of_last {stop : Char} (ends : pattern.EndsWith stop) (unstopped : stop ∉ rest)
    (passage : Text) : pattern.Contained passage rest := by
  apply of_apart
  intro text found before into recognised written nonempty begins
  have last := ends recognised
  rw [written, List.getLast?_append] at last
  cases inEnd : into.getLast? with
  | none => exact List.getLast?_eq_none_iff.mp inEnd
  | some character =>
      rw [inEnd, Option.some_or, Option.some.injEq] at last
      have inRest := begins.subset (List.mem_of_getLast? inEnd)
      exact absurd (last ▸ inRest) unstopped

/-- A name is contained before a text that begins with none of its characters. -/
theorem bare {name : Text} (apart : ∀ head ∈ rest.head?, Text.fold head ∉ name.map Text.fold)
    (passage : Text) : (bare name).Contained passage rest := by
  apply of_apart
  intro text found before into recognised written nonempty begins
  obtain ⟨spelled, folded, writtenEq, -⟩ := bare_run?_eq_some.mp recognised
  rw [writtenEq] at written
  cases into with
  | nil => rfl
  | cons head others =>
      cases before with
      | nil => exact absurd rfl nonempty
      | cons sign before =>
          obtain ⟨-, inside⟩ := List.cons.inj written
          have member : Text.fold head ∈ spelled.map Text.fold := by
            apply List.mem_map_of_mem
            rw [inside]
            exact List.mem_append_right before List.mem_cons_self
          rw [folded] at member
          have first : head ∈ rest.head? := by
            obtain ⟨further, rfl⟩ := begins
            rfl
          exact absurd member (apart head first)

/-- Where a pattern is not found, it is not found with a rest either that contained finds do not
reach. -/
theorem run?_eq_none (contained : pattern.Contained passage rest) (isLocal : pattern.Local)
    {head : Char} {tail : Text} (suffix : head :: tail <:+ passage)
    (absent : pattern.run? (head :: tail) = none) :
    pattern.run? (head :: (tail ++ rest)) = none := by
  cases recognised : pattern.run? (head :: (tail ++ rest)) with
  | none => rfl
  | some found =>
      obtain ⟨further, restEq⟩ := contained _ suffix (List.cons_ne_nil head tail) found recognised
      have whole := pattern.whole recognised
      rw [← restEq, ← List.append_assoc, ← List.cons_append, List.append_left_inj] at whole
      have here := isLocal recognised further
      rw [← whole, absent] at here
      cases here

/-- A block is contained before a text that holds no directive which ends it, and begins with
no character of that directive's name. -/
theorem blockOf {ending : Text} (unended : (Pattern.bare ending).Absent rest [])
    (apart : ∀ head ∈ rest.head?, Text.fold head ∉ ending.map Text.fold) (passage : Text) :
    (blockOf pattern ending).Contained passage rest := by
  apply of_apart
  intro text found before into recognised written nonempty begins
  obtain ⟨head, closing, -, -, folded, writtenEq, -, -⟩ := exists_of_blockOf recognised
  obtain ⟨further, restEq⟩ := begins
  have closes := bare_run?_of_spelled folded
  have notBehind : ∀ gap, into = gap ++ '@' :: closing → False := by
    intro gap intoEq
    have suffix : '@' :: (closing ++ further) <:+ rest := by
      rw [← restEq, intoEq, List.append_assoc]
      exact List.suffix_append gap _
    have absent := unended _ suffix (List.cons_ne_nil _ _)
    rw [List.append_nil, closes further] at absent
    cases absent
  -- the ending directive stands across the cut, unless it is behind it
  rw [writtenEq, ← List.append_assoc] at written
  rcases List.append_eq_append_iff.mp written with ⟨inside, -, closingEq⟩ | ⟨gap, -, intoEq⟩
  · cases inside with
    | nil => exact absurd closingEq.symm (notBehind [])
    | cons character inside =>
        have again := closes further
        rw [← List.cons_append, closingEq, List.append_assoc, restEq] at again
        have within := bare apart _ _ List.suffix_rfl (List.cons_ne_nil _ _) _ again
        rw [← restEq] at within
        have lengths : (into ++ further).length ≤ further.length := within.length_le
        rw [List.length_append] at lengths
        exact List.length_eq_zero_iff.mp (by omega)
  · exact absurd intoEq (notBehind gap)

end Contained

/-- A text is replaced in two pieces if nothing is found across the cut. -/
theorem replace_append_of_contained (isLocal : pattern.Local) (replacement : α → Text)
    (contained : pattern.Contained passage rest) :
    pattern.replace replacement (passage ++ rest) =
      pattern.replace replacement passage ++ pattern.replace replacement rest := by
  induction passage using pattern.search_induction with
  | nil => rw [pattern.replace_nil, List.nil_append, List.nil_append]
  | found text found recognised induction =>
      have whole := pattern.whole recognised
      have behind : found.rest <:+ text := ⟨found.written, whole.symm⟩
      have again := isLocal recognised (found.rest ++ rest)
      rw [← List.append_assoc, ← whole] at again
      rw [pattern.replace_of_found replacement again,
        pattern.replace_of_found replacement recognised, induction (contained.of_suffix behind),
        List.append_assoc]
  | absent head tail absent induction =>
      have behind : tail <:+ head :: tail := List.suffix_cons head tail
      have absentStill := contained.run?_eq_none isLocal List.suffix_rfl absent
      rw [List.cons_append, pattern.replace_of_absent replacement absentStill,
        pattern.replace_of_absent replacement absent, induction (contained.of_suffix behind),
        List.cons_append]

/-- The same where the replacements have effects: those of the first piece come first. -/
theorem replaceM_append_of_contained {m : Type → Type} [Monad m] [LawfulMonad m]
    (isLocal : pattern.Local) (replacement : α → m Text)
    (contained : pattern.Contained passage rest) :
    pattern.replaceM replacement (passage ++ rest) = (do
      let replaced ← pattern.replaceM replacement passage
      let others ← pattern.replaceM replacement rest
      return replaced ++ others) := by
  induction passage using pattern.search_induction with
  | nil => simp
  | found text found recognised induction =>
      have whole := pattern.whole recognised
      have behind : found.rest <:+ text := ⟨found.written, whole.symm⟩
      have again := isLocal recognised (found.rest ++ rest)
      rw [← List.append_assoc, ← whole] at again
      rw [pattern.replaceM_of_found replacement again,
        pattern.replaceM_of_found replacement recognised, induction (contained.of_suffix behind)]
      simp only [bind_assoc, pure_bind, List.append_assoc]
  | absent head tail absent induction =>
      have behind : tail <:+ head :: tail := List.suffix_cons head tail
      have absentStill := contained.run?_eq_none isLocal List.suffix_rfl absent
      rw [List.cons_append, pattern.replaceM_of_absent replacement absentStill,
        pattern.replaceM_of_absent replacement absent, induction (contained.of_suffix behind)]
      simp only [map_bind, map_pure, bind_map_left, List.cons_append]

end Pattern

end Scriptlet
