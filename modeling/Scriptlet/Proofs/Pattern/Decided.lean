import Scriptlet.Proofs.Pattern.Marks
import Scriptlet.Proofs.Text.Trim

/-!
# Decided signs

The characters between a sign and the next sign or brace may decide what stands there: they
are no beginning of a directive with an argument, or they hold all of it.  Replacing what
begins with a sign or a brace does not reach these characters.  So where all signs of a text
and of the replacements are decided, so are those of the text that comes out.
-/

namespace Scriptlet.Pattern

variable {name : Text}

theorem bare_run?_eq_some {text : Text} {found : Found Unit} :
    (bare name).run? text = some found ↔
      ∃ spelled, spelled.map Text.fold = name.map Text.fold ∧
        found.written = '@' :: spelled ∧ text = '@' :: (spelled ++ found.rest) := by
  constructor
  · intro recognised
    have begins := (bare name).head?_of_run? recognised
    cases text with
    | nil => cases begins
    | cons head tail =>
        cases begins
        rw [bare_run?, Option.map_eq_some_iff] at recognised
        obtain ⟨⟨spelled, rest⟩, cut, rfl⟩ := recognised
        obtain ⟨whole, folded⟩ := Text.cutWord?_eq_some cut
        exact ⟨spelled, folded, rfl, congrArg _ whole⟩
  · obtain ⟨written, captured, rest⟩ := found
    rintro ⟨spelled, folded, rfl, rfl⟩
    exact bare_run?_of_spelled folded rest

/-- A directive with an argument is found just where its name, in any letter case, stands
between a sign and a parenthesis, and its argument goes up to the next closing one. -/
theorem withArgument_run?_eq_some {text : Text} {found : Found Text} :
    (withArgument name).run? text = some found ↔
      ∃ spelled, spelled.map Text.fold = name.map Text.fold ∧ ')' ∉ found.captured ∧
        found.written = Text.called spelled found.captured ∧
        text = found.written ++ found.rest := by
  constructor
  · intro recognised
    have whole := (withArgument name).whole recognised
    obtain ⟨inner, innerFound, rfl⟩ := map_run?_eq_some.mp recognised
    obtain ⟨head, next, headFound, nextFound, rfl⟩ := andThen_run?_eq_some.mp innerFound
    obtain ⟨spelled, folded, written, -⟩ := bare_run?_eq_some.mp headFound
    simp only [Scan.andThen, Option.bind_eq_some_iff, Option.map_eq_some_iff] at nextFound
    obtain ⟨opening, openingFound, argument, argumentFound, rfl⟩ := nextFound
    have parenthesis := Scan.written_of_exactly openingFound
    simp only [Scan.through, Option.map_eq_some_iff] at argumentFound
    obtain ⟨⟨before, after⟩, cut, rfl⟩ := argumentFound
    refine ⟨spelled, folded, (Text.cutAt?_eq_some cut).2, ?_, whole⟩
    simp [written, parenthesis, Text.called]
  · rintro ⟨spelled, folded, closed, written, rfl⟩
    rw [written, withArgument_run? folded closed, ← written]

/-- What is found of a directive does not depend on what follows it. -/
theorem withArgument_run?_local {text : Text} {found : Found Text}
    (recognised : (withArgument name).run? text = some found) (rest : Text) :
    (withArgument name).run? (found.written ++ rest) =
      some ⟨found.written, found.captured, rest⟩ := by
  obtain ⟨spelled, folded, closed, written, -⟩ := withArgument_run?_eq_some.mp recognised
  exact withArgument_run?_eq_some.mpr ⟨spelled, folded, closed, written, rfl⟩

/-- Whatever stands behind the front, a directive that is found between a sign and the end of
the front has an accepted argument without closing braces, and none is found that ends
elsewhere. -/
def Decides (name : Text) (accepts : Text → Prop) (front : Text) : Prop :=
  ∀ (rest : Text) found, (withArgument name).run? ('@' :: (front ++ rest)) = some found →
    (∃ back, found.rest = back ++ rest) ∧ '\x7d' ∉ found.captured ∧ accepts found.captured

section Decides

variable {accepts : Text → Prop} {front : Text}

/-- A front that parts from the directive has none. -/
theorem Decides.of_apart (accepts : Text → Prop)
    (apart : ¬ (name ++ ['(']).map Text.fold <+: front.map Text.fold ∧
      ¬ front.map Text.fold <+: (name ++ ['(']).map Text.fold) :
    Decides name accepts front := by
  intro rest found recognised
  obtain ⟨spelled, folded, -, written, whole⟩ := withArgument_run?_eq_some.mp recognised
  rw [written, Text.called_append, List.cons.injEq] at whole
  have begins : (name ++ ['(']).map Text.fold <+: front.map Text.fold ++ rest.map Text.fold := by
    rw [← List.map_append, whole.2]
    simp [folded]
  rcases List.prefix_or_prefix_of_prefix begins (List.prefix_append _ _) with shorter | longer
  · exact absurd shorter apart.1
  · exact absurd longer apart.2

/-- A front that is a whole directive. -/
theorem Decides.of_call {spelled argument : Text}
    (folded : spelled.map Text.fold = name.map Text.fold) (closed : ')' ∉ argument)
    (unbraced : '\x7d' ∉ argument) (accepted : accepts argument) :
    Decides name accepts (spelled ++ '(' :: (argument ++ [')'])) := by
  intro rest found recognised
  have known := withArgument_run? folded closed rest
  rw [Text.called, List.cons_append, recognised] at known
  cases known
  exact ⟨⟨[], rfl⟩, unbraced, accepted⟩

/-- A call that begins in a front that decides is closed there, before any gap without a
parenthesis in front of a brace: else what follows the front would close it. -/
theorem Decides.closes {spelled argument gap : Text}
    (decides : Decides name accepts (spelled ++ '(' :: (argument ++ gap)))
    (folded : spelled.map Text.fold = name.map Text.fold)
    (late : ∀ between back, gap = between ++ ')' :: back → '\x7d' ∈ between) :
    ')' ∈ argument := by
  by_contra unclosed
  have inside : ')' ∈ gap ++ [')'] := List.mem_append_right gap (List.mem_singleton.mpr rfl)
  obtain ⟨before, after, split, first⟩ := List.eq_append_cons_of_mem inside
  have closed : ')' ∉ argument ++ before := by simp [unclosed, first]
  have called : '@' :: (spelled ++ '(' :: (argument ++ gap) ++ [')']) =
      Text.called spelled (argument ++ before) ++ after := by
    rw [List.append_assoc, List.cons_append, List.append_assoc, split, Text.called_append]
    simp
  have found := withArgument_run? folded closed after
  rw [← called] at found
  obtain ⟨⟨back, afterEq⟩, unbraced, -⟩ := decides _ _ found
  have whole : gap ++ [')'] = (before ++ ')' :: back) ++ [')'] := by
    rw [split, List.append_assoc, List.cons_append, ← afterEq]
  have gap_eq := List.append_cancel_right whole
  exact unbraced (List.mem_append_right _ (late before back gap_eq))

/-- A front that decides also decides where it is cut off and closed in front of such a gap. -/
theorem Decides.cut {inside gap : Text} {closer : Char}
    (decides : Decides name accepts (inside ++ gap))
    (late : ∀ between back, gap = between ++ ')' :: back → '\x7d' ∈ between)
    (apart : Text.fold closer ∉ (name ++ ['(']).map Text.fold) :
    Decides name accepts (inside ++ [closer]) := by
  intro rest found recognised
  obtain ⟨spelled, folded, closed, written, whole⟩ := withArgument_run?_eq_some.mp recognised
  have spelledApart : closer ∉ spelled ++ ['('] := by
    intro member
    rw [List.map_append, ← folded, ← List.map_append] at apart
    exact apart (List.mem_map_of_mem member)
  have parts : inside ++ closer :: rest =
      (spelled ++ ['(']) ++ (found.captured ++ ')' :: found.rest) := by
    rw [written, Text.called_append, List.cons.injEq] at whole
    simpa using whole.2
  -- the opening parenthesis does not stand behind the cut, as the closer is not in the call
  obtain ⟨argument, opened⟩ : ∃ argument, inside = spelled ++ '(' :: argument := by
    rcases List.append_eq_append_iff.mp parts with ⟨further, opening, later⟩ | ⟨argument, opened, -⟩
    · cases further with
      | nil => exact ⟨[], by simpa using opening.symm⟩
      | cons head further =>
          rw [List.cons_append, List.cons.injEq] at later
          exact absurd (opening ▸ by simp [later.1]) spelledApart
    · exact ⟨argument, by simpa using opened⟩
  subst opened
  have closesInside : ')' ∈ argument := by
    rw [List.append_assoc, List.cons_append] at decides
    exact decides.closes folded late
  have later : argument ++ closer :: rest = found.captured ++ ')' :: found.rest := by
    simpa using parts
  obtain ⟨further, argumentEq, restEq⟩ : ∃ further, argument = found.captured ++ ')' :: further ∧
      found.rest = further ++ closer :: rest := by
    rcases List.append_eq_append_iff.mp later with
      ⟨further, capturedEq, -⟩ | ⟨further, argumentEq, restEq⟩
    · exact absurd (capturedEq ▸ List.mem_append_left _ closesInside) closed
    · cases further with
      | nil => exact absurd (argumentEq ▸ closesInside) (by simpa using closed)
      | cons head further =>
          rw [List.cons_append, List.cons.injEq] at restEq
          exact ⟨further, restEq.1 ▸ argumentEq, restEq.2⟩
  have same : '@' :: (spelled ++ '(' :: argument ++ gap ++ []) =
      found.written ++ (further ++ gap) := by
    rw [written, Text.called_append, argumentEq]
    simp
  have again := withArgument_run?_local recognised (further ++ gap)
  rw [← same] at again
  obtain ⟨-, unbraced, accepted⟩ := decides _ _ again
  exact ⟨⟨further ++ [closer], by simp [restEq]⟩, unbraced, accepted⟩

end Decides

/-- The characters between a sign and the next sign or brace decide whether it begins one of
the two directives, and accept the argument of the first. -/
def SignDecided (accepts : Text → Prop) (tail : Text) : Prop :=
  ∃ front rest, tail = front ++ rest ∧
    (∀ character ∈ front, character ∉ ['@', '\x7b']) ∧
    Decides "yield" accepts front ∧ Decides "method" (fun _ => True) front

/-- All signs of a text are decided. -/
def Decided (accepts : Text → Prop) (text : Text) : Prop :=
  ∀ tail, '@' :: tail <:+ text → SignDecided accepts tail

section Signs

variable {α : Type} {accepts : Text → Prop} {tail text left right : Text} {found : Found Text}

theorem SignDecided.append (decided : SignDecided accepts tail) (rest : Text) :
    SignDecided accepts (tail ++ rest) := by
  obtain ⟨front, further, rfl, plain, decides⟩ := decided
  exact ⟨front, further ++ rest, List.append_assoc _ _ _, plain, decides⟩

theorem SignDecided.accepted (decided : SignDecided accepts tail)
    (recognised : (withArgument "yield").run? ('@' :: tail) = some found) :
    accepts found.captured := by
  obtain ⟨front, rest, rfl, -, decides, -⟩ := decided
  exact (decides rest found recognised).2.2

/-- A directive behind a decided sign is written without further signs. -/
theorem SignDecided.unsigned {name : Text} (listed : name ∈ ["yield".toList, "method".toList])
    (decided : SignDecided accepts tail)
    (recognised : (withArgument name).run? ('@' :: tail) = some found) :
    ∃ front, found.written = '@' :: front ∧
      ∀ character ∈ front, character ∉ ['@', '\x7b'] := by
  obtain ⟨front, rest, rfl, plain, decides, decidesMethod⟩ := decided
  obtain ⟨back, restEq⟩ : ∃ back, found.rest = back ++ rest := by
    simp only [List.mem_cons, List.not_mem_nil, or_false] at listed
    rcases listed with rfl | rfl
    · exact (decides rest found recognised).1
    · exact (decidesMethod rest found recognised).1
  have whole := (withArgument name).whole recognised
  rw [restEq, ← List.append_assoc, ← List.cons_append, List.append_left_inj] at whole
  have begins := (withArgument name).starts recognised
  obtain ⟨written, argument, foundRest⟩ := found
  cases written with
  | nil => cases begins
  | cons head inside =>
      cases begins
      rw [List.cons_append, List.cons.injEq] at whole
      refine ⟨inside, rfl, fun character member => plain character ?_⟩
      rw [whole.2]
      exact List.mem_append_left back member

/-- A sign in front of a whole place is decided. -/
theorem SignDecided.of_call {spelled argument : Text}
    (folded : spelled.map Text.fold = "yield".toList.map Text.fold) (closed : ')' ∉ argument)
    (unbraced : '\x7d' ∉ argument) (accepted : accepts argument)
    (plain : ∀ character ∈ spelled ++ '(' :: (argument ++ [')']), character ∉ ['@', '\x7b']) :
    SignDecided accepts (spelled ++ '(' :: (argument ++ [')'])) := by
  have begins : (spelled ++ '(' :: (argument ++ [')'])).map Text.fold =
      "yield".toList.map Text.fold ++ ('(' :: (argument ++ [')'])).map Text.fold := by
    rw [List.map_append, folded]
  refine ⟨_, [], (List.append_nil _).symm, plain, Decides.of_call folded closed unbraced accepted,
    Decides.of_apart _ ?_⟩
  rw [begins]
  constructor
  · intro prefixed
    exact absurd (List.cons_prefix_cons.mp prefixed).1 (by decide)
  · intro prefixed
    exact absurd (List.cons_prefix_cons.mp prefixed).1 (by decide)

/-- A place behind a decided sign is decided by itself, with any property of its argument. -/
theorem SignDecided.of_found {stronger : Text → Prop} (decided : SignDecided accepts tail)
    (recognised : (withArgument "yield").run? ('@' :: tail) = some found)
    (accepted : stronger found.captured) :
    ∃ front, found.written = '@' :: front ∧ '@' ∉ front ∧ SignDecided stronger front := by
  obtain ⟨front, written, plain⟩ := decided.unsigned List.mem_cons_self recognised
  have unbraced : '\x7d' ∉ found.captured := by
    obtain ⟨front, rest, rfl, -, decides, -⟩ := decided
    exact (decides rest found recognised).2.1
  obtain ⟨spelled, folded, closed, called, -⟩ := withArgument_run?_eq_some.mp recognised
  rw [written, Text.called, List.cons.injEq] at called
  refine ⟨front, written, fun member => plain _ member (by decide), ?_⟩
  rw [called.2] at plain ⊢
  exact SignDecided.of_call folded closed unbraced accepted plain

/-- Signs behind which no place is found accept whatever they may. -/
theorem SignDecided.of_absent {stronger : Text → Prop} (decided : SignDecided accepts tail)
    (absent : (withArgument "yield").run? ('@' :: tail) = none) :
    SignDecided stronger tail := by
  obtain ⟨front, rest, rfl, plain, decides, decidesMethod⟩ := decided
  refine ⟨front, rest, rfl, plain, ?_, decidesMethod⟩
  intro other found recognised
  obtain ⟨⟨back, restEq⟩, -, -⟩ := decides other found recognised
  have whole := (withArgument "yield").whole recognised
  rw [restEq, ← List.append_assoc, ← List.cons_append, List.append_left_inj] at whole
  have here := withArgument_run?_local recognised (back ++ rest)
  rw [← List.append_assoc, ← whole, List.cons_append, absent] at here
  cases here

/-- The front of a decided sign is out of reach for replacements. -/
theorem SignDecided.replace {first : Char} (special : first ∈ ['@', '\x7b'])
    (pattern : Pattern first α) (replacement : α → Text) (decided : SignDecided accepts tail) :
    SignDecided accepts (pattern.replace replacement tail) := by
  obtain ⟨front, rest, rfl, plain, decides⟩ := decided
  have absent : pattern.Absent front rest :=
    Absent.of_notMem fun member => plain first member special
  exact ⟨front, _, replace_append replacement absent, plain, decides⟩

/-- A sign that is decided in front of a gap is decided where a closer stands for the gap. -/
theorem SignDecided.closed {inside gap post : Text} {closer : Char}
    (decided : SignDecided accepts (inside ++ gap))
    (late : ∀ between back, gap = between ++ ')' :: back → '\x7d' ∈ between)
    (closing : closer ∈ [' ', ')']) : SignDecided accepts (inside ++ closer :: post) := by
  obtain ⟨front, rest, whole, plain, decides, decidesMethod⟩ := decided
  rcases List.append_eq_append_iff.mp whole with ⟨cutOff, frontEq, gapEq⟩ | ⟨further, insideEq, -⟩
  · have lateInFront : ∀ between back, cutOff = between ++ ')' :: back → '\x7d' ∈ between := by
      rintro between back rfl
      exact late between (back ++ rest) (by simp [gapEq])
    have closerPlain : closer ∉ ['@', '\x7b'] := by
      rcases List.mem_pair.mp closing with rfl | rfl <;> decide
    have apart : ∀ name ∈ ["yield".toList, "method".toList],
        Text.fold closer ∉ (name ++ ['(']).map Text.fold := by
      rcases List.mem_pair.mp closing with rfl | rfl <;> decide
    rw [frontEq] at decides decidesMethod plain
    refine ⟨inside ++ [closer], post, by simp, ?_, decides.cut lateInFront (apart _ ?_),
      decidesMethod.cut lateInFront (apart _ ?_)⟩
    · intro character member
      rcases List.mem_append.mp member with inInside | last
      · exact plain character (List.mem_append_left _ inInside)
      · rw [List.mem_singleton.mp last]
        exact closerPlain
    · exact List.mem_cons_self
    · exact List.mem_cons_of_mem _ List.mem_cons_self
  · exact ⟨front, further ++ closer :: post, by simp [insideEq], plain, decides, decidesMethod⟩

namespace Decided

theorem of_unsigned (unsigned : '@' ∉ text) : Decided accepts text := by
  intro tail suffix
  exact absurd (suffix.subset List.mem_cons_self) unsigned

theorem of_sign (unsigned : '@' ∉ tail) (decided : SignDecided accepts tail) :
    Decided accepts ('@' :: tail) := by
  intro other suffix
  rcases List.suffix_cons_iff.mp suffix with whole | inTail
  · cases whole
    exact decided
  · exact absurd (inTail.subset List.mem_cons_self) unsigned

theorem append (leftDecided : Decided accepts left) (rightDecided : Decided accepts right) :
    Decided accepts (left ++ right) := by
  intro tail suffix
  rcases Text.sign_suffix_append suffix with inRight | ⟨inside, inLeft, rfl⟩
  · exact rightDecided tail inRight
  · exact (leftDecided inside inLeft).append right

theorem of_suffix (decided : Decided accepts text) (suffix : tail <:+ text) :
    Decided accepts tail :=
  fun further inTail => decided further (inTail.trans suffix)

/-- Replacing keeps all signs decided if the replacements have decided signs only, and the
signs where nothing is replaced are decided. -/
theorem replace {first : Char} (special : first ∈ ['@', '\x7b']) {pattern : Pattern first α}
    {replacement : α → Text} {text : Text}
    (each : ∀ tail found, tail <:+ text → pattern.run? tail = some found →
      Decided accepts (replacement found.captured))
    (kept : ∀ tail, '@' :: tail <:+ text → pattern.run? ('@' :: tail) = none →
      SignDecided accepts tail) :
    Decided accepts (pattern.replace replacement text) := by
  induction text using pattern.search_induction with
  | nil =>
      rw [pattern.replace_nil]
      exact of_unsigned List.not_mem_nil
  | found text found recognised induction =>
      have behind : found.rest <:+ text := ⟨found.written, (pattern.whole recognised).symm⟩
      rw [pattern.replace_of_found replacement recognised]
      apply append (each text found List.suffix_rfl recognised)
      apply induction
      · exact fun tail use suffix => each tail use (suffix.trans behind)
      · exact fun tail suffix => kept tail (suffix.trans behind)
  | absent head tail absent induction =>
      have behind : tail <:+ head :: tail := List.suffix_cons head tail
      have further : Decided accepts (pattern.replace replacement tail) := by
        apply induction
        · exact fun later use suffix => each later use (suffix.trans behind)
        · exact fun later suffix => kept later (suffix.trans behind)
      rw [pattern.replace_of_absent replacement absent]
      intro later suffix
      rcases List.suffix_cons_iff.mp suffix with whole | inTail
      · rw [List.cons.injEq] at whole
        obtain ⟨rfl, rfl⟩ := whole
        exact (kept tail List.suffix_rfl absent).replace special pattern replacement
      · exact further later inTail

/-- The inside of a mark stays decided where it is trimmed and put in front of a blank or a
parenthesis: its last signs do not need what was behind them. -/
theorem trim_closed {inside mark rest post : Text} {closer : Char}
    (decided : Decided accepts (inside ++ (mark ++ rest))) (braced : '\x7d' ∈ mark)
    (unclosed : ')' ∉ mark) (closing : closer ∈ [' ', ')']) (unsigned : '@' ∉ post) :
    Decided accepts (Text.trim inside ++ closer :: post) := by
  obtain ⟨before, blanks, whole, -, blank⟩ := Text.trimBy_parts Text.isBlank inside
  have late : ∀ between back, blanks ++ (mark ++ rest) = between ++ ')' :: back →
      '\x7d' ∈ between := by
    intro between back split
    rw [← List.append_assoc] at split
    have markedUnclosed : ')' ∉ blanks ++ mark := by
      rw [List.mem_append, not_or]
      exact ⟨fun member => absurd (blank _ member) (by decide), unclosed⟩
    have inMarked : '\x7d' ∈ blanks ++ mark := List.mem_append_right blanks braced
    rcases List.append_eq_append_iff.mp split with
      ⟨further, betweenEq, -⟩ | ⟨further, marked, tailEq⟩
    · exact betweenEq ▸ List.mem_append_left further inMarked
    · cases further with
      | nil => simpa [marked] using inMarked
      | cons head further =>
          rw [List.cons_append, List.cons.injEq] at tailEq
          rw [marked, ← tailEq.1] at markedUnclosed
          exact absurd (List.mem_append_right between List.mem_cons_self) markedUnclosed
  have closerPlain : closer ∉ ['@', '\x7b'] := by
    revert closing
    simp only [List.mem_cons, List.not_mem_nil, or_false]
    rintro (rfl | rfl) <;> decide
  intro tail suffix
  rcases Text.sign_suffix_append suffix with inPost | ⟨later, inInside, rfl⟩
  · have member := inPost.subset List.mem_cons_self
    simp only [List.mem_cons] at member
    rcases member with rfl | inPost
    · exact absurd List.mem_cons_self closerPlain
    · exact absurd inPost unsigned
  · apply SignDecided.closed _ late closing
    apply decided
    obtain ⟨front, trimEq⟩ := inInside
    refine ⟨before ++ front, ?_⟩
    have insideEq : inside = before ++ (Text.trim inside ++ blanks) := whole
    rw [insideEq, ← trimEq]
    simp

end Decided

end Signs

end Scriptlet.Pattern
