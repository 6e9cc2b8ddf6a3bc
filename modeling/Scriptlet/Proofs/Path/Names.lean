import Scriptlet.Path

/-!
# The names in a path

A path is walked name by name, and it does not matter how many slashes stand between
its names.  Joining a name to a path appends it to the names of that path, and a path
made from names has exactly these names.
-/

namespace Scriptlet.Path

/-- A text that can stand between two slashes. -/
structure IsPart (part : Text) : Prop where
  ne_nil : part ≠ []
  slashless : '/' ∉ part

instance (part : Text) : Decidable (IsPart part) :=
  decidable_of_iff (part ≠ [] ∧ '/' ∉ part)
    ⟨fun parts => ⟨parts.1, parts.2⟩, fun isPart => ⟨isPart.ne_nil, isPart.slashless⟩⟩

/-- What stands between the slashes of a path, single dots included. -/
def names (path : Text) : List Text :=
  (split path).filter (· ≠ [])

theorem split_ne_nil (path : Text) : split path ≠ [] := by
  cases path with
  | nil => simp [split]
  | cons head tail =>
      rw [split]
      split
      · split <;> simp
      · simp

theorem split_cons_slash (path : Text) : split ('/' :: path) = [] :: split path := by
  obtain ⟨part, parts, pathSplit⟩ := List.exists_cons_of_ne_nil (split_ne_nil path)
  rw [split, pathSplit]
  simp

theorem split_cons_of_ne {head : Char} (other : head ≠ '/') {tail part : Text}
    {parts : List Text} (tailSplit : split tail = part :: parts) :
    split (head :: tail) = (head :: part) :: parts := by
  rw [split, tailSplit]
  simp [other]

/-- A slash divides a path wherever it stands. -/
theorem split_append_slash (left right : Text) :
    split (left ++ '/' :: right) = split left ++ split right := by
  induction left with
  | nil => exact split_cons_slash right
  | cons head tail induction =>
      by_cases slash : head = '/'
      · subst slash
        rw [List.cons_append, split_cons_slash, split_cons_slash, induction, List.cons_append]
      · obtain ⟨part, parts, tailSplit⟩ := List.exists_cons_of_ne_nil (split_ne_nil tail)
        have wholeSplit : split (tail ++ '/' :: right) = part :: (parts ++ split right) := by
          rw [induction, tailSplit, List.cons_append]
        rw [List.cons_append, split_cons_of_ne slash wholeSplit, split_cons_of_ne slash tailSplit,
          List.cons_append]

theorem split_of_notMem {part : Text} (slashless : '/' ∉ part) : split part = [part] := by
  induction part with
  | nil => rfl
  | cons head tail induction =>
      simp only [List.mem_cons, not_or] at slashless
      exact split_cons_of_ne (Ne.symm slashless.1) (induction slashless.2)

theorem slashless_of_mem_split {path part : Text} (member : part ∈ split path) : '/' ∉ part := by
  induction path generalizing part with
  | nil =>
      rw [split, List.mem_singleton] at member
      simp [member]
  | cons head tail induction =>
      by_cases slash : head = '/'
      · subst slash
        rw [split_cons_slash] at member
        rcases List.mem_cons.mp member with rfl | member
        · simp
        · exact induction member
      · obtain ⟨first, rest, tailSplit⟩ := List.exists_cons_of_ne_nil (split_ne_nil tail)
        rw [split_cons_of_ne slash tailSplit] at member
        rw [tailSplit] at induction
        rcases List.mem_cons.mp member with rfl | member
        · simp only [List.mem_cons, not_or]
          exact ⟨Ne.symm slash, induction (List.mem_cons_self ..)⟩
        · exact induction (List.mem_cons_of_mem _ member)

theorem isPart_of_mem_names {path name : Text} (member : name ∈ names path) : IsPart name := by
  rw [names, List.mem_filter] at member
  exact ⟨by simpa using member.2, slashless_of_mem_split member.1⟩

theorem names_append_slash (left right : Text) :
    names (left ++ '/' :: right) = names left ++ names right := by
  rw [names, split_append_slash, List.filter_append]
  rfl

theorem names_cons_slash (path : Text) : names ('/' :: path) = names path :=
  names_append_slash [] path

theorem names_of_isPart {part : Text} (isPart : IsPart part) : names part = [part] := by
  rw [names, split_of_notMem isPart.slashless]
  simp [isPart.ne_nil]

theorem IsPart.not_isAbsolute {part : Text} (isPart : IsPart part) : isAbsolute part = false := by
  cases part with
  | nil => rfl
  | cons head tail =>
      have other : head ≠ '/' := fun slash => isPart.slashless (by simp [slash])
      simp [isAbsolute, other]

theorem IsPart.not_endsWithSlash {part : Text} (isPart : IsPart part) (front : Text) :
    endsWithSlash (front ++ part) = false := by
  obtain ⟨init, last, rfl⟩ := (List.eq_nil_or_concat part).resolve_left isPart.ne_nil
  have other : last ≠ '/' := fun slash => isPart.slashless (by simp [slash])
  simp [endsWithSlash, ← List.append_assoc, other]

/-- Without its last slash a path has the same names. -/
theorem names_dropLast_of_endsWithSlash {base : Text} (slash : endsWithSlash base = true) :
    ∃ front, base = front ++ ['/'] ∧ names front = names base := by
  simp only [endsWithSlash, decide_eq_true_eq] at slash
  obtain ⟨front, baseEq⟩ := List.getLast?_eq_some_iff.mp slash
  refine ⟨front, baseEq, ?_⟩
  rw [baseEq, names_append_slash]
  simp [names, split]

/-- A joined path is the first one, its separating slash and the part. -/
theorem join_of_isPart {part : Text} (isPart : IsPart part) (base : Text) :
    ∃ between : Text, (between = [] ∨ between = ['/']) ∧
      join base part = base ++ between ++ part := by
  rw [join, isPart.not_isAbsolute]
  by_cases bare : (base = [] || endsWithSlash base) = true
  · exact ⟨[], .inl rfl, by simp_all⟩
  · exact ⟨['/'], .inr rfl, by simp_all⟩

theorem names_join {part : Text} (isPart : IsPart part) (base : Text) :
    names (join base part) = names base ++ [part] := by
  rw [join, isPart.not_isAbsolute]
  by_cases empty : base = []
  · subst empty
    have whole := names_of_isPart isPart
    simpa [names, split] using whole
  · cases slash : endsWithSlash base with
    | true =>
        obtain ⟨front, rfl, frontNames⟩ := names_dropLast_of_endsWithSlash slash
        simp [List.append_assoc, names_append_slash, names_of_isPart isPart, ← frontNames]
    | false =>
        simp [empty, names_append_slash, names_of_isPart isPart]

theorem endsWithSlash_join {part : Text} (isPart : IsPart part) (base : Text) :
    endsWithSlash (join base part) = false := by
  obtain ⟨between, -, joined⟩ := join_of_isPart isPart base
  rw [joined]
  exact isPart.not_endsWithSlash (base ++ between)

theorem mem_join {part : Text} (isPart : IsPart part) {base : Text} {character : Char}
    (member : character ∈ join base part) :
    character ∈ base ∨ character = '/' ∨ character ∈ part := by
  obtain ⟨between, kind, joined⟩ := join_of_isPart isPart base
  rw [joined, List.mem_append, List.mem_append] at member
  rcases kind with rfl | rfl
  · rcases member with inFront | inPart
    · exact .inl (by simpa using inFront)
    · exact .inr (.inr inPart)
  · simpa [or_assoc] using member

theorem isAbsolute_join {part : Text} (isPart : IsPart part) {base : Text} (full : base ≠ []) :
    isAbsolute (join base part) = isAbsolute base := by
  obtain ⟨between, -, joined⟩ := join_of_isPart isPart base
  obtain ⟨head, tail, rfl⟩ := List.exists_cons_of_ne_nil full
  rw [joined]
  rfl

theorem join_ne_nil {part : Text} (isPart : IsPart part) (base : Text) : join base part ≠ [] := by
  obtain ⟨between, -, joined⟩ := join_of_isPart isPart base
  rw [joined]
  exact List.append_ne_nil_of_right_ne_nil _ isPart.ne_nil

theorem ofParts_cons_cons (first second : Text) (rest : List Text) :
    ofParts (first :: second :: rest) = first ++ '/' :: ofParts (second :: rest) := by
  simp [ofParts, List.intersperse]

theorem names_ofParts {parts : List Text} (areParts : ∀ part ∈ parts, IsPart part) :
    names (ofParts parts) = parts := by
  induction parts with
  | nil => rfl
  | cons first rest induction =>
      have isPart := areParts first (List.mem_cons_self ..)
      cases rest with
      | nil => simpa [ofParts] using names_of_isPart isPart
      | cons second rest =>
          have restParts := fun part member => areParts part (List.mem_cons_of_mem first member)
          rw [ofParts_cons_cons, names_append_slash, names_of_isPart isPart, induction restParts]
          rfl

theorem endsWithSlash_ofParts {parts : List Text} (areParts : ∀ part ∈ parts, IsPart part)
    (full : parts ≠ []) (front : Text) : endsWithSlash (front ++ ofParts parts) = false := by
  induction parts generalizing front with
  | nil => exact absurd rfl full
  | cons first rest induction =>
      cases rest with
      | nil =>
          have isPart := areParts first (List.mem_cons_self ..)
          simpa [ofParts] using isPart.not_endsWithSlash front
      | cons second rest =>
          have restParts := fun part member => areParts part (List.mem_cons_of_mem first member)
          rw [ofParts_cons_cons]
          simpa using induction restParts (by simp) (front ++ first ++ ['/'])

theorem mem_ofParts {parts : List Text} {character : Char} (member : character ∈ ofParts parts) :
    character = '/' ∨ ∃ part ∈ parts, character ∈ part := by
  induction parts with
  | nil => simp [ofParts] at member
  | cons first rest induction =>
      cases rest with
      | nil => exact .inr ⟨first, List.mem_cons_self .., by simpa [ofParts] using member⟩
      | cons second rest =>
          rw [ofParts_cons_cons, List.mem_append, List.mem_cons] at member
          rcases member with inFirst | slash | inRest
          · exact .inr ⟨first, List.mem_cons_self .., inFirst⟩
          · exact .inl slash
          · rcases induction inRest with slash | ⟨part, listed, inPart⟩
            · exact .inl slash
            · exact .inr ⟨part, List.mem_cons_of_mem _ listed, inPart⟩

private theorem split_append_isPart {part : Text} (isPart : IsPart part) (path : Text) :
    ∃ front stem, split (path ++ part) = front ++ [stem ++ part] := by
  induction path with
  | nil => exact ⟨[], [], split_of_notMem isPart.slashless⟩
  | cons head path induction =>
      obtain ⟨front, stem, tailSplit⟩ := induction
      by_cases slash : head = '/'
      · subst slash
        exact ⟨[] :: front, stem, by rw [List.cons_append, split_cons_slash, tailSplit]; rfl⟩
      · cases front with
        | nil => exact ⟨[], head :: stem, split_cons_of_ne slash tailSplit⟩
        | cons first front =>
            exact ⟨(head :: first) :: front, stem, split_cons_of_ne slash tailSplit⟩

/-- What a path ends with belongs to its last name. -/
theorem names_append_isPart {part : Text} (isPart : IsPart part) (path : Text) :
    ∃ front stem, names (path ++ part) = front ++ [stem ++ part] := by
  obtain ⟨front, stem, pathSplit⟩ := split_append_isPart isPart path
  refine ⟨front.filter (· ≠ []), stem, ?_⟩
  rw [names, pathSplit, List.filter_append]
  simp [isPart.ne_nil]

/-! ## Paths made absolute -/

theorem parts_eq (path : Text) : parts path = (names path).filter (· ≠ ['.']) := by
  rw [parts, names, List.filter_filter]
  apply List.filter_congr
  intro part _
  by_cases empty : part = [] <;> by_cases dot : part = ['.'] <;> simp [empty, dot]

theorem isPart_of_mem_parts {path part : Text} (member : part ∈ parts path) : IsPart part := by
  rw [parts_eq, List.mem_filter] at member
  exact isPart_of_mem_names member.1

theorem mem_of_mem_names {path name : Text} {character : Char} (listed : name ∈ names path)
    (member : character ∈ name) : character ∈ path := by
  rw [names, List.mem_filter] at listed
  have inSplit := listed.1
  clear listed
  induction path generalizing name with
  | nil =>
      rw [split, List.mem_singleton] at inSplit
      simp [inSplit] at member
  | cons head tail induction =>
      by_cases slash : head = '/'
      · subst slash
        rw [split_cons_slash] at inSplit
        rcases List.mem_cons.mp inSplit with rfl | inTail
        · cases member
        · exact List.mem_cons_of_mem _ (induction member inTail)
      · obtain ⟨first, rest, tailSplit⟩ := List.exists_cons_of_ne_nil (split_ne_nil tail)
        rw [split_cons_of_ne slash tailSplit] at inSplit
        rw [tailSplit] at induction
        rcases List.mem_cons.mp inSplit with rfl | inTail
        · rcases List.mem_cons.mp member with rfl | inFirst
          · exact List.mem_cons_self ..
          · exact List.mem_cons_of_mem _ (induction inFirst (List.mem_cons_self ..))
        · exact List.mem_cons_of_mem _ (induction member (List.mem_cons_of_mem _ inTail))

/-- What joining parts to a path one after another makes of it. -/
structure Extends (root : Text) (added : List Text) (whole : Text) : Prop where
  names_eq : names whole = names root ++ added
  isAbsolute_of : isAbsolute root → isAbsolute whole
  mem_of : ∀ character ∈ whole, character ∈ root ∨ character = '/' ∨
    ∃ part ∈ added, character ∈ part
  endsWithSlash_eq : added ≠ [] → endsWithSlash whole = false

theorem foldl_join_extends {added : List Text} (areParts : ∀ part ∈ added, IsPart part)
    (root : Text) : Extends root added (added.foldl join root) := by
  induction added generalizing root with
  | nil => exact ⟨by simp, id, fun _ member => .inl member, fun full => absurd rfl full⟩
  | cons part rest induction =>
      have isPart := areParts part (List.mem_cons_self ..)
      have tail := induction (fun other member => areParts other (List.mem_cons_of_mem _ member))
        (join root part)
      refine ⟨?_, ?_, ?_, ?_⟩
      · rw [List.foldl_cons, tail.names_eq, names_join isPart, List.append_assoc,
          List.singleton_append]
      · intro absolute
        have full : root ≠ [] := by
          rintro rfl
          simp [isAbsolute] at absolute
        apply tail.isAbsolute_of
        rw [isAbsolute_join isPart full]
        exact absolute
      · intro character member
        rcases tail.mem_of character member with inJoined | slash | ⟨other, listed, inOther⟩
        · rcases mem_join isPart inJoined with inRoot | slash | inPart
          · exact .inl inRoot
          · exact .inr (.inl slash)
          · exact .inr (.inr ⟨part, List.mem_cons_self .., inPart⟩)
        · exact .inr (.inl slash)
        · exact .inr (.inr ⟨other, List.mem_cons_of_mem _ listed, inOther⟩)
      · intro _
        cases rest with
        | nil => exact endsWithSlash_join isPart root
        | cons second rest => exact tail.endsWithSlash_eq (by simp)

/-- A path is made absolute by joining its parts to a root, or to the working
directory where the path is relative. -/
theorem absolute_eq (workingDirectory : Text) {path : Text} (unended : endsWithSlash path = false)
    (full : path ≠ []) :
    ∃ root, absolute workingDirectory path = (parts path).foldl join root ∧
      (isAbsolute path = false ∧ root = workingDirectory ∨
        isAbsolute path = true ∧ (root = ['/'] ∨ root = ['/', '/'])) := by
  unfold absolute
  simp only [full, unended, Bool.false_and, Bool.false_eq_true, if_false]
  refine ⟨_, rfl, ?_⟩
  split
  · exact .inr ⟨rfl, .inl rfl⟩
  · exact .inr ⟨rfl, .inr rfl⟩
  · exact .inr ⟨rfl, .inl rfl⟩
  · rename_i relative
    refine .inl ⟨?_, rfl⟩
    cases path with
    | nil => rfl
    | cons head tail =>
        have other : head ≠ '/' := fun slash => relative tail (by rw [slash])
        simp [isAbsolute, other]

end Scriptlet.Path
