import Scriptlet.Proofs.Compilation.Bodies
import Scriptlet.Proofs.Compilation.Bound
import Scriptlet.Proofs.Compilation.Endless

/-!
# Comments

Comments are dropped by the last pass but one.  The passes before it work on their texts as on
all others, so a comment that stores a section or loads a view does that, and one that opens an
argument and does not close it takes away what is behind the comment.  A comment whose text is
sealed, without places, without directives that store or load, and without custom ones, has no
effect.
-/

namespace Scriptlet

open Text

/-- What a comment begins with. -/
def Text.commentStart : Text := "\x7b\x7b--"

/-- A comment with this text. -/
def Text.remark (text : Text) : Text :=
  commentStart ++ text ++ commentEnd

namespace Compiler

open Pattern Directive

/-- Directives that a comment must not have: those with effects, and custom ones. -/
def banned (compiler : Compiler) : List Text :=
  effectNames ++ compiler.registry.names

/-- Every sign of a text begins a place that ends in the text. -/
def Places (text : Text) : Prop :=
  ∀ tail, '@' :: tail <:+ text → (yielding.run? ('@' :: tail)).isSome

instance (text : Text) : Decidable (Places text) :=
  decidable_of_iff _ forall_behind_signs_iff.symm

/-- A text with its places filled from the stored sections. -/
def fill (context : Context) (text : Text) : Text :=
  yielding.replace (resolveYield context) text

/-- Behind the pass for places, no comment and no directive begins in a text. -/
structure Still (compiler : Compiler) (text : Text) : Prop where
  uncommented : ¬ commentStart <:+: text
  unopened : ∀ opening ∈ "method(".toList :: compiler.registry.names, Unopened opening text

variable {compiler : Compiler} {context : Context} {calls : List (Text × Text)}
  {front back text : Text}

theorem regular_banned (named : compiler.registry.WellNamed) :
    Regular codeCalls compiler.banned := by
  have registered : ∀ name ∈ compiler.registry.names, IsOpening name := by
    intro name listed stop stopListed
    obtain ⟨directive, directiveListed, rfl⟩ := List.mem_map.mp listed
    exact Registry.notMem_map_fold_of_isName (named directive directiveListed)
      (List.mem_cons_of_mem _ stopListed)
  have known : Regular codeCalls effectNames := by decide +kernel
  exact ⟨known.letters, known.special, List.forall_mem_append.mpr ⟨known.opening, registered⟩⟩

theorem without_banned : compiler.Without compiler.banned :=
  ⟨List.subset_append_left _ _, fun _ listed =>
    List.mem_append_right _ (List.mem_map_of_mem listed)⟩

/-- The passes in front of the one for places turn a sealed text into one in which no argument
is open any more. -/
theorem exists_turned_text (named : compiler.registry.WellNamed)
    (isSealed : Sealed codeCalls compiler.banned text) :
    ∃ next, Sealed lateCalls compiler.banned next ∧
      compiler.TurnsAll (compiler.compile 1) (Pass.all.take 13) text next := by
  have regular := regular_banned named
  have earlyReady : ∀ pass ∈ Pass.all.take 9, Ready codeCalls compiler.banned pass :=
    fun pass _ => ready_codeCalls (List.subset_append_left _ _) pass
  obtain ⟨lowered, loweredSealed, early⟩ := exists_turnedAll compiler (compiler.compile 1)
    regular earlyReady isSealed (by decide)
  have stillSealed : Sealed codeCalls compiler.banned lowered :=
    loweredSealed.mono (List.subset_append_right _ _)
  obtain ⟨switched, switchedSealed, switches⟩ :=
    exists_turned_of_switches compiler regular without_banned stillSealed 0
  have lateReady : ∀ pass ∈ [Pass.caseLabels, .existenceGuards, .rawCode],
      Ready lateCalls compiler.banned pass := by
    have within : [Pass.caseLabels, .existenceGuards, .rawCode] ⊆
        [.caseLabels, .existenceGuards, .rawCode, .method] := by
      decide
    exact fun pass listed => ready_lateCalls (within listed)
  obtain ⟨next, nextSealed, late⟩ := exists_turnedAll compiler (compiler.compile 1)
    (regular_late regular) lateReady switchedSealed (by decide)
  refine ⟨next, nextSealed.mono (List.subset_append_right _ _), ?_⟩
  exact early.append (TurnsAll.cons switches late)

/-- A comment stands between its marks. -/
theorem append_remark (front text back : Text) :
    front ++ (remark text ++ back) =
      (front ++ commentStart) ++ (text ++ (commentEnd ++ back)) := by
  simp [remark]

/-- What a comment does not have is absent from it, whatever follows. -/
theorem absent_remark {α : Type} {opening : Text} {pattern : Pattern '@' α}
    (named : Named opening pattern) (isOpening : IsOpening opening)
    (unopened : Unopened opening text) (rest : Text) : pattern.Absent (remark text) rest := by
  apply Absent.append
  · apply Absent.append
    · exact Absent.of_notMem (by decide)
    · exact absent_of_unopened named unopened (isOpening.apart List.mem_cons_self)
  · exact Absent.of_notMem (by decide)

theorem named_yielding : Named "yield" yielding :=
  (Called.withArgument _).named.keepingWritten

theorem contained_of_places (places : Places text) (rest : Text) :
    yielding.Contained text rest := by
  intro tail suffix nonempty found recognised
  obtain ⟨head, tail, rfl⟩ := List.exists_cons_of_ne_nil nonempty
  obtain rfl : head = '@' := by
    have starts := yielding.head?_of_run? recognised
    simpa using starts
  -- the place is found in the text alone, and what is found does not depend on the rest
  obtain ⟨own, ownFound⟩ := Option.isSome_iff_exists.mp (places tail suffix)
  have isLocal : yielding.Local := (Local.withArgument _).keepingWritten
  have again := isLocal ownFound (own.rest ++ rest)
  rw [← List.append_assoc, ← yielding.whole ownFound, recognised] at again
  cases again
  exact List.suffix_append own.rest rest

theorem signed_of_places (places : Places text) : SignedBy ["yield"] text := by
  intro tail suffix
  obtain ⟨found, recognised⟩ := Option.isSome_iff_exists.mp (places tail suffix)
  exact ⟨_, List.mem_cons_self, named_yielding tail found recognised⟩

/-- Places are filled on both sides of a comment. -/
theorem fill_remark (named : compiler.registry.WellNamed) (places : Places front)
    (isSealed : Sealed calls compiler.banned text) (context : Context) (back : Text) :
    fill context (front ++ (remark text ++ back)) =
      fill context front ++ (remark text ++ fill context back) := by
  have isLocal : yielding.Local := (Local.withArgument _).keepingWritten
  have never : "yield".toList ∈ compiler.banned := List.mem_append_left _ (by decide)
  have absent := absent_remark named_yielding ((regular_banned named).opening _ never)
    (isSealed.unopened _ never) back
  rw [fill, replace_append_of_contained isLocal _ (contained_of_places places _),
    replace_append _ absent]
  rfl

/-- What is not opened in front of a comment is absent from there. -/
theorem absent_before_remark {α : Type} {opening : Text} {pattern : Pattern '@' α}
    (named : Named opening pattern) (isOpening : IsOpening opening)
    (unopened : Unopened opening front) (text rest : Text) :
    pattern.Absent front (remark text ++ rest) := by
  have brace : '\x7b' ∈ stops := by decide
  exact absent_of_unopened named unopened (isOpening.apart brace)

/-- The pass for methods works on a comment by itself. -/
theorem exists_method_remark (named : compiler.registry.WellNamed) (still : compiler.Still front)
    (isSealed : Sealed lateCalls compiler.banned text) :
    ∃ next, Sealed lateCalls compiler.banned next ∧ ∀ back,
      replaceEach methodRules (front ++ (remark text ++ back)) =
        front ++ (remark next ++ replaceEach methodRules back) := by
  let entry : Entry := .argument "method" fun argument => methodField (Text.unquote argument)
  have regular := regular_late (regular_banned named)
  have ready : Ready lateCalls compiler.banned .method := ready_lateCalls (by decide)
  have seals : Seals lateCalls "@" [entry] := ready.seals rfl
  have kept := isSealed.replace_rule regular seals
  refine ⟨entry.rule.replace id text,
    kept.mono (List.subset_append_right _ _), fun back => ?_⟩
  have one : ∀ text, replaceEach methodRules text = entry.rule.replace id text := fun text => by
    rw [replaceEach_eq_foldl]
    rfl
  have isOpening : IsOpening entry.opening := by decide
  have frontAbsent : entry.rule.Absent (front ++ commentStart) (text ++ (commentEnd ++ back)) := by
    apply Absent.append
    · have absent := absent_before_remark entry.rule_opened isOpening
        (still.unopened _ List.mem_cons_self) text back
      simpa [remark] using absent
    · exact Absent.of_notMem (by decide)
  rw [append_remark, append_remark, one, one, isSealed.replace_rule_between seals frontAbsent
    (isOpening.apart List.mem_cons_self), replace_append id (Absent.of_notMem (by decide))]

/-- Custom directives work behind a comment. -/
theorem apply_remark (named : compiler.registry.WellNamed) (still : compiler.Still front)
    (isSealed : Sealed calls compiler.banned text) (back : Text) :
    compiler.registry.apply (front ++ (remark text ++ back)) =
      front ++ (remark text ++ compiler.registry.apply back) := by
  rw [← List.append_assoc, ← List.append_assoc]
  apply replaceEach_append
  rw [List.forall_mem_map]
  intro directive listed rest
  have inNames : directive.name ∈ compiler.registry.names := List.mem_map_of_mem listed
  have never : directive.name ∈ compiler.banned := List.mem_append_right _ inNames
  have isOpening := (regular_banned named).opening _ never
  apply Absent.append
  · exact absent_before_remark directive.pattern_named isOpening
      (still.unopened _ (List.mem_cons_of_mem _ inNames)) text rest
  · exact absent_remark directive.pattern_named isOpening (isSealed.unopened _ never) rest

/-- A comment is dropped, with all that is in it. -/
theorem dropComments_remark (still : compiler.Still front)
    (isSealed : Sealed calls compiler.banned text) (back : Text) :
    dropComments (front ++ (remark text ++ back)) = front ++ dropComments back := by
  have begins : Opened commentStart comment := Opened.ofBetween _ _ _
  have ends : Opened commentEnd (literal '-' "-\x7d\x7d") := fun _ _ => prefix_of_literal
  have frontAbsent : comment.Absent front (remark text ++ back) := by
    have absent := absent_before_mark begins (by decide) still.uncommented
      (text ++ (commentEnd ++ back))
    simpa [remark] using absent
  have inside : (literal '-' "-\x7d\x7d").Absent text (commentEnd ++ back) :=
    absent_before_mark ends (by decide) isSealed.unended back
  have found : comment.run? (remark text ++ back) = some ⟨remark text, text, back⟩ :=
    between_run? rfl rfl inside
  rw [dropComments, replace_append _ frontAbsent, comment.replace_of_found _ found]
  rfl

/-- What a text behind a comment becomes. -/
def behind (compiler : Compiler) (context : Context) (back : Text) : Text :=
  dropComments (compiler.registry.apply (replaceEach methodRules (fill context back)))

/-- What the texts in front of a comment and behind it compile to. -/
def around (compiler : Compiler) (context : Context) (front back : Text) : Text :=
  Text.trim (Echo.interpolate .output (fill context front ++ compiler.behind context back))

/-- The passes from the one for places on. -/
private theorem run_late (named : compiler.registry.WellNamed) (places : Places front)
    (still : compiler.Still (fill context front)) (isSealed : Sealed lateCalls compiler.banned text)
    (compile : Text → Compilation Text) (back : Text) :
    ([Pass.yields, .method, .customDirectives, .comments, .echoes].foldlM
      (fun text pass => compiler.apply compile pass text) (front ++ (remark text ++ back))).run
        context =
      some (Echo.interpolate .output (fill context front ++ compiler.behind context back),
        context) := by
  obtain ⟨next, nextSealed, methods⟩ := exists_method_remark named still isSealed
  have filled : (compiler.apply compile .yields (front ++ (remark text ++ back))).run context =
      some (fill context front ++ (remark text ++ fill context back), context) := by
    rw [← fill_remark named places isSealed]
    rfl
  rw [run_foldlM_cons compiler compile filled]
  simp only [List.foldlM_cons, List.foldlM_nil, apply, pure_bind, methods,
    apply_remark named still nextSealed, dropComments_remark still nextSealed]
  rfl

/-- A text with a comment compiles to what is in front of the comment and behind it. -/
private theorem run_compile_remark (named : compiler.registry.WellNamed) (places : Places front)
    (still : compiler.Still (fill context front)) (backSigned : SignedBy ["yield"] back)
    (isSealed : Sealed codeCalls compiler.banned text) :
    (compiler.compile 2 (front ++ (remark text ++ back))).run context =
      some (compiler.around context front back, context) := by
  obtain ⟨turned, turnedSealed, turns⟩ := exists_turned_text named isSealed
  have frontSigned : SignedBy ["yield"] (front ++ commentStart) :=
    (signed_of_places places).append (SignedBy.of_unsigned (by decide))
  have behindSigned : SignedBy ["yield"] (commentEnd ++ back) :=
    (SignedBy.of_unsigned (by decide)).append backSigned
  -- the marks go with what is around the text, so that the passes turn the text between them
  have early := turns context ⟨frontSigned, behindSigned, by rintro head ⟨⟩; rfl⟩
  rw [← append_remark, ← append_remark] at early
  have row : Pass.all =
      Pass.all.take 13 ++ [.yields, .method, .customDirectives, .comments, .echoes] := rfl
  have late := run_late named places still turnedSealed (compiler.compile 1) back
  rw [compile, row, List.foldlM_append, StateT.run_bind, StateT.run_bind, early]
  simp only [Option.bind_eq_bind, Option.bind_some, late]
  rfl

/-- A comment whose text opens no argument without closing it, has no place, and uses neither
directives that store or load nor custom ones, has no effect between texts that have no other
directives than places, if what the places in front of it are filled with begins nothing that is
looked for later.  In every context the compile gives what is around the comment, as it does with
an empty comment, and leaves the context alone. -/
theorem comment_without_effect (named : compiler.registry.WellNamed) (places : Places front)
    (still : compiler.Still (fill context front)) (backSigned : SignedBy ["yield"] back)
    (isSealed : Sealed codeCalls compiler.banned text) :
    compiler.Compiles (front ++ (remark text ++ back)) context
        (compiler.around context front back) context ∧
      compiler.Compiles (front ++ (remark [] ++ back)) context
        (compiler.around context front back) context := by
  have emptySealed : Sealed codeCalls compiler.banned [] := Sealed.of_calm (by decide)
  exact ⟨⟨2, run_compile_remark named places still backSigned isSealed⟩,
    ⟨2, run_compile_remark named places still backSigned emptySealed⟩⟩

/-- A comment with blocks, a switch and an echo between places, where a custom directive is
registered and a section is stored. -/
theorem comment_without_effect_of_switch :
    let compiler : Compiler := { registry := ⟨[⟨"now", fun _ => "late"⟩]⟩, loader := .ofTable [] }
    let context : Context := { sections := [("k", "kept")] }
    let front : Text := "Dear @yield('k'), "
    let text : Text := "@if(a) \x7b\x7b b \x7d\x7d @switch(c) @case(d) @break @endswitch"
    let back : Text := " @yield('k') @yield('l')"
    compiler.registry.WellNamed ∧ Places front ∧ compiler.Still (fill context front) ∧
      SignedBy ["yield"] back ∧ Sealed codeCalls compiler.banned text ∧
      compiler.around context front back = "Dear kept,  kept @yield('l')".toList ∧
      compiler.Compiles (front ++ (remark text ++ back)) context
          (compiler.around context front back) context ∧
        compiler.Compiles (front ++ (remark [] ++ back)) context
          (compiler.around context front back) context := by
  intro compiler context front text back
  have named : compiler.registry.WellNamed := by
    intro directive listed
    rw [List.mem_singleton.mp listed]
    decide
  have places : Places front := by decide +kernel
  have still : compiler.Still (fill context front) := ⟨by decide +kernel, by decide +kernel⟩
  have backSigned : SignedBy ["yield"] back := by decide +kernel
  have isSealed : Sealed codeCalls compiler.banned text := by decide +kernel
  have answer : compiler.around context front back = "Dear kept,  kept @yield('l')".toList := by
    decide +kernel
  exact ⟨named, places, still, backSigned, isSealed, answer,
    comment_without_effect named places still backSigned isSealed⟩

/-- A section that is stored in a comment stays stored. -/
theorem section_stored_in_comment :
    let compiler : Compiler := { registry := {}, loader := .ofTable [] }
    let text : Text := "@section('k','v')"
    ¬ commentEnd <:+: text ∧
      compiler.Compiles (remark text) {} [] { sections := [("k", "v")] } ∧
      compiler.Compiles (remark []) {} [] {} ∧
      ¬ ∃ compiled after, compiler.Compiles (remark text) {} compiled after ∧
        compiler.Compiles (remark []) {} compiled after := by
  intro compiler text
  have stores : compiler.Compiles (remark text) {} [] { sections := [("k", "v")] } :=
    ⟨1, by decide +kernel⟩
  have empty : compiler.Compiles (remark []) {} [] {} := ⟨1, by decide +kernel⟩
  refine ⟨by decide, stores, empty, ?_⟩
  rintro ⟨compiled, after, ⟨bound, ran⟩, ⟨emptyBound, emptyRan⟩⟩
  obtain ⟨storesBound, storesRan⟩ := stores
  obtain ⟨otherBound, otherRan⟩ := empty
  cases compile_unique ran storesRan
  cases compile_unique emptyRan otherRan

end Compiler

end Scriptlet
