import Scriptlet.Proofs.Template.Switches

/-!
# The compiler agrees with the tree

Compiling what a well-formed template is written as gives the code of its tree.  The
passes up to the switches lower directives of the whole text and of the bodies in it
together; then each body is compiled on its own, and the last passes treat a body and
the whole text alike.
-/

namespace Scriptlet.Template

open Pattern

/-- The directives that are lowered before the switches. -/
def beforeSwitches : List Mark :=
  [Pass.environment, .loops, .jumps, .conditionals].flatMap marksOf

section Compiling

variable {compiler : Compiler} (unregistered : compiler.registry.directives = [])
  {atoms : List Atom}

include unregistered

/-- The last passes give the code of a row whose directives are lowered. -/
private theorem lastPasses_eq {lowered : List Mark}
    (all : ∀ mark, mark ∉ marksOf .switches → mark ∈ lowered)
    (unswitched : Unswitched (atoms.flatMap Atom.tokens)) :
    Echo.interpolate .output (Directive.dropComments
        (compiler.registry.apply (stagedText lowered (atoms.flatMap Atom.tokens)))) =
      atoms.flatMap Atom.code := by
  have stretches : stagedText lowered (atoms.flatMap Atom.tokens) =
      (atoms.map Atom.stretch).flatMap Stretch.print := by
    rw [stagedText_flatMap, List.flatMap_map]
    apply List.flatMap_congr
    intro atom member
    apply Atom.stretch_print all
    intro used usedMember
    exact unswitched used (List.mem_flatMap.mpr ⟨atom, member, usedMember⟩)
  have codes : (atoms.map Atom.stretch).flatMap Stretch.code = atoms.flatMap Atom.code := by
    rw [List.flatMap_map]
    exact List.flatMap_congr fun atom _ => atom.stretch_code
  rw [Registry.apply_of_unregistered unregistered, stretches, echoes_of_stretches, codes]

/-- The passes after the switches give the code of a row. -/
theorem foldlM_afterSwitches (compile : Text → Compilation Text)
    (unswitched : Unswitched (atoms.flatMap Atom.tokens))
    (spaced : Spaced (atoms.flatMap Atom.tokens)) :
    (Pass.all.drop 10).foldlM (fun text pass => compiler.apply compile pass text)
        (stagedText beforeSwitches (atoms.flatMap Atom.tokens)) =
      (pure (atoms.flatMap Atom.code) : Compilation Text) := by
  let labelled : List Pass := [.caseLabels, .existenceGuards, .rawCode]
  let guarded := beforeSwitches ++ labelled.flatMap marksOf
  let finished := guarded ++ [Pass.method].flatMap marksOf
  have split : Pass.all.drop 10 =
      labelled ++ ([Pass.yields] ++ ([Pass.method] ++
        [Pass.customDirectives, .comments, .echoes])) :=
    rfl
  have labels := foldlM_staged compiler compile (by decide : ∀ pass ∈ labelled, _) spaced
    (by decide +kernel : clears (labelled.flatMap marksOf) beforeSwitches = true)
  have unmarked : ∀ pass ∈ [Pass.yields], marksOf pass = [] := by decide
  have yields := foldlM_idle_staged compiler compile guarded
    (by decide : ∀ pass ∈ [Pass.yields], _) spaced
    fun pass listed used _ _ => by simp [unmarked pass listed]
  have method := foldlM_staged compiler compile (by decide : ∀ pass ∈ [Pass.method], _) spaced
    (by decide +kernel : clears ([Pass.method].flatMap marksOf) guarded = true)
  have all : ∀ mark, mark ∉ marksOf .switches → mark ∈ finished := by
    have listed : ∀ mark ∈ Pass.all.flatMap marksOf, mark ∉ marksOf .switches →
        mark ∈ finished := by
      decide +kernel
    exact fun mark => listed mark (mem_marks mark)
  rw [split, List.foldlM_append, labels, pure_bind, List.foldlM_append, yields, pure_bind,
    List.foldlM_append, method, pure_bind, ← lastPasses_eq unregistered all unswitched]
  rfl

/-- The body of a switch is compiled to its trimmed code. -/
theorem compile_body (bound : Nat) (unswitched : Unswitched (atoms.flatMap Atom.tokens))
    (spaced : Spaced (atoms.flatMap Atom.tokens)) :
    compiler.compile (bound + 1)
        (Text.trim (stagedText beforeSwitches (atoms.flatMap Atom.tokens))) =
      pure (Text.trim (atoms.flatMap Atom.code)) := by
  let kept := trimItems Atom.isBlank atoms
  have trimmed : Text.trim (stagedText beforeSwitches (atoms.flatMap Atom.tokens)) =
      stagedText beforeSwitches (kept.flatMap Atom.tokens) := by
    rw [stagedText_flatMap, stagedText_flatMap]
    exact trim_flatMap fun atom _ => Atom.writtenTightly (by decide +kernel) atom
  have infixed : kept.flatMap Atom.tokens <:+: atoms.flatMap Atom.tokens := by
    obtain ⟨front, back, whole⟩ := trimItems_isInfix Atom.isBlank atoms
    exact ⟨front.flatMap Atom.tokens, back.flatMap Atom.tokens, by
      rw [← whole, List.flatMap_append, List.flatMap_append]⟩
  have keptUnswitched : Unswitched (kept.flatMap Atom.tokens) :=
    fun used member => unswitched used (infixed.subset member)
  have keptSpaced : Spaced (kept.flatMap Atom.tokens) := List.IsChain.infix spaced infixed
  have covered : ∀ pass ∈ Pass.all.take 10, ∀ mark ∈ marksOf pass,
      mark ∈ beforeSwitches ∨ mark ∈ marksOf .switches := by
    decide
  have idle := foldlM_idle_staged compiler (compiler.compile bound) beforeSwitches
    (by decide : ∀ pass ∈ Pass.all.take 10, _) keptSpaced
    fun pass listed used member pending own =>
      (covered pass listed used.mark own).elim pending (keptUnswitched used member)
  have split : Pass.all = Pass.all.take 10 ++ Pass.all.drop 10 := rfl
  rw [trimmed, Compiler.compile, split, List.foldlM_append, idle, pure_bind,
    foldlM_afterSwitches unregistered (compiler.compile bound) keptUnswitched keptSpaced,
    pure_bind, trim_flatMap_trimItems fun atom _ => atom.code_of_isBlank]

/-- Compiling a well-formed template gives the trimmed code of its tree and leaves the
context alone. -/
theorem compile_print (bound : Nat) {view : View} (spaced : View.WellSpaced view) :
    compiler.compile (bound + 2) (View.print view) = pure (Text.trim (View.code view)) := by
  let rules : List Pass := [.environment, .loops, .jumps, .conditionals]
  let atoms := (View.segments view).map Segment.lower
  have split : Pass.all =
      Pass.all.take 5 ++ (rules ++ ([Pass.switches] ++ Pass.all.drop 10)) :=
    rfl
  have unmarked : ∀ pass ∈ Pass.all.take 5, marksOf pass = [] := by decide
  have idle := foldlM_idle_staged compiler (compiler.compile (bound + 1)) []
    (by decide : ∀ pass ∈ Pass.all.take 5, _) spaced
    fun pass listed used _ _ => by simp [unmarked pass listed]
  have lowered : rules.foldlM
      (fun text pass => compiler.apply (compiler.compile (bound + 1)) pass text)
      (stagedText [] (View.tokens view)) =
        (pure (stagedText beforeSwitches (View.tokens view)) : Compilation Text) :=
    foldlM_staged compiler (compiler.compile (bound + 1)) (by decide) spaced (by decide +kernel)
  have wellFormed := View.segments_wellFormed view
  have atomTokens : ((View.segments view).flatMap fun segment => segment.lower.tokens) =
      atoms.flatMap Atom.tokens :=
    (List.flatMap_map _ _ _).symm
  have bodies : CompilesBodies (compiler.compile (bound + 1)) beforeSwitches := by
    intro body unswitched bodySpaced context
    rw [compile_body unregistered bound unswitched bodySpaced]
    rfl
  have switches : compiler.apply (compiler.compile (bound + 1)) .switches
      (stagedText beforeSwitches (View.tokens view)) =
        pure (stagedText beforeSwitches (atoms.flatMap Atom.tokens)) := by
    funext context
    rw [← atomTokens]
    exact run_switches (by decide +kernel) bodies wellFormed spaced context
  have atomsUnswitched : Unswitched (atoms.flatMap Atom.tokens) := by
    rw [← atomTokens]
    exact Unswitched.flatMap fun segment member =>
      Segment.lower_unswitched (wellFormed segment member)
  have atomsSpaced : Spaced (atoms.flatMap Atom.tokens) := by
    rw [← atomTokens]
    exact Segment.lower_spaced [] spaced
  have codes : atoms.flatMap Atom.code = View.code view := by
    rw [← View.code_eq, List.flatMap_map]
    exact List.flatMap_congr fun segment _ => segment.lower_code
  rw [← View.staged_nil, Compiler.compile, split, List.foldlM_append, idle, pure_bind,
    List.foldlM_append, lowered, pure_bind, List.foldlM_append, List.foldlM_cons, switches,
    pure_bind, List.foldlM_nil, pure_bind,
    foldlM_afterSwitches unregistered _ atomsUnswitched atomsSpaced, pure_bind, codes]

end Compiling

/-- The compiler agrees with the tree on every well-formed template. -/
theorem compiles_print {compiler : Compiler} (unregistered : compiler.registry.directives = [])
    (view : View) (spaced : View.WellSpaced view) (context : Context) :
    compiler.Compiles (View.print view) context (Text.trim (View.code view)) context :=
  ⟨2, by rw [compile_print unregistered 0 spaced]; rfl⟩

/-- A conditional with a switch in it. -/
def orderView : View :=
  .conditional ⟨"If", by decide +kernel⟩ ⟨"order", Text.forall_notMem rfl⟩
    (.leaf (.switch ⟨"switch", rfl⟩ ⟨" state ", Text.forall_notMem rfl⟩
      (.leaf (.simple (.passage (.plain ⟨' ', by decide⟩)))
        (.leaf (.caseLabel ⟨"case", rfl⟩ ⟨"1", Text.forall_notMem rfl⟩)
          (.leaf (.simple (.passage (.escaped ⟨"name", by decide, by decide +kernel⟩)))
            (.leaf (.simple (.breakLoop ⟨"BREAK", by decide +kernel⟩)) .done))))
      ⟨"endswitch", rfl⟩) .done)
    (.otherwise ⟨"else", rfl⟩ (.leaf (.simple (.passage (.plain ⟨'-', by decide⟩))) .done)
      ⟨"endif", rfl⟩)
    .done

theorem compiles_print_of_orderView :
    let compiler : Compiler := { registry := {}, loader := .ofTable [] }
    compiler.Compiles
      (("@If(order)@switch( state ) @case(1)" : Text) ++
        "\x7b\x7b name \x7d\x7d@BREAK@endswitch@else-@endif") {}
      (("<% if (order) \x7b %><% switch (state) \x7b %><% case 1: %>" : Text) ++
        "<%- escapeHtml(name) %><% break; %><% \x7d %><% \x7d else \x7b %>-<% \x7d %>") {} := by
  intro compiler
  have printed : View.print orderView = ("@If(order)@switch( state ) @case(1)" : Text) ++
      "\x7b\x7b name \x7d\x7d@BREAK@endswitch@else-@endif" := by
    decide +kernel
  have translated : Text.trim (View.code orderView) =
      ("<% if (order) \x7b %><% switch (state) \x7b %><% case 1: %>" : Text) ++
        "<%- escapeHtml(name) %><% break; %><% \x7d %><% \x7d else \x7b %>-<% \x7d %>" := by
    decide +kernel
  rw [← printed, ← translated]
  exact compiles_print rfl orderView (by decide +kernel) {}

end Scriptlet.Template
