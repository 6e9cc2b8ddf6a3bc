import Scriptlet.Proofs.Composition.Inlining

/-!
# Views that include themselves

A view that includes or extends itself is compiled again on every level until the limit of
nesting leaves it out.  So it unfolds into its own texts, once for each level, and nothing
but the one warning at the limit tells that it would go on.
-/

namespace Scriptlet.Composition

/-- The texts around a directive, with those of each inner level inside of them. -/
def unfolded (levels : Nat) (front back : Text) : Text :=
  (List.replicate levels front).flatten ++ (List.replicate levels back).flatten

theorem unfolded_succ (levels : Nat) (front back : Text) :
    unfolded (levels + 1) front back = front ++ (unfolded levels front back ++ back) := by
  have last : (List.replicate (levels + 1) back).flatten =
      (List.replicate levels back).flatten ++ back := by
    rw [List.replicate_succ', List.flatten_append, List.flatten_singleton]
  rw [unfolded, unfolded, last, List.replicate_succ, List.flatten_cons]
  simp only [List.append_assoc]

theorem unfolded_trimmed {front back : Text} (frontTrimmed : Trimmed front)
    (backTrimmed : Trimmed back) (levels : Nat) : Trimmed (unfolded levels front back) := by
  have repeated : ∀ text : Text, Trimmed text → Trimmed (List.replicate levels text).flatten := by
    intro text trimmed
    apply Trimmed.flatten
    intro part member
    exact List.eq_of_mem_replicate member ▸ trimmed
  exact (repeated front frontTrimmed).append (repeated back backTrimmed)

theorem notMem_unfolded {character : Char} {front back : Text} (frontFree : character ∉ front)
    (backFree : character ∉ back) (levels : Nat) : character ∉ unfolded levels front back := by
  simp only [unfolded, List.mem_append, List.mem_flatten, List.mem_replicate, not_or]
  constructor
  · rintro ⟨part, ⟨-, rfl⟩, member⟩
    exact frontFree member
  · rintro ⟨part, ⟨-, rfl⟩, member⟩
    exact backFree member

section

variable {word : Text} {pass : Pass} {compiler : Compiler} {name : ViewName}
  {front back : List Plain} {context after : Context} {bound levels : Nat}

/-- Where a nested view unfolds, the text that nests it is compiled around that. -/
theorem run_compile_around_unfolded (inlines : Inlines word pass)
    (nested : (compiler.compileNested (compiler.compile bound) name.text).run context =
      some (unfolded levels (plainText front) (plainText back), after))
    (outerFront outerBack : List Plain) :
    (compiler.compile (bound + 1) (around outerFront word name outerBack)).run context =
      some (Text.trim (plainText outerFront ++
        (unfolded levels (plainText front) (plainText back) ++ plainText outerBack)), after) := by
  have plain : ∀ special ∈ ['@', '\x7b', '\x7d'],
      special ∉ unfolded levels (plainText front) (plainText back) := by
    intro special listed
    exact notMem_unfolded (notMem_plainText listed front) (notMem_plainText listed back) levels
  apply inlines.run_compile nested (plain '@' (by decide))
  apply Text.unmarked_of_isQuiet
  exact Text.isQuiet_of_unbraced (plain '\x7b' (by decide))

/-- By induction on the levels that are left: on each of them the view is compiled around
what it unfolds to on the next one, and behind the last one it is left out. -/
theorem compileNested_unfolds (inlines : Inlines word pass)
    (loaded : compiler.loader.load name.text = .ok (around front word name back))
    (frontTrimmed : Trimmed (plainText front)) (backTrimmed : Trimmed (plainText back))
    (left : context.depth + levels = compiler.depthLimit) :
    ∃ bound, (compiler.compileNested (compiler.compile bound) name.text).run context =
      some (unfolded levels (plainText front) (plainText back),
        context.record (.nestedTooDeep name.text compiler.depthLimit)) := by
  induction levels generalizing context with
  | zero => exact ⟨0, Compiler.compileNested_run_of_limit (by omega)⟩
  | succ levels induction =>
      have below : context.depth < compiler.depthLimit := by omega
      have deeper : context.enter.depth + levels = compiler.depthLimit := by
        simp only [Context.enter]
        omega
      obtain ⟨bound, nested⟩ := induction deeper
      have compiled := run_compile_around_unfolded inlines nested front back
      rw [← unfolded_succ, unfolded_trimmed frontTrimmed backTrimmed] at compiled
      refine ⟨bound + 1, ?_⟩
      rw [Compiler.compileNested_run_of_ok below loaded, compiled]
      rfl

/-- A view that includes or extends itself unfolds to its texts, as often as there are
levels, with one warning, for the level that is too deep, and with no sections stored. -/
theorem compiles_unfolded (inlines : Inlines word pass)
    (loaded : compiler.loader.load name.text = .ok (around front word name back))
    (frontTrimmed : Trimmed (plainText front)) (backTrimmed : Trimmed (plainText back)) :
    ∃ diagnostic, diagnostic.code? = some "V-1-3".toList ∧ diagnostic.view? = some name.text ∧
      compiler.Compiles (Text.called word (quoted name.text)) {}
        (unfolded compiler.depthLimit (plainText front) (plainText back))
        { sections := [], diagnostics := [diagnostic], depth := 0 } := by
  have fresh : ({} : Context).depth + compiler.depthLimit = compiler.depthLimit :=
    Nat.zero_add compiler.depthLimit
  obtain ⟨bound, nested⟩ := compileNested_unfolds inlines loaded frontTrimmed backTrimmed fresh
  have compiled := run_compile_around_unfolded inlines nested [] []
  have alone : around [] word name [] = Text.called word (quoted name.text) :=
    List.append_nil _
  have trimmed := unfolded_trimmed frontTrimmed backTrimmed compiler.depthLimit
  refine ⟨.nestedTooDeep name.text compiler.depthLimit, rfl, rfl, bound + 1, ?_⟩
  rw [← alone, compiled]
  simp only [plainText, List.map_nil, List.nil_append, List.append_nil]
  exact congrArg (fun text => some (text, _)) trimmed

/-- A layout that extends itself, with blanks inside of its texts, up to the third level. -/
theorem compiles_unfolded_of_layout :
    let layout : Text := "<a b>)@extends('loop')</a>"
    let shout : Directive := ⟨"shout", fun argument? => argument?.getD []⟩
    let compiler : Compiler :=
      { registry := ⟨[shout]⟩, loader := .ofTable [("loop", layout)], depthLimit := 3 }
    (compiler.loader.load "loop" = .ok layout ∧ Trimmed "<a b>)" ∧ Trimmed "</a>") ∧
      ∃ diagnostic, diagnostic.code? = some "V-1-3".toList ∧
        diagnostic.view? = some "loop".toList ∧
        compiler.Compiles "@extends('loop')" {} "<a b>)<a b>)<a b>)</a></a></a>"
          { sections := [], diagnostics := [diagnostic], depth := 0 } := by
  intro layout shout compiler
  let name : ViewName := ⟨"loop", Text.forall_notMem rfl, rfl⟩
  let front : List Plain := List.pmap Plain.mk "<a b>)".toList (Text.forall_notMem rfl)
  let back : List Plain := List.pmap Plain.mk "</a>".toList (Text.forall_notMem rfl)
  have loaded : compiler.loader.load name.text = .ok (around front "extends" name back) := rfl
  have frontTrimmed : Trimmed (plainText front) := rfl
  have backTrimmed : Trimmed (plainText back) := rfl
  exact ⟨⟨loaded, frontTrimmed, backTrimmed⟩,
    compiles_unfolded .extension loaded frontTrimmed backTrimmed⟩

end

end Scriptlet.Composition
