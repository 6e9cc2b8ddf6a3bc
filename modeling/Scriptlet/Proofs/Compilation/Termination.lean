import Scriptlet.Proofs.Compilation.Ending
import Scriptlet.Proofs.Compilation.Idle
import Scriptlet.Proofs.Compilation.Nested
import Scriptlet.Proofs.Directive.Signs

/-!
# Compiles that end

The bodies of sections and switches have fewer signs than the text around them, as
long as nested views bring no signs into it.  Then the signs of the source and the
levels that are left bound how deeply compiles are nested.
-/

namespace Scriptlet.Compiler

open Compilation

/-- Compiled views have no signs left. -/
def LeavesNoSigns (compiler : Compiler) : Prop :=
  ∀ name source, compiler.loader.load name = .ok source →
    ∀ before compiled after, compiler.Compiles source before compiled after → '@' ∉ compiled

theorem leavesNoSigns_of_plain_views {compiler : Compiler}
    (plain : ∀ name view, compiler.loader.load name = .ok view → '@' ∉ view) :
    compiler.LeavesNoSigns := by
  intro name view loaded before compiled after compiles
  obtain ⟨bound, ran⟩ := compiles
  cases bound with
  | zero => cases ran
  | succ bound =>
      have viewPlain := plain name view loaded
      rw [compile_of_unsigned compiler viewPlain] at ran
      cases ran
      have dropped : Text.signs (Directive.dropComments view) ≤ Text.signs view :=
        Directive.signs_dropComments_le view
      have echoed := Echo.signs_interpolate_le .output (Directive.dropComments view)
      have trimmed := Text.signs_trim_le (Echo.interpolate .output (Directive.dropComments view))
      rw [← Text.signs_eq_zero] at viewPlain ⊢
      omega

def passesBeforeSwitches : List Pass :=
  [.extensions, .inlineSections, .blockSections, .inclusions, .forms, .environment,
   .loops, .jumps, .conditionals]

def passesAfterSwitches : List Pass :=
  [.caseLabels, .existenceGuards, .rawCode, .yields, .method, .customDirectives,
   .comments, .echoes]

private theorem passes_split :
    Pass.all = passesBeforeSwitches ++ Pass.switches :: passesAfterSwitches :=
  rfl

variable {compiler : Compiler} {compile : Text → Compilation Text} {depth : Nat}

theorem compileNested_ends {name : Text}
    (served : ∀ source, depth < compiler.depthLimit → compiler.loader.load name = .ok source →
      Ends (fun context => context.depth = depth + 1) (fun compiled => Text.signs compiled = 0)
        (compile source)) :
    Ends (fun context => context.depth = depth) (fun compiled => Text.signs compiled = 0)
      (compiler.compileNested compile name) := by
  intro context level
  by_cases reached : compiler.depthLimit ≤ context.depth
  · exact ⟨_, _, compileNested_run_of_limit reached, level, rfl⟩
  · have below : context.depth < compiler.depthLimit := Nat.lt_of_not_le reached
    cases loaded : compiler.loader.load name with
    | error failure => exact ⟨_, _, compileNested_run_of_error below loaded, level, rfl⟩
    | ok source =>
        have entered : context.enter.depth = depth + 1 := congrArg (· + 1) level
        obtain ⟨compiled, inner, ran, innerLevel, unsigned⟩ :=
          served source (level ▸ below) loaded context.enter entered
        have left : inner.leave.depth = depth := by
          simp [Context.leave, innerLevel]
        refine ⟨compiled, inner.leave, ?_, left, unsigned⟩
        rw [compileNested_run_of_ok below loaded, ran]
        rfl

private theorem store_ends (key content : Text) :
    Ends (fun context => context.depth = depth) (fun _ => True)
      (modify (Context.store key content) : Compilation PUnit) :=
  Ends.ofModify fun _ level => level

/-- Replacing uses of a pattern ends without more signs than before, if each
replacement ends with at most the signs of what it replaces. -/
private theorem replaceM_ends_with_signs {α : Type} (pattern : Pattern '@' α)
    {replacement : α → Compilation Text} {text : Text}
    (each : ∀ tail found, tail <:+ text → pattern.run? tail = some found →
      Ends (fun context => context.depth = depth)
        (fun replaced => Text.signs replaced ≤ Text.signs found.written)
        (replacement found.captured)) :
    Ends (fun context => context.depth = depth)
      (fun replaced => Text.signs replaced ≤ Text.signs text)
      (pattern.replaceM replacement text) := by
  refine Ends.replaceM (fun written replaced => Text.signs replaced ≤ Text.signs written)
    pattern (fun text => Nat.le_refl _) ?_ each
  intro left right leftReplaced rightReplaced leftSmaller rightSmaller
  rw [Text.signs_append, Text.signs_append]
  exact Nat.add_le_add leftSmaller rightSmaller

/-- The body of a block has fewer signs than the text that the block is in. -/
private theorem signs_body_lt {opening : Pattern '@' Text} {ending : Text}
    (carries : opening.toScan.Carries fun argument => Text.signs argument + 1)
    {text tail : Text} {found : Found (Text × Text)} (suffix : tail <:+ text)
    (recognised : (Pattern.blockOf opening ending).run? tail = some found) :
    Text.signs found.captured.2 < Text.signs text := by
  have block : Text.signs found.captured.1 + Text.signs found.captured.2 + 1 ≤
      Text.signs found.written :=
    Pattern.blockOf_carries ending carries tail found recognised
  have whole := Pattern.signs_whole _ recognised
  have within := Text.signs_le_of_sublist suffix.sublist
  omega

theorem apply_ends_before_switches {text : Text}
    (nested : ∀ name, Ends (fun context => context.depth = depth)
      (fun compiled => Text.signs compiled = 0) (compiler.compileNested compile name))
    (bodies : ∀ body, Text.signs body < Text.signs text →
      Ends (fun context => context.depth = depth) (fun _ => True) (compile body))
    {pass : Pass} (early : pass ∈ passesBeforeSwitches) :
    Ends (fun context => context.depth = depth)
      (fun replaced => Text.signs replaced ≤ Text.signs text)
      (compiler.apply compile pass text) := by
  have ruled : ∀ entries : List Directive.Entry, pass.entries? = some entries →
      (∀ entry ∈ entries, entry.AddsNoSigns) →
      Ends (fun context => context.depth = depth)
        (fun replaced => Text.signs replaced ≤ Text.signs text)
        (compiler.apply compile pass text) := by
    intro entries follows saving
    rw [apply_of_entries compiler compile follows]
    exact Ends.ofPure (Directive.signs_replaceEach_le saving text)
  have loads : ∀ pattern : Pattern '@' Text, Ends (fun context => context.depth = depth)
      (fun replaced => Text.signs replaced ≤ Text.signs text)
      (pattern.replaceM
        (fun name => compiler.compileNested compile (Text.unquote name)) text) := by
    intro pattern
    apply replaceM_ends_with_signs
    intro tail found suffix recognised
    apply (nested (Text.unquote found.captured)).weaken
    intro compiled unsigned
    rw [unsigned]
    exact Nat.zero_le _
  simp only [passesBeforeSwitches, List.mem_cons, List.not_mem_nil, or_false] at early
  rcases early with rfl | rfl | rfl | rfl | rfl | rfl | rfl | rfl | rfl
  · exact loads extension
  · apply replaceM_ends_with_signs
    intro tail found suffix recognised
    apply Ends.bind (store_ends _ _)
    intro _ _
    exact Ends.ofPure (Nat.zero_le _)
  · apply replaceM_ends_with_signs
    intro tail found suffix recognised
    have fewer := signs_body_lt (Pattern.withSomeArgument_carries _) suffix recognised
    apply Ends.bind (bodies found.captured.2 fewer)
    intro content _
    apply Ends.bind (store_ends _ _)
    intro _ _
    exact Ends.ofPure (Nat.zero_le _)
  · exact loads inclusion
  · exact Ends.ofPure (Directive.signs_lowerForms_le text)
  · exact ruled _ rfl Directive.environmentEntries_addNoSigns
  · exact ruled _ rfl Directive.loopEntries_addNoSigns
  · exact ruled _ rfl Directive.jumpEntries_addNoSigns
  · exact ruled _ rfl Directive.conditionalEntries_addNoSigns

theorem apply_ends_at_switches {text : Text}
    (bodies : ∀ body, Text.signs body < Text.signs text →
      Ends (fun context => context.depth = depth) (fun _ => True) (compile body)) :
    Ends (fun context => context.depth = depth) (fun _ => True)
      (compiler.apply compile .switches text) := by
  refine Ends.replaceM (fun _ _ => True) Directive.switchBlock (fun _ => trivial)
    (fun _ _ _ _ _ _ => trivial) ?_
  intro tail found suffix recognised
  have fewer := signs_body_lt (Pattern.withArgument_carries _) suffix recognised
  have trimmed := Text.signs_trim_le found.captured.2
  apply Ends.bind (bodies (Text.trim found.captured.2) (Nat.lt_of_le_of_lt trimmed fewer))
  intro body _
  exact Ends.ofPure trivial

theorem apply_ends_after_switches {pass : Pass} (late : pass ∈ passesAfterSwitches)
    (text : Text) :
    Ends (fun context => context.depth = depth) (fun _ => True)
      (compiler.apply compile pass text) := by
  intro context level
  simp only [passesAfterSwitches, List.mem_cons, List.not_mem_nil, or_false] at late
  rcases late with rfl | rfl | rfl | rfl | rfl | rfl | rfl | rfl <;>
    exact ⟨_, context, rfl, level, trivial⟩

/-- A compile ends if nested views do and so do the texts with fewer signs. -/
theorem compile_succ_ends {bound : Nat} {source : Text}
    (nested : ∀ name, Ends (fun context => context.depth = depth)
      (fun compiled => Text.signs compiled = 0)
      (compiler.compileNested (compiler.compile bound) name))
    (bodies : ∀ body, Text.signs body < Text.signs source →
      Ends (fun context => context.depth = depth) (fun _ => True)
        (compiler.compile bound body)) :
    Ends (fun context => context.depth = depth) (fun _ => True)
      (compiler.compile (bound + 1) source) := by
  have smallerBodies : ∀ text, Text.signs text ≤ Text.signs source →
      ∀ body, Text.signs body < Text.signs text →
        Ends (fun context => context.depth = depth) (fun _ => True)
          (compiler.compile bound body) :=
    fun text smaller body fewer => bodies body (Nat.lt_of_lt_of_le fewer smaller)
  let step := fun text pass => compiler.apply (compiler.compile bound) pass text
  have before : Ends (fun context => context.depth = depth)
      (fun text => Text.signs text ≤ Text.signs source)
      (passesBeforeSwitches.foldlM step source) := by
    refine Ends.foldlM ?_ (Nat.le_refl _)
    intro pass early text smaller
    apply (apply_ends_before_switches nested (smallerBodies text smaller) early).weaken
    intro replaced fewer
    exact fewer.trans smaller
  have rest : ∀ text, Text.signs text ≤ Text.signs source →
      Ends (fun context => context.depth = depth) (fun _ => True)
        ((Pass.switches :: passesAfterSwitches).foldlM step text) := by
    intro text smaller
    rw [List.foldlM_cons]
    apply Ends.bind (apply_ends_at_switches (smallerBodies text smaller))
    intro replaced _
    refine Ends.foldlM ?_ trivial
    intro pass late text _
    exact apply_ends_after_switches late text
  rw [Compiler.compile, passes_split, List.foldlM_append]
  apply Ends.bind (Ends.bind before rest)
  intro compiled _
  exact Ends.ofPure trivial

/-- Where nested views bring no signs in, the bound is the signs of the source and,
for each level left, those of a view. -/
theorem compile_ends {largest bound : Nat} {source : Text}
    (views : depth < compiler.depthLimit → compiler.LeavesNoSigns ∧
      ∀ name view, compiler.loader.load name = .ok view → Text.signs view ≤ largest)
    (enough : Text.signs source + (compiler.depthLimit - depth) * (largest + 1) < bound) :
    Ends (fun context => context.depth = depth) (fun _ => True)
      (compiler.compile bound source) := by
  induction bound generalizing depth source with
  | zero => omega
  | succ bound induction =>
      have bodies : ∀ body, Text.signs body < Text.signs source →
          Ends (fun context => context.depth = depth) (fun _ => True)
            (compiler.compile bound body) := by
        intro body fewer
        exact induction views (by omega)
      refine compile_succ_ends ?_ bodies
      intro name
      apply compileNested_ends
      intro view below loaded context level
      obtain ⟨unsigned, small⟩ := views below
      have viewSmall := small name view loaded
      obtain ⟨levels, left⟩ : ∃ levels, compiler.depthLimit - depth = levels + 1 :=
        Nat.exists_eq_succ_of_ne_zero (by omega)
      have fewer : compiler.depthLimit - (depth + 1) = levels := by omega
      rw [left, Nat.succ_mul] at enough
      have enoughLeft : Text.signs view +
          (compiler.depthLimit - (depth + 1)) * (largest + 1) < bound := by
        rw [fewer]
        omega
      obtain ⟨compiled, after, ran, afterLevel, -⟩ :=
        induction (fun _ => ⟨unsigned, small⟩) enoughLeft context level
      have plain := unsigned name view loaded context compiled after ⟨bound, ran⟩
      exact ⟨compiled, after, ran, afterLevel, Text.signs_eq_zero.mpr plain⟩

end Scriptlet.Compiler
