import Scriptlet.Proofs.Compilation.Settled
import Scriptlet.Proofs.Pattern.Parting

/-!
# Compiling compiled text

What a pass writes begins with code, where the text it replaces begins with a sign or a brace.
So as long as comments, layouts and stored contents keep out of the way, a pass that
replaces anything parts the text from what it was, and no later pass brings it back: then
exactly the settled texts compile to themselves.
-/

namespace Scriptlet

open Directive Compilation

namespace Pass

/-- The passes that put together views and sections. -/
def layout : List Pass :=
  [.extensions, .inlineSections, .blockSections, .inclusions]

/-- The passes that may change the context. -/
def effects : List Pass :=
  .switches :: layout

/-- All code that the entries of a pass stand for begins plainly. -/
theorem code_beginsPlainly {pass : Pass} {entries : List Entry}
    (follows : pass.entries? = some entries) :
    ∀ entry ∈ entries, ∀ argument, Text.beginsPlainly (entry.code argument) = true := by
  cases pass <;> cases follows <;>
    · simp only [environmentEntries, loopEntries, jumpEntries, conditionalEntries,
        caseLabelEntries, existenceEntries, rawCodeEntries, methodEntries, Entry.block,
        List.forall_mem_cons, List.not_mem_nil, false_implies, implies_true, and_true]
      and_intros <;> intros <;> rfl

end Pass

namespace Compiler

variable {compiler : Compiler} {compile : Text → Compilation Text} {context after : Context}
  {text result original : Text} {pass : Pass} {passes : List Pass}

/-- What a pass writes into a text cannot be mistaken for what it takes out, and no layout,
section, included view or comment is left in the text. -/
structure Legible (compiler : Compiler) (context : Context) (text : Text) : Prop where
  layout : ∀ pass ∈ Pass.layout, compiler.Rests context text pass
  uncommented : ¬ "\x7b\x7b--".toList <:+: text
  contents : ∀ entry ∈ context.sections, Text.beginsPlainly entry.2 = true
  answers : ∀ directive ∈ compiler.registry.directives, ∀ argument?,
    Text.beginsPlainly (directive.handler argument?) = true

private theorem entries_rest_or_parted {entries : List Entry}
    (plain : ∀ entry ∈ entries, ∀ argument, Text.beginsPlainly (entry.code argument) = true)
    (text : Text) :
    (∀ entry ∈ entries, entry.rule.uses text = []) ∨
      Text.Parted text (Pattern.replaceEach (entries.map Entry.rule) text) := by
  apply Pattern.unused_or_parted_replaceEach_map (by decide)
  intro entry listed tail found recognised
  obtain ⟨argument, captured⟩ := Entry.captured_of_rule recognised
  rw [captured]
  exact plain entry listed argument

private theorem forms_rest_or_parted (text : Text) :
    (formBlock.uses text = [] ∧ ∀ rule ∈ controlRules, rule.uses text = []) ∨
      Text.Parted text (lowerForms text) := by
  have controls : ∀ text, (∀ rule ∈ controlRules, rule.uses text = []) ∨
      Text.Parted text (Pattern.replaceEach controlRules text) := by
    rw [controlRules_eq]
    intro text
    simp only [List.forall_mem_map]
    apply entries_rest_or_parted
    intro entry listed argument
    obtain ⟨method, -, rfl⟩ := List.mem_map.mp listed
    rfl
  rw [lowerForms]
  cases measured : text.length with
  | zero =>
      have empty : text = [] := List.length_eq_zero_iff.mp measured
      subst empty
      exact .inl ⟨Pattern.uses_eq_nil_iff.mpr rfl, fun rule _ => Pattern.uses_eq_nil_iff.mpr rfl⟩
  | succ bound =>
      have blocks := formBlock.unused_or_parted_replace (by decide)
        (fun block => formStatement "start" block.1 ++ lowerFormsWithin bound (Text.trim block.2)
          ++ formClosing)
        (fun _ _ _ => rfl) text
      rw [lowerFormsWithin]
      rcases blocks with unused | parted
      · rw [formBlock.replace_of_firstUse?_none _ (Pattern.uses_eq_nil_iff.mp unused)]
        exact (controls text).imp_left fun others => ⟨unused, others⟩
      · rcases controls _ with others | again
        · rw [Pattern.replaceEach_of_unused others]
          exact .inr parted
        · exact .inr (parted.trans again)

private theorem echoes_rest_or_parted (text : Text) :
    (∀ pattern ∈ Echo.patterns .output, pattern.uses text = []) ∨
      Text.Parted text (Echo.interpolate .output text) := by
  apply Pattern.unused_or_parted_replaceEach (by decide)
  rw [Echo.patterns]
  simp only [List.forall_mem_cons, List.not_mem_nil, false_implies, implies_true, and_true]
  constructor
  all_goals
    intro tail found recognised
    obtain ⟨inner, -, rfl⟩ := Pattern.map_run?_eq_some.mp recognised
    rfl

/-- Resolved places part a text, as soon as all contents begin plainly. -/
private theorem yields_rest_or_parted
    (contents : ∀ entry ∈ context.sections, Text.beginsPlainly entry.2 = true) (text : Text) :
    compiler.Rests context text .yields ∨
      Text.Parted text (yielding.replace (resolveYield context) text) := by
  have resolved : ∀ (use : Found (Text × Text)) (content : Text),
      Table.get? (Text.unquote use.captured.2) context.sections = some content →
        Text.beginsPlainly (resolveYield context use.captured) = true := by
    intro use content stored
    rw [resolveYield, stored]
    exact contents _ (Table.mem_of_get? stored)
  by_cases rests : compiler.Rests context text .yields
  · exact .inl rests
  · right
    apply Pattern.parted_replace (by decide)
    · intro use listed
      cases stored : Table.get? (Text.unquote use.captured.2) context.sections with
      | none =>
          rw [resolveYield, stored]
          exact .inl (Pattern.captured_written listed)
      | some content => exact .inr (resolved use content stored)
    · simp only [Rests, not_forall] at rests
      obtain ⟨use, listed, stored⟩ := rests
      obtain ⟨content, stored⟩ := Option.ne_none_iff_exists'.mp stored
      exact ⟨use, listed, resolved use content stored⟩

/-- Where no comment begins, none is dropped. -/
private theorem comments_rest (uncommented : ¬ "\x7b\x7b--".toList <:+: text) :
    comment.uses text = [] := by
  cases used : comment.firstUse? 0 text with
  | none => exact Pattern.uses_of_firstUse?_none used
  | some use =>
      have written := Pattern.written_of_between (comment.run?_of_firstUse? used)
      have whole := comment.firstUse?_whole used
      rw [written, List.append_assoc, ← List.append_assoc] at whole
      exact absurd ⟨_, _, whole.symm⟩ uncommented

private theorem customs_rest_or_parted
    (answers : ∀ directive ∈ compiler.registry.directives, ∀ argument?,
      Text.beginsPlainly (directive.handler argument?) = true) (text : Text) :
    (∀ directive ∈ compiler.registry.directives, directive.pattern.uses text = []) ∨
      Text.Parted text (compiler.registry.apply text) := by
  apply Pattern.unused_or_parted_replaceEach_map (by decide)
  intro directive listed tail found recognised
  obtain ⟨inner, -, rfl⟩ := Pattern.map_run?_eq_some.mp recognised
  exact answers directive listed inner.captured

/-- A pass behind the layout that does not drop comments has nothing to replace, or parts the
text from what it was. -/
theorem Legible.rests_or_parted (legible : compiler.Legible context original)
    (behind : pass ∉ .comments :: Pass.layout)
    (ran : (compiler.apply compile pass text).run context = some (result, after)) :
    compiler.Rests context text pass ∨ Text.Parted text result := by
  cases follows : pass.entries? with
  | some entries =>
      rw [apply_of_entries compiler compile follows, run_pure_eq_some] at ran
      obtain ⟨rfl, -⟩ := ran
      rw [rests_iff_of_entries follows]
      exact entries_rest_or_parted (Pass.code_beginsPlainly follows) text
  | none =>
      cases pass with
      | forms =>
          obtain ⟨rfl, -⟩ := run_pure_eq_some.mp ran
          exact forms_rest_or_parted text
      | switches =>
          refine Pattern.unused_or_parted_replaceM (by decide) ?_ ran
          intro block before replaced after ran
          obtain ⟨body, middle, -, ran⟩ := run_bind_eq_some.mp ran
          obtain ⟨rfl, -⟩ := run_pure_eq_some.mp ran
          rfl
      | yields =>
          rw [run_yields] at ran
          cases ran
          exact yields_rest_or_parted legible.contents text
      | customDirectives =>
          obtain ⟨rfl, -⟩ := run_pure_eq_some.mp ran
          exact customs_rest_or_parted legible.answers text
      | echoes =>
          obtain ⟨rfl, -⟩ := run_pure_eq_some.mp ran
          exact echoes_rest_or_parted text
      | comments => simp at behind
      | extensions => simp [Pass.layout] at behind
      | inlineSections => simp [Pass.layout] at behind
      | blockSections => simp [Pass.layout] at behind
      | inclusions => simp [Pass.layout] at behind
      | _ => cases follows

/-- A text that has parted from the original stays apart from it in a pass behind the layout. -/
theorem Legible.parted_of_run (legible : compiler.Legible context original)
    (behind : pass ∉ Pass.layout) (parted : Text.Parted original text)
    (ran : (compiler.apply compile pass text).run context = some (result, after)) :
    Text.Parted original result := by
  by_cases drops : pass = .comments
  · subst drops
    obtain ⟨rfl, -⟩ := run_pure_eq_some.mp ran
    exact parted.dropComments legible.uncommented
  · have further := legible.rests_or_parted (List.not_mem_cons_of_ne_of_not_mem drops behind) ran
    rcases further with rests | further
    · rw [run_apply_of_rests rests] at ran
      cases ran
      exact parted
    · exact parted.trans further

theorem Legible.rests_or_parted_of_run (legible : compiler.Legible context original)
    (behind : pass ∉ Pass.layout)
    (ran : (compiler.apply compile pass original).run context = some (result, after)) :
    compiler.Rests context original pass ∨ Text.Parted original result := by
  by_cases drops : pass = .comments
  · subst drops
    exact .inl (comments_rest legible.uncommented)
  · exact legible.rests_or_parted (List.not_mem_cons_of_ne_of_not_mem drops behind) ran

theorem context_eq_of_run (quiet : pass ∉ Pass.effects)
    (ran : (compiler.apply compile pass text).run context = some (result, after)) :
    after = context := by
  cases pass with
  | yields =>
      rw [run_yields] at ran
      cases ran
      rfl
  | extensions => simp [Pass.effects, Pass.layout] at quiet
  | inlineSections => simp [Pass.effects, Pass.layout] at quiet
  | blockSections => simp [Pass.effects, Pass.layout] at quiet
  | inclusions => simp [Pass.effects, Pass.layout] at quiet
  | switches => simp [Pass.effects] at quiet
  | _ => exact (run_pure_eq_some.mp ran).2.symm

/-- Passes without effects leave the context as it is. -/
theorem context_eq_of_foldlM (quiet : ∀ pass ∈ passes, pass ∉ Pass.effects)
    (ran : (passes.foldlM (fun text pass => compiler.apply compile pass text) text).run
      context = some (result, after)) :
    after = context := by
  have kept : ∀ pass ∈ passes, ∀ text before result after, before = context →
      (compiler.apply compile pass text).run before = some (result, after) →
        after = context := by
    rintro pass listed text _ result after rfl passRan
    exact context_eq_of_run (quiet pass listed) passRan
  exact run_foldlM_invariant kept rfl ran

theorem Legible.parted_of_foldlM (legible : compiler.Legible context original)
    (quiet : ∀ pass ∈ passes, pass ∉ Pass.effects) (parted : Text.Parted original text)
    (ran : (passes.foldlM (fun text pass => compiler.apply compile pass text) text).run context =
      some (result, after)) :
    Text.Parted original result := by
  have kept : ∀ pass ∈ passes, ∀ text before result after,
      before = context ∧ Text.Parted original text →
      (compiler.apply compile pass text).run before = some (result, after) →
        after = context ∧ Text.Parted original result := by
    rintro pass listed text _ result after ⟨rfl, parted⟩ passRan
    have behind := List.not_mem_of_not_mem_cons (quiet pass listed)
    exact ⟨context_eq_of_run (quiet pass listed) passRan,
      legible.parted_of_run behind parted passRan⟩
  exact (run_foldlM_invariant kept ⟨rfl, parted⟩ ran).2

/-- Passes without effects all have nothing to replace, or the text has parted in the end. -/
theorem Legible.rest_or_parted_of_foldlM (legible : compiler.Legible context original)
    (quiet : ∀ pass ∈ passes, pass ∉ Pass.effects)
    (ran : (passes.foldlM (fun text pass => compiler.apply compile pass text) original).run
      context = some (result, after)) :
    (∀ pass ∈ passes, compiler.Rests context original pass) ∨ Text.Parted original result := by
  induction passes with
  | nil => exact .inl nofun
  | cons pass passes induction =>
      rw [List.forall_mem_cons] at quiet
      have behind := List.not_mem_of_not_mem_cons quiet.1
      rw [List.foldlM_cons] at ran
      obtain ⟨next, middle, passRan, furtherRan⟩ := run_bind_eq_some.mp ran
      rcases legible.rests_or_parted_of_run behind passRan with rests | parted
      · rw [run_apply_of_rests rests] at passRan
        cases passRan
        rw [List.forall_mem_cons]
        exact (induction quiet.2 furtherRan).imp_left fun rest => ⟨rests, rest⟩
      · obtain rfl := context_eq_of_run quiet.1 passRan
        exact .inr (legible.parted_of_foldlM quiet.2 parted furtherRan)

/-- A compile that ends runs all passes and trims what they leave. -/
theorem Compiles.exists_passes {source compiled : Text} {before : Context}
    (compiles : compiler.Compiles source before compiled after) :
    ∃ bound text, (Pass.all.foldlM
        (fun text pass => compiler.apply (compiler.compile bound) pass text) source).run before =
          some (text, after) ∧ Text.trim text = compiled := by
  obtain ⟨bound, ran⟩ := compiles
  cases bound with
  | zero => cases ran
  | succ bound =>
      rw [compile] at ran
      obtain ⟨text, middle, passesRan, ran⟩ := run_bind_eq_some.mp ran
      obtain ⟨trimmed, rfl⟩ := run_pure_eq_some.mp ran
      exact ⟨bound, text, passesRan, trimmed⟩

/-- A legible text that the passes do not part from itself is settled. -/
theorem Legible.settled_of_run (legible : compiler.Legible context text) {final : Text}
    (ran : (Pass.all.foldlM (fun text pass => compiler.apply compile pass text) text).run
      context = some (final, context)) (finalSame : ¬ Text.Parted text final) :
    compiler.Settled context text := by
  have split : Pass.all = Pass.layout ++
      ([.forms, .environment, .loops, .jumps, .conditionals] ++
        .switches :: [.caseLabels, .existenceGuards, .rawCode, .yields, .method,
          .customDirectives, .comments, .echoes]) := rfl
  rw [split, List.foldlM_append] at ran
  obtain ⟨laidOut, middle, layoutRan, ran⟩ := run_bind_eq_some.mp ran
  rw [run_foldlM_of_rests legible.layout] at layoutRan
  cases layoutRan
  rw [List.foldlM_append] at ran
  obtain ⟨lowered, reached, loweredRan, ran⟩ := run_bind_eq_some.mp ran
  obtain rfl := context_eq_of_foldlM (by decide) loweredRan
  rw [List.foldlM_cons] at ran
  obtain ⟨switched, stored, switchRan, lastRan⟩ := run_bind_eq_some.mp ran
  obtain rfl := context_eq_of_foldlM (by decide) lastRan
  -- wherever the text had parted, it would still be apart in the end
  have switchedSame : ¬ Text.Parted text switched := fun parted =>
    finalSame (legible.parted_of_foldlM (by decide) parted lastRan)
  have loweredSame : ¬ Text.Parted text lowered := fun parted =>
    switchedSame (legible.parted_of_run (by decide) parted switchRan)
  have early := (legible.rest_or_parted_of_foldlM (by decide) loweredRan).resolve_right loweredSame
  rw [run_foldlM_of_rests early] at loweredRan
  cases loweredRan
  have switches :=
    (legible.rests_or_parted_of_run (by decide) switchRan).resolve_right switchedSame
  rw [run_apply_of_rests switches] at switchRan
  cases switchRan
  have late := (legible.rest_or_parted_of_foldlM (by decide) lastRan).resolve_right finalSame
  have behind := List.forall_mem_append.mpr ⟨early, List.forall_mem_cons.mpr ⟨switches, late⟩⟩
  exact List.forall_mem_append.mpr ⟨legible.layout, behind⟩

/-- A legible text that compiles to itself is settled. -/
theorem Legible.settled (legible : compiler.Legible context text)
    (compiles : compiler.Compiles text context text context) :
    compiler.Settled context text := by
  obtain ⟨bound, final, ran, trimmed⟩ := compiles.exists_passes
  exact legible.settled_of_run ran fun parted => parted.trim_ne trimmed

end Compiler

end Scriptlet
