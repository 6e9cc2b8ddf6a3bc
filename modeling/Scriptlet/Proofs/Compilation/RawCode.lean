import Scriptlet.Proofs.Compilation.Frames
import Scriptlet.Proofs.Compilation.Growth
import Scriptlet.Proofs.Compilation.Recompilation
import Scriptlet.Proofs.Text.Tight

/-!
# Raw code

The directives around raw code become the marks of a scriptlet, and every pass works on the
code between them as it works on any other text.  So raw code comes through untouched exactly
where no pass has anything to replace in it.
-/

namespace Scriptlet

theorem Context.Grows.eq_empty {context : Context} (grows : context.Grows {}) : context = {} := by
  obtain ⟨appended, recorded, -⟩ := grows.recorded
  obtain ⟨unrecorded, -⟩ := List.append_eq_nil_iff.mp recorded.symm
  have unstored : context.sections = [] := by
    cases stored : context.sections with
    | nil => rfl
    | cons entry others =>
        have contained : Table.contains entry.1 context.sections = true := by
          simp [Table.contains, stored, Table.get?]
        cases grows.keeps entry.1 contained
  obtain ⟨sections, diagnostics, depth⟩ := context
  cases unstored
  cases unrecorded
  cases grows.depth_eq
  rfl

namespace Compiler

open Compilation Pattern Directive

variable {compiler : Compiler} {compile : Text → Compilation Text} {context after : Context}
  {text code : Text}

/-- All passes over a text end, with this text, which is not trimmed, and this context. -/
def RunsTo (compiler : Compiler) (source : Text) (before : Context) (text : Text)
    (after : Context) : Prop :=
  ∃ bound, (Pass.all.foldlM
    (fun text pass => compiler.apply (compiler.compile bound) pass text) source).run before =
      some (text, after)

/-- A compile ends just where its passes do, and trims what they leave. -/
theorem compiles_iff_runsTo {source compiled : Text} :
    compiler.Compiles source context compiled after ↔
      ∃ text, compiler.RunsTo source context text after ∧ compiled = Text.trim text := by
  constructor
  · intro compiles
    obtain ⟨bound, text, ran, rfl⟩ := compiles.exists_passes
    exact ⟨text, ⟨bound, ran⟩, rfl⟩
  · rintro ⟨text, ⟨bound, ran⟩, rfl⟩
    refine ⟨bound + 1, ?_⟩
    rw [Compiler.compile, StateT.run_bind, ran]
    rfl

/-- Code between the directives for raw code. -/
def rawCode (code : Text) : Text :=
  "@php" ++ (code ++ "@endphp")

private theorem directives_frame : Frame ["php", "endphp"] "@php" "@endphp" where
  front_signed := Text.SignedBy.of_bare List.mem_cons_self rfl
    (by decide : '@' ∉ ("php" : Text))
  back_signed := Text.SignedBy.of_bare (List.mem_cons_of_mem _ List.mem_cons_self) rfl
    (by decide : '@' ∉ ("endphp" : Text))
  front_unbraced := by decide
  back_plain := by decide
  separate := rfl

private theorem scriptlet_frame : Frame [] Code.opening Code.closing where
  front_signed := Text.SignedBy.of_unsigned (by decide)
  back_signed := Text.SignedBy.of_unsigned (by decide)
  front_unbraced := by decide
  back_plain := by decide
  separate := rfl

variable (compiler compile) in
/-- The pass for raw code replaces the directives around the code, and those in it. -/
private theorem apply_rawCode (text : Text) :
    compiler.apply compile .rawCode (rawCode text) =
      (fun passed => Code.opening ++ (passed ++ Code.closing)) <$>
        compiler.apply compile .rawCode text := by
  have php : (Rule.ofWord "php" Code.opening).replace id (rawCode text) =
      Code.opening ++ ((Rule.ofWord "php" Code.opening).replace id text ++ "@endphp") := by
    have isLocal : (Rule.ofWord "php" Code.opening).Local := (Local.bare _).map _
    have contained : (Rule.ofWord "php" Code.opening).Contained text "@endphp" :=
      (Contained.bare (by rintro head ⟨⟩; decide) text).map _
    have absent : (Rule.ofWord "php" Code.opening).Absent "@endphp" [] :=
      absent_of_firstUse?_none (by decide)
    have found : (Rule.ofWord "php" Code.opening).run? (rawCode text) =
        some ⟨"@php", Code.opening, text ++ "@endphp"⟩ :=
      map_run?_eq_some.mpr ⟨_, bare_run?_of_spelled rfl _, rfl⟩
    rw [Pattern.replace_of_found _ id found, replace_append_of_contained isLocal id contained,
      replace_of_absent_text id absent]
    rfl
  have endphp : ∀ passed, (Rule.ofWord "endphp" Code.closing).replace id
      (Code.opening ++ (passed ++ "@endphp")) =
        Code.opening ++ ((Rule.ofWord "endphp" Code.closing).replace id passed ++
          Code.closing) := by
    intro passed
    have isLocal : (Rule.ofWord "endphp" Code.closing).Local := (Local.bare _).map _
    have contained : (Rule.ofWord "endphp" Code.closing).Contained passed "@endphp" :=
      (Contained.bare (by rintro head ⟨⟩; decide) passed).map _
    have absent : (Rule.ofWord "endphp" Code.closing).Absent Code.opening (passed ++ "@endphp") :=
      Absent.of_notMem (by decide)
    have found : (Rule.ofWord "endphp" Code.closing).run? "@endphp" =
        some ⟨"@endphp", Code.closing, []⟩ :=
      map_run?_eq_some.mpr ⟨⟨"@endphp", (), []⟩, by decide, rfl⟩
    rw [replace_append id absent, replace_append_of_contained isLocal id contained,
      Pattern.replace_of_found _ id found, Pattern.replace_nil, List.append_nil]
    rfl
  simp only [apply, rawCodeRules, replaceEach_eq_foldl, List.foldl_cons, List.foldl_nil, php,
    endphp, map_pure]

/-- All passes over raw code do inside the scriptlet what they do with the code. -/
theorem foldlM_rawCode (unregistered : compiler.registry.directives = []) (code : Text) :
    Pass.all.foldlM (fun text pass => compiler.apply compile pass text) (rawCode code) =
      (fun body => Code.opening ++ (body ++ Code.closing)) <$>
        Pass.all.foldlM (fun text pass => compiler.apply compile pass text) code := by
  let early : List Pass := Pass.all.take 12
  let late : List Pass := Pass.all.drop 13
  have split : Pass.all = early ++ .rawCode :: late := rfl
  have earlyApart : ∀ pass ∈ early, ∀ name ∈ pass.names ++ pass.endings,
      ∀ word ∈ ["php".toList, "endphp".toList], Text.Apart name word := by
    decide +kernel
  rw [split, List.foldlM_append, List.foldlM_append, rawCode,
    foldlM_framed unregistered compile directives_frame earlyApart, bind_map_left, map_bind]
  apply bind_congr
  intro passed
  have raw := apply_rawCode compiler compile passed
  rw [rawCode] at raw
  rw [List.foldlM_cons, List.foldlM_cons, raw, bind_map_left, map_bind]
  apply bind_congr
  intro body
  exact foldlM_framed unregistered compile scriptlet_frame (fun _ _ _ _ => nofun) body

/-- What the passes make of the code stands in a scriptlet, and is not trimmed. -/
theorem compiles_rawCode_iff (unregistered : compiler.registry.directives = [])
    {compiled : Text} :
    compiler.Compiles (rawCode code) context compiled after ↔
      ∃ body, compiler.RunsTo code context body after ∧ compiled = Code.statement body := by
  have trimmed : ∀ body, Text.trim (Code.opening ++ (body ++ Code.closing)) =
      Code.statement body := by
    intro body
    rw [← List.append_assoc]
    apply Tight.trim_eq
    exact Tight.between ⟨'<', by decide, by decide⟩ ⟨'>', by decide, by decide⟩ body
  rw [compiles_iff_runsTo]
  constructor
  · rintro ⟨text, ⟨bound, ran⟩, rfl⟩
    rw [foldlM_rawCode unregistered, StateT.run_map, Option.map_eq_map,
      Option.map_eq_some_iff] at ran
    obtain ⟨⟨body, final⟩, bodyRan, same⟩ := ran
    cases same
    exact ⟨body, ⟨bound, bodyRan⟩, trimmed body⟩
  · rintro ⟨body, ⟨bound, bodyRan⟩, rfl⟩
    refine ⟨_, ⟨bound, ?_⟩, (trimmed body).symm⟩
    rw [foldlM_rawCode unregistered, StateT.run_map, bodyRan]
    rfl

/-- Nothing is recorded or stored by the replacements of a pattern only where it has no use, if
each of them records or stores something. -/
private theorem uses_eq_nil_of_run {α : Type} {pattern : Pattern '@' α}
    {replacement : α → Compilation Text} {result : Text} {before : Context}
    (grows : ∀ captured, Respects Context.Grows (replacement captured))
    (leaves : ∀ captured replaced,
      ¬ (replacement captured).run before = some (replaced, {}))
    (ran : (pattern.replaceM replacement text).run before = some (result, {})) :
    pattern.uses text = [] := by
  cases used : pattern.firstUse? 0 text with
  | none => exact uses_of_firstUse?_none used
  | some use =>
      rw [pattern.replaceM_of_firstUse?_some replacement used] at ran
      obtain ⟨replaced, middle, replacedRan, ran⟩ := run_bind_eq_some.mp ran
      have compositional := Respects.compositional Context.Grows.refl Context.Grows.trans
      have others := @Compositional.replaceM _ _ compositional _ pattern replacement replacement
        grows use.2.rest
      have restGrows : Respects Context.Grows (do
          let rest ← pattern.replaceM replacement use.2.rest
          return text.take use.1 ++ (replaced ++ rest)) :=
        Respects.bind Context.Grows.trans others fun _ => Respects.ofPure Context.Grows.refl _
      obtain rfl := (restGrows _ _ _ ran).eq_empty
      exact absurd replacedRan (leaves _ _)

/-- Where no view may be nested and nothing is stored, a pass of the layout has nothing to
replace if it stores and records nothing. -/
private theorem rests_of_empty (limit : compiler.depthLimit = 0) {pass : Pass}
    (listed : pass ∈ Pass.layout) {bound : Nat} {result : Text}
    (ran : (compiler.apply (compiler.compile bound) pass text).run {} = some (result, {})) :
    compiler.Rests context text pass := by
  have nested : ∀ name, Respects Context.Grows
      (compiler.compileNested (compiler.compile bound) name) :=
    compileNested_grows (compile_grows compiler bound)
  have stores : ∀ key content : Text, Respects Context.Grows
      (do modify (Context.store key content); return [] : Compilation Text) :=
    fun key content => Respects.bind Context.Grows.trans
      (Respects.ofModify (Context.Grows.store key content))
      fun _ => Respects.ofPure Context.Grows.refl []
  have recorded : ∀ name replaced,
      ¬ (compiler.compileNested (compiler.compile bound) name).run {} =
        some (replaced, {}) := by
    intro name replaced nestedRan
    rw [compileNested_run_of_limit (by simp [limit])] at nestedRan
    cases nestedRan
  have stored : ∀ (key content replaced : Text) (before : Context),
      ¬ (do modify (Context.store key content); return [] : Compilation Text).run before =
        some (replaced, {}) := by
    intro key content replaced before storeRan
    obtain ⟨_, middle, modified, storeRan⟩ := run_bind_eq_some.mp storeRan
    obtain ⟨-, rfl⟩ := run_pure_eq_some.mp storeRan
    have emptied := congrArg Context.sections (run_modify_eq_some.mp modified)
    have found := Table.get?_insert key key content before.sections
    simp only [Context.store] at emptied
    rw [emptied] at found
    simp [Table.get?] at found
  simp only [Pass.layout, List.mem_cons, List.not_mem_nil, or_false] at listed
  rcases listed with rfl | rfl | rfl | rfl
  · exact uses_eq_nil_of_run (fun _ => nested _) (fun _ => recorded _) ran
  · exact uses_eq_nil_of_run (fun _ => stores _ _) (fun _ _ => stored _ _ _ _) ran
  · refine uses_eq_nil_of_run (fun entry => ?_) (fun entry replaced blockRan => ?_) ran
    · exact Respects.bind Context.Grows.trans (compile_grows compiler bound entry.2)
        fun content => stores _ content
    · obtain ⟨content, middle, -, storeRan⟩ := run_bind_eq_some.mp blockRan
      exact stored _ _ _ _ storeRan
  · exact uses_eq_nil_of_run (fun _ => nested _) (fun _ => recorded _) ran

private theorem foldlM_grows (bound : Nat) (passes : List Pass) (text : Text) :
    Respects Context.Grows
      (passes.foldlM (fun text pass => compiler.apply (compiler.compile bound) pass text)
        text) := by
  induction passes generalizing text with
  | nil => exact Respects.ofPure Context.Grows.refl text
  | cons pass passes induction =>
      rw [List.foldlM_cons]
      exact Respects.bind Context.Grows.trans (apply_grows (compile_grows compiler bound) pass text)
        induction

/-- The passes of the layout leave a text alone if they store and record nothing. -/
private theorem rest_of_foldlM_empty (limit : compiler.depthLimit = 0) {passes : List Pass}
    (listed : ∀ pass ∈ passes, pass ∈ Pass.layout) {bound : Nat} {result : Text}
    (ran : (passes.foldlM (fun text pass => compiler.apply (compiler.compile bound) pass text)
      text).run {} = some (result, {})) :
    ∀ pass ∈ passes, compiler.Rests context text pass := by
  induction passes with
  | nil => exact nofun
  | cons pass passes induction =>
      rw [List.forall_mem_cons] at listed ⊢
      rw [List.foldlM_cons] at ran
      obtain ⟨next, middle, passRan, furtherRan⟩ := run_bind_eq_some.mp ran
      obtain rfl := (foldlM_grows bound passes next _ _ _ furtherRan).eq_empty
      have rests : compiler.Rests context text pass := rests_of_empty limit listed.1 passRan
      have restsHere : compiler.Rests {} text pass := rests_of_empty limit listed.1 passRan
      rw [run_apply_of_rests restsHere] at passRan
      cases passRan
      exact ⟨rests, induction listed.2 furtherRan⟩

/-- Code that comes through untouched in a context whose contents begin plainly is settled in
it, unless a comment begins in the code. -/
private theorem settled_of_untouched (unregistered : compiler.registry.directives = [])
    (limit : compiler.depthLimit = 0) (uncommented : ¬ "\x7b\x7b--".toList <:+: code)
    (untouched : ∀ context, compiler.Compiles (rawCode code) context (Code.statement code) context)
    (contents : ∀ entry ∈ context.sections, Text.beginsPlainly entry.2 = true) :
    compiler.Settled context code := by
  have runs : ∀ context, compiler.RunsTo code context code context := by
    intro context
    obtain ⟨body, ran, same⟩ := (compiles_rawCode_iff unregistered).mp (untouched context)
    rw [Code.statement, Code.statement, List.append_left_inj, List.append_right_inj] at same
    rwa [← same] at ran
  obtain ⟨bound, emptyRan⟩ := runs {}
  have split : Pass.all = Pass.layout ++ Pass.all.drop 4 := rfl
  rw [split, List.foldlM_append] at emptyRan
  obtain ⟨laidOut, middle, layoutRan, furtherRan⟩ := run_bind_eq_some.mp emptyRan
  obtain rfl := (foldlM_grows bound _ laidOut _ _ _ furtherRan).eq_empty
  have legible : compiler.Legible context code := by
    refine ⟨rest_of_foldlM_empty limit (fun _ => id) layoutRan, uncommented, contents, ?_⟩
    simp [unregistered]
  obtain ⟨larger, ran⟩ := runs context
  exact legible.settled_of_run ran (Text.Parted.irrefl code)

/-- What a pass has to replace depends on the registry and, for yields, on the context. -/
private theorem rests_of_rests {other : Compiler} (same : other.registry = compiler.registry)
    {before : Context} {pass : Pass} (unresolved : pass ≠ .yields)
    (rests : other.Rests before text pass) : compiler.Rests context text pass := by
  cases pass with
  | yields => exact absurd rfl unresolved
  | customDirectives =>
      rw [Rests, same] at rests
      exact rests
  | _ => exact rests

/-- Where there are no custom directives, raw code becomes a scriptlet that holds what all
passes make of the code, and the context is what they leave.  The code is left as it is, and
with it the context, if no pass has anything to replace in it.  Of code in which no comment
begins, only such code is left as it is by every loader, limit and context. -/
theorem compiles_rawCode (unregistered : compiler.registry.directives = []) (code : Text) :
    (∀ context compiled after, compiler.Compiles (rawCode code) context compiled after ↔
      ∃ body, compiler.RunsTo code context body after ∧ compiled = Code.statement body) ∧
    (∀ context, compiler.Settled context code →
      compiler.Compiles (rawCode code) context (Code.statement code) context) ∧
    (¬ "\x7b\x7b--".toList <:+: code →
      ((∀ loader limit context, Compiler.Compiles ⟨compiler.registry, loader, limit⟩
          (rawCode code) context (Code.statement code) context) ↔
        ∀ context, compiler.Settled context code)) := by
  have untouched : ∀ {compiler : Compiler}, compiler.registry.directives = [] → ∀ context,
      compiler.Settled context code →
        compiler.Compiles (rawCode code) context (Code.statement code) context :=
    fun unregistered context settled => (compiles_rawCode_iff unregistered).mpr
      ⟨code, ⟨0, run_foldlM_of_rests settled⟩, rfl⟩
  refine ⟨fun _ _ _ => compiles_rawCode_iff unregistered, untouched unregistered,
    fun uncommented => ⟨fun always context => ?_, fun settled loader limit context => ?_⟩⟩
  · let shallow : Compiler := ⟨compiler.registry, compiler.loader, 0⟩
    have settled : ∀ {context : Context},
        (∀ entry ∈ context.sections, Text.beginsPlainly entry.2 = true) →
          shallow.Settled context code :=
      settled_of_untouched unregistered rfl uncommented (always compiler.loader 0)
    intro pass listed
    by_cases resolves : pass = .yields
    · subst resolves
      intro use used
      -- a content for this very place would have been put in
      have stored : shallow.Settled { sections := [(Text.unquote use.captured.2, "v")] } code :=
        settled (List.forall_mem_singleton.mpr rfl)
      have absent := stored .yields listed use used
      simp [Table.get?] at absent
    · have rests : shallow.Rests {} code pass := settled (by decide) pass listed
      exact rests_of_rests rfl resolves rests
  · refine @untouched ⟨compiler.registry, loader, limit⟩ unregistered context
      fun pass listed => ?_
    by_cases resolves : pass = .yields
    · subst resolves
      exact settled context .yields listed
    · exact rests_of_rests rfl resolves (settled context pass listed)

/-- Code with a string, a sign and braces that begin nothing, and a place that stays open. -/
theorem compiles_rawCode_of_plain_code :
    let compiler : Compiler := { registry := {}, loader := .ofTable [] }
    let code : Text := "if (x) \x7b y = \"a@b\"; \x7d @yield(k)"
    compiler.registry.directives = [] ∧ compiler.Settled {} code ∧
      compiler.Compiles (rawCode code) {} (Code.statement code) {} := by
  intro compiler code
  have settled : compiler.Settled {} code := by decide +kernel
  exact ⟨rfl, settled, (@compiles_rawCode compiler rfl code).2.1 {} settled⟩

/-- An echo in raw code is replaced, inside the scriptlet. -/
theorem echo_in_rawCode_is_replaced :
    let compiler : Compiler := { registry := {}, loader := .ofTable [] }
    let code : Text := "\x7b\x7b x \x7d\x7d"
    compiler.registry.directives = [] ∧ (bare "endphp").firstUse? 0 code = none ∧
      compiler.Compiles (rawCode code) {} "<% <%- escapeHtml(x) %> %>" {} ∧
      ∀ after, ¬ compiler.Compiles (rawCode code) {} (Code.statement code) after := by
  intro compiler code
  have ran : (compiler.compile 1 (rawCode code)).run {} =
      some ("<% <%- escapeHtml(x) %> %>".toList, {}) := by
    decide +kernel
  refine ⟨rfl, by decide, ⟨1, ran⟩, ?_⟩
  rintro after ⟨bound, untouched⟩
  have same : "<% <%- escapeHtml(x) %> %>".toList = Code.statement code :=
    congrArg Prod.fst (compile_unique ran untouched)
  revert same
  decide

end Compiler

end Scriptlet
