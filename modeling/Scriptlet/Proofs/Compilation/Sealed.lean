import Scriptlet.Proofs.Compilation.Recompilation
import Scriptlet.Proofs.Directive.Calm
import Scriptlet.Proofs.Directive.Name

/-!
# Passes on sealed texts

A sealed text stays sealed in every pass that puts code in the places of directives, and goes
through these passes in the same way where it stands between places.
-/

namespace Scriptlet

open Text

namespace Pass

/-- The names that a pass looks for in front of an argument. -/
def called (pass : Pass) : List Text :=
  (pass.entries?.getD []).flatMap Directive.Entry.called

/-- What is not opened any more behind a pass. -/
def lowered (pass : Pass) : List Text :=
  Directive.openings (pass.entries?.getD [])

end Pass

namespace Compiler

open Pattern Directive

/-- A pass makes the second text of the first one in every context, also between places. -/
def Turns (compiler : Compiler) (compile : Text → Compilation Text) (pass : Pass)
    (text next : Text) : Prop :=
  ∀ {front back} context, Setting front back →
    (compiler.apply compile pass (front ++ (text ++ back))).run context =
      some (front ++ (next ++ back), context)

variable {compiler : Compiler} {compile : Text → Compilation Text} {pass : Pass}
  {calls : List (Text × Text)} {unused : List Text} {text front back : Text}

/-- An opening that is not used is not found either in front of what it does not go on in. -/
theorem absent_of_unopened {α : Type} {opening : Text} {pattern : Pattern '@' α}
    (named : Named opening pattern) (unopened : Unopened opening text)
    (apart : ∀ head ∈ back.head?, fold head ∉ opening.map fold) : pattern.Absent text back :=
  named.absent fun tail suffix begins => unopened tail suffix (prefix_of_apart apart begins)

/-- A directive whose name is not used in a text is absent, also between places. -/
private theorem absent_between {α : Type} {name : Text} {pattern : Pattern '@' α}
    (named : Named name pattern) (isOpening : IsOpening name) (apart : Apart name "yield")
    (unopened : Unopened name text) (setting : Setting front back) :
    pattern.Absent (front ++ (text ++ back)) [] := by
  have apartAll := List.forall_mem_singleton.mpr apart
  apply Absent.append
  · exact setting.frontSigned.absent named apartAll _
  · apply Absent.append
    · rw [List.append_nil]
      exact absent_of_unopened named unopened (setting.apart isOpening)
    · exact setting.backSigned.absent named apartAll []

/-- What a pass may rely on in sealed texts: that directives of the layout are not used, and
that its own calls are closed. -/
structure Ready (calls : List (Text × Text)) (unused : List Text) (pass : Pass) : Prop where
  layout : pass ∈ Pass.layout → pass.names ⊆ unused
  called : ∀ name ∈ pass.called, (name, "@".toList) ∈ calls
  formed : pass = .forms → ∀ name ∈ pass.names, (name, "@\x7b".toList) ∈ calls

theorem Ready.seals {entries : List Entry} (ready : Ready calls unused pass)
    (follows : pass.entries? = some entries) : Seals calls "@" entries := by
  refine ⟨entries_tame follows, fun name member => ready.called name ?_⟩
  rwa [Pass.called, follows]

/-- The passes for the layout do nothing if none of their directives is in the text. -/
private theorem turns_layout (regular : Regular calls unused) (ready : Ready calls unused pass)
    (isSealed : Sealed calls unused text) (listed : pass ∈ Pass.layout) :
    compiler.Turns compile pass text text := by
  intro front back context setting
  have apart : ∀ pass ∈ Pass.layout, ∀ name ∈ pass.names, Apart name "yield" := by
    decide
  have absent : ∀ {α : Type} {name : Text} {pattern : Pattern '@' α}, name ∈ pass.names →
      Named name pattern → pattern.Absent (front ++ (text ++ back)) [] := by
    intro α name pattern member named
    have never := ready.layout listed member
    exact absent_between named (regular.opening _ never) (apart pass listed name member)
      (isSealed.unopened _ never) setting
  cases pass with
  | extensions =>
      have none : extension.Absent _ [] :=
        absent List.mem_cons_self (Called.withSomeArgument _).named
      rw [apply, replaceM_of_absent_text _ none]
      rfl
  | inlineSections =>
      have none : inlineSection.Absent _ [] :=
        absent List.mem_cons_self (Called.withKeyAndValue _).named
      rw [apply, replaceM_of_absent_text _ none]
      rfl
  | blockSections =>
      have none : blockSection.Absent _ [] :=
        absent List.mem_cons_self ((Called.withSomeArgument _).blockOf _).named
      rw [apply, replaceM_of_absent_text _ none]
      rfl
  | inclusions =>
      have none : inclusion.Absent _ [] :=
        absent List.mem_cons_self (Called.withArgument _).named
      rw [apply, replaceM_of_absent_text _ none]
      rfl
  | _ => exact absurd listed (by decide)

/-- The passes that follow rules keep a text sealed, and take the calls out that they look
for. -/
private theorem exists_turned_of_entries (regular : Regular calls unused)
    (ready : Ready calls unused pass) (isSealed : Sealed calls unused text)
    {entries : List Entry} (follows : pass.entries? = some entries) :
    ∃ next, Sealed calls (pass.lowered ++ unused) next ∧
      compiler.Turns compile pass text next := by
  have apart : ∀ pass : Pass, ∀ name ∈ (pass.entries?.getD []).map Entry.name,
      Apart name "yield" := by
    intro pass
    cases pass <;> decide +kernel
  have entriesApart : ∀ entry ∈ entries, Apart entry.name "yield" := by
    have named := apart pass
    rw [follows, Option.getD_some, List.forall_mem_map] at named
    exact named
  have letters : ∀ entry ∈ entries, ∀ character ∈ entry.name, isLetter character :=
    fun entry listed => pass.names_letters _ (Pass.mem_names_of_entries follows listed)
  obtain ⟨kept, between⟩ :=
    isSealed.replaceEach_rules regular (ready.seals follows) letters entriesApart
  refine ⟨replaceEach (entries.map Entry.rule) text, ?_, fun context setting => ?_⟩
  · rwa [Pass.lowered, follows]
  · rw [apply_of_entries compiler compile follows, between setting]
    rfl

/-- The argument and the body of a block in a sealed text. -/
theorem sealed_block {name ending special tail : Text} (regular : Regular calls unused)
    (isSealed : Sealed calls unused text) (listed : (name, special) ∈ calls)
    (suffix : tail <:+ text) {found : Found (Text × Text)}
    (recognised : (blockOf (withArgument name) ending).run? tail = some found) :
    ((∀ character ∈ ')' :: special, character ∉ found.captured.1) ∧
      ¬ commentEnd <:+: found.captured.1) ∧
      Sealed calls (ending :: unused) (Text.trim found.captured.2) := by
  obtain ⟨head, closing, headFound, captured, folded, -, rest, absent⟩ :=
    exists_of_blockOf recognised
  refine ⟨captured ▸ isSealed.free_of_call listed suffix headFound, ?_⟩
  have behind : head.rest <:+ tail := ⟨head.written, ((withArgument name).whole headFound).symm⟩
  have body : Sealed calls unused found.captured.2 := by
    have whole := isSealed.of_suffix (behind.trans suffix)
    rw [rest, List.cons_append] at whole
    exact whole.before_sign regular
  have unended : Unopened ending found.captured.2 := by
    rintro inside ⟨before, bodyEq⟩ begins
    obtain ⟨further, whole⟩ := begins
    obtain ⟨spelled, others, rfl, spelledFolded, -⟩ := List.map_eq_append_iff.mp whole.symm
    have none := absent _ ⟨before, bodyEq⟩ (List.cons_ne_nil _ _)
    have closes := bare_run?_of_spelled spelledFolded (others ++ ('@' :: closing ++ found.rest))
    rw [List.cons_append, List.append_assoc, closes] at none
    cases none
  have sealedBody : Sealed calls (ending :: unused) found.captured.2 :=
    ⟨body.unended, List.forall_mem_cons.mpr ⟨unended, body.unopened⟩, body.closed⟩
  exact sealedBody.trim

/-- Blocks work between places as on a text alone. -/
theorem frames_of_setting {name ending : Text} (apart : Apart name "yield")
    (endingApart : Apart ending "yield") (isOpening : IsOpening ending)
    (setting : Setting front back) : (blockOf (withArgument name) ending).Frames front back where
  isLocal := (Local.withArgument name).blockOf ending
  front_absent := setting.frontSigned.absent ((Called.withArgument name).blockOf ending).named
    (List.forall_mem_singleton.mpr apart)
  contained := Contained.blockOf (setting.backSigned.absent (Named.ofBare ending)
    (List.forall_mem_singleton.mpr endingApart) []) (setting.apart isOpening)
  back_absent := setting.backSigned.absent ((Called.withArgument name).blockOf ending).named
    (List.forall_mem_singleton.mpr apart) []

/-- Calm code around a sealed body. -/
theorem sealed_enclosed {opening closing : Text} (regular : Regular calls unused)
    (openingEdged : Edged opening) (openingCalm : Calm opening)
    (isSealed : Sealed calls unused text) (closingEdged : Edged closing)
    (closingCalm : Calm closing) :
    Sealed calls unused (opening ++ text ++ closing) ∧ Edged (opening ++ text ++ closing) := by
  have front := (Sealed.of_calm openingCalm).append regular isSealed (openingEdged.seam_right _)
  have seam : Seam (opening ++ text) closing := .inl closingEdged.first
  exact ⟨front.append regular (Sealed.of_calm closingCalm) seam,
    Edged.between openingEdged.first closingEdged.last _⟩

private theorem seals_controls (ready : Ready calls unused .forms) :
    Seals calls "@\x7b" controlEntries :=
  ⟨controlEntries_tame, fun name member => ready.formed rfl name
    (List.mem_cons_of_mem _ (by revert name; decide +kernel))⟩

private theorem controls_apart : ∀ entry ∈ controlEntries, Apart entry.name "yield" := by
  have named : ∀ name ∈ controlEntries.map Entry.name, Apart name "yield" := by decide +kernel
  rwa [List.forall_mem_map] at named

private theorem controls_letters :
    ∀ entry ∈ controlEntries, ∀ character ∈ entry.name, isLetter character :=
  fun _ listed => Pass.names_letters .forms _ (List.mem_cons_of_mem _ (List.mem_map_of_mem listed))

private theorem sealed_controls (regular : Regular calls unused)
    (ready : Ready calls unused .forms) (isSealed : Sealed calls unused text) :
    Sealed calls unused (replaceEach controlRules text) := by
  have kept := (isSealed.replaceEach_rules regular (seals_controls ready) controls_letters
    controls_apart).1
  exact kept.mono (List.subset_append_right _ _)

private theorem sealed_formBlocks (regular : Regular calls unused)
    (ready : Ready calls unused .forms) (isSealed : Sealed calls unused text) :
    Sealed calls unused (formBlock.replace formBlockCode text) := by
  have opens : ("form".toList, "@\x7b".toList) ∈ calls := ready.formed rfl _ List.mem_cons_self
  refine isSealed.replace regular (.inl rfl) fun tail found suffix recognised => ?_
  obtain ⟨⟨free, unended⟩, body⟩ := sealed_block regular isSealed opens suffix recognised
  have start : Calm ("form.".toList ++ "start".toList ++ ['(']) := by decide
  obtain ⟨startEdged, startCalm⟩ := tames_formStatement start _ free unended
  have lowered := sealed_controls regular ready
    (body.mono (List.subset_cons_self _ _))
  exact sealed_enclosed regular startEdged startCalm lowered (by decide) (by decide)

/-- Forms keep a text sealed. -/
private theorem exists_turned_of_forms (regular : Regular calls unused)
    (ready : Ready calls unused .forms) (isSealed : Sealed calls unused text) :
    ∃ next, Sealed calls unused next ∧ compiler.Turns compile .forms text next := by
  have blocks := sealed_formBlocks regular ready isSealed
  obtain ⟨-, between⟩ := blocks.replaceEach_rules regular (seals_controls ready) controls_letters
    controls_apart
  refine ⟨lowerForms text, lowerForms_eq text ▸ sealed_controls regular ready blocks,
    fun {front back} context setting => ?_⟩
  have frames : formBlock.Frames front back :=
    frames_of_setting (by decide) (by decide) (by decide) setting
  have lowered : lowerForms (front ++ (text ++ back)) = front ++ (lowerForms text ++ back) := by
    rw [lowerForms_eq, lowerForms_eq, frames.replace]
    exact between setting
  rw [apply, lowered]
  rfl

theorem regular_lowered (regular : Regular calls unused) (ready : Ready calls unused pass) :
    Regular calls (pass.lowered ++ unused) where
  letters := regular.letters
  special := regular.special
  opening := by
    rw [List.forall_mem_append]
    refine ⟨?_, regular.opening⟩
    rw [Pass.lowered, openings, List.forall_mem_map]
    exact fun name member =>
      isOpening_call (isOpening_of_letters (regular.letters _ (ready.called name member)))

theorem Ready.mono {more : List Text} (ready : Ready calls unused pass) (within : unused ⊆ more) :
    Ready calls more pass :=
  ⟨fun listed => List.Subset.trans (ready.layout listed) within, ready.called, ready.formed⟩

variable (compiler compile) in
/-- Passes that are ready keep a text sealed. -/
theorem exists_turned (regular : Regular calls unused) (ready : Ready calls unused pass)
    (isSealed : Sealed calls unused text)
    (listed : pass ∉ [Pass.switches, .yields, .customDirectives, .comments, .echoes]) :
    ∃ next, Sealed calls (pass.lowered ++ unused) next ∧
      compiler.Turns compile pass text next := by
  cases follows : pass.entries? with
  | some entries => exact exists_turned_of_entries regular ready isSealed follows
  | none =>
      have nothing : pass.lowered = [] := by rw [Pass.lowered, follows]; rfl
      rw [nothing, List.nil_append]
      by_cases layout : pass ∈ Pass.layout
      · exact ⟨text, isSealed, turns_layout regular ready isSealed layout⟩
      · cases pass with
        | forms => exact exists_turned_of_forms regular ready isSealed
        | extensions => exact absurd (by decide) layout
        | inlineSections => exact absurd (by decide) layout
        | blockSections => exact absurd (by decide) layout
        | inclusions => exact absurd (by decide) layout
        | switches => exact absurd (by decide) listed
        | yields => exact absurd (by decide) listed
        | customDirectives => exact absurd (by decide) listed
        | comments => exact absurd (by decide) listed
        | echoes => exact absurd (by decide) listed
        | _ => cases follows

/-- A row of passes that makes the second text of the first one in every context, also between
places. -/
def TurnsAll (compiler : Compiler) (compile : Text → Compilation Text) (passes : List Pass)
    (text next : Text) : Prop :=
  ∀ {front back} context, Setting front back →
    (passes.foldlM (fun text pass => compiler.apply compile pass text)
      (front ++ (text ++ back))).run context = some (front ++ (next ++ back), context)

theorem TurnsAll.cons {passes : List Pass} {middle next : Text}
    (turns : compiler.Turns compile pass text middle)
    (others : compiler.TurnsAll compile passes middle next) :
    compiler.TurnsAll compile (pass :: passes) text next := by
  intro front back context setting
  rw [run_foldlM_cons compiler compile (turns context setting)]
  exact others context setting

theorem TurnsAll.append {passes others : List Pass} {middle next : Text}
    (turns : compiler.TurnsAll compile passes text middle)
    (further : compiler.TurnsAll compile others middle next) :
    compiler.TurnsAll compile (passes ++ others) text next := by
  intro front back context setting
  rw [List.foldlM_append, StateT.run_bind, turns context setting]
  exact further context setting

variable (compiler compile) in
/-- So do rows of such passes. -/
theorem exists_turnedAll {passes : List Pass} (regular : Regular calls unused)
    (ready : ∀ pass ∈ passes, Ready calls unused pass) (isSealed : Sealed calls unused text)
    (listed : ∀ pass ∈ passes,
      pass ∉ [Pass.switches, .yields, .customDirectives, .comments, .echoes]) :
    ∃ next, Sealed calls (passes.flatMap Pass.lowered ++ unused) next ∧
      compiler.TurnsAll compile passes text next := by
  induction passes generalizing unused text with
  | nil => exact ⟨text, isSealed, fun _ _ => rfl⟩
  | cons pass passes induction =>
      rw [List.forall_mem_cons] at ready listed
      obtain ⟨middle, middleSealed, turns⟩ :=
        exists_turned compiler compile regular ready.1 isSealed listed.1
      have readyStill : ∀ other ∈ passes, Ready calls (pass.lowered ++ unused) other :=
        fun other member => (ready.2 other member).mono (List.subset_append_right _ _)
      obtain ⟨next, nextSealed, others⟩ :=
        induction (regular_lowered regular ready.1) readyStill middleSealed listed.2
      refine ⟨next, nextSealed.mono ?_, TurnsAll.cons turns others⟩
      intro opening member
      simp only [List.flatMap_cons, List.mem_append] at member ⊢
      tauto

end Compiler

end Scriptlet
