import Scriptlet.Proofs.Compilation.Idle
import Scriptlet.Proofs.Directive.Name
import Scriptlet.Proofs.Nesting.Written
import Scriptlet.Proofs.Template.Echoes

/-!
# Nested switches

The pass for switches replaces each pair of directives, and gives the text between them to a
compile of its own.  No switch ends in that text, so this compile only lowers the labels: what
is opened there is left as it is written.
-/

namespace Scriptlet

open Pattern

/-- Passes leave a text alone whose directives have other names. -/
theorem Compiler.apply_of_signed (compiler : Compiler) (compile : Text → Compilation Text)
    {pass : Pass} {names : List Text} {text : Text}
    (builtIn : pass ∉ [Pass.customDirectives, .comments, .echoes])
    (signed : Text.SignedBy names text)
    (apart : ∀ name ∈ pass.names, ∀ own ∈ names, Text.Apart name own) :
    compiler.apply compile pass text = pure text :=
  compiler.apply_of_words compile builtIn fun name listed =>
    signed.not_prefix_of_mem_words (apart name listed)

theorem Registry.apply_of_signed {registry : Registry} {names : List Text} {text : Text}
    (signed : Text.SignedBy names text)
    (apart : ∀ directive ∈ registry.directives, ∀ own ∈ names, Text.Apart directive.name own) :
    registry.apply text = text := by
  apply replaceEach_of_absent_text
  intro pattern listed
  obtain ⟨directive, member, rfl⟩ := List.mem_map.mp listed
  exact signed.absent directive.pattern_named (apart directive member) []

namespace Nesting

open Template

/-- Switches with the labels of their cases. -/
def switches : Dialect where
  opening := "switch"
  closing := "endswitch"
  labels := (marksOf .caseLabels).map Mark.entry
  head := Called.switch.code
  foot := Bare.endswitch.code
  apart := by decide
  letters := Text.letters_of_all (by decide +kernel)
  head_inert := Called.switch.code_inert
  head_opens argument := (Called.switch.code_enclosed argument).1
  foot_inert := by decide
  foot_closes := by decide
  label_inert := by
    intro entry listed argument
    obtain ⟨mark, -, rfl⟩ := List.mem_map.mp listed
    cases mark with
    | called directive => exact directive.code_inert argument
    | bare directive => exact directive.code_inert
  label_enclosed := by
    intro entry listed argument
    simp only [marksOf, List.map_cons, List.map_nil, List.mem_cons, List.not_mem_nil,
      or_false] at listed
    rcases listed with rfl | rfl
    · exact Called.caseLabel.code_enclosed argument
    · exact Bare.code_enclosed (by decide : Bare.defaultLabel ∉ [Bare.php, .endphp])

theorem switches_block : switches.block = Directive.switchBlock :=
  rfl

/-- Custom directives that cannot be read where a switch is opened or closed. -/
def SparesSwitches (registry : Registry) : Prop :=
  ∀ directive ∈ registry.directives, ∀ name ∈ [switches.opening, switches.closing],
    Text.Apart directive.name name

instance (registry : Registry) : Decidable (SparesSwitches registry) :=
  inferInstanceAs (Decidable (∀ directive ∈ registry.directives, ∀ name ∈ _, _))

section Compiling

variable {compiler : Compiler} (spared : SparesSwitches compiler.registry)
  {tokens : List (Token switches)}

/-- Every text between a pair of directives is compiled on its own. -/
def CompilesPairs (compile : Text → Compilation Text) (tokens : List (Token switches)) : Prop :=
  ∀ opening argument body closing, Segment.block opening argument body closing ∈ segments tokens →
    compile (Text.trim (body.flatMap Token.print)) = pure (Text.trim (body.flatMap Token.code))

private theorem apply_switches {compile : Text → Compilation Text}
    (pairs : CompilesPairs compile tokens) :
    compiler.apply compile .switches (tokens.flatMap Token.print) =
      pure ((segments tokens).flatMap Segment.paired) := by
  rw [Compiler.apply, ← switches_block]
  apply replaceM_block
  intro opening argument body closing listed
  rw [Compiler.compileSwitch, pairs opening argument body closing listed, pure_bind, switchCode_eq]
  rfl

private theorem apply_caseLabels (compile : Text → Compilation Text)
    (segments : List (Segment switches)) :
    compiler.apply compile .caseLabels (segments.flatMap Segment.paired) =
      pure (segments.flatMap Segment.code) := by
  have labels : Directive.caseLabelEntries = switches.labels := caseLabelEntries_eq
  rw [compiler.apply_of_entries compile (rfl : Pass.caseLabels.entries? = _), labels,
    replaceEach_flatMap rewrites_segment]

/-- The passes before the one for switches find none of their directives. -/
private theorem apply_before (compile : Text → Compilation Text) {pass : Pass}
    (listed : pass ∈ Pass.all.take 9) (tokens : List (Token switches)) :
    compiler.apply compile pass (tokens.flatMap Token.print) =
      pure (tokens.flatMap Token.print) := by
  have apart : ∀ pass ∈ Pass.all.take 9, pass ∉ [Pass.customDirectives, .comments, .echoes] ∧
      ∀ name ∈ pass.names, ∀ own ∈ switches.names, Text.Apart name own := by
    decide +kernel
  have signed : Text.SignedBy switches.names (tokens.flatMap Token.print) :=
    Text.SignedBy.flatMap fun token _ => token.print_signed.weaken token.names_subset
  exact compiler.apply_of_signed compile (apart pass listed).1 signed (apart pass listed).2

include spared

/-- The passes after the one for labels leave the code as it is. -/
private theorem foldlM_afterLabels (compile : Text → Compilation Text)
    (segments : List (Segment switches)) :
    (Pass.all.drop 11).foldlM (fun text pass => compiler.apply compile pass text)
        (segments.flatMap Segment.code) =
      (pure (segments.flatMap Segment.code) : Compilation Text) := by
  let code := segments.flatMap Segment.code
  have signed : Text.SignedBy [switches.opening, switches.closing] code :=
    Text.SignedBy.flatMap fun segment _ => segment.code_signed
  have idle : ∀ pass ∈ (Pass.all.drop 11).take 4,
      compiler.apply compile pass code = pure code := by
    have apart : ∀ pass ∈ (Pass.all.drop 11).take 4,
        pass ∉ [Pass.customDirectives, .comments, .echoes] ∧
          ∀ name ∈ pass.names, ∀ own ∈ [switches.opening, switches.closing],
            Text.Apart name own := by
      decide +kernel
    exact fun pass listed =>
      compiler.apply_of_signed compile (apart pass listed).1 signed (apart pass listed).2
  have finished : Echo.interpolate .output
      (Directive.dropComments (compiler.registry.apply code)) = code := by
    have quiet : Text.isQuiet code = true :=
      Text.isQuiet_flatMap fun segment _ => segment.code_quiet
    rw [Registry.apply_of_signed signed spared]
    simpa [Stretch.print, Stretch.code] using echoes_of_stretches [.quiet code quiet]
  have split : Pass.all.drop 11 =
      (Pass.all.drop 11).take 4 ++ [.customDirectives, .comments, .echoes] := rfl
  rw [split, List.foldlM_append, Compiler.foldlM_of_idle _ _ idle, pure_bind]
  conv_rhs => rw [show segments.flatMap Segment.code = code from rfl, ← finished]
  rfl

/-- The passes replace the pairs and the labels of a row. -/
private theorem foldlM_passes {compile : Text → Compilation Text}
    (pairs : CompilesPairs compile tokens) :
    Pass.all.foldlM (fun text pass => compiler.apply compile pass text)
        (tokens.flatMap Token.print) =
      (pure ((segments tokens).flatMap Segment.code) : Compilation Text) := by
  have split : Pass.all =
      Pass.all.take 9 ++ ([.switches, .caseLabels] ++ Pass.all.drop 11) := rfl
  have before := Compiler.foldlM_of_idle compiler compile fun _ listed =>
    apply_before compile listed tokens
  rw [split, List.foldlM_append, before, pure_bind, List.foldlM_append, List.foldlM_cons,
    apply_switches pairs, pure_bind, List.foldlM_cons, apply_caseLabels, pure_bind,
    List.foldlM_nil, pure_bind, foldlM_afterLabels spared]

/-- No pair is in a body, so its own compile only lowers labels. -/
theorem compile_unclosed (bound : Nat) (unclosed : Unclosed tokens) :
    compiler.compile (bound + 1) (tokens.flatMap Token.print) =
      pure (Text.trim (tokens.flatMap Token.code)) := by
  have pairs : CompilesPairs (compiler.compile bound) tokens := fun _ _ _ _ listed =>
    absurd listed (block_notMem_of_unclosed unclosed)
  have codes : (tokens.map Segment.loose).flatMap Segment.code = tokens.flatMap Token.code :=
    List.flatMap_map _ _ _
  rw [Compiler.compile, foldlM_passes spared pairs, pure_bind, segments_of_unclosed unclosed,
    codes]

/-- A row is compiled to the code of its pairs. -/
theorem compile_tokens (bound : Nat) (tokens : List (Token switches)) :
    compiler.compile (bound + 2) (tokens.flatMap Token.print) =
      pure (Text.trim ((segments tokens).flatMap Segment.code)) := by
  have pairs : CompilesPairs (compiler.compile (bound + 1)) tokens := by
    intro opening argument body closing listed
    have trimmed : Text.trim (Text.trim (body.flatMap Token.code)) =
        Text.trim (body.flatMap Token.code) :=
      Text.trimBy_trimBy _ _
    rw [trim_print, compile_unclosed spared bound (unclosed_trimmed listed), ← trim_code, trimmed]
  rw [Compiler.compile, foldlM_passes spared pairs, pure_bind]

end Compiling

end Nesting

end Scriptlet
