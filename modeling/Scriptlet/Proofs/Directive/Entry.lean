import Scriptlet.Compiler.Pass
import Scriptlet.Proofs.Pattern.Named

/-!
# Rules as data

The rules of most passes say no more than a name, whether an argument follows it,
and the code that it stands for.  Written down as entries, they can be compared
with the words of a text by computation, whatever the code is.
-/

namespace Scriptlet

namespace Directive

inductive Entry where
  | argument (name : Text) (code : Text → Text)
  | word (name code : Text)

namespace Entry

def name : Entry → Text
  | .argument name _ => name
  | .word name _ => name

def rule : Entry → Rule
  | .argument name code => Rule.ofArgument name code
  | .word name code => Rule.ofWord name code

/-- The code that an entry stands for, by its argument if it has one. -/
def code : Entry → Text → Text
  | .argument _ code => code
  | .word _ code => fun _ => code

/-- A block whose head is the trimmed argument between two texts. -/
def block (name opening closing : Text) : Entry :=
  .argument name fun argument => Code.openBlock (opening ++ Text.trim argument ++ closing)

theorem rule_named (entry : Entry) : Pattern.Named entry.name entry.rule := by
  cases entry with
  | argument name code => exact ((Pattern.Called.withArgument name).map code).named
  | word name code => exact (Pattern.Named.ofBare name).map _

/-- What a use of an entry begins with behind the sign. -/
def opening : Entry → Text
  | .argument name _ => name ++ ['(']
  | .word name _ => name

theorem rule_opened (entry : Entry) : Pattern.Named entry.opening entry.rule := by
  cases entry with
  | argument name code =>
      intro tail found recognised
      obtain ⟨spelled, rest, rfl, folded⟩ :=
        ((Pattern.Called.withArgument name).map code) tail found recognised
      rw [opening, List.map_append, List.map_append, folded, List.map_cons]
      exact (List.prefix_append_right_inj _).mpr ⟨rest.map Text.fold, rfl⟩
  | word name code => exact (Pattern.Named.ofBare name).map _

theorem captured_of_rule {entry : Entry} {tail : Text} {found : Found Text}
    (recognised : entry.rule.run? tail = some found) :
    ∃ argument, found.captured = entry.code argument := by
  cases entry with
  | argument name code =>
      obtain ⟨inner, -, rfl⟩ := Pattern.map_run?_eq_some.mp recognised
      exact ⟨inner.captured, rfl⟩
  | word name code =>
      obtain ⟨inner, -, rfl⟩ := Pattern.map_run?_eq_some.mp recognised
      exact ⟨[], rfl⟩

end Entry

def controlEntries : List Entry :=
  ["input", "textarea", "submit", "button", "label", "select"].map fun method =>
    .argument method.toList (formStatement method.toList)

def environmentEntries : List Entry :=
  [.argument "env" fun argument => Code.openBlock (environmentHead (Text.unquote argument)),
   .word "endenv" Code.closeBlock]

def loopEntries : List Entry :=
  [.block "foreach" "for (" ")", .word "endforeach" Code.closeBlock,
   .block "for" "for (" ")", .word "endfor" Code.closeBlock,
   .block "while" "while (" ")", .word "endwhile" Code.closeBlock]

def jumpEntries : List Entry :=
  [.argument "continue" (conditionalJump "continue;"),
   .argument "break" (conditionalJump "break;"),
   .word "continue" (Code.statement "continue;"), .word "break" (Code.statement "break;")]

def conditionalEntries : List Entry :=
  [.block "if" "if (" ")",
   .argument "elseif" fun argument =>
     Code.nextBlock ("else if (" ++ Text.trim argument ++ ")"),
   .word "else" (Code.nextBlock "else"), .word "endif" Code.closeBlock]

def caseLabelEntries : List Entry :=
  [.argument "case" fun argument => Code.statement ("case " ++ Text.trim argument ++ ":"),
   .word "default" (Code.statement "default:")]

def existenceEntries : List Entry :=
  [.argument "isset" fun argument => Code.openBlock (existenceHead (Text.trim argument)),
   .word "endisset" Code.closeBlock,
   .block "empty" "if (empty(" "))", .word "endempty" Code.closeBlock]

def rawCodeEntries : List Entry :=
  [.word "php" Code.opening, .word "endphp" Code.closing]

def methodEntries : List Entry :=
  [.argument "method" fun argument => methodField (Text.unquote argument)]

theorem controlRules_eq : controlRules = controlEntries.map Entry.rule :=
  rfl

end Directive

namespace Pass

open Directive

def entries? : Pass → Option (List Entry)
  | .environment => some environmentEntries
  | .loops => some loopEntries
  | .jumps => some jumpEntries
  | .conditionals => some conditionalEntries
  | .caseLabels => some caseLabelEntries
  | .existenceGuards => some existenceEntries
  | .rawCode => some rawCodeEntries
  | .method => some methodEntries
  | _ => none

/-- The names of the directives that a pass looks for. -/
def names : Pass → List Text
  | .extensions => ["extends"]
  | .inlineSections => ["section"]
  | .blockSections => ["section"]
  | .inclusions => ["include"]
  | .forms => "form" :: controlEntries.map Entry.name
  | .switches => ["switch"]
  | .yields => ["yield"]
  | pass => (pass.entries?.getD []).map Entry.name

theorem mem_names_of_entries {pass : Pass} {entries : List Entry}
    (follows : pass.entries? = some entries) {entry : Entry} (listed : entry ∈ entries) :
    entry.name ∈ pass.names := by
  cases pass <;> cases follows <;> exact List.mem_map_of_mem listed

theorem names_letters (pass : Pass) :
    ∀ name ∈ pass.names, ∀ character ∈ name, Text.isLetter character := by
  apply Text.letters_of_all
  cases pass <;> decide +kernel

theorem names_ne_nil (pass : Pass) : ∀ name ∈ pass.names, name ≠ [] := by
  cases pass <;> decide +kernel

end Pass

/-- A pass that only follows rules replaces their uses, one entry after another. -/
theorem Compiler.apply_of_entries (compiler : Compiler) (compile : Text → Compilation Text)
    {pass : Pass} {entries : List Directive.Entry} (follows : pass.entries? = some entries)
    (text : Text) :
    compiler.apply compile pass text =
      pure (Pattern.replaceEach (entries.map Directive.Entry.rule) text) := by
  cases pass <;> cases follows <;> rfl

end Scriptlet
