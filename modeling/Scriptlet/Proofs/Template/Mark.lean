import Scriptlet.Proofs.Directive.Entry

/-!
# Directives of well-formed templates

A well-formed template uses the directives that become one piece of code each.  Every
one has a name and, by its argument if it is written with one, its code.
-/

namespace Scriptlet.Template

inductive Called where
  | method
  | env
  | isset
  | empty
  | foreach
  | forLoop
  | whileLoop
  | conditional
  | alternative
  | continueIf
  | breakIf
  | switch
  | caseLabel
deriving DecidableEq

/-- A directive that is written without parentheses. -/
inductive Bare where
  | endenv
  | endisset
  | endempty
  | endforeach
  | endfor
  | endwhile
  | otherwise
  | endif
  | continueLoop
  | breakLoop
  | endswitch
  | defaultLabel
  | php
  | endphp
deriving DecidableEq

inductive Mark where
  | called (directive : Called)
  | bare (directive : Bare)
deriving DecidableEq

def Called.name : Called → Text
  | .method => "method"
  | .env => "env"
  | .isset => "isset"
  | .empty => "empty"
  | .foreach => "foreach"
  | .forLoop => "for"
  | .whileLoop => "while"
  | .conditional => "if"
  | .alternative => "elseif"
  | .continueIf => "continue"
  | .breakIf => "break"
  | .switch => "switch"
  | .caseLabel => "case"

def Bare.name : Bare → Text
  | .endenv => "endenv"
  | .endisset => "endisset"
  | .endempty => "endempty"
  | .endforeach => "endforeach"
  | .endfor => "endfor"
  | .endwhile => "endwhile"
  | .otherwise => "else"
  | .endif => "endif"
  | .continueLoop => "continue"
  | .breakLoop => "break"
  | .endswitch => "endswitch"
  | .defaultLabel => "default"
  | .php => "php"
  | .endphp => "endphp"

def Mark.name : Mark → Text
  | .called directive => directive.name
  | .bare directive => directive.name

/-- The text that stands for a directive with an argument. -/
def Called.code : Called → Text → Text
  | .method, argument =>
      "<input type=\"hidden\" name=\"_method\" value=\"" ++ Text.unquote argument ++ "\" />"
  | .env, argument =>
      "<% if (env.ENVIRONMENT === " ++ Text.quote (Text.unquote argument) ++ ") \x7b %>"
  | .isset, argument =>
      "<% if (typeof (" ++ Text.trim argument ++ ") !== \"undefined\" && (" ++
        Text.trim argument ++ ") !== null) \x7b %>"
  | .empty, argument => "<% if (empty(" ++ Text.trim argument ++ ")) \x7b %>"
  | .foreach, argument => "<% for (" ++ Text.trim argument ++ ") \x7b %>"
  | .forLoop, argument => "<% for (" ++ Text.trim argument ++ ") \x7b %>"
  | .whileLoop, argument => "<% while (" ++ Text.trim argument ++ ") \x7b %>"
  | .conditional, argument => "<% if (" ++ Text.trim argument ++ ") \x7b %>"
  | .alternative, argument => "<% \x7d else if (" ++ Text.trim argument ++ ") \x7b %>"
  | .continueIf, argument => "<% if (" ++ Text.trim argument ++ ") \x7b continue; \x7d %>"
  | .breakIf, argument => "<% if (" ++ Text.trim argument ++ ") \x7b break; \x7d %>"
  | .switch, argument => "<% switch (" ++ Text.trim argument ++ ") \x7b %>"
  | .caseLabel, argument => "<% case " ++ Text.trim argument ++ ": %>"

/-- The text that stands for a directive without parentheses. -/
def Bare.code : Bare → Text
  | .endenv => "<% \x7d %>"
  | .endisset => "<% \x7d %>"
  | .endempty => "<% \x7d %>"
  | .endforeach => "<% \x7d %>"
  | .endfor => "<% \x7d %>"
  | .endwhile => "<% \x7d %>"
  | .otherwise => "<% \x7d else \x7b %>"
  | .endif => "<% \x7d %>"
  | .continueLoop => "<% continue; %>"
  | .breakLoop => "<% break; %>"
  | .endswitch => "<% \x7d %>"
  | .defaultLabel => "<% default: %>"
  | .php => "<% "
  | .endphp => " %>"

def Mark.entry : Mark → Directive.Entry
  | .called directive => .argument directive.name directive.code
  | .bare directive => .word directive.name directive.code

/-- The directives that a pass lowers, in the order of its rules. -/
def marksOf : Pass → List Mark
  | .environment => [.called .env, .bare .endenv]
  | .loops =>
      [.called .foreach, .bare .endforeach, .called .forLoop, .bare .endfor,
       .called .whileLoop, .bare .endwhile]
  | .jumps =>
      [.called .continueIf, .called .breakIf, .bare .continueLoop, .bare .breakLoop]
  | .conditionals =>
      [.called .conditional, .called .alternative, .bare .otherwise, .bare .endif]
  | .switches => [.called .switch, .bare .endswitch]
  | .caseLabels => [.called .caseLabel, .bare .defaultLabel]
  | .existenceGuards =>
      [.called .isset, .bare .endisset, .called .empty, .bare .endempty]
  | .rawCode => [.bare .php, .bare .endphp]
  | .method => [.called .method]
  | _ => []

theorem mem_marks (mark : Mark) : mark ∈ Pass.all.flatMap marksOf := by
  rcases mark with directive | directive <;> cases directive <;> decide

theorem Mark.name_letters (mark : Mark) : ∀ character ∈ mark.name, Text.isLetter character := by
  have letters : mark.name.all Text.isLetter = true := by
    rcases mark with directive | directive <;> cases directive <;> decide
  exact List.all_eq_true.mp letters

theorem Mark.name_folded (mark : Mark) : mark.name.map Text.fold = mark.name := by
  rcases mark with directive | directive <;> cases directive <;> decide

/-- The names that a pass looks for begin no name of a directive of another pass. -/
theorem Mark.names_apart {pass : Pass} {mark : Mark} (elsewhere : mark ∉ marksOf pass) :
    ∀ name ∈ pass.names, ¬ name.map Text.fold <+: mark.name := by
  have apart : ∀ pass ∈ Pass.all, ∀ mark ∈ Pass.all.flatMap marksOf, mark ∉ marksOf pass →
      ∀ name ∈ pass.names, ¬ name.map Text.fold <+: mark.name := by
    decide +kernel
  have passMember : pass ∈ Pass.all := by
    cases pass <;> decide
  exact apart pass passMember mark (mem_marks mark) elsewhere

private theorem statement_eq {head tail left right : Text}
    (leftEq : Code.opening ++ head = left) (rightEq : tail ++ Code.closing = right)
    (middle : Text) : Code.statement (head ++ middle ++ tail) = left ++ middle ++ right := by
  subst leftEq rightEq
  simp only [Code.statement, List.append_assoc]

private theorem openBlock_eq {head tail left right : Text}
    (leftEq : Code.opening ++ head = left)
    (rightEq : tail ++ " \x7b".toList ++ Code.closing = right) (middle : Text) :
    Code.openBlock (head ++ middle ++ tail) = left ++ middle ++ right := by
  subst leftEq rightEq
  simp only [Code.openBlock, Code.statement, List.append_assoc]

private theorem nextBlock_eq {head tail left right : Text}
    (leftEq : Code.opening ++ ("\x7d ".toList ++ head) = left)
    (rightEq : tail ++ " \x7b".toList ++ Code.closing = right) (middle : Text) :
    Code.nextBlock (head ++ middle ++ tail) = left ++ middle ++ right := by
  subst leftEq rightEq
  simp only [Code.nextBlock, Code.statement, List.append_assoc]

private theorem conditionalJump_eq {jump right : Text}
    (rightEq : ") \x7b ".toList ++ jump ++ " \x7d".toList ++ Code.closing = right)
    (condition : Text) :
    Directive.conditionalJump jump condition =
      "<% if (".toList ++ Text.trim condition ++ right := by
  subst rightEq
  have left : Code.opening ++ "if (".toList = "<% if (".toList := by decide
  rw [← left]
  simp only [Directive.conditionalJump, Code.statement, List.append_assoc]

private theorem closeBlock_eq : Code.closeBlock = "<% \x7d %>".toList := by
  decide

theorem environmentEntries_eq :
    Directive.environmentEntries = (marksOf .environment).map Mark.entry := by
  have env : (fun argument => Code.openBlock (Directive.environmentHead (Text.unquote argument))) =
      Called.env.code := by
    funext argument
    exact openBlock_eq (by decide) (by decide) _
  rw [Directive.environmentEntries, env, closeBlock_eq]
  rfl

private theorem block_eq {name head tail : Text} {code : Text → Text}
    (same : ∀ argument, Code.openBlock (head ++ Text.trim argument ++ tail) = code argument) :
    Directive.Entry.block name head tail = .argument name code := by
  rw [Directive.Entry.block, funext same]

theorem loopEntries_eq : Directive.loopEntries = (marksOf .loops).map Mark.entry := by
  have foreach : Directive.Entry.block "foreach" "for (" ")" =
      (Mark.called .foreach).entry :=
    block_eq fun _ => openBlock_eq (by decide) (by decide) _
  have forLoop : Directive.Entry.block "for" "for (" ")" = (Mark.called .forLoop).entry :=
    block_eq fun _ => openBlock_eq (by decide) (by decide) _
  have whileLoop : Directive.Entry.block "while" "while (" ")" =
      (Mark.called .whileLoop).entry :=
    block_eq fun _ => openBlock_eq (by decide) (by decide) _
  rw [Directive.loopEntries, foreach, forLoop, whileLoop, closeBlock_eq]
  rfl

theorem jumpEntries_eq : Directive.jumpEntries = (marksOf .jumps).map Mark.entry := by
  have continueIf : Directive.conditionalJump "continue;" = Called.continueIf.code := by
    funext condition
    exact conditionalJump_eq (by decide) condition
  have breakIf : Directive.conditionalJump "break;" = Called.breakIf.code := by
    funext condition
    exact conditionalJump_eq (by decide) condition
  have continueLoop : Code.statement "continue;" = Bare.continueLoop.code := by decide
  have breakLoop : Code.statement "break;" = Bare.breakLoop.code := by decide
  rw [Directive.jumpEntries, continueIf, breakIf, continueLoop, breakLoop]
  rfl

theorem conditionalEntries_eq :
    Directive.conditionalEntries = (marksOf .conditionals).map Mark.entry := by
  have conditional : Directive.Entry.block "if" "if (" ")" =
      (Mark.called .conditional).entry :=
    block_eq fun _ => openBlock_eq (by decide) (by decide) _
  have alternative : (fun argument =>
      Code.nextBlock ("else if (".toList ++ Text.trim argument ++ ")".toList)) =
      Called.alternative.code := by
    funext argument
    exact nextBlock_eq (by decide) (by decide) _
  have otherwise : Code.nextBlock "else" = Bare.otherwise.code := by decide
  rw [Directive.conditionalEntries, conditional, alternative, otherwise, closeBlock_eq]
  rfl

theorem caseLabelEntries_eq :
    Directive.caseLabelEntries = (marksOf .caseLabels).map Mark.entry := by
  have caseLabel : (fun argument =>
      Code.statement ("case ".toList ++ Text.trim argument ++ ":".toList)) =
      Called.caseLabel.code := by
    funext argument
    exact statement_eq (by decide) (by decide) _
  have defaultLabel : Code.statement "default:" = Bare.defaultLabel.code := by decide
  rw [Directive.caseLabelEntries, caseLabel, defaultLabel]
  rfl

private theorem openBlock_twice_eq {head tail left right : Text}
    (leftEq : Code.opening ++ head = left)
    (rightEq : tail ++ " \x7b".toList ++ Code.closing = right) (link middle : Text) :
    Code.openBlock (head ++ middle ++ link ++ middle ++ tail) =
      left ++ middle ++ link ++ middle ++ right := by
  subst leftEq rightEq
  simp only [Code.openBlock, Code.statement, List.append_assoc]

theorem existenceEntries_eq :
    Directive.existenceEntries = (marksOf .existenceGuards).map Mark.entry := by
  have isset : (fun argument =>
      Code.openBlock (Directive.existenceHead (Text.trim argument))) = Called.isset.code := by
    funext argument
    exact openBlock_twice_eq (by decide) (by decide) _ _
  have empty : Directive.Entry.block "empty" "if (empty(" "))" = (Mark.called .empty).entry :=
    block_eq fun _ => openBlock_eq (by decide) (by decide) _
  rw [Directive.existenceEntries, isset, empty, closeBlock_eq]
  rfl

theorem rawCodeEntries_eq : Directive.rawCodeEntries = (marksOf .rawCode).map Mark.entry :=
  rfl

private theorem inQuotes_eq {head tail left right : Text} (leftEq : head ++ ['"'] = left)
    (rightEq : '"' :: tail = right) (middle : Text) :
    head ++ Text.inQuotes middle ++ tail = left ++ middle ++ right := by
  subst leftEq rightEq
  simp only [Text.inQuotes, List.append_assoc, List.cons_append, List.nil_append]

theorem methodEntries_eq : Directive.methodEntries = (marksOf .method).map Mark.entry := by
  have method : (fun argument => Directive.methodField (Text.unquote argument)) =
      Called.method.code := by
    funext argument
    exact inQuotes_eq (by decide) (by decide) _
  rw [Directive.methodEntries, method]
  rfl

theorem switchCode_eq (argument body : Text) :
    Directive.switchCode argument body =
      Called.switch.code argument ++ body ++ Bare.endswitch.code := by
  have opened : Code.openBlock ("switch (".toList ++ Text.trim argument ++ ")".toList) =
      Called.switch.code argument :=
    openBlock_eq (by decide) (by decide) _
  rw [Directive.switchCode, opened, closeBlock_eq]
  rfl

/-- Every pass that only follows rules lowers its directives. -/
theorem entries_eq {pass : Pass} {entries : List Directive.Entry}
    (follows : pass.entries? = some entries) : entries = (marksOf pass).map Mark.entry := by
  cases pass <;> cases follows
  · exact environmentEntries_eq
  · exact loopEntries_eq
  · exact jumpEntries_eq
  · exact conditionalEntries_eq
  · exact caseLabelEntries_eq
  · exact existenceEntries_eq
  · exact rawCodeEntries_eq
  · exact methodEntries_eq

end Scriptlet.Template
