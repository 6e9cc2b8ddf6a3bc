import Scriptlet.Compiler.Context
import Scriptlet.Directive.Control
import Scriptlet.Directive.FormControl
import Scriptlet.Directive.Registry
import Scriptlet.View.Loader

/-!
# Passes

A compile is a row of passes over the text of a view.  Most passes change the
text and nothing else.  The others read or store sections, load nested views, or
compile a captured part of the text, for which they are given the compile
function.
-/

namespace Scriptlet

inductive Pass where
  | extensions
  | inlineSections
  | blockSections
  | inclusions
  | forms
  | environment
  | loops
  | jumps
  | conditionals
  | switches
  | caseLabels
  | existenceGuards
  | rawCode
  | yields
  | method
  | customDirectives
  | comments
  | echoes
deriving DecidableEq

def Pass.all : List Pass :=
  [.extensions, .inlineSections, .blockSections, .inclusions, .forms, .environment,
   .loops, .jumps, .conditionals, .switches, .caseLabels, .existenceGuards, .rawCode,
   .yields, .method, .customDirectives, .comments, .echoes]

structure Compiler where
  registry : Registry
  loader : View.Loader
  depthLimit : Nat := 50

/-- A computation that changes the context, or does not end within its bound. -/
abbrev Compilation := StateT Context Option

namespace Compiler

/-- An extended view, `@extends('name')`. -/
def extension : Pattern '@' Text :=
  Pattern.withSomeArgument "extends"

/-- An included view, `@include('name')`. -/
def inclusion : Pattern '@' Text :=
  Pattern.withArgument "include"

/-- A section written inline, `@section('key', 'content')`. -/
def inlineSection : Pattern '@' (Text × Text) :=
  Pattern.withKeyAndValue "section"

/-- A section written as a block, `@section('key') content @endsection`. -/
def blockSection : Pattern '@' (Text × Text) :=
  Pattern.blockOf (Pattern.withSomeArgument "section") "endsection"

/-- A place for a section, `@yield('key')`, and how it is written. -/
def yielding : Pattern '@' (Text × Text) :=
  (Pattern.withArgument "yield").keepingWritten

/-- Load and compile a nested view.  A view that cannot be used is replaced by
nothing and recorded. -/
def compileNested (compiler : Compiler) (compile : Text → Compilation Text) (name : Text) :
    Compilation Text := do
  let context ← get
  if compiler.depthLimit ≤ context.depth then
    set (context.record (.nestedTooDeep name compiler.depthLimit))
    return []
  else
    match compiler.loader.load name with
    | .ok source =>
        modify Context.enter
        let compiled ← compile source
        modify Context.leave
        return compiled
    | .error (.viewNotFound _ path) =>
        set (context.record (.nestedNotFound name path))
        return []
    | .error failure =>
        set (context.record (.nestedUnreadable name failure))
        return []

def storeInline (entry : Text × Text) : Compilation Text := do
  modify (Context.store (Text.unquote entry.1) (Text.unquote entry.2))
  return []

/-- Compile a section written as a block, and store it. -/
def storeBlock (compile : Text → Compilation Text) (entry : Text × Text) :
    Compilation Text := do
  let content ← compile entry.2
  modify (Context.store (Text.unquote entry.1) content)
  return []

/-- The content of a section, or the directive as it is written where there is no
such section yet. -/
def resolveYield (context : Context) (use : Text × Text) : Text :=
  (Table.get? (Text.unquote use.2) context.sections).getD use.1

def compileSwitch (compile : Text → Compilation Text) (block : Text × Text) :
    Compilation Text := do
  let body ← compile (Text.trim block.2)
  return Directive.switchCode block.1 body

/-- Run one pass, where `compile` is what compiles a text from start to end. -/
def apply (compiler : Compiler) (compile : Text → Compilation Text) (pass : Pass)
    (text : Text) : Compilation Text :=
  match pass with
  | .extensions =>
      extension.replaceM (fun name => compiler.compileNested compile (Text.unquote name)) text
  | .inlineSections => inlineSection.replaceM storeInline text
  | .blockSections => blockSection.replaceM (storeBlock compile) text
  | .inclusions =>
      inclusion.replaceM (fun name => compiler.compileNested compile (Text.unquote name)) text
  | .forms => return Directive.lowerForms text
  | .environment => return Pattern.replaceEach Directive.environmentRules text
  | .loops => return Pattern.replaceEach Directive.loopRules text
  | .jumps => return Pattern.replaceEach Directive.jumpRules text
  | .conditionals => return Pattern.replaceEach Directive.conditionalRules text
  | .switches => Directive.switchBlock.replaceM (compileSwitch compile) text
  | .caseLabels => return Pattern.replaceEach Directive.caseLabelRules text
  | .existenceGuards => return Pattern.replaceEach Directive.existenceRules text
  | .rawCode => return Pattern.replaceEach Directive.rawCodeRules text
  | .yields => return yielding.replace (resolveYield (← get)) text
  | .method => return Pattern.replaceEach Directive.methodRules text
  | .customDirectives => return compiler.registry.apply text
  | .comments => return Directive.dropComments text
  | .echoes => return Echo.interpolate .output text

end Compiler

end Scriptlet
