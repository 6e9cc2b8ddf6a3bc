import Scriptlet.Compiler.Pass

/-!
# Compiling views

A compile runs every pass over a text and trims what comes out.  Passes compile
nested views and the bodies of blocks by the same function, and nothing in a text
bounds how often that happens: an included view may spell out a block that
includes it again.  So a compile is given a bound on the nesting of compiles, and
answers nothing where the bound is too small.
-/

namespace Scriptlet.Compiler

/-- Compile a text with compiles nested at most `bound` deep. -/
def compile (compiler : Compiler) : (bound : Nat) → (source : Text) → Compilation Text
  | 0, _ => fun _ => none
  | bound + 1, source => do
      let compiled ← Pass.all.foldlM
        (fun text pass => compiler.apply (compiler.compile bound) pass text) source
      return Text.trim compiled

/-- Run one pass, with compiles nested at most `bound` deep in it. -/
def runPass (compiler : Compiler) (bound : Nat) (pass : Pass) (text : Text) :
    Compilation Text :=
  compiler.apply (compiler.compile bound) pass text

/-- A compile of `source` ends, with this text and this context. -/
def Compiles (compiler : Compiler) (source : Text) (before : Context) (compiled : Text)
    (after : Context) : Prop :=
  ∃ bound, (compiler.compile bound source).run before = some (compiled, after)

end Scriptlet.Compiler
