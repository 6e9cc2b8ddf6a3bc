import Scriptlet.Proofs.Engine.Site
import Scriptlet.Proofs.Text.Collapse

/-!
# Compression

An engine compresses what a whole compile comes to, so nested views are compressed only as a
part of the view that nests them.  Compiled code is trimmed, by the same white space that
compression collapses, and so compressed code begins and ends with something visible.
-/

namespace Scriptlet

/-- What compression makes of code: only its white space is another one. -/
structure Text.Compression (code compressed : Text) : Prop where
  collapsed : Collapsed code compressed
  tidy : Tidy compressed
  filter_visible : compressed.filter (!isBlank ·) = code.filter (!isBlank ·)
  again : collapseBlanks compressed = compressed

theorem Trimmed.compression {code : Text} (trimmed : Trimmed code) :
    Text.Compression code (Text.collapseBlanks code) := by
  have collapsed := Text.collapsed_collapseBlanks code
  have tidy := collapsed.tidy trimmed
  exact ⟨collapsed, tidy, collapsed.filter_visible, tidy.collapseBlanks_eq⟩

theorem Compiler.trimmed_of_compile {compiler : Compiler} {bound : Nat} {source compiled : Text}
    {before after : Context}
    (run : (compiler.compile bound source).run before = some (compiled, after)) :
    Trimmed compiled := by
  cases bound with
  | zero => cases run
  | succ bound =>
      simp only [compile, StateT.run_bind, StateT.run_pure, Option.bind_eq_bind,
        Option.bind_eq_some_iff, Option.pure_def, Option.some.injEq, Prod.mk.injEq] at run
      obtain ⟨⟨passed, reached⟩, -, rfl, -⟩ := run
      exact Text.trimBy_trimBy Text.isBlank passed

namespace Engine

/-- The answers of one compile, without compression and with it. -/
inductive Compresses :
    Except Failure (Text × List Diagnostic) → Except Failure (Text × List Diagnostic) →
      Prop where
  | error (failure : Failure) : Compresses (.error failure) (.error failure)
  | ok {code compressed : Text} (diagnostics : List Diagnostic)
      (compression : Text.Compression code compressed) :
      Compresses (.ok (code, diagnostics)) (.ok (compressed, diagnostics))

variable (engine : Engine) (bound : Nat) (host : Host)

theorem compileSource_compresses (source : Text) :
    Option.Rel (fun code compressed => Compresses (.ok code) (.ok compressed))
      ((engine.setCompress false).compileSource bound host source)
      ((engine.setCompress true).compileSource bound host source) := by
  have sameCompiler : (engine.setCompress true).compiler host =
    (engine.setCompress false).compiler host := rfl
  unfold compileSource
  rw [sameCompiler]
  cases run : (((engine.setCompress false).compiler host).compile bound source).run {} with
  | none => exact .none
  | some compiled =>
      exact .some (.ok _ (Compiler.trimmed_of_compile run).compression)

/-- Compression normalises white space and changes nothing else: compiles of sources and of
views fail and record alike with it and without it, and every maximal run of white space in
the code is one space. -/
theorem compression_normalises :
    (∀ source, Option.Rel (fun code compressed => Compresses (.ok code) (.ok compressed))
      ((engine.setCompress false).compileSource bound host source)
      ((engine.setCompress true).compileSource bound host source)) ∧
    ∀ name, Option.Rel Compresses
      ((engine.setCompress false).compileView bound host name)
      ((engine.setCompress true).compileView bound host name) := by
  refine ⟨engine.compileSource_compresses bound host, fun name => ?_⟩
  have sameLoader : (engine.setCompress true).loader host =
    (engine.setCompress false).loader host := rfl
  unfold compileView
  rw [sameLoader]
  cases ((engine.setCompress false).loader host).load name with
  | error failure => exact .some (.error failure)
  | ok source =>
      dsimp only
      have related := engine.compileSource_compresses bound host source
      generalize (engine.setCompress false).compileSource bound host source = plain,
        (engine.setCompress true).compileSource bound host source = short at related ⊢
      cases related with
      | none => exact .none
      | some compresses => exact .some compresses

/-- White space of a nested view is collapsed with that around it. -/
example : ((keeper none).setCompress true).compileView 2
    (twoViews "<p>\n  @include('part')\t</p>" "a\n\n b") "home" =
      some (.ok ("<p> a b </p>", [])) := by
  decide +kernel

end Engine

end Scriptlet
