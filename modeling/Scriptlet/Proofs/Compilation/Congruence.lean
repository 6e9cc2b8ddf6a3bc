import Scriptlet.Proofs.Compilation.Nested

/-!
# Relations between compilations

A relation between computations is compositional if it relates every answer to itself and
relates sequences whose parts it relates.  Then it relates whole compiles, as soon as it
relates the few steps that touch the context.
-/

namespace Scriptlet

namespace Compilation

/-- Sequences are related if their parts are. -/
structure Compositional (Related : {α : Type} → Compilation α → Compilation α → Prop) :
    Prop where
  ofPure : ∀ {α : Type} (value : α), Related (pure value) (pure value)
  bind : ∀ {α β : Type} {first second : Compilation α}
    {firstNext secondNext : α → Compilation β}, Related first second →
      (∀ value, Related (firstNext value) (secondNext value)) →
        Related (first >>= firstNext) (second >>= secondNext)

namespace Compositional

variable {α β : Type} {Related : {α : Type} → Compilation α → Compilation α → Prop}
  (compositional : Compositional Related)

include compositional

/-- Replacing every use of a pattern is related where each replacement is. -/
theorem replaceM {first : Char} (pattern : Pattern first α)
    {left right : α → Compilation Text}
    (each : ∀ captured, Related (left captured) (right captured)) (text : Text) :
    Related (pattern.replaceM left text) (pattern.replaceM right text) := by
  fun_induction Pattern.uses pattern text with
  | case1 text unused =>
      rw [pattern.replaceM_of_firstUse?_none left unused,
        pattern.replaceM_of_firstUse?_none right unused]
      exact compositional.ofPure text
  | case2 text use used shorter induction =>
      rw [pattern.replaceM_of_firstUse?_some left used,
        pattern.replaceM_of_firstUse?_some right used]
      apply compositional.bind (each use.2.captured)
      intro replaced
      apply compositional.bind induction
      intro rest
      exact compositional.ofPure (text.take use.1 ++ (replaced ++ rest))

theorem foldlM {left right : α → β → Compilation α}
    (each : ∀ value item, Related (left value item) (right value item))
    (items : List β) (value : α) :
    Related (items.foldlM left value) (items.foldlM right value) := by
  induction items generalizing value with
  | nil => exact compositional.ofPure value
  | cons item items induction =>
      rw [List.foldlM_cons, List.foldlM_cons]
      exact compositional.bind (each value item) induction

end Compositional

/-- A relation between the contexts of a run is one between computations that looks at the
first of them only. -/
theorem Respects.compositional {relation : Context → Context → Prop}
    (reflexive : ∀ context, relation context context)
    (transitive : ∀ first second third,
      relation first second → relation second third → relation first third) :
    Compositional fun first _ => Respects relation first where
  ofPure := Respects.ofPure reflexive
  bind respects nextRespects := Respects.bind transitive respects nextRespects

end Compilation

namespace Compiler

open Compilation

variable {Related : {α : Type} → Compilation α → Compilation α → Prop}
  (compositional : Compositional Related) {first second : Compiler}

include compositional

/-- A pass is related where the compiles that it starts are, and the steps that store and
look up sections. -/
theorem apply_related (sameRegistry : second.registry = first.registry)
    {firstCompile secondCompile : Text → Compilation Text}
    (store : ∀ key content : Text, Related (modify (Context.store key content))
      (modify (Context.store key content)))
    (resolved : ∀ text, Related (first.apply firstCompile .yields text)
      (second.apply secondCompile .yields text))
    (compiled : ∀ source, Related (firstCompile source) (secondCompile source))
    (nested : ∀ name, Related (first.compileNested firstCompile name)
      (second.compileNested secondCompile name))
    (pass : Pass) (text : Text) :
    Related (first.apply firstCompile pass text) (second.apply secondCompile pass text) := by
  have storing : ∀ (key content : Text), Related
      (do modify (Context.store key content); return [] : Compilation Text)
      (do modify (Context.store key content); return []) :=
    fun key content => compositional.bind (store key content) fun _ => compositional.ofPure []
  cases pass with
  | extensions => exact compositional.replaceM _ (fun name => nested (Text.unquote name)) text
  | inclusions => exact compositional.replaceM _ (fun name => nested (Text.unquote name)) text
  | inlineSections => exact compositional.replaceM _ (fun entry => storing _ _) text
  | blockSections =>
      refine compositional.replaceM _ (fun entry => ?_) text
      exact compositional.bind (compiled entry.2) fun content => storing _ content
  | switches =>
      refine compositional.replaceM _ (fun block => ?_) text
      exact compositional.bind (compiled (Text.trim block.2)) fun body =>
        compositional.ofPure _
  | yields => exact resolved text
  | customDirectives =>
      rw [apply, apply, sameRegistry]
      exact compositional.ofPure _
  | _ => exact compositional.ofPure _

/-- A compile is related where its passes are. -/
theorem compile_related {bound larger : Nat}
    (applied : ∀ pass text, Related (first.apply (first.compile bound) pass text)
      (second.apply (second.compile larger) pass text)) (source : Text) :
    Related (first.compile (bound + 1) source) (second.compile (larger + 1) source) :=
  compositional.bind
    (compositional.foldlM (fun text pass => applied pass text) _ source)
    fun compiled => compositional.ofPure (Text.trim compiled)

end Compiler

end Scriptlet
