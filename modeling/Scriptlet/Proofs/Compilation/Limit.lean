import Scriptlet.Proofs.Compilation.Congruence
import Scriptlet.Proofs.Compilation.Growth

/-!
# The limit of nesting

A limit decides nothing as long as no view is left out because of it.  The warnings about
views that are nested too deeply are counted: a compile that adds none goes the same way
within every larger limit.
-/

namespace Scriptlet

def Diagnostic.IsTooDeep (diagnostic : Diagnostic) : Prop :=
  diagnostic.code? = some nestedTooDeepCode

instance (diagnostic : Diagnostic) : Decidable diagnostic.IsTooDeep :=
  inferInstanceAs (Decidable (_ = _))

/-- How many views were left out so far because they are nested too deeply. -/
def Context.tooDeep (context : Context) : Nat :=
  context.diagnostics.countP fun diagnostic => diagnostic.IsTooDeep

namespace Context

theorem Grows.tooDeep_le {before after : Context} (grown : before.Grows after) :
    before.tooDeep ≤ after.tooDeep := by
  obtain ⟨appended, diagnostics_eq, -⟩ := grown.recorded
  rw [tooDeep, tooDeep, diagnostics_eq, List.countP_append]
  exact Nat.le_add_right _ _

theorem tooDeep_record_nestedTooDeep (view : Text) (limit : Nat) (context : Context) :
    (context.record (.nestedTooDeep view limit)).tooDeep = context.tooDeep + 1 := by
  rw [tooDeep, record, List.countP_append]
  rfl

/-- A context that has grown counts as many warnings as before if none of the new ones is
about a view that is nested too deeply. -/
theorem Grows.tooDeep_eq_iff {before after : Context} (grown : before.Grows after) :
    after.tooDeep = before.tooDeep ↔
      ∀ diagnostic ∈ after.diagnostics.drop before.diagnostics.length,
        ¬ diagnostic.IsTooDeep := by
  obtain ⟨appended, diagnostics_eq, -⟩ := grown.recorded
  rw [tooDeep, tooDeep, diagnostics_eq, List.countP_append, List.drop_left, Nat.add_eq_left,
    List.countP_eq_zero]
  simp only [decide_eq_true_eq]

end Context

namespace Compilation

variable {α β : Type}

/-- Wherever the first computation answers and leaves no view out for the limit, the second
one gives the same answer. -/
structure AgreesUnlimited (first second : Compilation α) : Prop where
  grows : Respects Context.Grows first
  agrees : ∀ {before after : Context} {result : α},
    first.run before = some (result, after) → after.tooDeep = before.tooDeep →
      second.run before = some (result, after)

theorem AgreesUnlimited.of_respects {compilation : Compilation α}
    (grows : Respects Context.Grows compilation) :
    AgreesUnlimited compilation compilation where
  grows := grows
  agrees ran _ := ran

/-- The count never falls, so a sequence that adds nothing to it has parts that add nothing. -/
theorem AgreesUnlimited.compositional : Compositional AgreesUnlimited where
  ofPure value := .of_respects (.ofPure Context.Grows.refl value)
  bind {α β first second firstNext secondNext} related nextRelated := by
    have nextGrows : ∀ value, Respects Context.Grows (firstNext value) :=
      fun value => (nextRelated value).grows
    refine ⟨.bind Context.Grows.trans related.grows nextGrows, ?_⟩
    intro before after result ran none_added
    obtain ⟨value, middle, firstRan, nextRan⟩ := run_bind_eq_some.mp ran
    have rises := (related.grows _ _ _ firstRan).tooDeep_le
    have rises_on := (nextGrows value _ _ _ nextRan).tooDeep_le
    have firstAgrees := related.agrees firstRan (by omega)
    have nextAgrees := (nextRelated value).agrees nextRan (by omega)
    exact run_bind_eq_some.mpr ⟨value, middle, firstAgrees, nextAgrees⟩

end Compilation

namespace Compiler

open Compilation

variable {registry : Registry} {loader : View.Loader} {limit larger : Nat}

theorem compileNested_agreesUnlimited (within : limit ≤ larger)
    {first second : Text → Compilation Text}
    (compiled : ∀ source, AgreesUnlimited (first source) (second source)) (name : Text) :
    AgreesUnlimited (compileNested ⟨registry, loader, limit⟩ first name)
      (compileNested ⟨registry, loader, larger⟩ second name) := by
  refine ⟨compileNested_grows (fun source => (compiled source).grows) name, ?_⟩
  intro before after result ran none_added
  by_cases reached : limit ≤ before.depth
  · rw [compileNested_run_of_limit reached] at ran
    cases ran
    rw [Context.tooDeep_record_nestedTooDeep] at none_added
    omega
  · have below : before.depth < limit := Nat.lt_of_not_le reached
    have largerBelow : before.depth < larger := Nat.lt_of_lt_of_le below within
    cases loaded : loader.load name with
    | error failure =>
        rw [compileNested_run_of_error below loaded] at ran
        rw [compileNested_run_of_error largerBelow loaded]
        exact ran
    | ok source =>
        rw [compileNested_run_of_ok below loaded, Option.map_eq_some_iff] at ran
        obtain ⟨⟨_, inner⟩, innerRan, pairEq⟩ := ran
        cases pairEq
        rw [compileNested_run_of_ok largerBelow loaded,
          (compiled source).agrees innerRan none_added]
        rfl

/-- By induction on the bound: every compile inside a pass has a smaller one. -/
theorem compile_agreesUnlimited (registry : Registry) (loader : View.Loader)
    (within : limit ≤ larger) (bound : Nat) (source : Text) :
    AgreesUnlimited (compile ⟨registry, loader, limit⟩ bound source)
      (compile ⟨registry, loader, larger⟩ bound source) := by
  induction bound generalizing source with
  | zero =>
      refine ⟨fun _ _ _ ran => ?_, fun ran => ?_⟩
      · cases ran
      · cases ran
  | succ bound induction =>
      have sameRegistry : (Compiler.mk registry loader larger).registry =
          (Compiler.mk registry loader limit).registry := rfl
      apply compile_related AgreesUnlimited.compositional
      apply apply_related AgreesUnlimited.compositional sameRegistry
      · exact fun key content => .of_respects (.ofModify (Context.Grows.store key content))
      · intro text
        rw [apply, apply]
        refine .of_respects fun before after result ran => ?_
        cases ran
        exact Context.Grows.refl before
      · exact induction
      · exact compileNested_agreesUnlimited within induction

/-- A limit that was never hit decides nothing: within every larger limit the compile ends
too, with the same text, the same sections and the same diagnostics. -/
theorem compiles_within_larger_limit (registry : Registry) (loader : View.Loader)
    {source compiled : Text} {before after : Context} (within : limit ≤ larger)
    (compiles : Compiles ⟨registry, loader, limit⟩ source before compiled after)
    (unhindered : ∀ diagnostic ∈ after.diagnostics.drop before.diagnostics.length,
      ¬ diagnostic.IsTooDeep) :
    Compiles ⟨registry, loader, larger⟩ source before compiled after := by
  obtain ⟨bound, ran⟩ := compiles
  have agrees := compile_agreesUnlimited registry loader within bound source
  have grown : before.Grows after := agrees.grows _ _ _ ran
  exact ⟨bound, agrees.agrees ran (grown.tooDeep_eq_iff.mpr unhindered)⟩

/-- Views nested two levels deep, compiled where an older warning about the limit and a
section are there already. -/
theorem compiles_within_larger_limit_of_two_levels :
    let loader := View.Loader.ofTable [("a", "[@include('b')]"), ("b", "@section('k','x')y")]
    let before : Context :=
      { sections := [("k", "1")], diagnostics := [.nestedTooDeep "v" 1] }
    let after : Context := { before with sections := [("k", "x")] }
    2 ≤ 7 ∧ Compiles ⟨{}, loader, 2⟩ "@include('a')@yield('k')" before "[y]x" after ∧
      (∀ diagnostic ∈ after.diagnostics.drop before.diagnostics.length,
        ¬ diagnostic.IsTooDeep) ∧
      Compiles ⟨{}, loader, 7⟩ "@include('a')@yield('k')" before "[y]x" after := by
  intro loader before after
  have compiles :
      Compiles ⟨{}, loader, 2⟩ "@include('a')@yield('k')" before "[y]x" after :=
    ⟨3, by decide +kernel⟩
  have unhindered : ∀ diagnostic ∈ after.diagnostics.drop before.diagnostics.length,
      ¬ diagnostic.IsTooDeep := by
    decide
  exact ⟨by decide, compiles, unhindered,
    compiles_within_larger_limit {} loader (by decide) compiles unhindered⟩

end Compiler

end Scriptlet
