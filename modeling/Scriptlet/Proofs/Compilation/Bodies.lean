import Scriptlet.Proofs.Compilation.Sealed

/-!
# Bodies of blocks

A sealed text that neither loads nor stores nor fills anything compiles to a sealed one, and
the compile changes no context.  So switch blocks in a sealed text can be put into it one by
one, whatever stands before and behind the text.
-/

namespace Scriptlet

open Text

namespace Compiler

open Pattern Directive

variable {compiler : Compiler} {compile : Text → Compilation Text} {pass : Pass}
  {calls : List (Text × Text)} {unused : List Text} {text : Text}

/-- Directives that store and load, and places. -/
def effectNames : List Text := ["extends", "section", "include", "yield"]

/-- Calls of the directives of this library that stand for code.  Echoes are lowered in the
arguments of forms, so these have no braces. -/
def codeCalls : List (Text × Text) :=
  Pass.forms.names.map (fun name => (name, "@\x7b".toList)) ++
    ("switch".toList :: Pass.all.flatMap Pass.called).map fun name => (name, "@".toList)

/-- The calls that are looked for behind the pass for switches. -/
def lateCalls : List (Text × Text) :=
  ([Pass.caseLabels, .existenceGuards, .method].flatMap Pass.called).map
    fun name => (name, "@".toList)

theorem lateCalls_subset : lateCalls ⊆ codeCalls := by
  decide +kernel

theorem regular_late (regular : Regular codeCalls unused) : Regular lateCalls unused :=
  ⟨fun call listed => regular.letters call (lateCalls_subset listed),
    fun call listed => regular.special call (lateCalls_subset listed), regular.opening⟩

theorem ready_codeCalls (effects : effectNames ⊆ unused) (pass : Pass) :
    Ready codeCalls unused pass where
  layout := by
    have names : ∀ pass ∈ Pass.layout, pass.names ⊆ effectNames := by decide
    exact fun listed => List.Subset.trans (names pass listed) effects
  called := by
    have all : ∀ pass : Pass, ∀ name ∈ pass.called, (name, "@".toList) ∈ codeCalls := by
      intro pass
      cases pass <;> decide +kernel
    exact all pass
  formed := by
    rintro rfl name listed
    exact List.mem_append_left _ (List.mem_map_of_mem listed)

theorem ready_lateCalls (late : pass ∈ [Pass.caseLabels, .existenceGuards, .rawCode, .method]) :
    Ready lateCalls unused pass where
  layout := by
    have other : ∀ pass ∈ [Pass.caseLabels, .existenceGuards, .rawCode, .method],
        pass ∉ Pass.layout := by
      decide
    exact fun listed => absurd listed (other pass late)
  called := by
    revert pass
    decide +kernel
  formed := by
    rintro rfl
    exact absurd late (by decide)

/-- What a sealed text must not have so that its compile loads, stores and fills nothing. -/
structure Without (compiler : Compiler) (unused : List Text) : Prop where
  effects : effectNames ⊆ unused
  registered : ∀ directive ∈ compiler.registry.directives, directive.name ∈ unused

/-- The other passes are idle on a sealed text in which no switch ends. -/
private theorem apply_of_sealed (without : compiler.Without unused)
    (unended : "endswitch".toList ∈ unused) (isSealed : Sealed calls unused text)
    (listed : pass ∈ [Pass.switches, .yields, .customDirectives, .comments]) :
    compiler.apply compile pass text = pure text := by
  have absent : ∀ {α : Type} {name : Text} {pattern : Pattern '@' α}, name ∈ unused →
      Named name pattern → pattern.Absent text [] := fun never named =>
    absent_of_unopened named (isSealed.unopened _ never) nofun
  simp only [List.mem_cons, List.not_mem_nil, or_false] at listed
  rcases listed with rfl | rfl | rfl | rfl
  · have endless : (bare "endswitch").Absent text [] := absent unended (Named.ofBare _)
    exact replaceM_of_absent_text _ endless.blockOf
  · have unfilled : yielding.Absent text [] :=
      absent (without.effects (by decide)) (Called.withArgument _).named.keepingWritten
    funext context
    simp only [apply, replace_of_absent_text _ unfilled]
    rfl
  · have unregistered : compiler.registry.apply text = text := by
      apply replaceEach_of_absent_text
      rw [List.forall_mem_map]
      exact fun directive member => absent (without.registered directive member)
        directive.pattern_named
    rw [apply, unregistered]
  · apply apply_comments_of_absent
    intro tail suffix nonempty
    rw [List.append_nil, Option.eq_none_iff_forall_not_mem]
    intro found recognised
    have whole := comment.whole recognised
    have ends : commentEnd <:+: found.written :=
      ⟨"\x7b\x7b--".toList ++ found.captured, [], by
        rw [written_of_between recognised, List.append_nil, List.append_assoc]; rfl⟩
    have inTail : found.written <:+: tail := ⟨[], found.rest, whole.symm⟩
    exact isSealed.unended (ends.trans (inTail.trans suffix.isInfix))

/-- What is printed by an echo, in its code. -/
private theorem sealed_around {left right : Text} (regular : Regular [] unused)
    (isSealed : Sealed [] unused text) (leftCalm : Calm left) (rightCalm : Calm right)
    (opened : ∃ last ∈ ['(', ' '], left.getLast? = some last)
    (closed : ∃ head ∈ [')', ' '], right.head? = some head) :
    Sealed [] unused (left ++ text ++ right) := by
  obtain ⟨last, lastListed, ends⟩ := opened
  obtain ⟨head, headListed, begins⟩ := closed
  refine ⟨fun ended => ?_, fun opening listed tail suffix prefixed => ?_, nofun⟩
  · have lastPlain : ∀ last ∈ ['(', ' '], last ∉ commentEnd := by decide
    have headPlain : ∀ head ∈ [')', ' '], head ∉ commentEnd := by decide
    have parts := infix_of_guarded (.inl ⟨head, begins, headPlain head headListed⟩) ended
    rcases parts with inFront | inRight
    · rcases infix_of_guarded (.inr ⟨last, ends, lastPlain last lastListed⟩) inFront with
        inLeft | inText
      · exact leftCalm.unended inLeft
      · exact isSealed.unended inText
    · exact rightCalm.unended inRight
  · rw [List.append_assoc] at suffix
    rcases sign_suffix_append suffix with inText | ⟨inside, inLeft, -⟩
    · rcases sign_suffix_append inText with inRight | ⟨inside, inMiddle, rfl⟩
      · exact rightCalm.unsigned (inRight.subset List.mem_cons_self)
      · have stop : ∀ head ∈ [')', ' '], head ∈ stops := by decide
        obtain ⟨more, rfl⟩ := List.head?_eq_some_iff.mp begins
        exact isSealed.unopened opening listed inside inMiddle
          (prefix_of_stop (regular.opening opening listed) (stop head headListed) prefixed)
    · exact leftCalm.unsigned (inLeft.subset List.mem_cons_self)

/-- Code around the trimmed expression of an echo. -/
private theorem sealed_echo (others closers : Text) (code : Text → Text)
    (regular : Regular [] unused)
    (kept : ∀ expression, Sealed [] unused expression →
      Sealed [] unused (code expression) ∧ Edged (code expression))
    (isSealed : Sealed [] unused text) (first last : Char) :
    Sealed [] unused (((between (literal first others) (literal last closers)).map
      fun echo => code (Text.trim echo)).replace id text) := by
  refine isSealed.replace regular (.inr rfl) fun tail found suffix recognised => ?_
  obtain ⟨inner, innerFound, rfl⟩ := map_run?_eq_some.mp recognised
  have whole := Scan.whole _ innerFound
  rw [written_of_between innerFound] at whole
  have inside : Text.trim inner.captured <:+: text :=
    (trim_isInfix inner.captured).trans (List.IsInfix.trans
      ⟨first :: others, last :: closers ++ inner.rest, by rw [whole]; simp⟩ suffix.isInfix)
  exact kept _ ⟨fun ended => isSealed.unended (ended.trans inside),
    fun opening listed => (isSealed.unopened opening listed).of_isInfix inside, nofun⟩

/-- Echoes open nothing and end no comment. -/
private theorem sealed_interpolate (regular : Regular [] unused)
    (isSealed : Sealed [] unused text) : Sealed [] unused (Echo.interpolate .output text) := by
  have printed : ∀ expression, Sealed [] unused expression →
      Sealed [] unused (Code.output expression) ∧ Edged (Code.output expression) := by
    intro expression inside
    have printedSealed : Sealed [] unused ("<%- ".toList ++ expression ++ " %>".toList) :=
      sealed_around regular inside (by decide) (by decide) ⟨' ', by decide, rfl⟩
        ⟨' ', by decide, rfl⟩
    exact ⟨printedSealed, Code.edged_output expression⟩
  have escaped : ∀ expression, Sealed [] unused expression →
      Sealed [] unused (Code.output (Code.escapeCall expression)) ∧
        Edged (Code.output (Code.escapeCall expression)) := by
    intro expression inside
    have call : Code.output (Code.escapeCall expression) =
        "<%- escapeHtml(".toList ++ expression ++ ") %>".toList := by
      have opening : "<%- escapeHtml(".toList = "<%- ".toList ++ "escapeHtml(".toList := by decide
      have closing : ") %>".toList = ")".toList ++ Code.closing := by decide
      have parts : Code.output (Code.escapeCall expression) = "<%- ".toList ++
          ("escapeHtml(".toList ++ expression ++ ")".toList) ++ Code.closing := rfl
      rw [parts, opening, closing]
      simp only [List.append_assoc]
    have callSealed : Sealed [] unused ("<%- escapeHtml(".toList ++ expression ++ ") %>".toList) :=
      sealed_around regular inside (by decide) (by decide) ⟨'(', by decide, rfl⟩
        ⟨')', by decide, rfl⟩
    exact ⟨call ▸ callSealed, Code.edged_output _⟩
  rw [Echo.interpolate, replaceEach_eq_foldl]
  have unescaped := sealed_echo "!!" "!\x7d" Code.output regular printed isSealed '\x7b' '!'
  exact sealed_echo "\x7b" "\x7d" (fun expression => Code.output (Code.escapeCall expression))
    regular escaped unescaped '\x7b' '\x7d'

variable (compile) in
/-- One more pass on a sealed text alone. -/
private theorem exists_run_apply_sealed (regular : Regular calls unused)
    (ready : ∀ pass : Pass, Ready calls unused pass) (without : compiler.Without unused)
    (unended : "endswitch".toList ∈ unused) (isSealed : Sealed calls unused text)
    (printing : pass ≠ .echoes) :
    ∃ next, Sealed calls (pass.lowered ++ unused) next ∧
      ∀ context, (compiler.apply compile pass text).run context = some (next, context) := by
  by_cases idle : pass ∈ [Pass.switches, .yields, .customDirectives, .comments]
  · have nothing : ∀ pass ∈ [Pass.switches, .yields, .customDirectives, .comments],
        pass.lowered = [] := by
      decide
    rw [nothing pass idle, apply_of_sealed without unended isSealed idle]
    exact ⟨text, isSealed, fun _ => rfl⟩
  · obtain ⟨next, nextSealed, turns⟩ :=
      exists_turned compiler compile regular (ready pass) isSealed (by simp_all)
    refine ⟨next, nextSealed, fun context => ?_⟩
    have alone := turns context .nil
    simpa using alone

theorem Without.mono {more : List Text} (without : compiler.Without unused)
    (within : unused ⊆ more) : compiler.Without more :=
  ⟨List.Subset.trans without.effects within, fun _ listed => within (without.registered _ listed)⟩

variable (compile) in
/-- More passes on a sealed text alone. -/
private theorem exists_run_foldlM_sealed (regular : Regular codeCalls unused)
    (without : compiler.Without unused) (unended : "endswitch".toList ∈ unused)
    (isSealed : Sealed codeCalls unused text) (passes : List Pass) (printing : .echoes ∉ passes) :
    ∃ next, Sealed codeCalls (passes.flatMap Pass.lowered ++ unused) next ∧ ∀ context,
      (passes.foldlM (fun text pass => compiler.apply compile pass text) text).run context =
        some (next, context) := by
  induction passes generalizing unused text with
  | nil => exact ⟨text, isSealed, fun _ => rfl⟩
  | cons pass passes induction =>
      rw [List.mem_cons, not_or] at printing
      have ready : ∀ pass : Pass, Ready codeCalls unused pass := ready_codeCalls without.effects
      obtain ⟨middle, middleSealed, ran⟩ := exists_run_apply_sealed compile regular ready
        without unended isSealed (Ne.symm printing.1)
      have more : unused ⊆ pass.lowered ++ unused := List.subset_append_right _ _
      obtain ⟨next, nextSealed, others⟩ := induction (regular_lowered regular (ready pass))
        (without.mono more) (more unended) middleSealed printing.2
      refine ⟨next, nextSealed.mono ?_, fun context => ?_⟩
      · intro opening member
        simp only [List.flatMap_cons, List.mem_append] at member ⊢
        tauto
      · rw [run_foldlM_cons compiler compile (ran context)]
        exact others context

/-- A sealed text that loads, stores and fills nothing, and in which no switch ends, compiles
to one in which the directives for code are not opened any more. -/
theorem exists_compiled (regular : Regular codeCalls unused) (without : compiler.Without unused)
    (unended : "endswitch".toList ∈ unused) (isSealed : Sealed codeCalls unused text)
    (bound : Nat) :
    ∃ compiled, Sealed lateCalls unused compiled ∧
      ∀ context, (compiler.compile (bound + 1) text).run context = some (compiled, context) := by
  obtain ⟨lowered, loweredSealed, ran⟩ := exists_run_foldlM_sealed
    (compiler.compile bound) regular without unended isSealed (Pass.all.take 17) (by decide)
  -- echoes are lowered last, when no argument is open that one of them could close
  have gone : ∀ call ∈ lateCalls, call.1 ++ ['('] ∈ (Pass.all.take 17).flatMap Pass.lowered := by
    decide
  have opened : Regular [] ((Pass.all.take 17).flatMap Pass.lowered ++ unused) := by
    have openings : ∀ opening ∈ (Pass.all.take 17).flatMap Pass.lowered, IsOpening opening := by
      decide +kernel
    exact ⟨nofun, nofun, List.forall_mem_append.mpr ⟨openings, regular.opening⟩⟩
  have openedSealed : Sealed [] ((Pass.all.take 17).flatMap Pass.lowered ++ unused) lowered :=
    loweredSealed.weaken (List.Subset.refl _) nofun
  have printed := (sealed_interpolate opened openedSealed).trim
  refine ⟨Text.trim (Echo.interpolate .output lowered), ?_, fun context => ?_⟩
  · exact printed.weaken (List.subset_append_right _ _)
      fun call listed => .inr (List.mem_append_left _ (gone call listed))
  · have row : Pass.all = Pass.all.take 17 ++ [.echoes] := by decide
    rw [compile, row, List.foldlM_append, StateT.run_bind, StateT.run_bind, ran]
    rfl

/-- Replacements that leave the context alone give a text and leave the context alone. -/
private theorem run_replaceM {first : Char} {α : Type} {pattern : Pattern first α}
    {replacement : α → Compilation Text} {code : α → Text} {context : Context}
    (each : ∀ tail found, tail <:+ text → pattern.run? tail = some found →
      (replacement found.captured).run context = some (code found.captured, context)) :
    (pattern.replaceM replacement text).run context =
      some (pattern.replace code text, context) := by
  fun_induction uses pattern text with
  | case1 text unused =>
      rw [pattern.replaceM_of_firstUse?_none replacement unused,
        pattern.replace_of_firstUse?_none code unused]
      rfl
  | case2 text use used shorter induction =>
      have behind : use.2.rest <:+ text := ⟨text.take use.1 ++ use.2.written, by
        rw [List.append_assoc]; exact (pattern.firstUse?_whole used).symm⟩
      have ran := each _ _ (List.drop_suffix use.1 text) (pattern.run?_of_firstUse? used)
      have others := induction fun tail found suffix => each tail found (suffix.trans behind)
      rw [pattern.replaceM_of_firstUse?_some replacement used,
        pattern.replace_of_firstUse?_some code used]
      simp [ran, others]

/-- What a switch block is replaced by if its body compiles without regard to the context. -/
def switchedCode (compile : Text → Compilation Text) (block : Text × Text) : Text :=
  switchCode block.1 ((((compile (Text.trim block.2)).run {}).map Prod.fst).getD [])

/-- A switch block in a sealed text compiles without regard to the context, to sealed code. -/
private theorem switchedCode_of_find (regular : Regular codeCalls unused)
    (without : compiler.Without unused) (isSealed : Sealed codeCalls unused text) (bound : Nat)
    {tail : Text} {found : Found (Text × Text)} (suffix : tail <:+ text)
    (recognised : switchBlock.run? tail = some found) :
    (∀ context, (compileSwitch (compiler.compile (bound + 1)) found.captured).run context =
        some (switchedCode (compiler.compile (bound + 1)) found.captured, context)) ∧
      Sealed lateCalls unused (switchedCode (compiler.compile (bound + 1)) found.captured) ∧
      Edged (switchedCode (compiler.compile (bound + 1)) found.captured) := by
  have switchListed : ("switch".toList, "@".toList) ∈ codeCalls := by decide +kernel
  have endingOpening : ∀ opening ∈ "endswitch".toList :: unused, IsOpening opening :=
    List.forall_mem_cons.mpr ⟨by decide, regular.opening⟩
  -- no switch ends in the body of a block, so the compile of the body meets none
  have more : unused ⊆ "endswitch".toList :: unused := List.subset_cons_self _ _
  obtain ⟨⟨free, unended⟩, body⟩ := sealed_block regular isSealed switchListed suffix recognised
  obtain ⟨compiled, compiledSealed, ran⟩ := exists_compiled
    ⟨regular.letters, regular.special, endingOpening⟩ (without.mono more) List.mem_cons_self body
    bound
  have code : switchedCode (compiler.compile (bound + 1)) found.captured =
      switchCode found.captured.1 compiled := by
    rw [switchedCode, ran]
    rfl
  rw [code]
  refine ⟨fun context => by simp [compileSwitch, ran], ?_⟩
  have argument : Calm (Text.trim found.captured.1) :=
    Calm.of_isInfix ⟨free '@' (by decide), unended⟩ (trim_isInfix _)
  have opening : Calm (Code.openBlock
      ("switch (".toList ++ Text.trim found.captured.1 ++ ")".toList)) :=
    Code.calm_openBlock (Calm.between (by decide) argument (by decide) (by decide) (by decide))
  exact sealed_enclosed (regular_late regular) (Code.edged_statement _) opening
    (compiledSealed.mono more) (by decide) (by decide)

variable (compiler) in
/-- The switch blocks of a sealed text are put into it. -/
theorem exists_turned_of_switches (regular : Regular codeCalls unused)
    (without : compiler.Without unused) (isSealed : Sealed codeCalls unused text) (bound : Nat) :
    ∃ next, Sealed lateCalls unused next ∧
      compiler.Turns (compiler.compile (bound + 1)) .switches text next := by
  let code := switchedCode (compiler.compile (bound + 1))
  refine ⟨switchBlock.replace code text, ?_, fun {front back} context setting => ?_⟩
  · have lateSealed : Sealed lateCalls unused text :=
      isSealed.weaken (List.Subset.refl _) fun _ listed => .inl (lateCalls_subset listed)
    exact lateSealed.replace (regular_late regular) (.inl rfl) fun _ _ suffix recognised =>
      (switchedCode_of_find regular without isSealed bound suffix recognised).2
  · have frames : switchBlock.Frames front back :=
      frames_of_setting (by decide) (by decide) (by decide) setting
    have ran : (switchBlock.replaceM (compileSwitch (compiler.compile (bound + 1))) text).run
        context = some (switchBlock.replace code text, context) :=
      run_replaceM fun _ _ suffix recognised =>
        (switchedCode_of_find regular without isSealed bound suffix recognised).1 context
    rw [apply, frames.replaceM]
    simp [ran]

end Compiler

end Scriptlet
