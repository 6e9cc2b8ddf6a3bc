import Scriptlet.Proofs.Cache.Validity
import Scriptlet.Proofs.Engine.Site

/-!
# A time to live makes a memo

Under a time to live the store is a memo table of compiles, keyed by the absolute paths of
views.  A render answers the last compile of its file while that is younger than the time
to live, whatever was edited since, and compiles the files as they are otherwise.
-/

namespace Scriptlet.Engine

open Host

/-- When a view was last compiled, and to what. -/
structure Memo.Entry where
  written : Time
  code : Text

/-- The last compile of every source, by its absolute path. -/
abbrev Memo := Text → Option Memo.Entry

namespace Memo

def insert (memo : Memo) (path : Text) (entry : Entry) : Memo :=
  fun other => if other = path then some entry else memo other

/-- An entry that may be answered at a moment: it was made less than so many whole seconds
ago. -/
def Holds (memo : Memo) (seconds : Nat) (now : Time) (path : Text) (entry : Entry) : Prop :=
  memo path = some entry ∧ now.wholeSeconds < entry.written.wholeSeconds + seconds

/-- What a memo table answers for a view, and the table after that. -/
inductive Answers (memo : Memo) (seconds : Nat) (session : Session) (name : Text) :
    Text → Memo → Prop
  | remembered {entry : Entry} :
      memo.Holds seconds session.host.now (session.engine.sourcePath session.host name) entry →
      Answers memo seconds session name entry.code memo
  | compiled {code : Text} {diagnostics : List Diagnostic} :
      (∀ entry, ¬memo.Holds seconds session.host.now
        (session.engine.sourcePath session.host name) entry) →
      session.engine.CompilesView session.host name (.ok (code, diagnostics)) →
      Answers memo seconds session name code
        (memo.insert (session.engine.sourcePath session.host name) ⟨session.host.now, code⟩)

/-- A memo table that answers every successful render of a run, one after another, and
ends as this one. -/
inductive Explains (seconds : Nat) : List Event → Memo → Prop
  | start : Explains seconds [] fun _ => none
  | answered {trace : List Event} {memo after : Memo} {session : Session} {name code : Text} :
      Explains seconds trace memo → memo.Answers seconds session name code after →
      Explains seconds (trace ++ [⟨session, .render name (.ok code)⟩]) after
  | passed {trace : List Event} {memo : Memo} {session : Session} {action : Action} :
      Explains seconds trace memo → (∀ name code, action ≠ .render name (.ok code)) →
      Explains seconds (trace ++ [⟨session, action⟩]) memo

end Memo

/-- Renders, edits of views, and waits, with a clock that does not go back and can be read
in seconds. -/
def AllowsTime (_ : List Event) (session : Session) : Action → Prop
  | .setTtl _ | .delete _ | .clear => False
  | .wait now => session.host.now.nanoseconds ≤ now.nanoseconds ∧
      now.wholeSeconds < Cache.greatestSeconds
  | _ => True

/-- Every slot of a view holds the last compile of the view, or is free where there was
none or it is out of date. -/
structure Mirrors (seconds : Nat) (place : Location) (session : Session) (memo : Memo) :
    Prop where
  policy_eq : session.engine.config.policy = .timeToLive seconds
  readable : session.host.now.wholeSeconds < Cache.greatestSeconds
  stored : ∀ name, session.engine.HasView session.host name →
    session.engine.WithinReach session.host name → ∀ code written,
    session.host.lookup? (Cache.slot place (session.engine.sourcePath session.host name)) =
      some (.file (.text code) written) →
    memo (session.engine.sourcePath session.host name) = some ⟨written, code⟩
  free : ∀ name, session.engine.HasView session.host name →
    session.engine.WithinReach session.host name →
    session.host.lookup? (Cache.slot place (session.engine.sourcePath session.host name)) =
      none →
    ∀ entry, ¬memo.Holds seconds session.host.now
      (session.engine.sourcePath session.host name) entry

variable {start before after finish : Session} {action : Action} {trace : List Event}
  {directory : Text} {place : Location} {seconds : Nat} {memo : Memo}

theorem Memo.insert_self (memo : Memo) (path : Text) (entry : Memo.Entry) :
    memo.insert path entry path = some entry :=
  if_pos rfl

theorem Memo.insert_of_ne {path other : Text} (differs : other ≠ path) (memo : Memo)
    (entry : Memo.Entry) : memo.insert path entry other = memo other :=
  if_neg differs

/-- An entry that may not be answered any more may not be answered later. -/
theorem Memo.not_holds_later {now later : Time} {path : Text}
    (ordered : now.nanoseconds ≤ later.nanoseconds)
    (outdated : ∀ entry, ¬memo.Holds seconds now path entry) (entry : Memo.Entry) :
    ¬memo.Holds seconds later path entry := by
  rintro ⟨known, young⟩
  have secondsLe := Time.wholeSeconds_mono (Time.seconds_le_iff.mpr ordered)
  exact outdated entry ⟨known, Nat.lt_of_le_of_lt secondsLe young⟩

namespace Mirrors

/-- What changes neither views nor slots keeps the store and the memo alike, while time
goes on. -/
theorem of_same_slots (mirrors : Mirrors seconds place before memo)
    (policyEq : after.engine.config.policy = before.engine.config.policy)
    (readable : after.host.now.wholeSeconds < Cache.greatestSeconds)
    (ordered : before.host.now.nanoseconds ≤ after.host.now.nanoseconds)
    (views : ∀ name, after.engine.HasView after.host name →
      before.engine.HasView before.host name ∧
        after.engine.sourcePath after.host name = before.engine.sourcePath before.host name)
    (slots : ∀ sourcePath, after.host.lookup? (Cache.slot place sourcePath) =
      before.host.lookup? (Cache.slot place sourcePath)) :
    Mirrors seconds place after memo where
  policy_eq := policyEq.trans mirrors.policy_eq
  readable := readable
  stored name view within code written stored := by
    obtain ⟨oldView, pathEq⟩ := views name view
    rw [WithinReach, pathEq] at within
    rw [pathEq, slots] at stored
    rw [pathEq]
    exact mirrors.stored name oldView within code written stored
  free name view within missing := by
    obtain ⟨oldView, pathEq⟩ := views name view
    rw [WithinReach, pathEq] at within
    rw [pathEq, slots] at missing
    rw [pathEq]
    exact Memo.not_holds_later ordered (mirrors.free name oldView within missing)

/-- A change in the slot of one view, with the memo changed for that view alone. -/
theorem of_slot (mirrors : Mirrors seconds place before memo)
    (deployed : before.engine.Deployed before.host directory place)
    {name : Text} {location : Location} {content : Content} {modified : Time}
    {left? : Option Host.Entry} {newMemo : Memo}
    (view : before.engine.IsView before.host name location content modified)
    (within : before.engine.WithinReach before.host name)
    (changed : ChangedAt before.host
      (Cache.slot place (before.engine.sourcePath before.host name)) left? after.host)
    (same : SameViews before after)
    (policyEq : after.engine.config.policy = before.engine.config.policy)
    (elsewhere : ∀ path, path ≠ before.engine.sourcePath before.host name →
      newMemo path = memo path)
    (stored : ∀ code written, left? = some (.file (.text code) written) →
      newMemo (before.engine.sourcePath before.host name) = some ⟨written, code⟩)
    (free : left? = none → ∀ entry, ¬newMemo.Holds seconds before.host.now
      (before.engine.sourcePath before.host name) entry) :
    Mirrors seconds place after newMemo where
  policy_eq := policyEq.trans mirrors.policy_eq
  readable := by
    rw [changed.now_eq]
    exact mirrors.readable
  stored otherName hasView otherWithin code written found := by
    obtain ⟨_, _, _, otherView⟩ := hasView
    have oldView := (same.isView_iff ..).mp otherView
    rw [WithinReach, same.sourcePath_eq otherName ⟨_, _, _, oldView⟩] at otherWithin
    rw [same.sourcePath_eq otherName ⟨_, _, _, oldView⟩] at found ⊢
    rcases deployed.slot_cases view within changed oldView otherWithin with
      ⟨pathEq, -, -, -, replaced⟩ | ⟨differs, kept⟩
    · rw [pathEq]
      exact stored code written (replaced.symm.trans found)
    · rw [elsewhere _ differs]
      exact mirrors.stored otherName ⟨_, _, _, oldView⟩ otherWithin code written
        (kept.symm.trans found)
  free otherName hasView otherWithin missing := by
    obtain ⟨_, _, _, otherView⟩ := hasView
    have oldView := (same.isView_iff ..).mp otherView
    rw [WithinReach, same.sourcePath_eq otherName ⟨_, _, _, oldView⟩] at otherWithin
    rw [same.sourcePath_eq otherName ⟨_, _, _, oldView⟩] at missing ⊢
    rw [changed.now_eq]
    rcases deployed.slot_cases view within changed oldView otherWithin with
      ⟨pathEq, -, -, -, replaced⟩ | ⟨differs, kept⟩
    · rw [pathEq]
      exact free (replaced.symm.trans missing)
    · intro entry holds
      refine mirrors.free otherName ⟨_, _, _, oldView⟩ otherWithin (kept.symm.trans missing)
        entry ?_
      rwa [Memo.Holds, ← elsewhere _ differs]

/-- Where the policy refuses what is stored, the memo has nothing to answer. -/
theorem not_holds_of_refuses (mirrors : Mirrors seconds place before memo)
    (deployed : before.engine.Deployed before.host directory place)
    {name : Text} {location : Location} {content : Content} {modified : Time}
    (view : before.engine.IsView before.host name location content modified)
    (within : before.engine.WithinReach before.host name)
    (refuses : before.engine.Refuses before.host place
      (before.engine.sourcePath before.host name) modified) (entry : Memo.Entry) :
    ¬memo.Holds seconds before.host.now (before.engine.sourcePath before.host name) entry := by
  rcases deployed.serves.artifacts _ (Cache.isArtifactName_key _) with
    missing | ⟨code, written, stored⟩
  · exact mirrors.free name ⟨_, _, _, view⟩ within missing entry
  · rintro ⟨known, young⟩
    rw [mirrors.stored name ⟨_, _, _, view⟩ within code written stored] at known
    cases known
    have refused := refuses code written stored
    rw [mirrors.policy_eq] at refused
    have accepted : (Cache.Policy.timeToLive seconds).accepts written modified before.host.now =
        true := (Cache.Policy.accepts_timeToLive_iff mirrors.readable).mpr young
    exact Bool.noConfusion (accepted.symm.trans refused)

/-- A render of the session is explained by the memo beside it. -/
theorem render (mirrors : Mirrors seconds place before memo)
    (deployed : before.engine.Deployed before.host directory place)
    (explains : Memo.Explains seconds trace memo) {name : Text} {outcome : Outcome Text}
    (rendering : Rendering before.engine before.host place name outcome)
    (policyEq : outcome.engine.config.policy = before.engine.config.policy) :
    ∃ newMemo, Memo.Explains seconds (trace ++ [⟨before, .render name outcome.result⟩]) newMemo ∧
      Mirrors seconds place ⟨outcome.engine, outcome.host⟩ newMemo := by
  have same := rendering.effect.sameViews deployed nofun
  cases rendering with
  | missing | outOfReach => exact ⟨memo, .passed explains nofun, mirrors⟩
  | served view within stored accepted =>
      rw [mirrors.policy_eq, Cache.Policy.accepts_timeToLive_iff mirrors.readable] at accepted
      have known := mirrors.stored name ⟨_, _, _, view⟩ within _ _ stored
      exact ⟨memo, .answered explains (.remembered ⟨known, accepted⟩), mirrors⟩
  | compiled view within refuses ran changed =>
      have outdated := mirrors.not_holds_of_refuses deployed view within refuses
      refine ⟨_, .answered explains (.compiled outdated (compilesView_of_compileSource view ran)),
        ?_⟩
      refine mirrors.of_slot deployed view within changed same policyEq
        (fun path differs => Memo.insert_of_ne differs memo _) ?_ nofun
      -- under a time to live nothing is stamped: the artifact carries the present time
      intro code written stored
      rw [mirrors.policy_eq] at stored
      cases stored
      exact Memo.insert_self ..
  | unreadable view within refuses changed =>
      have outdated := mirrors.not_holds_of_refuses deployed view within refuses
      exact ⟨memo, .passed explains nofun, mirrors.of_slot deployed view within changed same
        policyEq (fun _ _ => rfl) nofun fun _ => outdated⟩

/-- Each allowed step keeps the store and some memo alike, and the memo explains it. -/
theorem step (mirrors : Mirrors seconds place before memo)
    (deployed : before.engine.Deployed before.host directory place)
    (explains : Memo.Explains seconds trace memo)
    (allowed : AllowsTime trace before action) (step : Step before action after) :
    ∃ newMemo, Memo.Explains seconds (trace ++ [⟨before, action⟩]) newMemo ∧
      Mirrors seconds place after newMemo := by
  have effect := step.effect deployed
  cases step with
  | render ran =>
      have rendering := deployed.rendering_of_render ran
      refine mirrors.render deployed explains rendering ?_
      cases rendering <;> rfl
  | takeDiagnostics =>
      refine ⟨memo, .passed explains nofun, ?_⟩
      exact mirrors.of_same_slots rfl mirrors.readable (Int.le_refl _)
        (fun name view => ⟨view, rfl⟩) fun _ => rfl
  | edit content modified view =>
      have changed := view.changedAt_put content modified
      refine ⟨memo, .passed explains nofun, ?_⟩
      refine mirrors.of_same_slots rfl mirrors.readable (Int.le_refl _) ?_
        (deployed.lookup?_slot_of_edit view changed)
      exact fun name => hasView_of_edit view changed
  | wait now =>
      have same := effect.sameViews deployed nofun
      refine ⟨memo, .passed explains nofun, ?_⟩
      refine mirrors.of_same_slots rfl allowed.2 allowed.1 ?_ fun _ => rfl
      rintro name ⟨_, _, _, view⟩
      have oldView := (same.isView_iff ..).mp view
      exact ⟨⟨_, _, _, oldView⟩, same.sourcePath_eq name ⟨_, _, _, oldView⟩⟩
  | setTtl | delete | clear => exact allowed.elim

end Mirrors

/-- A render that answered code to which its view compiled at that moment, under this
absolute path. -/
def Event.Compiled (event : Event) (path code : Text) : Prop :=
  ∃ name diagnostics, event.action = .render name (.ok code) ∧
    event.session.engine.sourcePath event.session.host name = path ∧
    event.session.engine.CompilesView event.session.host name (.ok (code, diagnostics))

/-- What a memo holds was compiled by a render of the run, when the memo says it was. -/
theorem Memo.Explains.origin (explains : Memo.Explains seconds trace memo) {path : Text}
    {entry : Memo.Entry} (known : memo path = some entry) :
    ∃ event ∈ trace, event.Compiled path entry.code ∧ event.session.host.now = entry.written := by
  induction explains with
  | start => cases known
  | passed _ _ induction =>
      obtain ⟨event, listed, compiled⟩ := induction known
      exact ⟨event, List.mem_append_left _ listed, compiled⟩
  | @answered trace memo after session name code _ answers induction =>
      cases answers with
      | remembered =>
          obtain ⟨event, listed, compiled⟩ := induction known
          exact ⟨event, List.mem_append_left _ listed, compiled⟩
      | compiled _ compiles =>
          by_cases here : path = session.engine.sourcePath session.host name
          · subst here
            rw [Memo.insert_self] at known
            cases known
            exact ⟨_, List.mem_append_right _ (List.mem_singleton_self _),
              ⟨name, _, rfl, rfl, compiles⟩, rfl⟩
          · rw [Memo.insert_of_ne here] at known
            obtain ⟨event, listed, compiled⟩ := induction known
            exact ⟨event, List.mem_append_left _ listed, compiled⟩

end Scriptlet.Engine
