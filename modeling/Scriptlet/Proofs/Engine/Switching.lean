import Scriptlet.Proofs.Engine.Memo
import Scriptlet.Proofs.Engine.Origin

/-!
# Changes of policy

The two policies read one time on an artifact: one as the time of its source, the other as
the time at which it was written.  After a change of policy an artifact can be served
though its source has changed, and the main statements say exactly when: with a time to
live of zero where it carries a second yet to come, and with exact modification times
where it was stored in the very second in which the source was modified since.
-/

namespace Scriptlet.Engine

open Host

/-- The artifact of a view carries a second that is yet to come. -/
def Postdated (session : Session) (place : Location) (name : Text) : Prop :=
  ∃ code stamp,
    session.host.lookup? (Cache.slot place (session.engine.sourcePath session.host name)) =
      some (.file (.text code) stamp) ∧
    session.host.now.wholeSeconds < stamp.wholeSeconds

/-- The session after the file of a view was replaced. -/
def Session.edited (session : Session) (location : Location) (content : Content)
    (modified : Time) : Session :=
  { session with host := session.host.put location (.file content modified) }

/-- The session after the setting for the time to live was changed. -/
def Session.switched (session : Session) (ttl? : Option Int) : Session :=
  { session with engine := session.engine.setTtl ttl? }

variable {allowed allowedThen : List Event → Session → Action → Prop}
  {start middle finish : Session} {trace before after : List Event}
  {directory name code : Text} {place location : Location} {content old : Content}
  {modified written stamp : Time} {bound : Nat} {data : Json.Value} {outcome : Outcome Text}

/-- A time to live of zero accepts what carries a second yet to come, and nothing else. -/
theorem accepts_zero {engine : Engine} {now : Time} {ttl : Int}
    (setting : engine.config.ttl? = some ttl) (nonpositive : ttl ≤ 0)
    (readable : now.wholeSeconds < Cache.greatestSeconds) :
    engine.config.policy.accepts stamp modified now = true ↔
      now.wholeSeconds < stamp.wholeSeconds := by
  have policyEq : engine.config.policy = .timeToLive 0 := by
    rw [Config.policy, setting, Cache.Policy.ofTtl, Int.toNat_of_nonpos nonpositive]
  rw [policyEq, Cache.Policy.accepts_timeToLive_iff readable, Nat.add_zero]

theorem accepts_exactModification {engine : Engine} {now : Time}
    (exactTimes : engine.config.ttl? = none) :
    engine.config.policy.accepts stamp modified now = true ↔
      stamp.wholeSeconds = modified.wholeSeconds := by
  have policyEq : engine.config.policy = .exactModification := by
    rw [Config.policy, exactTimes]
    rfl
  rw [policyEq, Cache.Policy.accepts_exactModification_iff]
  exact eq_comm

/-! ## A site with two views that nest none -/

def homeSite (ttl? : Option Int) : Session where
  engine := keeper ttl?
  host := twoViews "home" "part"

/-- The file of the view `home`. -/
def homeFile : Location := ["views", "home.view.html"]

/-- The site in second 100, after a render of `home` under a time to live. -/
def renderedHome : Session :=
  (homeSite (some 60)).rendered 1 "home"

/-- The site after `home` was rewritten with this modification time and the setting was
changed. -/
def rewrittenHome (second : Nat) (ttl? : Option Int) : Session :=
  (renderedHome.edited homeFile (.text "new") (.ofSeconds second 0)).switched ttl?

/-- What is there and what a render answers, before and after `home` is rewritten. -/
private theorem home_answers :
    ((homeSite (some 60)).answer 1 "home" = some (.ok "home") ∧
        renderedHome.engine.IsView renderedHome.host "home" homeFile (.text "home")
          (.ofSeconds 1 0)) ∧
      (let finish := rewrittenHome 50 (some (-3))
       finish.engine.config.ttl? = some 0 ∧
       finish.host.now.wholeSeconds < Cache.greatestSeconds ∧
       finish.answer 1 "home" = some (.ok "new") ∧
       finish.host.lookup?
           (Cache.slot ["cache"] (finish.engine.sourcePath finish.host "home")) =
         some (.file (.text "home") (.ofSeconds 100 0))) ∧
      (let finish := rewrittenHome 2 none
       finish.engine.config.ttl? = none ∧
       finish.engine.IsView finish.host "home" homeFile (.text "new") (.ofSeconds 2 0) ∧
       finish.answer 1 "home" = some (.ok "new") ∧
       finish.host.lookup?
           (Cache.slot ["cache"] (finish.engine.sourcePath finish.host "home")) =
         some (.file (.text "home") (.ofSeconds 100 0))) ∧
      (let finish := rewrittenHome 100 none
       finish.engine.config.ttl? = none ∧
       finish.answer 1 "home" = some (.ok "home") ∧
       finish.engine.compileView 1 finish.host "home" = some (.ok ("new", []))) := by
  simp only [IsView]
  decide +kernel

theorem renderedHome_run : Run (fun _ _ _ => True) (homeSite (some 60))
    [⟨homeSite (some 60), .render "home" (.ok "home")⟩] renderedHome :=
  Run.start.step trivial (.of_answer home_answers.1.1)

theorem renderedHome_view : renderedHome.engine.IsView renderedHome.host "home" homeFile
    (.text "home") (.ofSeconds 1 0) :=
  home_answers.1.2

/-- The only second in which `home` was modified is the first. -/
theorem renderedHome_fresh {second : Nat} (later : second ≠ 1) :
    ¬Used (homeSite (some 60)).host [⟨homeSite (some 60), .render "home" (.ok "home")⟩]
      homeFile second := by
  rintro (⟨content, modified, found, rfl⟩ | ⟨event, listed, content, modified, edited, -⟩)
  · cases found
    exact later rfl
  · cases List.mem_singleton.mp listed
    cases edited

/-! ## A time to live of zero -/

/-- With a time to live of zero, after every run, a successful render answers what its view
compiles to now, unless its artifact carries a second yet to come.  It answers such an
artifact, which was stored under exact modification times for a source modified in that
second, or before the clock was set back, if it was not there from the start. -/
theorem render_at_zero_ttl
    (deployed : start.engine.Deployed start.host directory place)
    (run : Run allowed start trace finish)
    {ttl : Int} (setting : finish.engine.config.ttl? = some ttl) (nonpositive : ttl ≤ 0)
    (readable : finish.host.now.wholeSeconds < Cache.greatestSeconds)
    (ran : finish.engine.render .dryRun bound finish.host name data = some outcome)
    (succeeded : outcome.result = .ok code) :
    (¬Postdated finish place name ∧
        ∃ diagnostics,
          finish.engine.CompilesView finish.host name (.ok (code, diagnostics))) ∨
      ∃ location content modified stamp,
        finish.engine.IsView finish.host name location content modified ∧
        finish.host.lookup? (Cache.slot place (finish.engine.sourcePath finish.host name)) =
          some (.file (.text code) stamp) ∧
        finish.host.now.wholeSeconds < stamp.wholeSeconds ∧
        Origin start place trace (finish.engine.sourcePath finish.host name) location code
          stamp := by
  obtain ⟨location, content, modified, view, within, compiled | served⟩ :=
    run.answer_cases deployed ran succeeded
  · refine .inl ⟨?_, compiled.2⟩
    rintro ⟨other, stamp, stored, later⟩
    have accepted : finish.engine.config.policy.accepts stamp modified finish.host.now = true :=
      (accepts_zero setting nonpositive readable).mpr later
    exact Bool.noConfusion (accepted.symm.trans (compiled.1 other stamp stored))
  · obtain ⟨stamp, stored, accepted, origin⟩ := served
    have later := (accepts_zero setting nonpositive readable).mp accepted
    exact .inr ⟨location, content, modified, stamp, view, stored, later, origin⟩

/-- A time to live below zero counts as zero, and an edit shows at once. -/
theorem render_at_zero_ttl_of_renderedHome :
    ∃ trace finish, Run (fun _ _ _ => True) (homeSite (some 60)) trace finish ∧
      trace.map Event.action = [.render "home" (.ok "home"),
        .edit homeFile (.text "new") (.ofSeconds 50 0), .setTtl (some (-3))] ∧
      finish.engine.config.ttl? = some 0 ∧
      finish.host.now.wholeSeconds < Cache.greatestSeconds ∧
      finish.answer 1 "home" = some (.ok "new") ∧
      ¬Postdated finish ["cache"] "home" ∧
      ∃ diagnostics,
        finish.engine.CompilesView finish.host "home" (.ok ("new", diagnostics)) := by
  have run := (renderedHome_run.step trivial
    (.edit (.text "new") (.ofSeconds 50 0) renderedHome_view)).step trivial (.setTtl (some (-3)))
  -- the artifact is still that of the old text
  obtain ⟨setting, readable, answered, kept⟩ := home_answers.2.1
  obtain ⟨outcome, ran, succeeded⟩ := Option.map_eq_some_iff.mp answered
  refine ⟨_, _, run, rfl, setting, readable, answered, ?_⟩
  rcases render_at_zero_ttl (keeper_deployed _ _ _) run setting (by decide) readable ran
    succeeded with compiled | ⟨_, _, _, _, -, stored, -⟩
  · exact compiled
  · cases stored.symm.trans kept

/-- A source that was modified in the future once, and rendered with exact modification
times, leaves an artifact that a time to live of zero still serves. -/
theorem outdated_at_zero_ttl :
    ∃ trace finish, Run (fun _ _ _ => True) (homeSite none) trace finish ∧
      trace.map Event.action = [.edit homeFile (.text "old") (.ofSeconds 1000 0),
        .render "home" (.ok "old"), .edit homeFile (.text "new") (.ofSeconds 2 0),
        .setTtl (some 0)] ∧
      finish.engine.config.ttl? = some 0 ∧
      finish.answer 1 "home" = some (.ok "old") ∧
      ¬∃ diagnostics,
        finish.engine.CompilesView finish.host "home" (.ok ("old", diagnostics)) := by
  let dated := (homeSite none).edited homeFile (.text "old") (.ofSeconds 1000 0)
  let rendered := dated.rendered 1 "home"
  let finish := (rendered.edited homeFile (.text "new") (.ofSeconds 2 0)).switched (some 0)
  obtain ⟨view, datedAnswered, datedView, setting, answered, compiled⟩ :
      (homeSite none).engine.IsView (homeSite none).host "home" homeFile (.text "home")
          (.ofSeconds 1 0) ∧
        dated.answer 1 "home" = some (.ok "old") ∧
        rendered.engine.IsView rendered.host "home" homeFile (.text "old") (.ofSeconds 1000 0) ∧
        finish.engine.config.ttl? = some 0 ∧
        finish.answer 1 "home" = some (.ok "old") ∧
        finish.engine.compileView 1 finish.host "home" = some (.ok ("new", [])) := by
    rw [IsView, IsView]
    decide +kernel
  have run : Run (fun _ _ _ => True) (homeSite none) _ finish :=
    (((Run.start.step trivial (.edit (.text "old") (.ofSeconds 1000 0) view)).step trivial
      (.of_answer datedAnswered)).step trivial
      (.edit (.text "new") (.ofSeconds 2 0) datedView)).step trivial (.setTtl (some 0))
  have compiles : finish.engine.CompilesView finish.host "home" (.ok ("new", [])) :=
    ⟨1, compiled⟩
  refine ⟨_, finish, run, rfl, setting, answered, ?_⟩
  rintro ⟨diagnostics, outdated⟩
  cases compilesView_unique compiles outdated

/-! ## Exact modification times -/

/-- With exact modification times, after a run in which the file of a view was replaced in
a second of its own and not stored since, a successful render answers what the view
compiles to now, unless its artifact carries that very second.  It answers such an
artifact, which was stored in that second under a time to live, if it was not there from
the start. -/
theorem render_after_edit
    (deployed : start.engine.Deployed start.host directory place)
    (earlier : Run allowed start before middle)
    (view : middle.engine.IsView middle.host name location old written)
    (fresh : ¬Used start.host before location modified.wholeSeconds)
    (later : Run allowedThen (middle.edited location content modified) after finish)
    (unstored : ∀ event ∈ after, ∀ code stamp, ¬event.Stores place location code stamp)
    (exactTimes : finish.engine.config.ttl? = none)
    (current : finish.engine.IsView finish.host name location content modified)
    (ran : finish.engine.render .dryRun bound finish.host name data = some outcome)
    (succeeded : outcome.result = .ok code) :
    ((∀ other stamp,
          finish.host.lookup? (Cache.slot place (finish.engine.sourcePath finish.host name)) =
            some (.file (.text other) stamp) →
          stamp.wholeSeconds ≠ modified.wholeSeconds) ∧
        ∃ diagnostics,
          finish.engine.CompilesView finish.host name (.ok (code, diagnostics))) ∨
      ∃ stamp,
        finish.host.lookup? (Cache.slot place (finish.engine.sourcePath finish.host name)) =
          some (.file (.text code) stamp) ∧
        stamp.wholeSeconds = modified.wholeSeconds ∧
        (start.host.lookup? (Cache.slot place (start.engine.sourcePath start.host name)) =
            some (.file (.text code) stamp) ∨
          ∃ event ∈ before, event.Stores place location code stamp ∧
            event.session.engine.config.ttl? ≠ none ∧ event.session.host.now = stamp) := by
  have reached := (earlier.deployed deployed).1
  have changed := view.changedAt_put content modified
  have editedDeployed : (middle.edited location content modified).engine.Deployed
      (middle.edited location content modified).host directory place :=
    reached.of_edit view changed
  obtain ⟨found, foundContent, time, foundView, within, compiled | served⟩ :=
    later.answer_cases editedDeployed ran succeeded
  · obtain ⟨-, -, rfl⟩ := isView_unique current foundView
    refine .inl ⟨fun other stamp stored sameSecond => ?_, compiled.2⟩
    have accepted : finish.engine.config.policy.accepts stamp time finish.host.now = true :=
      (accepts_exactModification exactTimes).mpr sameSecond
    exact Bool.noConfusion (accepted.symm.trans (compiled.1 other stamp stored))
  · obtain ⟨stamp, stored, accepted, origin⟩ := served
    obtain ⟨rfl, -, rfl⟩ := isView_unique current foundView
    have sameSecond := (accepts_exactModification exactTimes).mp accepted
    refine .inr ⟨stamp, stored, sameSecond, ?_⟩
    cases origin with
    | dated member stores => exact absurd stores (unstored _ member _ _)
    | timed member stores => exact absurd stores (unstored _ member _ _)
    | found atEdit =>
        obtain ⟨⟨_, _, editedView⟩, pathEq⟩ := later.view_before editedDeployed current
        obtain ⟨-, editedPathEq⟩ := hasView_of_edit view changed ⟨_, _, _, editedView⟩
        obtain ⟨-, earlierPathEq⟩ := earlier.view_before deployed view
        have fullPathEq := pathEq.trans editedPathEq
        rw [WithinReach, fullPathEq] at within
        rw [fullPathEq] at atEdit
        have atMiddle := (reached.lookup?_slot_of_edit view changed _).symm.trans atEdit
        -- what the artifact carried at the edit was no second of its source
        cases earlier.origin deployed view within atMiddle with
        | found atStart => exact .inl (earlierPathEq ▸ atStart)
        | dated _ _ _ used => exact absurd (sameSecond ▸ used) fresh
        | timed member stores timeToLive atTime =>
            exact .inr ⟨_, member, stores, timeToLive, atTime⟩

/-- An edit in a second of its own shows at once after the change to exact modification
times. -/
theorem render_after_edit_of_renderedHome :
    Run (fun _ _ _ => True) (homeSite (some 60))
        [⟨homeSite (some 60), .render "home" (.ok "home")⟩] renderedHome ∧
      ¬Used (homeSite (some 60)).host [⟨homeSite (some 60), .render "home" (.ok "home")⟩]
        homeFile (Time.ofSeconds 2 0).wholeSeconds ∧
      ∃ after finish,
        Run (fun _ _ _ => True) (renderedHome.edited homeFile (.text "new") (.ofSeconds 2 0))
          after finish ∧
        after.map Event.action = [.setTtl none] ∧
        finish.engine.config.ttl? = none ∧
        finish.engine.IsView finish.host "home" homeFile (.text "new") (.ofSeconds 2 0) ∧
        finish.answer 1 "home" = some (.ok "new") ∧
        ∃ diagnostics,
          finish.engine.CompilesView finish.host "home" (.ok ("new", diagnostics)) := by
  let edited := renderedHome.edited homeFile (.text "new") (.ofSeconds 2 0)
  have later : Run (fun _ _ _ => True) edited [⟨edited, .setTtl none⟩] (rewrittenHome 2 none) :=
    Run.start.step trivial (.setTtl none)
  -- the artifact is still that of the old text
  obtain ⟨exactTimes, current, answered, kept⟩ := home_answers.2.2.1
  have fresh := renderedHome_fresh
    (by decide : (Time.ofSeconds 2 0).wholeSeconds ≠ 1)
  have unstored : ∀ event ∈ [(⟨edited, .setTtl none⟩ : Event)], ∀ code stamp,
      ¬event.Stores ["cache"] homeFile code stamp := by
    rintro event listed code stamp ⟨_, _, _, _, rendered, -⟩
    cases List.mem_singleton.mp listed
    cases rendered
  obtain ⟨outcome, ran, succeeded⟩ := Option.map_eq_some_iff.mp answered
  refine ⟨renderedHome_run, fresh, _, _, later, rfl, exactTimes, current, answered, ?_⟩
  rcases render_after_edit (keeper_deployed _ _ _) renderedHome_run renderedHome_view fresh later
    unstored exactTimes current ran succeeded with ⟨-, compiles⟩ | ⟨_, stored, -⟩
  · exact compiles
  · cases stored.symm.trans kept

/-- An edit in a second of its own stays unseen where an artifact was stored in that
second under a time to live. -/
theorem outdated_after_switch :
    Run (fun _ _ _ => True) (homeSite (some 60))
        [⟨homeSite (some 60), .render "home" (.ok "home")⟩] renderedHome ∧
      ¬Used (homeSite (some 60)).host [⟨homeSite (some 60), .render "home" (.ok "home")⟩]
        homeFile (Time.ofSeconds 100 0).wholeSeconds ∧
      ∃ after finish,
        Run (fun _ _ _ => True)
          (renderedHome.edited homeFile (.text "new") (.ofSeconds 100 0)) after finish ∧
        after.map Event.action = [.setTtl none] ∧
        finish.engine.config.ttl? = none ∧
        finish.answer 1 "home" = some (.ok "home") ∧
        ¬∃ diagnostics,
          finish.engine.CompilesView finish.host "home" (.ok ("home", diagnostics)) := by
  let edited := renderedHome.edited homeFile (.text "new") (.ofSeconds 100 0)
  have later : Run (fun _ _ _ => True) edited [⟨edited, .setTtl none⟩] (rewrittenHome 100 none) :=
    Run.start.step trivial (.setTtl none)
  obtain ⟨exactTimes, answered, compiled⟩ := home_answers.2.2.2
  refine ⟨renderedHome_run, renderedHome_fresh (by decide), _, _, later, rfl, exactTimes,
    answered, ?_⟩
  rintro ⟨diagnostics, outdated⟩
  cases compilesView_unique ⟨1, compiled⟩ outdated

end Scriptlet.Engine
