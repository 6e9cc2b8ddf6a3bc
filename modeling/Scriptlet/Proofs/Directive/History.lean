import Scriptlet.Proofs.Directive.Name
import Scriptlet.Proofs.Table

/-!
# Registries after any registrations

A host fills its registry by calls of `register`, some of which may be refused.  The
registry is then the table of the calls that were accepted: a name has the place of its
first call and the handler of its last one.
-/

namespace Scriptlet

/-- A call of `register`. -/
structure Registration where
  written : Text
  handler : Option Text → Text

namespace Registration

/-- The name that is registered, where the call is accepted. -/
def name? (call : Registration) : Option Text :=
  let name := Registry.normalize call.written
  if Registry.isName name then some name else none

def entry? (call : Registration) : Option (Text × (Option Text → Text)) :=
  call.name?.map fun name => (name, call.handler)

theorem name?_eq_some_iff {call : Registration} {name : Text} :
    call.name? = some name ↔ WritesName call.written name := by
  rw [Registry.writesName_iff, name?]
  constructor
  · intro asked
    split at asked
    · rename_i ofName
      cases asked
      exact ⟨rfl, ofName⟩
    · cases asked
  · rintro ⟨rfl, ofName⟩
    exact if_pos ofName

end Registration

namespace Registry

/-- The registry after a call, which is the one before it where the call is refused. -/
def attempt (registry : Registry) (call : Registration) : Registry :=
  match registry.register call.written call.handler with
  | .ok changed => changed
  | .error _ => registry

/-- The registry of a host that has made some calls. -/
def after (history : List Registration) : Registry :=
  history.foldl attempt {}

/-- The handlers of a registry under their names. -/
def table (registry : Registry) : Table Text (Option Text → Text) :=
  registry.directives.map fun directive => (directive.name, directive.handler)

theorem directives_eq (registry : Registry) :
    registry.directives = registry.table.map fun entry => ⟨entry.1, entry.2⟩ := by
  simp [table, Function.comp_def]

theorem names_eq (registry : Registry) : registry.names = registry.table.map Prod.fst := by
  simp [names, table]

theorem get?_eq (registry : Registry) (name : Text) :
    registry.get? name =
      (Table.get? name registry.table).map fun handler => ⟨name, handler⟩ := by
  rw [get?, table]
  induction registry.directives with
  | nil => rfl
  | cons directive others induction =>
      by_cases same : directive.name = name
      · simp [Table.get?, ← same]
      · simpa [Table.get?, same] using induction

theorem table_place (directive : Directive) (directives : List Directive) :
    table ⟨place directive directives⟩ =
      Table.insert directive.name directive.handler (table ⟨directives⟩) := by
  induction directives with
  | nil => rfl
  | cons head others induction =>
      simp only [table, place, List.map_cons, Table.insert] at induction ⊢
      split
      · rfl
      · rw [List.map_cons, induction]

theorem register_of_name {call : Registration} {name : Text} (named : call.name? = some name)
    (registry : Registry) :
    registry.register call.written call.handler =
      .ok ⟨place ⟨name, call.handler⟩ registry.directives⟩ := by
  rw [Registration.name?_eq_some_iff, writesName_iff] at named
  obtain ⟨rfl, ofName⟩ := named
  exact if_pos ofName

theorem register_of_no_name {call : Registration} (unnamed : call.name? = none)
    (registry : Registry) :
    registry.register call.written call.handler =
      .error (.invalidDirective call.written) := by
  have refused : ¬ isName (normalize call.written) = true := by
    intro ofName
    rw [Registration.name?, if_pos ofName] at unnamed
    cases unnamed
  exact if_neg refused

theorem attempt_of_no_name {call : Registration} (unnamed : call.name? = none)
    (registry : Registry) : registry.attempt call = registry := by
  rw [attempt, register_of_no_name unnamed]

theorem after_append (history : List Registration) (call : Registration) :
    after (history ++ [call]) = (after history).attempt call :=
  List.foldl_append

/-- The registry is the table of the calls that were accepted. -/
theorem table_after (history : List Registration) :
    (after history).table = Table.ofPairs (history.filterMap Registration.entry?) := by
  induction history using List.reverseRecOn with
  | nil => rfl
  | append_singleton history call induction =>
      rw [after_append, List.filterMap_append]
      cases named : call.name? with
      | none =>
          rw [attempt_of_no_name named, induction]
          simp [Registration.entry?, named]
      | some name =>
          have entered : [call].filterMap Registration.entry? = [(name, call.handler)] := by
            simp [Registration.entry?, named]
          rw [entered, Table.ofPairs_append_singleton, ← induction, attempt,
            register_of_name named]
          exact table_place ⟨name, call.handler⟩ (after history).directives

/-- Where no name is registered twice, the directives are those of the accepted calls. -/
theorem directives_after {history : List Registration}
    (distinct : ((history.filterMap Registration.entry?).map Prod.fst).Nodup) :
    (after history).directives = (history.filterMap Registration.entry?).map
      fun entry => ⟨entry.1, entry.2⟩ := by
  rw [directives_eq, table_after, Table.ofPairs_of_nodup distinct]

theorem names_after (history : List Registration) :
    (after history).names = (history.filterMap Registration.name?).eraseDups := by
  rw [names_eq, table_after, Table.map_fst_ofPairs, List.map_filterMap]
  congr 2
  funext call
  simp [Registration.entry?, Function.comp_def]

theorem get?_after (history : List Registration) (name : Text) :
    (after history).get? name = (history.findRev? fun call => call.name? = some name).map
      fun call => ⟨name, call.handler⟩ := by
  have entered (calls : List Registration) :
      Table.get? name (calls.filterMap Registration.entry?) =
        (calls.find? fun call => call.name? = some name).map Registration.handler := by
    induction calls with
    | nil => rfl
    | cons call calls induction =>
        cases named : call.name? with
        | none => simpa [Registration.entry?, named] using induction
        | some other =>
            by_cases same : other = name
            · simp [Registration.entry?, named, same, Table.get?]
            · simpa [Registration.entry?, named, same, Table.get?] using induction
  rw [get?_eq, table_after, Table.get?_ofPairs, ← List.filterMap_reverse, entered,
    List.findRev?_eq_find?_reverse, Option.map_map]
  rfl

/-- Calls that are refused leave no trace. -/
theorem after_accepted (history : List Registration) :
    after (history.filter (·.name?.isSome)) = after history := by
  induction history using List.reverseRecOn with
  | nil => rfl
  | append_singleton history call induction =>
      rw [List.filter_append, after_append]
      cases named : call.name? with
      | none =>
          rw [attempt_of_no_name named]
          simpa [named] using induction
      | some name =>
          have kept : [call].filter (·.name?.isSome) = [call] := by simp [named]
          rw [kept, after_append, induction]

/-- A registry follows the calls that were made: a call is accepted exactly when it writes a
name, and is without effect otherwise; the names are those of the accepted calls, each in
the place of its first call; and a name has the handler of its last call. -/
theorem follows_history (history : List Registration) :
    (∀ call : Registration,
      ((∃ name, WritesName call.written name) ↔
        (after history).register call.written call.handler =
          .ok (after (history ++ [call]))) ∧
      ((¬ ∃ name, WritesName call.written name) →
        (after history).register call.written call.handler =
          .error (.invalidDirective call.written) ∧
        after (history ++ [call]) = after history)) ∧
    after (history.filter (·.name?.isSome)) = after history ∧
    (∀ (call : Registration) (name : Text),
      call.name? = some name ↔ WritesName call.written name) ∧
    (after history).names.Nodup ∧
    (after history).names = (history.filterMap Registration.name?).eraseDups ∧
    ∀ name, (after history).get? name =
      (history.findRev? fun call => call.name? = some name).map
        fun call => ⟨name, call.handler⟩ := by
  have distinct : (after history).names.Nodup := by
    rw [names_eq, table_after]
    exact Table.nodup_ofPairs _
  refine ⟨?_, after_accepted history, fun _ _ => Registration.name?_eq_some_iff, distinct,
    names_after history, get?_after history⟩
  intro call
  cases named : call.name? with
  | some name =>
      have written := Registration.name?_eq_some_iff.mp named
      refine ⟨⟨fun _ => ?_, fun _ => ⟨name, written⟩⟩, fun none => absurd ⟨name, written⟩ none⟩
      rw [after_append, attempt, register_of_name named]
  | none =>
      have unwritten : ¬ ∃ name, WritesName call.written name := by
        rintro ⟨name, written⟩
        rw [Registration.name?_eq_some_iff.mpr written] at named
        cases named
      have refused := register_of_no_name named (after history)
      refine ⟨⟨fun some => absurd some unwritten, fun accepted => ?_⟩, fun _ => ⟨refused, ?_⟩⟩
      · rw [refused] at accepted
        cases accepted
      · rw [after_append, attempt_of_no_name named]

end Registry

end Scriptlet
