import Mathlib.Data.Fin.Tuple.Basic
import Scriptlet.Form.Dispatch

/-!
# Histories of forms

Forms are made from one another and asked in any order, by a builder call or by the name of
a method.  Every request adds to the form that it is made of what it would write on an empty
form, and takes away only what it gives back.  So the texts that a form has given back,
followed by its buffer, are the markup of its own requests in order, and a request that
fails leaves no trace.
-/

namespace Scriptlet.Form

open Json (Value)

inductive Request where
  | direct (call : Call)
  | named (method : Text) (arguments : List Value)

namespace Request

/-- The answer to a request, and the form after it.  A request that fails gives no form
back, so the form is the one that was asked. -/
def run : Request → Form → Except Failure (Option Text) × Form
  | .direct call, form => (.ok (call.run form).1, (call.run form).2)
  | .named method arguments, form =>
      match dispatch method arguments form with
      | .ok answer => (.ok answer.1, answer.2)
      | .error failure => (.error failure, form)

/-- The markup of a request: what it writes on an empty form. -/
def alone (request : Request) : Text :=
  (request.run {}).2.buffer

def flushed (request : Request) (form : Form) : List Text :=
  match (request.run form).1 with
  | .ok (some markup) => [markup]
  | _ => []

/-- A named method comes to a builder call, or it fails whatever the form holds. -/
theorem run_named (method : Text) (arguments : List Value) :
    (∃ call : Call, ∀ form, (named method arguments).run form = (direct call).run form) ∨
      ∀ form, (named method arguments).run form = (.error (.unknownFormMethod method), form) := by
  cases known : Call.ofMethod? method arguments with
  | some call => exact .inl ⟨call, fun form => by simp only [run, dispatch, known]⟩
  | none => exact .inr fun form => by simp only [run, dispatch, known]

theorem conserves_direct (call : Call) (form : Form) :
    ((direct call).flushed form).flatten ++ ((direct call).run form).2.buffer =
      form.buffer ++ (direct call).alone := by
  cases call with
  | add element => rfl
  | flush =>
      show [form.buffer].flatten ++ [] = form.buffer ++ []
      simp

/-- What a request gives back and what it leaves are what the form held, and the markup of
the request behind it. -/
theorem conserves (request : Request) (form : Form) :
    (request.flushed form).flatten ++ (request.run form).2.buffer =
      form.buffer ++ request.alone := by
  cases request with
  | direct call => exact conserves_direct call form
  | named method arguments =>
      obtain ⟨call, runs⟩ | fails := run_named method arguments
      · have conserved := conserves_direct call form
        simpa only [flushed, alone, runs] using conserved
      · simp [flushed, alone, fails]

/-- The error of a request names the method that was asked for, and the form stays as it was. -/
theorem run_of_error {request : Request} {form : Form} {failure : Failure}
    (failed : (request.run form).1 = .error failure) :
    request.run form = (.error failure, form) := by
  cases request with
  | direct call => cases failed
  | named method arguments =>
      obtain ⟨call, runs⟩ | fails := run_named method arguments
      · rw [runs] at failed
        cases failed
      · rw [fails] at failed ⊢
        cases failed
        rfl

theorem flushed_of_error {request : Request} {form : Form} {failure : Failure}
    (failed : (request.run form).1 = .error failure) : request.flushed form = [] := by
  simp only [flushed, failed]

end Request

/-- What happens to forms that are made from one another, with their number: requests and
new scopes, in the order in which they happen. -/
inductive History : Nat → Type where
  | start : History 1
  | call {count : Nat} (history : History count) (position : Fin count) (request : Request) :
      History count
  | newScope {count : Nat} (history : History count) (position : Fin count) :
      History (count + 1)

namespace History

variable {count : Nat}

/-- The forms as a history leaves them. -/
def forms : {count : Nat} → History count → Fin count → Form
  | _, .start => fun _ => {}
  | _, .call history position request =>
      Function.update history.forms position (request.run (history.forms position)).2
  | _, .newScope history position =>
      Fin.snoc (α := fun _ => Form) history.forms (history.forms position).newScope

/-- The texts that each form has given back. -/
def flushed : {count : Nat} → History count → Fin count → List Text
  | _, .start => fun _ => []
  | _, .call history position request =>
      Function.update history.flushed position
        (history.flushed position ++ request.flushed (history.forms position))
  | _, .newScope history _ => Fin.snoc (α := fun _ => List Text) history.flushed []

/-- The requests that were made of each form. -/
def requests : {count : Nat} → History count → Fin count → List Request
  | _, .start => fun _ => []
  | _, .call history position request =>
      Function.update history.requests position (history.requests position ++ [request])
  | _, .newScope history _ => Fin.snoc (α := fun _ => List Request) history.requests []

/-- A history without the requests that fail in it. -/
def withoutFailures : {count : Nat} → History count → History count
  | _, .start => .start
  | _, .call history position request =>
      match (request.run (history.forms position)).1 with
      | .ok _ => history.withoutFailures.call position request
      | .error _ => history.withoutFailures
  | _, .newScope history position => history.withoutFailures.newScope position

/-- The texts that a form has given back and its buffer are the markup of its requests. -/
def Conserved (history : History count) (position : Fin count) : Prop :=
  (history.flushed position).flatten ++ (history.forms position).buffer =
    (history.requests position).flatMap Request.alone

theorem conserved_call {history : History count} {other : Fin count}
    (conserved : history.Conserved other) (position : Fin count) (request : Request) :
    (history.call position request).Conserved other := by
  unfold Conserved at conserved ⊢
  by_cases own : other = position
  · subst own
    simp only [flushed, forms, requests, Function.update_self, List.flatten_append,
      List.append_assoc, List.flatMap_append, List.flatMap_singleton, Request.conserves]
    rw [← List.append_assoc, conserved]
  · simpa only [flushed, forms, requests, Function.update_of_ne own] using conserved

theorem conserved (history : History count) (position : Fin count) :
    history.Conserved position := by
  induction history with
  | start => rfl
  | call history asked request induction => exact conserved_call (induction position) asked request
  | newScope history parent induction =>
      induction position using Fin.lastCases with
      | last =>
          -- the new form has given nothing back and was asked for nothing
          simp only [Conserved, flushed, forms, requests, Fin.snoc_last]
          rfl
      | cast older =>
          simpa only [Conserved, flushed, forms, requests, Fin.snoc_castSucc] using induction older

theorem forms_call_of_error {history : History count} {position : Fin count} {request : Request}
    {failure : Failure} (failed : (request.run (history.forms position)).1 = .error failure) :
    (history.call position request).forms = history.forms := by
  simp only [forms, Request.run_of_error failed, Function.update_eq_self]

theorem flushed_call_of_error {history : History count} {position : Fin count} {request : Request}
    {failure : Failure} (failed : (request.run (history.forms position)).1 = .error failure) :
    (history.call position request).flushed = history.flushed := by
  simp only [flushed, Request.flushed_of_error failed, List.append_nil, Function.update_eq_self]

/-- Requests that fail can be left out of a history. -/
theorem withoutFailures_spec (history : History count) :
    history.withoutFailures.forms = history.forms ∧
      history.withoutFailures.flushed = history.flushed := by
  induction history with
  | start => exact ⟨rfl, rfl⟩
  | call history position request induction =>
      obtain ⟨sameForms, sameFlushed⟩ := induction
      cases answered : (request.run (history.forms position)).1 with
      | ok answer => simp only [withoutFailures, answered, forms, flushed, sameForms, sameFlushed,
          and_self]
      | error failure =>
          rw [forms_call_of_error answered, flushed_call_of_error answered]
          simpa only [withoutFailures, answered] using ⟨sameForms, sameFlushed⟩
  | newScope history position induction =>
      obtain ⟨sameForms, sameFlushed⟩ := induction
      simp only [withoutFailures, forms, flushed, sameForms, sameFlushed, and_self]

end History

/-- Forms neither lose nor mix markup, whatever is asked of them in whatever order: the texts
that each has given back and its buffer are the markup of its own requests.  A method that
does not exist changes none of them, and what comes later is as if it had not been asked for. -/
theorem markup_conserved {count : Nat} (history : History count) :
    (∀ position, (history.flushed position).flatten ++ (history.forms position).buffer =
      (history.requests position).flatMap Request.alone) ∧
    (∀ position method arguments failure,
      dispatch method arguments (history.forms position) = .error failure →
        (history.call position (.named method arguments)).forms = history.forms) ∧
    history.withoutFailures.forms = history.forms ∧
    history.withoutFailures.flushed = history.flushed := by
  refine ⟨history.conserved, fun position method arguments failure failed => ?_,
    history.withoutFailures_spec⟩
  have answered : ((Request.named method arguments).run (history.forms position)).1 =
      .error failure := by simp only [Request.run, failed]
  exact History.forms_call_of_error answered

/-- Two forms asked in turns: the first one is flushed between two calls. -/
def History.twoScopes : History 2 :=
  ((((History.start.call 0 (.named "label" [.string "Name", .string "n"])).newScope 0).call 1
    (.direct (.add (.raw "b")))).call 0 (.named "output" [])).call 0 (.named "html" [.string "c"])

theorem markup_conserved_twoScopes :
    History.twoScopes.flushed 0 = ["<label for=\"n\">Name</label>".toList] ∧
    (History.twoScopes.flushed 0).flatten ++ (History.twoScopes.forms 0).buffer =
      "<label for=\"n\">Name</label>c" ∧
    (History.twoScopes.call 0 (.named "reset" [])).forms = History.twoScopes.forms := by
  obtain ⟨conserved, refused, -⟩ := markup_conserved History.twoScopes
  refine ⟨by decide +kernel, ?_, refused 0 "reset" [] (.unknownFormMethod "reset") rfl⟩
  rw [conserved 0]
  decide +kernel

end Scriptlet.Form
