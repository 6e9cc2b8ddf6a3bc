import Scriptlet.Proofs.Cache.Contents

/-!
# A store is a map

A store answers every row of requests as a finite map from keys to code and the time of its
writing does, and afterwards its files are those of the map.  The map does not know of
artifacts that are under no key, which a store removes and counts when it is cleared.
-/

namespace Scriptlet.Cache

open Host

/-- A key with any number of slashes in front. -/
structure SlashedKey where
  text : Text
  isKey : IsKey (bare text)

def SlashedKey.name (key : SlashedKey) : Text :=
  bare key.text

/-- Slashes in front of a key. -/
def SlashedKey.ofSlashes (slashes : Nat) {name : Text} (isKey : IsKey name) : SlashedKey where
  text := List.replicate slashes '/' ++ name
  isKey := (bare_slashes slashes isKey).symm ▸ isKey

/-- What a store can be asked for. -/
inductive Request where
  | write (key : SlashedKey) (code : Text)
  | read (key : SlashedKey)
  | has (key : SlashedKey)
  | delete (key : SlashedKey)
  | stamp (key : SlashedKey) (time : Time)
  | lastWriteTime (key : SlashedKey)
  | clear

inductive Answer where
  | written (done : Bool)
  | code (text : Text)
  | found (present : Bool)
  | deleted (present : Bool)
  | stamped
  | time (written? : Option Time)
  | cleared (count : Nat)
deriving DecidableEq

/-- The answer to a request, and the host after it.  A request that fails leaves the host as
it is. -/
def outcome {α : Type} (host : Host) (answer : α → Answer) :
    Except Failure (α × Host) → Except Failure Answer × Host
  | .ok (value, after) => (.ok (answer value), after)
  | .error failure => (.error failure, host)

namespace Request

/-- What a store does for a request. -/
def perform (cache : Cache) (host : Host) : Request → Except Failure Answer × Host
  | write key code => outcome host .written (cache.write host key.text code)
  | read key => ((cache.read host key.text).map .code, host)
  | has key => ((cache.has host key.text).map .found, host)
  | delete key => outcome host .deleted (cache.delete host key.text)
  | stamp key time =>
      outcome host (fun _ => .stamped)
        ((cache.stamp host key.text time).map fun after => ((), after))
  | lastWriteTime key => ((cache.lastWriteTime host key.text).map .time, host)
  | clear => outcome host .cleared (cache.clear host)

/-- What a store does for a request at a time. -/
def onHost (cache : Cache) (now : Time) (host : Host) (request : Request) :
    Except Failure Answer × Host :=
  request.perform cache { host with now := now }

/-- What a map does for a request at a time. -/
def onMap (now : Time) (map : Artifacts) : Request → Except Failure Answer × Artifacts
  | write key code => (.ok (.written true), Table.insert key.name (code, now) map)
  | read key =>
      match Table.get? key.name map with
      | some artifact => (.ok (.code artifact.1), map)
      | none => (.error (.file .notFound), map)
  | has key => (.ok (.found (Table.contains key.name map)), map)
  | delete key => (.ok (.deleted (Table.contains key.name map)), Table.erase key.name map)
  | stamp key time =>
      match Table.get? key.name map with
      | some artifact => (.ok .stamped, Table.insert key.name (artifact.1, time) map)
      | none => (.error (.file .notFound), map)
  | lastWriteTime key => (.ok (.time ((Table.get? key.name map).map Prod.snd)), map)
  | clear => (.ok (.cleared map.length), [])

/-- The requests that can change what is under a name. -/
def Changes (name : Text) : Request → Prop
  | write key _ => key.name = name
  | delete key => key.name = name
  | stamp key _ => key.name = name
  | clear => True
  | read _ => False
  | has _ => False
  | lastWriteTime _ => False

end Request

/-- The answers to a row of requests, each at its time, and what there is after them. -/
def run {σ : Type} (step : Time → σ → Request → Except Failure Answer × σ) :
    σ → List (Time × Request) → List (Except Failure Answer) × σ
  | state, [] => ([], state)
  | state, request :: requests =>
      let next := step request.1 state request.2
      let rest := run step next.2 requests
      (next.1 :: rest.1, rest.2)

/-- The answers of a store and of a map.  They are the same, but that a store can count more
artifacts than the map has when it is cleared. -/
inductive Agrees (onlyKeys : Prop) : Except Failure Answer → Except Failure Answer → Prop where
  | same (answer : Except Failure Answer) : Agrees onlyKeys answer answer
  | cleared {count size : Nat} (atLeast : size ≤ count) (exactly : onlyKeys → size = count) :
      Agrees onlyKeys (.ok (.cleared count)) (.ok (.cleared size))

/-- A store with the artifacts of a map, and with no others if there were none. -/
structure Mirrors (cache : Cache) (directory : Text) (place : Location) (onlyKeys : Prop)
    (host : Host) (map : Artifacts) : Prop extends Holds cache host directory place map where
  only : onlyKeys → OnlyKeys host place

variable {cache : Cache} {host : Host} {directory name : Text} {place : Location}
  {onlyKeys : Prop} {map : Artifacts} {now : Time}

/-- Two systems that answer alike from related states do so for every row of requests. -/
theorem run_related {σ τ : Type} {left : Time → σ → Request → Except Failure Answer × σ}
    {right : Time → τ → Request → Except Failure Answer × τ}
    {agree : Except Failure Answer → Except Failure Answer → Prop} {related : σ → τ → Prop}
    (step : ∀ now first second request, related first second →
      agree (left now first request).1 (right now second request).1 ∧
        related (left now first request).2 (right now second request).2)
    {first : σ} {second : τ} (start : related first second) (requests : List (Time × Request)) :
    List.Forall₂ agree (run left first requests).1 (run right second requests).1 ∧
      related (run left first requests).2 (run right second requests).2 := by
  induction requests generalizing first second with
  | nil => exact ⟨.nil, start⟩
  | cons request requests induction =>
      obtain ⟨answers, next⟩ := step request.1 first second request.2 start
      obtain ⟨restAnswers, last⟩ := induction next
      exact ⟨.cons answers restAnswers, last⟩

namespace Request

/-- A map changes only under the name that a request is for. -/
theorem get?_onMap (now : Time) (map : Artifacts) {request : Request}
    (unchanged : ¬ request.Changes name) :
    Table.get? name (request.onMap now map).2 = Table.get? name map := by
  cases request with
  | write key code => exact (Table.get?_insert ..).trans (if_neg unchanged)
  | read key =>
      rw [onMap]
      split <;> rfl
  | has key => rfl
  | delete key => exact (Table.get?_erase ..).trans (if_neg unchanged)
  | stamp key time =>
      rw [onMap]
      split
      · exact (Table.get?_insert ..).trans (if_neg unchanged)
      · rfl
  | lastWriteTime key => rfl
  | clear => exact absurd trivial unchanged

end Request

theorem get?_run_onMap {requests : List (Time × Request)}
    (unchanged : ∀ request ∈ requests, ¬ request.2.Changes name) (map : Artifacts) :
    Table.get? name (run Request.onMap map requests).2 = Table.get? name map := by
  induction requests generalizing map with
  | nil => rfl
  | cons request requests induction =>
      rw [List.forall_mem_cons] at unchanged
      exact (induction unchanged.2 _).trans (Request.get?_onMap _ _ unchanged.1)

namespace Mirrors

variable (mirrors : Mirrors cache directory place onlyKeys host map)

include mirrors

theorem at_time (time : Time) :
    Mirrors cache directory place onlyKeys { host with now := time } map where
  toHolds := mirrors.toHolds.at_time time
  only := mirrors.only

theorem put (isKey : IsKey name) (artifact : Text × Time) :
    Mirrors cache directory place onlyKeys (host.put (place ++ [name]) (artifactFile artifact))
      (Table.insert name artifact map) where
  toHolds := mirrors.toHolds.put isKey artifact
  only exact := (mirrors.only exact).put isKey _

theorem drop (leads : host.LeadsToFile place name) :
    Mirrors cache directory place onlyKeys (host.drop (place ++ [name]))
      (Table.erase name map) where
  toHolds := mirrors.toHolds.drop leads
  only exact := (mirrors.only exact).drop name

/-- A store and the map have the same artifact under a key, or neither has one. -/
theorem stored_cases (key : SlashedKey) :
    (∃ artifact, Table.get? key.name map = some artifact ∧
        host.lookup? (place ++ [key.name]) = some (artifactFile artifact)) ∨
      Table.get? key.name map = none ∧ host.lookup? (place ++ [key.name]) = none := by
  rw [mirrors.lookup?_eq key.name key.isKey]
  cases Table.get? key.name map with
  | none => exact .inr ⟨rfl, rfl⟩
  | some artifact => exact .inl ⟨artifact, rfl, rfl⟩

/-- A store and the map answer a request alike. -/
theorem perform (request : Request) :
    Agrees onlyKeys (request.perform cache host).1 (request.onMap host.now map).1 ∧
      Mirrors cache directory place onlyKeys (request.perform cache host).2
        (request.onMap host.now map).2 := by
  cases request with
  | write key code =>
      rw [Request.perform, (mirrors.located key.isKey).write_eq code]
      exact ⟨.same _, mirrors.put key.isKey (code, host.now)⟩
  | read key =>
      rw [Request.perform, Request.onMap]
      obtain ⟨artifact, stored, found⟩ | ⟨absent, missing⟩ := mirrors.stored_cases key
      · rw [stored, (mirrors.located key.isKey).read_of_some found]
        exact ⟨.same _, mirrors⟩
      · rw [absent, (mirrors.located key.isKey).read_of_none missing]
        exact ⟨.same _, mirrors⟩
  | has key =>
      rw [Request.perform, Request.onMap, Table.contains]
      obtain ⟨artifact, stored, found⟩ | ⟨absent, missing⟩ := mirrors.stored_cases key
      · rw [stored, (mirrors.located key.isKey).has_of_some found]
        exact ⟨.same _, mirrors⟩
      · rw [absent, (mirrors.located key.isKey).has_of_none missing]
        exact ⟨.same _, mirrors⟩
  | delete key =>
      rw [Request.perform, Request.onMap, Table.contains]
      obtain ⟨artifact, stored, found⟩ | ⟨absent, missing⟩ := mirrors.stored_cases key
      · have leads := mirrors.leadsToFile key.isKey.isName (mirrors.isFile key.isKey stored)
        rw [stored, (mirrors.located key.isKey).delete_of_some found]
        exact ⟨.same _, mirrors.drop leads.2⟩
      · rw [absent, (mirrors.located key.isKey).delete_of_none missing,
          Table.erase_of_get?_eq_none absent]
        exact ⟨.same _, mirrors⟩
  | stamp key time =>
      rw [Request.perform, Request.onMap]
      obtain ⟨artifact, stored, found⟩ | ⟨absent, missing⟩ := mirrors.stored_cases key
      · rw [stored, (mirrors.located key.isKey).stamp_of_some found]
        exact ⟨.same _, mirrors.put key.isKey (artifact.1, time)⟩
      · rw [absent, (mirrors.located key.isKey).stamp_of_none missing]
        exact ⟨.same _, mirrors⟩
  | lastWriteTime key =>
      rw [Request.perform, Request.onMap]
      obtain ⟨artifact, stored, found⟩ | ⟨absent, missing⟩ := mirrors.stored_cases key
      · rw [stored, (mirrors.located key.isKey).lastWriteTime_of_some found]
        exact ⟨.same _, mirrors⟩
      · rw [absent, (mirrors.located key.isKey).lastWriteTime_of_none missing]
        exact ⟨.same _, mirrors⟩
  | clear =>
      obtain ⟨count, after, cleared, holds, atLeast, exactly⟩ := mirrors.toHolds.clear
      rw [Request.perform, cleared]
      refine ⟨.cleared atLeast fun exact => ?_, holds, fun exact => ?_⟩
      · exact (exactly (mirrors.only exact)).2
      · exact (exactly (mirrors.only exact)).1

theorem onHost (now : Time) (request : Request) :
    Agrees onlyKeys (request.onHost cache now host).1 (request.onMap now map).1 ∧
      Mirrors cache directory place onlyKeys (request.onHost cache now host).2
        (request.onMap now map).2 :=
  (mirrors.at_time now).perform request

end Mirrors

/-- A store whose files are text answers every row of requests as a map does, which at first
has the artifacts in the directory.  Afterwards the files are those of the map.  So a key
that no request changed has the file it had. -/
theorem answers_as_map (keeps : cache.Keeps host directory place)
    (requests : List (Time × Request)) :
    List.Forall₂ (Agrees (OnlyKeys host place)) (run (Request.onHost cache) host requests).1
        (run Request.onMap (contents host place) requests).1 ∧
      ∀ name, IsKey name →
        (run (Request.onHost cache) host requests).2.lookup? (place ++ [name]) =
            (Table.get? name (run Request.onMap (contents host place) requests).2).map
              artifactFile ∧
          ((∀ request ∈ requests, ¬ request.2.Changes name) →
            (run (Request.onHost cache) host requests).2.lookup? (place ++ [name]) =
              host.lookup? (place ++ [name])) := by
  have start : Mirrors cache directory place (OnlyKeys host place) host (contents host place) :=
    ⟨keeps.holds, id⟩
  obtain ⟨answers, last⟩ :=
    run_related (fun now _ _ request mirrors => mirrors.onHost now request) start requests
  refine ⟨answers, fun name isKey => ⟨last.lookup?_eq name isKey, fun unchanged => ?_⟩⟩
  rw [last.lookup?_eq name isKey, get?_run_onMap unchanged, keeps.holds.lookup?_eq name isKey]

/-- A key of equal digits. -/
def sameDigits : Text :=
  List.replicate 64 'a' ++ ".ejs"

theorem sameDigits_isKey : IsKey sameDigits := by decide

/-- A directory with one artifact. -/
def shelf : Host where
  entries := [(["shelf"], .directory ⟨0⟩), (["shelf", sameDigits], .file (.text "old") ⟨1⟩)]
  now := ⟨1⟩

theorem shelf_keeps : Keeps ⟨some "shelf"⟩ shelf "shelf" ["shelf"] where
  tree := by
    refine isTree_of_entries ?_ (isDirectoryAt_root _)
    have onShelf : shelf.IsDirectoryAt ["shelf"] := ⟨⟨0⟩, rfl⟩
    simp only [shelf, List.forall_mem_cons]
    refine ⟨?_, ?_, nofun⟩
    · exact stands_append [] (by decide) (isDirectoryAt_root _)
    · exact stands_append ["shelf"] sameDigits_isKey.isName onShelf
  directory_eq := rfl
  found := ⟨⟨0⟩, rfl, rfl⟩
  short _ isKey := Nat.le_trans (isKey.byteLength_join_le "shelf") (by decide)
  artifacts name _ := by
    by_cases same : name = sameDigits
    · subst same
      exact .inr ⟨"old", ⟨1⟩, by decide +kernel⟩
    · refine .inl ?_
      rw [lookup?, if_neg (by simp)]
      simp [shelf, Table.get?, Ne.symm same]

/-- The key on the shelf is read, written, stamped and removed, each time with other
slashes in front. -/
def shelfRequests : List (Time × Request) :=
  have key := fun slashes => SlashedKey.ofSlashes slashes sameDigits_isKey
  [(⟨2⟩, .read (key 1)), (⟨3⟩, .write (key 2) "new"), (⟨4⟩, .read (key 0)),
    (⟨5⟩, .stamp (key 3) ⟨9⟩), (⟨6⟩, .lastWriteTime (key 1)), (⟨7⟩, .delete (key 0)),
    (⟨8⟩, .has (key 1)), (⟨9⟩, .read (key 0)), (⟨10⟩, .clear)]

theorem answers_as_map_on_shelf :
    Keeps ⟨some "shelf"⟩ shelf "shelf" ["shelf"] ∧
      List.Forall₂ (Agrees (OnlyKeys shelf ["shelf"]))
        (run (Request.onHost ⟨some "shelf"⟩) shelf shelfRequests).1
        [.ok (.code "old"), .ok (.written true), .ok (.code "new"), .ok .stamped,
          .ok (.time (some ⟨9⟩)), .ok (.deleted true), .ok (.found false),
          .error (.file .notFound), .ok (.cleared 0)] := by
  have onMap : (run Request.onMap (contents shelf ["shelf"]) shelfRequests).1 =
      [.ok (.code "old"), .ok (.written true), .ok (.code "new"), .ok .stamped,
        .ok (.time (some ⟨9⟩)), .ok (.deleted true), .ok (.found false),
        .error (.file .notFound), .ok (.cleared 0)] := by
    decide +kernel
  refine ⟨shelf_keeps, ?_⟩
  rw [← onMap]
  exact (answers_as_map shelf_keeps shelfRequests).1

end Scriptlet.Cache
