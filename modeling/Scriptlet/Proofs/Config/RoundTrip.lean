import Scriptlet.Config.Document
import Scriptlet.Proofs.Toml.Fitting
import Scriptlet.Proofs.Toml.Lines

/-!
# Configurations and their documents

A configuration that is written to a document and read back is the same one, except that a
negative time to live has become zero.  A configuration that was read has no such time to live,
and all its numbers can be written, so it comes back as it is.
-/

namespace Scriptlet.Config

open Toml (Item Entries PrintsEntries PrintsItem)

/-- The numbers of a configuration fit signed words of 64 bits. -/
structure Fits (config : Config) : Prop where
  ttl : ∀ seconds, config.ttl? = some seconds → Decimal.fitsSigned64 seconds
  depthLimit : config.depthLimit < Decimal.signedLimit64

/-- A configuration that a document may have given. -/
structure Accepted (config : Config) : Prop extends Fits config where
  nonnegative : ∀ seconds, config.ttl? = some seconds → 0 ≤ seconds

/-- What becomes of a configuration in a document: its time to live is not negative. -/
def clamped (config : Config) : Config :=
  { config with ttl? := config.ttl?.map (max · 0) }

theorem Accepted.clamped_eq {config : Config} (accepted : config.Accepted) :
    config.clamped = config := by
  have same : config.ttl?.map (max · 0) = config.ttl? := by
    cases given : config.ttl? with
    | none => rfl
    | some seconds => exact congrArg some (max_eq_left (accepted.nonnegative seconds given))
  rw [clamped, same]

theorem policy_clamped (config : Config) : config.clamped.policy = config.policy := by
  rw [policy, policy, clamped]
  cases config.ttl? with
  | none => rfl
  | some seconds =>
      have same : (max seconds 0).toNat = seconds.toNat := by omega
      exact congrArg Cache.Policy.timeToLive same

section Printing

def ttlItem : Option Int → Item
  | some seconds => .integer seconds
  | none => .string exactKeyword

def environmentEntries : Option Text → Entries
  | some environment => [("environment", .string environment)]
  | none => []

/-- The entries of a configuration in the order in which they are written. -/
def entries (config : Config) : Entries :=
  ("views_dir", .string config.viewsDirectory) ::
  ("cache_dir", .string config.cacheDirectory) ::
  ("suffix", .string config.suffix) ::
  ("ttl", ttlItem config.ttl?) ::
  ("compress", .boolean config.compress) ::
  ("max_depth", .integer config.depthLimit) ::
  environmentEntries config.environment?

variable {config : Config}

theorem printsItem_printTtl (fits : config.Fits) :
    PrintsItem (printTtl config.ttl?) (ttlItem config.ttl?) := by
  cases given : config.ttl? with
  | none => exact .string exactKeyword
  | some seconds => exact .integer (fits.ttl seconds given)

theorem Fits.depthFits (fits : config.Fits) : Decimal.fitsSigned64 config.depthLimit := by
  have limit := fits.depthLimit
  rw [Decimal.fitsSigned64_iff]
  omega

theorem print_printsEntries (fits : config.Fits) :
    PrintsEntries config.print config.entries := by
  have environment : PrintsEntries
      (match config.environment? with
        | some environment => Toml.printSetting "environment" (Toml.printString environment)
        | none => []) (environmentEntries config.environment?) := by
    cases config.environment? with
    | none => exact .nil
    | some environment =>
        have line : PrintsEntries
            (Toml.printSetting "environment" (Toml.printString environment) ++ [])
            [("environment".toList, .string environment)] :=
          .cons ⟨by decide, by decide⟩ (.string environment) .nil
        rwa [List.append_nil] at line
  unfold print
  rw [List.append_assoc, List.append_assoc, List.append_assoc, List.append_assoc,
    List.append_assoc]
  exact .cons ⟨by decide, by decide⟩ (.string _) <|
    .cons ⟨by decide, by decide⟩ (.string _) <|
    .cons ⟨by decide, by decide⟩ (.string _) <|
    .cons ⟨by decide, by decide⟩ (printsItem_printTtl fits) <|
    .cons ⟨by decide, by decide⟩ (.boolean _) <|
    .cons ⟨by decide, by decide⟩ (.integer fits.depthFits) environment

theorem keys_nodup (config : Config) : (config.entries.map Prod.fst).Nodup := by
  have keys : (["views_dir", "cache_dir", "suffix", "ttl", "compress", "max_depth",
      "environment"] : List Text).Nodup := by decide
  unfold entries
  cases config.environment? with
  | none => exact keys.sublist (List.sublist_append_left _ ["environment".toList])
  | some _ => exact keys

end Printing

/-- A setting that every configuration takes, and what it does. -/
def Sets (setting : Text × Setting) (change : Config → Config) : Prop :=
  ∀ config, withSetting config setting = .ok (change config)

theorem foldlM_withSetting {settings : List (Text × Setting)} {changes : List (Config → Config)}
    (sets : List.Forall₂ Sets settings changes) (config : Config) :
    settings.foldlM withSetting config =
      .ok (changes.foldl (fun config change => change config) config) := by
  induction sets generalizing config with
  | nil => rfl
  | cons here _ induction =>
      rw [List.foldlM_cons, here config]
      exact induction _

theorem withSetting_ttl (config : Config) (setting : Setting) :
    withSetting config ("ttl".toList, setting) =
      (readTtl setting).map fun value => { config with ttl? := value } := rfl

theorem withSetting_depthLimit (config : Config) (setting : Setting) :
    withSetting config ("max_depth".toList, setting) =
      (readNatural setting).map fun value => { config with depthLimit := value } := rfl

theorem sets_ttl {ttl? : Option Int}
    (fits : ∀ seconds, ttl? = some seconds → Decimal.fitsSigned64 seconds) :
    Sets ("ttl".toList, settingOf (ttlItem ttl?))
      fun config => { config with ttl? := ttl?.map (max · 0) } := by
  have read : readTtl (settingOf (ttlItem ttl?)) = .ok (ttl?.map (max · 0)) := by
    cases ttl? with
    | none => rfl
    | some seconds => exact if_pos (fits seconds rfl)
  intro config
  rw [withSetting_ttl, read]
  rfl

theorem sets_depthLimit {limit : Nat} (fits : limit < Decimal.signedLimit64) :
    Sets ("max_depth".toList, settingOf (.integer limit))
      fun config => { config with depthLimit := limit } := by
  have unsigned : Decimal.fitsUnsigned64 limit := by
    simp only [Decimal.fitsUnsigned64, Bool.and_eq_true, decide_eq_true_eq]
    have smaller : Decimal.signedLimit64 < Decimal.wordCount64 := by decide
    omega
  have read : readNatural (.integer limit) = .ok limit := by
    rw [readNatural, if_pos unsigned]
    rfl
  intro config
  rw [settingOf, withSetting_depthLimit, read]
  rfl

theorem ofSettings_entries {config : Config} (fits : config.Fits) :
    ofSettings (config.entries.map fun entry => (entry.1, settingOf entry.2)) =
      .ok config.clamped := by
  have sets {others : List (Text × Setting)} {changes : List (Config → Config)}
      (further : List.Forall₂ Sets others changes) :=
    List.Forall₂.cons
      (fun _ => rfl : Sets ("views_dir".toList, .text config.viewsDirectory)
        fun earlier => { earlier with viewsDirectory := config.viewsDirectory }) <|
    .cons
      (fun _ => rfl : Sets ("cache_dir".toList, .text config.cacheDirectory)
        fun earlier => { earlier with cacheDirectory := config.cacheDirectory }) <|
    .cons
      (fun _ => rfl : Sets ("suffix".toList, .text config.suffix)
        fun earlier => { earlier with suffix := config.suffix }) <|
    .cons (sets_ttl fits.ttl) <|
    .cons
      (fun _ => rfl : Sets ("compress".toList, .boolean config.compress)
        fun earlier => { earlier with compress := config.compress }) <|
    .cons (sets_depthLimit fits.depthLimit) further
  rw [entries, clamped]
  cases config.environment? with
  | none => exact foldlM_withSetting (sets .nil) {}
  | some environment =>
      have set : Sets ("environment".toList, .text environment)
          fun earlier => { earlier with environment? := some environment } := fun _ => rfl
      exact foldlM_withSetting (sets (.cons set .nil)) {}

theorem parse_print {config : Config} (fits : config.Fits) :
    parse config.print = .ok config.clamped := by
  rw [parse, (print_printsEntries fits).parse? (keys_nodup config)]
  exact ofSettings_entries fits

section Reading

variable {config changed : Config}

theorem exists_of_map_eq_ok {α : Type} {answer : Except Failure α} {change : α → Config}
    (done : answer.map change = .ok changed) :
    ∃ value, answer = .ok value ∧ change value = changed := by
  cases answer with
  | error _ => cases done
  | ok value => exact ⟨value, rfl, Except.ok.inj done⟩

theorem readTtl_accepted {setting : Setting} {ttl? : Option Int}
    (read : readTtl setting = .ok ttl?) {seconds : Int} (given : ttl? = some seconds) :
    Decimal.fitsSigned64 seconds ∧ 0 ≤ seconds := by
  subst given
  unfold readTtl at read
  split at read
  · split at read
    · rename_i fits
      cases read
      rw [Decimal.fitsSigned64_iff] at fits ⊢
      omega
    · cases read
  · split at read
    · cases read
    · cases read
  · cases read

theorem readNatural_accepted {setting : Setting} (fits : ∀ value, setting = .integer value →
    Decimal.fitsSigned64 value) {limit : Nat} (read : readNatural setting = .ok limit) :
    limit < Decimal.signedLimit64 := by
  unfold readNatural at read
  split at read
  · split at read
    · cases read
      have given := fits _ rfl
      rw [Decimal.fitsSigned64_iff] at given
      omega
    · cases read
  · cases read

/-- Every number is the earlier one or the one that the setting gives. -/
theorem withSetting_numbers {setting : Text × Setting}
    (done : withSetting config setting = .ok changed) :
    (changed.ttl? = config.ttl? ∨ readTtl setting.2 = .ok changed.ttl?) ∧
      (changed.depthLimit = config.depthLimit ∨
        readNatural setting.2 = .ok changed.depthLimit) := by
  unfold withSetting at done
  split_ifs at done with views cache suffix ttl compress depthLimit environment
  · obtain ⟨_, -, rfl⟩ := exists_of_map_eq_ok done
    exact ⟨.inl rfl, .inl rfl⟩
  · obtain ⟨_, -, rfl⟩ := exists_of_map_eq_ok done
    exact ⟨.inl rfl, .inl rfl⟩
  · obtain ⟨_, -, rfl⟩ := exists_of_map_eq_ok done
    exact ⟨.inl rfl, .inl rfl⟩
  · obtain ⟨_, read, rfl⟩ := exists_of_map_eq_ok done
    exact ⟨.inr read, .inl rfl⟩
  · obtain ⟨_, -, rfl⟩ := exists_of_map_eq_ok done
    exact ⟨.inl rfl, .inl rfl⟩
  · obtain ⟨_, read, rfl⟩ := exists_of_map_eq_ok done
    exact ⟨.inl rfl, .inr read⟩
  · obtain ⟨_, -, rfl⟩ := exists_of_map_eq_ok done
    exact ⟨.inl rfl, .inl rfl⟩
  · cases done
    exact ⟨.inl rfl, .inl rfl⟩

theorem withSetting_accepted (accepted : config.Accepted) {setting : Text × Setting}
    (fits : ∀ value, setting.2 = .integer value → Decimal.fitsSigned64 value)
    (done : withSetting config setting = .ok changed) : changed.Accepted := by
  obtain ⟨ttl, depthLimit⟩ := withSetting_numbers done
  have ttlAccepted (seconds : Int) (given : changed.ttl? = some seconds) :
      Decimal.fitsSigned64 seconds ∧ 0 ≤ seconds := by
    rcases ttl with same | read
    · rw [same] at given
      exact ⟨accepted.ttl seconds given, accepted.nonnegative seconds given⟩
    · exact readTtl_accepted read given
  have depthAccepted : changed.depthLimit < Decimal.signedLimit64 := by
    rcases depthLimit with same | read
    · rw [same]
      exact accepted.depthLimit
    · exact readNatural_accepted fits read
  exact ⟨⟨fun _ given => (ttlAccepted _ given).1, depthAccepted⟩,
    fun _ given => (ttlAccepted _ given).2⟩

theorem foldlM_accepted {settings : List (Text × Setting)} (accepted : config.Accepted)
    (fits : ∀ setting ∈ settings, ∀ value, setting.2 = .integer value →
      Decimal.fitsSigned64 value)
    (done : settings.foldlM withSetting config = .ok changed) : changed.Accepted := by
  induction settings generalizing config with
  | nil =>
      cases done
      exact accepted
  | cons setting settings induction =>
      rw [List.forall_mem_cons] at fits
      rw [List.foldlM_cons] at done
      cases step : withSetting config setting with
      | error failure =>
          rw [step] at done
          cases done
      | ok next =>
          rw [step] at done
          exact induction (withSetting_accepted accepted fits.1 step) fits.2 done

theorem accepted_default : Accepted {} where
  ttl _ given := by
    cases given
    decide
  depthLimit := by decide
  nonnegative _ given := by
    cases given
    decide

theorem settingOf_integer {item : Item} {value : Int} (given : settingOf item = .integer value) :
    item = .integer value := by
  unfold settingOf at given
  split at given
  all_goals cases given
  rfl

/-- A configuration that was read has no negative time to live and no number that a document
cannot hold. -/
theorem accepted_of_parse {document : Text} (parsed : parse document = .ok config) :
    config.Accepted := by
  unfold parse at parsed
  split at parsed
  · rename_i entries read
    refine foldlM_accepted accepted_default ?_ parsed
    intro setting listed value given
    obtain ⟨entry, member, rfl⟩ := List.mem_map.mp listed
    have fits := Toml.parse?_fit read entry member
    rwa [settingOf_integer given] at fits
  · cases parsed

end Reading

theorem print?_eq {config : Config} (fits : config.Fits) :
    config.print? = some config.print :=
  if_pos fits.depthFits

/-- A configuration whose numbers fit has a document, and reading it gives the configuration
back, with its negative time to live made zero, so that its policy is the same.  A configuration
that was read from any document comes back as it is. -/
theorem documents_round_trip :
    (∀ config : Config, config.Fits → ∃ document, config.print? = some document ∧
      parse document = .ok config.clamped ∧ config.clamped.policy = config.policy) ∧
    ∀ (given : Text) (config : Config), parse given = .ok config →
      ∃ document, config.print? = some document ∧ parse document = .ok config := by
  constructor
  · intro config fits
    exact ⟨config.print, print?_eq fits, parse_print fits, policy_clamped config⟩
  · intro given config parsed
    have accepted := accepted_of_parse parsed
    have again := parse_print accepted.toFits
    rw [accepted.clamped_eq] at again
    exact ⟨config.print, print?_eq accepted.toFits, again⟩

/-- Quotes of both kinds, line breaks and control characters come back, a negative time to live
does not. -/
theorem documents_round_trip_of_quotes :
    let config : Config :=
      { viewsDirectory := "a\x27b\"\"\"c\n"
        suffix := "\u0000\r\n\\\x27\x27\x27"
        ttl? := some (-10)
        depthLimit := 9223372036854775807
        environment? := some "\"" }
    config.Fits ∧ (∃ document, config.print? = some document ∧
      parse document = .ok { config with ttl? := some 0 }) ∧
    parse "ttl = \"MTime\"\nmax_depth = 0x1F" = .ok { ttl? := none, depthLimit := 31 } ∧
    ∃ document, print? { ttl? := none, depthLimit := 31 } = some document ∧
      parse document = .ok { ttl? := none, depthLimit := 31 } := by
  intro config
  have fits : config.Fits :=
    { ttl := fun _ given => by
        cases given
        decide
      depthLimit := by decide }
  have parsed : parse "ttl = \"MTime\"\nmax_depth = 0x1F" =
      .ok { ttl? := none, depthLimit := 31 } := by
    rfl
  obtain ⟨document, printed, read, -⟩ := documents_round_trip.1 config fits
  exact ⟨fits, ⟨document, printed, read⟩, parsed, documents_round_trip.2 _ _ parsed⟩

end Scriptlet.Config
