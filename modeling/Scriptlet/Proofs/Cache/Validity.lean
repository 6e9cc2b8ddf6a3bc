import Mathlib.Data.Rat.Floor
import Scriptlet.Cache.Policy

/-!
# How long artifacts are accepted

A policy compares whole seconds in words of 64 bits, where times before the epoch count as
the epoch and a sum stops at the greatest word.  On a clock of 64 bits none of this shows,
and the policy decides as the integers do.  On every clock an artifact that is accepted is
accepted under a longer time to live, with a later time of writing, and at an earlier moment.
-/

namespace Scriptlet

namespace Host.Time

/-- Seconds since the epoch, with their fractions. -/
def seconds (time : Time) : ℚ :=
  time.nanoseconds / 1000000000

/-- The greatest number of seconds that fits a signed word of 64 bits. -/
def greatestClockSeconds : Int := 9223372036854775807

/-- A time from the epoch on that a signed clock of 64 bits can show. -/
structure OnClock (time : Time) : Prop where
  since_epoch : 0 ≤ time.seconds
  fits : ⌊time.seconds⌋ ≤ greatestClockSeconds

variable {time earlier later : Time}

theorem floor_seconds (time : Time) : ⌊time.seconds⌋ = time.nanoseconds / 1000000000 :=
  Rat.floor_intCast_div_natCast time.nanoseconds 1000000000

theorem seconds_le_iff : earlier.seconds ≤ later.seconds ↔
    earlier.nanoseconds ≤ later.nanoseconds := by
  rw [seconds, seconds, div_le_div_iff_of_pos_right (by norm_num), Int.cast_le]

instance (time : Time) : Decidable time.OnClock :=
  decidable_of_iff
    (0 ≤ time.nanoseconds ∧ time.nanoseconds / 1000000000 ≤ greatestClockSeconds) <| by
    rw [← floor_seconds]
    refine ⟨fun shown => ⟨?_, shown.2⟩, fun onClock => ⟨?_, onClock.fits⟩⟩
    · exact div_nonneg (Int.cast_nonneg shown.1) (by norm_num)
    · have sinceEpoch := Int.floor_nonneg.mpr onClock.since_epoch
      rw [floor_seconds] at sinceEpoch
      omega

/-- Seconds are counted from the epoch, and before it none are. -/
theorem wholeSeconds_eq (time : Time) : time.wholeSeconds = ⌊time.seconds⌋.toNat := by
  rw [floor_seconds, wholeSeconds]

theorem wholeSeconds_mono (ordered : earlier.seconds ≤ later.seconds) :
    earlier.wholeSeconds ≤ later.wholeSeconds := by
  rw [wholeSeconds_eq, wholeSeconds_eq]
  exact Int.toNat_le_toNat (Int.floor_mono ordered)

namespace OnClock

theorem wholeSeconds_eq_floor (onClock : time.OnClock) :
    (time.wholeSeconds : Int) = ⌊time.seconds⌋ := by
  rw [wholeSeconds_eq, Int.toNat_of_nonneg (Int.floor_nonneg.mpr onClock.since_epoch)]

/-- A signed clock stops far below the greatest unsigned word. -/
theorem wholeSeconds_lt (onClock : time.OnClock) :
    time.wholeSeconds < Cache.greatestSeconds := by
  have fits := onClock.fits
  rw [← onClock.wholeSeconds_eq_floor, greatestClockSeconds] at fits
  rw [Cache.greatestSeconds]
  omega

end OnClock

end Host.Time

namespace Cache.Policy

open Host (Time)

variable {seconds longer : Nat} {written rewritten modified remodified now sooner : Time}

/-- A moment below the greatest word does not notice that sums stop there. -/
theorem accepts_timeToLive_iff (readable : now.wholeSeconds < greatestSeconds) :
    (timeToLive seconds).accepts written modified now = true ↔
      now.wholeSeconds < written.wholeSeconds + seconds := by
  rw [accepts, decide_eq_true_iff, addSeconds]
  omega

theorem accepts_exactModification_iff :
    exactModification.accepts written modified now = true ↔
      modified.wholeSeconds = written.wholeSeconds := by
  rw [accepts, beq_iff_eq]

/-- What is accepted stays so under a longer time to live, with a later time of writing, and
at an earlier moment. -/
theorem accepts_mono (lasts : seconds ≤ longer) (rewrites : written.seconds ≤ rewritten.seconds)
    (precedes : sooner.seconds ≤ now.seconds)
    (accepted : (timeToLive seconds).accepts written modified now = true) :
    (timeToLive longer).accepts rewritten remodified sooner = true := by
  have writtenLe := Time.wholeSeconds_mono rewrites
  have soonerLe := Time.wholeSeconds_mono precedes
  rw [accepts, decide_eq_true_iff, addSeconds] at accepted ⊢
  omega

/-- On a clock of 64 bits policies compute exactly, and on every clock a time to live is
monotone in its length and in the time of writing, and does not come back once it is over. -/
theorem accepts_exactly :
    (∀ (seconds : Nat) (written modified now : Time), written.OnClock → now.OnClock →
      ((timeToLive seconds).accepts written modified now = true ↔
        ⌊now.seconds⌋ < ⌊written.seconds⌋ + seconds)) ∧
    (∀ written modified now : Time, written.OnClock → modified.OnClock →
      (exactModification.accepts written modified now = true ↔
        ⌊modified.seconds⌋ = ⌊written.seconds⌋)) ∧
    ∀ (seconds longer : Nat) (written rewritten modified now later : Time),
      seconds ≤ longer → written.seconds ≤ rewritten.seconds → now.seconds ≤ later.seconds →
        ((timeToLive seconds).accepts written modified now = true →
          (timeToLive longer).accepts rewritten modified now = true) ∧
        ((timeToLive seconds).accepts written modified now = false →
          (timeToLive seconds).accepts written modified later = false) := by
  refine ⟨?_, ?_, ?_⟩
  · intro seconds written modified now writtenOnClock nowOnClock
    rw [accepts_timeToLive_iff nowOnClock.wholeSeconds_lt, ← nowOnClock.wholeSeconds_eq_floor,
      ← writtenOnClock.wholeSeconds_eq_floor]
    omega
  · intro written modified now writtenOnClock modifiedOnClock
    rw [accepts_exactModification_iff, ← modifiedOnClock.wholeSeconds_eq_floor,
      ← writtenOnClock.wholeSeconds_eq_floor]
    omega
  · intro seconds longer written rewritten modified now later lasts rewrites precedes
    refine ⟨accepts_mono lasts rewrites le_rfl, fun refused => ?_⟩
    cases accepted : (timeToLive seconds).accepts written modified later with
    | false => rfl
    | true => cases refused.symm.trans (accepts_mono le_rfl le_rfl precedes accepted)

/-- An artifact of second 1 in the last second of the clock, and one from before the epoch. -/
theorem accepts_exactly_at_the_ends_of_the_clock :
    let written := Time.ofSeconds 1 999999999
    let last := Time.ofSeconds 9223372036854775807 999999999
    let early := Time.ofSeconds (-3) 500000000
    written.OnClock ∧ last.OnClock ∧
      (timeToLive greatestSeconds).accepts written last last = true ∧
      (timeToLive 9223372036854775806).accepts written last last = false ∧
      exactModification.accepts written last last = false ∧
      (timeToLive 2).accepts written early early = true ∧
      (timeToLive 1).accepts early early last = false := by
  intro written last early
  have writtenOnClock : written.OnClock := by decide
  have lastOnClock : last.OnClock := by decide
  obtain ⟨timeToLive_iff, exactModification_iff, monotone⟩ := accepts_exactly
  refine ⟨writtenOnClock, lastOnClock, ?_, ?_, ?_, ?_, ?_⟩
  · rw [timeToLive_iff _ _ _ _ writtenOnClock lastOnClock, Time.floor_seconds, Time.floor_seconds]
    decide
  · rw [← Bool.not_eq_true, timeToLive_iff _ _ _ _ writtenOnClock lastOnClock,
      Time.floor_seconds, Time.floor_seconds]
    decide
  · rw [← Bool.not_eq_true, exactModification_iff _ _ _ writtenOnClock lastOnClock,
      Time.floor_seconds, Time.floor_seconds]
    decide
  · have earlier : early.seconds ≤ written.seconds := Time.seconds_le_iff.mpr (by decide)
    exact (monotone 1 2 early written early early early (by decide) earlier le_rfl).1 (by decide)
  · have later : written.seconds ≤ last.seconds := Time.seconds_le_iff.mpr (by decide)
    exact (monotone 1 1 early early early written last le_rfl le_rfl later).2 (by decide)

end Cache.Policy

end Scriptlet
