/-!
# Clock

Instants in microseconds, and what a millisecond column keeps of them.
-/

set_option autoImplicit false

namespace Agentsfleet.Core

/-- A span in whole milliseconds, rounded half away from zero. -/
def milliseconds (span : Int) : Int :=
  if 0 ≤ span then (span + 500) / 1000 else -((-span + 500) / 1000)

/-- What a `TIMESTAMPTZ(3)` column keeps of an instant. -/
def stored (instant : Int) : Int := milliseconds instant * 1000

/-- `date_trunc('milliseconds', …)`. -/
def truncated (instant : Int) : Int := instant / 1000 * 1000

/-- From a whole millisecond, what a column keeps of a later instant is the
measured span later. -/
theorem stored_eq {last stop : Int} (nonneg : 0 ≤ last) (whole : last % 1000 = 0)
    (later : last ≤ stop) : stored stop = last + milliseconds (stop - last) * 1000 := by
  unfold stored milliseconds
  rw [if_pos (by omega), if_pos (by omega)]
  omega

theorem stored_whole (instant : Int) : stored instant % 1000 = 0 := by
  unfold stored
  omega

theorem stored_near (instant : Int) :
    instant - 500 ≤ stored instant ∧ stored instant ≤ instant + 500 := by
  unfold stored milliseconds
  split
  · omega
  · omega

/-- No column keeps an instant past a whole millisecond it does not pass. -/
theorem stored_le {stop deadline : Int} (nonneg : 0 ≤ stop) (whole : deadline % 1000 = 0)
    (within : stop ≤ deadline) : stored stop ≤ deadline := by
  unfold stored milliseconds
  rw [if_pos nonneg]
  omega

theorem stored_mono {first second : Int} (later : first ≤ second) :
    stored first ≤ stored second := by
  unfold stored milliseconds
  split
  · rw [if_pos (by omega)]
    omega
  · split
    · omega
    · omega

theorem stored_max (first second : Int) :
    stored (max first second) = max (stored first) (stored second) := by
  rcases Int.le_total first second with later | earlier
  · rw [Int.max_eq_right later, Int.max_eq_right (stored_mono later)]
  · rw [Int.max_eq_left earlier, Int.max_eq_left (stored_mono earlier)]

end Agentsfleet.Core
