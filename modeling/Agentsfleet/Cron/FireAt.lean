import Mathlib.Algebra.Order.Ring.Int
import Mathlib.Algebra.Order.Group.Int

/-!
# When an expression next matches

Instants and wall-clock readings in nanoseconds, civil times counted from one epoch.  The
cron parser and the zone library are given by what they promise; a zone is whatever
reading its history gives each instant.
-/

set_option autoImplicit false

namespace Agentsfleet.Cron

def second : Int := 1000000000
def minute : Int := 60 * second

/-- A cron expression that reads: the wall-clock minutes it matches, and the search for
the least one strictly after a wall-clock second. -/
structure CronExpr where
  fits : Int → Bool
  nextFrom : Int → Option Int
  least : ∀ start next, nextFrom start = some next → start < 60 * next ∧ fits next = true ∧
    ∀ other, fits other = true → start < 60 * other → next ≤ other

/-- A zone that reads: the reading of every instant, and the instant of a civil time.  An
ambiguous civil time maps to its earlier instant, a skipped one to one that reads later. -/
structure TimeZone where
  wall : Int → Int
  toZoned : Int → Option Int
  earlier : ∀ civil instant, toZoned civil = some instant → (∃ shown, wall shown = civil) →
    wall instant = civil ∧ ∀ shown, wall shown = civil → instant ≤ shown
  later : ∀ civil instant, toZoned civil = some instant → (¬ ∃ shown, wall shown = civil) →
    civil < wall instant

structure CronLibraries where
  parse : String → Option CronExpr
  get : String → Option TimeZone

/-- The wall-clock minute `nextFire` settles on, as a civil time. -/
def nextCivil (expression : CronExpr) (zone : TimeZone) (after : Int) : Option Int :=
  (expression.nextFrom (zone.wall after / second)).map (· * minute)

/-- The first instant after `after` that `cron` matches in `timezone`. -/
def nextFire (lib : CronLibraries) (cron timezone : String) (after : Int) : Option Int := do
  let expression ← lib.parse cron
  let zone ← lib.get timezone
  let civil ← nextCivil expression zone after
  zone.toZoned civil

section Fires

variable (expression : CronExpr) (zone : TimeZone)

/-- `instant` reads a minute the expression matches. -/
def Fires (instant : Int) : Prop :=
  ∃ next, expression.fits next = true ∧ zone.wall instant = next * minute

/-- `instant` is the first one after `after` that the expression matches. -/
structure Ahead (after instant : Int) : Prop where
  later : after < instant
  fires : Fires expression zone instant
  first : ∀ other, after < other → other < instant → ¬ Fires expression zone other

/-- The zone shows `civil`, first after `after`, and meanwhile is neither set back to a
match at or before the reading of `after` nor put forward past `civil` to a later one. -/
structure Straight (after civil : Int) : Prop where
  shown : ∃ instant, zone.wall instant = civil
  unseen : ∀ instant, zone.wall instant = civil → after < instant
  not_back : ∀ other, after < other → Fires expression zone other →
    zone.wall other ≤ zone.wall after → ∃ instant ≤ other, zone.wall instant = civil
  not_past : ∀ other, after < other → Fires expression zone other → civil < zone.wall other →
    ∃ instant ≤ other, zone.wall instant = civil

variable {expression zone}

theorem nextCivil_spec {after civil : Int} (next : nextCivil expression zone after = some civil) :
    zone.wall after < civil ∧ (∃ fit, expression.fits fit = true ∧ civil = fit * minute) ∧
      ∀ fit, expression.fits fit = true → zone.wall after < fit * minute →
        civil ≤ fit * minute := by
  obtain ⟨fit, found, rfl⟩ := Option.map_eq_some_iff.mp next
  obtain ⟨after_start, matched, least⟩ := expression.least _ fit found
  refine ⟨?_, ⟨fit, matched, rfl⟩, fun other fits later => ?_⟩
  · unfold minute second at *
    omega
  · have start : zone.wall after / second < 60 * other := by
      unfold minute second at *
      omega
    have below := least other fits start
    unfold minute second
    omega

/-- Of a civil time the zone shows, the answer is the first instant to match exactly when
the zone goes straight to it. -/
theorem ahead_iff_straight {after civil instant : Int}
    (next : nextCivil expression zone after = some civil)
    (zoned : zone.toZoned civil = some instant) (shown : ∃ instant, zone.wall instant = civil) :
    Ahead expression zone after instant ↔ Straight expression zone after civil := by
  obtain ⟨-, ⟨fit, fits, rfl⟩, least⟩ := nextCivil_spec next
  obtain ⟨reads, earliest⟩ := zone.earlier _ instant zoned shown
  constructor
  · intro ahead
    have before : ∀ other, after < other → Fires expression zone other →
        ∃ instant ≤ other, zone.wall instant = fit * minute := by
      intro other later fires
      refine ⟨instant, ?_, reads⟩
      apply Int.not_lt.mp
      intro sooner
      exact ahead.first other later sooner fires
    exact ⟨shown, fun other same => Int.lt_of_lt_of_le ahead.later (earliest other same),
      fun other later fires _ => before other later fires,
      fun other later fires _ => before other later fires⟩
  · intro straight
    refine ⟨straight.unseen instant reads, ⟨fit, fits, reads⟩, fun other later sooner fires => ?_⟩
    have early : ∃ instant ≤ other, zone.wall instant = fit * minute := by
      obtain ⟨again, fits', reads'⟩ := fires
      rcases Int.lt_or_le (zone.wall after) (again * minute) with ahead | back
      · have at_least := least again fits' ahead
        rcases Int.lt_or_eq_of_le at_least with past | same
        · exact straight.not_past other later ⟨again, fits', reads'⟩ (reads' ▸ past)
        · exact ⟨other, Int.le_refl _, reads'.trans same.symm⟩
      · exact straight.not_back other later ⟨again, fits', reads'⟩ (reads' ▸ back)
    obtain ⟨first, at_most, same⟩ := early
    have bound := earliest first same
    omega

/-- A zone whose clock is never set back goes straight to every minute it shows. -/
theorem straight_of_steady
    (steady : ∀ first second : Int, first < second → zone.wall first < zone.wall second)
    {after civil : Int} (next : nextCivil expression zone after = some civil)
    (shown : ∃ instant, zone.wall instant = civil) : Straight expression zone after civil := by
  obtain ⟨ahead, -, -⟩ := nextCivil_spec next
  have later : ∀ first second : Int, zone.wall first < zone.wall second → first < second := by
    intro first second less
    by_contra back
    rcases Int.lt_or_eq_of_le (Int.not_lt.mp back) with under | same
    · have := steady second first under
      omega
    · rw [same] at less
      omega
  refine ⟨shown, fun other same => ?_, fun other after_ _ back => ?_, fun other _ _ past => ?_⟩
  · apply later
    rw [same]
    exact ahead
  · have forward := steady _ _ after_
    omega
  · obtain ⟨instant, same⟩ := shown
    rw [← same] at past
    exact ⟨instant, Int.le_of_lt (later _ _ past), same⟩

end Fires

/-! ## The law of an answer -/

/-- An answer is the first instant after `after` to match, and a match the zone skips has
none. -/
structure Lawful (lib : CronLibraries) (cron timezone : String) (after : Int) : Prop where
  ahead : ∀ instant, nextFire lib cron timezone after = some instant →
    ∃ expression zone, lib.parse cron = some expression ∧ lib.get timezone = some zone ∧
      Ahead expression zone after instant
  skipped : ∀ expression zone civil, lib.parse cron = some expression →
    lib.get timezone = some zone → nextCivil expression zone after = some civil →
      (¬ ∃ instant, zone.wall instant = civil) → nextFire lib cron timezone after = none

section Law

variable {lib : CronLibraries} {cron timezone : String} {after : Int}

theorem nextFire_eq {expression : CronExpr} {zone : TimeZone}
    (parsed : lib.parse cron = some expression) (zoned : lib.get timezone = some zone) :
    nextFire lib cron timezone after = (nextCivil expression zone after).bind zone.toZoned := by
  unfold nextFire
  rw [parsed, zoned]
  rfl

theorem nextFire_some {instant : Int} (answered : nextFire lib cron timezone after = some instant) :
    ∃ expression zone civil, lib.parse cron = some expression ∧ lib.get timezone = some zone ∧
      nextCivil expression zone after = some civil ∧ zone.toZoned civil = some instant := by
  obtain ⟨expression, parsed, rest⟩ := Option.bind_eq_some_iff.mp answered
  obtain ⟨zone, zoned, rest⟩ := Option.bind_eq_some_iff.mp rest
  obtain ⟨civil, next, rest⟩ := Option.bind_eq_some_iff.mp rest
  exact ⟨expression, zone, civil, parsed, zoned, next, rest⟩

end Law

/-- An answer is right exactly where the zone goes straight to the match it is for. -/
theorem lawful_iff_straight (lib : CronLibraries) (cron timezone : String) (after : Int) :
    Lawful lib cron timezone after ↔
      ∀ expression zone civil, lib.parse cron = some expression → lib.get timezone = some zone →
        nextCivil expression zone after = some civil → (zone.toZoned civil).isSome = true →
          Straight expression zone after civil := by
  constructor
  · intro lawful expression zone civil parsed zoned next answers
    obtain ⟨instant, found⟩ := Option.isSome_iff_exists.mp answers
    have answered : nextFire lib cron timezone after = some instant := by
      rw [nextFire_eq parsed zoned, next, Option.bind_some, found]
    have shown : ∃ instant, zone.wall instant = civil := by
      apply Classical.byContradiction
      intro skipped
      rw [lawful.skipped expression zone civil parsed zoned next skipped] at answered
      cases answered
    obtain ⟨expression', zone', parsed', zoned', ahead⟩ := lawful.ahead instant answered
    rw [parsed, Option.some.injEq] at parsed'
    rw [zoned, Option.some.injEq] at zoned'
    subst parsed' zoned'
    exact (ahead_iff_straight next found shown).mp ahead
  · intro straight
    refine ⟨fun instant answered => ?_, fun expression zone civil parsed zoned next skipped => ?_⟩
    · obtain ⟨expression, zone, civil, parsed, zoned, next, found⟩ := nextFire_some answered
      have goes := straight expression zone civil parsed zoned next (by rw [found]; rfl)
      exact ⟨expression, zone, parsed, zoned, (ahead_iff_straight next found goes.shown).mpr goes⟩
    · rw [nextFire_eq parsed zoned, next, Option.bind_some]
      cases found : zone.toZoned civil with
      | none => rfl
      | some instant =>
          have goes := straight expression zone civil parsed zoned next (by rw [found]; rfl)
          exact absurd goes.shown skipped

/-! ## An hour shown twice -/

/-- `30 1 * * *`. -/
def daily : CronExpr where
  fits next := decide (next % 1440 = 90)
  nextFrom start := some (90 + 1440 * ((start / 60 - 90) / 1440 + 1))
  least start next found := by
    obtain rfl := Option.some.inj found
    refine ⟨by omega, decide_eq_true (by omega), fun other fits later => ?_⟩
    rw [decide_eq_true_eq] at fits
    omega

/-- 2026-11-01T06:00:00Z. -/
def setBack : Int := 1793512800 * second

def newYorkWall (instant : Int) : Int :=
  if instant < setBack then instant - 240 * minute else instant - 300 * minute

def newYorkZoned (civil : Int) : Int :=
  if civil + 240 * minute < setBack then civil + 240 * minute else civil + 300 * minute

theorem newYork_reads (civil : Int) : newYorkWall (newYorkZoned civil) = civil := by
  have hour : 240 * minute < 300 * minute := by decide
  unfold newYorkWall newYorkZoned
  by_cases early : civil + 240 * minute < setBack
  · rw [if_pos early, if_pos early]
    omega
  · rw [if_neg early, if_neg (by omega)]
    omega

theorem newYork_earliest (instant : Int) : newYorkZoned (newYorkWall instant) ≤ instant := by
  have hour : 240 * minute < 300 * minute := by decide
  unfold newYorkWall newYorkZoned
  by_cases early : instant < setBack
  · rw [if_pos early, if_pos (by omega)]
    omega
  · rw [if_neg early]
    split
    · omega
    · omega

/-- `America/New_York` about the end of its summer time. -/
def newYork : TimeZone where
  wall := newYorkWall
  toZoned civil := some (newYorkZoned civil)
  earlier civil instant found _ := by
    obtain rfl := Option.some.inj found
    refine ⟨newYork_reads civil, fun shown reads => ?_⟩
    rw [← reads]
    exact newYork_earliest shown
  later civil _ _ skipped := absurd ⟨newYorkZoned civil, newYork_reads civil⟩ skipped

def autumn : CronLibraries := ⟨fun _ => some daily, fun _ => some newYork⟩

/-- At ten past one for the second time, half past one has been. -/
theorem set_back_answers_past :
    ¬ Lawful autumn "30 1 * * *" "America/New_York" (1793513400 * second) := by
  intro lawful
  have answered : nextFire autumn "30 1 * * *" "America/New_York" (1793513400 * second) =
      some (1793511000 * second) := by
    decide
  obtain ⟨_, _, _, _, ahead⟩ := lawful.ahead _ answered
  exact absurd ahead.later (by decide)

end Agentsfleet.Cron
