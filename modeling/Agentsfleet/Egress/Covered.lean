import Agentsfleet.Core.Bounds
import Agentsfleet.Egress.Mask

/-!
# What the matcher covers

An automaton that reports the patterns ending at each position, and the ranges recorded
from it: apart, in order, and together all that any occurrence takes up.
-/

set_option autoImplicit false

namespace Agentsfleet.Egress.Mask

open Agentsfleet.Library
open Agentsfleet.Secrets (Bytes bytes)

section State

variable {State : Type}

/-! ## What the automaton reports -/

def Begins (values : List String) (text : Bytes) (start : Nat) : Prop :=
  ∃ value ∈ values, ∃ stop, Occurs value text start stop

def Ends (values : List String) (text : Bytes) (stop : Nat) : Prop :=
  ∃ value ∈ values, ∃ start, Occurs value text start stop

/-- The state is one of the patterns that end at `stop`. -/
structure Tells (dfa : Dfa State) (values : List String) (text : Bytes) (state : State)
    (stop : Nat) : Prop where
  isMatch : dfa.isMatchState state = true ↔ Ends values text stop
  patterns : dfa.isMatchState state = true → ∀ pattern, pattern ∈ dfa.matchPatterns state ↔
    ∃ value, values[pattern]? = some value ∧ ∃ start, Occurs value text start stop

/-- Matches are told one byte late, and the last ones at the end of the text. -/
structure Reports (dfa : Dfa State) (values : List String) (text : Bytes) : Prop where
  starts : dfa.startStateForward.isSome = true
  delayed : ∀ first ∈ dfa.startStateForward, ∀ before byte after, text = before ++ byte :: after →
    Tells dfa values text ((before ++ [byte]).foldl dfa.nextState first) before.length
  ends : ∀ first ∈ dfa.startStateForward,
    Tells dfa values text (dfa.nextEoiState (text.foldl dfa.nextState first)) text.length

/-! ## Widths -/

theorem foldlM_widest {widths : List Nat} {patterns : List Nat}
    (known : ∀ pattern ∈ patterns, pattern < widths.length) (least : Nat) :
    ∃ width, patterns.foldlM (fun width pattern =>
        match widths[pattern]? with
        | some candidate => .ok (max width candidate)
        | none => .error .privacy) least = (.ok width : Except Stop Nat) ∧ least ≤ width ∧
      (∀ pattern ∈ patterns, ∀ candidate ∈ widths[pattern]?, candidate ≤ width) ∧
      (width = least ∨ ∃ pattern ∈ patterns, widths[pattern]? = some width) := by
  induction patterns generalizing least with
  | nil => exact ⟨least, rfl, Nat.le_refl _, by simp, Or.inl rfl⟩
  | cons pattern patterns ih =>
      obtain ⟨here, others⟩ := List.forall_mem_cons.mp known
      have found := List.getElem?_eq_getElem here
      obtain ⟨width, ran, above, widest, one⟩ := ih others (max least widths[pattern])
      refine ⟨width, ?_, by omega, ?_, ?_⟩
      · rw [List.foldlM_cons, found]
        exact ran
      · refine List.forall_mem_cons.mpr ⟨?_, widest⟩
        intro candidate is
        rw [found] at is
        cases is
        omega
      · rcases one with same | ⟨which, member, is⟩
        · rcases Nat.le_total least widths[pattern] with wider | narrower
          · refine Or.inr ⟨pattern, List.mem_cons_self, ?_⟩
            rw [found, same, Nat.max_eq_right wider]
          · exact Or.inl (same.trans (Nat.max_eq_left narrower))
        · exact Or.inr ⟨which, List.mem_cons_of_mem _ member, is⟩

def Taken (values : List String) (text : Bytes) (place : Nat) : Prop :=
  ∃ value ∈ values, ∃ start stop, Occurs value text start stop ∧ start ≤ place ∧ place < stop

/-- A place within an occurrence that ends at `stop`. -/
def Ending (values : List String) (text : Bytes) (stop place : Nat) : Prop :=
  ∃ value ∈ values, ∃ start, Occurs value text start stop ∧ start ≤ place ∧ place < stop

namespace Matcher

def For (matcher : Matcher State) (values : List String) : Prop :=
  matcher.widths = values.map fun value => (bytes value).length

theorem new_for {build : List (List Atom) → Option (Dfa State)} {values : List String}
    {matcher : Matcher State} (built : new build values = .ok matcher) : matcher.For values := by
  unfold new at built
  split at built
  · cases built
  · cases built
    rfl

theorem maxWidth_eq {matcher : Matcher State} {values : List String} {text : Bytes}
    {state : State} {stop : Nat} (widths : matcher.For values)
    (tells : Tells matcher.dfa values text state stop)
    (isMatch : matcher.dfa.isMatchState state = true) :
    ∃ width, matcher.maxWidth state = .ok width ∧ width ≤ stop ∧
      (∃ value ∈ values, Occurs value text (stop - width) stop) ∧
      ∀ place, Ending values text stop place ↔ Range.Holds ⟨stop - width, stop⟩ place := by
  have patterns := tells.patterns isMatch
  have wide : ∀ {pattern : Nat} {value : String}, values[pattern]? = some value →
      matcher.widths[pattern]? = some (bytes value).length := by
    intro pattern value found
    rw [widths, List.getElem?_map, found]
    rfl
  have known : ∀ pattern ∈ matcher.dfa.matchPatterns state, pattern < matcher.widths.length := by
    intro pattern member
    obtain ⟨value, found, _⟩ := (patterns pattern).mp member
    exact (List.getElem?_eq_some_iff.mp (wide found)).1
  obtain ⟨width, ran, -, widest, one⟩ := foldlM_widest known 0
  have all : ∀ value ∈ values, ∀ start, Occurs value text start stop → stop ≤ start + width := by
    intro value member start occurs
    obtain ⟨pattern, found⟩ := List.mem_iff_getElem?.mp member
    have listed := (patterns pattern).mpr ⟨value, found, start, occurs⟩
    have most := widest pattern listed _ (wide found)
    have ends := occurs.spelled.1
    omega
  have reached : ∃ value ∈ values, Occurs value text (stop - width) stop ∧ width ≤ stop := by
    rcases one with none_ | ⟨pattern, member, is⟩
    · obtain ⟨value, member, start, occurs⟩ := tells.isMatch.mp isMatch
      have most := all value member start occurs
      have forward := occurs.1
      have same : stop - width = start := by omega
      exact ⟨value, member, same ▸ occurs, by omega⟩
    · obtain ⟨value, found, start, occurs⟩ := (patterns pattern).mp member
      have ends := occurs.spelled.1
      rw [wide found] at is
      cases is
      have same : stop - (bytes value).length = start := by omega
      exact ⟨value, List.mem_of_getElem? found, same ▸ occurs, by omega⟩
  obtain ⟨value, member, occurs, within⟩ := reached
  refine ⟨width, ran, within, ⟨value, member, occurs⟩, ?_⟩
  intro place
  constructor
  · rintro ⟨other, listed, start, ending, after, before⟩
    have most := all other listed start ending
    exact ⟨by dsimp only; omega, before⟩
  · rintro ⟨after, before⟩
    exact ⟨value, member, stop - width, occurs, after, before⟩

/-! ## The ranges so far -/

variable [DecidableEq State]

/-- The widths looked up are those of their states, and the ranges are what the
occurrences that end before `stop` take up. -/
structure Kept (matcher : Matcher State) (values : List String) (text : Bytes) (stop : Nat)
    (found : Found State) : Prop where
  widths : ∀ state width, found.widths.lookup state = some width →
    matcher.maxWidth state = .ok width
  stacked : Range.Stacked found.ranges
  ended : ∀ range ∈ found.ranges, range.stop ≤ stop
  at_ends : ∀ range ∈ found.ranges,
    Begins values text range.start ∧ Ends values text range.stop
  covers : ∀ place, Range.Covers found.ranges place ↔
    ∃ last < stop, Ending values text last place

theorem width_eq {matcher : Matcher State} {widths : List (State × Nat)} {state : State}
    {width : Nat} (known : ∀ state width, widths.lookup state = some width →
      matcher.maxWidth state = .ok width) (is : matcher.maxWidth state = .ok width) :
    ∃ widths', matcher.width widths state = .ok (width, widths') ∧
      ∀ state width, widths'.lookup state = some width → matcher.maxWidth state = .ok width := by
  unfold Matcher.width
  cases found : widths.lookup state with
  | some known_ =>
      have same := known state known_ found
      rw [is] at same
      cases same
      exact ⟨widths, rfl, known⟩
  | none =>
      refine ⟨(state, width) :: widths, by rw [is]; rfl, ?_⟩
      intro other width' looked
      rw [List.lookup_cons] at looked
      by_cases same : other = state
      · subst same
        rw [beq_self_eq_true] at looked
        cases looked
        exact is
      · rw [beq_eq_false_iff_ne.mpr same] at looked
        exact known other width' looked

theorem record_kept {matcher : Matcher State} {values : List String} {text : Bytes}
    {state : State} {stop : Nat} {found : Found State} (widths : matcher.For values)
    (kept : matcher.Kept values text stop found)
    (tells : Tells matcher.dfa values text state stop) :
    ∃ found', matcher.record state stop found = .ok found' ∧
      matcher.Kept values text (stop + 1) found' := by
  have later : ∀ place, (∃ last < stop + 1, Ending values text last place) ↔
      Ending values text stop place ∨ ∃ last < stop, Ending values text last place := by
    intro place
    constructor
    · rintro ⟨last, before, ending⟩
      rcases Nat.lt_succ_iff_lt_or_eq.mp before with earlier | same
      · exact Or.inr ⟨last, earlier, ending⟩
      · exact Or.inl (same ▸ ending)
    · rintro (ending | ⟨last, before, ending⟩)
      · exact ⟨stop, Nat.lt_succ_self _, ending⟩
      · exact ⟨last, Nat.lt_succ_of_lt before, ending⟩
  have ended : ∀ range ∈ found.ranges, range.stop ≤ stop + 1 :=
    fun range member => Nat.le_succ_of_le (kept.ended range member)
  unfold record
  cases isMatch : matcher.dfa.isMatchState state with
  | false =>
      refine ⟨found, rfl, kept.widths, kept.stacked, ended, kept.at_ends, ?_⟩
      intro place
      rw [kept.covers, later]
      refine (or_iff_right ?_).symm
      rintro ⟨value, member, start, occurs, _⟩
      have told := tells.isMatch.mpr ⟨value, member, start, occurs⟩
      rw [isMatch] at told
      cases told
  | true =>
      obtain ⟨width, is, within, begins, holds⟩ := maxWidth_eq widths tells isMatch
      obtain ⟨known, looked, sound⟩ := width_eq kept.widths is
      refine ⟨⟨known, Range.push found.ranges ⟨stop - width, stop⟩⟩, ?_, sound, ?_, ?_, ?_, ?_⟩
      · simp only [Bool.not_true, Bool.false_eq_true, if_false, looked]
        exact if_neg (Nat.not_lt.mpr within)
      · exact kept.stacked.push (Nat.sub_le _ _)
      · intro range member
        exact Nat.le_succ_of_le (Range.push_stop_le kept.ended range member)
      · obtain ⟨value, member, occurs⟩ := begins
        exact Range.forall_push (Begins values text) (Ends values text) kept.at_ends
          ⟨⟨value, member, stop, occurs⟩, ⟨value, member, stop - width, occurs⟩⟩
      · intro place
        rw [later, ← kept.covers, holds]
        exact Range.push_covers kept.ended place

theorem scan_kept {matcher : Matcher State} {values : List String} {text before rest : Bytes}
    {first : State} {found : Found State} (widths : matcher.For values)
    (reports : Reports matcher.dfa values text) (starts : first ∈ matcher.dfa.startStateForward)
    (whole : text = before ++ rest) (kept : matcher.Kept values text before.length found) :
    ∃ found', matcher.scan (before.foldl matcher.dfa.nextState first) before.length rest found
        = .ok (text.foldl matcher.dfa.nextState first, found') ∧
      matcher.Kept values text text.length found' := by
  induction rest generalizing before found with
  | nil =>
      rw [List.append_nil] at whole
      subst whole
      exact ⟨found, rfl, kept⟩
  | cons byte rest ih =>
      have tells := reports.delayed first starts before byte rest whole
      rw [List.foldl_append] at tells
      obtain ⟨found', recorded, next⟩ := record_kept widths kept tells
      have further : text = (before ++ [byte]) ++ rest := by rw [whole]; simp
      have longer : (before ++ [byte]).length = before.length + 1 := by simp
      rw [← longer] at next
      obtain ⟨last, ran, done⟩ := ih further next
      refine ⟨last, ?_, done⟩
      rw [List.foldl_append, longer] at ran
      rw [scan]
      simp only [List.foldl_cons, List.foldl_nil] at recorded ran
      rw [recorded]
      exact ran

theorem kept_nil (matcher : Matcher State) (values : List String) (text : Bytes) :
    matcher.Kept values text 0 ⟨[], []⟩ where
  widths := by simp
  stacked := Range.stacked_nil
  ended := by simp
  at_ends := by simp
  covers := by simp [Range.Covers]

structure Marks (values : List String) (text : Bytes) (ranges : List (Range Nat)) : Prop where
  apart : ranges.Pairwise fun earlier later => earlier.stop ≤ later.start
  forward : ∀ range ∈ ranges, range.start ≤ range.stop
  at_ends : ∀ range ∈ ranges, Begins values text range.start ∧ Ends values text range.stop
  covers : ∀ place, Range.Covers ranges place ↔ Taken values text place

theorem covered_marks {matcher : Matcher State} {values : List String} {text : Bytes}
    (widths : matcher.For values) (reports : Reports matcher.dfa values text) :
    ∃ ranges, matcher.covered text = .ok ranges ∧ Marks values text ranges := by
  obtain ⟨first, starts⟩ := Option.isSome_iff_exists.mp reports.starts
  have unread : text = [] ++ text := rfl
  obtain ⟨scanned, ran, kept⟩ :=
    scan_kept widths reports starts unread (kept_nil matcher values text)
  obtain ⟨found, recorded, done⟩ := record_kept widths kept (reports.ends first starts)
  rw [List.foldl_nil, List.length_nil] at ran
  refine ⟨found.ranges.reverse, ?_, ?_, ?_, ?_, ?_⟩
  · simp only [covered, starts, ran, bind, Except.bind, recorded]
  · exact List.pairwise_reverse.mpr done.stacked.apart
  · intro range member
    exact done.stacked.forward range (List.mem_reverse.mp member)
  · intro range member
    exact done.at_ends range (List.mem_reverse.mp member)
  · intro place
    have same : Range.Covers found.ranges.reverse place ↔ Range.Covers found.ranges place := by
      simp [Range.Covers]
    rw [same, done.covers]
    constructor
    · rintro ⟨stop, -, value, member, start, occurs, within⟩
      exact ⟨value, member, start, stop, occurs, within⟩
    · rintro ⟨value, member, start, stop, occurs, within⟩
      exact ⟨stop, Nat.lt_succ_of_le occurs.2.1, value, member, start, occurs, within⟩

end Matcher

end State

end Agentsfleet.Egress.Mask
