import Mathlib.Data.List.Forall2
import Agentsfleet.Egress.Redirect
import Agentsfleet.Library.Ranges
import Agentsfleet.Library.Utf8
import Agentsfleet.Secrets.Scrub

/-!
# The redirect privacy mask

The spellings of private targets found in a response, overlapping and nested ones
included, and the response with a marker in the place of each stretch they cover, cut off
at its limit.  The automaton the patterns are compiled to is a parameter.
-/

set_option autoImplicit false

namespace Agentsfleet.Egress

open Agentsfleet.Library
open Agentsfleet.Secrets (Bytes bytes isCharBoundary floorCharBoundary startsChar)

namespace Mask

/-! ## Patterns -/

/-- One place of an encoded pattern: a character, or a hex digit in either case. -/
inductive Atom where
  | literal (c : Char)
  | either (lower upper : Char)
deriving DecidableEq, Repr

def Atom.chars : Atom → List Char
  | .literal c => [c]
  | .either lower upper => [lower, upper]

def hexdigits : List Char := "0123456789abcdefABCDEF".toList

def hexAtom (hex : Char) : Atom :=
  if hex.isAlpha then .either hex.toLower hex.toUpper else .literal hex

/-- Up to `count` hex digits, and what follows them. -/
def hexDigits : Nat → List Char → List Char × List Char
  | 0, chars => ([], chars)
  | _ + 1, [] => ([], [])
  | count + 1, hex :: chars =>
      if hex ∈ hexdigits then
        (hex :: (hexDigits count chars).1, (hexDigits count chars).2)
      else ([], hex :: chars)

theorem hexDigits_append (count : Nat) (chars : List Char) :
    (hexDigits count chars).1 ++ (hexDigits count chars).2 = chars := by
  induction count generalizing chars with
  | zero => rfl
  | succ count ih =>
      cases chars with
      | nil => rfl
      | cons hex chars =>
          rw [hexDigits]
          by_cases digit : hex ∈ hexdigits
          · rw [if_pos digit, List.cons_append, ih]
          · rw [if_neg digit, List.nil_append]

theorem hexDigits_digits (count : Nat) (chars : List Char) :
    ∀ digit ∈ (hexDigits count chars).1, digit ∈ hexdigits := by
  induction count generalizing chars with
  | zero => simp [hexDigits]
  | succ count ih =>
      cases chars with
      | nil => simp [hexDigits]
      | cons hex chars =>
          rw [hexDigits]
          by_cases digit : hex ∈ hexdigits
          · rw [if_pos digit]
            exact List.forall_mem_cons.mpr ⟨digit, ih chars⟩
          · rw [if_neg digit]
            simp

theorem hexDigits_length (count : Nat) (chars : List Char) :
    (hexDigits count chars).2.length ≤ chars.length := by
  have whole := congrArg List.length (hexDigits_append count chars)
  rw [List.length_append] at whole
  omega

/-- Percent hex digits are case-insensitive, and so are those of a `\u` escape; the
remaining bytes are not. -/
def encodedPattern : List Char → List Atom
  | [] => []
  | c :: chars =>
      .literal c ::
        if c = '%' then
          (hexDigits 2 chars).1.map hexAtom ++
            if (hexDigits 2 chars).1 = ['2', '5'] then
              (hexDigits 2 (hexDigits 2 chars).2).1.map hexAtom ++
                encodedPattern (hexDigits 2 (hexDigits 2 chars).2).2
            else encodedPattern (hexDigits 2 chars).2
        else if c = '\\' ∧ chars.head? = some 'u' then
          .literal 'u' ::
            ((hexDigits 4 chars.tail).1.map hexAtom ++ encodedPattern (hexDigits 4 chars.tail).2)
        else encodedPattern chars
  termination_by chars => chars.length
  decreasing_by
    all_goals
      have first := hexDigits_length 2 chars
      have second := hexDigits_length 2 (hexDigits 2 chars).2
      have third := hexDigits_length 4 chars.tail
      have fewer := chars.length_tail
      simp only [List.length_cons]
      omega

def reads : List Atom → Bytes → Bool
  | [], text => text.isEmpty
  | atom :: pattern, text =>
      atom.chars.any fun c =>
        (String.utf8EncodeChar c).isPrefixOf text && reads pattern (text.drop c.utf8Size)

/-- `value` is spelled from `start` to `stop`. -/
def Occurs (value : String) (text : Bytes) (start stop : Nat) : Prop :=
  start ≤ stop ∧ stop ≤ text.length ∧
    reads (encodedPattern value.toList) ((text.take stop).drop start) = true

theorem reads_iff {pattern : List Atom} {text : Bytes} : reads pattern text = true ↔
    ∃ chars, List.Forall₂ (fun atom c => c ∈ atom.chars) pattern chars ∧
      text = Utf8.encode chars := by
  induction pattern generalizing text with
  | nil =>
      rw [reads, List.isEmpty_iff]
      constructor
      · rintro rfl
        exact ⟨[], List.Forall₂.nil, rfl⟩
      · rintro ⟨chars, none_, same⟩
        cases none_
        exact same
  | cons atom pattern ih =>
      simp only [reads, List.any_eq_true, Bool.and_eq_true, List.isPrefixOf_iff_prefix, ih]
      constructor
      · rintro ⟨c, listed, ⟨after, rfl⟩, chars, matched, tail⟩
        refine ⟨c :: chars, List.Forall₂.cons listed matched, ?_⟩
        rw [Utf8.encode_cons, ← tail, ← String.length_utf8EncodeChar, List.drop_left]
      · rintro ⟨chars, matched, rfl⟩
        obtain _ | ⟨listed, others⟩ := matched
        rename_i c chars
        refine ⟨c, listed, ?_, chars, others, ?_⟩
        · rw [Utf8.encode_cons]
          exact List.prefix_append _ _
        · rw [Utf8.encode_cons, ← String.length_utf8EncodeChar, List.drop_left]

/-- Whatever an atom matches takes as many bytes as this character. -/
def Atom.Sized (atom : Atom) (c : Char) : Prop := ∀ d ∈ atom.chars, d.utf8Size = c.utf8Size

theorem sized_literal (c : Char) : Atom.Sized (.literal c) c := by
  intro d member
  rw [List.mem_singleton.mp member]

theorem sized_hexAtom {hex : Char} (digit : hex ∈ hexdigits) : (hexAtom hex).Sized hex := by
  have every : (hexdigits.all fun hex => (hexAtom hex).chars.all fun d =>
      d.utf8Size == hex.utf8Size) = true := by decide
  intro d member
  exact beq_iff_eq.mp (List.all_eq_true.mp (List.all_eq_true.mp every hex digit) d member)

theorem sized_hexDigits {count : Nat} {chars : List Char} {pattern : List Atom}
    (behind : List.Forall₂ Atom.Sized pattern (hexDigits count chars).2) :
    List.Forall₂ Atom.Sized ((hexDigits count chars).1.map hexAtom ++ pattern) chars := by
  have digits : List.Forall₂ Atom.Sized ((hexDigits count chars).1.map hexAtom)
      (hexDigits count chars).1 := by
    rw [List.forall₂_map_left_iff, List.forall₂_same]
    intro digit member
    exact sized_hexAtom (hexDigits_digits count chars digit member)
  have joined : List.Forall₂ Atom.Sized ((hexDigits count chars).1.map hexAtom ++ pattern)
      ((hexDigits count chars).1 ++ (hexDigits count chars).2) := List.rel_append digits behind
  rwa [hexDigits_append] at joined

theorem encodedPattern_sized (value : List Char) :
    List.Forall₂ Atom.Sized (encodedPattern value) value := by
  induction value using encodedPattern.induct with
  | case1 =>
      rw [encodedPattern]
      exact List.Forall₂.nil
  | case2 c chars twice once four plain =>
      rw [encodedPattern]
      refine List.Forall₂.cons (sized_literal c) ?_
      by_cases percent : c = '%'
      · rw [if_pos percent]
        apply sized_hexDigits
        by_cases double : (hexDigits 2 chars).1 = ['2', '5']
        · rw [if_pos double]
          exact sized_hexDigits twice
        · rw [if_neg double]
          exact once
      · rw [if_neg percent]
        by_cases escape : c = '\\' ∧ chars.head? = some 'u'
        · rw [if_pos escape]
          cases chars with
          | nil => cases escape.2
          | cons u behind =>
              cases escape.2
              exact List.Forall₂.cons (sized_literal 'u') (sized_hexDigits four)
        · rw [if_neg escape]
          exact plain

theorem sized_encode {pattern : List Atom} {value chars : List Char}
    (sized : List.Forall₂ Atom.Sized pattern value)
    (matched : List.Forall₂ (fun atom c => c ∈ atom.chars) pattern chars) :
    (Utf8.encode chars).length = (Utf8.encode value).length := by
  induction sized generalizing chars with
  | nil =>
      cases matched
      rfl
  | cons same _ ih =>
      obtain _ | ⟨listed, others⟩ := matched
      rw [Utf8.encode_cons, Utf8.encode_cons, List.length_append, List.length_append,
        String.length_utf8EncodeChar, String.length_utf8EncodeChar, same _ listed, ih others]

theorem Occurs.spelled {value : String} {text : Bytes} {start stop : Nat}
    (occurs : Occurs value text start stop) : start + (bytes value).length = stop ∧
      ∃ chars, (text.take stop).drop start = Utf8.encode chars := by
  obtain ⟨forward, within, matched⟩ := occurs
  obtain ⟨chars, each, spelled⟩ := reads_iff.mp matched
  refine ⟨?_, chars, spelled⟩
  have wide : (Utf8.encode chars).length = (bytes value).length :=
    sized_encode (encodedPattern_sized value.toList) each
  rw [← wide, ← spelled, List.length_drop, List.length_take_of_le within]
  omega

/-! ## The matcher -/

structure Dfa (State : Type) where
  startStateForward : Option State
  nextState : State → UInt8 → State
  nextEoiState : State → State
  isMatchState : State → Bool
  matchPatterns : State → List Nat

structure Matcher (State : Type) where
  dfa : Dfa State
  widths : List Nat

section State

variable {State : Type}

namespace Matcher

/-- `build` compiles the patterns, within its size limits. -/
def new (build : List (List Atom) → Option (Dfa State)) (values : List String) :
    Except Stop (Matcher State) :=
  match build (values.map fun value => encodedPattern value.toList) with
  | none => .error .privacy
  | some dfa => .ok ⟨dfa, values.map fun value => (bytes value).length⟩

def maxWidth (matcher : Matcher State) (state : State) : Except Stop Nat :=
  (matcher.dfa.matchPatterns state).foldlM (fun width pattern =>
    match matcher.widths[pattern]? with
    | some candidate => .ok (max width candidate)
    | none => .error .privacy) 0

variable [DecidableEq State]

def width (matcher : Matcher State) (widths : List (State × Nat)) (state : State) :
    Except Stop (Nat × List (State × Nat)) :=
  match widths.lookup state with
  | some width => .ok (width, widths)
  | none => do
      let width ← matcher.maxWidth state
      .ok (width, (state, width) :: widths)

/-- What `covered` keeps between two bytes: the widths looked up, and the ranges so far,
the last first. -/
structure Found (State : Type) where
  widths : List (State × Nat)
  ranges : List (Range Nat)

/-- What ends before `stop` is merged into the ranges it reaches. -/
def record (matcher : Matcher State) (state : State) (stop : Nat) (found : Found State) :
    Except Stop (Found State) :=
  if !matcher.dfa.isMatchState state then .ok found
  else do
    let (width, widths) ← matcher.width found.widths state
    if stop < width then .error .privacy
    else .ok ⟨widths, Range.push found.ranges ⟨stop - width, stop⟩⟩

def scan (matcher : Matcher State) : State → Nat → Bytes → Found State →
    Except Stop (State × Found State)
  | state, _, [], found => .ok (state, found)
  | state, stop, byte :: rest, found => do
      let state := matcher.dfa.nextState state byte
      let found ← matcher.record state stop found
      matcher.scan state (stop + 1) rest found

def covered (matcher : Matcher State) (text : Bytes) : Except Stop (List (Range Nat)) :=
  match matcher.dfa.startStateForward with
  | none => .error .privacy
  | some state => do
      let (state, found) ← matcher.scan state 0 text ⟨[], []⟩
      let found ← matcher.record (matcher.dfa.nextEoiState state) text.length found
      .ok found.ranges.reverse

end Matcher

/-! ## The bounded mask -/

def mask : Bytes := bytes "«secret:redirect»"

def responseMaxBytes : Nat := 2 ^ 20

def get (text : Bytes) (start stop : Nat) : Option Bytes :=
  if start ≤ stop ∧ isCharBoundary text start = true ∧ isCharBoundary text stop = true then
    some ((text.take stop).drop start)
  else none

def appendBounded (result text : Bytes) : Bytes × Bool :=
  let room := responseMaxBytes - result.length
  let stop := floorCharBoundary text (min room text.length)
  (result ++ (get text 0 stop).getD [], decide (stop = text.length))

/-- The stretches between the covered ones, each of those masked, from `cursor` on. -/
def maskFrom (text result : Bytes) (cursor : Nat) : List (Range Nat) → Except Stop (Bytes × Bool)
  | [] =>
      match get text cursor text.length with
      | none => .error .privacy
      | some tail =>
          let (result, complete) := appendBounded result tail
          .ok (result, !complete)
  | covered :: rest =>
      match get text cursor covered.start with
      | none => .error .privacy
      | some plain =>
          let (result, complete) := appendBounded result plain
          if !complete || responseMaxBytes - result.length < mask.length then .ok (result, true)
          else maskFrom text (result ++ mask) covered.stop rest

def maskBounded [DecidableEq State] (matcher : Matcher State) (text : Bytes) :
    Except Stop (Bytes × Bool) := do
  let ranges ← matcher.covered text
  maskFrom text [] 0 ranges

end State

end Mask

end Agentsfleet.Egress
