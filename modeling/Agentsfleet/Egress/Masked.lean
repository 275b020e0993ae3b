import Agentsfleet.Egress.Covered

/-!
# What the bounded mask leaves

The masked text as whole markers and stretches no occurrence touches, cut off at the limit
on a character boundary, and the flag that tells whether anything is missing from it.
-/

set_option autoImplicit false

namespace Agentsfleet.Egress.Mask

open Agentsfleet.Library
open Agentsfleet.Secrets (Bytes bytes isCharBoundary floorCharBoundary startsChar)

/-! ## Character boundaries -/

theorem startsChar_fresh {byte : UInt8} (starts : startsChar byte = true) :
    Utf8.continues byte = false := by
  simp only [startsChar, Bool.or_eq_true, decide_eq_true_eq, UInt8.lt_iff_toNat_lt,
    UInt8.le_iff_toNat_le] at starts
  simp only [Utf8.continues, Bool.and_eq_false_iff, decide_eq_false_iff_not,
    UInt8.le_iff_toNat_le]
  have low : (128 : UInt8).toNat = 128 := rfl
  have high : (192 : UInt8).toNat = 192 := rfl
  have last : (0xbf : UInt8).toNat = 191 := rfl
  omega

theorem boundary_fresh {text : Bytes} {place : Nat} (valid : Utf8.Valid text)
    (here : isCharBoundary text place = true) :
    ∀ byte ∈ text[place]?, Utf8.continues byte = false := by
  intro byte is
  unfold isCharBoundary at here
  by_cases first : place = 0
  · obtain ⟨chars, rfl⟩ := valid
    rw [first, ← List.head?_eq_getElem?] at is
    exact Utf8.fresh_encode chars byte is
  · rw [if_neg first, is] at here
    exact startsChar_fresh here

theorem get_valid {text piece : Bytes} {start stop : Nat} (valid : Utf8.Valid text)
    (got : get text start stop = some piece) : Utf8.Valid piece := by
  unfold get at got
  split at got
  · rename_i between
    obtain ⟨forward, first, last⟩ := between
    cases got
    obtain ⟨chars, whole⟩ := valid
    have valid : Utf8.Valid text := ⟨chars, whole⟩
    have ending := boundary_fresh valid last
    rw [← List.head?_drop] at ending
    obtain ⟨before, after, -, front, -⟩ :=
      Utf8.cut_fresh ((List.take_append_drop stop text).trans whole) ending
    have starting : ∀ byte ∈ ((text.take stop).drop start).head?, Utf8.continues byte = false := by
      intro byte is
      rw [List.head?_drop, List.getElem?_take] at is
      split at is
      · exact boundary_fresh valid first byte is
      · cases is
    obtain ⟨_, inner, -, -, piece⟩ :=
      Utf8.cut_fresh ((List.take_append_drop start (text.take stop)).trans front) starting
    exact ⟨inner, piece⟩
  · cases got

theorem boundary_between (before after : List Char) :
    isCharBoundary (Utf8.encode before ++ Utf8.encode after) (Utf8.encode before).length
      = true := by
  by_cases none_ : after = []
  · rw [none_, Utf8.encode_nil, List.append_nil]
    exact Secrets.length_boundary _
  · have full : String.ofList after ≠ "" := by
      intro empty
      apply none_
      rw [← String.toList_ofList (l := after), empty]
      rfl
    obtain ⟨first, rest, spelled, leads⟩ := Secrets.bytes_first full
    have same : bytes (String.ofList after) = Utf8.encode after := by
      rw [bytes, String.toList_ofList]
      rfl
    have here : (Utf8.encode before ++ Utf8.encode after).drop (Utf8.encode before).length
        = first :: rest := by
      rw [List.drop_left, ← same, spelled]
    exact Secrets.boundary_of_first here leads

theorem Occurs.boundaries {value : String} {text : Bytes} {start stop : Nat}
    (occurs : Occurs value text start stop) (valid : Utf8.Valid text) (some : value ≠ "") :
    isCharBoundary text start = true ∧ isCharBoundary text stop = true := by
  obtain ⟨wide, mids, spelled⟩ := occurs.spelled
  obtain ⟨forward, within, -⟩ := occurs
  obtain ⟨chars, whole⟩ := valid
  have unempty : mids ≠ [] := by
    rintro rfl
    obtain ⟨first, rest, begun, -⟩ := Secrets.bytes_first some
    have size := congrArg List.length spelled
    rw [List.length_drop, List.length_take_of_le within, Utf8.encode_nil, List.length_nil] at size
    rw [begun, List.length_cons] at wide
    omega
  have parts : text.take start ++ (Utf8.encode mids ++ text.drop stop) = Utf8.encode chars := by
    have front := List.take_append_drop start (text.take stop)
    rw [List.take_take, Nat.min_eq_left forward, spelled] at front
    rw [← List.append_assoc, front, List.take_append_drop, whole]
  obtain ⟨before, after, front, back⟩ := Utf8.cut_around parts unempty
  have starts : (Utf8.encode before).length = start := by
    rw [← front, List.length_take_of_le (by omega)]
  have stops : (Utf8.encode (before ++ mids)).length = stop := by
    rw [Utf8.encode_append, List.length_append, starts, ← spelled, List.length_drop,
      List.length_take_of_le within]
    omega
  rw [front, back] at parts
  constructor
  · have first := boundary_between before (mids ++ after)
    rwa [starts, Utf8.encode_append, parts, ← whole] at first
  · have last := boundary_between (before ++ mids) after
    rwa [stops, Utf8.encode_append, List.append_assoc, parts, ← whole] at last

/-! ## What is appended -/

theorem floorCharBoundary_le_index (text : Bytes) (index : Nat) :
    floorCharBoundary text index ≤ index := by
  induction index with
  | zero => exact Nat.le_refl _
  | succ index ih =>
      rw [floorCharBoundary]
      split
      · assumption
      · split
        · exact Nat.le_refl _
        · exact Nat.le_succ_of_le ih

theorem appendBounded_spec {result text : Bytes} (short : result.length ≤ responseMaxBytes)
    (before : Utf8.Valid result) (valid : Utf8.Valid text) :
    ∃ size ≤ text.length, (appendBounded result text).1 = result ++ text.take size ∧
      ((appendBounded result text).2 = true ↔ size = text.length) ∧
      (appendBounded result text).1.length ≤ responseMaxBytes ∧
      Utf8.Valid (appendBounded result text).1 := by
  have fits := floorCharBoundary_le_index text (min (responseMaxBytes - result.length) text.length)
  have within := Secrets.floorCharBoundary_le text
    (min (responseMaxBytes - result.length) text.length)
  have got : get text 0 (floorCharBoundary text
      (min (responseMaxBytes - result.length) text.length)) = some (text.take (floorCharBoundary
      text (min (responseMaxBytes - result.length) text.length))) := by
    refine if_pos ⟨Nat.zero_le _, rfl, ?_⟩
    exact Secrets.floorCharBoundary_boundary text _
  obtain ⟨more, spelled⟩ := get_valid valid got
  obtain ⟨chars, rfl⟩ := before
  simp only [appendBounded, got, Option.getD_some, decide_eq_true_eq, List.length_append]
  refine ⟨_, within, rfl, Iff.rfl, ?_, chars ++ more, ?_⟩
  · rw [List.length_take_of_le within]
    omega
  · rw [Utf8.encode_append, ← spelled]

/-! ## Pieces -/

inductive Piece where
  | plain (start stop : Nat)
  | marker

def Piece.bytes (text : Bytes) : Piece → Bytes
  | .plain start stop => (text.take stop).drop start
  | .marker => mask

/-- From `cursor` on, and clear of what is covered. -/
def Piece.Clear (covered : Nat → Prop) (cursor : Nat) : Piece → Prop
  | .plain start stop => cursor ≤ start ∧ ∀ place, start ≤ place → place < stop → ¬ covered place
  | .marker => True

/-- The text from `cursor` on with each range masked, however long that is. -/
def whole (text : Bytes) (cursor : Nat) (ranges : List (Range Nat)) : Bytes :=
  Search.splice [mask] text cursor (ranges.map fun range => ⟨0, range.start, range.stop⟩)

theorem whole_cons (text : Bytes) (cursor : Nat) (covered : Range Nat) (rest : List (Range Nat)) :
    whole text cursor (covered :: rest) =
      (text.take covered.start).drop cursor ++ (mask ++ whole text covered.stop rest) := by
  rw [← List.append_assoc]
  rfl

theorem mask_valid : Utf8.Valid mask := ⟨_, rfl⟩

theorem get_eq {text piece : Bytes} {start stop : Nat} (got : get text start stop = some piece) :
    piece = (text.take stop).drop start := by
  unfold get at got
  split at got
  · cases got
    rfl
  · cases got

theorem piece_bytes (text : Bytes) {cursor stop size : Nat}
    (within : size ≤ ((text.take stop).drop cursor).length) :
    (Piece.plain cursor (cursor + size)).bytes text = ((text.take stop).drop cursor).take size := by
  rw [List.length_drop, List.length_take] at within
  rw [Piece.bytes, List.drop_take, List.drop_take, List.take_take, Nat.add_sub_cancel_left,
    Nat.min_eq_left (by omega)]

/-- What `out` is of a text masked from `cursor` on, after `result`. -/
structure Masks (text : Bytes) (covered : Nat → Prop) (cursor : Nat) (result full out : Bytes)
    (truncated : Bool) : Prop where
  pieces : ∃ pieces : List Piece, out = result ++ pieces.flatMap (Piece.bytes text) ∧
    ∀ piece ∈ pieces, piece.Clear covered cursor
  valid : Utf8.Valid out
  bounded : out.length ≤ responseMaxBytes
  front : out <+: result ++ full
  missing : truncated = true ↔ out ≠ result ++ full

theorem Masks.after {text result full out plain : Bytes} {covered : Range Nat}
    {rest : List (Range Nat)} {cursor : Nat} {truncated : Bool} {piece : Piece}
    (masks : Masks text (Range.Covers rest) covered.stop (result ++ plain ++ mask) full out
      truncated)
    (spelled : piece.bytes text = plain)
    (clear : piece.Clear (Range.Covers (covered :: rest)) cursor)
    (further : cursor ≤ covered.stop) :
    Masks text (Range.Covers (covered :: rest)) cursor result (plain ++ (mask ++ full)) out
      truncated where
  pieces := by
    obtain ⟨pieces, same, each⟩ := masks.pieces
    refine ⟨piece :: .marker :: pieces, ?_, ?_⟩
    · rw [same, List.flatMap_cons, List.flatMap_cons, spelled]
      simp [Piece.bytes]
    · refine List.forall_mem_cons.mpr ⟨clear, List.forall_mem_cons.mpr ⟨trivial, ?_⟩⟩
      intro other member
      have there := each other member
      cases other with
      | marker => trivial
      | plain start last =>
          refine ⟨Nat.le_trans further there.1, ?_⟩
          intro place after before held
          rcases (Range.covers_cons covered rest place).mp held with here | later
          · exact absurd here.2 (Nat.not_lt.mpr (Nat.le_trans there.1 after))
          · exact there.2 place after before later
  valid := masks.valid
  bounded := masks.bounded
  front := by
    have front := masks.front
    rwa [List.append_assoc, List.append_assoc] at front
  missing := by
    have missing := masks.missing
    rwa [List.append_assoc, List.append_assoc] at missing

theorem Masks.stopped {text result plain more out : Bytes} {covered : Nat → Prop}
    {cursor : Nat} {piece : Piece} (clear : piece.Clear covered cursor)
    (same : out = result ++ piece.bytes text) (part : piece.bytes text <+: plain)
    (some : piece.bytes text ≠ plain ++ more) (valid : Utf8.Valid out)
    (bounded : out.length ≤ responseMaxBytes) :
    Masks text covered cursor result (plain ++ more) out true where
  pieces := ⟨[piece], by simp [same], by simpa using clear⟩
  valid := valid
  bounded := bounded
  front := by
    rw [same, List.prefix_append_right_inj]
    exact part.trans (List.prefix_append _ _)
  missing := by
    rw [same]
    simpa using some

theorem maskFrom_masks {text result out : Bytes} {ranges : List (Range Nat)} {cursor : Nat}
    {truncated : Bool} (valid : Utf8.Valid text)
    (apart : ranges.Pairwise fun earlier later => earlier.stop ≤ later.start)
    (forward : ∀ range ∈ ranges, range.start ≤ range.stop)
    (behind : ∀ range ∈ ranges, cursor ≤ range.start) (short : result.length ≤ responseMaxBytes)
    (before : Utf8.Valid result) (ran : maskFrom text result cursor ranges = .ok (out, truncated)) :
    Masks text (Range.Covers ranges) cursor result (whole text cursor ranges) out truncated := by
  induction ranges generalizing result cursor with
  | nil =>
      rw [maskFrom] at ran
      cases got : get text cursor text.length with
      | none =>
          rw [got] at ran
          cases ran
      | some tail =>
          have spelled := get_eq got
          obtain ⟨size, within, appended, complete, bounded, readable⟩ :=
            appendBounded_spec short before (get_valid valid got)
          have piece : (Piece.plain cursor (cursor + size)).bytes text = tail.take size := by
            rw [spelled] at within ⊢
            exact piece_bytes text within
          have all : tail = whole text cursor [] := by
            rw [spelled, List.take_length]
            rfl
          simp only [got, Except.ok.injEq, Prod.mk.injEq] at ran
          obtain ⟨rfl, rfl⟩ := ran
          refine ⟨⟨[.plain cursor (cursor + size)], by simp [appended, piece], ?_⟩, readable,
            bounded, ?_, ?_⟩
          · intro other member
            rw [List.mem_singleton.mp member]
            exact ⟨Nat.le_refl _, fun place _ _ held => by simp [Range.Covers] at held⟩
          · rw [appended, ← all, List.prefix_append_right_inj]
            exact List.take_prefix size tail
          · rw [Bool.not_eq_true', ← Bool.not_eq_true, complete, appended, ← all]
            rw [Ne, List.append_cancel_left_eq, List.take_eq_self_iff]
            omega
  | cons covered rest ih =>
      rw [maskFrom] at ran
      obtain ⟨next, apart⟩ := List.pairwise_cons.mp apart
      obtain ⟨goes, forward⟩ := List.forall_mem_cons.mp forward
      have reached : cursor ≤ covered.start := behind covered List.mem_cons_self
      cases got : get text cursor covered.start with
      | none =>
          rw [got] at ran
          cases ran
      | some plain =>
          have spelled := get_eq got
          obtain ⟨size, within, appended, complete, bounded, readable⟩ :=
            appendBounded_spec short before (get_valid valid got)
          have piece : (Piece.plain cursor (cursor + size)).bytes text = plain.take size := by
            rw [spelled] at within ⊢
            exact piece_bytes text within
          have clear : (Piece.plain cursor (cursor + size)).Clear
              (Range.Covers (covered :: rest)) cursor := by
            refine ⟨Nat.le_refl _, ?_⟩
            intro place _ inside held
            rw [spelled, List.length_drop, List.length_take] at within
            rcases (Range.covers_cons covered rest place).mp held with here | ⟨range, member, there⟩
            · exact absurd here.1 (by omega)
            · have later := next range member
              exact absurd there.1 (by omega)
          rw [whole_cons, ← spelled]
          simp only [got] at ran
          split at ran
          · rename_i stopped
            simp only [Except.ok.injEq, Prod.mk.injEq] at ran
            obtain ⟨rfl, rfl⟩ := ran
            refine Masks.stopped clear (by rw [appended, piece]) ?_ ?_ readable bounded
            · rw [piece]
              exact List.take_prefix size plain
            · -- the marker at least is missing
              intro same
              have sized := congrArg List.length same
              have marker : 0 < mask.length := by decide
              rw [piece, List.length_append, List.length_append, List.length_take] at sized
              omega
          · rename_i going
            have room : mask.length ≤ responseMaxBytes - (appendBounded result plain).1.length
                ∧ size = plain.length := by
              rw [Bool.or_eq_true, not_or, decide_eq_true_eq, Nat.not_lt, Bool.not_eq_true',
                Bool.not_eq_false, complete] at going
              exact ⟨going.2, going.1⟩
            obtain ⟨room, full⟩ := room
            rw [full] at appended piece clear
            rw [List.take_length] at appended piece
            rw [appended] at ran room bounded readable
            have fits : (result ++ plain ++ mask).length ≤ responseMaxBytes := by
              rw [List.length_append]
              omega
            have texts : Utf8.Valid (result ++ plain ++ mask) := by
              obtain ⟨front, is⟩ := readable
              obtain ⟨back, marker⟩ := mask_valid
              exact ⟨front ++ back, by rw [is, marker, Utf8.encode_append]⟩
            have masks := ih apart forward next fits texts ran
            exact masks.after piece clear (Nat.le_trans reached goes)

theorem boundary_le {text : Bytes} {place : Nat} (here : isCharBoundary text place = true) :
    place ≤ text.length := by
  unfold isCharBoundary at here
  by_cases first : place = 0
  · rw [first]
    exact Nat.zero_le _
  · rw [if_neg first] at here
    split at here
    · rename_i byte is
      exact Nat.le_of_lt (List.getElem?_eq_some_iff.mp is).1
    · exact Nat.le_of_eq (beq_iff_eq.mp here)

theorem maskFrom_ok {text : Bytes} {ranges : List (Range Nat)} {cursor : Nat}
    (apart : ranges.Pairwise fun earlier later => earlier.stop ≤ later.start)
    (behind : ∀ range ∈ ranges, cursor ≤ range.start)
    (boundaries : ∀ range ∈ ranges, isCharBoundary text range.start = true ∧
      isCharBoundary text range.stop = true)
    (here : isCharBoundary text cursor = true) (result : Bytes) :
    ∃ out, maskFrom text result cursor ranges = .ok out := by
  induction ranges generalizing result cursor with
  | nil =>
      rw [maskFrom, get, if_pos ⟨boundary_le here, here, Secrets.length_boundary text⟩]
      exact ⟨_, rfl⟩
  | cons covered rest ih =>
      obtain ⟨next, apart⟩ := List.pairwise_cons.mp apart
      obtain ⟨⟨starts, stops⟩, others⟩ := List.forall_mem_cons.mp boundaries
      rw [maskFrom, get, if_pos ⟨behind covered List.mem_cons_self, here, starts⟩]
      dsimp only
      split
      · exact ⟨_, rfl⟩
      · exact ih apart next others stops _

/-! ## An automaton that reports -/

def endsWith (patterns : List (List Atom)) (seen : Bytes) : List Nat :=
  (List.range patterns.length).filter fun which =>
    (patterns[which]?).any fun pattern =>
      (List.range (seen.length + 1)).any fun start => reads pattern (seen.drop start)

/-- An automaton that remembers all it has read, and whether the text has ended. -/
def remembering (patterns : List (List Atom)) : Dfa (Bytes × Bool) where
  startStateForward := some ([], false)
  nextState state byte := (state.1 ++ [byte], false)
  nextEoiState state := (state.1, true)
  isMatchState state := !(endsWith patterns (if state.2 then state.1 else state.1.dropLast)).isEmpty
  matchPatterns state := endsWith patterns (if state.2 then state.1 else state.1.dropLast)

theorem mem_endsWith {values : List String} {text : Bytes} {stop which : Nat}
    (within : stop ≤ text.length) :
    which ∈ endsWith (values.map fun value => encodedPattern value.toList) (text.take stop) ↔
      ∃ value, values[which]? = some value ∧ ∃ start, Occurs value text start stop := by
  have sized : (text.take stop).length = stop := List.length_take_of_le within
  simp only [endsWith, List.mem_filter, List.mem_range, List.length_map, List.getElem?_map, sized,
    Option.any_map, Option.any_eq_true, List.any_eq_true]
  constructor
  · rintro ⟨-, value, is, start, before, matched⟩
    exact ⟨value, is, start, Nat.lt_succ_iff.mp before, within, matched⟩
  · rintro ⟨value, is, start, forward, -, matched⟩
    exact ⟨(List.getElem?_eq_some_iff.mp is).1, value, is, start, Nat.lt_succ_of_le forward,
      matched⟩

theorem remembering_tells {values : List String} {text : Bytes} {stop : Nat}
    {state : Bytes × Bool} (within : stop ≤ text.length)
    (seen : (if state.2 then state.1 else state.1.dropLast) = text.take stop) :
    Tells (remembering (values.map fun value => encodedPattern value.toList)) values text state
      stop where
  isMatch := by
    simp only [remembering, seen, Bool.not_eq_true', List.isEmpty_eq_false_iff_exists_mem,
      mem_endsWith within]
    constructor
    · rintro ⟨which, value, is, ending⟩
      exact ⟨value, List.mem_of_getElem? is, ending⟩
    · rintro ⟨value, member, ending⟩
      obtain ⟨which, is⟩ := List.mem_iff_getElem?.mp member
      exact ⟨which, value, is, ending⟩
  patterns := by
    intro _ which
    simp only [remembering, seen]
    exact mem_endsWith within

theorem remembering_foldl (patterns : List (List Atom)) (text before : Bytes) :
    text.foldl (remembering patterns).nextState (before, false) = (before ++ text, false) := by
  induction text generalizing before with
  | nil => rw [List.foldl_nil, List.append_nil]
  | cons byte text ih =>
      have step : (remembering patterns).nextState (before, false) byte
          = (before ++ [byte], false) := rfl
      rw [List.foldl_cons, step, ih, List.append_assoc, List.singleton_append]

theorem remembering_reports (values : List String) (text : Bytes) :
    Reports (remembering (values.map fun value => encodedPattern value.toList)) values text where
  starts := rfl
  delayed := by
    rintro first is before byte after whole
    cases is
    rw [remembering_foldl]
    have within : before.length ≤ text.length := by
      rw [whole, List.length_append]
      omega
    apply remembering_tells within
    rw [whole, List.take_left]
    exact List.dropLast_concat
  ends := by
    rintro first is
    cases is
    rw [remembering_foldl]
    apply remembering_tells (Nat.le_refl _)
    exact List.take_length.symm

/-! ## The mask of a response -/

/-- What is covered is what occurs, and what is left of the text is bounded, whole and
flagged when it is not all; values that are not empty are always masked. -/
theorem masks_exactly {State : Type} [DecidableEq State]
    {build : List (List Atom) → Option (Dfa State)} {values : List String}
    {matcher : Matcher State} (built : Matcher.new build values = .ok matcher) (text : String)
    (reports : Reports matcher.dfa values (bytes text)) :
    ∃ ranges, matcher.covered (bytes text) = .ok ranges ∧
      Matcher.Marks values (bytes text) ranges ∧
      (∀ out truncated, maskBounded matcher (bytes text) = .ok (out, truncated) →
        Masks (bytes text) (Taken values (bytes text)) 0 [] (whole (bytes text) 0 ranges) out
          truncated) ∧
      ((∀ value ∈ values, value ≠ "") → ∃ out, maskBounded matcher (bytes text) = .ok out) := by
  have valid : Utf8.Valid (bytes text) := ⟨text.toList, rfl⟩
  obtain ⟨ranges, covered, marks⟩ := Matcher.covered_marks (Matcher.new_for built) reports
  have begins : ∀ range ∈ ranges, 0 ≤ range.start := fun range _ => Nat.zero_le _
  have masked : maskBounded matcher (bytes text) = maskFrom (bytes text) [] 0 ranges := by
    rw [maskBounded, covered]
    rfl
  refine ⟨ranges, covered, marks, ?_, ?_⟩
  · intro out truncated ran
    have taken : Range.Covers ranges = Taken values (bytes text) :=
      funext fun place => propext (marks.covers place)
    rw [masked] at ran
    rw [← taken]
    exact maskFrom_masks valid marks.apart marks.forward begins (Nat.zero_le _) ⟨[], rfl⟩ ran
  · intro some
    rw [masked]
    refine maskFrom_ok marks.apart begins ?_ rfl []
    intro range member
    obtain ⟨⟨value, listed, last, starts⟩, other, given, first, stops⟩ :=
      marks.at_ends range member
    exact ⟨(starts.boundaries valid (some value listed)).1,
      (stops.boundaries valid (some other given)).2⟩

/-- Spellings that overlap and one within another. -/
theorem masks_exactly_overlapping :
    let values := ["abc", "b", "cd"]
    let matcher : Matcher (Bytes × Bool) :=
      ⟨remembering (values.map fun value => encodedPattern value.toList), [3, 1, 2]⟩
    ∃ ranges, matcher.covered (bytes "xabcdy") = .ok ranges ∧
      Matcher.Marks values (bytes "xabcdy") ranges ∧
      (∀ out truncated, maskBounded matcher (bytes "xabcdy") = .ok (out, truncated) →
        Masks (bytes "xabcdy") (Taken values (bytes "xabcdy")) 0 []
          (whole (bytes "xabcdy") 0 ranges) out truncated) ∧
      ∃ out, maskBounded matcher (bytes "xabcdy") = .ok out := by
  intro values matcher
  have built : Matcher.new (fun patterns => some (remembering patterns)) values = .ok matcher := by
    rfl
  obtain ⟨ranges, covered, marks, masks, unfailing⟩ :=
    masks_exactly built "xabcdy" (remembering_reports values (bytes "xabcdy"))
  exact ⟨ranges, covered, marks, masks, unfailing (by decide)⟩

end Agentsfleet.Egress.Mask
