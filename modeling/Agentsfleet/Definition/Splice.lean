import Agentsfleet.Library.Text
import Mathlib.Data.List.Perm.Basic
import Mathlib.Data.List.Sort

/-!
# Instruction ranges

A batch's byte ranges against a definition's instructions: sorted, checked and
spliced in one pass.  Beside the pass stands what it is for, every range
replaced at once, which no order of the ranges changes.
-/

set_option autoImplicit false

namespace Agentsfleet.Definition

open Agentsfleet.Library

inductive Error where
  /-- A refused document or edit, by its reason. -/
  | invalid (reason : String)
  /-- A bound that a value breaks. -/
  | report
  /-- A document of another shape. -/
  | shape
  | missing (field : String)
  | invalidBudget (field reason : String)
  | runtimeBlockRequired
  /-- Another rule of the fleet's configuration. -/
  | rule (reason : String)
deriving DecidableEq

inductive Stop where
  | refused (error : Error)
  | panic
deriving DecidableEq

abbrev Result (α : Type) := Except Error α

abbrev Answer (α : Type) := Except Stop α

def invalid {α : Type} (reason : String) : Result α := .error (.invalid reason)

def lift {α : Type} : Result α → Answer α
  | .error error => .error (.refused error)
  | .ok value => .ok value

/-- A UTF-8 byte range against the exact base instructions. -/
structure InstructionEdit where
  startByte : Nat
  endByte : Nat
  text : String
deriving DecidableEq

def maxInstructionsChars : Nat := 32 * 1024

def reasonRanges : String :=
  "instruction ranges must be valid non-overlapping UTF-8 boundaries"

def isCharBoundary (base : List Char) (at_ : Nat) : Bool := (Text.cutAt at_ base).isSome

/-- `&base[from..to]`, which panics off a boundary. -/
def slice (base : List Char) (from_ to_ : Nat) : Answer (List Char) :=
  if to_ < from_ then .error .panic
  else
    match Text.cutAt from_ base with
    | none => .error .panic
    | some (_, back) =>
        match Text.cutAt (to_ - from_) back with
        | none => .error .panic
        | some (found, _) => .ok found

/-- `&base[from..]`. -/
def sliceFrom (base : List Char) (from_ : Nat) : Answer (List Char) :=
  match Text.cutAt from_ base with
  | none => .error .panic
  | some (_, back) => .ok back

/-- `document::bounded_chars`. -/
def boundedChars (text : List Char) (maximum : Nat) : Result Unit :=
  if text.length ≤ maximum then .ok () else .error .report

def spliceRanges (base : List Char) : List InstructionEdit → Nat → List Char → Option Nat →
    Answer (Nat × List Char)
  | [], end_, output, _ => .ok (end_, output)
  | range :: rest, end_, output, previous =>
      if range.startByte < end_ ∨ range.endByte < range.startByte ∨
          isCharBoundary base range.startByte = false ∨
          isCharBoundary base range.endByte = false ∨ previous = some range.startByte then
        lift (invalid reasonRanges)
      else
        match slice base end_ range.startByte with
        | .error stop => .error stop
        | .ok kept =>
            spliceRanges base rest range.endByte (output ++ kept ++ range.text.toList)
              (some range.startByte)

def InstructionEdit.before (a b : InstructionEdit) : Bool :=
  decide (a.startByte < b.startByte ∨ a.startByte = b.startByte ∧ a.endByte ≤ b.endByte)

def instructions (base : List Char) (edits : List InstructionEdit) : Answer (List Char) :=
  match spliceRanges base (edits.mergeSort InstructionEdit.before) 0 [] none with
  | .error stop => .error stop
  | .ok (end_, output) =>
      match sliceFrom base end_ with
      | .error stop => .error stop
      | .ok rest =>
          match boundedChars (output ++ rest) maxInstructionsChars with
          | .error error => .error (.refused error)
          | .ok () => .ok (output ++ rest)

/-! ## Replacing every range at once -/

def inserted (edits : List InstructionEdit) (at_ : Nat) : List Char :=
  (edits.filter fun edit => decide (edit.startByte = at_)).flatMap fun edit => edit.text.toList

/-- Whether the character at an offset is in a replaced range. -/
def covered (edits : List InstructionEdit) (at_ : Nat) : Bool :=
  edits.any fun edit => decide (edit.startByte ≤ at_ ∧ at_ < edit.endByte)

def replaced (edits : List InstructionEdit) : Nat → List Char → List Char
  | at_, [] => inserted edits at_
  | at_, c :: rest =>
      inserted edits at_ ++
        if covered edits at_ then replaced edits (at_ + c.utf8Size) rest
        else c :: replaced edits (at_ + c.utf8Size) rest

def InstructionEdit.Fits (base : List Char) (edit : InstructionEdit) : Prop :=
  edit.startByte ≤ edit.endByte ∧ isCharBoundary base edit.startByte = true ∧
    isCharBoundary base edit.endByte = true

def InstructionEdit.Apart (a b : InstructionEdit) : Prop :=
  (a.endByte ≤ b.startByte ∨ b.endByte ≤ a.startByte) ∧ a.startByte ≠ b.startByte

def Acceptable (base : List Char) (edits : List InstructionEdit) : Prop :=
  (∀ edit ∈ edits, edit.Fits base) ∧ edits.Pairwise InstructionEdit.Apart

theorem replaced_nil (at_ : Nat) (text : List Char) : replaced [] at_ text = text := by
  induction text generalizing at_ with
  | nil => rfl
  | cons c rest ih =>
      rw [replaced, ih]
      rfl

theorem apart_symm {a b : InstructionEdit} (apart : a.Apart b) : b.Apart a :=
  ⟨apart.1.symm, apart.2.symm⟩

theorem Acceptable.perm {base : List Char} {edits others : List InstructionEdit}
    (acceptable : Acceptable base edits) (same : edits.Perm others) : Acceptable base others :=
  ⟨fun edit member => acceptable.1 edit (same.mem_iff.mpr member),
    (same.pairwise_iff fun apart => apart_symm apart).mp acceptable.2⟩

theorem starting_length {edits : List InstructionEdit}
    (apart : edits.Pairwise InstructionEdit.Apart) (at_ : Nat) :
    (edits.filter fun edit => decide (edit.startByte = at_)).length ≤ 1 := by
  induction edits with
  | nil => exact Nat.zero_le _
  | cons edit rest ih =>
      obtain ⟨others, later⟩ := List.pairwise_cons.mp apart
      rw [List.filter_cons]
      split
      · rename_i here
        have none_else : (rest.filter fun edit => decide (edit.startByte = at_)) = [] := by
          refine List.filter_eq_nil_iff.mpr fun other member starts => ?_
          exact (others other member).2 ((of_decide_eq_true here).trans
            (of_decide_eq_true starts).symm)
        rw [none_else, List.length_singleton]
      · exact ih later

theorem inserted_perm {edits others : List InstructionEdit}
    (apart : edits.Pairwise InstructionEdit.Apart) (same : edits.Perm others) (at_ : Nat) :
    inserted edits at_ = inserted others at_ := by
  have few := starting_length apart at_
  have moved := same.filter fun edit => decide (edit.startByte = at_)
  rw [inserted, inserted]
  cases here : edits.filter fun edit => decide (edit.startByte = at_) with
  | nil =>
      rw [here] at moved
      rw [List.nil_perm.mp moved]
  | cons edit rest =>
      rw [here, List.length_cons] at few
      obtain rfl : rest = [] := List.length_eq_zero_iff.mp (by omega)
      rw [here] at moved
      rw [List.singleton_perm.mp moved]

theorem replaced_perm {edits others : List InstructionEdit}
    (apart : edits.Pairwise InstructionEdit.Apart) (same : edits.Perm others) (at_ : Nat)
    (text : List Char) : replaced edits at_ text = replaced others at_ text := by
  have spans : ∀ at_, covered edits at_ = covered others at_ := fun at_ => same.any_eq
  induction text generalizing at_ with
  | nil => exact inserted_perm apart same at_
  | cons c rest ih => rw [replaced, replaced, inserted_perm apart same, spans, ih]

/-! ## The pass replaces every range at once -/

theorem boundary_split {base : List Char} {at_ : Nat} (boundary : isCharBoundary base at_ = true) :
    ∃ front back, base = front ++ back ∧ Text.bytes front = at_ := by
  obtain ⟨⟨front, back⟩, cut⟩ := Option.isSome_iff_exists.mp boundary
  exact ⟨front, back, Text.cutAt_spec cut⟩

theorem boundary_between {past back : List Char} {at_ : Nat}
    (boundary : isCharBoundary (past ++ back) at_ = true) (after : Text.bytes past ≤ at_) :
    ∃ kept rest, back = kept ++ rest ∧ Text.bytes past + Text.bytes kept = at_ := by
  obtain ⟨front, behind, split_, size⟩ := boundary_split boundary
  have reach : past <+: front := by
    refine List.prefix_of_prefix_length_le (List.prefix_append past back)
      (split_ ▸ List.prefix_append front behind) ?_
    by_contra longer
    obtain ⟨more, whole⟩ := List.prefix_of_prefix_length_le
      (split_ ▸ List.prefix_append front behind : front <+: past ++ back)
      (List.prefix_append past back) (by omega)
    have total := congrArg Text.bytes whole
    rw [Text.bytes_append] at total
    have none_more : Text.bytes more = 0 := by omega
    cases more with
    | nil =>
        rw [List.append_nil] at whole
        rw [whole] at longer
        exact longer (Nat.le_refl _)
    | cons c rest =>
        have wide := c.utf8Size_pos
        rw [Text.bytes] at none_more
        omega
  obtain ⟨kept, rfl⟩ := reach
  rw [List.append_assoc] at split_
  exact ⟨kept, behind, List.append_cancel_left split_, by rw [← size, Text.bytes_append]⟩

theorem slice_between {past kept rest : List Char} :
    slice (past ++ (kept ++ rest)) (Text.bytes past) (Text.bytes past + Text.bytes kept) =
      .ok kept := by
  rw [slice, if_neg (by omega), Text.cutAt_append]
  dsimp only
  rw [Nat.add_sub_cancel_left, Text.cutAt_append]

theorem sliceFrom_past {past rest : List Char} :
    sliceFrom (past ++ rest) (Text.bytes past) = .ok rest := by
  rw [sliceFrom, Text.cutAt_append]

theorem inserted_none {edits : List InstructionEdit} {at_ : Nat}
    (none_here : ∀ edit ∈ edits, edit.startByte ≠ at_) : inserted edits at_ = [] := by
  rw [inserted, List.filter_eq_nil_iff.mpr fun edit member here =>
    none_here edit member (of_decide_eq_true here)]
  rfl

theorem covered_later {edits : List InstructionEdit} {at_ : Nat}
    (later : ∀ edit ∈ edits, at_ < edit.startByte) : covered edits at_ = false := by
  refine List.any_eq_false.mpr fun edit member here => ?_
  have := later edit member
  have := (of_decide_eq_true here).1
  omega

theorem replaced_kept {edits : List InstructionEdit} {at_ : Nat} {kept rest : List Char}
    (later : ∀ edit ∈ edits, at_ + Text.bytes kept ≤ edit.startByte) :
    replaced edits at_ (kept ++ rest) = kept ++ replaced edits (at_ + Text.bytes kept) rest := by
  induction kept generalizing at_ with
  | nil => rfl
  | cons c kept ih =>
      have wide := c.utf8Size_pos
      rw [Text.bytes] at later
      have past : ∀ edit ∈ edits, at_ < edit.startByte := fun edit member => by
        have := later edit member
        omega
      rw [List.cons_append, replaced, inserted_none fun edit member same => by
          have := past edit member
          omega,
        covered_later past, if_neg Bool.false_ne_true, List.nil_append,
        ih fun edit member => by
          have := later edit member
          omega,
        Text.bytes, Nat.add_assoc]
      rfl

theorem replaced_past {edit : InstructionEdit} {edits : List InstructionEdit} {at_ : Nat}
    {text : List Char} (started : edit.startByte < at_) (ended : edit.endByte ≤ at_) :
    replaced (edit :: edits) at_ text = replaced edits at_ text := by
  have put : ∀ at_, edit.startByte < at_ → inserted (edit :: edits) at_ = inserted edits at_ := by
    intro at_ before
    rw [inserted, List.filter_cons_of_neg (by
      rw [decide_eq_true_eq]
      omega)]
    rfl
  have spans : ∀ at_, edit.endByte ≤ at_ → covered (edit :: edits) at_ = covered edits at_ := by
    intro at_ before
    rw [covered, List.any_cons, decide_eq_false (by omega), Bool.false_or]
    rfl
  induction text generalizing at_ with
  | nil => exact put at_ started
  | cons c rest ih =>
      rw [replaced, replaced, put at_ started, spans at_ ended, ih (by omega) (by omega)]

theorem replaced_inside {edit : InstructionEdit} {edits : List InstructionEdit} {at_ : Nat}
    {mid rest : List Char} (started : edit.startByte < at_)
    (ends : at_ + Text.bytes mid = edit.endByte)
    (later : ∀ other ∈ edits, edit.endByte ≤ other.startByte) :
    replaced (edit :: edits) at_ (mid ++ rest) = replaced edits edit.endByte rest := by
  induction mid generalizing at_ with
  | nil =>
      rw [Text.bytes, Nat.add_zero] at ends
      rw [List.nil_append, replaced_past started ends.ge, ends]
  | cons c mid ih =>
      have wide := c.utf8Size_pos
      rw [Text.bytes] at ends
      have none_here : inserted (edit :: edits) at_ = [] :=
        inserted_none fun other member same => by
          rcases List.mem_cons.mp member with rfl | member
          · omega
          · have := later other member
            omega
      have spans : covered (edit :: edits) at_ = true := by
        rw [covered, List.any_cons, decide_eq_true (by omega), Bool.true_or]
      rw [List.cons_append, replaced, none_here, spans, if_pos rfl, List.nil_append,
        ih (by omega) (by omega)]

theorem replaced_range {edit : InstructionEdit} {edits : List InstructionEdit}
    {mid rest : List Char} (ends : edit.startByte + Text.bytes mid = edit.endByte)
    (later : ∀ other ∈ edits, edit.endByte ≤ other.startByte ∧ edit.startByte ≠ other.startByte) :
    replaced (edit :: edits) edit.startByte (mid ++ rest) =
      edit.text.toList ++ replaced edits edit.endByte rest := by
  have put : inserted (edit :: edits) edit.startByte =
      edit.text.toList ++ inserted edits edit.startByte := by
    rw [inserted, List.filter_cons, if_pos (decide_eq_true rfl), List.flatMap_cons]
    rfl
  cases mid with
  | nil =>
      -- An empty range: what is put in goes before the character that stands there.
      rw [Text.bytes, Nat.add_zero] at ends
      have spans : covered (edit :: edits) edit.startByte = covered edits edit.startByte := by
        rw [covered, List.any_cons, decide_eq_false (by omega), Bool.false_or]
        rfl
      rw [List.nil_append, ← ends]
      cases rest with
      | nil => exact put
      | cons c rest =>
          have wide := c.utf8Size_pos
          rw [replaced, replaced, put, spans, replaced_past (by omega) (by omega),
            List.append_assoc]
  | cons c mid =>
      have wide := c.utf8Size_pos
      rw [Text.bytes] at ends
      have none_else : inserted edits edit.startByte = [] :=
        inserted_none fun other member => (later other member).2.symm
      have spans : covered (edit :: edits) edit.startByte = true := by
        rw [covered, List.any_cons, decide_eq_true (by omega), Bool.true_or]
      rw [List.cons_append, replaced, put, none_else, spans, if_pos rfl, List.append_nil,
        replaced_inside (by omega) (by omega) fun other member => (later other member).1]

def Left (base : List Char) (end_ : Nat) (previous : Option Nat)
    (ranges : List InstructionEdit) : Prop :=
  (∀ range ∈ ranges, range.Fits base ∧ end_ ≤ range.startByte ∧
    previous ≠ some range.startByte) ∧ ranges.Pairwise InstructionEdit.Apart

theorem left_cons {base : List Char} {end_ : Nat} {previous : Option Nat}
    {range : InstructionEdit} {rest : List InstructionEdit}
    (sorted : ∀ other ∈ rest, range.startByte ≤ other.startByte)
    (taken : ∀ start, previous = some start → start ≤ end_) :
    Left base end_ previous (range :: rest) ↔
      (range.Fits base ∧ end_ ≤ range.startByte ∧ previous ≠ some range.startByte) ∧
        Left base range.endByte (some range.startByte) rest := by
  rw [Left, Left, List.forall_mem_cons, List.pairwise_cons]
  constructor
  · rintro ⟨⟨head, others⟩, apart, later⟩
    refine ⟨head, fun other member => ⟨(others other member).1, ?_, ?_⟩, later⟩
    · obtain ⟨disjoint, starts⟩ := apart other member
      have order := sorted other member
      have fits := (others other member).1.1
      omega
    · exact fun same => (apart other member).2 (Option.some.inj same)
  · rintro ⟨head, others, later⟩
    obtain ⟨fits, after, fresh⟩ := head
    refine ⟨⟨⟨fits, after, fresh⟩, fun other member => ⟨(others other member).1, ?_, ?_⟩⟩,
      fun other member => ⟨.inl (others other member).2.1, ?_⟩, later⟩
    · exact after.trans (sorted other member)
    · intro same
      have low := taken _ same
      have past := (others other member).2.1
      have order := fits.1
      have equal : range.startByte = other.startByte := by omega
      exact (others other member).2.2 (congrArg some equal)
    · exact fun same => (others other member).2.2 (congrArg some same)

/-- What the pass answers from one of its turns, with `past` of the text behind it. -/
def Passes (past back output : List Char) (previous : Option Nat)
    (ranges : List InstructionEdit) : Prop :=
  (Left (past ++ back) (Text.bytes past) previous ranges ∧
    ∃ front behind more, past ++ back = front ++ behind ∧
      spliceRanges (past ++ back) ranges (Text.bytes past) output previous =
        .ok (Text.bytes front, output ++ more) ∧
      more ++ behind = replaced ranges (Text.bytes past) back) ∨
  ¬ Left (past ++ back) (Text.bytes past) previous ranges ∧
    spliceRanges (past ++ back) ranges (Text.bytes past) output previous =
      lift (invalid reasonRanges)

theorem spliceRanges_spec {ranges : List InstructionEdit} {past back output : List Char}
    {previous : Option Nat} (sorted : ranges.Pairwise fun a b => a.startByte ≤ b.startByte)
    (taken : ∀ start, previous = some start → start ≤ Text.bytes past) :
    Passes past back output previous ranges := by
  induction ranges generalizing past back output previous with
  | nil =>
      refine .inl ⟨⟨fun _ member => (nomatch member), List.Pairwise.nil⟩, past, back, [], rfl,
        ?_, ?_⟩
      · rw [spliceRanges, List.append_nil]
      · rw [replaced_nil, List.nil_append]
  | cons range rest ih =>
      obtain ⟨first, later⟩ := List.pairwise_cons.mp sorted
      rw [Passes, left_cons first taken, spliceRanges]
      by_cases head : range.Fits (past ++ back) ∧ Text.bytes past ≤ range.startByte ∧
          previous ≠ some range.startByte
      · obtain ⟨⟨order, opens, closes⟩, after, fresh⟩ := head
        rw [if_neg (by
          rintro (early | crossed | off | off | again)
          · omega
          · omega
          · rw [opens] at off
            nomatch off
          · rw [closes] at off
            nomatch off
          · exact fresh again)]
        obtain ⟨kept, behind, rfl, place⟩ := boundary_between opens after
        have closes_ : isCharBoundary ((past ++ kept) ++ behind) range.endByte = true := by
          rw [List.append_assoc]
          exact closes
        have reaches : Text.bytes (past ++ kept) ≤ range.endByte := by
          rw [Text.bytes_append]
          omega
        obtain ⟨mid, rest_, rfl, stop⟩ := boundary_between closes_ reaches
        rw [Text.bytes_append] at stop
        have sliced : slice (past ++ (kept ++ (mid ++ rest_))) (Text.bytes past) range.startByte =
            .ok kept := place ▸ slice_between
        rw [sliced]
        dsimp only
        have regroup : past ++ (kept ++ (mid ++ rest_)) = (past ++ kept ++ mid) ++ rest_ := by
          simp only [List.append_assoc]
        have reached : Text.bytes (past ++ kept ++ mid) = range.endByte := by
          rw [Text.bytes_append, Text.bytes_append, stop]
        rw [regroup, ← reached]
        have rest_taken : ∀ start, some range.startByte = some start →
            start ≤ Text.bytes (past ++ kept ++ mid) := by
          intro start same
          rw [← Option.some.inj same, reached]
          exact order
        have next : Passes (past ++ kept ++ mid) rest_ (output ++ kept ++ range.text.toList)
            (some range.startByte) rest := ih later rest_taken
        rcases next with ⟨left, front, behind, more, whole, runs, same⟩ | ⟨none_left, refused⟩
        · refine .inl ⟨⟨⟨⟨order, regroup ▸ opens, regroup ▸ closes⟩, after, fresh⟩, left⟩,
            front, behind, kept ++ range.text.toList ++ more, whole, ?_, ?_⟩
          · rw [runs]
            simp only [List.append_assoc]
          · have starts : ∀ other ∈ rest, range.endByte ≤ other.startByte ∧
                range.startByte ≠ other.startByte := fun other member =>
              ⟨reached ▸ (left.1 other member).2.1,
                fun equal => (left.1 other member).2.2 (congrArg some equal)⟩
            have ahead : ∀ other ∈ range :: rest,
                Text.bytes past + Text.bytes kept ≤ other.startByte := by
              intro other member
              rcases List.mem_cons.mp member with rfl | member
              · omega
              · have := (starts other member).1
                omega
            have kept_ : replaced (range :: rest) (Text.bytes past) (kept ++ (mid ++ rest_)) =
                kept ++ replaced (range :: rest) (Text.bytes past + Text.bytes kept)
                  (mid ++ rest_) := replaced_kept ahead
            rw [kept_, place, replaced_range (by omega) starts, ← reached, ← same]
            simp only [List.append_assoc]
        · exact .inr ⟨fun held => none_left held.2, refused⟩
      · refine .inr ⟨fun held => head held.1, ?_⟩
        rw [if_pos]
        by_contra passes
        simp only [not_or, Bool.not_eq_false, Nat.not_lt] at passes
        obtain ⟨after, order, opens, closes, fresh⟩ := passes
        exact head ⟨⟨order, opens, closes⟩, after, fresh⟩

theorem before_trans (a b c : InstructionEdit) (first : a.before b = true)
    (second : b.before c = true) : a.before c = true := by
  simp only [InstructionEdit.before, decide_eq_true_eq] at *
  omega

theorem before_total (a b : InstructionEdit) : (a.before b || b.before a) = true := by
  simp only [InstructionEdit.before, Bool.or_eq_true, decide_eq_true_eq]
  omega

theorem left_start {base : List Char} {ranges : List InstructionEdit} :
    Left base 0 none ranges ↔ Acceptable base ranges := by
  rw [Left, Acceptable]
  constructor
  · exact fun held => ⟨fun range member => (held.1 range member).1, held.2⟩
  · exact fun held => ⟨fun range member => ⟨held.1 range member, Nat.zero_le _, nofun⟩, held.2⟩

theorem instructions_spec (base : List Char) (edits : List InstructionEdit) :
    Acceptable base edits ∧
        (instructions base edits = .ok (replaced edits 0 base) ∧
            (replaced edits 0 base).length ≤ maxInstructionsChars ∨
          instructions base edits = .error (.refused .report) ∧
            maxInstructionsChars < (replaced edits 0 base).length) ∨
      ¬ Acceptable base edits ∧ instructions base edits = lift (invalid reasonRanges) := by
  have perm := List.mergeSort_perm edits InstructionEdit.before
  have sorted : (edits.mergeSort InstructionEdit.before).Pairwise
      fun a b => a.startByte ≤ b.startByte := by
    refine (List.pairwise_mergeSort before_trans before_total edits).imp fun before => ?_
    simp only [InstructionEdit.before, decide_eq_true_eq] at before
    omega
  have acceptable_iff : Acceptable base (edits.mergeSort InstructionEdit.before) ↔
      Acceptable base edits := ⟨fun held => held.perm perm, fun held => held.perm perm.symm⟩
  rw [instructions]
  have pass : Passes [] base [] none (edits.mergeSort InstructionEdit.before) :=
    spliceRanges_spec sorted nofun
  rcases pass with ⟨left, front, behind, more, whole, runs, same⟩ | ⟨none_left, refused⟩
  · rw [List.nil_append] at left whole runs
    have acceptable := left_start.mp left
    rw [Text.bytes, replaced_perm acceptable.2 perm] at same
    rw [Text.bytes, List.nil_append] at runs
    rw [runs]
    dsimp only
    rw [whole, sliceFrom_past, ← whole]
    dsimp only
    rw [same, boundedChars]
    refine .inl ⟨acceptable_iff.mp acceptable, ?_⟩
    by_cases fits : (replaced edits 0 base).length ≤ maxInstructionsChars
    · rw [if_pos fits]
      exact .inl ⟨rfl, fits⟩
    · rw [if_neg fits]
      exact .inr ⟨rfl, Nat.not_le.mp fits⟩
  · rw [List.nil_append, Text.bytes] at none_left refused
    refine .inr ⟨fun acceptable => none_left (left_start.mpr (acceptable_iff.mpr acceptable)), ?_⟩
    rw [refused]
    rfl

theorem instructions_no_panic (base : List Char) (edits : List InstructionEdit) :
    instructions base edits ≠ .error .panic := by
  rcases instructions_spec base edits with ⟨_, ⟨answer, _⟩ | ⟨answer, _⟩⟩ | ⟨_, answer⟩
  all_goals rw [answer]
  · exact fun panics => nomatch panics
  · exact fun panics => nomatch panics
  · exact fun panics => nomatch panics

theorem instructions_perm (base : List Char) {edits others : List InstructionEdit}
    (same : edits.Perm others) : instructions base edits = instructions base others := by
  rcases instructions_spec base edits with ⟨acceptable, first⟩ | ⟨refused, first⟩
  · have text := replaced_perm acceptable.2 same 0 base
    rcases instructions_spec base others with ⟨_, second⟩ | ⟨refused, _⟩
    · rw [text] at first
      rcases first with ⟨one, fits⟩ | ⟨one, past⟩
      · rcases second with ⟨two, _⟩ | ⟨_, past⟩
        · exact one.trans two.symm
        · omega
      · rcases second with ⟨_, fits⟩ | ⟨two, _⟩
        · omega
        · exact one.trans two.symm
    · exact absurd (acceptable.perm same) refused
  · rcases instructions_spec base others with ⟨acceptable, _⟩ | ⟨_, second⟩
    · exact absurd (acceptable.perm same.symm) refused
    · exact first.trans second.symm

end Agentsfleet.Definition
