import Mathlib.Algebra.Group.Nat.Defs
import Mathlib.Data.List.Basic

/-!
# UTF-8 text

Text as its characters, measured in the bytes they encode to: prefixes and
suffixes cut on character boundaries, lines counted and taken from either end.
-/

set_option autoImplicit false

namespace Agentsfleet.Library.Text

def bytes : List Char → Nat
  | [] => 0
  | c :: rest => c.utf8Size + bytes rest

theorem bytes_append (front back : List Char) :
    bytes (front ++ back) = bytes front + bytes back := by
  induction front with
  | nil => simp [bytes]
  | cons c front ih => simp only [List.cons_append, bytes, ih, Nat.add_assoc]

theorem utf8ByteSize_ofList (text : List Char) :
    (String.ofList text).utf8ByteSize = bytes text := by
  induction text with
  | nil => rfl
  | cons c rest ih =>
      have joined : String.ofList (c :: rest) = String.singleton c ++ String.ofList rest := by
        rw [String.singleton_eq_ofList, ← String.ofList_append, List.singleton_append]
      rw [joined, String.utf8ByteSize_append, String.utf8ByteSize_singleton, ih, bytes]

theorem utf8ByteSize_eq (text : String) : text.utf8ByteSize = bytes text.toList := by
  rw [← utf8ByteSize_ofList, String.ofList_toList]

theorem bytes_of_ascii {text : List Char} (ascii : ∀ c ∈ text, c.utf8Size = 1) :
    bytes text = text.length := by
  induction text with
  | nil => rfl
  | cons c rest ih =>
      obtain ⟨here, others⟩ := List.forall_mem_cons.mp ascii
      rw [bytes, here, ih others, List.length_cons, Nat.add_comm]

/-! ## Cuts on a character boundary -/

/-- What stands before the last boundary at most `limit` bytes in. -/
def floor : Nat → List Char → List Char
  | _, [] => []
  | limit, c :: rest =>
      if c.utf8Size ≤ limit then c :: floor (limit - c.utf8Size) rest else []

/-- What stands after the first boundary at least `cut` bytes in. -/
def ceil : Nat → List Char → List Char
  | _, [] => []
  | 0, text => text
  | cut + 1, c :: rest => ceil (cut + 1 - c.utf8Size) rest

theorem floor_prefix (limit : Nat) (text : List Char) : floor limit text <+: text := by
  induction text generalizing limit with
  | nil => exact List.nil_prefix
  | cons c rest ih =>
      rw [floor]
      by_cases fits : c.utf8Size ≤ limit
      · rw [if_pos fits]
        exact (List.prefix_cons_inj c).mpr (ih _)
      · rw [if_neg fits]
        exact List.nil_prefix

theorem bytes_floor_le (limit : Nat) (text : List Char) : bytes (floor limit text) ≤ limit := by
  induction text generalizing limit with
  | nil => exact Nat.zero_le _
  | cons c rest ih =>
      rw [floor]
      by_cases fits : c.utf8Size ≤ limit
      · rw [if_pos fits, bytes]
        have others := ih (limit - c.utf8Size)
        omega
      · rw [if_neg fits]
        exact Nat.zero_le _

theorem ceil_suffix (cut : Nat) (text : List Char) : ceil cut text <:+ text := by
  induction text generalizing cut with
  | nil => cases cut <;> exact List.suffix_rfl
  | cons c rest ih =>
      cases cut with
      | zero => exact List.suffix_rfl
      | succ cut => exact (ih _).trans (List.suffix_cons c rest)

theorem bytes_ceil_le (cut : Nat) (text : List Char) :
    bytes (ceil cut text) ≤ bytes text - cut := by
  induction text generalizing cut with
  | nil => cases cut <;> exact Nat.zero_le _
  | cons c rest ih =>
      cases cut with
      | zero => exact Nat.le_refl _
      | succ cut =>
          have others := ih (cut + 1 - c.utf8Size)
          have wide := c.utf8Size_pos
          rw [ceil, bytes]
          omega

theorem bytes_prefix_le {front text : List Char} (cut : front <+: text) :
    bytes front ≤ bytes text := by
  obtain ⟨rest, rfl⟩ := cut
  rw [bytes_append]
  exact Nat.le_add_right _ _

/-- A text cut `at_` bytes in, where that is between two characters. -/
def cutAt : Nat → List Char → Option (List Char × List Char)
  | 0, text => some ([], text)
  | _ + 1, [] => none
  | at_ + 1, c :: rest =>
      if c.utf8Size ≤ at_ + 1 then
        (cutAt (at_ + 1 - c.utf8Size) rest).map fun cut => (c :: cut.1, cut.2)
      else none

theorem cutAt_append (front back : List Char) :
    cutAt (bytes front) (front ++ back) = some (front, back) := by
  induction front with
  | nil => cases back <;> rfl
  | cons c rest ih =>
      have wide := c.utf8Size_pos
      obtain ⟨less, size⟩ : ∃ less, c.utf8Size + bytes rest = less + 1 :=
        ⟨c.utf8Size + bytes rest - 1, by omega⟩
      rw [bytes, size, List.cons_append, cutAt, if_pos (by omega), ← size,
        Nat.add_sub_cancel_left, ih]
      rfl

theorem cutAt_spec {at_ : Nat} {text front back : List Char}
    (cut : cutAt at_ text = some (front, back)) : text = front ++ back ∧ bytes front = at_ := by
  induction text generalizing at_ front with
  | nil =>
      cases at_ with
      | zero =>
          obtain ⟨rfl, rfl⟩ := Prod.mk.inj (Option.some.inj cut)
          exact ⟨rfl, rfl⟩
      | succ at_ => nomatch cut
  | cons c rest ih =>
      cases at_ with
      | zero =>
          obtain ⟨rfl, rfl⟩ := Prod.mk.inj (Option.some.inj cut)
          exact ⟨rfl, rfl⟩
      | succ at_ =>
          rw [cutAt] at cut
          by_cases fits : c.utf8Size ≤ at_ + 1
          · rw [if_pos fits] at cut
            obtain ⟨⟨first, last⟩, inner, same⟩ := Option.map_eq_some_iff.mp cut
            obtain ⟨rfl, rfl⟩ := Prod.mk.inj same
            obtain ⟨rfl, size⟩ := ih inner
            refine ⟨rfl, ?_⟩
            rw [bytes, size]
            omega
          · rw [if_neg fits] at cut
            nomatch cut

/-! ## Lines -/

def splitInclusive : List Char → List (List Char)
  | [] => []
  | c :: rest =>
      if c = '\n' then [c] :: splitInclusive rest
      else
        match splitInclusive rest with
        | [] => [[c]]
        | line :: lines => (c :: line) :: lines

/-- How many lines a text has: a last one need not end in a newline. -/
def lines (text : List Char) : Nat := (splitInclusive text).length

theorem lines_newline (rest : List Char) : lines ('\n' :: rest) = lines rest + 1 := by
  rw [lines, splitInclusive, if_pos rfl, List.length_cons, lines]

theorem lines_cons {c : Char} (inside : c ≠ '\n') (rest : List Char) :
    lines (c :: rest) = max 1 (lines rest) := by
  rw [lines, splitInclusive, if_neg inside]
  cases split : splitInclusive rest with
  | nil => simp [lines, split]
  | cons line lines => simp [Text.lines, split]

theorem lines_cons_le (c : Char) (rest : List Char) : lines (c :: rest) ≤ lines rest + 1 := by
  by_cases newline : c = '\n'
  · subst newline
    exact Nat.le_of_eq (lines_newline rest)
  · rw [lines_cons newline]
    omega

theorem lines_le_cons (c : Char) (rest : List Char) : lines rest ≤ lines (c :: rest) := by
  by_cases newline : c = '\n'
  · rw [newline, lines_newline]
    exact Nat.le_succ _
  · rw [lines_cons newline]
    exact Nat.le_max_right _ _

theorem lines_suffix_le {back text : List Char} (cut : back <:+ text) :
    lines back ≤ lines text := by
  obtain ⟨front, rfl⟩ := cut
  induction front with
  | nil => exact Nat.le_refl _
  | cons c front ih => exact Nat.le_trans ih (lines_le_cons c (front ++ back))

theorem lines_prefix_le {front text : List Char} (cut : front <+: text) :
    lines front ≤ lines text := by
  obtain ⟨back, rfl⟩ := cut
  induction front with
  | nil => exact Nat.zero_le _
  | cons c front ih =>
      rw [List.cons_append]
      by_cases newline : c = '\n'
      · rw [newline, lines_newline, lines_newline]
        omega
      · rw [lines_cons newline, lines_cons newline]
        omega

theorem lines_take_le (count : Nat) (text : List Char) :
    lines ((splitInclusive text).take count).flatten ≤ count := by
  induction text generalizing count with
  | nil =>
      rw [splitInclusive, List.take_nil]
      exact Nat.zero_le _
  | cons c rest ih =>
      cases count with
      | zero => exact Nat.zero_le _
      | succ count =>
          rw [splitInclusive]
          by_cases newline : c = '\n'
          · rw [if_pos newline, newline, List.take_succ_cons, List.flatten_cons,
              List.singleton_append, lines_newline]
            exact Nat.succ_le_succ (ih count)
          · rw [if_neg newline]
            have later := ih (count + 1)
            cases split : splitInclusive rest with
            | nil =>
                simp only [List.take_succ_cons, List.take_nil, List.flatten_cons, List.flatten_nil,
                  List.append_nil]
                exact Nat.le_trans (lines_cons_le c []) (Nat.succ_le_succ (Nat.zero_le _))
            | cons line lines =>
                rw [split, List.take_succ_cons, List.flatten_cons] at later
                simp only [List.take_succ_cons, List.flatten_cons, List.cons_append]
                rw [lines_cons newline]
                omega

theorem flatten_splitInclusive (text : List Char) : (splitInclusive text).flatten = text := by
  induction text with
  | nil => rfl
  | cons c rest ih =>
      rw [splitInclusive]
      by_cases newline : c = '\n'
      · rw [if_pos newline, List.flatten_cons, ih, List.singleton_append]
      · rw [if_neg newline]
        cases split : splitInclusive rest with
        | nil =>
            rw [split] at ih
            simp [← ih]
        | cons line lines =>
            rw [split, List.flatten_cons] at ih
            simp only [List.flatten_cons, List.cons_append, ih]

theorem take_splitInclusive_prefix (count : Nat) (text : List Char) :
    ((splitInclusive text).take count).flatten <+: text := by
  have whole := flatten_splitInclusive text
  rw [← List.take_append_drop count (splitInclusive text), List.flatten_append] at whole
  exact ⟨_, whole⟩

/-- What stands before the newline with `more` before it, or everything. -/
def untilNewline : Nat → List Char → List Char
  | _, [] => []
  | 0, c :: rest => if c = '\n' then [] else c :: untilNewline 0 rest
  | more + 1, c :: rest =>
      c :: untilNewline (if c = '\n' then more else more + 1) rest

theorem untilNewline_prefix (more : Nat) (text : List Char) : untilNewline more text <+: text := by
  induction text generalizing more with
  | nil => cases more <;> exact List.nil_prefix
  | cons c rest ih =>
      cases more with
      | zero =>
          rw [untilNewline]
          by_cases newline : c = '\n'
          · rw [if_pos newline]
            exact List.nil_prefix
          · rw [if_neg newline]
            exact (List.prefix_cons_inj c).mpr (ih 0)
      | succ more => exact (List.prefix_cons_inj c).mpr (ih _)

theorem count_untilNewline (more : Nat) (text : List Char) :
    (untilNewline more text).count '\n' ≤ more := by
  induction text generalizing more with
  | nil => cases more <;> exact Nat.zero_le _
  | cons c rest ih =>
      by_cases newline : c = '\n'
      · cases more with
        | zero =>
            rw [untilNewline, if_pos newline]
            exact Nat.le_refl _
        | succ more =>
            have later := ih more
            rw [untilNewline, if_pos newline, newline, List.count_cons_self]
            omega
      · cases more with
        | zero =>
            rw [untilNewline, if_neg newline, List.count_cons_of_ne newline]
            exact ih 0
        | succ more =>
            rw [untilNewline, if_neg newline, List.count_cons_of_ne newline]
            exact ih (more + 1)

theorem lines_le_count (text : List Char) : lines text ≤ text.count '\n' + 1 := by
  induction text with
  | nil => exact Nat.zero_le _
  | cons c rest ih =>
      by_cases newline : c = '\n'
      · rw [newline, lines_newline, List.count_cons_self]
        exact Nat.succ_le_succ ih
      · rw [lines_cons newline, List.count_cons_of_ne newline]
        omega

theorem lines_ended (text : List Char) : lines (text ++ ['\n']) = text.count '\n' + 1 := by
  induction text with
  | nil => rfl
  | cons c rest ih =>
      rw [List.cons_append]
      by_cases newline : c = '\n'
      · rw [newline, lines_newline, ih, List.count_cons_self]
      · rw [lines_cons newline, ih, List.count_cons_of_ne newline]
        omega

/-! ## Decimal digits -/

theorem isDigit_utf8Size {c : Char} (digit : c.isDigit = true) : c.utf8Size = 1 := by
  rw [Char.isDigit, Bool.and_eq_true, decide_eq_true_eq, decide_eq_true_eq] at digit
  have low : c.val ≤ 0x7f := UInt32.le_trans digit.2 (by decide)
  exact if_pos low

theorem repr_isDigit {n : Nat} {c : Char} (member : c ∈ (Nat.repr n).toList) :
    c.isDigit = true := by
  rw [Nat.toList_repr] at member
  exact Nat.isDigit_of_mem_toDigits (by decide) (by decide) member

theorem utf8ByteSize_repr (n : Nat) : (Nat.repr n).utf8ByteSize = (Nat.toDigits 10 n).length := by
  rw [utf8ByteSize_eq, bytes_of_ascii fun c member => isDigit_utf8Size (repr_isDigit member),
    Nat.toList_repr]

theorem utf8ByteSize_repr_le {n digits : Nat} (some_digit : 0 < digits) :
    (Nat.repr n).utf8ByteSize ≤ digits ↔ n < 10 ^ digits := by
  rw [utf8ByteSize_repr]
  exact Nat.length_toDigits_le_iff (by decide) some_digit

end Agentsfleet.Library.Text
