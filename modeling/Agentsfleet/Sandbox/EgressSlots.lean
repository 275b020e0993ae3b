import Agentsfleet.Library.Numeral
import Mathlib.Data.String.Basic

/-!
# The names an egress slot goes by

Every scope on a host names its links and its table after its slot's index.
The boot sweep reads the names back, through the standard library's parser for
a byte, which takes a plus sign the writer never puts.
-/

set_option autoImplicit false

namespace Agentsfleet.Sandbox

open Agentsfleet.Library

def slots : Nat := 254
def linkPrefix : String := "afv"
/-- The sandbox-side end, named before it moves into the sandbox. -/
def peerPrefix : String := "afp"
def tablePrefix : String := "afegress"

/-! ## The parser for a byte -/

def u8Max : Nat := 255

/-- `checked_mul` on a byte. -/
def checkedMul (a b : Nat) : Option Nat := if a * b ≤ u8Max then some (a * b) else none
/-- `checked_add` on a byte. -/
def checkedAdd (a b : Nat) : Option Nat := if a + b ≤ u8Max then some (a + b) else none

def pushDigit (result : Nat) (c : Char) : Option Nat := do
  let shifted ← checkedMul result 10
  let digit ← if c.isDigit then some (Numeral.value c) else none
  checkedAdd shifted digit

/-- `u8::from_str`: one leading plus is skipped, a lone sign is no number, and a
minus is an invalid digit. -/
def parseU8 : List Char → Option Nat
  | [] => none
  | ['+'] | ['-'] => none
  | '+' :: digits => digits.foldlM pushDigit 0
  | digits => digits.foldlM pushDigit 0

/-! ## Slots -/

structure Slot where
  index : Nat
  isSlot : index < slots
deriving DecidableEq

namespace Slot

/-- The slot `index`, when there is one. -/
def new (index : Nat) : Option Slot :=
  if isSlot : index < slots then some ⟨index, isSlot⟩ else none

/-- The slot a link or table named `name` belongs to. -/
def named (name kind : String) : Option Slot := do
  let digits ← kind.toList.isPrefixOf? name.toList
  -- `afv07` is no name a slot writes
  let canonical := digits.head? ≠ some '0' ∨ digits = ['0']
  ((parseU8 digits).filter fun _ => canonical).bind new

/-- The name of `kind` the slot's index is written under. -/
def name (slot : Slot) (kind : String) : String := kind ++ Nat.repr slot.index

def link (slot : Slot) : String := slot.name linkPrefix
def peer (slot : Slot) : String := slot.name peerPrefix
def table (slot : Slot) : String := slot.name tablePrefix

end Slot

theorem pushDigit_eq_some {result n : Nat} {c : Char} :
    pushDigit result c = some n ↔
      c.isDigit = true ∧ 10 * result + Numeral.value c = n ∧ n ≤ u8Max := by
  rw [pushDigit]
  by_cases digit : c.isDigit = true
  · by_cases fits : result * 10 + Numeral.value c ≤ u8Max
    · have shifts : result * 10 ≤ u8Max := by omega
      simp only [checkedMul, checkedAdd, if_pos shifts, if_pos digit, if_pos fits,
        Option.bind_eq_bind, Option.bind_some, Option.some.injEq]
      constructor
      · rintro rfl
        exact ⟨digit, by omega, fits⟩
      · rintro ⟨-, same, -⟩
        omega
    · constructor
      · intro read
        by_cases shifts : result * 10 ≤ u8Max
        · simp [checkedMul, checkedAdd, shifts, digit, fits] at read
        · simp [checkedMul, shifts] at read
      · rintro ⟨-, rfl, small⟩
        omega
  · constructor
    · intro read
      by_cases shifts : result * 10 ≤ u8Max
      · simp [checkedMul, shifts, digit] at read
      · simp [checkedMul, shifts] at read
    · exact fun read => absurd read.1 digit

theorem foldlM_pushDigit {digits : List Char} {result n : Nat} (small : result ≤ u8Max) :
    digits.foldlM pushDigit result = some n ↔
      (∀ digit ∈ digits, digit.isDigit = true) ∧
        Nat.ofDigitChars 10 digits result = n ∧ n ≤ u8Max := by
  induction digits generalizing result with
  | nil =>
      rw [List.foldlM_nil, Nat.ofDigitChars_nil]
      constructor
      · intro read
        obtain rfl := Option.some.inj read
        exact ⟨fun _ member => absurd member List.not_mem_nil, rfl, small⟩
      · rintro ⟨-, rfl, -⟩
        rfl
  | cons c rest ih =>
      rw [List.foldlM_cons, Option.bind_eq_bind, Option.bind_eq_some_iff, Nat.ofDigitChars_cons,
        List.forall_mem_cons]
      constructor
      · rintro ⟨next, pushed, read⟩
        obtain ⟨digit, rfl, fits⟩ := pushDigit_eq_some.mp pushed
        obtain ⟨all, value, least⟩ := (ih fits).mp read
        exact ⟨⟨digit, all⟩, value, least⟩
      · rintro ⟨⟨digit, all⟩, value, least⟩
        have grown := Numeral.le_ofDigitChars rest (10 * result + Numeral.value c)
        have fits : 10 * result + Numeral.value c ≤ u8Max :=
          Nat.le_trans grown (Nat.le_trans (Nat.le_of_eq value) least)
        exact ⟨_, pushDigit_eq_some.mpr ⟨digit, rfl, fits⟩, (ih fits).mpr ⟨all, value, least⟩⟩

theorem parseU8_unsigned {c : Char} {rest : List Char} (plus : c ≠ '+') (minus : c ≠ '-') :
    parseU8 (c :: rest) = (c :: rest).foldlM pushDigit 0 := by
  rw [parseU8.eq_def]
  split
  · rename_i empty
    nomatch empty
  · rename_i signed
    exact absurd (List.cons.inj signed).1 plus
  · rename_i signed
    exact absurd (List.cons.inj signed).1 minus
  · rename_i signed
    exact absurd (List.cons.inj signed).1 plus
  · rfl

/-- What the parser reads: an optional plus, then digits, whose value is a byte. -/
theorem parseU8_eq_some {text : List Char} {n : Nat} :
    parseU8 text = some n ↔
      ∃ digits : List Char, (text = digits ∨ text = '+' :: digits) ∧ digits ≠ [] ∧
        (∀ digit ∈ digits, digit.isDigit = true) ∧ Nat.ofDigitChars 10 digits 0 = n ∧
          n ≤ u8Max := by
  have zero : 0 ≤ u8Max := Nat.zero_le _
  constructor
  · intro read
    rw [parseU8.eq_def] at read
    split at read
    · nomatch read
    · nomatch read
    · nomatch read
    · rename_i digits lone
      exact ⟨digits, .inr rfl, lone, (foldlM_pushDigit zero).mp read⟩
    · rename_i some_digit _ _ _
      exact ⟨text, .inl rfl, some_digit, (foldlM_pushDigit zero).mp read⟩
  · rintro ⟨digits, written, some_digit, all, read⟩
    have loop := (foldlM_pushDigit zero).mpr ⟨all, read⟩
    rcases written with rfl | rfl
    · have unsigned : ∀ c ∈ text, c ≠ '+' ∧ c ≠ '-' := by
        intro c member
        have digit := all c member
        constructor
        · rintro rfl
          nomatch digit
        · rintro rfl
          nomatch digit
      cases text with
      | nil => exact absurd rfl some_digit
      | cons c rest =>
          obtain ⟨plus, minus⟩ := unsigned c List.mem_cons_self
          rw [parseU8_unsigned plus minus, loop]
    · cases digits with
      | nil => exact absurd rfl some_digit
      | cons c rest => exact loop

namespace Slot

theorem new_eq_some {index : Nat} {slot : Slot} : new index = some slot ↔ index = slot.index := by
  rw [new]
  constructor
  · intro made
    split at made
    · rw [← Option.some.inj made]
    · nomatch made
  · rintro rfl
    rw [dif_pos slot.isSlot]

/-- What the reader takes for a slot's: the prefix and what parses as its index,
without a leading zero. -/
theorem named_eq_some {name kind : String} {slot : Slot} :
    named name kind = some slot ↔
      ∃ digits : List Char, name.toList = kind.toList ++ digits ∧
        (digits.head? ≠ some '0' ∨ digits = ['0']) ∧ parseU8 digits = some slot.index := by
  rw [named, Option.bind_eq_bind, Option.bind_eq_some_iff]
  constructor
  · rintro ⟨digits, stripped, read⟩
    obtain ⟨index, kept, made⟩ := Option.bind_eq_some_iff.mp read
    obtain ⟨parsed, canonical⟩ := Option.filter_eq_some_iff.mp kept
    obtain rfl := new_eq_some.mp made
    exact ⟨digits, (List.isPrefixOf?_eq_some_iff_append_eq.mp stripped).symm,
      of_decide_eq_true canonical, parsed⟩
  · rintro ⟨digits, written, canonical, parsed⟩
    refine ⟨digits, List.isPrefixOf?_eq_some_iff_append_eq.mpr written.symm,
      Option.bind_eq_some_iff.mpr ⟨slot.index, ?_, new_eq_some.mpr rfl⟩⟩
    exact Option.filter_eq_some_iff.mpr ⟨parsed, decide_eq_true canonical⟩

theorem toList_name (slot : Slot) (kind : String) :
    (slot.name kind).toList = kind.toList ++ Nat.toDigits 10 slot.index := by
  rw [name, String.toList_append, Nat.toList_repr]

theorem named_name (slot : Slot) (kind : String) : named (slot.name kind) kind = some slot := by
  refine named_eq_some.mpr
    ⟨_, slot.toList_name kind, Numeral.head?_toDigits slot.index, parseU8_eq_some.mpr ?_⟩
  refine ⟨_, .inl rfl, Nat.toDigits_ne_nil, fun digit member => ?_,
    Nat.ofDigitChars_ten_toDigits, ?_⟩
  · exact Nat.isDigit_of_mem_toDigits (by decide) (by decide) member
  · have byte : slots ≤ u8Max := by decide
    exact Nat.le_trans (Nat.le_of_lt slot.isSlot) byte

/-- A name of `kind` with a plus before its index, leading zeros or not. -/
def Plus (kind name : String) : Prop :=
  ∃ digits : List Char, name.toList = kind.toList ++ '+' :: digits ∧ digits ≠ [] ∧
    (∀ digit ∈ digits, digit.isDigit = true) ∧ Nat.ofDigitChars 10 digits 0 < slots

theorem named_cases {name kind : String} {slot : Slot} (read : named name kind = some slot) :
    name = slot.name kind ∨ Plus kind name := by
  obtain ⟨digits, written, canonical, parsed⟩ := named_eq_some.mp read
  obtain ⟨numeral, spelled, some_digit, all, value, -⟩ := parseU8_eq_some.mp parsed
  rcases spelled with rfl | rfl
  · left
    have back := Numeral.toDigits_ofDigitChars all some_digit
      (canonical.imp_right fun only => by rw [only]; rfl)
    refine String.toList_injective ?_
    rw [written, toList_name, ← value, back]
  · right
    exact ⟨numeral, written, some_digit, all, value ▸ slot.isSlot⟩

theorem Plus.named {name kind : String} (plus : Plus kind name) :
    ∃ slot : Slot, Slot.named name kind = some slot := by
  obtain ⟨digits, written, some_digit, all, small⟩ := plus
  refine ⟨⟨_, small⟩, named_eq_some.mpr ⟨_, written, .inl (fun same => ?_), ?_⟩⟩
  · nomatch same
  · have byte : slots ≤ u8Max := by decide
    exact parseU8_eq_some.mpr
      ⟨digits, .inr rfl, some_digit, all, rfl, Nat.le_trans (Nat.le_of_lt small) byte⟩

theorem Plus.foreign {name kind : String} (plus : Plus kind name) (slot : Slot) :
    name ≠ slot.name kind := by
  rintro rfl
  obtain ⟨digits, written, -⟩ := plus
  have digit : '+' ∈ Nat.toDigits 10 slot.index := by
    rw [List.append_cancel_left ((slot.toList_name kind).symm.trans written)]
    exact List.mem_cons_self
  nomatch Nat.isDigit_of_mem_toDigits (by decide) (by decide) digit

theorem named_exact_iff (name kind : String) :
    (∀ slot, named name kind = some slot ↔ name = slot.name kind) ↔ ¬ Plus kind name := by
  constructor
  · intro exact_ plus
    obtain ⟨slot, read⟩ := plus.named
    exact plus.foreign slot ((exact_ slot).mp read)
  · intro plain slot
    constructor
    · intro read
      exact (named_cases read).resolve_right plain
    · rintro rfl
      exact slot.named_name kind

/-- A link, a peer or a table is read as a slot's exactly when it goes by the slot's
own name, unless it is the prefix, a plus and an index. -/
theorem named_exact (name : String) :
    ((∀ slot : Slot, named name linkPrefix = some slot ↔ name = slot.link) ↔
      ¬ Plus linkPrefix name) ∧
    ((∀ slot : Slot, named name peerPrefix = some slot ↔ name = slot.peer) ↔
      ¬ Plus peerPrefix name) ∧
    ((∀ slot : Slot, named name tablePrefix = some slot ↔ name = slot.table) ↔
      ¬ Plus tablePrefix name) :=
  ⟨named_exact_iff name linkPrefix, named_exact_iff name peerPrefix,
    named_exact_iff name tablePrefix⟩

/-- `afv+7` is read as slot 7, which goes by `afv7`. -/
theorem plus_read_as_slot :
    named "afv+7" linkPrefix = some ⟨7, by decide⟩ ∧
      "afv+7" ≠ link ⟨7, by decide⟩ := by
  decide

end Slot

end Agentsfleet.Sandbox
