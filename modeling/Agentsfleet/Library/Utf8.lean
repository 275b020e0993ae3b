import Mathlib.Data.List.Basic
import Mathlib.Data.List.Infix

/-!
# UTF-8 bytes

Text as the bytes its characters encode to, cut at any byte, and the scan that finds what
of a last character a piece of it holds.
-/

set_option autoImplicit false

namespace Agentsfleet.Library.Utf8

/-! ## Bytes -/

def continues (byte : UInt8) : Bool := 0x80 ≤ byte && byte ≤ 0xbf

/-- How many bytes a character with this first byte has; none starts with the others. -/
def width (byte : UInt8) : Nat :=
  if byte < 0x80 then 1
  else if 0xc2 ≤ byte ∧ byte ≤ 0xdf then 2
  else if 0xe0 ≤ byte ∧ byte ≤ 0xef then 3
  else if 0xf0 ≤ byte ∧ byte ≤ 0xf4 then 4
  else 0

def second (lead byte : UInt8) : Bool :=
  if lead = 0xe0 then 0xa0 ≤ byte && byte ≤ 0xbf
  else if lead = 0xed then 0x80 ≤ byte && byte ≤ 0x9f
  else if lead = 0xf0 then 0x90 ≤ byte && byte ≤ 0xbf
  else if lead = 0xf4 then 0x80 ≤ byte && byte ≤ 0x8f
  else continues byte

/-! ## The scan -/

def begun (byte : UInt8) : List UInt8 := if 2 ≤ width byte then [byte] else []

/-- What is unfinished after one more byte: a byte that does not go on with the character
before it ends that one and is looked at afresh. -/
def advance (pending : List UInt8) (byte : UInt8) : List UInt8 :=
  match pending with
  | [] => begun byte
  | [lead] =>
      if second lead byte then if width lead = 2 then [] else [lead, byte] else begun byte
  | lead :: rest =>
      if continues byte then
        if width lead = rest.length + 2 then [] else lead :: rest ++ [byte]
      else begun byte

/-- The bytes of a character that `bytes` ends before the end of. -/
def unfinished (bytes : List UInt8) : List UInt8 := bytes.foldl advance []

theorem begun_suffix (pending : List UInt8) (byte : UInt8) :
    begun byte <:+ pending ++ [byte] := by
  unfold begun
  split
  · exact List.suffix_append _ _
  · exact List.nil_suffix

theorem advance_suffix (pending : List UInt8) (byte : UInt8) :
    advance pending byte <:+ pending ++ [byte] := by
  unfold advance
  split
  · exact begun_suffix _ _
  · split
    · split
      · exact List.nil_suffix
      · exact List.suffix_rfl
    · exact begun_suffix _ _
  · split
    · split
      · exact List.nil_suffix
      · exact List.suffix_rfl
    · exact begun_suffix _ _

theorem unfinished_suffix (bytes : List UInt8) : unfinished bytes <:+ bytes := by
  induction bytes using List.reverseRecOn with
  | nil => exact List.suffix_rfl
  | append_singleton front byte ih =>
      obtain ⟨before, whole⟩ := ih
      obtain ⟨dropped, kept⟩ := advance_suffix (unfinished front) byte
      refine ⟨before ++ dropped, ?_⟩
      have last : unfinished (front ++ [byte]) = advance (unfinished front) byte := by
        rw [unfinished, List.foldl_append]
        rfl
      rw [last, List.append_assoc, kept, ← List.append_assoc, whole]

/-! ## Characters -/

structure Whole (bytes : List UInt8) : Prop where
  length : 1 ≤ bytes.length ∧ bytes.length ≤ 4
  lead : ∀ byte ∈ bytes.head?, width byte = bytes.length
  rest : ∀ byte ∈ bytes.tail, continues byte = true
  allowed : ∀ byte ∈ bytes.head?, ∀ next ∈ bytes.tail.head?, second byte next = true

theorem toNat_byte {n : Nat} (small : n < 256) : (UInt8.ofNat n).toNat = n := by
  rw [UInt8.toNat_ofNat']
  exact Nat.mod_eq_of_lt small

theorem continues_byte {n : Nat} (low : 0x80 ≤ n) (high : n ≤ 0xbf) :
    continues (UInt8.ofNat n) = true := by
  have value := toNat_byte (n := n) (by omega)
  simp only [continues, Bool.and_eq_true, decide_eq_true_eq, UInt8.le_iff_toNat_le, value]
  exact ⟨low, high⟩

theorem width_eq (byte : UInt8) : width byte =
    if byte.toNat < 0x80 then 1
    else if 0xc2 ≤ byte.toNat ∧ byte.toNat ≤ 0xdf then 2
    else if 0xe0 ≤ byte.toNat ∧ byte.toNat ≤ 0xef then 3
    else if 0xf0 ≤ byte.toNat ∧ byte.toNat ≤ 0xf4 then 4
    else 0 := rfl

theorem width_two {n : Nat} (low : 0xc2 ≤ n) (high : n ≤ 0xdf) :
    width (UInt8.ofNat n) = 2 := by
  rw [width_eq, toNat_byte (by omega), if_neg (by omega), if_pos ⟨low, high⟩]

theorem width_three {n : Nat} (low : 0xe0 ≤ n) (high : n ≤ 0xef) :
    width (UInt8.ofNat n) = 3 := by
  rw [width_eq, toNat_byte (by omega), if_neg (by omega), if_neg (by omega), if_pos ⟨low, high⟩]

theorem width_four {n : Nat} (low : 0xf0 ≤ n) (high : n ≤ 0xf4) :
    width (UInt8.ofNat n) = 4 := by
  rw [width_eq, toNat_byte (by omega), if_neg (by omega), if_neg (by omega), if_neg (by omega),
    if_pos ⟨low, high⟩]

theorem second_byte {l n : Nat} (lead : l < 256) (low : 0x80 ≤ n) (high : n ≤ 0xbf)
    (e0 : l = 0xe0 → 0xa0 ≤ n) (ed : l = 0xed → n ≤ 0x9f) (f0 : l = 0xf0 → 0x90 ≤ n)
    (f4 : l = 0xf4 → n ≤ 0x8f) : second (UInt8.ofNat l) (UInt8.ofNat n) = true := by
  have first := toNat_byte lead
  have value := toNat_byte (n := n) (by omega)
  unfold second
  split
  · rename_i is
    have := e0 (by rw [← first, is]; rfl)
    simp only [Bool.and_eq_true, decide_eq_true_eq, UInt8.le_iff_toNat_le, value]
    exact ⟨this, high⟩
  · split
    · rename_i is
      have := ed (by rw [← first, is]; rfl)
      simp only [Bool.and_eq_true, decide_eq_true_eq, UInt8.le_iff_toNat_le, value]
      exact ⟨low, this⟩
    · split
      · rename_i is
        have := f0 (by rw [← first, is]; rfl)
        simp only [Bool.and_eq_true, decide_eq_true_eq, UInt8.le_iff_toNat_le, value]
        exact ⟨this, high⟩
      · split
        · rename_i is
          have := f4 (by rw [← first, is]; rfl)
          simp only [Bool.and_eq_true, decide_eq_true_eq, UInt8.le_iff_toNat_le, value]
          exact ⟨low, this⟩
        · exact continues_byte low high

theorem char_range (c : Char) :
    c.val.toNat < 0xd800 ∨ 0xdfff < c.val.toNat ∧ c.val.toNat < 0x110000 := c.valid

theorem whole_encodeChar (c : Char) : Whole (String.utf8EncodeChar c) := by
  have range := char_range c
  unfold String.utf8EncodeChar
  dsimp only
  generalize c.val.toNat = v at range
  split
  · have value := toNat_byte (n := v) (by omega)
    refine ⟨by simp, ?_, by simp, by simp⟩
    simp only [List.head?_cons, Option.mem_def, Option.some.injEq, forall_eq']
    rw [width_eq, value, if_pos (by omega)]
    rfl
  · split
    · refine ⟨by simp, ?_, ?_, ?_⟩
      · simp only [List.head?_cons, Option.mem_def, Option.some.injEq, forall_eq']
        exact width_two (by omega) (by omega)
      · simp only [List.tail_cons, List.forall_mem_cons]
        exact ⟨continues_byte (by omega) (by omega), by simp⟩
      · simp only [List.head?_cons, List.tail_cons, Option.mem_def, Option.some.injEq, forall_eq']
        apply second_byte <;> omega
    · split
      · refine ⟨by simp, ?_, ?_, ?_⟩
        · simp only [List.head?_cons, Option.mem_def, Option.some.injEq, forall_eq']
          exact width_three (by omega) (by omega)
        · simp only [List.tail_cons, List.forall_mem_cons]
          exact ⟨continues_byte (by omega) (by omega), continues_byte (by omega) (by omega),
            by simp⟩
        · simp only [List.head?_cons, List.tail_cons, Option.mem_def, Option.some.injEq,
            forall_eq']
          apply second_byte <;> omega
      · refine ⟨by simp, ?_, ?_, ?_⟩
        · simp only [List.head?_cons, Option.mem_def, Option.some.injEq, forall_eq']
          exact width_four (by omega) (by omega)
        · simp only [List.tail_cons, List.forall_mem_cons]
          exact ⟨continues_byte (by omega) (by omega), continues_byte (by omega) (by omega),
            continues_byte (by omega) (by omega), by simp⟩
        · simp only [List.head?_cons, List.tail_cons, Option.mem_def, Option.some.injEq,
            forall_eq']
          apply second_byte <;> omega

/-! ## Text -/

def encode (chars : List Char) : List UInt8 := chars.flatMap String.utf8EncodeChar

@[simp] theorem encode_nil : encode [] = [] := rfl

@[simp] theorem encode_cons (c : Char) (chars : List Char) :
    encode (c :: chars) = String.utf8EncodeChar c ++ encode chars := by
  simp [encode]

@[simp] theorem encode_append (front back : List Char) :
    encode (front ++ back) = encode front ++ encode back := by
  simp [encode]

def Valid (bytes : List UInt8) : Prop := ∃ chars, bytes = encode chars

/-! ## What the scan finds -/

theorem Whole.scan {bytes : List UInt8} (whole : Whole bytes) : unfinished bytes = [] := by
  obtain ⟨⟨some, four⟩, lead, rest, allowed⟩ := whole
  match bytes, some, four with
  | [a], _, _ =>
      have one : width a = 1 := lead a rfl
      simp [unfinished, advance, begun, one]
  | [a, b], _, _ =>
      have two : width a = 2 := lead a rfl
      have pair : second a b = true := allowed a rfl b rfl
      simp [unfinished, advance, begun, two, pair]
  | [a, b, c], _, _ =>
      have three : width a = 3 := lead a rfl
      have pair : second a b = true := allowed a rfl b rfl
      have third : continues c = true := rest c (by simp)
      simp [unfinished, advance, begun, three, pair, third]
  | [a, b, c, d], _, _ =>
      have four : width a = 4 := lead a rfl
      have pair : second a b = true := allowed a rfl b rfl
      have third : continues c = true := rest c (by simp)
      have fourth : continues d = true := rest d (by simp)
      simp [unfinished, advance, begun, four, pair, third, fourth]

theorem Whole.scan_part {part more : List UInt8} (whole : Whole (part ++ more))
    (cut : more ≠ []) : unfinished part = part := by
  obtain ⟨⟨-, four⟩, lead, rest, allowed⟩ := whole
  have short : 0 < more.length := List.length_pos_iff.mpr cut
  rw [List.length_append] at four
  match part, four with
  | [], _ => rfl
  | [a], _ =>
      have wide := lead a rfl
      have : 2 ≤ width a := by simp at wide; omega
      simp [unfinished, advance, begun, this]
  | [a, b], _ =>
      have wide := lead a rfl
      have : 2 ≤ width a ∧ width a ≠ 2 := by simp at wide; omega
      have pair : second a b = true := allowed a rfl b rfl
      simp [unfinished, advance, begun, this, pair]
  | [a, b, c], _ =>
      have wide := lead a rfl
      have : 2 ≤ width a ∧ width a ≠ 2 ∧ width a ≠ 3 := by simp at wide; omega
      have pair : second a b = true := allowed a rfl b rfl
      have third : continues c = true := rest c (by simp)
      simp [unfinished, advance, begun, this, pair, third]
  | a :: b :: c :: d :: e, four => simp at four; omega

theorem width_continues {byte : UInt8} (h : continues byte = true) : width byte = 0 := by
  rw [continues, Bool.and_eq_true, decide_eq_true_eq, decide_eq_true_eq,
    UInt8.le_iff_toNat_le, UInt8.le_iff_toNat_le] at h
  have low : 0x80 ≤ byte.toNat := h.1
  have high : byte.toNat ≤ 0xbf := h.2
  rw [width_eq, if_neg (by omega), if_neg (by omega), if_neg (by omega), if_neg (by omega)]

theorem begun_continues {byte : UInt8} (h : continues byte = true) : begun byte = [] := by
  rw [begun, width_continues h, if_neg (by omega)]

theorem scan_continues {bytes : List UInt8} (h : ∀ byte ∈ bytes, continues byte = true) :
    unfinished bytes = [] := by
  induction bytes with
  | nil => rfl
  | cons byte bytes ih =>
      have first := begun_continues (h byte (by simp))
      have rest := ih (fun b hb => h b (by simp [hb]))
      simpa [unfinished, advance, first] using rest

theorem unfinished_append {front : List UInt8} (h : unfinished front = []) (back : List UInt8) :
    unfinished (front ++ back) = unfinished back := by
  unfold unfinished at h ⊢
  rw [List.foldl_append, h]

theorem unfinished_encode (chars : List Char) (back : List UInt8) :
    unfinished (encode chars ++ back) = unfinished back := by
  induction chars with
  | nil => rfl
  | cons c chars ih =>
      rw [encode_cons, List.append_assoc, unfinished_append (whole_encodeChar c).scan, ih]

/-! ## Cuts -/

theorem prefix_encode {chars : List Char} {text : List UInt8} (h : text <+: encode chars) :
    ∃ front back part, chars = front ++ back ∧ text = encode front ++ part ∧
      (part = [] ∨ ∃ c after more, back = c :: after ∧ part ≠ [] ∧ more ≠ [] ∧
        String.utf8EncodeChar c = part ++ more) := by
  induction chars generalizing text with
  | nil => exact ⟨[], [], [], rfl, List.prefix_nil.mp h, Or.inl rfl⟩
  | cons c chars ih =>
      rw [encode_cons] at h
      by_cases short : text.length < (String.utf8EncodeChar c).length
      · obtain ⟨more, eq⟩ := List.prefix_of_prefix_length_le h
          (List.prefix_append (String.utf8EncodeChar c) (encode chars)) (by omega)
        by_cases empty : text = []
        · exact ⟨[], c :: chars, [], rfl, by simp [empty], Or.inl rfl⟩
        · have left : more ≠ [] := by
            intro none
            rw [← eq, none, List.append_nil] at short
            omega
          exact ⟨[], c :: chars, text, rfl, rfl, Or.inr ⟨c, chars, more, rfl, empty, left, eq.symm⟩⟩
      · obtain ⟨rest, rfl⟩ := List.prefix_of_prefix_length_le
          (List.prefix_append (String.utf8EncodeChar c) (encode chars)) h (by omega)
        rw [List.prefix_append_right_inj] at h
        obtain ⟨front, back, part, rfl, rfl, ends⟩ := ih h
        exact ⟨c :: front, back, part, rfl, by simp, ends⟩

theorem suffix_encode {chars : List Char} {text : List UInt8} (h : text <:+ encode chars) :
    ∃ remains back, text = remains ++ encode back ∧ ∀ byte ∈ remains, continues byte = true := by
  induction chars with
  | nil => exact ⟨[], [], List.suffix_nil.mp h, by simp⟩
  | cons c chars ih =>
      rw [encode_cons] at h
      by_cases short : text.length ≤ (encode chars).length
      · exact ih (List.suffix_of_suffix_length_le h (List.suffix_append _ _) short)
      · obtain ⟨part, eq⟩ := List.suffix_of_suffix_length_le
          (List.suffix_append (String.utf8EncodeChar c) (encode chars)) h (by omega)
        rw [← eq, List.suffix_append_self_iff] at h
        obtain ⟨cut, whole⟩ := h
        cases cut with
        | nil => exact ⟨[], c :: chars, by rw [← eq, encode_cons, ← whole]; rfl, by simp⟩
        | cons first cut =>
            refine ⟨part, chars, eq.symm, ?_⟩
            intro byte member
            have rest := (whole_encodeChar c).rest byte
            rw [← whole] at rest
            exact rest (by simp [member])

theorem Whole.fresh {bytes : List UInt8} (whole : Whole bytes) :
    ∀ byte ∈ bytes.head?, continues byte = false := by
  intro byte first
  cases h : continues byte with
  | false => rfl
  | true =>
      have wide := whole.lead byte first
      rw [width_continues h] at wide
      have := whole.length
      omega

theorem fresh_encode (chars : List Char) :
    ∀ byte ∈ (encode chars).head?, continues byte = false := by
  intro byte first
  cases chars with
  | nil => simp at first
  | cons c chars =>
      have whole := whole_encodeChar c
      have some := List.length_pos_iff.mp (Nat.lt_of_lt_of_le Nat.zero_lt_one whole.length.1)
      rw [encode_cons, List.head?_append_of_ne_nil _ some] at first
      exact whole.fresh byte first

theorem cut_fresh {chars : List Char} {front back : List UInt8}
    (whole : front ++ back = encode chars)
    (fresh : ∀ byte ∈ back.head?, continues byte = false) :
    ∃ before after, chars = before ++ after ∧ front = encode before ∧ back = encode after := by
  obtain ⟨before, after, part, rfl, rfl, ends⟩ := prefix_encode ⟨back, whole⟩
  rw [encode_append, List.append_assoc, List.append_cancel_left_eq] at whole
  rcases ends with none_ | ⟨c, behind, more, rfl, some, left, eq⟩
  · rw [none_, List.nil_append] at whole
    exact ⟨before, after, rfl, by rw [none_, List.append_nil], whole⟩
  · rw [encode_cons, eq, List.append_assoc, List.append_cancel_left_eq] at whole
    obtain ⟨byte, rest, rfl⟩ := List.exists_cons_of_ne_nil left
    have ended := fresh byte (by rw [whole]; rfl)
    have cont : continues byte = true := by
      apply (whole_encodeChar c).rest byte
      obtain ⟨first, others, rfl⟩ := List.exists_cons_of_ne_nil some
      simp [eq]
    rw [cont] at ended
    cases ended

/-- Characters found inside a text begin and end between two of its characters. -/
theorem cut_around {chars mids : List Char} {front back : List UInt8}
    (whole : front ++ (encode mids ++ back) = encode chars) (some : mids ≠ []) :
    ∃ before after, front = encode before ∧ back = encode after := by
  have first : ∀ byte ∈ (encode mids ++ back).head?, continues byte = false := by
    obtain ⟨c, others, rfl⟩ := List.exists_cons_of_ne_nil some
    have wide := (whole_encodeChar c).length.1
    have full : encode (c :: others) ≠ [] := by
      intro none_
      rw [encode_cons, List.append_eq_nil_iff] at none_
      rw [none_.1] at wide
      exact absurd wide (by decide)
    rw [List.head?_append_of_ne_nil _ full]
    exact fresh_encode (c :: others)
  obtain ⟨before, rest, -, front_, tail⟩ := cut_fresh whole first
  refine ⟨before, ?_⟩
  obtain ⟨within, after, part, rfl, met, ends⟩ := prefix_encode ⟨back, tail⟩
  have scanned : unfinished (encode mids) = unfinished part := by rw [met, unfinished_encode]
  have finished := unfinished_encode mids []
  rw [List.append_nil] at finished
  rcases ends with none_ | ⟨c, behind, more, -, unempty, left, eq⟩
  · rw [met, none_, List.append_nil, encode_append, List.append_cancel_left_eq] at tail
    exact ⟨after, front_, tail⟩
  · have kept : unfinished part = part := Whole.scan_part (eq ▸ whole_encodeChar c) left
    rw [kept, finished] at scanned
    exact absurd scanned.symm unempty

/-- `bytes` are the first characters of `chars`. -/
def Cut (chars : List Char) (bytes : List UInt8) : Prop :=
  ∃ front back, chars = front ++ back ∧ bytes = encode front

/-- The bytes at the front of `bytes` that can only belong to a character cut off before
them. -/
def remains (bytes : List UInt8) : List UInt8 := (bytes.take 3).takeWhile continues

theorem remains_fresh {bytes : List UInt8} (h : ∀ byte ∈ bytes.head?, continues byte = false) :
    remains bytes = [] := by
  cases bytes with
  | nil => rfl
  | cons byte bytes =>
      have first := h byte rfl
      simp [remains, first]

theorem remains_append {part rest : List UInt8} (short : part.length ≤ 3)
    (all : ∀ byte ∈ part, continues byte = true)
    (h : ∀ byte ∈ rest.head?, continues byte = false) : remains (part ++ rest) = part := by
  have stop : ((rest.take (3 - part.length)).takeWhile continues) = [] := by
    cases rest with
    | nil => simp
    | cons byte rest =>
        have first := h byte rfl
        cases 3 - part.length with
        | zero => rfl
        | succ n => simp [first]
  rw [remains, List.take_append, List.take_of_length_le short,
    List.takeWhile_append_of_pos all, stop, List.append_nil]

/-- Dropping its remains after a cut leaves text that starts with a character, unless all
there is of it so far are remains of an unfinished one. -/
theorem cut_remains {chars : List Char} {before after : List UInt8}
    (text : before ++ after <+: encode chars)
    (finished : remains after = after → unfinished (before ++ after) = []) :
    Cut chars (before ++ remains after) := by
  obtain ⟨front, back, part, rfl, rfl, ends⟩ :=
    prefix_encode (List.IsPrefix.trans (List.prefix_append before after) text)
  rw [encode_append, List.append_assoc, List.prefix_append_right_inj] at text
  cases ends with
  | inl none =>
      subst none
      have fresh : ∀ byte ∈ after.head?, continues byte = false := by
        intro byte first
        apply fresh_encode back byte
        obtain ⟨rest, eq⟩ := text
        rw [← eq]
        cases after with
        | nil => simp at first
        | cons _ _ => exact first
      exact ⟨front, back, rfl, by rw [remains_fresh fresh]; simp⟩
  | inr cut =>
      obtain ⟨c, behind, more, rfl, some, left, eq⟩ := cut
      have whole := whole_encodeChar c
      rw [eq] at whole
      have continuing : ∀ byte ∈ more, continues byte = true := by
        intro byte member
        apply whole.rest byte
        cases part with
        | nil => exact absurd rfl some
        | cons _ _ => simp [member]
      have short : more.length ≤ 3 := by
        have four := whole.length.2
        have one := List.length_pos_iff.mpr some
        rw [List.length_append] at four
        omega
      rw [encode_cons, eq, List.append_assoc, List.prefix_append_right_inj] at text
      by_cases reach : more.length ≤ after.length
      · obtain ⟨rest, rfl⟩ := List.prefix_of_prefix_length_le (List.prefix_append more _) text reach
        rw [List.prefix_append_right_inj] at text
        have fresh : ∀ byte ∈ rest.head?, continues byte = false := by
          intro byte first
          apply fresh_encode behind byte
          obtain ⟨last, eq⟩ := text
          rw [← eq]
          cases rest with
          | nil => simp at first
          | cons _ _ => exact first
        refine ⟨front ++ [c], behind, by simp, ?_⟩
        rw [remains_append short continuing fresh]
        simp [eq]
      · obtain ⟨last, rfl⟩ := List.prefix_of_prefix_length_le text (List.prefix_append more _)
          (by omega)
        have all : remains after = after := by
          have continues_ : ∀ byte ∈ after, continues byte = true :=
            fun byte member => continuing byte (by simp [member])
          have none : ∀ byte ∈ ([] : List UInt8).head?, continues byte = false := by simp
          have whole := remains_append (by omega) continues_ none
          rwa [List.append_nil] at whole
        have idle := finished all
        have unended : last ≠ [] := by
          intro none
          rw [none, List.append_nil] at reach
          omega
        rw [List.append_assoc, unfinished_encode,
          Whole.scan_part (by rwa [← List.append_assoc] at whole) unended] at idle
        exact absurd (List.append_eq_nil_iff.mp idle).1 some

/-- The last piece of a text that starts with a character, without the character it ends
before the end of, if that one begins in the piece. -/
theorem cut_piece {chars : List Char} {past before piece : List UInt8} (start : Cut chars past)
    (text : past ++ (before ++ piece) <+: encode chars)
    (inside : (unfinished (before ++ piece)).length ≤ piece.length) :
    ∃ kept, piece = kept ++ unfinished piece ∧ Cut chars (past ++ (before ++ kept)) ∧
      Valid (before ++ kept) := by
  obtain ⟨front, back, rfl, rfl⟩ := start
  rw [encode_append, List.prefix_append_right_inj] at text
  obtain ⟨mids, behind, part, rfl, eq, ends⟩ := prefix_encode text
  have scanned : unfinished part = part := by
    cases ends with
    | inl none => rw [none]; rfl
    | inr cut =>
        obtain ⟨c, -, more, -, -, left, whole⟩ := cut
        exact Whole.scan_part (whole ▸ whole_encodeChar c) left
  rw [eq, unfinished_encode, scanned] at inside
  have reach : part <:+ before ++ piece := eq ▸ List.suffix_append (encode mids) part
  obtain ⟨kept, rfl⟩ := List.suffix_of_suffix_length_le reach (List.suffix_append _ _) inside
  have whole : before ++ kept = encode mids := by
    rw [← List.append_assoc] at eq
    exact List.append_cancel_right eq
  obtain ⟨cont, tail, rfl, all⟩ := suffix_encode (whole ▸ List.suffix_append before kept)
  have ending : unfinished (cont ++ encode tail ++ part) = part := by
    rw [List.append_assoc, unfinished_append (scan_continues all), unfinished_encode, scanned]
  refine ⟨cont ++ encode tail, by rw [ending], ?_, ⟨mids, whole⟩⟩
  exact ⟨front ++ mids, behind, by simp, by rw [whole, encode_append]⟩

/-! ## Decoding with a stand-in -/

def standIn : Char := Char.ofNat 0xfffd

def decodeFirst (bytes : List UInt8) : Option Char := bytes.toByteArray.utf8DecodeChar? 0

/-- How many bytes one stand-in stands for: a character's start as far as it goes, or one byte. -/
def broken : List UInt8 → Nat
  | lead :: next :: rest =>
      if 2 ≤ width lead ∧ second lead next = true then
        2 + ((rest.take (width lead - 3)).takeWhile continues).length
      else 1
  | _ => 1

def decodeWithin : Nat → List UInt8 → List Char
  | 0, _ => []
  | _ + 1, [] => []
  | left + 1, bytes =>
      match decodeFirst bytes with
      | some c => c :: decodeWithin left (bytes.drop c.utf8Size)
      | none => standIn :: decodeWithin left (bytes.drop (broken bytes))

def lossy (bytes : List UInt8) : List Char := decodeWithin bytes.length bytes

theorem decodeFirst_encode (c : Char) (rest : List UInt8) :
    decodeFirst (String.utf8EncodeChar c ++ rest) = some c := by
  rw [decodeFirst, List.toByteArray_append]
  exact ByteArray.utf8DecodeChar?_utf8EncodeChar_append

theorem decodeWithin_encode {left : Nat} {chars : List Char} (enough : chars.length ≤ left) :
    decodeWithin left (encode chars) = chars := by
  induction chars generalizing left with
  | nil => cases left <;> rfl
  | cons c rest ih =>
      cases left with
      | zero => exact absurd enough (Nat.not_succ_le_zero _)
      | succ left =>
          have wide := String.length_utf8EncodeChar c
          have some_byte : 0 < (String.utf8EncodeChar c).length := wide ▸ c.utf8Size_pos
          rw [encode_cons]
          obtain ⟨lead, others, split_⟩ := List.exists_cons_of_length_pos some_byte
          have first := decodeFirst_encode c (encode rest)
          rw [split_, List.cons_append] at first ⊢
          rw [decodeWithin, first]
          · dsimp only
            rw [← List.cons_append, ← split_, ← wide, List.drop_left,
              ih (Nat.le_of_succ_le_succ enough)]
          · exact fun empty => nomatch empty

theorem length_le_encode (chars : List Char) : chars.length ≤ (encode chars).length := by
  induction chars with
  | nil => exact Nat.le_refl 0
  | cons c rest ih =>
      have wide := c.utf8Size_pos
      rw [encode_cons, List.length_append, String.length_utf8EncodeChar, List.length_cons]
      omega

theorem lossy_encode (chars : List Char) : lossy (encode chars) = chars :=
  decodeWithin_encode (length_le_encode chars)

example : lossy [0xe2, 0x82, 0xff, 0x61] = [standIn, standIn, 'a'] := by decide

/-! ## Cutting what is decoded -/

theorem decodeFirst_append {bytes : List UInt8} {c : Char} (first : decodeFirst bytes = some c)
    (more : List UInt8) : decodeFirst (bytes ++ more) = some c := by
  rw [decodeFirst, List.toByteArray_append]
  exact ByteArray.utf8DecodeChar?_append_eq_some first _

theorem encode_of_decodeFirst {bytes : List UInt8} {c : Char}
    (first : decodeFirst bytes = some c) :
    ∃ rest, bytes = String.utf8EncodeChar c ++ rest := by
  obtain ⟨rest, whole⟩ := ByteArray.exists_of_utf8DecodeChar?_eq_some first
  refine ⟨rest.data.toList, ?_⟩
  have listed := congrArg (fun bytes => bytes.data.toList) whole
  simpa using listed

theorem takeWhile_cut {picks : UInt8 → Bool} {part whole : List UInt8} (cut : part <+: whole)
    (long : (whole.takeWhile picks).length ≤ part.length) :
    part.takeWhile picks = whole.takeWhile picks := by
  induction part generalizing whole with
  | nil => exact (List.length_eq_zero_iff.mp (Nat.le_zero.mp long)).symm
  | cons byte part ih =>
      obtain ⟨rest, rfl⟩ := cut
      rw [List.cons_append, List.takeWhile_cons] at long
      rw [List.cons_append, List.takeWhile_cons, List.takeWhile_cons]
      split
      · rename_i picked
        rw [if_pos picked, List.length_cons, List.length_cons] at long
        rw [ih (List.prefix_append part rest) (Nat.le_of_succ_le_succ long)]
      · rfl

theorem broken_le {bytes : List UInt8} (some_byte : bytes ≠ []) :
    1 ≤ broken bytes ∧ broken bytes ≤ bytes.length := by
  match bytes, some_byte with
  | [byte], _ => exact ⟨Nat.le_refl 1, Nat.le_refl 1⟩
  | lead :: next :: rest, _ =>
      have short := (List.takeWhile_prefix continues (l := rest.take (width lead - 3))).length_le
      rw [List.length_take] at short
      rw [broken, List.length_cons, List.length_cons]
      split <;> omega

theorem broken_prefix {part whole : List UInt8} (cut : part <+: whole)
    (long : broken whole ≤ part.length) (some_byte : part ≠ []) : broken part = broken whole := by
  obtain ⟨rest, rfl⟩ := cut
  match part, some_byte with
  | [byte], _ =>
      cases rest with
      | nil => rfl
      | cons next rest =>
          rw [List.singleton_append, broken] at long ⊢
          split at long
          · rw [List.length_singleton] at long
            omega
          · rename_i neither
            rw [if_neg neither]
            rfl
  | lead :: next :: others, _ =>
      rw [List.cons_append, List.cons_append, broken, broken] at *
      split
      · rename_i both
        rw [if_pos both, List.length_cons, List.length_cons] at long
        have short := (List.takeWhile_prefix continues
          (l := (others ++ rest).take (width lead - 3))).length_le
        rw [List.length_take] at short
        rw [takeWhile_cut ((List.prefix_append others rest).take (width lead - 3))]
        rw [List.length_take]
        omega
      · rfl

theorem decodeWithin_eq {left more : Nat} {bytes : List UInt8} (enough : bytes.length ≤ left)
    (too : bytes.length ≤ more) : decodeWithin left bytes = decodeWithin more bytes := by
  induction left generalizing more bytes with
  | zero =>
      rw [List.length_eq_zero_iff.mp (Nat.le_zero.mp enough)]
      cases more <;> rfl
  | succ left ih =>
      cases more with
      | zero => rw [List.length_eq_zero_iff.mp (Nat.le_zero.mp too)]; rfl
      | succ more =>
          cases bytes with
          | nil => rfl
          | cons byte others =>
              have onward (count : Nat) (some_byte : 1 ≤ count) :
                  decodeWithin left ((byte :: others).drop count) =
                    decodeWithin more ((byte :: others).drop count) := by
                apply ih <;> (rw [List.length_drop]; omega)
              simp only [decodeWithin]
              split
              · rw [onward _ (Char.utf8Size_pos _)]
              · rw [onward _ (broken_le (List.cons_ne_nil _ _)).1]

theorem lossy_of_some {bytes : List UInt8} {c : Char} (first : decodeFirst bytes = some c) :
    lossy bytes = c :: lossy (bytes.drop c.utf8Size) := by
  obtain ⟨rest, rfl⟩ := encode_of_decodeFirst first
  obtain ⟨lead, others, whole⟩ := List.exists_cons_of_length_pos
    (l := String.utf8EncodeChar c ++ rest) (by
      rw [List.length_append, String.length_utf8EncodeChar]
      exact Nat.lt_of_lt_of_le c.utf8Size_pos (Nat.le_add_right _ _))
  rw [whole] at first ⊢
  rw [lossy, List.length_cons, decodeWithin, first]
  · have wide := c.utf8Size_pos
    dsimp only
    congr 1
    apply decodeWithin_eq <;> simp only [List.length_drop, List.length_cons] <;> omega
  · exact fun empty => List.cons_ne_nil _ _ empty

theorem lossy_of_none {bytes : List UInt8} (some_byte : bytes ≠ [])
    (first : decodeFirst bytes = none) :
    lossy bytes = standIn :: lossy (bytes.drop (broken bytes)) := by
  have wide := (broken_le some_byte).1
  obtain ⟨lead, others, rfl⟩ := List.exists_cons_of_ne_nil some_byte
  rw [lossy, List.length_cons, decodeWithin, first]
  · dsimp only
    congr 1
    apply decodeWithin_eq <;> simp only [List.length_drop, List.length_cons] <;> omega
  · exact fun empty => List.cons_ne_nil _ _ empty

/-- The first character of what is decoded stands for bytes of its own, whatever of the rest
follows them. -/
theorem lossy_open {bytes : List UInt8} (some_byte : bytes ≠ []) :
    ∃ c chunk rest, bytes = chunk ++ rest ∧
      ∀ part, part <+: rest → lossy (chunk ++ part) = c :: lossy part := by
  cases first : decodeFirst bytes with
  | some c =>
      obtain ⟨rest, rfl⟩ := encode_of_decodeFirst first
      refine ⟨c, String.utf8EncodeChar c, rest, rfl, fun part _ => ?_⟩
      rw [lossy_of_some (decodeFirst_encode c part), ← String.length_utf8EncodeChar, List.drop_left]
  | none =>
      obtain ⟨wide, within⟩ := broken_le some_byte
      refine ⟨standIn, bytes.take (broken bytes), bytes.drop (broken bytes),
        (List.take_append_drop _ _).symm, fun part cut => ?_⟩
      have width_eq : (bytes.take (broken bytes)).length = broken bytes := by
        rw [List.length_take]
        omega
      have whole : bytes.take (broken bytes) ++ part <+: bytes := by
        obtain ⟨rest, after⟩ := cut
        refine ⟨rest, ?_⟩
        rw [List.append_assoc, after, List.take_append_drop]
      have some_part : bytes.take (broken bytes) ++ part ≠ [] := by
        intro empty
        rw [(List.append_eq_nil_iff.mp empty).1] at width_eq
        rw [← width_eq] at wide
        exact absurd wide (by decide)
      have none_ : decodeFirst (bytes.take (broken bytes) ++ part) = none := by
        cases again : decodeFirst (bytes.take (broken bytes) ++ part) with
        | none => rfl
        | some c =>
            obtain ⟨rest, after⟩ := whole
            rw [← after, decodeFirst_append again] at first
            cases first
      have same : broken (bytes.take (broken bytes) ++ part) = broken bytes := by
        apply broken_prefix whole _ some_part
        rw [List.length_append, width_eq]
        exact Nat.le_add_right _ _
      rw [lossy_of_none some_part none_, same, List.drop_left' width_eq]

theorem lossy_eq_append {bytes : List UInt8} {front back : List Char}
    (whole : lossy bytes = front ++ back) :
    ∃ before after, bytes = before ++ after ∧ lossy before = front ∧ lossy after = back := by
  induction front generalizing bytes with
  | nil => exact ⟨[], bytes, rfl, rfl, whole⟩
  | cons c front ih =>
      have some_byte : bytes ≠ [] := by
        rintro rfl
        cases whole
      obtain ⟨first, chunk, rest, rfl, opens⟩ := lossy_open some_byte
      rw [opens rest (List.prefix_refl rest), List.cons_append, List.cons.injEq] at whole
      obtain ⟨rfl, onward⟩ := whole
      obtain ⟨before, after, rfl, shown, left⟩ := ih onward
      refine ⟨chunk ++ before, after, (List.append_assoc _ _ _).symm, ?_, left⟩
      rw [opens before (List.prefix_append before after), shown]

end Agentsfleet.Library.Utf8
