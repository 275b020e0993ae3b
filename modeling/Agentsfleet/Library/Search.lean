import Mathlib.Data.List.Basic
import Mathlib.Data.List.TakeWhile

/-!
# Leftmost-longest search

The matches of several patterns in a text, found from left to right: at each place
the longest pattern that stands there, and the search goes on where it ends.  A cut
that no match stretches across splits both the search and the replacement.
-/

set_option autoImplicit false

namespace Agentsfleet.Library.Search

section Search

variable {α : Type} [DecidableEq α]

structure Found where
  pattern : Nat
  start : Nat
  stop : Nat
deriving DecidableEq, Repr

/-- The longest pattern a text starts with, the first of equally long ones, and its
length. -/
def longest : List (List α) → List α → Option (Nat × Nat)
  | [], _ => none
  | p :: rest, text =>
      match longest rest text with
      | some (which, size) =>
          if p <+: text ∧ size ≤ p.length then some (0, p.length) else some (which + 1, size)
      | none => if p <+: text then some (0, p.length) else none

/-- The matches of what is left of a text from `place` on; its first `skip` characters
belong to a match already found. -/
def scan (patterns : List (List α)) : Nat → Nat → List α → List Found
  | _, _, [] => []
  | place, skip + 1, _ :: rest => scan patterns (place + 1) skip rest
  | place, 0, c :: rest =>
      match longest patterns (c :: rest) with
      | some (which, size) =>
          ⟨which, place, place + size⟩ :: scan patterns (place + 1) (size - 1) rest
      | none => scan patterns (place + 1) 0 rest

def find (patterns : List (List α)) (text : List α) : List Found := scan patterns 0 0 text

/-- A text from `done` on, each match replaced by its pattern's stand-in. -/
def splice (standIns : List (List α)) (text : List α) : Nat → List Found → List α
  | done, [] => text.drop done
  | done, found :: rest =>
      (text.take found.start).drop done ++ standIns.getD found.pattern []
        ++ splice standIns text found.stop rest

def masked (patterns standIns : List (List α)) (text : List α) : List α :=
  splice standIns text 0 (find patterns text)

def Found.shift (way : Nat) (found : Found) : Found :=
  { found with start := way + found.start, stop := way + found.stop }

/-- A cut moved back to the start of each match that stretches across it. -/
def retreat : Nat → List Found → Nat
  | cut, [] => cut
  | cut, found :: rest =>
      retreat (if found.start < cut ∧ cut < found.stop then found.start else cut) rest

/-! ## The longest pattern -/

theorem longest_some {patterns : List (List α)} {text : List α} {which size : Nat}
    (found : longest patterns text = some (which, size)) :
    ∃ p ∈ patterns, p <+: text ∧ p.length = size := by
  induction patterns generalizing which with
  | nil => cases found
  | cons p rest ih =>
      cases later : longest rest text with
      | none =>
          simp only [longest, later] at found
          by_cases here : p <+: text
          · rw [if_pos here] at found
            cases found
            exact ⟨p, List.mem_cons_self, here, rfl⟩
          · rw [if_neg here] at found
            cases found
      | some best =>
          obtain ⟨which', size'⟩ := best
          simp only [longest, later] at found
          by_cases here : p <+: text ∧ size' ≤ p.length
          · rw [if_pos here] at found
            cases found
            exact ⟨p, List.mem_cons_self, here.1, rfl⟩
          · rw [if_neg here] at found
            cases found
            obtain ⟨q, member, heads, length⟩ := ih later
            exact ⟨q, List.mem_cons_of_mem p member, heads, length⟩

theorem longest_spec {patterns : List (List α)} {text p : List α} (member : p ∈ patterns)
    (heads : p <+: text) : ∃ which size, longest patterns text = some (which, size) ∧
      p.length ≤ size := by
  induction patterns with
  | nil => cases member
  | cons q rest ih =>
      cases later : longest rest text with
      | none =>
          have here : p = q := by
            rcases List.mem_cons.mp member with same | within
            · exact same
            · obtain ⟨_, _, some_, _⟩ := ih within
              rw [later] at some_
              cases some_
          subst here
          exact ⟨0, p.length, by simp only [longest, later, if_pos heads], Nat.le_refl _⟩
      | some best =>
          obtain ⟨which, size⟩ := best
          by_cases here : q <+: text ∧ size ≤ q.length
          · refine ⟨0, q.length, by simp only [longest, later, if_pos here], ?_⟩
            rcases List.mem_cons.mp member with same | within
            · rw [same]
            · obtain ⟨_, _, some_, most⟩ := ih within
              rw [later] at some_
              cases some_
              exact Nat.le_trans most here.2
          · refine ⟨which + 1, size, by simp only [longest, later, if_neg here], ?_⟩
            rcases List.mem_cons.mp member with same | within
            · subst same
              have shorter : ¬ size ≤ p.length := fun most => here ⟨heads, most⟩
              omega
            · obtain ⟨_, _, some_, most⟩ := ih within
              rw [later] at some_
              cases some_
              exact most

theorem longest_congr {patterns : List (List α)} {text text' : List α}
    (agree : ∀ p ∈ patterns, p <+: text ↔ p <+: text') :
    longest patterns text = longest patterns text' := by
  induction patterns with
  | nil => rfl
  | cons p rest ih =>
      obtain ⟨here, others⟩ := List.forall_mem_cons.mp agree
      rw [longest, longest, ih others]
      simp only [here]

/-! ## Cuts no match stretches across -/

section Cuts

variable {patterns : List (List α)} (some_char : ∀ p ∈ patterns, p ≠ [])

include some_char in
theorem longest_size {text : List α} {which size : Nat}
    (found : longest patterns text = some (which, size)) : 0 < size ∧ size ≤ text.length := by
  obtain ⟨p, member, heads, length⟩ := longest_some found
  have positive := List.length_pos_iff.mpr (some_char p member)
  have within := heads.length_le
  omega

/-- How many characters after the first `count` still belong to a match found before,
when the text is read with `skip` characters of one ahead. -/
def carried (patterns : List (List α)) : Nat → Nat → List α → Nat
  | skip, 0, _ => skip
  | skip, _ + 1, [] => skip
  | skip + 1, count + 1, _ :: rest => carried patterns skip count rest
  | 0, count + 1, c :: rest =>
      match longest patterns (c :: rest) with
      | some (_, size) => carried patterns (size - 1) count rest
      | none => carried patterns 0 count rest

theorem le_carried (patterns : List (List α)) (skip count : Nat) (text : List α) :
    skip ≤ carried patterns skip count text + count := by
  induction text generalizing skip count with
  | nil => cases count <;> simp only [carried] <;> omega
  | cons c rest ih =>
      cases count with
      | zero => exact Nat.le_refl _
      | succ count =>
          cases skip with
          | zero => exact Nat.zero_le _
          | succ skip =>
              have next := ih skip count
              rw [carried]
              omega

theorem longest_take {text : List α} {count : Nat}
    (ends : ∀ which size, longest patterns text = some (which, size) → size ≤ count) :
    longest patterns (text.take count) = longest patterns text := by
  apply longest_congr
  intro p member
  constructor
  · exact fun heads => heads.trans (List.take_prefix count text)
  · intro heads
    obtain ⟨which, size, found, most⟩ := longest_spec member heads
    exact List.prefix_take_iff.mpr ⟨heads, Nat.le_trans most (ends which size found)⟩

theorem scan_split (place skip count : Nat) (text : List α)
    (clear : carried patterns skip count text = 0) :
    scan patterns place skip text = scan patterns place skip (text.take count)
      ++ scan patterns (place + count) 0 (text.drop count) := by
  induction text generalizing place skip count with
  | nil => simp only [List.take_nil, List.drop_nil, scan, List.append_nil]
  | cons c rest ih =>
      cases count with
      | zero =>
          rw [carried] at clear
          subst clear
          simp only [List.take_zero, List.drop_zero, scan, List.nil_append, Nat.add_zero]
      | succ count =>
          have onward : place + (count + 1) = place + 1 + count := by omega
          rw [List.take_succ_cons, List.drop_succ_cons, onward]
          cases skip with
          | succ skip =>
              rw [carried] at clear
              rw [scan, scan, ih _ _ _ clear]
          | zero =>
              have ends : ∀ which size, longest patterns (c :: rest) = some (which, size) →
                  size ≤ count + 1 := by
                intro which size found
                have least := le_carried patterns (size - 1) count rest
                simp only [carried, found] at clear
                omega
              have same := longest_take ends
              rw [List.take_succ_cons] at same
              cases found : longest patterns (c :: rest) with
              | none =>
                  simp only [carried, found] at clear
                  simp only [scan, found, same]
                  exact ih _ _ _ clear
              | some best =>
                  obtain ⟨which, size⟩ := best
                  simp only [carried, found] at clear
                  simp only [scan, found, same, List.cons_append]
                  rw [ih _ _ _ clear]

theorem find_nil {place : Nat} {text p : List α} (member : p ∈ patterns) (some_char : p ≠ [])
    (none_ : scan patterns place 0 text = []) : ¬ p <:+: text := by
  induction text generalizing place with
  | nil => exact fun inside => some_char (List.infix_nil.mp inside)
  | cons c rest ih =>
      intro inside
      cases chosen : longest patterns (c :: rest) with
      | some best =>
          simp only [scan, chosen] at none_
          cases none_
      | none =>
          simp only [scan, chosen] at none_
          rcases List.infix_cons_iff.mp inside with here | later
          · obtain ⟨which, size, found, _⟩ := longest_spec member here
            rw [chosen] at found
            cases found
          · exact ih none_ later

include some_char in
theorem scan_bounds {place skip : Nat} {text : List α} {found : Found}
    (member : found ∈ scan patterns place skip text) :
    place + skip ≤ found.start ∧ found.start < found.stop ∧
      found.stop ≤ place + text.length := by
  induction text generalizing place skip with
  | nil => cases skip <;> cases member
  | cons c rest ih =>
      cases skip with
      | succ skip =>
          obtain ⟨after, proper, within⟩ := ih member
          rw [List.length_cons]
          omega
      | zero =>
          cases chosen : longest patterns (c :: rest) with
          | none =>
              simp only [scan, chosen] at member
              obtain ⟨after, proper, within⟩ := ih member
              rw [List.length_cons]
              omega
          | some best =>
              obtain ⟨which, size⟩ := best
              have sized := longest_size some_char chosen
              simp only [scan, chosen] at member
              rcases List.mem_cons.mp member with here | later
              · subst here
                dsimp only
                omega
              · obtain ⟨after, proper, within⟩ := ih later
                rw [List.length_cons]
                omega

include some_char in
theorem scan_occurs {place skip : Nat} {text : List α} {found : Found}
    (member : found ∈ scan patterns place skip text) :
    ∃ p ∈ patterns, p <+: text.drop (found.start - place) := by
  induction text generalizing place skip with
  | nil => cases skip <;> cases member
  | cons c rest ih =>
      have later : ∀ skip, found ∈ scan patterns (place + 1) skip rest →
          ∃ p ∈ patterns, p <+: (c :: rest).drop (found.start - place) := by
        intro skip within
        obtain ⟨p, listed, heads⟩ := ih within
        obtain ⟨after, _⟩ := scan_bounds some_char within
        have onward : found.start - place = found.start - (place + 1) + 1 := by omega
        rw [onward, List.drop_succ_cons]
        exact ⟨p, listed, heads⟩
      cases skip with
      | succ skip => exact later skip member
      | zero =>
          cases chosen : longest patterns (c :: rest) with
          | none =>
              simp only [scan, chosen] at member
              exact later 0 member
          | some best =>
              obtain ⟨which, size⟩ := best
              simp only [scan, chosen] at member
              rcases List.mem_cons.mp member with here | within
              · obtain ⟨p, listed, heads, _⟩ := longest_some chosen
                subst here
                rw [Nat.sub_self, List.drop_zero]
                exact ⟨p, listed, heads⟩
              · exact later _ within

theorem scan_shift (way place skip : Nat) (text : List α) :
    scan patterns (way + place) skip text = (scan patterns place skip text).map (.shift way) := by
  induction text generalizing place skip with
  | nil => simp only [scan, List.map_nil]
  | cons c rest ih =>
      cases skip with
      | succ skip => rw [scan, scan, Nat.add_assoc, ih]
      | zero =>
          cases chosen : longest patterns (c :: rest) with
          | none => simp only [scan, chosen, Nat.add_assoc, ih]
          | some best =>
              simp only [scan, chosen, Nat.add_assoc, ih, List.map_cons, Found.shift]

theorem find_split {count : Nat} {text : List α} (clear : carried patterns 0 count text = 0) :
    find patterns text = find patterns (text.take count)
      ++ (find patterns (text.drop count)).map (.shift count) := by
  rw [find, find, find, ← scan_shift, scan_split 0 0 count text clear, Nat.zero_add, Nat.add_zero]

end Cuts

/-! ## Replacement -/

omit [DecidableEq α] in
theorem splice_append (standIns : List (List α)) {front : List α} (back : List α) {done : Nat}
    {inside outside : List Found} (before : done ≤ front.length)
    (ends : ∀ found ∈ inside, found.start ≤ front.length ∧ found.stop ≤ front.length)
    (starts : ∀ found ∈ outside, front.length ≤ found.start) :
    splice standIns (front ++ back) done (inside ++ outside)
      = splice standIns front done inside
        ++ splice standIns (front ++ back) front.length outside := by
  induction inside generalizing done with
  | nil =>
      cases outside with
      | nil =>
          simp only [List.append_nil, splice]
          rw [List.drop_append_of_le_length before, List.drop_left]
      | cons next rest =>
          have after := starts next List.mem_cons_self
          simp only [List.nil_append, splice, List.take_append, List.take_of_length_le after]
          rw [List.drop_append_of_le_length before, List.drop_left]
          simp only [List.append_assoc]
  | cons found rest ih =>
      obtain ⟨⟨start, stop⟩, others⟩ := List.forall_mem_cons.mp ends
      simp only [List.cons_append, splice, ih stop others, List.append_assoc,
        List.take_append_of_le_length start]

omit [DecidableEq α] in
theorem splice_shift (standIns : List (List α)) (front back : List α) (done : Nat)
    (founds : List Found) :
    splice standIns (front ++ back) (front.length + done) (founds.map (.shift front.length))
      = splice standIns back done founds := by
  induction founds generalizing done with
  | nil => simp only [List.map_nil, splice, List.drop_append]; simp
  | cons found rest ih =>
      simp only [List.map_cons, splice, Found.shift, ih, List.take_append, List.drop_append]
      simp

section Masked

variable {patterns : List (List α)} (some_char : ∀ p ∈ patterns, p ≠ [])
include some_char

theorem masked_split (standIns : List (List α)) {count : Nat} {text : List α}
    (within : count ≤ text.length) (clear : carried patterns 0 count text = 0) :
    masked patterns standIns text = masked patterns standIns (text.take count)
      ++ masked patterns standIns (text.drop count) := by
  have length : (text.take count).length = count := List.length_take_of_le within
  have inside : ∀ found ∈ find patterns (text.take count),
      found.start ≤ (text.take count).length ∧ found.stop ≤ (text.take count).length := by
    intro found member
    obtain ⟨_, proper, stop⟩ := scan_bounds some_char member
    omega
  have outside : ∀ found ∈ (find patterns (text.drop count)).map (Found.shift count),
      (text.take count).length ≤ found.start := by
    intro found member
    obtain ⟨base, _, same⟩ := List.mem_map.mp member
    subst same
    rw [length]
    exact Nat.le_add_right _ _
  have spliced := splice_append standIns (text.drop count) (Nat.zero_le _)
    inside outside
  have shifted := splice_shift standIns (text.take count) (text.drop count) 0
    (find patterns (text.drop count))
  rw [length, Nat.add_zero] at shifted
  rw [List.take_append_drop, length] at spliced
  rw [List.take_append_drop] at shifted
  rw [masked, find_split clear, spliced, shifted]
  rfl

end Masked

/-! ## Text still to come -/

section Later

variable {patterns : List (List α)}

/-- A text that no longer text can turn into the start of another pattern has its
longest pattern for good. -/
theorem longest_append {text later : List α}
    (settled : ∀ p ∈ patterns, text <+: p → p.length ≤ text.length) :
    longest patterns (text ++ later) = longest patterns text := by
  apply longest_congr
  intro p member
  constructor
  · intro heads
    by_cases fits : p.length ≤ text.length
    · exact List.prefix_of_prefix_length_le heads (List.prefix_append text later) fits
    · have inside : text <+: p := List.prefix_of_prefix_length_le
        (List.prefix_append text later) heads (by omega)
      exact absurd (settled p member inside) fits
  · exact fun heads => heads.trans (List.prefix_append text later)

theorem carried_append {skip count : Nat} {text later : List α} (within : count ≤ text.length)
    (settled : ∀ place < count, ∀ p ∈ patterns, text.drop place <+: p →
      p.length ≤ (text.drop place).length) :
    carried patterns skip count (text ++ later) = carried patterns skip count text := by
  induction text generalizing skip count with
  | nil =>
      have none_ : count = 0 := Nat.le_zero.mp within
      subst none_
      rw [carried, carried]
  | cons c rest ih =>
      cases count with
      | zero => rw [carried, carried]
      | succ count =>
          have inner : ∀ skip, carried patterns skip count (rest ++ later)
              = carried patterns skip count rest :=
            fun _ => ih (Nat.le_of_succ_le_succ within)
              fun place before => settled (place + 1) (Nat.succ_lt_succ before)
          cases skip with
          | succ skip => rw [List.cons_append, carried, carried, inner]
          | zero =>
              have same : longest patterns (c :: (rest ++ later)) = longest patterns (c :: rest) :=
                longest_append (settled 0 (Nat.zero_lt_succ count))
              cases chosen : longest patterns (c :: rest) with
              | none => simp only [List.cons_append, carried, same, chosen, inner]
              | some best => simp only [List.cons_append, carried, same, chosen, inner]

end Later

/-! ## Where a cut retreats to -/

theorem retreat_append (cut : Nat) (front back : List Found) :
    retreat cut (front ++ back) = retreat (retreat cut front) back := by
  induction front generalizing cut with
  | nil => rfl
  | cons found rest ih => rw [List.cons_append, retreat, retreat, ih]

theorem retreat_of_outside {cut : Nat} {founds : List Found}
    (outside : ∀ found ∈ founds, found.stop ≤ cut ∨ cut ≤ found.start) :
    retreat cut founds = cut := by
  induction founds with
  | nil => rfl
  | cons found rest ih =>
      obtain ⟨here, others⟩ := List.forall_mem_cons.mp outside
      rw [retreat, if_neg (by omega), ih others]

theorem retreat_cases (cut : Nat) (founds : List Found) :
    retreat cut founds = cut ∨ ∃ found ∈ founds, retreat cut founds = found.start := by
  induction founds generalizing cut with
  | nil => exact Or.inl rfl
  | cons found rest ih =>
      rw [retreat]
      rcases ih (if found.start < cut ∧ cut < found.stop then found.start else cut)
        with kept | ⟨other, member, moved⟩
      · rw [kept]
        by_cases across : found.start < cut ∧ cut < found.stop
        · rw [if_pos across]
          exact Or.inr ⟨found, List.mem_cons_self, rfl⟩
        · rw [if_neg across]
          exact Or.inl rfl
      · exact Or.inr ⟨other, List.mem_cons_of_mem found member, moved⟩

theorem retreat_shift (way cut : Nat) (founds : List Found) :
    retreat (way + cut) (founds.map (.shift way)) = way + retreat cut founds := by
  induction founds generalizing cut with
  | nil => rfl
  | cons found rest ih =>
      rw [List.map_cons, retreat, retreat]
      by_cases across : found.start < cut ∧ cut < found.stop
      · have moved : (found.shift way).start < way + cut ∧ way + cut < (found.shift way).stop := by
          simp only [Found.shift]
          omega
        rw [if_pos across, if_pos moved, ← ih, Found.shift]
      · have kept : ¬ ((found.shift way).start < way + cut ∧
            way + cut < (found.shift way).stop) := by
          simp only [Found.shift]
          omega
        rw [if_neg across, if_neg kept, ← ih]

section Retreat

variable {patterns : List (List α)} (some_char : ∀ p ∈ patterns, p ≠ [])
include some_char

theorem retreat_scan (place : Nat) {skip count : Nat} {text : List α} (skipped : skip ≤ count)
    (within : count ≤ text.length) :
    ∃ back ≤ count, retreat (place + count) (scan patterns place skip text) = place + back ∧
      carried patterns skip back text = 0 := by
  induction text generalizing place skip count with
  | nil =>
      have none_ : count = 0 := Nat.le_zero.mp within
      subst none_
      have none_' : skip = 0 := Nat.le_zero.mp skipped
      subst none_'
      exact ⟨0, Nat.le_refl 0, by rw [scan, retreat], by rw [carried]⟩
  | cons c rest ih =>
      cases count with
      | zero =>
          have none_ : skip = 0 := Nat.le_zero.mp skipped
          subst none_
          refine ⟨0, Nat.le_refl 0, retreat_of_outside fun found member => ?_, by rw [carried]⟩
          exact Or.inr (scan_bounds some_char member).1
      | succ count =>
          have within' : count ≤ rest.length := Nat.le_of_succ_le_succ within
          have onward : place + (count + 1) = place + 1 + count := by omega
          cases skip with
          | succ skip =>
              obtain ⟨back, most, same, clear⟩ :=
                ih (place + 1) (Nat.le_of_succ_le_succ skipped) within'
              refine ⟨back + 1, Nat.succ_le_succ most, ?_, by rw [carried, clear]⟩
              rw [scan, onward, same]
              omega
          | zero =>
              cases chosen : longest patterns (c :: rest) with
              | none =>
                  obtain ⟨back, most, same, clear⟩ :=
                    ih (place + 1) (Nat.zero_le count) within'
                  refine ⟨back + 1, Nat.succ_le_succ most, ?_,
                    by simp only [carried, chosen, clear]⟩
                  simp only [scan, chosen]
                  rw [onward, same]
                  omega
              | some best =>
                  obtain ⟨which, size⟩ := best
                  obtain ⟨positive, fits⟩ := longest_size some_char chosen
                  by_cases ends : size ≤ count + 1
                  · have skipped' : size - 1 ≤ count := by omega
                    obtain ⟨back, most, same, clear⟩ := ih (place + 1) skipped' within'
                    refine ⟨back + 1, Nat.succ_le_succ most, ?_,
                      by simp only [carried, chosen, clear]⟩
                    simp only [scan, chosen, retreat]
                    rw [if_neg (by omega), onward, same]
                    omega
                  · -- the match stretches across: the cut falls back to its start
                    refine ⟨0, Nat.zero_le _, ?_, by rw [carried]⟩
                    simp only [scan, chosen, retreat]
                    rw [if_pos (by omega)]
                    refine retreat_of_outside fun found member => Or.inr ?_
                    have after := (scan_bounds some_char member).1
                    omega

theorem clear_outside {count : Nat} {text : List α} (within : count ≤ text.length)
    (clear : carried patterns 0 count text = 0) :
    ∀ found ∈ find patterns text, found.stop ≤ count ∨ count ≤ found.start := by
  intro found member
  rw [find_split clear] at member
  rcases List.mem_append.mp member with before | after
  · obtain ⟨_, _, stop⟩ := scan_bounds some_char before
    rw [List.length_take_of_le within] at stop
    exact Or.inl (by omega)
  · obtain ⟨base, _, same⟩ := List.mem_map.mp after
    subst same
    exact Or.inr (Nat.le_add_right _ _)

end Retreat

end Search

end Agentsfleet.Library.Search
