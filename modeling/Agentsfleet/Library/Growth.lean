import Agentsfleet.Library.Paired
import Agentsfleet.Library.Table

/-!
# Tables that only grow

What transactions that never delete leave of a table: every row where it was, changed no
more than the transactions may, and after them the rows inserted since, under keys of
their own.
-/

set_option autoImplicit false

namespace Agentsfleet.Library.Table

variable {Row Key : Type}

/-! ## What an update leaves of a search -/

theorem find?_update {here picks : Row → Bool} {change : Row → Row}
    (same : ∀ row, picks (change row) = picks row) (rows : List Row) :
    (update here change rows).find? picks =
      (rows.find? picks).map fun row => if here row then change row else row := by
  rw [update, List.find?_map]
  congr 2
  funext row
  rw [Function.comp_apply]
  split
  · exact same row
  · rfl

theorem any_update {here picks : Row → Bool} {change : Row → Row}
    (same : ∀ row, picks (change row) = picks row) (rows : List Row) :
    (update here change rows).any picks = rows.any picks := by
  rw [update, List.any_map]
  congr 1
  funext row
  rw [Function.comp_apply]
  split
  · exact same row
  · rfl

/-! ## Growth -/

/-- Rows stay in order, related by `moves`; the inserted ones satisfy `born`. -/
def Grows (moves : Row → Row → Prop) (born : Row → Prop) (key : Row → Key)
    (before after : List Row) : Prop :=
  ∃ kept inserted, after = kept ++ inserted ∧ List.Forall₂ moves before kept ∧
    (∀ row ∈ inserted, key row ∉ before.map key ∧ born row) ∧ (inserted.map key).Nodup

namespace Grows

variable {moves : Row → Row → Prop} {born : Row → Prop} {key : Row → Key}

theorem refl {rows : List Row} (stays : ∀ row, moves row row) :
    Grows moves born key rows rows :=
  ⟨rows, [], (List.append_nil rows).symm, List.forall₂_same.mpr fun row _ => stays row,
    (fun _ member => absurd member List.not_mem_nil), List.nodup_nil⟩

theorem of_update {here : Row → Bool} {change : Row → Row} {rows : List Row}
    (stays : ∀ row, moves row row)
    (changes : ∀ row ∈ rows, here row = true → moves row (change row)) :
    Grows moves born key rows (update here change rows) := by
  refine ⟨update here change rows, [], (List.append_nil _).symm, ?_,
    (fun _ member => absurd member List.not_mem_nil), List.nodup_nil⟩
  rw [update, List.forall₂_map_right_iff, List.forall₂_same]
  intro row member
  by_cases picked : here row = true
  · rw [if_pos picked]
    exact changes row member picked
  · rw [if_neg picked]
    exact stays row

theorem of_insert {rows : List Row} {row : Row} (stays : ∀ row, moves row row)
    (fresh : key row ∉ rows.map key) (fine : born row) :
    Grows moves born key rows (rows ++ [row]) := by
  refine ⟨rows, [row], rfl, List.forall₂_same.mpr fun row _ => stays row,
    fun other member => ?_, List.nodup_singleton _⟩
  rw [List.mem_singleton] at member
  exact member ▸ ⟨fresh, fine⟩

variable {before after : List Row}

theorem imp {looser : Row → Row → Prop} {milder : Row → Prop}
    (grows : Grows moves born key before after) (moved : ∀ old new, moves old new → looser old new)
    (bears : ∀ row, born row → milder row) : Grows looser milder key before after := by
  obtain ⟨kept, inserted, rfl, related, fresh, distinct⟩ := grows
  exact ⟨kept, inserted, rfl, related.imp moved,
    fun row member => ⟨(fresh row member).1, bears row (fresh row member).2⟩, distinct⟩

theorem forward (grows : Grows moves born key before after) {old : Row} (member : old ∈ before) :
    ∃ new ∈ after, moves old new := by
  obtain ⟨kept, inserted, rfl, related, -, -⟩ := grows
  obtain ⟨new, inside, moved⟩ := Paired.exists_right related member
  exact ⟨new, List.mem_append_left _ inside, moved⟩

theorem backward (grows : Grows moves born key before after) {new : Row} (member : new ∈ after) :
    (∃ old ∈ before, moves old new) ∨ key new ∉ before.map key ∧ born new := by
  obtain ⟨kept, inserted, rfl, related, fresh, -⟩ := grows
  rcases List.mem_append.mp member with earlier | later
  · exact .inl (Paired.exists_left related earlier)
  · exact .inr (fresh new later)

section Keys

variable (keeps : ∀ old new, moves old new → key new = key old)

include keeps

theorem keys_kept {kept : List Row} (related : List.Forall₂ moves before kept) :
    kept.map key = before.map key :=
  Paired.map_eq (fun old _ new moved => keeps old new moved) related

theorem nodup (grows : Grows moves born key before after) (apart : (before.map key).Nodup) :
    (after.map key).Nodup := by
  obtain ⟨kept, inserted, rfl, related, fresh, distinct⟩ := grows
  rw [List.map_append, keys_kept keeps related]
  refine apart.append distinct fun other earlier later => ?_
  obtain ⟨row, member, rfl⟩ := List.mem_map.mp later
  exact (fresh row member).1 earlier

theorem of_key (grows : Grows moves born key before after) (apart : (before.map key).Nodup)
    {old new : Row} (earlier : old ∈ before) (later : new ∈ after) (same : key new = key old) :
    moves old new := by
  rcases grows.backward later with ⟨other, member, moved⟩ | ⟨fresh, -⟩
  · have here : other = old :=
      List.inj_on_of_nodup_map apart member earlier ((keeps _ _ moved).symm.trans same)
    exact here ▸ moved
  · exact absurd (same ▸ List.mem_map_of_mem earlier) fresh

theorem trans {middle : List Row} (first : Grows moves born key before middle)
    (second : Grows moves born key middle after)
    (joins : ∀ a b c, moves a b → moves b c → moves a c)
    (bears : ∀ a b, born a → moves a b → born b) :
    Grows moves born key before after := by
  obtain ⟨kept, inserted, rfl, related, fresh, distinct⟩ := first
  obtain ⟨again, added, rfl, moved, later, apart⟩ := second
  -- What the second run made of the rows that stayed, and of those inserted before it.
  have front := List.forall₂_take kept.length moved
  have back := List.forall₂_drop kept.length moved
  rw [List.take_left] at front
  rw [List.drop_left] at back
  refine ⟨again.take kept.length, again.drop kept.length ++ added, ?_, ?_, ?_, ?_⟩
  · rw [← List.append_assoc, List.take_append_drop]
  · clear back moved later
    generalize again.take kept.length = stayed at front
    clear fresh distinct
    induction related generalizing stayed with
    | nil =>
        cases front
        exact .nil
    | cons step _ ih =>
        cases front with
        | cons next rest => exact .cons (joins _ _ _ step next) (ih _ rest)
  · intro row member
    rcases List.mem_append.mp member with old | new
    · obtain ⟨source, held, step⟩ := Paired.exists_left back old
      exact ⟨keeps _ _ step ▸ (fresh source held).1, bears _ _ (fresh source held).2 step⟩
    · obtain ⟨unused, fine⟩ := later row new
      refine ⟨fun taken => unused ?_, fine⟩
      rw [List.map_append, keys_kept keeps related]
      exact List.mem_append_left _ taken
  · rw [List.map_append, keys_kept keeps back]
    refine distinct.append apart fun other early late => ?_
    obtain ⟨row, member, rfl⟩ := List.mem_map.mp late
    apply (later row member).1
    rw [List.map_append]
    exact List.mem_append_right _ early

end Keys

end Grows

end Agentsfleet.Library.Table
