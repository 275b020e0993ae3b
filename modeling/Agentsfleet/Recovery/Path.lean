import Mathlib.Data.List.Basic
import Mathlib.Data.String.Basic

/-!
# Workspace paths

Paths as the text the recovery code splits, joins and cuts.
-/

set_option autoImplicit false

namespace Agentsfleet.Recovery

/-- `text.split('/')`. -/
def split (text : String) : List String := (text.toList.splitOn '/').map String.ofList

/-- `parts.join("/")`. -/
def join (parts : List String) : String :=
  String.ofList (['/'].intercalate (parts.map String.toList))

def rsplit : List Char → Option (List Char × List Char)
  | [] => none
  | c :: rest =>
      match rsplit rest with
      | some (parent, name) => some (c :: parent, name)
      | none => if c = '/' then some ([], rest) else none

/-- `text.rsplit_once('/')`. -/
def rsplitOnce (text : String) : Option (String × String) :=
  (rsplit text.toList).map fun parts => (String.ofList parts.1, String.ofList parts.2)

def parentParts (path : String) : List String :=
  match rsplitOnce path with
  | some (parent, _) => split parent
  | none => []

def cuts : List Char → List (List Char)
  | [] => []
  | c :: rest =>
      let deeper := (cuts rest).map (c :: ·)
      if c = '/' then [] :: deeper else deeper

/-- `path[..position]` at each `/` of the path, outermost first. -/
def ancestors (path : String) : List String := (cuts path.toList).map String.ofList

/-- A component: no `/` in it. -/
def Plain (part : String) : Prop := '/' ∉ part.toList

theorem splitOn_plain (chars : List Char) : ∀ part ∈ chars.splitOn '/', '/' ∉ part := by
  induction chars with
  | nil => simp
  | cons c rest ih =>
      rw [List.splitOn_cons_eq_if_modifyHead]
      split
      · simpa using ih
      · rename_i other
        cases parts : rest.splitOn '/' with
        | nil => simp
        | cons first others =>
            rw [parts] at ih
            intro part member
            rw [List.modifyHead_cons, List.mem_cons] at member
            rcases member with rfl | later
            · have clear := ih first (by simp)
              simp only [beq_iff_eq] at other
              simp [clear, Ne.symm other]
            · exact ih part (by simp [later])

theorem split_plain (text : String) : ∀ part ∈ split text, Plain part := by
  intro part member
  obtain ⟨chars, held, rfl⟩ := List.mem_map.mp member
  simpa [Plain] using splitOn_plain text.toList chars held

theorem split_join {parts : List String} (some_part : parts ≠ [])
    (plain : ∀ part ∈ parts, Plain part) : split (join parts) = parts := by
  have whole : (['/'].intercalate (parts.map String.toList)).splitOn '/' =
      parts.map String.toList := by
    apply List.splitOn_intercalate
    · intro chars member
      obtain ⟨part, held, rfl⟩ := List.mem_map.mp member
      exact plain part held
    · simpa using some_part
  rw [split, join, String.toList_ofList, whole, List.map_map]
  exact List.map_id'' (fun part => String.ofList_toList) parts

theorem rsplit_none {chars : List Char} (found : rsplit chars = none) : '/' ∉ chars := by
  induction chars with
  | nil => simp
  | cons c rest ih =>
      unfold rsplit at found
      cases deeper : rsplit rest with
      | some parts => simp [deeper] at found
      | none =>
          simp only [deeper, ite_eq_right_iff, reduceCtorEq, imp_false] at found
          simp [ih deeper, Ne.symm found]

theorem rsplit_some {chars parent name : List Char} (found : rsplit chars = some (parent, name)) :
    chars = parent ++ '/' :: name ∧ '/' ∉ name := by
  induction chars generalizing parent with
  | nil => simp [rsplit] at found
  | cons c rest ih =>
      unfold rsplit at found
      cases deeper : rsplit rest with
      | some parts =>
          simp only [deeper, Option.some.injEq, Prod.mk.injEq] at found
          obtain ⟨rfl, rfl⟩ := found
          obtain ⟨whole, clear⟩ := ih deeper
          exact ⟨by rw [whole]; rfl, clear⟩
      | none =>
          simp only [deeper, Option.ite_none_right_eq_some, Option.some.injEq,
            Prod.mk.injEq] at found
          obtain ⟨rfl, rfl, rfl⟩ := found
          exact ⟨rfl, rsplit_none deeper⟩

theorem parentParts_eq (path : String) : parentParts path = (split path).dropLast := by
  unfold parentParts rsplitOnce split
  cases found : rsplit path.toList with
  | none =>
      rw [List.splitOn_eq_singleton (rsplit_none found)]
      rfl
  | some parts =>
      obtain ⟨parent, name⟩ := parts
      obtain ⟨whole, clear⟩ := rsplit_some found
      rw [whole, List.splitOn_append_cons_self, List.splitOn_eq_singleton clear]
      simp

theorem parentParts_plain (path : String) : ∀ part ∈ parentParts path, Plain part := by
  intro part member
  rw [parentParts_eq] at member
  exact split_plain path part (List.dropLast_subset _ member)

/-- Resolution starts again in the directory of the component it met. -/
theorem parentParts_join {dir : List String} {name : String}
    (plain : ∀ part ∈ dir ++ [name], Plain part) : parentParts (join (dir ++ [name])) = dir := by
  rw [parentParts_eq, split_join (by simp) plain, List.dropLast_concat]

/-! ## Paths below a path -/

/-- Whether `path` lies below `top`: it begins with `top/`. -/
def isBelow (top path : String) : Bool := (top ++ "/").toList.isPrefixOf path.toList

theorem mem_cuts {chars top : List Char} :
    top ∈ cuts chars ↔ ∃ rest, chars = top ++ '/' :: rest := by
  induction chars generalizing top with
  | nil => simp [cuts]
  | cons c rest ih =>
      have deeper : top ∈ (cuts rest).map (c :: ·) ↔
          ∃ inner, top = c :: inner ∧ ∃ tail, rest = inner ++ '/' :: tail := by
        rw [List.mem_map]
        constructor
        · rintro ⟨inner, member, rfl⟩
          exact ⟨inner, rfl, ih.mp member⟩
        · rintro ⟨inner, rfl, found⟩
          exact ⟨inner, ih.mpr found, rfl⟩
      have cut : top ∈ cuts (c :: rest) ↔
          c = '/' ∧ top = [] ∨ top ∈ (cuts rest).map (c :: ·) := by
        rw [cuts]
        by_cases slash : c = '/'
        · rw [if_pos slash, List.mem_cons]
          simp only [slash, true_and]
        · rw [if_neg slash]
          simp only [slash, false_and, false_or]
      rw [cut, deeper]
      constructor
      · rintro (⟨rfl, rfl⟩ | ⟨inner, rfl, tail, rfl⟩)
        · exact ⟨rest, rfl⟩
        · exact ⟨tail, rfl⟩
      · rintro ⟨tail, whole⟩
        cases top with
        | nil =>
            rw [List.nil_append, List.cons.injEq] at whole
            exact .inl ⟨whole.1, rfl⟩
        | cons first inner =>
            rw [List.cons_append, List.cons.injEq] at whole
            exact .inr ⟨inner, by rw [whole.1], tail, whole.2⟩

theorem mem_ancestors_iff {top path : String} : top ∈ ancestors path ↔ isBelow top path = true := by
  rw [isBelow, List.isPrefixOf_iff_prefix, ancestors, List.mem_map]
  constructor
  · rintro ⟨chars, member, rfl⟩
    obtain ⟨rest, whole⟩ := mem_cuts.mp member
    exact ⟨rest, by simp [whole]⟩
  · rintro ⟨rest, whole⟩
    refine ⟨top.toList, mem_cuts.mpr ⟨rest, ?_⟩, String.ofList_toList⟩
    simpa using whole.symm

theorem prefix_between {front back middle : List Char}
    (least : ¬ List.Lex (· < ·) middle front)
    (most : ¬ List.Lex (· < ·) (front ++ back) middle) : front <+: middle := by
  induction front generalizing middle with
  | nil => exact List.nil_prefix
  | cons c front ih =>
      cases middle with
      | nil => exact absurd .nil least
      | cons d middle =>
          have not_before : ¬ d < c := fun before => least (.rel before)
          have not_after : ¬ c < d := fun after => most (.rel after)
          have same : c = d := le_antisymm (not_lt.mp not_before) (not_lt.mp not_after)
          subst same
          apply List.cons_prefix_cons.mpr ⟨rfl, ih ?_ ?_⟩
          · exact fun before => least (.cons before)
          · exact fun after => most (.cons after)

theorem not_lex_of_prefix {front back : List Char} :
    ¬ List.Lex (· < ·) (front ++ back) front := by
  induction front with
  | nil => exact fun before => nomatch before
  | cons c front ih =>
      intro before
      cases before with
      | cons inner => exact ih inner
      | rel lower => exact absurd lower (lt_irrefl c)

theorem isBelow_least (top path : String) (below : isBelow top path = true) :
    top ++ "/" ≤ path := by
  obtain ⟨rest, whole⟩ := List.isPrefixOf_iff_prefix.mp below
  apply not_lt.mp
  intro before
  have lower := String.lt_iff_toList_lt.mp before
  rw [← whole] at lower
  exact not_lex_of_prefix lower

theorem isBelow_closed (top earlier later : String) (least : top ++ "/" ≤ earlier)
    (order : earlier ≤ later) (below : isBelow top later = true) :
    isBelow top earlier = true := by
  obtain ⟨rest, whole⟩ := List.isPrefixOf_iff_prefix.mp below
  apply List.isPrefixOf_iff_prefix.mpr
  apply prefix_between
  · intro before
    exact absurd (String.lt_iff_toList_lt.mpr before) (not_lt.mpr least)
  · rw [whole]
    intro after
    exact absurd (String.lt_iff_toList_lt.mpr after) (not_lt.mpr order)

end Agentsfleet.Recovery
