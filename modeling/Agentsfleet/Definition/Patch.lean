import Agentsfleet.Core.JsonTree
import Agentsfleet.Definition.Splice
import Agentsfleet.Library.Numeral

/-!
# Configuration operations

JSON Pointer traversal with fixed writable roots and exact array indices, and
what an operation does to a document: the container its pointer names changes in
the one member or element, and nothing else changes.
-/

set_option autoImplicit false

namespace Agentsfleet.Definition

open Agentsfleet.Core

inductive ConfigOp where
  | add (path : String) (value : Json)
  | replace (path : String) (value : Json)
  | remove (path : String)

namespace ConfigOp

def path : ConfigOp → String
  | .add path _ => path
  | .replace path _ => path
  | .remove path => path

def isReplace : ConfigOp → Bool
  | .replace _ _ => true
  | _ => false

end ConfigOp

def configKey : String := "config"

def descriptionKey : String := "description"

/-! ## Pointers -/

/-- `split('/')`. -/
def splitSlash : List Char → List (List Char)
  | [] => [[]]
  | c :: rest =>
      if c = '/' then [] :: splitSlash rest
      else
        match splitSlash rest with
        | first :: others => (c :: first) :: others
        | [] => [[c]]

def unescape : List Char → Option (List Char)
  | [] => some []
  | '~' :: '0' :: rest => (unescape rest).map ('~' :: ·)
  | '~' :: '1' :: rest => (unescape rest).map ('/' :: ·)
  | '~' :: _ => none
  | c :: rest => (unescape rest).map (c :: ·)

def unescapeAll : List (List Char) → Option (List String)
  | [] => some []
  | part :: rest =>
      match unescape part with
      | none => none
      | some segment => (unescapeAll rest).map (String.ofList segment :: ·)

def writable (segments : List String) (operation : ConfigOp) : Bool :=
  match segments with
  | root :: _ :: _ => decide (root = configKey)
  | [root] => decide (root = descriptionKey) && operation.isReplace
  | [] => false

def reasonUnwritable : String :=
  "only config descendants and the description are writable; the description only by replace"

def pointer (path : String) (operation : ConfigOp) : Result (List String) :=
  match path.toList with
  | '/' :: rest =>
      match unescapeAll (splitSlash rest) with
      | none => invalid "invalid JSON Pointer escape"
      | some segments =>
          if writable segments operation then .ok segments else invalid reasonUnwritable
  | _ => invalid "edit path must be a JSON Pointer"

/-! ## Traversal -/

def decimal (digits : List Char) : Nat :=
  digits.foldl (fun value digit => 10 * value + (digit.toNat - '0'.toNat)) 0

/-- An exact array index, within a `usize`. -/
def index (segment : String) : Result Nat :=
  let digits := segment.toList
  if digits = [] ∨ digits.all Char.isDigit = false ∨
      1 < digits.length ∧ digits.head? = some '0' then
    invalid "array index must be a canonical unsigned decimal"
  else if decimal digits < 2 ^ 64 then .ok (decimal digits)
  else invalid "array index exceeds range"

def reasonParent : String := "edit parent does not exist"

/-- `parent`: the container that the segments lead to. -/
def parent : Json → List String → Result Json
  | value, [] => .ok value
  | .object members, segment :: rest =>
      match Members.get? members segment with
      | none => invalid reasonParent
      | some child => parent child rest
  | .array items, segment :: rest =>
      match index segment with
      | .error error => .error error
      | .ok at_ =>
          match items[at_]? with
          | none => invalid reasonParent
          | some child => parent child rest
  | _, _ :: _ => invalid reasonParent

/-- The document once the container `parent` borrowed reads `changed`. -/
def through : Json → List String → Json → Json
  | _, [], changed => changed
  | .object members, segment :: rest, changed =>
      match Members.get? members segment with
      | none => .object members
      | some child => .object (Members.replace members segment (through child rest changed))
  | .array items, segment :: rest, changed =>
      match index segment with
      | .error _ => .array items
      | .ok at_ =>
          match items[at_]? with
          | none => .array items
          | some child => .array (items.set at_ (through child rest changed))
  | value, _ :: _, _ => value

def reasonArrayBounds : String := "array edit is outside its bounds"

/-- An operation on an array's element, at the index its member names. -/
def mutateArray (items : List Json) (at_ : Nat) : ConfigOp → Result Json
  | .add _ value =>
      if at_ ≤ items.length then .ok (.array (items.insertIdx at_ value))
      else invalid reasonArrayBounds
  | .replace _ value =>
      if at_ < items.length then .ok (.array (items.set at_ value)) else invalid reasonArrayBounds
  | .remove _ =>
      if at_ < items.length then .ok (.array (items.eraseIdx at_)) else invalid reasonArrayBounds

def isAdd : ConfigOp → Bool
  | .add _ _ => true
  | _ => false

/-- `mutate`; an object's members are in no order that counts. -/
def mutate (container : Json) (member : String) (operation : ConfigOp) : Result Json :=
  match container with
  | .object members =>
      match operation with
      | .add _ value => .ok (.object (Members.insert members member value))
      | .replace _ value =>
          if (Members.get? members member).isSome then
            .ok (.object (Members.replace members member value))
          else invalid "replacement member is absent"
      | .remove _ =>
          if (Members.get? members member).isSome then
            .ok (.object (Members.remove members member))
          else invalid "removed member is absent"
  | .array items =>
      if member = "-" ∧ isAdd operation = true then mutateArray items items.length operation
      else
        match index member with
        | .error error => .error error
        | .ok at_ => mutateArray items at_ operation
  | _ => invalid "edit parent must be an object or array"

def applyOne (document : Json) (operation : ConfigOp) : Result Json :=
  match pointer operation.path operation with
  | .error error => .error error
  | .ok segments =>
      match segments.getLast? with
      | none => invalid "edit path has no member"
      | some member =>
          match parent document segments.dropLast with
          | .error error => .error error
          | .ok container =>
              match mutate container member operation with
              | .error error => .error error
              | .ok changed => .ok (through document segments.dropLast changed)

/-- `patch::apply`. -/
def applyAll : Json → List ConfigOp → Result Json
  | document, [] => .ok document
  | document, operation :: rest =>
      match applyOne document operation with
      | .error error => .error error
      | .ok changed => applyAll changed rest

/-! ## What an operation means -/

def escape (segment : List Char) : List Char :=
  segment.flatMap fun c => if c = '~' then ['~', '0'] else if c = '/' then ['~', '1'] else [c]

def render (segments : List String) : List Char :=
  segments.flatMap fun segment => '/' :: escape segment.toList

inductive Changes (member : String) : ConfigOp → Json → Json → Prop where
  | addMember {path : String} {value : Json} {members after : Members}
      (lookup : ∀ key, after.get? key = if key = member then some value else members.get? key) :
      Changes member (.add path value) (.object members) (.object after)
  | replaceMember {path : String} {value : Json} {members after : Members}
      (there : members.get? member ≠ none)
      (lookup : ∀ key, after.get? key = if key = member then some value else members.get? key) :
      Changes member (.replace path value) (.object members) (.object after)
  | removeMember {path : String} {members after : Members}
      (there : members.get? member ≠ none)
      (lookup : ∀ key, after.get? key = if key = member then none else members.get? key) :
      Changes member (.remove path) (.object members) (.object after)
  | append {path : String} {value : Json} {items : List Json} (dash : member = "-") :
      Changes member (.add path value) (.array items) (.array (items ++ [value]))
  | addElement {path : String} {value : Json} {items : List Json} {place : Nat}
      (named : member = Nat.repr place) (inside : place ≤ items.length) :
      Changes member (.add path value) (.array items)
        (.array (items.take place ++ value :: items.drop place))
  | replaceElement {path : String} {value : Json} {items : List Json} {place : Nat}
      (named : member = Nat.repr place) (inside : place < items.length) :
      Changes member (.replace path value) (.array items)
        (.array (items.take place ++ value :: items.drop (place + 1)))
  | removeElement {path : String} {items : List Json} {place : Nat}
      (named : member = Nat.repr place) (inside : place < items.length) :
      Changes member (.remove path) (.array items)
        (.array (items.take place ++ items.drop (place + 1)))

/-- A document changed in the one value its segments lead to, and nowhere else. -/
inductive Rewrites (change : Json → Json → Prop) : List String → Json → Json → Prop where
  | here {before after : Json} (changed : change before after) : Rewrites change [] before after
  | member {members others : Members} {key : String} {child changed : Json} {rest : List String}
      (held : members.get? key = some child) (below : Rewrites change rest child changed)
      (lookup : ∀ other, others.get? other = if other = key then some changed
        else members.get? other) :
      Rewrites change (key :: rest) (.object members) (.object others)
  | element {items : List Json} {place : Nat} {child changed : Json} {rest : List String}
      (held : items[place]? = some child) (below : Rewrites change rest child changed) :
      Rewrites change (Nat.repr place :: rest) (.array items) (.array (items.set place changed))

/-- An operation performed at the pointer its path spells, below a writable root. -/
def Performs (operation : ConfigOp) (before after : Json) : Prop :=
  ∃ above member, operation.path.toList = render (above ++ [member]) ∧
    writable (above ++ [member]) operation = true ∧
    Rewrites (Changes member operation) above before after

def PerformsAll : List ConfigOp → Json → Json → Prop
  | [], before, after => after = before
  | operation :: rest, before, after =>
      ∃ next, Performs operation before next ∧ PerformsAll rest next after

/-! ## Pointers read as they are spelled -/

def joinSlash : List (List Char) → List Char
  | [] => []
  | [part] => part
  | part :: next :: rest => part ++ '/' :: joinSlash (next :: rest)

theorem splitSlash_ne_nil (text : List Char) : splitSlash text ≠ [] := by
  cases text with
  | nil => exact nofun
  | cons c rest =>
      rw [splitSlash]
      split
      · exact nofun
      · split
        · exact nofun
        · exact nofun

theorem splitSlash_spec (text : List Char) :
    joinSlash (splitSlash text) = text ∧ ∀ part ∈ splitSlash text, '/' ∉ part := by
  induction text with
  | nil =>
      refine ⟨rfl, fun part member => ?_⟩
      rw [List.mem_singleton.mp member]
      exact List.not_mem_nil
  | cons c rest ih =>
      obtain ⟨joined, plain⟩ := ih
      have some_part := splitSlash_ne_nil rest
      rw [splitSlash]
      by_cases slash : c = '/'
      · rw [if_pos slash]
        refine ⟨?_, fun part member => ?_⟩
        · cases parts : splitSlash rest with
          | nil => exact absurd parts some_part
          | cons first others =>
              rw [parts] at joined
              rw [joinSlash, joined, slash]
              rfl
        · rcases List.mem_cons.mp member with rfl | later
          · exact List.not_mem_nil
          · exact plain part later
      · rw [if_neg slash]
        cases parts : splitSlash rest with
        | nil => exact absurd parts some_part
        | cons first others =>
            rw [parts] at joined plain
            refine ⟨?_, fun part member => ?_⟩
            · cases others with
              | nil => exact congrArg (c :: ·) joined
              | cons next others => exact congrArg (c :: ·) joined
            · rcases List.mem_cons.mp member with rfl | later
              · intro inside
                rcases List.mem_cons.mp inside with same | inside
                · exact slash same.symm
                · exact plain first List.mem_cons_self inside
              · exact plain part (List.mem_cons_of_mem _ later)

theorem escape_unescape {part segment : List Char} (plain : '/' ∉ part)
    (read : unescape part = some segment) : escape segment = part := by
  induction part using unescape.induct generalizing segment with
  | case1 =>
      obtain rfl := Option.some.inj read
      rfl
  | case2 rest ih =>
      rw [unescape] at read
      obtain ⟨inner, found, rfl⟩ := Option.map_eq_some_iff.mp read
      have same := ih (fun inside => plain (List.mem_cons_of_mem _ (List.mem_cons_of_mem _ inside)))
        found
      rw [← same]
      rfl
  | case3 rest ih =>
      rw [unescape] at read
      obtain ⟨inner, found, rfl⟩ := Option.map_eq_some_iff.mp read
      have same := ih (fun inside => plain (List.mem_cons_of_mem _ (List.mem_cons_of_mem _ inside)))
        found
      rw [← same]
      rfl
  | case4 rest zero one =>
      rw [unescape] at read
      · nomatch read
      · exact zero
      · exact one
  | case5 c rest zero one other ih =>
      rw [unescape] at read
      · obtain ⟨inner, found, rfl⟩ := Option.map_eq_some_iff.mp read
        have same := ih (fun inside => plain (List.mem_cons_of_mem _ inside)) found
        have not_slash : c ≠ '/' := fun slash => plain (slash ▸ List.mem_cons_self)
        have not_tilde : c ≠ '~' := fun tilde => other tilde
        rw [escape, List.flatMap_cons, if_neg not_tilde, if_neg not_slash, ← same]
        rfl
      · exact zero
      · exact one
      · exact other

theorem render_unescapeAll {parts : List (List Char)} {segments : List String}
    (plain : ∀ part ∈ parts, '/' ∉ part) (read : unescapeAll parts = some segments)
    (some_part : parts ≠ []) : render segments = '/' :: joinSlash parts := by
  induction parts generalizing segments with
  | nil => exact absurd rfl some_part
  | cons part rest ih =>
      rw [unescapeAll] at read
      cases found : unescape part with
      | none =>
          rw [found] at read
          nomatch read
      | some segment =>
          rw [found] at read
          obtain ⟨others, inner, rfl⟩ := Option.map_eq_some_iff.mp read
          have here := escape_unescape (plain part List.mem_cons_self) found
          rw [render, List.flatMap_cons, String.toList_ofList, here]
          cases rest with
          | nil =>
              obtain rfl := Option.some.inj inner
              rw [List.flatMap_nil, List.append_nil]
              rfl
          | cons next rest =>
              have later := ih (fun part member => plain part (List.mem_cons_of_mem _ member)) inner
                nofun
              rw [render] at later
              rw [later]
              rfl

theorem pointer_spec {path : String} {operation : ConfigOp} {segments : List String}
    (read : pointer path operation = .ok segments) :
    path.toList = render segments ∧ writable segments operation = true := by
  rw [pointer] at read
  split at read
  · rename_i rest opens
    cases parts : unescapeAll (splitSlash rest) with
    | none =>
        rw [parts] at read
        nomatch read
    | some found =>
        rw [parts] at read
        dsimp only at read
        split at read
        · rename_i allowed
          obtain rfl := Except.ok.inj read
          obtain ⟨joined, plain⟩ := splitSlash_spec rest
          have spelled := render_unescapeAll plain parts (splitSlash_ne_nil rest)
          rw [joined] at spelled
          exact ⟨opens.trans spelled.symm, allowed⟩
        · nomatch read
  · nomatch read

/-! ## Indices read as they are spelled -/

theorem decimal_eq (digits : List Char) : decimal digits = Nat.ofDigitChars 10 digits 0 :=
  Nat.ofDigitChars_eq_foldl.symm

theorem index_spec {segment : String} {at_ : Nat} (read : index segment = .ok at_) :
    segment = Nat.repr at_ := by
  rw [index] at read
  split at read
  · nomatch read
  · rename_i exact_
    simp only [not_or, not_and, Bool.not_eq_false] at exact_
    obtain ⟨some_digit, all, canonical⟩ := exact_
    split at read
    · obtain rfl := Except.ok.inj read
      refine String.toList_injective ?_
      rw [Nat.toList_repr, decimal_eq,
        Library.Numeral.toDigits_ofDigitChars (List.all_eq_true.mp all) some_digit]
      have long := List.length_pos_iff.mpr some_digit
      by_cases one : segment.toList.length = 1
      · exact .inr one
      · exact .inl (canonical (by omega))
    · nomatch read

/-! ## What an operation does -/

theorem get?_cons (name : String) (held : Json) (rest : Members) (key : String) :
    Members.get? ((name, held) :: rest) key =
      if name = key then some held else Members.get? rest key := by
  rw [Members.get?, List.find?_cons]
  by_cases same : name = key
  · rw [decide_eq_true same, if_pos same]
    rfl
  · rw [decide_eq_false same, if_neg same]
    rfl

theorem get?_replace (members : Members) (key : String) (value : Json) (other : String) :
    (members.replace key value).get? other =
      if other = key ∧ (members.get? key).isSome = true then some value
      else members.get? other := by
  induction members with
  | nil =>
      rw [if_neg fun held => nomatch held.2]
      rfl
  | cons first rest ih =>
      obtain ⟨name, held⟩ := first
      rw [Members.replace, List.map_cons]
      change Members.get? (_ :: Members.replace rest key value) other = _
      by_cases here : name = key
      · subst here
        rw [if_pos rfl, get?_cons, get?_cons, get?_cons, if_pos rfl, ih]
        by_cases same : name = other
        · rw [if_pos same, if_pos ⟨same.symm, rfl⟩]
        · rw [if_neg same, if_neg fun both => same both.1.symm,
            if_neg fun both => same both.1.symm, if_neg same]
      · rw [if_neg here, get?_cons, get?_cons, get?_cons, if_neg here, ih]
        by_cases same : name = other
        · rw [if_pos same, if_neg fun both => here (same.trans both.1)]
          rw [if_pos same]
        · rw [if_neg same, if_neg same]

theorem get?_none {members : Members} {key : String}
    (absent : members.any (fun member => decide (member.1 = key)) = false) :
    members.get? key = none := by
  rw [Members.get?, List.find?_eq_none.mpr (List.any_eq_false.mp absent)]
  rfl

theorem get?_some {members : Members} {key : String}
    (there : members.any (fun member => decide (member.1 = key)) = true) :
    (members.get? key).isSome = true := by
  rw [Members.get?, Option.isSome_map, List.find?_isSome]
  exact List.any_eq_true.mp there

theorem get?_insert (members : Members) (key : String) (value : Json) (other : String) :
    (members.insert key value).get? other = if other = key then some value
      else members.get? other := by
  rw [Members.insert]
  split
  · rename_i there
    rw [get?_replace, get?_some there]
    simp only [and_true]
  · rename_i absent
    have none_here := get?_none (Bool.eq_false_iff.mpr absent)
    by_cases same : other = key
    · subst same
      rw [if_pos rfl, Members.get?, List.find?_append]
      rw [Members.get?, Option.map_eq_none_iff] at none_here
      rw [none_here, Option.none_or, List.find?_cons, decide_eq_true rfl]
      rfl
    · rw [if_neg same, Members.get?, List.find?_append, List.find?_cons,
        decide_eq_false (Ne.symm same), List.find?_nil, Option.or_none]
      rfl

theorem get?_remove (members : Members) (key other : String) :
    (members.remove key).get? other = if other = key then none else members.get? other := by
  induction members with
  | nil =>
      split
      · rfl
      · rfl
  | cons first rest ih =>
      obtain ⟨name, held⟩ := first
      rw [Members.remove, List.filter_cons]
      by_cases here : name = key
      · rw [if_neg (by rw [decide_eq_true_eq]; exact fun differs => differs here)]
        change Members.get? (Members.remove rest key) other = _
        rw [ih, get?_cons]
        by_cases same : other = key
        · rw [if_pos same, if_pos same]
        · rw [if_neg same, if_neg same, if_neg fun equal => same (equal.symm.trans here)]
      · rw [if_pos (decide_eq_true here)]
        change Members.get? ((name, held) :: Members.remove rest key) other = _
        rw [get?_cons, get?_cons, ih]
        by_cases same : other = key
        · rw [if_pos same, if_pos same, if_neg fun equal => here (equal.trans same)]
        · rw [if_neg same, if_neg same]

theorem insertIdx_split {items : List Json} {place : Nat} (inside : place ≤ items.length)
    (value : Json) :
    items.insertIdx place value = items.take place ++ value :: items.drop place := by
  induction items generalizing place with
  | nil =>
      obtain rfl := Nat.le_zero.mp inside
      rfl
  | cons item rest ih =>
      cases place with
      | zero => rfl
      | succ place =>
          rw [List.insertIdx_succ_cons, ih (Nat.le_of_succ_le_succ inside)]
          rfl

theorem mutate_changes {container changed : Json} {member : String} {operation : ConfigOp}
    (done : mutate container member operation = .ok changed) :
    Changes member operation container changed := by
  cases container with
  | object members =>
      cases operation with
      | add path value =>
          obtain rfl := Except.ok.inj done
          exact .addMember fun key => get?_insert members member value key
      | replace path value =>
          rw [mutate] at done
          split at done
          · rename_i there
            obtain rfl := Except.ok.inj done
            refine .replaceMember (Option.isSome_iff_ne_none.mp there) fun key => ?_
            rw [get?_replace, there]
            simp only [and_true]
          · nomatch done
      | remove path =>
          rw [mutate] at done
          split at done
          · rename_i there
            obtain rfl := Except.ok.inj done
            exact .removeMember (Option.isSome_iff_ne_none.mp there) fun key =>
              get?_remove members member key
          · nomatch done
  | array items =>
      rw [mutate] at done
      split at done
      · rename_i dash
        cases operation with
        | add path value =>
            rw [mutateArray, if_pos (Nat.le_refl _)] at done
            obtain rfl := Except.ok.inj done
            rw [List.insertIdx_length_self]
            exact .append dash.1
        | replace path value => nomatch dash.2
        | remove path => nomatch dash.2
      · split at done
        · nomatch done
        · rename_i at_ read
          have named := index_spec read
          cases operation with
          | add path value =>
              rw [mutateArray] at done
              split at done
              · rename_i inside
                obtain rfl := Except.ok.inj done
                rw [insertIdx_split inside]
                exact .addElement named inside
              · nomatch done
          | replace path value =>
              rw [mutateArray] at done
              split at done
              · rename_i inside
                obtain rfl := Except.ok.inj done
                rw [List.set_eq_take_append_cons_drop, if_pos inside]
                exact .replaceElement named inside
              · nomatch done
          | remove path =>
              rw [mutateArray] at done
              split at done
              · rename_i inside
                obtain rfl := Except.ok.inj done
                rw [List.eraseIdx_eq_take_drop_succ]
                exact .removeElement named inside
              · nomatch done
  | null => nomatch done
  | bool value => nomatch done
  | number text => nomatch done
  | string value => nomatch done

/-- Writing through what `parent` borrowed changes that container, and nothing else. -/
theorem through_rewrites {change : Json → Json → Prop} {segments : List String}
    {document container changed : Json} (found : parent document segments = .ok container)
    (changes : change container changed) :
    Rewrites change segments document (through document segments changed) := by
  induction segments generalizing document with
  | nil =>
      rw [parent] at found
      obtain rfl := Except.ok.inj found
      exact .here changes
  | cons segment rest ih =>
      cases document with
      | object members =>
          rw [parent] at found
          cases held : Members.get? members segment with
          | none =>
              rw [held] at found
              nomatch found
          | some child =>
              rw [held] at found
              rw [through, held]
              refine .member held (ih found) fun other => ?_
              rw [get?_replace, held]
              simp only [Option.isSome_some, and_true]
      | array items =>
          rw [parent] at found
          cases read : index segment with
          | error error =>
              rw [read] at found
              nomatch found
          | ok at_ =>
              rw [read] at found
              dsimp only at found
              obtain rfl := index_spec read
              cases held : items[at_]? with
              | none =>
                  rw [held] at found
                  nomatch found
              | some child =>
                  rw [held] at found
                  rw [through, read]
                  dsimp only
                  rw [held]
                  exact .element held (ih found)
      | null => nomatch found
      | bool value => nomatch found
      | number text => nomatch found
      | string value => nomatch found

theorem rewrites_member {change : Json → Json → Prop} {key : String} {rest : List String}
    {members : Members} {after : Json}
    (rewrites : Rewrites change (key :: rest) (.object members) after) :
    ∃ others, after = .object others ∧
      ∀ other, other ≠ key → Members.get? others other = members.get? other := by
  cases rewrites with
  | member held below lookup => exact ⟨_, rfl, fun other apart => by rw [lookup, if_neg apart]⟩

theorem applyOne_performs {document changed : Json} {operation : ConfigOp}
    (done : applyOne document operation = .ok changed) :
    Performs operation document changed := by
  rw [applyOne] at done
  cases read : pointer operation.path operation with
  | error error =>
      rw [read] at done
      nomatch done
  | ok segments =>
      rw [read] at done
      dsimp only at done
      obtain ⟨spelled, allowed⟩ := pointer_spec read
      cases last : segments.getLast? with
      | none =>
          rw [last] at done
          nomatch done
      | some member =>
          rw [last] at done
          dsimp only at done
          have whole : segments.dropLast ++ [member] = segments :=
            List.dropLast_append_getLast? member last
          cases found : parent document segments.dropLast with
          | error error =>
              rw [found] at done
              nomatch done
          | ok container =>
              rw [found] at done
              dsimp only at done
              cases mutated : mutate container member operation with
              | error error =>
                  rw [mutated] at done
                  nomatch done
              | ok after =>
                  rw [mutated] at done
                  obtain rfl := Except.ok.inj done
                  exact ⟨segments.dropLast, member, by rw [whole, spelled],
                    by rw [whole, allowed], through_rewrites found (mutate_changes mutated)⟩

theorem applyAll_performs {operations : List ConfigOp} {document changed : Json}
    (done : applyAll document operations = .ok changed) :
    PerformsAll operations document changed := by
  induction operations generalizing document with
  | nil => exact (Except.ok.inj done).symm
  | cons operation rest ih =>
      rw [applyAll] at done
      cases first : applyOne document operation with
      | error error =>
          rw [first] at done
          nomatch done
      | ok next =>
          rw [first] at done
          exact ⟨next, applyOne_performs first, ih done⟩

end Agentsfleet.Definition
