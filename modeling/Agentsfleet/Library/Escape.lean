import Mathlib.Data.List.Basic
import Mathlib.Data.List.Infix

/-!
# Escaping

Some elements of a text are written as entities, sequences that start with such an
element themselves.  One pass over the escaped text gives the text back, whatever it
held; a text cut between entities is the escaped form of a prefix.
-/

set_option autoImplicit false

namespace Agentsfleet.Library

variable {α : Type} [DecidableEq α]

structure Entities (α : Type) [DecidableEq α] where
  entries : List (α × List α)
  /-- An entity starts with an escaped element. -/
  opens : ∀ entry ∈ entries, ∃ key ∈ entries.map Prod.fst, entry.2.head? = some key
  /-- It holds no other. -/
  plain : ∀ entry ∈ entries, ∀ a ∈ entry.2.tail, a ∉ entries.map Prod.fst
  /-- None starts with another. -/
  apart : ∀ entry ∈ entries, ∀ other ∈ entries, entry.2 <+: other.2 → entry = other

namespace Entities

variable (entities : Entities α)

/-- The entity of `a`, when it is escaped. -/
def entity (a : α) : Option (List α) :=
  (entities.entries.find? fun entry => entry.1 == a).map Prod.snd

/-- What `a` is written as. -/
def write (a : α) : List α := (entities.entity a).getD [a]

def escape (text : List α) : List α := text.flatMap entities.write

/-- The entry whose entity `text` starts with. -/
def reads (text : List α) : Option (α × List α) :=
  entities.entries.find? fun entry => entry.2.isPrefixOf text

/-- What is left of a pass; its first `skip` elements are of an entity already read. -/
def unescapeFrom : Nat → List α → List α
  | _, [] => []
  | skip + 1, _ :: rest => unescapeFrom skip rest
  | 0, a :: rest =>
      match entities.reads (a :: rest) with
      | some entry => entry.1 :: unescapeFrom (entry.2.length - 1) rest
      | none => a :: unescapeFrom 0 rest

/-- One pass from left to right, each entity read as the element it stands for. -/
def unescape (text : List α) : List α := entities.unescapeFrom 0 text

/-- The longest prefix that takes no more than `budget` once escaped. -/
def fit : Nat → List α → List α
  | _, [] => []
  | budget, a :: rest =>
      if (entities.write a).length ≤ budget then
        a :: fit (budget - (entities.write a).length) rest
      else []

variable {entities}

theorem escape_cons (a : α) (rest : List α) :
    entities.escape (a :: rest) = entities.write a ++ entities.escape rest :=
  List.flatMap_cons

theorem write_cases (a : α) :
    (∃ entry ∈ entities.entries, entry.1 = a ∧ entities.write a = entry.2) ∨
      (a ∉ entities.entries.map Prod.fst ∧ entities.write a = [a]) := by
  rw [write, entity]
  cases found : entities.entries.find? fun entry => entry.1 == a with
  | some entry =>
      left
      have same : entry.1 = a := by simpa using List.find?_some found
      exact ⟨entry, List.mem_of_find?_eq_some found, same, rfl⟩
  | none =>
      right
      refine ⟨fun member => ?_, rfl⟩
      obtain ⟨entry, listed, rfl⟩ := List.mem_map.mp member
      have other := List.find?_eq_none.mp found entry listed
      exact other (beq_self_eq_true entry.1)

theorem reads_spec {text : List α} {entry : α × List α} (found : entities.reads text = some entry) :
    entry ∈ entities.entries ∧ entry.2 <+: text := by
  rw [reads] at found
  have front := List.find?_some found
  exact ⟨List.mem_of_find?_eq_some found, List.isPrefixOf_iff_prefix.mp front⟩

theorem reads_entity {entry : α × List α} (listed : entry ∈ entities.entries) (rest : List α) :
    entities.reads (entry.2 ++ rest) = some entry := by
  cases found : entities.reads (entry.2 ++ rest) with
  | none =>
      have other := List.find?_eq_none.mp found entry listed
      exact absurd (List.isPrefixOf_iff_prefix.mpr (List.prefix_append entry.2 rest)) other
  | some read =>
      obtain ⟨member, front⟩ := reads_spec found
      rcases List.prefix_or_prefix_of_prefix front (List.prefix_append entry.2 rest) with
        inside | inside
      · rw [entities.apart read member entry listed inside]
      · rw [entities.apart entry listed read member inside]

theorem reads_plain {a : α} (plain : a ∉ entities.entries.map Prod.fst) (rest : List α) :
    entities.reads (a :: rest) = none := by
  cases found : entities.reads (a :: rest) with
  | none => rfl
  | some entry =>
      obtain ⟨listed, front⟩ := reads_spec found
      obtain ⟨key, escaped, head⟩ := entities.opens entry listed
      obtain ⟨back, whole⟩ := front
      cases spelled : entry.2 with
      | nil =>
          rw [spelled] at head
          cases head
      | cons first tail =>
          rw [spelled] at head whole
          obtain rfl := Option.some.inj head
          obtain ⟨rfl, -⟩ := List.cons.inj whole
          exact absurd escaped plain

theorem unescapeFrom_length (skipped rest : List α) :
    entities.unescapeFrom skipped.length (skipped ++ rest) = entities.unescapeFrom 0 rest := by
  induction skipped with
  | nil => rfl
  | cons a tail ih =>
      rw [List.cons_append, List.length_cons, unescapeFrom]
      exact ih

theorem unescape_write (a : α) (rest : List α) :
    entities.unescape (entities.write a ++ rest) = a :: entities.unescape rest := by
  rw [unescape, unescape]
  rcases entities.write_cases a with ⟨entry, listed, rfl, written⟩ | ⟨plain, written⟩
  · have read := entities.reads_entity listed rest
    obtain ⟨key, -, head⟩ := entities.opens entry listed
    rw [written]
    cases spelled : entry.2 with
    | nil =>
        rw [spelled] at head
        cases head
    | cons first tail =>
        rw [spelled, List.cons_append] at read
        rw [List.cons_append, unescapeFrom, read]
        dsimp only
        rw [spelled, List.length_cons, Nat.add_sub_cancel, unescapeFrom_length]
  · rw [written, List.singleton_append, unescapeFrom, entities.reads_plain plain]

variable (entities) in
theorem unescape_escape_append (text rest : List α) :
    entities.unescape (entities.escape text ++ rest) = text ++ entities.unescape rest := by
  induction text with
  | nil => rfl
  | cons a tail ih => rw [escape_cons, List.append_assoc, unescape_write, ih, List.cons_append]

theorem unescape_plain {text : List α}
    (plain : ∀ a ∈ text, a ∉ entities.entries.map Prod.fst) :
    entities.unescape text = text := by
  induction text with
  | nil => rfl
  | cons a rest ih =>
      obtain ⟨first, later⟩ := List.forall_mem_cons.mp plain
      rw [unescape, unescapeFrom, entities.reads_plain first]
      exact congrArg (a :: ·) (ih later)

theorem escape_opens {text tail before after : List α} {key : α}
    (plain : ∀ a ∈ tail, a ∉ entities.entries.map Prod.fst)
    (escaped : key ∈ entities.entries.map Prod.fst)
    (here : entities.escape text ++ tail = before ++ key :: after) :
    ∃ entry ∈ entities.entries, entry.2 <+: key :: after := by
  induction text generalizing before with
  | nil =>
      have member : key ∈ tail := by
        have whole : tail = before ++ key :: after := here
        rw [whole]
        exact List.mem_append_right _ List.mem_cons_self
      exact absurd escaped (plain key member)
  | cons a rest ih =>
      rw [escape_cons, List.append_assoc] at here
      rcases List.append_eq_append_iff.mp here with
        ⟨between, rfl, later⟩ | ⟨between, spelled, split⟩
      · exact ih later
      · cases between with
        | nil =>
            have again : entities.escape rest ++ tail = [] ++ key :: after := split.symm
            exact ih again
        | cons first left =>
            obtain ⟨rfl, rest_⟩ := List.cons.inj split
            rcases entities.write_cases a with ⟨entry, listed, -, written⟩ | ⟨other, written⟩
            · rw [written] at spelled
              cases before with
              | nil =>
                  refine ⟨entry, listed, ?_⟩
                  rw [spelled, rest_]
                  exact List.prefix_append (key :: left) _
              | cons head front =>
                  have inside : key ∈ entry.2.tail := by
                    rw [spelled]
                    exact List.mem_append_right front List.mem_cons_self
                  exact absurd escaped (entities.plain entry listed key inside)
            · rw [written] at spelled
              obtain ⟨-, same⟩ | ⟨-, same⟩ := List.append_eq_singleton_iff.mp spelled.symm
              · obtain ⟨rfl, -⟩ := List.cons.inj same
                exact absurd escaped other
              · cases same

/-! ## Cutting between entities -/

theorem fit_front (budget : Nat) (text : List α) : entities.fit budget text <+: text := by
  induction text generalizing budget with
  | nil => exact List.prefix_rfl
  | cons a rest ih =>
      rw [fit]
      split
      · exact List.cons_prefix_cons.mpr ⟨rfl, ih _⟩
      · exact List.nil_prefix

variable (entities) in
theorem length_escape_fit (budget : Nat) (text : List α) :
    (entities.escape (entities.fit budget text)).length ≤ budget := by
  induction text generalizing budget with
  | nil => exact Nat.zero_le _
  | cons a rest ih =>
      rw [fit]
      split
      · rename_i room
        have later := ih (budget - (entities.write a).length)
        rw [escape_cons, List.length_append]
        omega
      · exact Nat.zero_le _

theorem fit_longest {budget : Nat} {text front : List α} (inside : front <+: text)
    (room : (entities.escape front).length ≤ budget) : front <+: entities.fit budget text := by
  induction text generalizing budget front with
  | nil =>
      rw [List.prefix_nil.mp inside]
      exact List.nil_prefix
  | cons a rest ih =>
      cases front with
      | nil => exact List.nil_prefix
      | cons first tail =>
          obtain ⟨rfl, later⟩ := List.cons_prefix_cons.mp inside
          rw [escape_cons, List.length_append] at room
          rw [fit, if_pos (by omega)]
          exact List.cons_prefix_cons.mpr ⟨rfl, ih later (by omega)⟩

theorem fit_eq_self {budget : Nat} {text : List α}
    (room : (entities.escape text).length ≤ budget) : entities.fit budget text = text :=
  (fit_front budget text).eq_of_length_le (fit_longest List.prefix_rfl room).length_le

end Entities

end Agentsfleet.Library
