import Agentsfleet.Core.Json
import Agentsfleet.Core.JsonText
import Agentsfleet.Library.Text

/-!
# Walks over a JSON document

The text a document encodes to and its size, the one walk that rewrites every
key and string of it, and what every key and string of it has.
-/

set_option autoImplicit false

namespace Agentsfleet.Core

namespace Members

/-- `Map::insert`: a key already there keeps its place. -/
def insert (members : Members) (key : String) (value : Json) : Members :=
  if members.any fun member => decide (member.1 = key) then members.replace key value
  else members ++ [(key, value)]

def collect : List (String × Json) → Members → Members
  | [], members => members
  | pair :: rest, members => collect rest (members.insert pair.1 pair.2)

theorem mem_replace {members : Members} {key : String} {value : Json} {member : String × Json}
    (held : member ∈ members.replace key value) : member ∈ members ∨ member = (key, value) := by
  rw [replace, List.mem_map] at held
  obtain ⟨old, inside, rfl⟩ := held
  by_cases same : old.1 = key
  · rw [if_pos same]
    exact .inr rfl
  · rw [if_neg same]
    exact .inl inside

theorem mem_insert {members : Members} {key : String} {value : Json} {member : String × Json}
    (held : member ∈ members.insert key value) : member ∈ members ∨ member = (key, value) := by
  rw [insert] at held
  by_cases there : (members.any fun member => decide (member.1 = key)) = true
  · rw [if_pos there] at held
    exact mem_replace held
  · rw [if_neg there, List.mem_append, List.mem_singleton] at held
    exact held

theorem mem_collect {pairs : List (String × Json)} {members : Members} {member : String × Json}
    (held : member ∈ collect pairs members) : member ∈ members ∨ member ∈ pairs := by
  induction pairs generalizing members with
  | nil => exact .inl held
  | cons pair rest ih =>
      rw [collect] at held
      rcases ih held with inserted | later
      · rcases mem_insert inserted with before | rfl
        · exact .inl before
        · exact .inr (List.mem_cons_self ..)
      · exact .inr (List.mem_cons_of_mem _ later)

end Members

namespace Json

mutual

/-- The compact text `serde_json` writes. -/
def encode : Json → String
  | .null => "null"
  | .bool value => JsonText.bool value
  | .number text => text
  | .string value => JsonText.string value
  | .array items => JsonText.array (encodeItems items)
  | .object members => JsonText.object (encodeMembers members)

def encodeItems : List Json → List String
  | [] => []
  | item :: rest => item.encode :: encodeItems rest

def encodeMembers : List (String × Json) → List (String × String)
  | [] => []
  | (key, value) :: rest => (key, value.encode) :: encodeMembers rest

end

/-- `encoded_len`. -/
def encodedLen (value : Json) : Nat := value.encode.utf8ByteSize

mutual

/-- `json::rewrite`: every key and string through `rule`, which keeps what it answers nothing
for. -/
def rewrite (rule : String → Option String) : Json → Json
  | .null => .null
  | .bool value => .bool value
  | .number text => .number text
  | .string value => .string ((rule value).getD value)
  | .array items => .array (rewriteItems rule items)
  | .object members => .object (Members.collect (rewriteMembers rule members) [])

def rewriteItems (rule : String → Option String) : List Json → List Json
  | [] => []
  | item :: rest => item.rewrite rule :: rewriteItems rule rest

def rewriteMembers (rule : String → Option String) : List (String × Json) → List (String × Json)
  | [] => []
  | (key, value) :: rest => ((rule key).getD key, value.rewrite rule) :: rewriteMembers rule rest

end

mutual

/-- Whether every key and string of a document is `fit`. -/
def everyText (fit : String → Bool) : Json → Bool
  | .string value => fit value
  | .array items => everyItem fit items
  | .object members => everyMember fit members
  | .null | .bool _ | .number _ => true

def everyItem (fit : String → Bool) : List Json → Bool
  | [] => true
  | item :: rest => item.everyText fit && everyItem fit rest

def everyMember (fit : String → Bool) : List (String × Json) → Bool
  | [] => true
  | (key, value) :: rest => fit key && value.everyText fit && everyMember fit rest

end

theorem everyMember_iff {fit : String → Bool} {members : List (String × Json)} :
    everyMember fit members = true ↔
      ∀ member ∈ members, fit member.1 = true ∧ member.2.everyText fit = true := by
  induction members with
  | nil => simp [everyMember]
  | cons member rest ih =>
      obtain ⟨key, value⟩ := member
      rw [everyMember, Bool.and_eq_true, Bool.and_eq_true, ih, List.forall_mem_cons]

mutual

theorem everyText_always (value : Json) : value.everyText (fun _ => true) = true := by
  cases value with
  | array items => exact everyItem_always items
  | object members => exact everyMember_always members
  | _ => rfl

theorem everyItem_always (items : List Json) : everyItem (fun _ => true) items = true := by
  cases items with
  | nil => rfl
  | cons item rest =>
      rw [everyItem, everyText_always item, everyItem_always rest, Bool.and_self]

theorem everyMember_always (members : List (String × Json)) :
    everyMember (fun _ => true) members = true := by
  cases members with
  | nil => rfl
  | cons member rest =>
      obtain ⟨key, value⟩ := member
      rw [everyMember, everyText_always value, everyMember_always rest, Bool.and_self,
        Bool.and_self]

end

theorem everyMember_collect {fit : String → Bool} {pairs : List (String × Json)}
    (fits : everyMember fit pairs = true) : everyMember fit (Members.collect pairs []) = true := by
  rw [everyMember_iff] at fits ⊢
  intro member held
  rcases Members.mem_collect held with before | inside
  · exact absurd before (List.not_mem_nil)
  · exact fits member inside

section Rewrite

variable {before after : String → Bool} {rule : String → Option String}

mutual

/-- What `rule` makes of a text, it makes of every key and string of a document. -/
theorem everyText_rewrite
    (keeps : ∀ text, before text = true → after ((rule text).getD text) = true)
    (value : Json) (fits : value.everyText before = true) :
    (value.rewrite rule).everyText after = true := by
  cases value with
  | null => rfl
  | bool value => rfl
  | number text => rfl
  | string text => exact keeps text fits
  | array items => exact everyItem_rewrite keeps items fits
  | object members => exact everyMember_collect (everyMember_rewrite keeps members fits)

theorem everyItem_rewrite
    (keeps : ∀ text, before text = true → after ((rule text).getD text) = true)
    (items : List Json) (fits : everyItem before items = true) :
    everyItem after (rewriteItems rule items) = true := by
  cases items with
  | nil => rfl
  | cons item rest =>
      rw [everyItem, Bool.and_eq_true] at fits
      rw [rewriteItems, everyItem, Bool.and_eq_true]
      exact ⟨everyText_rewrite keeps item fits.1, everyItem_rewrite keeps rest fits.2⟩

theorem everyMember_rewrite
    (keeps : ∀ text, before text = true → after ((rule text).getD text) = true)
    (members : List (String × Json)) (fits : everyMember before members = true) :
    everyMember after (rewriteMembers rule members) = true := by
  cases members with
  | nil => rfl
  | cons member rest =>
      obtain ⟨key, value⟩ := member
      rw [everyMember, Bool.and_eq_true, Bool.and_eq_true] at fits
      rw [rewriteMembers, everyMember, Bool.and_eq_true, Bool.and_eq_true]
      exact ⟨⟨keeps key fits.1.1, everyText_rewrite keeps value fits.1.2⟩,
        everyMember_rewrite keeps rest fits.2⟩

end

end Rewrite

/-! ## Nesting and numbers -/

mutual

def depth : Json → Nat
  | .array items => itemsDepth items + 1
  | .object members => membersDepth members + 1
  | .null | .bool _ | .number _ | .string _ => 0

def itemsDepth : List Json → Nat
  | [] => 0
  | item :: rest => max item.depth (itemsDepth rest)

def membersDepth : List (String × Json) → Nat
  | [] => 0
  | (_, value) :: rest => max value.depth (membersDepth rest)

end

mutual

/-- A document whose numbers are written as `write` has them. -/
def renumber (write : String → String) : Json → Json
  | .null => .null
  | .bool value => .bool value
  | .number text => .number (write text)
  | .string value => .string value
  | .array items => .array (renumberItems write items)
  | .object members => .object (renumberMembers write members)

def renumberItems (write : String → String) : List Json → List Json
  | [] => []
  | item :: rest => item.renumber write :: renumberItems write rest

def renumberMembers (write : String → String) : List (String × Json) → List (String × Json)
  | [] => []
  | (key, value) :: rest => (key, value.renumber write) :: renumberMembers write rest

end

mutual

theorem everyText_renumber (fit : String → Bool) (write : String → String) (value : Json) :
    (value.renumber write).everyText fit = value.everyText fit := by
  cases value with
  | array items => exact everyItem_renumber fit write items
  | object members => exact everyMember_renumber fit write members
  | _ => rfl

theorem everyItem_renumber (fit : String → Bool) (write : String → String) (items : List Json) :
    everyItem fit (renumberItems write items) = everyItem fit items := by
  cases items with
  | nil => rfl
  | cons item rest =>
      rw [renumberItems, everyItem, everyItem, everyText_renumber fit write item,
        everyItem_renumber fit write rest]

theorem everyMember_renumber (fit : String → Bool) (write : String → String)
    (members : List (String × Json)) :
    everyMember fit (renumberMembers write members) = everyMember fit members := by
  cases members with
  | nil => rfl
  | cons member rest =>
      obtain ⟨key, value⟩ := member
      rw [renumberMembers, everyMember, everyMember, everyText_renumber fit write value,
        everyMember_renumber fit write rest]

end

/-! ## Sizes -/

def itemsLen : List Json → Nat
  | [] => 0
  | item :: rest => item.encodedLen + itemsLen rest

def membersLen : List (String × Json) → Nat
  | [] => 0
  | (key, value) :: rest =>
      (JsonText.string key).utf8ByteSize + 1 + value.encodedLen + membersLen rest

theorem itemsLen_append (front back : List Json) :
    itemsLen (front ++ back) = itemsLen front + itemsLen back := by
  induction front with
  | nil => rw [List.nil_append, itemsLen, Nat.zero_add]
  | cons item front ih => rw [List.cons_append, itemsLen, itemsLen, ih, Nat.add_assoc]

theorem membersLen_append (front back : List (String × Json)) :
    membersLen (front ++ back) = membersLen front + membersLen back := by
  induction front with
  | nil => rw [List.nil_append, membersLen, Nat.zero_add]
  | cons member front ih =>
      simp only [List.cons_append, membersLen, ih]
      omega

theorem commas_encodeItems (items : List Json) :
    (JsonText.commas (encodeItems items)).utf8ByteSize = itemsLen items + (items.length - 1) := by
  induction items with
  | nil => rfl
  | cons item rest ih =>
      cases rest with
      | nil => rfl
      | cons next rest =>
          have comma : ",".utf8ByteSize = 1 := rfl
          simp only [encodeItems, JsonText.commas, String.utf8ByteSize_append, itemsLen,
            encodedLen, List.length_cons] at ih ⊢
          omega

theorem commas_encodeMembers (members : List (String × Json)) :
    (JsonText.commas ((encodeMembers members).map fun member =>
      JsonText.string member.1 ++ ":" ++ member.2)).utf8ByteSize =
      membersLen members + (members.length - 1) := by
  have colon : ":".utf8ByteSize = 1 := rfl
  have comma : ",".utf8ByteSize = 1 := rfl
  induction members with
  | nil => rfl
  | cons member rest ih =>
      cases rest with
      | nil =>
          simp only [encodeMembers, List.map_cons, List.map_nil, JsonText.commas,
            String.utf8ByteSize_append, membersLen, encodedLen, List.length_cons, List.length_nil]
          omega
      | cons next rest =>
          simp only [encodeMembers, List.map_cons, JsonText.commas, String.utf8ByteSize_append,
            membersLen, encodedLen, List.length_cons] at ih ⊢
          omega

theorem encodedLen_array (items : List Json) :
    (Json.array items).encodedLen = itemsLen items + (items.length - 1) + 2 := by
  have ends : "[".utf8ByteSize + "]".utf8ByteSize = 2 := rfl
  rw [encodedLen, encode, JsonText.array, String.utf8ByteSize_append, String.utf8ByteSize_append,
    commas_encodeItems]
  omega

theorem encodedLen_object (members : List (String × Json)) :
    (Json.object members).encodedLen = membersLen members + (members.length - 1) + 2 := by
  have ends : "\x7b".utf8ByteSize + "\x7d".utf8ByteSize = 2 := rfl
  rw [encodedLen, encode, JsonText.object, String.utf8ByteSize_append, String.utf8ByteSize_append,
    commas_encodeMembers]
  omega

end Json

end Agentsfleet.Core
