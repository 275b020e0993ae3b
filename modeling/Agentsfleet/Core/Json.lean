/-!
# JSON documents

The part of a JSON document the product's code looks into: its shape, and an
object's members in the order they are held.  Reading and writing text is the
codec's and stays a parameter of whoever needs it.
-/

set_option autoImplicit false

namespace Agentsfleet.Core

inductive Json where
  | null
  | bool (value : Bool)
  | number (text : String)
  | string (value : String)
  | array (items : List Json)
  | object (members : List (String × Json))

namespace Json

def asStr : Json → Option String
  | .string value => some value
  | _ => none

def asBool : Json → Option Bool
  | .bool value => some value
  | _ => none

end Json

/-- An object's members, as a map a key is read from and removed from. -/
abbrev Members := List (String × Json)

namespace Members

def get? (members : Members) (key : String) : Option Json :=
  (members.find? fun member => member.1 = key).map Prod.snd

def remove (members : Members) (key : String) : Members :=
  members.filter fun member => member.1 ≠ key

/-- The members with `key`'s value replaced where it stands. -/
def replace (members : Members) (key : String) (value : Json) : Members :=
  members.map fun member => if member.1 = key then (key, value) else member

theorem mem_of_get? {members : Members} {key : String} {value : Json}
    (found : members.get? key = some value) : (key, value) ∈ members := by
  obtain ⟨⟨name, held⟩, member, rfl⟩ := Option.map_eq_some_iff.mp found
  obtain rfl : name = key := by simpa using List.find?_some member
  exact List.mem_of_find?_eq_some member

end Members

structure Codec (Bytes : Type) where
  fromSlice : Bytes → Option Json
  toVec : Json → Bytes

end Agentsfleet.Core
