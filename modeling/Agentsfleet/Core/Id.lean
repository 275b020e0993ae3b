/-!
# Canonical entity identifiers

One spelling, checked at the boundary: 36 characters of lowercase dashed hex,
version nibble `7`, an RFC 4122 variant.
-/

set_option autoImplicit false

namespace Agentsfleet.Core

namespace Uuid7

def textLen : Nat := 36

def dashOffsets : List Nat := [8, 13, 18, 23]

def versionOffset : Nat := 14

def variantOffset : Nat := 19

def isDigit (digit : Char) : Bool :=
  ('0' ≤ digit && digit ≤ '9') || ('a' ≤ digit && digit ≤ 'f')

def misplaced : Nat → List Char → Bool
  | _, [] => false
  | offset, char :: rest =>
      (if dashOffsets.contains offset then char != '-' else !isDigit char) ||
        misplaced (offset + 1) rest

/-- Why `text` is no identifier; `none` when it is one.  The length is the
byte length, so a text with a character outside ASCII is refused here or by
the next check. -/
def firstViolation (text : String) : Option String :=
  let chars := text.toList
  if text.utf8ByteSize ≠ textLen then
    some "expected 36 characters"
  else if misplaced 0 chars then
    some "expected lowercase hex with dashes at 8, 13, 18 and 23"
  else if chars[versionOffset]? ≠ some '7' then
    some "version nibble is not 7"
  else
    match chars[variantOffset]? with
    | some '8' | some '9' | some 'a' | some 'b' => none
    | _ => some "variant nibble is not an RFC 4122 variant"

end Uuid7

structure Uuid7 where
  text : String
  canonical : Uuid7.firstViolation text = none
deriving DecidableEq

def Uuid7.parse (text : String) : Option Uuid7 :=
  if canonical : Uuid7.firstViolation text = none then some ⟨text, canonical⟩ else none

theorem Uuid7.parse_text {text : String} {id : Uuid7} (parsed : Uuid7.parse text = some id) :
    id.text = text := by
  unfold Uuid7.parse at parsed
  split at parsed
  · exact (Option.some.inj parsed) ▸ rfl
  · contradiction

end Agentsfleet.Core
