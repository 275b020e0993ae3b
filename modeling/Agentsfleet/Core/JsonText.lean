/-!
# Compact JSON text

What the encoder writes: no blanks, strings escaped only where they must be.
-/

set_option autoImplicit false

namespace Agentsfleet.Core.JsonText

def hexDigit (value : Nat) : Char := ("0123456789abcdef".toList)[value]?.getD '0'

def escape (c : Char) : List Char :=
  match c with
  | '"' => ['\\', '"']
  | '\\' => ['\\', '\\']
  | '\n' => ['\\', 'n']
  | '\r' => ['\\', 'r']
  | '\t' => ['\\', 't']
  | '\x08' => ['\\', 'b']
  | '\x0c' => ['\\', 'f']
  | c =>
      if c.val < 0x20 then
        ['\\', 'u', '0', '0', hexDigit (c.val.toNat / 16), hexDigit (c.val.toNat % 16)]
      else [c]

def string (text : String) : String :=
  "\"" ++ String.ofList (text.toList.flatMap escape) ++ "\""

def bool (value : Bool) : String := if value then "true" else "false"

def number (value : Nat) : String := toString value

def commas : List String → String
  | [] => ""
  | [item] => item
  | item :: next :: rest => item ++ "," ++ commas (next :: rest)

def array (items : List String) : String := "[" ++ commas items ++ "]"

def object (members : List (String × String)) : String :=
  "\x7b" ++ commas (members.map fun member => string member.1 ++ ":" ++ member.2) ++ "\x7d"

end Agentsfleet.Core.JsonText
