import Agentsfleet.Library.Search
import Mathlib.Data.List.Infix

/-!
# Placeholders

The grammar `${secrets.NAME.FIELD}`: the placeholders of a text, found from left to right,
and the text with a value in the place of each.  A text that opens a placeholder the
grammar does not match is no template.
-/

set_option autoImplicit false

namespace Agentsfleet.Egress

open Agentsfleet.Library

def opening : String := "$\x7bsecrets."

structure SecretRef where
  name : String
  field : String
deriving DecidableEq, Repr

def isLetter (c : Char) : Bool := c.isAlpha || c == '_'

def isWord (c : Char) : Bool := c.isAlphanum || c == '_'

/-- The longest `[A-Za-z_][A-Za-z0-9_]*` a text starts with, and what follows it. -/
def identifier : List Char → Option (List Char × List Char)
  | [] => none
  | c :: rest =>
      if isLetter c then some (c :: rest.takeWhile isWord, rest.dropWhile isWord) else none

/-- What follows `head` in a text that starts with it. -/
def stripHead : List Char → List Char → Option (List Char)
  | [], text => some text
  | _ :: _, [] => none
  | c :: head, d :: text => if c = d then stripHead head text else none

def placeholderAt (text : List Char) : Option (SecretRef × List Char) := do
  let afterOpening ← stripHead opening.toList text
  let (name, afterName) ← identifier afterOpening
  let afterDot ← stripHead ['.'] afterName
  let (field, afterField) ← identifier afterDot
  let rest ← stripHead ['}'] afterField
  some (⟨String.ofList name, String.ofList field⟩, rest)

inductive Piece where
  | written (c : Char)
  | secret (whole : List Char) (ref : SecretRef)
deriving DecidableEq

/-- The pieces of a text, its first `skip` characters belonging to the placeholder before
it. -/
def piecesFrom : Nat → List Char → List Piece
  | _, [] => []
  | skip + 1, _ :: rest => piecesFrom skip rest
  | 0, c :: rest =>
      match placeholderAt (c :: rest) with
      | some (ref, after) =>
          .secret ((c :: rest).take ((c :: rest).length - after.length)) ref
            :: piecesFrom (rest.length - after.length) rest
      | none => .written c :: piecesFrom 0 rest

def pieces (text : String) : List Piece := piecesFrom 0 text.toList

def Piece.text : Piece → List Char
  | .written c => [c]
  | .secret whole _ => whole

def Piece.ref : Piece → Option SecretRef
  | .written _ => none
  | .secret _ ref => some ref

/-- Whether `text` opens a placeholder anywhere. -/
def mentions (text : String) : Bool := decide (opening.toList <:+: text.toList)

/-- How often `text` opens a placeholder. -/
def openings (text : String) : Nat := (Search.find [opening.toList] text.toList).length

/-- Every placeholder in `text`, or `none` when `text` opens one the grammar does not
match. -/
def parse (text : String) : Option (List SecretRef) :=
  let found := (pieces text).filterMap Piece.ref
  if found.length = openings text then some found else none

/-- What stands in the place of a piece: a placeholder `value` does not answer stays as
written. -/
def Piece.fill (value : SecretRef → Option String) : Piece → List Char
  | .written c => [c]
  | .secret whole ref => ((value ref).map String.toList).getD whole

/-- `text` with each placeholder replaced by what `value` answers for it. -/
def substitute (text : String) (value : SecretRef → Option String) : String :=
  String.ofList ((pieces text).flatMap (Piece.fill value))

/-- The credential a URL's whole host names, and what follows the host. -/
def hostUrl (url : String) : Option (String × String) := do
  let afterOpening ← stripHead ("https://" ++ opening).toList url.toList
  let (name, afterName) ← identifier afterOpening
  let rest ← stripHead ".host\x7d".toList afterName
  match rest with
  | [] => some (String.ofList name, "")
  | c :: others =>
      if c ∈ ['/', '?', '#', ':'] ∧ '\n' ∉ others then
        some (String.ofList name, String.ofList rest)
      else none

/-! ## A text and its pieces -/

theorem stripHead_eq {head text rest : List Char} (stripped : stripHead head text = some rest) :
    text = head ++ rest := by
  induction head generalizing text with
  | nil =>
      cases stripped
      rfl
  | cons c head ih =>
      cases text with
      | nil => cases stripped
      | cons d text =>
          rw [stripHead] at stripped
          by_cases same : c = d
          · rw [if_pos same] at stripped
            rw [same, ih stripped, List.cons_append]
          · rw [if_neg same] at stripped
            cases stripped

theorem identifier_eq {text word rest : List Char} (read : identifier text = some (word, rest)) :
    text = word ++ rest := by
  cases text with
  | nil => cases read
  | cons c others =>
      rw [identifier] at read
      by_cases leads : isLetter c = true
      · rw [if_pos leads] at read
        cases read
        rw [List.cons_append, List.takeWhile_append_dropWhile]
      · rw [if_neg leads] at read
        cases read

def SecretRef.whole (ref : SecretRef) : List Char :=
  opening.toList ++ (ref.name.toList ++ ('.' :: (ref.field.toList ++ ['}'])))

theorem SecretRef.whole_positive (ref : SecretRef) : 0 < ref.whole.length := by
  simp only [SecretRef.whole, List.length_append, List.length_cons]
  omega

theorem placeholderAt_eq {text after : List Char} {ref : SecretRef}
    (found : placeholderAt text = some (ref, after)) : text = ref.whole ++ after := by
  obtain ⟨afterOpening, opened, found⟩ := Option.bind_eq_some_iff.mp found
  obtain ⟨⟨name, afterName⟩, named, found⟩ := Option.bind_eq_some_iff.mp found
  obtain ⟨afterDot, dotted, found⟩ := Option.bind_eq_some_iff.mp found
  obtain ⟨⟨field, afterField⟩, fielded, found⟩ := Option.bind_eq_some_iff.mp found
  obtain ⟨rest, closed_, found⟩ := Option.bind_eq_some_iff.mp found
  cases found
  rw [stripHead_eq opened, identifier_eq named, stripHead_eq dotted, identifier_eq fielded,
    stripHead_eq closed_]
  simp [SecretRef.whole]

theorem piecesFrom_text (skip : Nat) (text : List Char) :
    (piecesFrom skip text).flatMap Piece.text = text.drop skip ∧
      ∀ whole ref, .secret whole ref ∈ piecesFrom skip text → whole = ref.whole := by
  induction text generalizing skip with
  | nil =>
      rw [piecesFrom, List.drop_nil]
      exact ⟨rfl, fun _ _ member => absurd member List.not_mem_nil⟩
  | cons c rest ih =>
      cases skip with
      | succ skip =>
          rw [piecesFrom, List.drop_succ_cons]
          exact ih skip
      | zero =>
          cases found : placeholderAt (c :: rest) with
          | none =>
              obtain ⟨joined, spelled⟩ := ih 0
              simp only [piecesFrom, found, List.flatMap_cons, joined, List.drop_zero]
              refine ⟨rfl, ?_⟩
              intro whole ref member
              rcases List.mem_cons.mp member with here | later
              · cases here
              · exact spelled whole ref later
          | some best =>
              obtain ⟨ref, after⟩ := best
              obtain ⟨joined, spelled⟩ := ih (rest.length - after.length)
              have split := placeholderAt_eq found
              have size := congrArg List.length split
              rw [List.length_append] at size
              have head : (c :: rest).take ((c :: rest).length - after.length) = ref.whole := by
                rw [size, Nat.add_sub_cancel, split, List.take_left]
              have tail : rest.drop (rest.length - after.length) = after := by
                have shorter : after.length ≤ rest.length := by
                  rw [List.length_cons] at size
                  have positive := ref.whole_positive
                  omega
                have onward : rest.drop (rest.length - after.length)
                    = (c :: rest).drop ((c :: rest).length - after.length) := by
                  rw [List.length_cons, Nat.succ_sub shorter, List.drop_succ_cons]
                rw [onward, size, Nat.add_sub_cancel, split, List.drop_left]
              simp only [piecesFrom, found, List.flatMap_cons, joined, List.drop_zero, head, tail,
                Piece.text]
              refine ⟨split.symm, ?_⟩
              intro whole other member
              rcases List.mem_cons.mp member with here | later
              · cases here
                rfl
              · exact spelled whole other later

theorem pieces_text (text : String) : (pieces text).flatMap Piece.text = text.toList :=
  (piecesFrom_text 0 text.toList).1

theorem pieces_whole {text : String} {whole : List Char} {ref : SecretRef}
    (member : .secret whole ref ∈ pieces text) : whole = ref.whole :=
  (piecesFrom_text 0 text.toList).2 whole ref member

theorem substitute_none {text : String} (none_ : (pieces text).filterMap Piece.ref = [])
    (value : SecretRef → Option String) : substitute text value = text := by
  have every : ∀ piece ∈ pieces text, piece.fill value = piece.text := by
    intro piece member
    cases piece with
    | written c => rfl
    | secret whole ref =>
        have listed : ref ∈ (pieces text).filterMap Piece.ref :=
          List.mem_filterMap.mpr ⟨.secret whole ref, member, rfl⟩
        rw [none_] at listed
        exact absurd listed List.not_mem_nil
  have same : (pieces text).flatMap (Piece.fill value) = (pieces text).flatMap Piece.text :=
    List.flatMap_congr every
  rw [substitute, same, pieces_text, String.ofList_toList]

theorem parse_eq {text : String} {found : List SecretRef} (parsed : parse text = some found) :
    found = (pieces text).filterMap Piece.ref ∧ found.length = openings text := by
  rw [parse] at parsed
  by_cases every : ((pieces text).filterMap Piece.ref).length = openings text
  · rw [if_pos every] at parsed
    cases parsed
    exact ⟨rfl, every⟩
  · rw [if_neg every] at parsed
    cases parsed

theorem parse_nil {text : String} (parsed : parse text = some []) : mentions text = false := by
  have none_ : openings text = 0 := (parse_eq parsed).2.symm
  have nothing := List.eq_nil_of_length_eq_zero none_
  exact decide_eq_false (Search.find_nil List.mem_cons_self (by decide) nothing)

end Agentsfleet.Egress
