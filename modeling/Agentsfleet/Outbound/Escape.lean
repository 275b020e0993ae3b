import Agentsfleet.Library.Escape
import Mathlib.Algebra.GroupWithZero.Nat
import Mathlib.Data.String.Basic

/-!
# What the poster sends as a message's text

Every text posted is model output, escaped so that none of it is read as markup and
cut to the vendor's limit between whole entities.
-/

set_option autoImplicit false

namespace Agentsfleet.Outbound

open Agentsfleet.Library

/-- Each character read as markup, and the entity that shows it as itself. -/
def slackEntities : List (Char × String) := [('&', "&amp;"), ('<', "&lt;"), ('>', "&gt;")]

def textMaxChars : Nat := 40000
/-- What ends a text cut to fit. -/
def truncated : String := "… (truncated)"
def usizeMax : Nat := 18446744073709551615

/-- The entity `c` is shown through, when it is markup. -/
def entity (c : Char) : Option String :=
  (slackEntities.find? fun entry => entry.1 == c).map Prod.snd

/-- How many characters `c` takes once escaped. -/
def width (c : Char) : Nat := (entity c).elim 1 String.utf8ByteSize

def pushAll (budget : Nat) : Nat → List Char → List Char
  | _, [] => []
  | used, c :: rest =>
      let used := used + width c
      if budget < used then truncated.toList
      else
        match entity c with
        | some entity => entity.toList ++ pushAll budget used rest
        | none => c :: pushAll budget used rest

/-- `text` escaped, and cut to the limit after that. -/
def literal (text : String) : String :=
  let escapedChars := (text.toList.map width).sum
  let budget := if escapedChars ≤ textMaxChars then usizeMax else textMaxChars - truncated.length
  String.ofList (pushAll budget 0 text.toList)

/-! ## The entities as a code -/

def slackEntries : List (Char × List Char) :=
  slackEntities.map fun entry => (entry.1, entry.2.toList)

theorem slackEntries_eq :
    slackEntries =
      [('&', ['&', 'a', 'm', 'p', ';']), ('<', ['&', 'l', 't', ';']),
        ('>', ['&', 'g', 't', ';'])] :=
  rfl

theorem slack_opens :
    ∀ entry ∈ slackEntries, ∃ key ∈ slackEntries.map Prod.fst, entry.2.head? = some key := by
  simp [slackEntries_eq]

theorem slack_plain :
    ∀ entry ∈ slackEntries, ∀ c ∈ entry.2.tail, c ∉ slackEntries.map Prod.fst := by
  simp [slackEntries_eq]

theorem slack_apart :
    ∀ entry ∈ slackEntries, ∀ other ∈ slackEntries, entry.2 <+: other.2 → entry = other := by
  decide

def slack : Entities Char := ⟨slackEntries, slack_opens, slack_plain, slack_apart⟩

theorem slack_keys : slack.entries.map Prod.fst = ['&', '<', '>'] := rfl

theorem entity_eq (c : Char) : slack.entity c = (entity c).map String.toList := by
  have entries : slack.entries = slackEntities.map fun entry => (entry.1, entry.2.toList) := rfl
  rw [Entities.entity, entries, entity, List.find?_map, Option.map_map, Option.map_map]
  rfl

theorem write_eq (c : Char) : slack.write c = (entity c).elim [c] String.toList := by
  rw [Entities.write, entity_eq]
  cases entity c with
  | none => rfl
  | some entity => rfl

theorem width_eq (c : Char) : width c = (slack.write c).length := by
  have ascii : ∀ entry ∈ slackEntities, entry.2.utf8ByteSize = entry.2.toList.length := by decide
  rw [width, write_eq]
  cases found : entity c with
  | none => rfl
  | some written =>
      obtain ⟨entry, listed, rfl⟩ := Option.map_eq_some_iff.mp found
      exact ascii entry (List.mem_of_find?_eq_some listed)

theorem escapedChars_eq (text : List Char) :
    (text.map width).sum = (slack.escape text).length := by
  induction text with
  | nil => rfl
  | cons c rest ih =>
      rw [List.map_cons, List.sum_cons, ih, Entities.escape_cons, List.length_append, width_eq]

/-- The loop writes the longest prefix that fits what is left of its budget, and the
mark where that is not all. -/
theorem pushAll_eq {budget used : Nat} (within : used ≤ budget) (text : List Char) :
    pushAll budget used text =
      slack.escape (slack.fit (budget - used) text) ++
        if slack.fit (budget - used) text = text then [] else truncated.toList := by
  induction text generalizing used with
  | nil => rfl
  | cons c rest ih =>
      rw [pushAll, Entities.fit, ← width_eq]
      by_cases past : budget < used + width c
      · rw [if_pos past, if_neg (by omega), if_neg (by simp)]
        rfl
      · have one : (match entity c with
            | some entity => entity.toList ++ pushAll budget (used + width c) rest
            | none => c :: pushAll budget (used + width c) rest) =
            slack.write c ++ pushAll budget (used + width c) rest := by
          rw [write_eq]
          cases entity c with
          | none => rfl
          | some entity => rfl
        rw [if_neg past, if_pos (by omega), one, ih (by omega), Entities.escape_cons,
          List.append_assoc, ← Nat.sub_add_eq]
        simp only [List.cons.injEq, true_and]

/-- What is posted: the escaped text, or the escaped form of the longest prefix that
leaves room for the mark, and the mark. -/
theorem literal_eq (text : String) :
    (literal text).toList =
      if (slack.escape text.toList).length ≤ textMaxChars then slack.escape text.toList
      else
        slack.escape (slack.fit (textMaxChars - truncated.length) text.toList) ++
          truncated.toList := by
  rw [literal, String.toList_ofList, escapedChars_eq, pushAll_eq (Nat.zero_le _), Nat.sub_zero]
  by_cases fits : (slack.escape text.toList).length ≤ textMaxChars
  · have roomy : (slack.escape text.toList).length ≤ usizeMax :=
      Nat.le_trans fits (by decide)
    rw [if_pos fits, if_pos fits, Entities.fit_eq_self roomy, if_pos rfl, List.append_nil]
  · rw [if_neg fits, if_neg fits, if_neg]
    intro same
    have short := slack.length_escape_fit (textMaxChars - truncated.length) text.toList
    rw [same] at short
    omega

theorem truncated_plain : ∀ c ∈ truncated.toList, c ∉ slack.entries.map Prod.fst := by
  simp [truncated, slack_keys]

theorem literal_whole (text : String) :
    ∃ kept tail, (literal text).toList = slack.escape kept ++ tail ∧
      ∀ c ∈ tail, c ∉ slack.entries.map Prod.fst := by
  rw [literal_eq]
  split
  · exact ⟨text.toList, [], (List.append_nil _).symm, fun _ member => nomatch member⟩
  · exact ⟨_, truncated.toList, rfl, truncated_plain⟩

theorem literal_opens {text : String} {before after : List Char} {key : Char}
    (markup : key ∈ slack.entries.map Prod.fst)
    (here : (literal text).toList = before ++ key :: after) :
    ∃ entry ∈ slackEntities, entry.2.toList <+: key :: after := by
  obtain ⟨kept, tail, whole, plain⟩ := literal_whole text
  obtain ⟨entry, listed, front⟩ := Entities.escape_opens plain markup (whole.symm.trans here)
  obtain ⟨source, member, rfl⟩ := List.mem_map.mp listed
  exact ⟨source, member, front⟩

/-- Every entity starts with an ampersand, so nothing else of the markup stands anywhere. -/
theorem literal_plain {text : String} {key : Char} (markup : key ∈ slack.entries.map Prod.fst)
    (other : key ≠ '&') : key ∉ (literal text).toList := by
  intro member
  obtain ⟨before, after, here⟩ := List.append_of_mem member
  obtain ⟨entry, listed, front⟩ := literal_opens markup here
  have opens : ∀ entry ∈ slackEntities, entry.2.toList.head? = some '&' := by decide
  have first := opens entry listed
  obtain ⟨rest, whole⟩ := front
  cases spelled : entry.2.toList with
  | nil =>
      rw [spelled] at first
      cases first
  | cons head tail =>
      rw [spelled] at first whole
      obtain rfl := Option.some.inj first
      exact other (List.cons.inj whole).1.symm

theorem literal_length (text : String) : (literal text).toList.length ≤ textMaxChars := by
  rw [literal_eq]
  split
  · assumption
  · have short := slack.length_escape_fit (textMaxChars - truncated.length) text.toList
    have room : truncated.length ≤ textMaxChars := by decide
    rw [List.length_append, String.length_toList]
    omega

/-- What is posted holds no markup, stays within the limit, and reads back as the text,
or as the longest prefix of it that leaves room for the mark, and the mark. -/
theorem literal_shows (text : String) :
    let posted := (literal text).toList
    ('<' ∉ posted ∧ '>' ∉ posted ∧
      ∀ before after, posted = before ++ '&' :: after →
        ∃ entry ∈ slackEntities, entry.2.toList <+: '&' :: after) ∧
    posted.length ≤ textMaxChars ∧
    ((slack.escape text.toList).length ≤ textMaxChars → slack.unescape posted = text.toList) ∧
    (textMaxChars < (slack.escape text.toList).length →
      ∃ kept, kept <+: text.toList ∧
        (slack.escape kept).length + truncated.length ≤ textMaxChars ∧
        (∀ other, other <+: text.toList →
          (slack.escape other).length + truncated.length ≤ textMaxChars → other <+: kept) ∧
        posted = slack.escape kept ++ truncated.toList ∧
        slack.unescape posted = kept ++ truncated.toList) := by
  intro posted
  refine ⟨⟨literal_plain (by decide) (by decide), literal_plain (by decide) (by decide),
    fun before after here => literal_opens (by decide) here⟩, literal_length text, ?_, ?_⟩
  · intro fits
    have back := slack.unescape_escape_append text.toList []
    rw [show posted = _ from literal_eq text, if_pos fits]
    rw [List.append_nil] at back
    exact back.trans (List.append_nil _)
  · intro past
    have written := (literal_eq text).trans (if_neg (Nat.not_le.mpr past))
    have room : truncated.length ≤ textMaxChars := by decide
    refine ⟨slack.fit (textMaxChars - truncated.length) text.toList, Entities.fit_front _ _, ?_,
      fun other inside short => Entities.fit_longest inside (by omega), written, ?_⟩
    · have short := slack.length_escape_fit (textMaxChars - truncated.length) text.toList
      omega
    · rw [show posted = _ from written, Entities.unescape_escape_append,
        Entities.unescape_plain truncated_plain]

end Agentsfleet.Outbound
