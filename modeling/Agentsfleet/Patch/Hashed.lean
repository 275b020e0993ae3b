import Agentsfleet.Core.JsonText
import Agentsfleet.Library.Rows
import Agentsfleet.Library.Text
import Agentsfleet.Patch.Landing
import Agentsfleet.Retain.Floor

/-!
# Hashed edits

A read tags every line by a hash over the line and the one before it; an edit
names a line, or a range, by tag.  The tag is looked for near the line it was
read at, and nothing is written unless one line there carries it.
-/

set_option autoImplicit false

namespace Agentsfleet.Patch.Hashed

open Agentsfleet.Core.JsonText (hexDigit)
open Agentsfleet.Library
open Agentsfleet.Library.Rows (ended ended_cons ended_eq intercalate_append splitOn_around
  length_splitOn)
open Agentsfleet.Retain (splitOnce parseU64 splitOnce_append toDigits_isDigit parseU64_toDigits)

/-! ## Tags -/

def fnvOffset : UInt32 := 0x811c9dc5
def fnvPrime : UInt32 := 0x01000193
/-- The bits of the hash a tag keeps: twelve, as three hex digits. -/
def tagBits : UInt32 := 0xfff
def tagLen : Nat := 3
/-- How far either side of its read line a tag is looked for, in lines. -/
def radius : Nat := 50
def targetName : String := "target"
def endTargetName : String := "end_target"

def trimmed (c : Char) : Bool := c = ' ' || c = '\t' || c = '\r' || c = '\n'

def trimMatches (text : List Char) : List Char :=
  ((text.dropWhile trimmed).reverse.dropWhile trimmed).reverse

def fnv (bytes : List UInt8) : UInt32 :=
  bytes.foldl (fun hash byte => (hash ^^^ byte.toUInt32) * fnvPrime) fnvOffset

/-- The hash a tag keeps for `line`, read after `parent`. -/
def tag (parent line : List Char) : List Char :=
  let hash := fnv ((trimMatches parent ++ '|' :: trimMatches line).flatMap String.utf8EncodeChar)
  let kept := (hash &&& tagBits).toNat
  [hexDigit (kept / 256), hexDigit (kept / 16 % 16), hexDigit (kept % 16)]

structure Line where
  start : Nat
  text : List Char

def linesFrom : Nat → List (List Char) → List Line
  | _, [] => []
  | start, segment :: rest => ⟨start, segment⟩ :: linesFrom (start + Text.bytes segment + 1) rest

/-- `text`'s lines, split on `\n`. -/
def lines (text : List Char) : List Line := linesFrom 0 (text.splitOn '\n')

def printed (index : Nat) (hash : List Char) : List Char :=
  'L' :: Nat.toDigits 10 (index + 1) ++ ':' :: hash

def rowsFrom (index : Nat) (parent : List Char) : List Line → List (List Char × List Char)
  | [] => []
  | line :: rest =>
      (printed index (tag parent line.text), line.text) :: rowsFrom (index + 1) line.text rest

def rows (text : List Char) : List (List Char × List Char) := rowsFrom 0 [] (lines text)

/-! ## Targets -/

/-- How an edit ends early: answered with a refusal, or by a panic. -/
inductive Stop where
  | refused (output : ToolOutput)
  | panic
deriving DecidableEq

/-- A tag as the model gives it back: the line it was read at, and its hash. -/
structure Target where
  line : Nat
  hash : List Char

inductive Located where
  | at (index : Nat)
  | missing
  | twice
deriving DecidableEq

def parentOf (lines : List Line) : Nat → List Char
  | 0 => []
  | before + 1 => ((lines[before]?).map Line.text).getD []

def tagAt (lines : List Line) (index : Nat) : Option (List Char) :=
  (lines[index]?).map fun line => tag (parentOf lines index) line.text

/-- A failed tag lookup, with `detail` for the model. -/
def mismatch (detail : String) : ToolOutput := .failed .hashMismatch detail

namespace Target

/-- `given` as a tag; `debug` is how `{:?}` shows it in the refusal. -/
def parse (debug : String → String) (given : String) : Except ToolOutput Target :=
  let refusal := .failed .invalidArguments (debug given ++
    " is not a tag; one reads L<line>:<hash>, as file_read_hashed printed it")
  match given.toList with
  | 'L' :: rest =>
      match splitOnce ':' rest with
      | some (number, hash) =>
          if Text.bytes hash = tagLen then
            match parseU64 number with
            | some line => if 0 < line.toNat then .ok ⟨line.toNat, hash⟩ else .error refusal
            | none => .error refusal
          else .error refusal
      | none => .error refusal
  | _ => .error refusal

def scan (hash : List Char) (lines : List Line) : List Nat → Located → Located
  | [], found => found
  | index :: rest, found =>
      if tagAt lines index = some hash then
        match found with
        | .missing => scan hash lines rest (.at index)
        | .at _ | .twice => .twice
      else scan hash lines rest found

/-- Where this tag's hash is near `hint`. -/
def foundNear (target : Target) (lines : List Line) (hint : Nat) : Located :=
  let from_ := hint - radius
  let to_ := min lines.length (hint + radius + 1)
  scan target.hash lines (List.range' from_ (to_ - from_)) .missing

def shown (target : Target) : String :=
  "L" ++ toString target.line ++ ":" ++ String.ofList target.hash

/-- The index of the line this tag names; `which` names the argument in a refusal. -/
def locate (target : Target) (lines : List Line) (hint : Nat) (which path : String) :
    Except ToolOutput Nat :=
  if lines.length < target.line then
    .error (mismatch (which ++ " " ++ target.shown ++ " is past the end of " ++ path ++
      ", which has " ++ toString lines.length ++ " lines"))
  else
    match target.foundNear lines hint with
    | .at index => .ok index
    | .missing =>
        .error (mismatch (which ++ " " ++ target.shown ++ " no longer matches " ++ path ++
          " near line " ++ toString (hint + 1) ++ "; the file changed, read it again"))
    | .twice =>
        .error (mismatch (which ++ " " ++ target.shown ++ " matches " ++ path ++
          " more than once near line " ++ toString (hint + 1) ++ "; read it again"))

end Target

/-! ## Edits -/

structure Range where
  path : String
  target : String
  endTarget : Option String
  newText : String

def separator (newText after : List Char) : List Char :=
  if after ≠ [] ∧ newText ≠ [] ∧ newText.getLast? ≠ some '\n' then ['\n'] else []

/-- `text` with lines `from_..=to_` replaced; `none` where `split_at` panics. -/
def spliced (text : List Char) (lines : List Line) (from_ to_ : Nat) (newText : List Char) :
    Option (List Char) :=
  let beforeAt := ((lines[from_]?).map Line.start).getD 0
  let afterAt := ((lines[to_ + 1]?).map Line.start).getD (Text.bytes text)
  match Text.cutAt beforeAt text, Text.cutAt afterAt text with
  | some (before, _), some (_, after) =>
      some (before ++ newText ++ separator newText after ++ after)
  | _, _ => none

def named (arguments : Range) (path : String) (lines : List Line) (start : Target)
    (end_ : Option Target) : Except Stop (Nat × Nat) :=
  match start.locate lines (start.line - 1) targetName path with
  | .error output => .error (.refused output)
  | .ok from_ =>
      match end_ with
      | none => .ok (from_, from_)
      | some end_ =>
          if end_.line < start.line then
            .error (.refused (mismatch (endTargetName ++ " L" ++ toString end_.line ++
              " comes before " ++ targetName ++ " L" ++ toString start.line)))
          -- The sum is checked, so one past a `usize` aborts.
          else if 2 ^ 64 ≤ end_.line - 1 + from_ then .error .panic
          else
            let hint := min (end_.line - 1 + from_ - (start.line - 1)) (lines.length - 1)
            match end_.locate lines hint endTargetName path with
            | .error output => .error (.refused output)
            | .ok to_ =>
                if to_ < from_ then
                  .error (.refused (mismatch (endTargetName ++ " " ++ arguments.target ++
                    " was found before " ++ targetName ++ " " ++ arguments.endTarget.getD "")))
                else .ok (from_, to_)

variable {Chunk : Type} (lib : Libraries Chunk) (debug : String → String)

def parseEnd : Option String → Except ToolOutput (Option Target)
  | none => .ok none
  | some given =>
      match Target.parse debug given with
      | .error output => .error output
      | .ok target => .ok (some target)

def landed (arguments : Range) (path : String) (from_ to_ : Nat) : ToolOutput :=
  .succeeded ("Edited " ++ path ++ ": " ++ arguments.target ++ " was line " ++
    toString (from_ + 1) ++ ", " ++ toString (to_ - from_ + 1) ++ " lines replaced")

def edit (w : Workspace) (arguments : Range) : Except Stop ToolOutput × Workspace :=
  match inside arguments.path with
  | .error output => (.error (.refused output), w)
  | .ok path =>
      match Target.parse debug arguments.target with
      | .error output => (.error (.refused output), w)
      | .ok start =>
          match parseEnd debug arguments.endTarget with
          | .error output => (.error (.refused output), w)
          | .ok end_ =>
              match whole lib w path with
              | .error output => (.error (.refused output), w)
              | .ok text =>
                  match named arguments path (lines text.toList) start end_ with
                  | .error stop => (.error stop, w)
                  | .ok (from_, to_) =>
                      match spliced text.toList (lines text.toList) from_ to_
                          arguments.newText.toList with
                      | none => (.error .panic, w)
                      | some edited =>
                          match write lib w path (String.ofList edited) with
                          | (.error output, w') => (.error (.refused output), w')
                          | (.ok (), w') =>
                              (.ok (landed arguments path from_ to_), w')

/-! ## Lines and their tags -/

theorem linesFrom_getElem? (start : Nat) (segments : List (List Char)) (index : Nat) :
    (linesFrom start segments)[index]? = (segments[index]?).map fun segment =>
      ⟨start + Text.bytes (ended '\n' (segments.take index)), segment⟩ := by
  induction segments generalizing start index with
  | nil => rfl
  | cons segment rest ih =>
      cases index with
      | zero => rfl
      | succ index =>
          rw [linesFrom, List.getElem?_cons_succ, List.getElem?_cons_succ, ih, List.take_succ_cons,
            ended_cons, Text.bytes_append, Text.bytes]
          have newline : '\n'.utf8Size = 1 := rfl
          rw [newline]
          simp only [Nat.add_assoc]

theorem linesFrom_length (start : Nat) (segments : List (List Char)) :
    (linesFrom start segments).length = segments.length := by
  induction segments generalizing start with
  | nil => rfl
  | cons segment rest ih => rw [linesFrom, List.length_cons, List.length_cons, ih]

theorem lines_length (text : List Char) : (lines text).length = (text.splitOn '\n').length :=
  linesFrom_length 0 _

theorem lines_length_le (text : List Char) : (lines text).length ≤ Text.bytes text + 1 := by
  rw [lines_length, length_splitOn, Nat.add_le_add_iff_right]
  induction text with
  | nil => exact Nat.le_refl _
  | cons c rest ih =>
      have wide := c.utf8Size_pos
      rw [List.count_cons, Text.bytes]
      split
      · omega
      · omega

theorem lines_getElem? (text : List Char) (index : Nat) :
    (lines text)[index]? = ((text.splitOn '\n')[index]?).map fun segment =>
      ⟨Text.bytes (ended '\n' ((text.splitOn '\n').take index)), segment⟩ := by
  rw [lines, linesFrom_getElem?]
  simp only [Nat.zero_add]

theorem parentOf_append {past : List Line} (rest : List Line) {index : Nat}
    (inside : index ≤ past.length) : parentOf (past ++ rest) index = parentOf past index := by
  cases index with
  | zero => rfl
  | succ before => rw [parentOf, parentOf, List.getElem?_append_left inside]

theorem rowsFrom_getElem? (past : List Line) (rest : List Line) (index : Nat) :
    (rowsFrom past.length (parentOf past past.length) rest)[index]? =
      (rest[index]?).map fun line =>
        (printed (past.length + index)
          (tag (parentOf (past ++ rest) (past.length + index)) line.text), line.text) := by
  induction rest generalizing past index with
  | nil => rfl
  | cons line rest ih =>
      have parent_here := parentOf_append (line :: rest) (Nat.le_refl past.length)
      cases index with
      | zero =>
          rw [rowsFrom, List.getElem?_cons_zero, List.getElem?_cons_zero, Nat.add_zero,
            parent_here]
          rfl
      | succ index =>
          have next := ih (past ++ [line]) index
          have parent_next : parentOf (past ++ [line]) (past ++ [line]).length = line.text := by
            rw [List.length_append, List.length_singleton, parentOf,
              List.getElem?_append_right (Nat.le_refl _), Nat.sub_self]
            rfl
          rw [parent_next, List.length_append, List.length_singleton, List.append_assoc] at next
          rw [rowsFrom, List.getElem?_cons_succ, List.getElem?_cons_succ, next,
            Nat.add_assoc, Nat.add_comm 1 index]
          rfl

theorem rows_getElem? (text : List Char) (index : Nat) :
    (rows text)[index]? = ((lines text)[index]?).map fun line =>
      (printed index (tag (parentOf (lines text) index) line.text), line.text) := by
  have from_start := rowsFrom_getElem? [] (lines text) index
  rw [List.nil_append, List.length_nil, Nat.zero_add] at from_start
  exact from_start

/-! ## What an edit leaves -/

def before (text : List Char) (first : Nat) : List Char :=
  ended '\n' ((text.splitOn '\n').take first)

def after (text : List Char) (last : Nat) : List Char :=
  ['\n'].intercalate ((text.splitOn '\n').drop (last + 1))

def replacedLines (text : List Char) (first last : Nat) (newText : List Char) : List Char :=
  before text first ++ newText ++ separator newText (after text last) ++ after text last

theorem lines_around {text : List Char} {first last : Nat} (order : first ≤ last)
    (inside : last < (lines text).length) :
    text = before text first ++
      ['\n'].intercalate (((text.splitOn '\n').take (last + 1)).drop first) ++
      (if last + 1 < (lines text).length then ['\n'] else []) ++ after text last := by
  rw [lines_length] at inside ⊢
  have whole := splitOn_around (show first < (text.splitOn '\n').length by omega)
  have cut : (text.splitOn '\n').drop first =
      ((text.splitOn '\n').take (last + 1)).drop first ++ (text.splitOn '\n').drop (last + 1) := by
    conv_lhs => rw [← List.take_append_drop (last + 1) (text.splitOn '\n')]
    rw [List.drop_append_of_le_length (by rw [List.length_take]; omega)]
  rw [cut] at whole
  have some_line : ((text.splitOn '\n').take (last + 1)).drop first ≠ [] := by
    rw [ne_eq, List.drop_eq_nil_iff, List.length_take]
    omega
  by_cases more : last + 1 < (text.splitOn '\n').length
  · have some_after : (text.splitOn '\n').drop (last + 1) ≠ [] := by
      rw [ne_eq, List.drop_eq_nil_iff]
      omega
    rw [intercalate_append some_after, ended_eq some_line] at whole
    rw [if_pos more]
    simp only [before, after, List.append_assoc] at whole ⊢
    exact whole
  · have none_after : (text.splitOn '\n').drop (last + 1) = [] :=
      List.drop_eq_nil_of_le (Nat.not_lt.mp more)
    rw [none_after, List.append_nil] at whole
    rw [if_neg more, after, none_after, List.intercalate_nil, List.append_nil, List.append_nil]
    exact whole

theorem cutAt_line {text : List Char} {line : Nat} (inside : line < (text.splitOn '\n').length) :
    Text.cutAt (Text.bytes (ended '\n' ((text.splitOn '\n').take line))) text =
      some (ended '\n' ((text.splitOn '\n').take line),
        ['\n'].intercalate ((text.splitOn '\n').drop line)) := by
  have cut := Text.cutAt_append (ended '\n' ((text.splitOn '\n').take line))
    (['\n'].intercalate ((text.splitOn '\n').drop line))
  rwa [← splitOn_around inside] at cut

theorem spliced_spec {text : List Char} {first last : Nat} (order : first ≤ last)
    (inside : last < (lines text).length) (newText : List Char) :
    spliced text (lines text) first last newText =
      some (replacedLines text first last newText) := by
  rw [lines_length] at inside
  have starts : ((lines text)[first]?.map Line.start).getD 0 = Text.bytes (before text first) := by
    rw [lines_getElem?, List.getElem?_eq_getElem (show first < _ by omega)]
    rfl
  have cut_before : Text.cutAt (Text.bytes (before text first)) text =
      some (before text first, ['\n'].intercalate ((text.splitOn '\n').drop first)) :=
    cutAt_line (by omega)
  have cut_after : ∃ front, Text.cutAt
      (((lines text)[last + 1]?.map Line.start).getD (Text.bytes text)) text =
        some (front, after text last) := by
    rw [lines_getElem?]
    by_cases more : last + 1 < (text.splitOn '\n').length
    · rw [List.getElem?_eq_getElem more]
      exact ⟨_, cutAt_line more⟩
    · rw [List.getElem?_eq_none (Nat.not_lt.mp more)]
      have end_ : after text last = [] := by
        rw [after, List.drop_eq_nil_of_le (Nat.not_lt.mp more)]
        rfl
      refine ⟨text, ?_⟩
      rw [end_]
      have at_end := Text.cutAt_append text []
      rw [List.append_nil] at at_end
      exact at_end
  obtain ⟨front, cut_after⟩ := cut_after
  rw [spliced, starts, cut_before, cut_after]
  rfl

/-! ## Looking for a tag -/

def Near (lines : List Line) (hint index : Nat) : Prop :=
  index < lines.length ∧ index ≤ hint + radius ∧ hint ≤ index + radius

structure Names (lines : List Line) (hint : Nat) (hash : List Char) (index : Nat) : Prop where
  near : Near lines hint index
  carries : tagAt lines index = some hash
  alone : ∀ other, Near lines hint other → tagAt lines other = some hash → other = index

theorem scan_spec (hash : List Char) (lines : List Line) (indices : List Nat) :
    (∀ index, Target.scan hash lines indices (.at index) =
      match indices.filter fun other => decide (tagAt lines other = some hash) with
      | [] => .at index
      | _ => .twice) ∧
    Target.scan hash lines indices .missing =
      match indices.filter fun other => decide (tagAt lines other = some hash) with
      | [] => .missing
      | [index] => .at index
      | _ => .twice := by
  induction indices with
  | nil => exact ⟨fun _ => rfl, rfl⟩
  | cons index rest ih =>
      obtain ⟨again, first⟩ := ih
      by_cases carries : tagAt lines index = some hash
      · rw [List.filter_cons_of_pos (p := fun other => decide (tagAt lines other = some hash))
          (decide_eq_true carries)]
        refine ⟨fun found => ?_, ?_⟩
        · rw [Target.scan, if_pos carries]
        · rw [Target.scan, if_pos carries, again]
          cases rest.filter fun other => decide (tagAt lines other = some hash) with
          | nil => rfl
          | cons other others => rfl
      · rw [List.filter_cons_of_neg (p := fun other => decide (tagAt lines other = some hash))
          (by rwa [decide_eq_true_eq])]
        exact ⟨fun found => by rw [Target.scan, if_neg carries, again],
          by rw [Target.scan, if_neg carries, first]⟩

theorem foundNear_at {target : Target} {lines : List Line} {hint index : Nat} :
    target.foundNear lines hint = .at index ↔ Names lines hint target.hash index := by
  have reach : ∀ other, other ∈ List.range' (hint - radius)
      (min lines.length (hint + radius + 1) - (hint - radius)) ↔ Near lines hint other := by
    intro other
    rw [List.mem_range'_1, Near]
    omega
  have carrying : ∀ other, other ∈ (List.range' (hint - radius)
      (min lines.length (hint + radius + 1) - (hint - radius))).filter
        (fun other => decide (tagAt lines other = some target.hash)) ↔
      Near lines hint other ∧ tagAt lines other = some target.hash := by
    intro other
    rw [List.mem_filter, decide_eq_true_eq, reach]
  have once : ((List.range' (hint - radius)
      (min lines.length (hint + radius + 1) - (hint - radius))).filter
        fun other => decide (tagAt lines other = some target.hash)).Nodup :=
    List.filter_sublist.nodup List.nodup_range'
  rw [Target.foundNear, (scan_spec _ _ _).2]
  generalize List.filter _ _ = carriers at carrying once
  constructor
  · intro found
    cases carriers with
    | nil => nomatch found
    | cons one rest =>
        cases rest with
        | cons two rest => nomatch found
        | nil =>
            obtain rfl := Located.at.inj found
            obtain ⟨near, carries⟩ := (carrying one).mp List.mem_cons_self
            exact ⟨near, carries, fun other there same =>
              List.mem_singleton.mp ((carrying other).mpr ⟨there, same⟩)⟩
  · intro names
    cases carriers with
    | nil => nomatch (carrying index).mpr ⟨names.near, names.carries⟩
    | cons one rest =>
        have same : ∀ other ∈ one :: rest, other = index := fun other member =>
          names.alone other ((carrying other).mp member).1 ((carrying other).mp member).2
        cases rest with
        | nil => rw [same one List.mem_cons_self]
        | cons two rest =>
            have equal : one = two := (same one List.mem_cons_self).trans
              (same two (List.mem_cons_of_mem _ List.mem_cons_self)).symm
            exact absurd (equal ▸ List.mem_cons_self) (List.nodup_cons.mp once).1

theorem locate_ok {target : Target} {lines : List Line} {hint : Nat} {which path : String}
    {index : Nat} :
    target.locate lines hint which path = .ok index ↔
      target.line ≤ lines.length ∧ Names lines hint target.hash index := by
  rw [Target.locate, ← foundNear_at]
  by_cases past : lines.length < target.line
  · rw [if_pos past]
    exact ⟨fun found => (nomatch found), fun both => absurd both.1 (Nat.not_le.mpr past)⟩
  · rw [if_neg past]
    cases target.foundNear lines hint with
    | «at» found =>
        dsimp only
        rw [Except.ok.injEq, Located.at.injEq]
        exact ⟨fun same => ⟨Nat.not_lt.mp past, same⟩, fun both => both.2⟩
    | missing => exact ⟨fun found => (nomatch found), fun both => nomatch both.2⟩
    | twice => exact ⟨fun found => (nomatch found), fun both => nomatch both.2⟩

/-! ## A printed tag reads back -/

theorem hexDigit_utf8Size {value : Nat} (small : value < 16) : (hexDigit value).utf8Size = 1 := by
  decide +revert

theorem tag_bytes (parent line : List Char) : Text.bytes (tag parent line) = tagLen := by
  have low : ∀ hash : UInt32, (hash &&& tagBits).toNat < 4096 := by
    intro hash
    rw [UInt32.toNat_and]
    exact Nat.and_lt_two_pow (n := 12) _ (by decide)
  rw [tag]
  have bound := low (fnv ((trimMatches parent ++ '|' :: trimMatches line).flatMap
    String.utf8EncodeChar))
  rw [Text.bytes, Text.bytes, Text.bytes, Text.bytes, hexDigit_utf8Size (by omega),
    hexDigit_utf8Size (by omega), hexDigit_utf8Size (by omega)]
  rfl

theorem parse_printed (debug : String → String) {index : Nat} {hash : List Char}
    (short : Text.bytes hash = tagLen) (small : index + 1 < 2 ^ 64) :
    Target.parse debug (String.ofList (printed index hash)) = .ok ⟨index + 1, hash⟩ := by
  have plain : ':' ∉ Nat.toDigits 10 (index + 1) := fun member =>
    absurd (toDigits_isDigit member) (by decide)
  have number := parseU64_toDigits (UInt64.ofNat (index + 1))
  rw [UInt64.toNat_ofNat_of_lt' small] at number
  rw [Target.parse, String.toList_ofList, printed, List.cons_append]
  simp only [splitOnce_append plain]
  simp only [if_pos short, number, UInt64.toNat_ofNat_of_lt' small, if_pos (Nat.succ_pos index)]

/-! ## An edit touches only its target -/

structure Spans (lines : List Line) (start : Target) (end_ : Option Target)
    (first last : Nat) : Prop where
  within : start.line ≤ lines.length
  names : Names lines (start.line - 1) start.hash first
  ends : match end_ with
    | none => last = first
    | some end_ => start.line ≤ end_.line ∧ end_.line ≤ lines.length ∧ first ≤ last ∧
        Names lines (min (end_.line - 1 + first - (start.line - 1)) (lines.length - 1))
          end_.hash last

theorem Spans.order {lines : List Line} {start : Target} {end_ : Option Target} {first last : Nat}
    (spans : Spans lines start end_ first last) : first ≤ last ∧ last < lines.length := by
  have ends := spans.ends
  cases end_ with
  | none =>
      obtain rfl : last = first := ends
      exact ⟨Nat.le_refl _, spans.names.near.1⟩
  | some end_ => exact ⟨ends.2.2.1, ends.2.2.2.near.1⟩

theorem named_ok {arguments : Range} {path : String} {lines : List Line} {start : Target}
    {end_ : Option Target} {first last : Nat} (few : lines.length < 2 ^ 63) :
    named arguments path lines start end_ = .ok (first, last) ↔
      Spans lines start end_ first last := by
  rw [named]
  cases found : start.locate lines (start.line - 1) targetName path with
  | error output =>
      refine ⟨fun same => (nomatch same), fun spans => ?_⟩
      rw [locate_ok.mpr ⟨spans.within, spans.names⟩] at found
      nomatch found
  | ok from_ =>
      obtain ⟨within, names⟩ := locate_ok.mp found
      have only : ∀ {other}, Names lines (start.line - 1) start.hash other → other = from_ :=
        fun others => names.alone _ others.near others.carries
      cases end_ with
      | none =>
          dsimp only
          rw [Except.ok.injEq, Prod.mk.injEq]
          constructor
          · rintro ⟨rfl, rfl⟩
            exact ⟨within, names, rfl⟩
          · intro spans
            have one := only spans.names
            exact ⟨one.symm, one.symm.trans spans.ends.symm⟩
      | some end_ =>
          dsimp only
          by_cases crossed : end_.line < start.line
          · rw [if_pos crossed]
            exact ⟨fun same => (nomatch same),
              fun spans => absurd spans.ends.1 (Nat.not_le.mpr crossed)⟩
          · rw [if_neg crossed]
            by_cases past : 2 ^ 64 ≤ end_.line - 1 + from_
            · rw [if_pos past]
              refine ⟨fun same => (nomatch same), fun spans => ?_⟩
              have inside := spans.ends.2.1
              have start_inside := names.near.1
              omega
            · rw [if_neg past]
              cases reached : end_.locate lines
                  (min (end_.line - 1 + from_ - (start.line - 1)) (lines.length - 1))
                  endTargetName path with
              | error output =>
                  refine ⟨fun same => (nomatch same), fun spans => ?_⟩
                  obtain ⟨_, inside, _, others⟩ := spans.ends
                  rw [only spans.names] at others
                  rw [locate_ok.mpr ⟨inside, others⟩] at reached
                  nomatch reached
              | ok to_ =>
                  obtain ⟨inside, end_names⟩ := locate_ok.mp reached
                  dsimp only
                  by_cases early : to_ < from_
                  · rw [if_pos early]
                    refine ⟨fun same => (nomatch same), fun spans => ?_⟩
                    obtain ⟨_, _, order, others⟩ := spans.ends
                    rw [only spans.names] at others order
                    have same := end_names.alone _ others.near others.carries
                    omega
                  · rw [if_neg early, Except.ok.injEq, Prod.mk.injEq]
                    constructor
                    · rintro ⟨rfl, rfl⟩
                      exact ⟨within, names, Nat.not_lt.mp crossed, inside, Nat.not_lt.mp early,
                        end_names⟩
                    · intro spans
                      obtain ⟨_, _, _, others⟩ := spans.ends
                      have one := only spans.names
                      rw [one] at others
                      exact ⟨one.symm, (end_names.alone _ others.near others.carries).symm⟩

structure Replaces (w w' : Workspace) (path : String) (text : List Char) (first last : Nat)
    (newText : List Char) : Prop where
  around : text = before text first ++
    ['\n'].intercalate (((text.splitOn '\n').take (last + 1)).drop first) ++
    (if last + 1 < (lines text).length then ['\n'] else []) ++ after text last
  files : w'.files = Function.update w.files (key path)
    (some (String.ofList (replacedLines text first last newText)).toUTF8)
  directories : w'.directories = w.directories

theorem write_whole {w : Workspace} {path text : String} (gated : Gated path)
    (read : whole lib w path = .ok text) (newText : String) :
    ∃ w', write lib w path newText = (.ok (), w') ∧
      w'.files = Function.update w.files (key path) (some newText.toUTF8) ∧
      w'.directories = w.directories := by
  obtain ⟨plain, held, _⟩ := (whole_ok gated).mp read
  have some_file : (w.files (key path)).isSome = true := by rw [held]; rfl
  have vacant := w.apart (key path) some_file
  have free := Workspace.under_eq_false (.inl some_file)
  have allowed : w.refusesWrite path = false := by
    rw [Workspace.refusesWrite, plain, vacant, free]
    rfl
  obtain ⟨answered, files⟩ := Workspace.write_ok gated allowed newText.toUTF8
  refine ⟨(w.write path newText.toUTF8).2, ?_, files, ?_⟩
  · rw [write, answer, answered]
    rfl
  · have open_ : ¬ (slashed path = true ∨ w.directories (components path) = true) := by
      rintro (slash | directory)
      · rw [plain] at slash
        cases slash
      · exact absurd (vacant.symm.trans directory) (by decide)
    rw [Workspace.write, gated.inside]
    dsimp only
    rw [dif_pos (show w.under (components path) = false from free), dif_neg open_]
    funext place
    change (w.directories place || decide (place ∈ above (components path))) = _
    by_cases higher : place ∈ above (components path)
    · rw [w.nested (key path) (.inl some_file) place higher, Bool.true_or]
    · rw [decide_eq_false higher, Bool.or_false]

theorem lines_few {w : Workspace} {path text : String} (gated : Gated path)
    (read : whole lib w path = .ok text) : (lines text.toList).length < 2 ^ 63 := by
  have short := ((whole_ok gated).mp read).2.2
  have few := lines_length_le text.toList
  rw [← Text.utf8ByteSize_eq] at few
  have most : maxReadBytes = 8 * 1024 * 1024 := rfl
  omega

section

variable {w : Workspace} {arguments : Range} {path text : String}

theorem edit_spans {start : Target} {end_ : Option Target} {first last : Nat}
    (inside_ : inside arguments.path = .ok path)
    (parsed : Target.parse debug arguments.target = .ok start)
    (parsed_end : parseEnd debug arguments.endTarget = .ok end_)
    (read : whole lib w path = .ok text) (spans : Spans (lines text.toList) start end_ first last) :
    ∃ w', edit lib debug w arguments = (.ok (landed arguments path first last), w') ∧
      Replaces w w' path text.toList first last arguments.newText.toList := by
  have gated := gated_of_inside inside_
  obtain ⟨order, reach⟩ := spans.order
  obtain ⟨w', written, files, directories⟩ := write_whole lib gated read
    (String.ofList (replacedLines text.toList first last arguments.newText.toList))
  have named_ : named arguments path (lines text.toList) start end_ = .ok (first, last) :=
    (named_ok (lines_few lib gated read)).mpr spans
  refine ⟨w', ?_, lines_around order reach, files, directories⟩
  simp only [edit, inside_, parsed, parsed_end, read, named_, spliced_spec order reach, written]

theorem edit_cases (w : Workspace) (arguments : Range) :
    (∃ stop, edit lib debug w arguments = (.error stop, w)) ∨
      ∃ output w' path text start end_ first last,
        edit lib debug w arguments = (.ok output, w') ∧ inside arguments.path = .ok path ∧
        whole lib w path = .ok text ∧ Target.parse debug arguments.target = .ok start ∧
        parseEnd debug arguments.endTarget = .ok end_ ∧
        Spans (lines text.toList) start end_ first last ∧
        Replaces w w' path text.toList first last arguments.newText.toList := by
  cases inside_ : inside arguments.path with
  | error output => exact .inl ⟨.refused output, by rw [edit, inside_]⟩
  | ok path =>
      cases parsed : Target.parse debug arguments.target with
      | error output => exact .inl ⟨.refused output, by simp only [edit, inside_, parsed]⟩
      | ok start =>
          cases parsed_end : parseEnd debug arguments.endTarget with
          | error output =>
              exact .inl ⟨.refused output, by simp only [edit, inside_, parsed, parsed_end]⟩
          | ok end_ =>
              cases read : whole lib w path with
              | error output =>
                  exact .inl ⟨.refused output, by
                    simp only [edit, inside_, parsed, parsed_end, read]⟩
              | ok text =>
                  cases found : named arguments path (lines text.toList) start end_ with
                  | error stop =>
                      exact .inl ⟨stop, by
                        simp only [edit, inside_, parsed, parsed_end, read, found]⟩
                  | ok range =>
                      obtain ⟨first, last⟩ := range
                      have spans := (named_ok (lines_few lib (gated_of_inside inside_) read)).mp
                        found
                      obtain ⟨w', done, replaces⟩ :=
                        edit_spans lib debug inside_ parsed parsed_end read spans
                      exact .inr ⟨_, w', path, text, start, end_, first, last, done, rfl, read,
                        rfl, rfl, spans, replaces⟩

end

def Printed (text : List Char) (index : Nat) (given : String) : Prop :=
  ∃ row, (rows text)[index]? = some row ∧ given.toList = row.1

def Unique (text : List Char) (index : Nat) : Prop :=
  ∀ other, Near (lines text) index other →
    tagAt (lines text) other = tagAt (lines text) index → other = index

/-- A range's last line: its first, or the one that a second printed tag is unique for. -/
def EndsAt (text : List Char) (first last : Nat) : Option String → Prop
  | none => last = first
  | some given => first ≤ last ∧ Printed text last given ∧ Unique text last

theorem printed_names {text : List Char} {index : Nat} {given : String}
    (few : (lines text).length < 2 ^ 63) (prints : Printed text index given)
    (unique : Unique text index) :
    ∃ target : Target, Target.parse debug given = .ok target ∧ target.line = index + 1 ∧
      target.line ≤ (lines text).length ∧ Names (lines text) index target.hash index := by
  obtain ⟨row, at_row, same⟩ := prints
  rw [rows_getElem?, Option.map_eq_some_iff] at at_row
  obtain ⟨line, at_line, rfl⟩ := at_row
  obtain ⟨inside_, _⟩ := List.getElem?_eq_some_iff.mp at_line
  have carries : tagAt (lines text) index =
      some (tag (parentOf (lines text) index) line.text) := by rw [tagAt, at_line]; rfl
  refine ⟨⟨index + 1, tag (parentOf (lines text) index) line.text⟩, ?_, rfl, inside_,
    ⟨inside_, Nat.le_add_right _ _, Nat.le_add_right _ _⟩, carries,
    fun other near found => unique other near (found.trans carries.symm)⟩
  have spelled : given = String.ofList
      (printed index (tag (parentOf (lines text) index) line.text)) :=
    String.toList_injective (same.trans String.toList_ofList.symm)
  rw [spelled]
  exact parse_printed debug (tag_bytes _ _) (by omega)

theorem printed_spans {text : List Char} {first last : Nat} {given : String}
    {end_ : Option String} (few : (lines text).length < 2 ^ 63) (prints : Printed text first given)
    (unique : Unique text first)
    (ends : EndsAt text first last end_) :
    ∃ start target, Target.parse debug given = .ok start ∧ parseEnd debug end_ = .ok target ∧
      Spans (lines text) start target first last := by
  obtain ⟨start, parsed, line, within, names⟩ := printed_names debug few prints unique
  have at_start : start.line - 1 = first := by omega
  cases end_ with
  | none => exact ⟨start, none, parsed, rfl, within, at_start ▸ names, ends⟩
  | some other =>
      obtain ⟨order, prints_end, unique_end⟩ := ends
      obtain ⟨target, parsed_end, end_line, end_within, end_names⟩ :=
        printed_names debug few prints_end unique_end
      have hint : min (target.line - 1 + first - (start.line - 1)) ((lines text).length - 1) =
          last := by omega
      exact ⟨start, some target, parsed, by simp only [parseEnd, parsed_end], within,
        at_start ▸ names, by omega, end_within, order, hint ▸ end_names⟩

/-- A hashed edit touches only the lines its tags name, or nothing. -/
theorem edit_touches_target (w : Workspace) (arguments : Range) :
    (∀ stop w', edit lib debug w arguments = (.error stop, w') → w' = w) ∧
    (∀ output w', edit lib debug w arguments = (.ok output, w') →
      ∃ path text start end_ first last, inside arguments.path = .ok path ∧
        whole lib w path = .ok text ∧ Target.parse debug arguments.target = .ok start ∧
        parseEnd debug arguments.endTarget = .ok end_ ∧
        Spans (lines text.toList) start end_ first last ∧
        Replaces w w' path text.toList first last arguments.newText.toList) ∧
    ∀ path text, inside arguments.path = .ok path → whole lib w path = .ok text →
      (∀ first last, Printed text.toList first arguments.target → Unique text.toList first →
        EndsAt text.toList first last arguments.endTarget →
        ∃ w', edit lib debug w arguments = (.ok (landed arguments path first last), w') ∧
          Replaces w w' path text.toList first last arguments.newText.toList) ∧
      ∀ start end_, Target.parse debug arguments.target = .ok start →
        parseEnd debug arguments.endTarget = .ok end_ →
        (∀ first last, ¬ Spans (lines text.toList) start end_ first last) →
        ∃ stop, edit lib debug w arguments = (.error stop, w) := by
  refine ⟨?_, ?_, fun path text inside_ read => ⟨?_, ?_⟩⟩
  · intro stop w' ended_
    rcases edit_cases lib debug w arguments with ⟨_, refused⟩ | ⟨_, _, _, _, _, _, _, _, done, _⟩
    · rw [refused] at ended_
      exact (Prod.mk.inj ended_).2.symm
    · rw [done] at ended_
      nomatch (Prod.mk.inj ended_).1
  · intro output w' done
    rcases edit_cases lib debug w arguments with
      ⟨_, refused⟩ | ⟨_, _, path, text, start, end_, first, last, other, rest⟩
    · rw [refused] at done
      nomatch (Prod.mk.inj done).1
    · rw [other] at done
      obtain rfl := (Prod.mk.inj done).2
      exact ⟨path, text, start, end_, first, last, rest⟩
  · intro first last prints unique ends
    obtain ⟨start, end_, parsed, parsed_end, spans⟩ := printed_spans debug
      (lines_few lib (gated_of_inside inside_) read) prints unique ends
    exact edit_spans lib debug inside_ parsed parsed_end read spans
  · intro start end_ parsed parsed_end none_named
    rcases edit_cases lib debug w arguments with
      refused | ⟨_, _, path', text', start', end_', first, last, _, inside', read', parsed',
        parsed_end', spans, _⟩
    · exact refused
    · rw [inside_] at inside'
      obtain rfl := Except.ok.inj inside'
      rw [read] at read'
      obtain rfl := Except.ok.inj read'
      rw [parsed] at parsed'
      obtain rfl := Except.ok.inj parsed'
      rw [parsed_end] at parsed_end'
      obtain rfl := Except.ok.inj parsed_end'
      exact absurd spans (none_named first last)

def twoLines : Workspace where
  root := ["workspace"]
  files place := if place = ["f"] then some "a\nb\n".toUTF8 else none
  directories place := decide (place = [])
  top := rfl
  apart place file := by
    by_cases here : place = ["f"]
    · rw [here]
      rfl
    · rw [if_neg here] at file
      nomatch file
  nested place held higher member := by
    obtain ⟨lower, apart⟩ := mem_above.mp member
    rcases held with file | directory
    · by_cases here : place = ["f"]
      · subst here
        rcases List.prefix_cons_iff.mp lower with rfl | ⟨rest, rfl, inner⟩
        · rfl
        · rw [List.prefix_nil.mp inner] at apart
          exact absurd rfl apart
      · rw [if_neg here] at file
        nomatch file
    · rw [of_decide_eq_true directory] at lower apart
      exact absurd (List.prefix_nil.mp lower) apart

def quiet : Libraries Unit where
  parsePatch _ := .error ""
  updated _ _ _ := .error ""
  wireMessage _ := ""

/-- Replacing the last line of a text drops the newline that ended it. -/
theorem last_newline_lost :
    Printed "a\nb\n".toList 1 "L2:dd6" ∧ Unique "a\nb\n".toList 1 ∧
      ∃ output w', edit quiet id twoLines ⟨"f", "L2:dd6", none, "c"⟩ = (.ok output, w') ∧
        w'.files ["f"] = some "a\nc".toUTF8 := by
  have prints : Printed "a\nb\n".toList 1 "L2:dd6" := by
    have row : ((rows "a\nb\n".toList)[1]?).map Prod.fst = some "L2:dd6".toList := by decide +kernel
    obtain ⟨row, found, same⟩ := Option.map_eq_some_iff.mp row
    exact ⟨row, found, same.symm⟩
  have unique : Unique "a\nb\n".toList 1 := by
    have few : (lines "a\nb\n".toList).length = 3 := by decide +kernel
    have apart : ∀ other < 3, tagAt (lines "a\nb\n".toList) other =
        tagAt (lines "a\nb\n".toList) 1 → other = 1 := by decide +kernel
    exact fun other near => apart other (few ▸ near.1)
  have inside_ : inside "f" = .ok "f" := by decide +kernel
  have read : whole quiet twoLines "f" = .ok "a\nb\n" :=
    (whole_ok (gated_of_inside inside_)).mpr ⟨by decide +kernel, rfl, by decide +kernel⟩
  obtain ⟨start, end_, parsed, parsed_end, spans⟩ := printed_spans id
    (lines_few quiet (gated_of_inside inside_) read) prints unique (show EndsAt _ 1 1 none from rfl)
  obtain ⟨w', done, replaces⟩ : ∃ w', edit quiet id twoLines ⟨"f", "L2:dd6", none, "c"⟩ =
      (.ok (landed ⟨"f", "L2:dd6", none, "c"⟩ "f" 1 1), w') ∧
        Replaces twoLines w' "f" "a\nb\n".toList 1 1 "c".toList :=
    edit_spans quiet id inside_ parsed parsed_end read spans
  refine ⟨prints, unique, _, w', done, ?_⟩
  have edited : replacedLines "a\nb\n".toList 1 1 "c".toList = "a\nc".toList := by decide +kernel
  rw [replaces.files, edited]
  rfl

end Agentsfleet.Patch.Hashed
