import Agentsfleet.Definition.Patch

/-!
# Stored definitions

A definition as it is parsed from a document: its texts with one line ending,
and its configuration with the budget spelled out and a trigger set present.
The fleet's other configuration rules are a parameter.
-/

set_option autoImplicit false

namespace Agentsfleet.Definition

open Agentsfleet.Core
open Agentsfleet.Library

/-! ## Line endings -/

/-- `replace("\r\n", "\n")`. -/
def joinLines : List Char → List Char
  | [] => []
  | '\r' :: '\n' :: rest => '\n' :: joinLines rest
  | c :: rest => c :: joinLines rest

def normalizeChars (text : List Char) : List Char :=
  (joinLines text).map fun c => if c = '\r' then '\n' else c

/-- `text` with every CRLF and lone CR rewritten to LF. -/
def normalizeText (text : String) : String := String.ofList (normalizeChars text.toList)

def Plain (text : String) : Prop := '\r' ∉ text.toList

instance (text : String) : Decidable (Plain text) := inferInstanceAs (Decidable (¬ _ ∈ _))

theorem normalizeChars_plain (text : List Char) : '\r' ∉ normalizeChars text := by
  rw [normalizeChars]
  intro inside
  obtain ⟨c, _, same⟩ := List.mem_map.mp inside
  split at same
  · exact absurd same (by decide)
  · rename_i other
    exact other same

theorem normalizeText_plain (text : String) : Plain (normalizeText text) := by
  rw [Plain, normalizeText, String.toList_ofList]
  exact normalizeChars_plain _

theorem joinLines_plain {text : List Char} (plain : '\r' ∉ text) : joinLines text = text := by
  induction text using joinLines.induct with
  | case1 => rfl
  | case2 rest ih => exact absurd List.mem_cons_self plain
  | case3 c rest other ih =>
      rw [joinLines, ih fun inside => plain (List.mem_cons_of_mem _ inside)]
      exact other

theorem normalizeChars_eq {text : List Char} (plain : '\r' ∉ text) :
    normalizeChars text = text := by
  have stays : ∀ c ∈ text, (if c = '\r' then '\n' else c) = c := by
    intro c member
    exact if_neg fun same : c = '\r' => plain (same ▸ member)
  rw [normalizeChars, joinLines_plain plain, List.map_congr_left stays, List.map_id']

theorem normalizeText_eq {text : String} (plain : Plain text) : normalizeText text = text := by
  rw [normalizeText, normalizeChars_eq plain, String.ofList_toList]

mutual

/-- Normalize text without dropping policy keys or reordering arrays. -/
def normalize : Json → Json
  | .null => .null
  | .bool value => .bool value
  | .number text => .number text
  | .string value => .string (normalizeText value)
  | .array items => .array (normalizeItems items)
  | .object members => .object (normalizeMembers members)

def normalizeItems : List Json → List Json
  | [] => []
  | item :: rest => normalize item :: normalizeItems rest

def normalizeMembers : List (String × Json) → List (String × Json)
  | [] => []
  | (key, value) :: rest => (key, normalize value) :: normalizeMembers rest

end

mutual

theorem normalize_normalize : ∀ value : Json, normalize (normalize value) = normalize value
  | .null => rfl
  | .bool _ => rfl
  | .number _ => rfl
  | .string value => by rw [normalize, normalize, normalizeText_eq (normalizeText_plain value)]
  | .array items => by rw [normalize, normalize, normalizeItems_normalizeItems items]
  | .object members => by rw [normalize, normalize, normalizeMembers_normalizeMembers members]

theorem normalizeItems_normalizeItems :
    ∀ items : List Json, normalizeItems (normalizeItems items) = normalizeItems items
  | [] => rfl
  | item :: rest => by
      rw [normalizeItems, normalizeItems, normalize_normalize item,
        normalizeItems_normalizeItems rest]

theorem normalizeMembers_normalizeMembers : ∀ members : List (String × Json),
    normalizeMembers (normalizeMembers members) = normalizeMembers members
  | [] => rfl
  | (key, value) :: rest => by
      rw [normalizeMembers, normalizeMembers, normalize_normalize value,
        normalizeMembers_normalizeMembers rest]

end

/-! ## Budgets -/

def dailyNanos : String := "daily_nanos"
def monthlyNanos : String := "monthly_nanos"
def maxDailyNanos : Nat := 1000000000000
def maxMonthlyNanos : Nat := 10000000000000
def maxNanosDigits : Nat := 19

structure BudgetCeiling (cap : Nat) where
  nanos : Nat
  positive : 0 < nanos
  within : nanos ≤ cap
deriving DecidableEq

/-- `BudgetCeiling::parse`: a decimal of whole nanos, positive and within its cap. -/
def BudgetCeiling.parse (field : String) (text : String) (cap : Nat) :
    Result (BudgetCeiling cap) :=
  let refuse (reason : String) : Result (BudgetCeiling cap) :=
    .error (.invalidBudget field reason)
  if text.utf8ByteSize = 0 ∨ maxNanosDigits < text.utf8ByteSize ∨
      text.toList.all Char.isDigit = false then
    refuse "expected an unsigned decimal string of integer nanos"
  else
    let nanos := decimal text.toList
    if 2 ^ 63 ≤ nanos then refuse "expected an unsigned decimal string of integer nanos"
    else if positive : 0 < nanos then
      if within : nanos ≤ cap then .ok ⟨nanos, positive, within⟩ else refuse "it is above the cap"
    else refuse "a ceiling must be greater than zero"

structure Budget where
  daily : BudgetCeiling maxDailyNanos
  monthly : Option (BudgetCeiling maxMonthlyNanos)
deriving DecidableEq

theorem parse_repr (field : String) {cap : Nat} (ceiling : BudgetCeiling cap)
    (bound : cap < 10 ^ 18) :
    BudgetCeiling.parse field (Nat.repr ceiling.nanos) cap = .ok ceiling := by
  obtain ⟨nanos, positive, within⟩ := ceiling
  have value : decimal (Nat.repr nanos).toList = nanos := by
    rw [Nat.toList_repr, decimal_eq, Nat.ofDigitChars_ten_toDigits]
  have all : (Nat.repr nanos).toList.all Char.isDigit = true :=
    List.all_eq_true.mpr fun c member => Text.repr_isDigit member
  have long : 0 < (Nat.repr nanos).utf8ByteSize := by
    rw [Text.utf8ByteSize_repr]
    exact List.length_pos_iff.mpr Nat.toDigits_ne_nil
  have short : (Nat.repr nanos).utf8ByteSize ≤ 18 :=
    (Text.utf8ByteSize_repr_le (by decide)).mpr (by omega)
  have digits : maxNanosDigits = 19 := rfl
  have read : ¬ ((Nat.repr nanos).utf8ByteSize = 0 ∨
      maxNanosDigits < (Nat.repr nanos).utf8ByteSize ∨
        (Nat.repr nanos).toList.all Char.isDigit = false) := by
    rintro (none_written | past | other)
    · omega
    · omega
    · rw [all] at other
      nomatch other
  rw [BudgetCeiling.parse]
  simp only [if_neg read, value]
  rw [if_neg (by omega), dif_pos positive, dif_pos within]

def Budget.toJson (budget : Budget) : Members :=
  (dailyNanos, .string (Nat.repr budget.daily.nanos)) ::
    match budget.monthly with
    | some ceiling => [(monthlyNanos, .string (Nat.repr ceiling.nanos))]
    | none => []

def textAt (fields : Members) (key : String) : Result (Option String) :=
  match fields.get? key with
  | none => .ok none
  | some (.string text) => .ok (some text)
  | some _ => .error .shape

def Budget.fields : Json → Result (Option String × Option String)
  | .object fields =>
      if fields.all (fun field => decide (field.1 = dailyNanos ∨ field.1 = monthlyNanos)) = false
      then .error .shape
      else
        match textAt fields dailyNanos, textAt fields monthlyNanos with
        | .error error, _ => .error error
        | .ok _, .error error => .error error
        | .ok daily, .ok monthly => .ok (daily, monthly)
  | .array [] => .ok (none, none)
  | .array [.string daily] => .ok (some daily, none)
  | .array [.string daily, .string monthly] => .ok (some daily, some monthly)
  | _ => .error .shape

/-- `Budget::try_from`; the monthly ceiling may be left out. -/
def Budget.read (value : Json) : Result Budget :=
  match Budget.fields value with
  | .error error => .error error
  | .ok (none, _) => .error (.missing dailyNanos)
  | .ok (some daily, monthly) =>
      match BudgetCeiling.parse dailyNanos daily maxDailyNanos, monthly with
      | .error error, _ => .error error
      | .ok daily, none => .ok ⟨daily, none⟩
      | .ok daily, some monthly =>
          match BudgetCeiling.parse monthlyNanos monthly maxMonthlyNanos with
          | .error error => .error error
          | .ok monthly => .ok ⟨daily, some monthly⟩

theorem read_toJson (budget : Budget) : Budget.read (.object budget.toJson) = .ok budget := by
  obtain ⟨daily, monthly⟩ := budget
  have one := parse_repr dailyNanos daily (by decide)
  cases monthly with
  | none =>
      have texts : Budget.fields (.object (Budget.toJson ⟨daily, none⟩)) =
          .ok (some (Nat.repr daily.nanos), none) := rfl
      rw [Budget.read, texts]
      dsimp only
      rw [one]
  | some monthly =>
      have two := parse_repr monthlyNanos monthly (by decide)
      have texts : Budget.fields (.object (Budget.toJson ⟨daily, some monthly⟩)) =
          .ok (some (Nat.repr daily.nanos), some (Nat.repr monthly.nanos)) := rfl
      rw [Budget.read, texts]
      dsimp only
      rw [one]
      dsimp only
      rw [two]

/-! ## Configuration documents -/

/-- `*object.get_mut(key) = value`, where the key is there. -/
def write (key : String) (value : Json) : Members → Members
  | [] => []
  | (name, held) :: rest =>
      if name = key then (name, value) :: rest else (name, held) :: write key value rest

theorem get?_write (key : String) (value : Json) (members : Members) (other : String) :
    (write key value members).get? other =
      if other = key ∧ (members.get? key).isSome = true then some value
      else members.get? other := by
  induction members with
  | nil =>
      rw [if_neg fun held => nomatch held.2]
      rfl
  | cons first rest ih =>
      obtain ⟨name, held⟩ := first
      rw [write]
      by_cases here : name = key
      · subst here
        rw [if_pos rfl, get?_cons, get?_cons, get?_cons, if_pos rfl]
        by_cases same : name = other
        · rw [if_pos same, if_pos ⟨same.symm, rfl⟩]
        · rw [if_neg same, if_neg same, if_neg fun both => same both.1.symm]
      · rw [if_neg here, get?_cons, get?_cons, get?_cons, if_neg here, ih]
        by_cases same : name = other
        · rw [if_pos same, if_pos same, if_neg fun both => here (same.trans both.1)]
        · rw [if_neg same, if_neg same]

theorem write_held {key : String} {value : Json} {members : Members}
    (held : members.get? key = some value) : write key value members = members := by
  induction members with
  | nil => rfl
  | cons first rest ih =>
      obtain ⟨name, there⟩ := first
      rw [get?_cons] at held
      rw [write]
      by_cases here : name = key
      · rw [if_pos here] at held ⊢
        rw [Option.some.inj held]
      · rw [if_neg here] at held ⊢
        rw [ih held]

def runtimeBlock : String := "x-agentsfleet"
def budgetKey : String := "budget"
def triggers : String := "triggers"
def reasonNoBudget : String := "budget is required"

structure FleetConfig (Rest : Type) where
  budget : Budget
  rest : Rest

section

variable {Rest : Type}

/-- `FleetConfig::authored`: the budget is read here, the other keys by their own rules. -/
def authored (rules : Json → Except Error Rest) (value : Json) : Result (FleetConfig Rest) :=
  match value with
  | .object members =>
      match Members.get? members runtimeBlock with
      | some (.object block) =>
          match Members.get? block budgetKey with
          | none | some .null => .error (.missing budgetKey)
          | some fields =>
              match Budget.read fields, rules value with
              | .error error, _ => .error error
              | .ok _, .error error => .error error
              | .ok budget, .ok rest => .ok ⟨budget, rest⟩
      | none | some .null => .error .runtimeBlockRequired
      | some _ => .error .shape
  | _ => .error .shape

/-- `entry(TRIGGERS).or_insert_with`. -/
def withTriggers (block : Members) : Members :=
  if (block.get? triggers).isSome then block else block ++ [(triggers, .array [])]

/-- `ConfigDocument::parse`, as the document it stores and the policy it proves. -/
def parseValue (rules : Json → Except Error Rest) (value : Json) :
    Result (Json × FleetConfig Rest) :=
  match authored rules (normalize value) with
  | .error error => .error error
  | .ok runtime =>
      match normalize value with
      | .object members =>
          match Members.get? members runtimeBlock with
          | some (.object block) =>
              match Members.get? block budgetKey with
              | none => invalid reasonNoBudget
              | some _ =>
                  .ok (.object (write runtimeBlock (.object (withTriggers
                    (write budgetKey (.object runtime.budget.toJson) block))) members), runtime)
          | _ => invalid reasonNoBudget
      | _ => invalid reasonNoBudget

structure Stored (value : Json) (budget : Budget) : Prop where
  oneLineEnding : normalize value = value
  block : ∃ members block, value = .object members ∧
    Members.get? members runtimeBlock = some (.object block) ∧
    Members.get? block budgetKey = some (.object budget.toJson) ∧
    (Members.get? block triggers).isSome = true

theorem normalizeMembers_write (key : String) (value : Json) (members : Members) :
    normalizeMembers (write key value members) =
      write key (normalize value) (normalizeMembers members) := by
  induction members with
  | nil => rfl
  | cons first rest ih =>
      obtain ⟨name, held⟩ := first
      rw [write, normalizeMembers, write]
      by_cases here : name = key
      · rw [if_pos here, if_pos here, normalizeMembers]
      · rw [if_neg here, if_neg here, normalizeMembers, ih]

theorem normalizeMembers_append (front back : Members) :
    normalizeMembers (front ++ back) = normalizeMembers front ++ normalizeMembers back := by
  induction front with
  | nil => rfl
  | cons first rest ih =>
      obtain ⟨name, held⟩ := first
      rw [List.cons_append, normalizeMembers, normalizeMembers, ih, List.cons_append]

theorem get?_normalizeMembers (members : Members) (key : String) :
    Members.get? (normalizeMembers members) key = (members.get? key).map normalize := by
  induction members with
  | nil => rfl
  | cons first rest ih =>
      obtain ⟨name, held⟩ := first
      rw [normalizeMembers, get?_cons, get?_cons]
      split
      · rfl
      · exact ih

theorem normalize_repr (n : Nat) : normalize (.string (Nat.repr n)) = .string (Nat.repr n) := by
  have plain : Plain (Nat.repr n) := fun inside =>
    absurd (Text.repr_isDigit inside) (by decide)
  rw [normalize, normalizeText_eq plain]

theorem normalize_budget (budget : Budget) :
    normalizeMembers budget.toJson = budget.toJson := by
  obtain ⟨daily, monthly⟩ := budget
  cases monthly with
  | none =>
      rw [Budget.toJson, normalizeMembers, normalize_repr]
      rfl
  | some monthly =>
      rw [Budget.toJson, normalizeMembers, normalizeMembers, normalize_repr, normalize_repr]
      rfl

theorem get?_withTriggers {block : Members} {key : String} {value : Json}
    (held : block.get? key = some value) : (withTriggers block).get? key = some value := by
  rw [withTriggers]
  split
  · exact held
  · rw [Members.get?, Option.map_eq_some_iff] at held ⊢
    obtain ⟨member, found, same⟩ := held
    exact ⟨member, by rw [List.find?_append, found, Option.some_or], same⟩

theorem withTriggers_isSome (block : Members) :
    ((withTriggers block).get? triggers).isSome = true := by
  rw [withTriggers]
  split
  · assumption
  · rw [Members.get?, List.find?_append, Option.isSome_map, Option.isSome_or, Bool.or_eq_true]
    exact .inr rfl

theorem normalize_written {block : Members} {budget : Budget}
    (plain : normalizeMembers block = block) :
    normalizeMembers (withTriggers (write budgetKey (.object budget.toJson) block)) =
      withTriggers (write budgetKey (.object budget.toJson) block) := by
  have written : normalizeMembers (write budgetKey (.object budget.toJson) block) =
      write budgetKey (.object budget.toJson) block := by
    rw [normalizeMembers_write, normalize, normalize_budget, plain]
  rw [withTriggers]
  split
  · exact written
  · rw [normalizeMembers_append, written]
    rfl

theorem get?_plain {members : Members} (plain : normalizeMembers members = members) {key : String}
    {value : Json} (held : members.get? key = some value) : normalize value = value := by
  have same := get?_normalizeMembers members key
  rw [plain, held] at same
  exact (Option.some.inj same).symm

theorem stored_of_parse {rules : Json → Except Error Rest} {value : Json} {stored : Json}
    {runtime : FleetConfig Rest} (read : parseValue rules value = .ok (stored, runtime)) :
    Stored stored runtime.budget := by
  rw [parseValue] at read
  split at read
  · nomatch read
  · rename_i runtime_ authored_
    have plain := normalize_normalize value
    split at read
    · rename_i members shape
      rw [shape, normalize] at plain
      have membersPlain : normalizeMembers members = members := Json.object.inj plain
      split at read
      · rename_i block found
        split at read
        · nomatch read
        · rename_i budget there
          obtain ⟨rfl, rfl⟩ := Prod.mk.inj (Except.ok.inj read)
          have blockPlain : normalizeMembers block = block :=
            Json.object.inj (get?_plain membersPlain found)
          refine ⟨?_, _, withTriggers (write budgetKey (.object runtime_.budget.toJson) block),
            rfl, ?_, ?_, withTriggers_isSome _⟩
          · rw [normalize, normalizeMembers_write, normalize, normalize_written blockPlain,
              membersPlain]
          · rw [get?_write, if_pos ⟨rfl, by rw [found]; rfl⟩]
          · refine get?_withTriggers ?_
            rw [get?_write, if_pos ⟨rfl, by rw [there]; rfl⟩]
      · nomatch read
    · nomatch read

theorem parseValue_stored {rules : Json → Except Error Rest} {value : Json} {budget : Budget}
    (form : Stored value budget) {stored : Json} {runtime : FleetConfig Rest}
    (read : parseValue rules value = .ok (stored, runtime)) : stored = value := by
  obtain ⟨plain, members, block, rfl, found, spelled, triggered⟩ := form
  rw [parseValue, plain, authored] at read
  dsimp only at read
  rw [found] at read
  dsimp only at read
  rw [spelled] at read
  dsimp only at read
  rw [read_toJson] at read
  cases accepted : rules (.object members) with
  | error error =>
      rw [accepted] at read
      nomatch read
  | ok rest =>
      rw [accepted] at read
      obtain ⟨rfl, _⟩ := Prod.mk.inj (Except.ok.inj read)
      rw [write_held spelled, withTriggers, if_pos triggered, write_held found]

structure StoredAs (value stored : Json) (budget : Budget) : Prop where
  members : ∃ members kept block held, normalize value = .object members ∧ stored = .object kept ∧
    Members.get? members runtimeBlock = some (.object block) ∧
    Members.get? kept runtimeBlock = some (.object held) ∧
    (∀ key, key ≠ runtimeBlock → Members.get? kept key = Members.get? members key) ∧
    (∃ spelled, Members.get? block budgetKey = some spelled ∧ Budget.read spelled = .ok budget) ∧
    Members.get? held budgetKey = some (.object budget.toJson) ∧
    Members.get? held triggers = some ((Members.get? block triggers).getD (.array [])) ∧
    ∀ key, key ≠ budgetKey → key ≠ triggers → Members.get? held key = Members.get? block key

theorem withTriggers_get? (block : Members) (key : String) :
    (withTriggers block).get? key =
      if key = triggers then some ((block.get? triggers).getD (.array [])) else block.get? key := by
  rw [withTriggers]
  by_cases there : (block.get? triggers).isSome = true
  · rw [if_pos there]
    by_cases same : key = triggers
    · obtain ⟨value, held⟩ := Option.isSome_iff_exists.mp there
      rw [if_pos same, same, held]
      rfl
    · rw [if_neg same]
  · rw [if_neg there]
    have absent : block.find? (fun member => decide (member.1 = triggers)) = none := by
      rwa [Members.get?, Option.isSome_map, Bool.not_eq_true, Option.isSome_eq_false_iff,
        Option.isNone_iff_eq_none] at there
    by_cases same : key = triggers
    · subst same
      rw [if_pos rfl, Members.get?, Members.get?, List.find?_append, absent]
      rfl
    · rw [if_neg same, Members.get?, Members.get?, List.find?_append, List.find?_cons,
        decide_eq_false (Ne.symm same), List.find?_nil, Option.or_none]

theorem authored_budget {rules : Json → Except Error Rest} {members block : Members}
    {spelled : Json} {runtime : FleetConfig Rest}
    (found : members.get? runtimeBlock = some (.object block))
    (there : block.get? budgetKey = some spelled)
    (read : authored rules (.object members) = .ok runtime) :
    Budget.read spelled = .ok runtime.budget := by
  rw [authored] at read
  simp only [found, there] at read
  split at read
  · nomatch read
  · nomatch read
  · rename_i fields _ same
    obtain rfl := Option.some.inj same
    split at read
    · nomatch read
    · nomatch read
    · rename_i budget rest budgeted ruled
      obtain rfl := Except.ok.inj read
      exact budgeted

theorem parseValue_storedAs {rules : Json → Except Error Rest} {value stored : Json}
    {runtime : FleetConfig Rest} (read : parseValue rules value = .ok (stored, runtime)) :
    StoredAs value stored runtime.budget := by
  rw [parseValue] at read
  split at read
  · nomatch read
  · rename_i runtime_ authored_
    split at read
    · rename_i members shape
      rw [shape] at authored_
      split at read
      · rename_i block found
        split at read
        · nomatch read
        · rename_i spelled there
          obtain ⟨rfl, rfl⟩ := Prod.mk.inj (Except.ok.inj read)
          refine ⟨members, _, block, withTriggers (write budgetKey
            (.object runtime_.budget.toJson) block), shape, rfl, found, ?_, ?_,
            ⟨spelled, there, authored_budget found there authored_⟩, ?_, ?_, ?_⟩
          · rw [get?_write, if_pos ⟨rfl, by rw [found]; rfl⟩]
          · exact fun key other => by rw [get?_write, if_neg fun both => other both.1]
          · rw [withTriggers_get?, if_neg (by decide), get?_write,
              if_pos ⟨rfl, by rw [there]; rfl⟩]
          · rw [withTriggers_get?, if_pos rfl, get?_write, if_neg fun both =>
              absurd both.1 (by decide)]
          · exact fun key other apart => by
              rw [withTriggers_get?, if_neg apart, get?_write, if_neg fun both => other both.1]
      · nomatch read
    · nomatch read

structure ConfigDocument (Rest : Type) where
  value : Json
  runtime : FleetConfig Rest
  stored : Stored value runtime.budget

def ConfigDocument.parse (rules : Json → Except Error Rest) (value : Json) :
    Result (ConfigDocument Rest) :=
  match read : parseValue rules value with
  | .error error => .error error
  | .ok (stored, runtime) => .ok ⟨stored, runtime, stored_of_parse read⟩

end

end Agentsfleet.Definition
