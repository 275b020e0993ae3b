import Agentsfleet.Context.Checkpoint
import Agentsfleet.Definition.Document
import Mathlib.Algebra.GroupWithZero.Nat

/-!
# Editing a definition

An edit validates one complete replacement and never mutates its base: the
batch's bounds, its configuration operations in their order, its instruction
ranges all at once, and the resulting setup as if it had just been written.
-/

set_option autoImplicit false

namespace Agentsfleet

open Agentsfleet.Core
open Agentsfleet.Library
open Agentsfleet.Context (nulFree)

namespace Definition

/-! ## The setup -/

def definitionSchemaVersion : Nat := 1
def maxDescriptionChars : Nat := 32 * 1024
def utf8MaxCharBytes : Nat := 4
def jsonMaxCharBytes : Nat := 6
def configAllowanceBytes : Nat := 64 * 1024
def maxInstructionOffset : Nat := utf8MaxCharBytes * maxInstructionsChars

/-- Both texts at their caps in the widest JSON encoding, plus the configuration. -/
def maxDefinitionBytes : Nat :=
  jsonMaxCharBytes * (maxDescriptionChars + maxInstructionsChars) + configAllowanceBytes

def schemaVersionKey : String := "schema_version"
def instructionsKey : String := "instructions_md"

/-- `document::bounded`, of the text a value encodes to. -/
def bounded (value : Json) (maximum : Nat) : Result Unit :=
  if value.encodedLen ≤ maximum then .ok () else .error .report

structure Raw where
  schemaVersion : Nat
  description : Option String
  instructionsMd : String
  config : Json

def readVersion : Json → Result Nat
  | .number text =>
      match index text with
      | .ok version => if version < 256 then .ok version else .error .shape
      | .error _ => .error .shape
  | _ => .error .shape

/-- A setup's four keys and no other, or the four in their order. -/
def Raw.read : Json → Result Raw
  | .object members =>
      if members.all (fun member => decide (member.1 ∈
          [schemaVersionKey, descriptionKey, instructionsKey, configKey])) = false then
        .error .shape
      else
        match Members.get? members schemaVersionKey, textAt members descriptionKey,
            Members.get? members instructionsKey, Members.get? members configKey with
        | some version, .ok described, some (.string text), some value =>
            match readVersion version with
            | .error error => .error error
            | .ok version => .ok ⟨version, described, text, value⟩
        | _, _, _, _ => .error .shape
  | .array [version, .string described, .string text, value] =>
      match readVersion version with
      | .error error => .error error
      | .ok version => .ok ⟨version, some described, text, value⟩
  | _ => .error .shape

/-- The bounds a setup's fields declare. -/
def Raw.validate (raw : Raw) : Result Unit :=
  if raw.schemaVersion = definitionSchemaVersion ∧
      (∀ text ∈ raw.description, text.length ≤ maxDescriptionChars ∧ nulFree text = true) ∧
      raw.instructionsMd.length ≤ maxInstructionsChars ∧ nulFree raw.instructionsMd = true then
    .ok ()
  else .error .report

end Definition

open Definition in
/-- The validated setup: its texts with one line ending, its configuration as it is stored. -/
structure Definition (Rest : Type) where
  description : String
  instructionsMd : String
  config : ConfigDocument Rest
  descriptionPlain : Plain description
  instructionsPlain : Plain instructionsMd

namespace Definition

variable {Rest : Type}

/-- `serde_json::to_value`. -/
def toValue (definition : Definition Rest) : Json :=
  .object [(schemaVersionKey, .number (Nat.repr definitionSchemaVersion)),
    (descriptionKey, .string definition.description),
    (instructionsKey, .string definition.instructionsMd),
    (configKey, definition.config.value)]

def fromValue (rules : Json → Except Error Rest) (value : Json) :
    Result (Definition Rest) :=
  match bounded value maxDefinitionBytes with
  | .error error => .error error
  | .ok () =>
      match Raw.read value with
      | .error error => .error error
      | .ok raw =>
          match raw.validate with
          | .error error => .error error
          | .ok () =>
              match raw.description.filter (fun found => decide (found ≠ "")) with
              | none => .error (.missing descriptionKey)
              | some described =>
                  match ConfigDocument.parse rules raw.config with
                  | .error error => .error error
                  | .ok config =>
                      .ok
                        { description := normalizeText described
                          instructionsMd := normalizeText raw.instructionsMd
                          config
                          descriptionPlain := normalizeText_plain described
                          instructionsPlain := normalizeText_plain raw.instructionsMd }

/-! ## Batches -/

def maxConfigOps : Nat := 64
def maxInstructionEdits : Nat := 32
def maxPointerChars : Nat := 512

structure EditBatch where
  configOps : List ConfigOp
  instructionEdits : List InstructionEdit

def ConfigOp.toJson : ConfigOp → Json
  | .add path value => .object [("op", .string "add"), ("path", .string path), ("value", value)]
  | .replace path value =>
      .object [("op", .string "replace"), ("path", .string path), ("value", value)]
  | .remove path => .object [("op", .string "remove"), ("path", .string path)]

def InstructionEdit.toJson (edit : InstructionEdit) : Json :=
  .object [("start_byte", .number (Nat.repr edit.startByte)),
    ("end_byte", .number (Nat.repr edit.endByte)), ("text", .string edit.text)]

def EditBatch.toJson (batch : EditBatch) : Json :=
  .object [("config_ops", .array (batch.configOps.map ConfigOp.toJson)),
    ("instruction_edits", .array (batch.instructionEdits.map InstructionEdit.toJson))]

def InstructionEdit.valid (edit : InstructionEdit) : Bool :=
  decide (edit.startByte ≤ maxInstructionOffset ∧ edit.endByte ≤ maxInstructionOffset ∧
    edit.text.length ≤ maxInstructionsChars) && nulFree edit.text

def ConfigOp.valid (operation : ConfigOp) : Bool :=
  decide (1 ≤ operation.path.length ∧ operation.path.length ≤ maxPointerChars)

def EditBatch.validate (batch : EditBatch) : Result Unit :=
  if batch.configOps.length ≤ maxConfigOps ∧ batch.configOps.all ConfigOp.valid = true ∧
      batch.instructionEdits.length ≤ maxInstructionEdits ∧
      batch.instructionEdits.all InstructionEdit.valid = true then
    .ok ()
  else .error .report

mutual

def textChars : Json → Nat
  | .string text => text.length
  | .array items => itemsChars items
  | .object members => membersChars members
  | .null | .bool _ | .number _ => 0

def itemsChars : List Json → Nat
  | [] => 0
  | item :: rest => textChars item + itemsChars rest

def membersChars : List (String × Json) → Nat
  | [] => 0
  | (_, value) :: rest => textChars value + membersChars rest

end

def ConfigOp.chars : ConfigOp → Nat
  | .add _ value => textChars value
  | .replace _ value => textChars value
  | .remove _ => 0

def replacementBound (batch : EditBatch) : Result Unit :=
  if (batch.configOps.map ConfigOp.chars).sum +
      (batch.instructionEdits.map fun edit => edit.text.length).sum ≤ maxInstructionsChars then
    .ok ()
  else .error .report

def reasonEmpty : String := "an edit must contain at least one operation"

/-- `*value.get_mut("instructions_md")? = Value::String(text)`. -/
def setInstructions (value : Json) (text : String) : Result Json :=
  match value with
  | .object members =>
      if (Members.get? members instructionsKey).isSome then
        .ok (.object (write instructionsKey (.string text) members))
      else invalid "instructions member is absent"
  | _ => invalid "instructions member is absent"

/-- `Definition::edit`. -/
def edit (rules : Json → Except Error Rest) (base : Definition Rest)
    (batch : EditBatch) : Answer (Definition Rest) :=
  match bounded batch.toJson maxDefinitionBytes with
  | .error error => .error (.refused error)
  | .ok () =>
      match batch.validate with
      | .error error => .error (.refused error)
      | .ok () =>
          match replacementBound batch with
          | .error error => .error (.refused error)
          | .ok () =>
              if batch.configOps = [] ∧ batch.instructionEdits = [] then
                lift (invalid reasonEmpty)
              else
                match applyAll base.toValue batch.configOps with
                | .error error => .error (.refused error)
                | .ok patched =>
                    match instructions base.instructionsMd.toList batch.instructionEdits with
                    | .error stop => .error stop
                    | .ok text =>
                        match setInstructions patched (String.ofList text) with
                        | .error error => .error (.refused error)
                        | .ok value => lift (fromValue rules value)

/-! ## The writable roots -/

theorem render_config (rest : List String) :
    render (configKey :: rest) ≠ render [descriptionKey] := by
  intro same
  have second : some 'c' = some 'd' := congrArg (fun text => text[1]?) same
  exact absurd second (by decide)

theorem performs_members {operation : ConfigOp} {members : Members} {after : Json}
    (performs : Performs operation (.object members) after) :
    ∃ others, after = .object others ∧
      (∀ key, key ≠ configKey → key ≠ descriptionKey → Members.get? others key = members.get? key) ∧
      (operation.path.toList ≠ render [descriptionKey] →
        Members.get? others descriptionKey = members.get? descriptionKey) ∧
      (operation.path.toList = render [descriptionKey] →
        Members.get? others configKey = members.get? configKey) := by
  obtain ⟨above, member, spelled, allowed, rewrites⟩ := performs
  cases above with
  | nil =>
      rw [List.nil_append] at spelled allowed
      rw [writable, Bool.and_eq_true, decide_eq_true_eq] at allowed
      obtain ⟨rfl, replaces⟩ := allowed
      cases rewrites with
      | here changed =>
          cases changed with
          | addMember lookup => nomatch replaces
          | removeMember there lookup => nomatch replaces
          | replaceMember there lookup =>
              refine ⟨_, rfl, fun key _ other => by rw [lookup, if_neg other],
                fun apart => absurd spelled apart, fun _ => by rw [lookup, if_neg (by decide)]⟩
  | cons root rest =>
      have at_config : root = configKey := by
        cases rest with
        | nil => exact of_decide_eq_true allowed
        | cons next rest => exact of_decide_eq_true allowed
      subst at_config
      obtain ⟨others, rfl, kept⟩ := rewrites_member rewrites
      refine ⟨others, rfl, fun key other _ => kept key other,
        fun _ => kept descriptionKey (by decide), fun same => ?_⟩
      rw [spelled] at same
      exact absurd same (render_config _)

theorem performsAll_members {operations : List ConfigOp} {members : Members} {after : Json}
    (performs : PerformsAll operations (.object members) after) :
    ∃ others, after = .object others ∧
      (∀ key, key ≠ configKey → key ≠ descriptionKey → Members.get? others key = members.get? key) ∧
      ((∀ operation ∈ operations, operation.path.toList ≠ render [descriptionKey]) →
        Members.get? others descriptionKey = members.get? descriptionKey) ∧
      ((∀ operation ∈ operations, operation.path.toList = render [descriptionKey]) →
        Members.get? others configKey = members.get? configKey) := by
  induction operations generalizing members with
  | nil => exact ⟨members, performs, fun _ _ _ => rfl, fun _ => rfl, fun _ => rfl⟩
  | cons operation rest ih =>
      obtain ⟨next, first, later⟩ := performs
      obtain ⟨middle, rfl, outside, described, configured⟩ := performs_members first
      obtain ⟨others, rfl, outside', described', configured'⟩ := ih later
      refine ⟨others, rfl, fun key one two => (outside' key one two).trans (outside key one two),
        fun none_there => ?_, fun all_there => ?_⟩
      · obtain ⟨here, rest_⟩ := List.forall_mem_cons.mp none_there
        exact (described' rest_).trans (described here)
      · obtain ⟨here, rest_⟩ := List.forall_mem_cons.mp all_there
        exact (configured' rest_).trans (configured here)

theorem performsAll_writable {operations : List ConfigOp} {before after : Json}
    (performs : PerformsAll operations before after) {operation : ConfigOp}
    (member : operation ∈ operations) :
    ∃ segments, operation.path.toList = render segments ∧ writable segments operation = true := by
  induction operations generalizing before with
  | nil => nomatch member
  | cons first rest ih =>
      obtain ⟨next, ⟨above, last, spelled, allowed, _⟩, later⟩ := performs
      rcases List.mem_cons.mp member with rfl | inside
      · exact ⟨_, spelled, allowed⟩
      · exact ih later inside

/-! ## What is read of the resulting setup -/

theorem textAt_some {members : Members} {key text : String}
    (read : textAt members key = .ok (some text)) :
    members.get? key = some (.string text) := by
  rw [textAt] at read
  split at read
  · nomatch read
  · rename_i found held
    rw [held, Option.some.inj (Except.ok.inj read)]
  · nomatch read

theorem raw_members {members : Members} {raw : Raw} (read : Raw.read (.object members) = .ok raw) :
    textAt members descriptionKey = .ok raw.description ∧
      members.get? instructionsKey = some (.string raw.instructionsMd) ∧
      members.get? configKey = some raw.config := by
  rw [Raw.read] at read
  split at read
  · nomatch read
  · split at read
    · rename_i version described text value found_version found_text found_instructions found_config
      split at read
      · nomatch read
      · obtain rfl := Except.ok.inj read
        exact ⟨found_text, found_instructions, found_config⟩
    · nomatch read

theorem fromValue_members {rules : Json → Except Error Rest} {members : Members}
    {next : Definition Rest} (read : fromValue rules (.object members) = .ok next) :
    ∃ described text value, members.get? descriptionKey = some (.string described) ∧
      members.get? instructionsKey = some (.string text) ∧ members.get? configKey = some value ∧
      next.description = normalizeText described ∧ next.instructionsMd = normalizeText text ∧
      ConfigDocument.parse rules value = .ok next.config := by
  rw [fromValue] at read
  split at read
  · nomatch read
  · split at read
    · nomatch read
    · rename_i raw found
      obtain ⟨described, instructed, configured⟩ := raw_members found
      split at read
      · nomatch read
      · split at read
        · nomatch read
        · rename_i text filtered
          have there := (Option.filter_eq_some_iff.mp filtered).1
          split at read
          · nomatch read
          · rename_i config parsed
            obtain rfl := Except.ok.inj read
            rw [there] at described
            exact ⟨text, _, _, textAt_some described, instructed, configured, rfl, rfl, parsed⟩

theorem setInstructions_members {members : Members} {text : String} {value : Json}
    (set_ : setInstructions (.object members) text = .ok value) :
    ∃ others, value = .object others ∧ Members.get? others instructionsKey = some (.string text) ∧
      ∀ key, key ≠ instructionsKey → Members.get? others key = members.get? key := by
  rw [setInstructions] at set_
  split at set_
  · rename_i there
    obtain rfl := Except.ok.inj set_
    refine ⟨_, rfl, ?_, fun key apart => ?_⟩
    · rw [get?_write, if_pos ⟨rfl, there⟩]
    · rw [get?_write, if_neg fun both => apart both.1]
  · nomatch set_

/-! ## An edit is exact -/

structure Edited (rules : Json → Except Error Rest) (base next : Definition Rest)
    (batch : EditBatch) : Prop where
  ranges : Acceptable base.instructionsMd.toList batch.instructionEdits
  text : next.instructionsMd.toList =
    normalizeChars (replaced batch.instructionEdits 0 base.instructionsMd.toList)
  setup : ∃ members described value,
    PerformsAll batch.configOps base.toValue (.object members) ∧
    Members.get? members descriptionKey = some (.string described) ∧
    Members.get? members configKey = some value ∧
    next.description = normalizeText described ∧
    ConfigDocument.parse rules value = .ok next.config ∧
    StoredAs value next.config.value next.config.runtime.budget
  textKept : batch.instructionEdits = [] → next.instructionsMd = base.instructionsMd
  descriptionKept :
    (∀ operation ∈ batch.configOps, operation.path.toList ≠ render [descriptionKey]) →
      next.description = base.description
  configKept :
    (∀ operation ∈ batch.configOps, operation.path.toList = render [descriptionKey]) →
      next.config.value = base.config.value

theorem parse_value {rules : Json → Except Error Rest} {value : Json}
    {document : ConfigDocument Rest} (read : ConfigDocument.parse rules value = .ok document) :
    parseValue rules value = .ok (document.value, document.runtime) := by
  rw [ConfigDocument.parse] at read
  split at read
  · nomatch read
  · rename_i stored runtime parsed
    obtain rfl := Except.ok.inj read
    exact parsed

theorem edit_edited {rules : Json → Except Error Rest} {base next : Definition Rest}
    {batch : EditBatch} {patched value : Json} {text : List Char}
    (applied : applyAll base.toValue batch.configOps = .ok patched)
    (spliced : instructions base.instructionsMd.toList batch.instructionEdits = .ok text)
    (set_ : setInstructions patched (String.ofList text) = .ok value)
    (read : fromValue rules value = .ok next) : Edited rules base next batch := by
  have performs := applyAll_performs applied
  obtain ⟨members, rfl, outside, described, configured⟩ := performsAll_members performs
  obtain ⟨others, rfl, instructed, elsewhere⟩ := setInstructions_members set_
  obtain ⟨found, written, document, at_description, at_instructions, at_config, next_description,
    next_text, parsed⟩ := fromValue_members read
  rw [instructed] at at_instructions
  obtain rfl := Json.string.inj (Option.some.inj at_instructions)
  rw [elsewhere _ (by decide)] at at_description at_config
  have stored := parse_value parsed
  rcases instructions_spec base.instructionsMd.toList batch.instructionEdits with
    ⟨acceptable, ⟨answer, _⟩ | ⟨answer, _⟩⟩ | ⟨_, answer⟩
  · rw [spliced] at answer
    obtain rfl := Except.ok.inj answer
    have same_text : next.instructionsMd.toList =
        normalizeChars (replaced batch.instructionEdits 0 base.instructionsMd.toList) := by
      rw [next_text, normalizeText, String.toList_ofList, String.toList_ofList]
    refine ⟨acceptable, same_text, ⟨members, found, document, performs, at_description, at_config,
      next_description, parsed, parseValue_storedAs stored⟩, fun none_there => ?_,
      fun none_there => ?_, fun all_there => ?_⟩
    · rw [none_there, replaced_nil, normalizeChars_eq base.instructionsPlain] at same_text
      exact String.toList_injective same_text
    · have same := described none_there
      rw [at_description] at same
      obtain rfl := Json.string.inj (Option.some.inj same)
      rw [next_description, normalizeText_eq base.descriptionPlain]
    · have same := configured all_there
      rw [at_config] at same
      obtain rfl := Option.some.inj same
      exact parseValue_stored base.config.stored stored
  · rw [spliced] at answer
    cases answer
  · rw [spliced] at answer
    cases answer

theorem edit_cases (rules : Json → Except Error Rest) (base : Definition Rest)
    (batch : EditBatch) :
    (∃ error, base.edit rules batch = .error (.refused error)) ∨
      ∃ next, base.edit rules batch = .ok next ∧ Edited rules base next batch := by
  rw [edit]
  split
  · exact .inl ⟨_, rfl⟩
  · split
    · exact .inl ⟨_, rfl⟩
    · split
      · exact .inl ⟨_, rfl⟩
      · split
        · exact .inl ⟨_, rfl⟩
        · split
          · exact .inl ⟨_, rfl⟩
          · rename_i patched applied
            split
            · rename_i stop stopped
              cases stop with
              | refused error => exact .inl ⟨_, rfl⟩
              | panic => exact absurd stopped (instructions_no_panic _ _)
            · rename_i text spliced
              split
              · exact .inl ⟨_, rfl⟩
              · rename_i value set_
                cases read : fromValue rules value with
                | error error => exact .inl ⟨_, rfl⟩
                | ok next => exact .inr ⟨next, rfl, edit_edited applied spliced set_ read⟩

theorem itemsLen_perm {items others : List Json} (same : items.Perm others) :
    Json.itemsLen items = Json.itemsLen others := by
  have total : ∀ items, Json.itemsLen items = (items.map Json.encodedLen).sum := by
    intro items
    induction items with
    | nil => rfl
    | cons item rest ih => rw [Json.itemsLen, ih, List.map_cons, List.sum_cons]
  rw [total, total, (same.map Json.encodedLen).sum_nat]

theorem edit_perm (rules : Json → Except Error Rest) (base : Definition Rest) (batch : EditBatch)
    {others : List InstructionEdit} (same : batch.instructionEdits.Perm others) :
    base.edit rules { batch with instructionEdits := others } = base.edit rules batch := by
  have size : (EditBatch.toJson { batch with instructionEdits := others }).encodedLen =
      batch.toJson.encodedLen := by
    simp only [EditBatch.toJson, Json.encodedLen_object, Json.membersLen, Json.encodedLen_array,
      itemsLen_perm (same.map InstructionEdit.toJson), List.length_map, List.length_cons,
      same.length_eq]
  have checked : EditBatch.validate { batch with instructionEdits := others } =
      batch.validate := by
    simp only [EditBatch.validate, same.length_eq, same.all_eq]
  have chars : replacementBound { batch with instructionEdits := others } =
      replacementBound batch := by
    simp only [replacementBound, (same.map fun edit => edit.text.length).sum_nat]
  have none_there : others = [] ↔ batch.instructionEdits = [] :=
    ⟨fun empty => List.perm_nil.mp (empty ▸ same), fun empty => List.nil_perm.mp (empty ▸ same)⟩
  simp only [edit, bounded, size, checked, chars, none_there,
    ← instructions_perm _ same]

/-- An edit is exact up to the stored form, whole or refused, and never panics. -/
theorem edit_exact (rules : Json → Except Error Rest) (base : Definition Rest)
    (batch : EditBatch) :
    base.edit rules batch ≠ .error .panic ∧
      (∀ next, base.edit rules batch = .ok next → Edited rules base next batch) ∧
      (¬ Acceptable base.instructionsMd.toList batch.instructionEdits ∨
          (∃ operation ∈ batch.configOps, ∀ segments, operation.path.toList = render segments →
            writable segments operation = false) ∨
          (∀ after, ¬ PerformsAll batch.configOps base.toValue after) →
        ∃ error, base.edit rules batch = .error (.refused error)) ∧
      ∀ others, batch.instructionEdits.Perm others →
        base.edit rules { batch with instructionEdits := others } = base.edit rules batch := by
  refine ⟨?_, ?_, ?_, fun others same => edit_perm rules base batch same⟩
  · rcases edit_cases rules base batch with ⟨error, answer⟩ | ⟨next, answer, _⟩
    · rw [answer]
      exact fun same => nomatch same
    · rw [answer]
      exact fun same => nomatch same
  · intro next accepted
    rcases edit_cases rules base batch with ⟨error, answer⟩ | ⟨other, answer, edited⟩
    · rw [accepted] at answer
      nomatch answer
    · rw [accepted] at answer
      rw [Except.ok.inj answer]
      exact edited
  · intro bad
    rcases edit_cases rules base batch with refused | ⟨next, _, edited⟩
    · exact refused
    · obtain ⟨members, _, _, performs, _⟩ := edited.setup
      rcases bad with off | ⟨operation, member, outside⟩ | fails
      · exact absurd edited.ranges off
      · obtain ⟨segments, spelled, allowed⟩ := performsAll_writable performs member
        rw [outside segments spelled] at allowed
        nomatch allowed
      · exact absurd performs (fails _)

def blank : Definition Unit where
  description := "d"
  instructionsMd := ""
  config :=
    { value := .object [(runtimeBlock, .object [(budgetKey, .object [(dailyNanos, .string "1")]),
        (triggers, .array [])])]
      runtime := ⟨⟨⟨1, by decide, by decide⟩, none⟩, ()⟩
      stored := ⟨by simp only [normalize, normalizeMembers, normalizeItems,
          normalizeText_eq (show Plain "1" by decide)], _, _, rfl, rfl, rfl, rfl⟩ }
  descriptionPlain := by decide
  instructionsPlain := by decide

def hasTriggers : Json → Bool
  | .object members =>
      match Members.get? members runtimeBlock with
      | some (.object block) => (Members.get? block triggers).isSome
      | _ => false
  | _ => false

def configOf : Json → Option Json
  | .object members => Members.get? members configKey
  | _ => none

/-- A carriage return is stored as a line feed, and a removed trigger set comes back empty. -/
theorem stored_form_differs :
    (∃ next, blank.edit (fun _ => .ok ()) ⟨[], [⟨0, 0, "\r"⟩]⟩ = .ok next ∧
      next.instructionsMd.toList ≠ replaced [⟨0, 0, "\r"⟩] 0 blank.instructionsMd.toList) ∧
    ∃ next members value,
      blank.edit (fun _ => .ok ()) ⟨[.remove "/config/x-agentsfleet/triggers"], []⟩ = .ok next ∧
      applyAll blank.toValue [.remove "/config/x-agentsfleet/triggers"] = .ok (.object members) ∧
      Members.get? members configKey = some value ∧ next.config.value ≠ value := by
  constructor
  · have check : (blank.edit (fun _ => .ok ()) ⟨[], [⟨0, 0, "\r"⟩]⟩).toOption.any (fun next =>
        decide (next.instructionsMd.toList ≠
          replaced [⟨0, 0, "\r"⟩] 0 blank.instructionsMd.toList)) = true := by decide +kernel
    cases accepted : blank.edit (fun _ => .ok ()) ⟨[], [⟨0, 0, "\r"⟩]⟩ with
    | error refused =>
        rw [accepted] at check
        cases check
    | ok next =>
        rw [accepted] at check
        exact ⟨next, rfl, of_decide_eq_true check⟩
  · have check : (blank.edit (fun _ => .ok ())
        ⟨[.remove "/config/x-agentsfleet/triggers"], []⟩).toOption.any (fun next =>
          hasTriggers next.config.value) = true := by decide +kernel
    have patched : (applyAll blank.toValue
        [.remove "/config/x-agentsfleet/triggers"]).toOption.any (fun value =>
          (configOf value).any fun config => !hasTriggers config) = true := by decide +kernel
    cases accepted : blank.edit (fun _ => .ok ())
        ⟨[.remove "/config/x-agentsfleet/triggers"], []⟩ with
    | error refused =>
        rw [accepted] at check
        cases check
    | ok next =>
        rw [accepted] at check
        cases applied : applyAll blank.toValue [.remove "/config/x-agentsfleet/triggers"] with
        | error refused =>
            rw [applied] at patched
            cases patched
        | ok value =>
            rw [applied] at patched
            cases value with
            | object members =>
                have at_config : (Members.get? members configKey).any (fun config =>
                    !hasTriggers config) = true := patched
                obtain ⟨config, found, without⟩ := (Option.any_eq_true _ _).mp at_config
                refine ⟨next, members, config, rfl, rfl, found, fun same => ?_⟩
                have with_ : hasTriggers next.config.value = true := check
                rw [same] at with_
                rw [with_] at without
                cases without
            | _ => cases patched

end Definition

end Agentsfleet
