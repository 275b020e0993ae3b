import Mathlib.Data.List.Perm.Basic

/-!
# Replayed assistant turns

A turn goes back to its provider as the provider sent it, but for what the
runtime changed: `restore` merges the provider's own message with the text and
the calls the conversation kept.  Identifiers and tool names are rig's.
-/

set_option autoImplicit false

namespace Agentsfleet.Providers

structure Rig (CallId ToolName : Type) where
  wire : CallId → String
  fromWire : String → CallId
  wire_fromWire : ∀ text, wire (fromWire text) = text
  nameText : ToolName → String
  newName : String → Option ToolName
  nameText_newName : ∀ text name, newName text = some name → nameText name = text

structure Call (Value : Type) where
  id : String
  name : String
  arguments : Value
deriving DecidableEq

structure ToolCall (CallId ToolName Value Native : Type) where
  id : CallId
  name : ToolName
  arguments : Value
  native : Option Native
deriving DecidableEq

/-- A block of a turn; what a provider adds of its own is `Native`. -/
inductive AssistantContent (CallId ToolName Value Native : Type) where
  | text (text : String) (native : Option Native)
  | toolCall (call : ToolCall CallId ToolName Value Native)
  | other (block : Native)
deriving DecidableEq

structure AssistantMessage (CallId ToolName Value Native : Type) where
  content : List (AssistantContent CallId ToolName Value Native)
  origin : Option Native
  stop : Option Native
deriving DecidableEq

structure Unnamed where
  callId : String
deriving DecidableEq

section Restore

variable {CallId ToolName Value Native : Type}

/-- The conversation as it is mapped: the latest tool under a call's id first. -/
structure Conversation (ToolName : Type) where
  tools : List (String × ToolName)

variable (rig : Rig CallId ToolName)

/-- The calls of `assistant`, each under the id its result echoes. -/
def assistantCalls (conversation : Conversation ToolName) : List (Call Value) →
    Except Unnamed (Conversation ToolName × List (AssistantContent CallId ToolName Value Native))
  | [] => .ok (conversation, [])
  | call :: rest =>
      match rig.newName call.name with
      | none => .error ⟨call.id⟩
      | some name =>
          match assistantCalls ⟨(call.id, name) :: conversation.tools⟩ rest with
          | .error unnamed => .error unnamed
          | .ok (conversation, content) =>
              .ok (conversation,
                .toolCall ⟨rig.fromWire call.id, name, call.arguments, none⟩ :: content)

/-- `assistant`: the text, then each call. -/
def assistant (conversation : Conversation ToolName) (text : String) (calls : List (Call Value)) :
    Except Unnamed (Conversation ToolName × List (AssistantContent CallId ToolName Value Native)) :=
  match assistantCalls rig conversation calls with
  | .error unnamed => .error unnamed
  | .ok (conversation, content) =>
      .ok (conversation, if text.isEmpty then content else .text text none :: content)

/-! ## The merge -/

def AssistantContent.isText : AssistantContent CallId ToolName Value Native → Bool
  | .text .. => true
  | _ => false

def spoken : List (AssistantContent CallId ToolName Value Native) → String
  | [] => ""
  | .text text _ :: rest => text ++ spoken rest
  | _ :: rest => spoken rest

def takeCall (wire : String) : List (AssistantContent CallId ToolName Value Native) →
    Option (ToolCall CallId ToolName Value Native ×
      List (AssistantContent CallId ToolName Value Native))
  | [] => none
  | .toolCall candidate :: rest =>
      if rig.wire candidate.id = wire then some (candidate, rest)
      else (takeCall wire rest).map fun (found, left) => (found, .toolCall candidate :: left)
  | block :: rest => (takeCall wire rest).map fun (found, left) => (found, block :: left)

variable [DecidableEq ToolName] [DecidableEq Value]

def sameCall (kept call : ToolCall CallId ToolName Value Native) : Bool :=
  kept.name = call.name && kept.arguments = call.arguments

def restoreLoop (sameText : Bool) : List (AssistantContent CallId ToolName Value Native) →
    List (AssistantContent CallId ToolName Value Native) →
      List (AssistantContent CallId ToolName Value Native) ×
        List (AssistantContent CallId ToolName Value Native)
  | [], canonical => ([], canonical)
  | .text text native :: rest, canonical =>
      if sameText then
        let (restored, left) :=
          restoreLoop sameText rest (canonical.filter fun part => !part.isText)
        (.text text native :: restored, left)
      else restoreLoop sameText rest canonical
  | .toolCall call :: rest, canonical =>
      match takeCall rig (rig.wire call.id) canonical with
      | none => restoreLoop sameText rest canonical
      | some (replacement, canonical) =>
          let (restored, left) := restoreLoop sameText rest canonical
          (.toolCall (if sameCall replacement call then call else replacement) :: restored, left)
  | .other block :: rest, canonical =>
      let (restored, left) := restoreLoop sameText rest canonical
      (.other block :: restored, left)

/-- `restore`: native items and origin, without undoing the scrubbing. -/
def restore (original : AssistantMessage CallId ToolName Value Native) (text : String)
    (canonical : List (AssistantContent CallId ToolName Value Native)) :
    AssistantMessage CallId ToolName Value Native :=
  let (restored, left) :=
    restoreLoop rig (decide (spoken original.content = text)) original.content canonical
  { content := restored ++ left, origin := original.origin, stop := original.stop }

/-! ## What a turn says -/

def callsOf : List (AssistantContent CallId ToolName Value Native) →
    List (ToolCall CallId ToolName Value Native)
  | [] => []
  | .toolCall call :: rest => call :: callsOf rest
  | _ :: rest => callsOf rest

def others : List (AssistantContent CallId ToolName Value Native) → List Native
  | [] => []
  | .other block :: rest => block :: others rest
  | _ :: rest => others rest

def said (call : ToolCall CallId ToolName Value Native) : Call Value :=
  ⟨rig.wire call.id, rig.nameText call.name, call.arguments⟩

def ids (blocks : List (AssistantContent CallId ToolName Value Native)) : List String :=
  (callsOf blocks).map fun call => rig.wire call.id

section Blocks

omit [DecidableEq ToolName] [DecidableEq Value]

variable {rig} {front back blocks left : List (AssistantContent CallId ToolName Value Native)}

theorem spoken_append : spoken (front ++ back) = spoken front ++ spoken back := by
  induction front with
  | nil => simp [spoken]
  | cons block rest ih => cases block <;> simp [spoken, ih, String.append_assoc]

theorem callsOf_append : callsOf (front ++ back) = callsOf front ++ callsOf back := by
  induction front with
  | nil => rfl
  | cons block rest ih => cases block <;> simp [callsOf, ih]

theorem others_append : others (front ++ back) = others front ++ others back := by
  induction front with
  | nil => rfl
  | cons block rest ih => cases block <;> simp [others, ih]

theorem filter_text : spoken (blocks.filter fun part => !part.isText) = "" ∧
    callsOf (blocks.filter fun part => !part.isText) = callsOf blocks ∧
      others (blocks.filter fun part => !part.isText) = others blocks := by
  induction blocks with
  | nil => exact ⟨rfl, rfl, rfl⟩
  | cons block rest ih =>
      obtain ⟨text, calls, others_same⟩ := ih
      cases block with
      | text first native => exact ⟨text, calls, others_same⟩
      | toolCall call => exact ⟨text, congrArg (call :: ·) calls, others_same⟩
      | other block => exact ⟨text, calls, congrArg (block :: ·) others_same⟩

theorem takeCall_none {wire : String} (missing : takeCall rig wire blocks = none) :
    wire ∉ ids rig blocks := by
  induction blocks with
  | nil => exact List.not_mem_nil
  | cons block rest ih =>
      cases block with
      | text first native => exact ih (by simpa [takeCall] using missing)
      | other block => exact ih (by simpa [takeCall] using missing)
      | toolCall candidate =>
          rw [takeCall] at missing
          by_cases here : rig.wire candidate.id = wire
          · simp [here] at missing
          · rw [if_neg here, Option.map_eq_none_iff] at missing
            intro member
            rcases List.mem_cons.mp member with same | later
            · exact here same.symm
            · exact ih missing later

theorem takeCall_some {wire : String} {found : ToolCall CallId ToolName Value Native}
    (taken : takeCall rig wire blocks = some (found, left)) :
    rig.wire found.id = wire ∧ (callsOf blocks).Perm (found :: callsOf left) ∧
      spoken left = spoken blocks ∧ others left = others blocks := by
  induction blocks generalizing left with
  | nil => exact nomatch taken
  | cons block rest ih =>
      cases block with
      | text first native =>
          obtain ⟨⟨other, kept⟩, deeper, same⟩ := Option.map_eq_some_iff.mp taken
          obtain ⟨rfl, rfl⟩ := Prod.mk.inj same
          obtain ⟨answers, calls, text, rest_same⟩ := ih deeper
          exact ⟨answers, calls, congrArg (first ++ ·) text, rest_same⟩
      | other block =>
          obtain ⟨⟨other, kept⟩, deeper, same⟩ := Option.map_eq_some_iff.mp taken
          obtain ⟨rfl, rfl⟩ := Prod.mk.inj same
          obtain ⟨answers, calls, text, rest_same⟩ := ih deeper
          exact ⟨answers, calls, text, congrArg (block :: ·) rest_same⟩
      | toolCall candidate =>
          rw [takeCall] at taken
          by_cases here : rig.wire candidate.id = wire
          · rw [if_pos here, Option.some.injEq, Prod.mk.injEq] at taken
            obtain ⟨rfl, rfl⟩ := taken
            exact ⟨here, .refl _, rfl, rfl⟩
          · rw [if_neg here] at taken
            obtain ⟨⟨other, kept⟩, deeper, same⟩ := Option.map_eq_some_iff.mp taken
            obtain ⟨rfl, rfl⟩ := Prod.mk.inj same
            obtain ⟨answers, calls, text, rest_same⟩ := ih deeper
            refine ⟨answers, ?_, text, rest_same⟩
            exact (calls.cons candidate).trans (.swap _ _ _)

end Blocks

/-! ## What the loop keeps -/

section Loop

variable {rig} {blocks canonical : List (AssistantContent CallId ToolName Value Native)}

theorem said_kept {kept call : ToolCall CallId ToolName Value Native}
    (answers : rig.wire kept.id = rig.wire call.id) :
    said rig (if sameCall kept call then call else kept) = said rig kept := by
  by_cases same : sameCall kept call = true
  · rw [if_pos same]
    simp only [sameCall, Bool.and_eq_true, decide_eq_true_eq] at same
    simp [said, answers, same.1, same.2]
  · rw [if_neg same]

variable (rig) in
theorem restoreLoop_calls (sameText : Bool)
    (blocks canonical : List (AssistantContent CallId ToolName Value Native)) :
    ((callsOf (restoreLoop rig sameText blocks canonical).1 ++
        callsOf (restoreLoop rig sameText blocks canonical).2).map (said rig)).Perm
      ((callsOf canonical).map (said rig)) := by
  induction blocks generalizing canonical with
  | nil => exact .refl _
  | cons block rest ih =>
      cases block with
      | text first native =>
          cases sameText with
          | true =>
              have kept := ih (canonical.filter fun part => !part.isText)
              rw [filter_text.2.1] at kept
              exact kept
          | false => exact ih canonical
      | other block => exact ih canonical
      | toolCall call =>
          rw [restoreLoop]
          cases taken : takeCall rig (rig.wire call.id) canonical with
          | none => exact ih canonical
          | some found =>
              obtain ⟨kept, left⟩ := found
              obtain ⟨answers, calls, -, -⟩ := takeCall_some taken
              have rest_kept := (ih left).cons (said rig kept)
              simp only [callsOf, List.cons_append, List.map_cons, said_kept answers]
              exact rest_kept.trans (calls.map (said rig)).symm

variable (rig) in
theorem restoreLoop_changed
    (blocks canonical : List (AssistantContent CallId ToolName Value Native)) :
    spoken (restoreLoop rig false blocks canonical).1 = "" ∧
      spoken (restoreLoop rig false blocks canonical).2 = spoken canonical := by
  induction blocks generalizing canonical with
  | nil => exact ⟨rfl, rfl⟩
  | cons block rest ih =>
      cases block with
      | text first native => exact ih canonical
      | other block => exact ih canonical
      | toolCall call =>
          rw [restoreLoop]
          cases taken : takeCall rig (rig.wire call.id) canonical with
          | none => exact ih canonical
          | some found =>
              obtain ⟨kept, left⟩ := found
              obtain ⟨-, -, text, -⟩ := takeCall_some taken
              rw [← text]
              exact ih left

variable (rig) in
theorem restoreLoop_unchanged
    (blocks canonical : List (AssistantContent CallId ToolName Value Native)) :
    spoken (restoreLoop rig true blocks canonical).1 = spoken blocks ∧
      (spoken (restoreLoop rig true blocks canonical).2 = "" ∨ spoken blocks = "" ∧
        spoken (restoreLoop rig true blocks canonical).2 = spoken canonical) := by
  induction blocks generalizing canonical with
  | nil => exact ⟨rfl, .inr ⟨rfl, rfl⟩⟩
  | cons block rest ih =>
      cases block with
      | text first native =>
          obtain ⟨restored, left⟩ :=
            ih (canonical.filter fun part => !part.isText)
          refine ⟨congrArg (first ++ ·) restored, .inl ?_⟩
          rcases left with none_left | ⟨-, same⟩
          · exact none_left
          · exact same.trans filter_text.1
      | other block => exact ih canonical
      | toolCall call =>
          rw [restoreLoop]
          cases taken : takeCall rig (rig.wire call.id) canonical with
          | none => exact ih canonical
          | some found =>
              obtain ⟨kept, left⟩ := found
              obtain ⟨-, -, text, -⟩ := takeCall_some taken
              rw [← text]
              exact ih left

theorem restoreLoop_others (sameText : Bool) :
    others (restoreLoop rig sameText blocks canonical).1 = others blocks ∧
      others (restoreLoop rig sameText blocks canonical).2 = others canonical := by
  induction blocks generalizing canonical with
  | nil => exact ⟨rfl, rfl⟩
  | cons block rest ih =>
      cases block with
      | text first native =>
          cases sameText with
          | true =>
              have kept := @ih (canonical.filter fun part => !part.isText)
              rw [filter_text.2.2] at kept
              exact kept
          | false => exact ih
      | other block =>
          obtain ⟨restored, left⟩ := @ih canonical
          exact ⟨congrArg (block :: ·) restored, left⟩
      | toolCall call =>
          rw [restoreLoop]
          cases taken : takeCall rig (rig.wire call.id) canonical with
          | none => exact ih
          | some found =>
              obtain ⟨kept, left⟩ := found
              obtain ⟨-, -, -, same⟩ := takeCall_some taken
              rw [← same]
              exact ih

end Loop

/-! ## What the conversation kept -/

section Kept

omit [DecidableEq ToolName] [DecidableEq Value]

variable {rig} {conversation next : Conversation ToolName} {calls : List (Call Value)}
  {canonical : List (AssistantContent CallId ToolName Value Native)}

theorem assistantCalls_speaks
    (made : assistantCalls rig conversation calls = .ok (next, canonical)) :
    (callsOf canonical).map (said rig) = calls ∧ spoken canonical = "" ∧
      others canonical = [] := by
  induction calls generalizing conversation next canonical with
  | nil =>
      rw [assistantCalls, Except.ok.injEq, Prod.mk.injEq] at made
      rw [← made.2]
      exact ⟨rfl, rfl, rfl⟩
  | cons call rest ih =>
      rw [assistantCalls] at made
      cases named : rig.newName call.name with
      | none => simp [named] at made
      | some name =>
          simp only [named] at made
          cases mapped : (assistantCalls rig ⟨(call.id, name) :: conversation.tools⟩ rest :
              Except Unnamed (Conversation ToolName ×
                List (AssistantContent CallId ToolName Value Native))) with
          | error unnamed => simp [mapped] at made
          | ok found =>
              obtain ⟨after, content⟩ := found
              simp only [mapped, Except.ok.injEq, Prod.mk.injEq] at made
              obtain ⟨spoke, text, rest_none⟩ := ih mapped
              rw [← made.2]
              refine ⟨?_, text, rest_none⟩
              rw [callsOf, List.map_cons, spoke, said, rig.wire_fromWire,
                rig.nameText_newName _ _ named]

theorem assistant_speaks {text : String}
    (made : assistant rig conversation text calls = .ok (next, canonical)) :
    (callsOf canonical).map (said rig) = calls ∧ spoken canonical = text ∧
      others canonical = [] := by
  unfold assistant at made
  cases mapped : (assistantCalls rig conversation calls : Except Unnamed
      (Conversation ToolName × List (AssistantContent CallId ToolName Value Native))) with
  | error unnamed => simp [mapped] at made
  | ok found =>
      obtain ⟨after, content⟩ := found
      simp only [mapped, Except.ok.injEq, Prod.mk.injEq] at made
      obtain ⟨spoke, silent, rest_none⟩ := assistantCalls_speaks mapped
      rw [← made.2]
      by_cases empty : text.isEmpty = true
      · rw [if_pos empty, String.isEmpty_iff.mp empty]
        exact ⟨spoke, silent, rest_none⟩
      · rw [if_neg empty]
        refine ⟨spoke, ?_, rest_none⟩
        rw [spoken, silent, String.append_empty]

end Kept

section Restored

variable {rig} {conversation next : Conversation ToolName} {text : String}
  {calls : List (Call Value)} {canonical : List (AssistantContent CallId ToolName Value Native)}
  (original : AssistantMessage CallId ToolName Value Native)

theorem restore_spoken (made : assistant rig conversation text calls = .ok (next, canonical)) :
    spoken (restore rig original text canonical).content = text := by
  obtain ⟨-, says_text, -⟩ := assistant_speaks made
  unfold restore
  dsimp only
  rw [spoken_append]
  by_cases same : spoken original.content = text
  · rw [decide_eq_true same]
    obtain ⟨restored, left⟩ := restoreLoop_unchanged rig original.content canonical
    rw [restored, same]
    rcases left with none_left | ⟨silent, whole⟩
    · rw [none_left, String.append_empty]
    · rw [whole, says_text, ← same, silent, String.append_empty]
  · rw [decide_eq_false same]
    obtain ⟨restored, left⟩ := restoreLoop_changed rig original.content canonical
    rw [restored, left, says_text, String.empty_append]

theorem restore_calls (made : assistant rig conversation text calls = .ok (next, canonical)) :
    ((callsOf (restore rig original text canonical).content).map (said rig)).Perm calls := by
  have kept := restoreLoop_calls rig (decide (spoken original.content = text)) original.content
    canonical
  rw [(assistant_speaks made).1, ← callsOf_append] at kept
  exact kept

theorem restore_others (made : assistant rig conversation text calls = .ok (next, canonical)) :
    others (restore rig original text canonical).content = others original.content := by
  unfold restore
  dsimp only
  rw [others_append, (restoreLoop_others _).1, (restoreLoop_others _).2,
    (assistant_speaks made).2.2, List.append_nil]

end Restored

/-- A restored turn says the kept text and the kept calls, each once, beside the
provider's other blocks. -/
theorem restore_keeps (conversation next : Conversation ToolName)
    (original : AssistantMessage CallId ToolName Value Native) (text : String)
    (calls : List (Call Value)) (canonical : List (AssistantContent CallId ToolName Value Native))
    (made : assistant rig conversation text calls = .ok (next, canonical)) :
    spoken (restore rig original text canonical).content = text ∧
      ((callsOf (restore rig original text canonical).content).map (said rig)).Perm calls ∧
      others (restore rig original text canonical).content = others original.content :=
  ⟨restore_spoken original made, restore_calls original made, restore_others original made⟩

end Restore

def plainRig : Rig String String where
  wire id := id
  fromWire text := text
  wire_fromWire _ := rfl
  nameText name := name
  newName text := if text.isEmpty then none else some text
  nameText_newName text name named := by
    by_cases empty : text.isEmpty = true
    · simp [empty] at named
    · rw [if_neg empty, Option.some.injEq] at named
      exact named.symm

def thought : AssistantMessage String String String String where
  content := [.other "reasoning", .text "key k1" (some "msg_1"),
    .toolCall ⟨"call-1", "exec_command", "k1", some "sig"⟩, .text " done" none]
  origin := some "responses"
  stop := none

theorem restore_keeps_scrubbed :
    spoken (restore plainRig thought "key ***" [.text "key ***" none,
        .toolCall ⟨"call-1", "exec_command", "***", none⟩]).content = "key ***" ∧
      ((callsOf (restore plainRig thought "key ***" [.text "key ***" none,
        .toolCall ⟨"call-1", "exec_command", "***", none⟩]).content).map (said plainRig)).Perm
        [⟨"call-1", "exec_command", "***"⟩] ∧
      others (restore plainRig thought "key ***" [.text "key ***" none,
        .toolCall ⟨"call-1", "exec_command", "***", none⟩]).content = others thought.content :=
  restore_keeps plainRig ⟨[]⟩ ⟨[("call-1", "exec_command")]⟩ thought "key ***"
    [⟨"call-1", "exec_command", "***"⟩] _ rfl

end Agentsfleet.Providers
