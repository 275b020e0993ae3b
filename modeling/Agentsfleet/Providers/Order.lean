import Agentsfleet.Providers.Replay

/-!
# Text and calls of a replayed turn

Where text stands before a call is read off the turn itself: the call is the
so-manieth under its identifier.  Unchanged text keeps its place; text that was
scrubbed is appended behind the calls it stood before.
-/

set_option autoImplicit false

namespace Agentsfleet.Providers

section Order

variable {CallId ToolName Value Native : Type} (rig : Rig CallId ToolName)

/-- The text before the call that `earlier` others under its identifier precede. -/
def textBefore (wire : String) :
    Nat → List (AssistantContent CallId ToolName Value Native) → Option String
  | _, [] => none
  | earlier, .text text _ :: rest => (textBefore wire earlier rest).map (text ++ ·)
  | earlier, .other _ :: rest => textBefore wire earlier rest
  | 0, .toolCall call :: rest =>
      if rig.wire call.id = wire then some "" else textBefore wire 0 rest
  | earlier + 1, .toolCall call :: rest =>
      textBefore wire (if rig.wire call.id = wire then earlier else earlier + 1) rest

def KeepsOrder (original restored : List (AssistantContent CallId ToolName Value Native)) : Prop :=
  ∀ wire earlier before after, textBefore rig wire earlier original = some before →
    textBefore rig wire earlier restored = some after →
    before ≠ "" → spoken restored ≠ "" → after ≠ ""

def CallsLead (original : List (AssistantContent CallId ToolName Value Native))
    (calls : List (Call Value)) : Prop :=
  ∀ wire earlier before, textBefore rig wire earlier original = some before → before ≠ "" →
    (calls.map Call.id).count wire ≤ earlier

variable {rig} {front back blocks canonical : List (AssistantContent CallId ToolName Value Native)}
  {wire : String} {earlier : Nat}

theorem textBefore_none_iff :
    textBefore rig wire earlier blocks = none ↔ (ids rig blocks).count wire ≤ earlier := by
  induction blocks generalizing earlier with
  | nil => simp [textBefore, ids, callsOf]
  | cons block rest ih =>
      cases block with
      | text first native => rw [textBefore, Option.map_eq_none_iff, ih]; rfl
      | other block => exact ih
      | toolCall call =>
          have counted : (ids rig (.toolCall call :: rest)).count wire =
              (ids rig rest).count wire + if rig.wire call.id = wire then 1 else 0 := by
            simp only [ids, callsOf, List.map_cons, List.count_cons, beq_iff_eq]
          rw [counted]
          cases earlier with
          | zero =>
              rw [textBefore]
              by_cases here : rig.wire call.id = wire
              · simp [here]
              · rw [if_neg here, if_neg here, ih]
                rfl
          | succ earlier =>
              rw [textBefore, ih]
              by_cases here : rig.wire call.id = wire
              · rw [if_pos here, if_pos here]
                omega
              · rw [if_neg here, if_neg here]
                rfl

theorem textBefore_append {before : String}
    (stood : textBefore rig wire earlier front = some before) :
    textBefore rig wire earlier (front ++ back) = some before := by
  induction front generalizing earlier before with
  | nil => exact nomatch stood
  | cons block rest ih =>
      cases block with
      | text first native =>
          obtain ⟨after, deeper, same⟩ := Option.map_eq_some_iff.mp stood
          rw [List.cons_append, textBefore, ih deeper]
          exact congrArg some same
      | other block => exact ih stood
      | toolCall call =>
          cases earlier with
          | zero =>
              rw [List.cons_append, textBefore]
              rw [textBefore] at stood
              by_cases here : rig.wire call.id = wire
              · rwa [if_pos here] at stood ⊢
              · rw [if_neg here] at stood ⊢
                exact ih stood
          | succ earlier => exact ih stood

variable [DecidableEq ToolName] [DecidableEq Value]

/-- The loop keeps the first calls under an identifier, as many as were kept, each behind
its own text, or behind none where the text changed. -/
theorem textBefore_restoreLoop (sameText : Bool)
    (blocks canonical : List (AssistantContent CallId ToolName Value Native)) :
    textBefore rig wire earlier (restoreLoop rig sameText blocks canonical).1 =
      if earlier < (ids rig canonical).count wire then
        (textBefore rig wire earlier blocks).map fun before => if sameText then before else ""
      else none := by
  induction blocks generalizing earlier canonical with
  | nil => simp [restoreLoop, textBefore]
  | cons block rest ih =>
      cases block with
      | text first native =>
          cases sameText with
          | true =>
              have kept := @ih earlier (canonical.filter fun part => !part.isText)
              have same : ids rig (canonical.filter fun part => !part.isText) =
                  ids rig canonical := by
                rw [ids, filter_text.2.1, ids]
              rw [same] at kept
              simp only [restoreLoop, if_true, textBefore, kept]
              split
              · rw [Option.map_map, Option.map_map]
                rfl
              · rfl
          | false =>
              simp only [restoreLoop, Bool.false_eq_true, if_false, textBefore] at ih ⊢
              rw [ih, Option.map_map]
              rfl
      | other block => exact ih canonical
      | toolCall call =>
          rw [restoreLoop]
          cases taken : takeCall rig (rig.wire call.id) canonical with
          | none =>
              have absent := List.count_eq_zero.mpr (takeCall_none taken)
              simp only
              rw [ih]
              by_cases here : rig.wire call.id = wire
              · subst here
                rw [absent, if_neg (Nat.not_lt_zero _), if_neg (Nat.not_lt_zero _)]
              · cases earlier with
                | zero => rw [textBefore, if_neg here]
                | succ earlier => rw [textBefore, if_neg here]
          | some found =>
              obtain ⟨kept, left⟩ := found
              obtain ⟨answers, calls, -, -⟩ := takeCall_some taken
              have counted : (ids rig canonical).count wire =
                  (ids rig left).count wire + if rig.wire call.id = wire then 1 else 0 := by
                have same := (calls.map fun other => rig.wire other.id).count_eq wire
                simp only [List.map_cons, answers, List.count_cons, beq_iff_eq] at same
                exact same
              have named : rig.wire (if sameCall kept call then call else kept).id =
                  rig.wire call.id := by
                split
                · rfl
                · exact answers
              rw [counted]
              simp only
              cases earlier with
              | zero =>
                  rw [textBefore, textBefore, named]
                  by_cases here : rig.wire call.id = wire
                  · simp [here]
                  · rw [if_neg here, if_neg here, if_neg here, ih]
                    rfl
              | succ earlier =>
                  rw [textBefore, textBefore, named, ih]
                  by_cases here : rig.wire call.id = wire
                  · simp only [if_pos here, Nat.add_lt_add_iff_right]
                  · simp only [if_neg here, Nat.add_zero]

section Restored

variable (conversation next : Conversation ToolName)
  (original : AssistantMessage CallId ToolName Value Native) (text : String)
  (calls : List (Call Value))

theorem textBefore_restore
    (made : assistant rig conversation text calls = .ok (next, canonical)) {before : String}
    (stood : textBefore rig wire earlier original.content = some before) :
    textBefore rig wire earlier (restore rig original text canonical).content =
      if earlier < (calls.map Call.id).count wire then
        some (if spoken original.content = text then before else "")
      else none := by
  have kept : ids rig canonical = calls.map Call.id := by
    rw [← (assistant_speaks made).1, List.map_map]
    rfl
  have counted := (restore_calls original made).map Call.id |>.count_eq wire
  rw [List.map_map] at counted
  have placed : textBefore rig wire earlier (restoreLoop rig
      (decide (spoken original.content = text)) original.content canonical).1 = _ :=
    textBefore_restoreLoop _ original.content canonical
  rw [kept, stood] at placed
  by_cases more : earlier < (calls.map Call.id).count wire
  · rw [if_pos more] at placed ⊢
    rw [Option.map_some] at placed
    simp only [decide_eq_true_eq] at placed
    exact textBefore_append placed
  · rw [if_neg more, textBefore_none_iff]
    exact Nat.le_trans (Nat.le_of_eq counted) (Nat.le_of_not_lt more)

/-- Replay keeps a turn's order exactly when its text is unchanged or gone, or
every kept call stands ahead of it. -/
theorem keepsOrder_iff
    (made : assistant rig conversation text calls = .ok (next, canonical)) :
    KeepsOrder rig original.content (restore rig original text canonical).content ↔
      spoken original.content = text ∨ text = "" ∨ CallsLead rig original.content calls := by
  constructor
  · intro keeps
    by_cases same : spoken original.content = text
    · exact .inl same
    · by_cases silent : text = ""
      · exact .inr (.inl silent)
      · refine .inr (.inr ?_)
        intro wire earlier before stood some_before
        by_contra more
        have placed := textBefore_restore conversation next original text calls made stood
        rw [if_pos (Nat.lt_of_not_le more), if_neg same] at placed
        refine keeps wire earlier before "" stood placed some_before ?_ rfl
        rw [restore_spoken original made]
        exact silent
  · intro spared wire earlier before after stood placed some_before some_text
    rw [textBefore_restore conversation next original text calls made stood] at placed
    by_cases more : earlier < (calls.map Call.id).count wire
    · rw [if_pos more, Option.some.injEq] at placed
      rcases spared with same | silent | lead
      · rw [if_pos same] at placed
        rwa [← placed]
      · rw [restore_spoken original made] at some_text
        exact absurd silent some_text
      · exact absurd (lead wire earlier before stood some_before) (Nat.not_le.mpr more)
    · rw [if_neg more] at placed
      exact nomatch placed

end Restored

end Order

/-- The reasoning and both texts unchanged, the call's argument scrubbed. -/
theorem keepsOrder_scrubbed_call :
    KeepsOrder plainRig thought.content (restore plainRig thought "key k1 done"
        [.text "key k1 done" none, .toolCall ⟨"call-1", "exec_command", "***", none⟩]).content ↔
      spoken thought.content = "key k1 done" ∨ "key k1 done" = "" ∨
        CallsLead plainRig thought.content [⟨"call-1", "exec_command", "***"⟩] :=
  keepsOrder_iff ⟨[]⟩ ⟨[("call-1", "exec_command")]⟩ thought "key k1 done"
    [⟨"call-1", "exec_command", "***"⟩] rfl

/-- A scrubbed text goes behind the call it stood before. -/
theorem scrubbed_text_behind_call :
    ∃ canonical, assistant plainRig ⟨[]⟩ "key *** done"
        [(⟨"call-1", "exec_command", "***"⟩ : Call String)] =
          .ok (⟨[("call-1", "exec_command")]⟩, canonical) ∧
      ¬ KeepsOrder plainRig thought.content
        (restore plainRig thought "key *** done" canonical).content := by
  refine ⟨_, rfl, ?_⟩
  intro keeps
  exact keeps "call-1" 0 "key k1" "" (by decide) (by decide) (by decide) (by decide) rfl

end Agentsfleet.Providers
