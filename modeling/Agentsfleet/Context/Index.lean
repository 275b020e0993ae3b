import Agentsfleet.Context.Plan
import Agentsfleet.Core.Json
import Mathlib.Data.List.Forall2
import Mathlib.Data.List.TakeWhile

/-!
# The index of a conversation's source groups

A conversation owns its encoded history.  A refresh reopens the last group
only: `spans` is the same layout made from nothing, and a refresh of a
conversation that grew by appended messages leaves a part of it.
-/

set_option autoImplicit false

namespace Agentsfleet.Context

open Agentsfleet.Core

/-! ## Messages -/

structure Call where
  id : String
  name : String
  arguments : Json

inductive ImageKind where
  | png
  | jpeg
  | gif
  | webp
deriving DecidableEq

structure ImageInput where
  kind : ImageKind
  data : List UInt8
deriving DecidableEq

/-- What a provider needs back to continue its own reasoning, kept unopened. -/
structure Replay where
  content : List Json

def Replay.default : Replay := ⟨[]⟩

inductive Message where
  | user (text : String)
  | assistant (text : String) (calls : List Call) (replay : Replay)
  | toolResult (callId output : String) (image : Option ImageInput)

namespace Message

def isUser : Message → Bool
  | .user _ => true
  | _ => false

def isAssistant : Message → Bool
  | .assistant .. => true
  | _ => false

def isToolResult : Message → Bool
  | .toolResult .. => true
  | _ => false

end Message

/-! ## Laying groups out -/

structure Entry where
  group : Group
  start : Nat
  stop : Nat
deriving DecidableEq

structure Index where
  pinned : Nat
  groups : List Entry
deriving DecidableEq

def Index.new (pinned : Nat) : Index := ⟨pinned, []⟩

/-- Whether the assistant's turn after `first`, at `start`, joins its group: a user's
turn takes it in unless the pinned message stands there. -/
def answered (pinned start : Nat) (first : Message) (rest : List Message) : Nat :=
  if first.isUser && decide (start + 1 ≠ pinned) && rest.head?.any Message.isAssistant then 1 else 0

/-- How many of the messages after `first` belong to its group: the answer, then
every tool result. -/
def followers (pinned start : Nat) (first : Message) (rest : List Message) : Nat :=
  let taken := answered pinned start first rest
  taken + ((rest.drop taken).takeWhile Message.isToolResult).length

/-- The loop of `Index::refresh` from position `index` on, where `messages` is
what stands there: the entries it pushes, and how it ends. -/
def lay (encode : List Message → Option String) (pinned : Nat) :
    Nat → Nat → List Message → List Entry × Except ContextError Unit
  | 0, _, _ => ([], .ok ())
  | _ + 1, _, [] => ([], .ok ())
  | left + 1, index, first :: rest =>
      if index = pinned then lay encode pinned left (index + 1) rest
      else
        let more := followers pinned index first rest
        let stop := index + 1 + more
        match encode (first :: rest.take more) with
        | none => ([], .error .boundary)
        | some text =>
            let (entries, result) := lay encode pinned left stop (rest.drop more)
            (⟨⟨stop, text⟩, index, stop⟩ :: entries, result)

/-- `Index::refresh`. -/
def Index.refresh (encode : List Message → Option String) (index : Index)
    (messages : List Message) : Index × Except ContextError Unit :=
  let start := (index.groups.getLast?.map Entry.start).getD 0
  let groups := index.groups.dropLast
  if messages.length < start then ({ index with groups := groups }, .error .stale)
  else
    let (entries, result) :=
      lay encode index.pinned messages.length start (messages.drop start)
    ({ index with groups := groups ++ entries }, result)

/-! ## The layout of a whole conversation -/

structure Span where
  start : Nat
  messages : List Message

def Span.stop (span : Span) : Nat := span.start + span.messages.length

def spans (pinned : Nat) : Nat → List Message → List Span
  | _, [] => []
  | index, first :: rest =>
      if index = pinned then spans pinned (index + 1) rest
      else
        ⟨index, first :: rest.take (followers pinned index first rest)⟩ ::
          spans pinned (index + 1 + followers pinned index first rest)
            (rest.drop (followers pinned index first rest))
termination_by _ messages => messages.length
decreasing_by
  all_goals simp only [List.length_cons, List.length_drop]; omega

section Followers

variable {pinned start : Nat} {first : Message} {rest : List Message}

theorem answered_le : answered pinned start first rest ≤ rest.length := by
  unfold answered
  split
  · rename_i taken
    cases rest with
    | nil => simp at taken
    | cons next rest => simp
  · exact Nat.zero_le _

theorem answered_le_one : answered pinned start first rest ≤ 1 := by
  unfold answered
  split <;> omega

theorem followers_le : followers pinned start first rest ≤ rest.length := by
  have taken : answered pinned start first rest ≤ rest.length := answered_le
  have results := (List.takeWhile_sublist Message.isToolResult
    (l := rest.drop (answered pinned start first rest))).length_le
  rw [List.length_drop] at results
  unfold followers
  simp only
  omega

theorem answered_append (nonempty : rest ≠ []) (more : List Message) :
    answered pinned start first (rest ++ more) = answered pinned start first rest := by
  cases rest with
  | nil => contradiction
  | cons next rest => rfl

theorem takeWhile_append_short {accepts : Message → Bool} {front : List Message}
    (short : (front.takeWhile accepts).length < front.length) (more : List Message) :
    (front ++ more).takeWhile accepts = front.takeWhile accepts := by
  induction front with
  | nil => simp at short
  | cons head tail ih =>
      by_cases accepted : accepts head = true
      · simp only [List.cons_append, List.takeWhile_cons, accepted, if_true, List.length_cons,
          Nat.add_lt_add_iff_right] at short ⊢
        rw [ih short]
      · simp [accepted]

/-- A group that ends before the conversation does keeps its length as it grows. -/
theorem followers_append (short : followers pinned start first rest < rest.length)
    (more : List Message) :
    followers pinned start first (rest ++ more) = followers pinned start first rest := by
  have nonempty : rest ≠ [] := List.ne_nil_of_length_pos (by omega)
  have taken : answered pinned start first rest ≤ rest.length := answered_le
  unfold followers at short ⊢
  simp only [answered_append nonempty] at short ⊢
  rw [List.drop_append_of_le_length taken, takeWhile_append_short]
  rw [List.length_drop]
  omega

/-- Whether a message at `position` joins the group that ends there, after `messages`. -/
def Joins (pinned position : Nat) (messages : List Message) (message : Message) : Prop :=
  message.isToolResult = true ∨
    message.isAssistant = true ∧ position ≠ pinned ∧
      messages.getLast?.any Message.isUser = true

theorem followers_nil : followers pinned start first [] = 0 := by
  simp [followers, answered]

theorem answered_cons (message : Message) (rest : List Message) :
    answered pinned start first (message :: rest) =
      if first.isUser = true ∧ start + 1 ≠ pinned ∧ message.isAssistant = true then 1 else 0 := by
  simp [answered, and_assoc]

theorem followers_lone (more : List Message) :
    0 < followers pinned start first more ↔
      ∃ message, more.head? = some message ∧ Joins pinned (start + 1) [first] message := by
  cases more with
  | nil => simp [followers_nil]
  | cons message rest =>
      simp only [followers, answered_cons, Joins, List.head?_cons, Option.any_some,
        Option.some.injEq, exists_eq_left', List.getLast?_singleton]
      by_cases reply : first.isUser = true ∧ start + 1 ≠ pinned ∧ message.isAssistant = true
      · rw [if_pos reply]
        simp [reply]
      · rw [if_neg reply, List.drop_zero, Nat.zero_add, List.length_pos_iff, List.takeWhile_cons]
        cases results : message.isToolResult with
        | true => simp
        | false =>
            simp only [Bool.false_eq_true, if_false, ne_eq, not_true_eq_false, false_or, false_iff]
            rintro ⟨assistant, elsewhere, user⟩
            exact reply ⟨user, elsewhere, assistant⟩

/-- A group that reaches the end of the conversation takes in what joins it, and
nothing else. -/
theorem followers_grow (full : followers pinned start first rest = rest.length)
    (more : List Message) :
    ∃ taken ≤ more.length, followers pinned start first (rest ++ more) = rest.length + taken ∧
      (0 < taken ↔ ∃ message, more.head? = some message ∧
        Joins pinned (start + 1 + rest.length) (first :: rest) message) := by
  by_cases lone : rest = []
  · subst lone
    exact ⟨followers pinned start first more, followers_le, by simp, followers_lone more⟩
  · have bound : answered pinned start first rest ≤ rest.length := answered_le
    unfold followers at full ⊢
    simp only [answered_append lone] at full ⊢
    have all : (rest.drop (answered pinned start first rest)).takeWhile Message.isToolResult =
        rest.drop (answered pinned start first rest) := by
      apply (List.takeWhile_prefix _).eq_of_length
      rw [List.length_drop]
      omega
    have results : ∀ message ∈ rest.drop (answered pinned start first rest),
        message.isToolResult = true := List.takeWhile_eq_self_iff.mp all
    rw [List.drop_append_of_le_length bound, List.takeWhile_append_of_pos results]
    refine ⟨(more.takeWhile Message.isToolResult).length,
      (List.takeWhile_sublist _).length_le, ?_, ?_⟩
    · simp only [List.length_append, List.length_drop]
      omega
    · have spoken : (first :: rest).getLast?.any Message.isUser = false := by
        obtain ⟨front, last, rfl⟩ := (List.eq_nil_or_concat rest).resolve_left lone
        rw [List.concat_eq_append] at results ⊢
        rw [← List.cons_append, List.getLast?_concat, Option.any_some]
        by_cases inside : answered pinned start first (front ++ [last]) ≤ front.length
        · rw [List.drop_append_of_le_length inside] at results
          have result := results last (by simp)
          cases last <;> simp_all [Message.isToolResult, Message.isUser]
        · have one : answered pinned start first (front ++ [last]) ≤ 1 := answered_le_one
          have taken : answered pinned start first (front ++ [last]) = 1 := by omega
          have alone : front = [] := List.length_eq_zero_iff.mp (by omega)
          subst alone
          rw [List.nil_append, answered_cons] at taken
          cases last <;> simp_all [Message.isAssistant, Message.isUser]
      cases more with
      | nil => simp
      | cons message more =>
          simp only [List.takeWhile_cons, List.head?_cons, Option.some.injEq, exists_eq_left',
            Joins, spoken, Bool.false_eq_true, and_false, or_false]
          cases message.isToolResult <;> simp

end Followers

section Spans

variable {pinned : Nat}

@[simp] theorem spans_nil (index : Nat) : spans pinned index [] = [] := by
  rw [spans]

theorem spans_pinned (first : Message) (rest : List Message) :
    spans pinned pinned (first :: rest) = spans pinned (pinned + 1) rest := by
  rw [spans, if_pos rfl]

theorem spans_cons {index : Nat} (elsewhere : index ≠ pinned) (first : Message)
    (rest : List Message) :
    spans pinned index (first :: rest) =
      ⟨index, first :: rest.take (followers pinned index first rest)⟩ ::
        spans pinned (index + 1 + followers pinned index first rest)
          (rest.drop (followers pinned index first rest)) := by
  rw [spans, if_neg elsewhere]

/-- Groups lie within the conversation, none is empty, and each ends before the
next starts. -/
structure Placed (index : Nat) (messages : List Message) (layout : List Span) : Prop where
  within : ∀ span ∈ layout,
    index ≤ span.start ∧ span.start < span.stop ∧ span.stop ≤ index + messages.length
  apart : layout.Pairwise fun earlier later => earlier.stop ≤ later.start

variable (pinned) in
theorem spans_placed (index : Nat) (messages : List Message) :
    Placed index messages (spans pinned index messages) := by
  induction index, messages using spans.induct pinned with
  | case1 index => exact ⟨by simp, by simp⟩
  | case2 first rest ih =>
      rw [spans_pinned]
      refine ⟨?_, ih.apart⟩
      intro span member
      have placed := ih.within span member
      simp only [List.length_cons]
      omega
  | case3 index first rest elsewhere ih =>
      rw [spans_cons elsewhere]
      have bound : followers pinned index first rest ≤ rest.length := followers_le
      have stop : (Span.mk index (first :: rest.take (followers pinned index first rest))).stop =
          index + 1 + followers pinned index first rest := by
        simp only [Span.stop, List.length_cons, List.length_take]
        omega
      constructor
      · intro span member
        rcases List.mem_cons.mp member with rfl | member
        · rw [stop, List.length_cons]
          refine ⟨Nat.le_refl index, ?_, by omega⟩
          show index < index + 1 + followers pinned index first rest
          omega
        · have placed := ih.within span member
          rw [List.length_drop] at placed
          rw [List.length_cons]
          omega
      · rw [List.pairwise_cons]
        refine ⟨?_, ih.apart⟩
        intro later member
        rw [stop]
        exact (ih.within later member).1

theorem spans_grow (index : Nat) (messages more : List Message) (front : List Span) (last : Span)
    (laid : spans pinned index messages = front ++ [last]) :
    ∃ joined back,
      spans pinned index (messages ++ more) =
        front ++ ⟨last.start, last.messages ++ joined⟩ :: back ∧
      (joined ≠ [] ↔ last.stop = index + messages.length ∧
        ∃ message, more.head? = some message ∧
          Joins pinned (index + messages.length) messages message) := by
  induction index, messages using spans.induct pinned generalizing front with
  | case1 index => simp at laid
  | case2 first rest ih =>
      rw [spans_pinned] at laid
      obtain ⟨joined, back, grown, exactly⟩ := ih front laid
      refine ⟨joined, back, by rw [List.cons_append, spans_pinned, grown], ?_⟩
      have nonempty : rest ≠ [] := by
        rintro rfl
        simp at laid
      rw [exactly, List.length_cons, Nat.add_assoc, Nat.add_comm 1]
      simp only [Joins, List.getLast?_cons_of_ne_nil nonempty]
  | case3 index first rest elsewhere ih =>
      rw [spans_cons elsewhere] at laid
      have bound : followers pinned index first rest ≤ rest.length := followers_le
      rw [List.cons_append, spans_cons elsewhere]
      by_cases full : followers pinned index first rest = rest.length
      · rw [full, List.take_length, List.drop_length, spans_nil] at laid
        have alone : front = [] := by
          have size := congrArg List.length laid
          simp only [List.length_cons, List.length_nil, List.length_append] at size
          exact List.length_eq_zero_iff.mp (by omega)
        subst alone
        rw [List.nil_append, List.cons.injEq] at laid
        obtain ⟨taken, inside, count, exactly⟩ := followers_grow full more
        rw [count, ← laid.1]
        refine ⟨more.take taken, spans pinned (index + 1 + (rest.length + taken))
          ((rest ++ more).drop (rest.length + taken)), ?_, ?_⟩
        · rw [List.nil_append, List.take_length_add_append, List.cons_append]
        · rw [← List.length_pos_iff, List.length_take, Nat.min_eq_left inside, exactly]
          have stop : (Span.mk index (first :: rest)).stop = index + (first :: rest).length := rfl
          have position : index + 1 + rest.length = index + (first :: rest).length := by
            rw [List.length_cons]; omega
          simp only [stop, position, true_and]
      · have short : followers pinned index first rest < rest.length := by omega
        rw [followers_append short, List.take_append_of_le_length bound,
          List.drop_append_of_le_length bound]
        cases front with
        | nil =>
            rw [List.nil_append, List.cons.injEq] at laid
            refine ⟨[], spans pinned (index + 1 + followers pinned index first rest)
              (rest.drop (followers pinned index first rest) ++ more), ?_, ?_⟩
            · rw [List.append_nil, ← laid.1, List.nil_append]
            · have stop : last.stop = index + 1 + followers pinned index first rest := by
                rw [← laid.1]
                simp only [Span.stop, List.length_cons, List.length_take]
                omega
              rw [stop, List.length_cons]
              simp only [ne_eq, not_true_eq_false, false_iff, not_and]
              intro reached
              omega
        | cons head front =>
            rw [List.cons_append, List.cons.injEq] at laid
            obtain ⟨joined, back, grown, exactly⟩ := ih front laid.2
            refine ⟨joined, back, by rw [grown, ← laid.1, List.cons_append], ?_⟩
            have nonempty : rest.drop (followers pinned index first rest) ≠ [] := by
              rw [ne_eq, List.drop_eq_nil_iff]
              omega
            have ends : (first :: rest).getLast? =
                (rest.drop (followers pinned index first rest)).getLast? := by
              rw [List.getLast?_drop, if_neg (Nat.not_le.mpr short),
                List.getLast?_cons_of_ne_nil (List.ne_nil_of_length_pos (by omega))]
            rw [exactly, List.length_drop, List.length_cons]
            simp only [Joins, ends]
            have position : index + 1 + followers pinned index first rest +
                (rest.length - followers pinned index first rest) =
                  index + (rest.length + 1) := by omega
            rw [position]

theorem spans_resume (index : Nat) (messages : List Message) (front back : List Span) (span : Span)
    (laid : spans pinned index messages = front ++ span :: back) :
    index ≤ span.start ∧
      span :: back = spans pinned span.start (messages.drop (span.start - index)) := by
  have placed := spans_placed pinned index messages
  rw [laid] at placed
  refine ⟨(placed.within span (by simp)).1, ?_⟩
  clear placed
  induction index, messages using spans.induct pinned generalizing front with
  | case1 index => simp at laid
  | case2 first rest ih =>
      rw [spans_pinned] at laid
      have resumed := ih front laid
      have after := (spans_placed pinned (pinned + 1) rest).within span (by simp [laid])
      have position : span.start - pinned = (span.start - (pinned + 1)) + 1 := by omega
      rw [position, List.drop_succ_cons]
      exact resumed
  | case3 index first rest elsewhere ih =>
      rw [spans_cons elsewhere] at laid
      cases front with
      | nil =>
          rw [List.nil_append, List.cons.injEq] at laid
          rw [← laid.1, Nat.sub_self, List.drop_zero, spans_cons elsewhere, ← laid.2]
      | cons head front =>
          rw [List.cons_append, List.cons.injEq] at laid
          have resumed := ih front laid.2
          have after := (spans_placed pinned
            (index + 1 + followers pinned index first rest)
            (rest.drop (followers pinned index first rest))).within span (by simp [laid.2])
          have position : span.start - index = (followers pinned index first rest +
              (span.start - (index + 1 + followers pinned index first rest))) + 1 := by omega
          rw [position, List.drop_succ_cons, ← List.drop_drop]
          exact resumed

/-- Whatever a conversation grows by, the groups before one stay, and a group
still starts where that one did. -/
theorem spans_keep (messages more : List Message) (front back : List Span) (span : Span)
    (laid : spans pinned 0 messages = front ++ span :: back) :
    ∃ next later, spans pinned 0 (messages ++ more) = front ++ next :: later ∧
      next.start = span.start := by
  rcases List.eq_nil_or_concat back with rfl | ⟨middle, last, rfl⟩
  · obtain ⟨joined, later, grown, _⟩ := spans_grow 0 messages more front span laid
    exact ⟨_, later, grown, rfl⟩
  · rw [List.concat_eq_append, ← List.cons_append, ← List.append_assoc] at laid
    obtain ⟨joined, later, grown, _⟩ := spans_grow 0 messages more _ last laid
    exact ⟨span, _, by rw [grown, List.append_assoc, List.cons_append], rfl⟩

theorem spans_stay (messages more : List Message) (front back : List Span)
    (laid : spans pinned 0 messages = front ++ back)
    (spared : ∀ last, front.getLast? = some last → last.stop = messages.length →
      ∀ message, more.head? = some message → ¬ Joins pinned messages.length messages message) :
    ∃ later, spans pinned 0 (messages ++ more) = front ++ later := by
  cases back with
  | cons span back =>
      obtain ⟨next, later, grown, _⟩ := spans_keep messages more front back span laid
      exact ⟨_, grown⟩
  | nil =>
      rcases List.eq_nil_or_concat front with rfl | ⟨init, last, rfl⟩
      · exact ⟨_, rfl⟩
      · rw [List.concat_eq_append] at laid spared ⊢
        rw [List.append_nil] at laid
        obtain ⟨joined, later, grown, exactly⟩ := spans_grow 0 messages more init last laid
        have untouched : joined = [] := by
          by_contra some_joined
          obtain ⟨stop, message, first, joins⟩ := exactly.mp some_joined
          rw [Nat.zero_add] at stop joins
          exact spared last List.getLast?_concat stop message first joins
        subst untouched
        rw [List.append_nil] at grown
        exact ⟨later, by rw [grown, List.append_assoc, List.singleton_append]⟩

theorem spans_lost (messages more : List Message) (span : Span)
    (held : span ∈ spans pinned 0 messages) (stop : span.stop = messages.length)
    (message : Message) (first : more.head? = some message)
    (joins : Joins pinned messages.length messages message) :
    ∀ other ∈ spans pinned 0 (messages ++ more), other.stop ≠ messages.length := by
  rcases List.eq_nil_or_concat (spans pinned 0 messages) with none_held | ⟨front, last, laid⟩
  · rw [none_held] at held
    simp at held
  · rw [List.concat_eq_append] at laid
    have placed := spans_placed pinned 0 messages
    rw [laid] at placed held
    have apart := List.pairwise_append.mp placed.apart
    have last_stop : last.stop = messages.length := by
      rcases List.mem_append.mp held with early | final
      · have before := apart.2.2 span early last (by simp)
        have inside := placed.within last (by simp)
        omega
      · rwa [← List.mem_singleton.mp final]
    obtain ⟨joined, later, grown, exactly⟩ := spans_grow 0 messages more front last laid
    have some_joined : joined ≠ [] :=
      exactly.mpr ⟨by omega, message, first, by rwa [Nat.zero_add]⟩
    have longer : 0 < joined.length := List.length_pos_iff.mpr some_joined
    have next := spans_placed pinned 0 (messages ++ more)
    rw [grown] at next ⊢
    have next_stop : (Span.mk last.start (last.messages ++ joined)).stop =
        last.stop + joined.length := by
      simp only [Span.stop, List.length_append]
      omega
    have others := (List.pairwise_append.mp next.apart).2.1
    rw [List.pairwise_cons, next_stop] at others
    intro other member
    rcases List.mem_append.mp member with early | final
    · have before := apart.2.2 other early last (by simp)
      have inside := placed.within last (by simp)
      omega
    · rcases List.mem_cons.mp final with rfl | after
      · omega
      · have before := others.1 other after
        have inside := next.within other member
        omega

end Spans

/-! ## What the index holds -/

section Refresh

variable {encode : List Message → Option String}

def Encodes (encode : List Message → Option String) (span : Span) (entry : Entry) : Prop :=
  ∃ text, encode span.messages = some text ∧
    entry = ⟨⟨span.stop, text⟩, span.start, span.stop⟩

/-- An index that holds the first groups of a conversation; all of them once a
refresh went through. -/
def Index.Follows (encode : List Message → Option String) (index : Index)
    (messages : List Message) : Prop :=
  ∃ done rest, spans index.pinned 0 messages = done ++ rest ∧
    List.Forall₂ (Encodes encode) done index.groups

def Index.Complete (encode : List Message → Option String) (index : Index)
    (messages : List Message) : Prop :=
  List.Forall₂ (Encodes encode) (spans index.pinned 0 messages) index.groups

theorem Index.new_follows (pinned : Nat) (messages : List Message) :
    (Index.new pinned).Follows encode messages :=
  ⟨[], _, rfl, .nil⟩

variable (encode) in
theorem lay_spec (pinned left index : Nat) (messages : List Message)
    (enough : messages.length ≤ left) :
    ∃ done rest, spans pinned index messages = done ++ rest ∧
      List.Forall₂ (Encodes encode) done (lay encode pinned left index messages).1 ∧
      ((lay encode pinned left index messages).2 = .ok () ∧ rest = [] ∨
        (lay encode pinned left index messages).2 = .error .boundary) := by
  induction left generalizing index messages with
  | zero =>
      have empty : messages = [] := List.length_eq_zero_iff.mp (by omega)
      subst empty
      exact ⟨[], [], by simp, .nil, .inl ⟨rfl, rfl⟩⟩
  | succ left ih =>
      cases messages with
      | nil => exact ⟨[], [], by simp, .nil, .inl ⟨rfl, rfl⟩⟩
      | cons first rest =>
          rw [List.length_cons] at enough
          unfold lay
          by_cases here : index = pinned
          · subst here
            rw [if_pos rfl, spans_pinned]
            exact ih (index + 1) rest (by omega)
          · rw [if_neg here, spans_cons here]
            have bound : followers pinned index first rest ≤ rest.length := followers_le
            simp only
            cases encoded : encode (first :: rest.take (followers pinned index first rest)) with
            | none => exact ⟨[], _, rfl, .nil, .inr rfl⟩
            | some text =>
                obtain ⟨done, others, split, held, ended⟩ :=
                  ih (index + 1 + followers pinned index first rest)
                    (rest.drop (followers pinned index first rest))
                    (by rw [List.length_drop]; omega)
                refine ⟨_ :: done, others, by rw [split, List.cons_append], ?_, ended⟩
                refine .cons ⟨text, encoded, ?_⟩ held
                have stop : index + 1 + followers pinned index first rest =
                    (Span.mk index
                      (first :: rest.take (followers pinned index first rest))).stop := by
                  simp only [Span.stop, List.length_cons, List.length_take]
                  omega
                rw [stop]

/-- Where a refresh after growth takes up again: behind the groups it keeps, where
the last one started. -/
theorem Index.Follows.resumes {index : Index} {messages : List Message}
    (follows : index.Follows encode messages) (more : List Message) :
    ∃ kept start, List.Forall₂ (Encodes encode) kept index.groups.dropLast ∧
      (index.groups.getLast?.map Entry.start).getD 0 = start ∧
      start ≤ (messages ++ more).length ∧
      spans index.pinned 0 (messages ++ more) =
        kept ++ spans index.pinned start ((messages ++ more).drop start) := by
  obtain ⟨pinned, groups⟩ := index
  obtain ⟨done, rest, split, held⟩ := follows
  simp only at split held ⊢
  rcases List.eq_nil_or_concat groups with rfl | ⟨entries, final, rfl⟩
  · exact ⟨[], 0, .nil, rfl, Nat.zero_le _, by simp⟩
  · rw [List.concat_eq_append] at held ⊢
    have front_held := List.forall₂_take_append done entries [final] held
    have last_held := List.forall₂_drop_append done entries [final] held
    obtain ⟨last, others, ⟨text, encoded, same⟩, none_left, dropped⟩ :=
      List.forall₂_cons_right_iff.mp last_held
    rw [List.forall₂_nil_right_iff] at none_left
    subst none_left
    have whole := List.take_append_drop entries.length done
    rw [dropped] at whole
    rw [← whole, List.append_assoc, List.singleton_append] at split
    obtain ⟨next, later, grown, begins⟩ := spans_keep messages more _ rest last split
    have resumed := spans_resume 0 (messages ++ more) _ later next grown
    have placed := (spans_placed pinned 0 (messages ++ more)).within next
      (by simp [grown])
    refine ⟨done.take entries.length, next.start, by simpa using front_held, ?_, ?_, ?_⟩
    · simp [same, begins]
    · omega
    · rw [grown, resumed.2, Nat.sub_zero]

/-- A refresh after growth holds the first groups of the grown conversation, all
of them where it succeeds; it never finds its place gone. -/
theorem Index.refresh_spec (index : Index) (messages more : List Message)
    (follows : index.Follows encode messages) :
    (index.refresh encode (messages ++ more)).1.pinned = index.pinned ∧
      (index.refresh encode (messages ++ more)).1.Follows encode (messages ++ more) ∧
      ((index.refresh encode (messages ++ more)).2 = .ok () ∧
          (index.refresh encode (messages ++ more)).1.Complete encode (messages ++ more) ∨
        (index.refresh encode (messages ++ more)).2 = .error .boundary) := by
  obtain ⟨kept, start, kept_held, begins, inside, grown⟩ := follows.resumes more
  obtain ⟨pinned, groups⟩ := index
  simp only at kept_held begins grown
  obtain ⟨laid, left, laid_split, laid_held, ended⟩ := lay_spec encode pinned
    (messages ++ more).length start ((messages ++ more).drop start)
    (by rw [List.length_drop]; omega)
  unfold Index.refresh
  simp only [begins, if_neg (Nat.not_lt.mpr inside)]
  refine ⟨trivial, ⟨kept ++ laid, left, ?_, List.rel_append kept_held laid_held⟩, ?_⟩
  · rw [grown, laid_split, List.append_assoc]
  · rcases ended with ⟨done_ok, rfl⟩ | failed
    · refine .inl ⟨done_ok, ?_⟩
      rw [List.append_nil] at laid_split
      unfold Index.Complete
      simp only
      rw [grown, laid_split]
      exact List.rel_append kept_held laid_held
    · exact .inr failed

end Refresh

end Agentsfleet.Context
