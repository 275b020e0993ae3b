import Agentsfleet.Context.Preflight
import Agentsfleet.Library.Paired
import Mathlib.Data.List.Nodup

/-!
# The index as it would be rebuilt

However a conversation grew, its refreshed index is the one built from nothing
over what it is now: contiguous groups of every message but the pinned one, each
answer with its results.  What is retained of them is sent in the conversation's
order, with the pinned message in its own place.
-/

set_option autoImplicit false

namespace Agentsfleet.Context

open Agentsfleet.Library

/-! ## Incremental and from nothing -/

section Rebuilt

variable (encode : List Message → Option String)

def encodeSpans : List Span → List Entry × Except ContextError Unit
  | [] => ([], .ok ())
  | span :: rest =>
      match encode span.messages with
      | none => ([], .error .boundary)
      | some text =>
          let (entries, result) := encodeSpans rest
          (⟨⟨span.stop, text⟩, span.start, span.stop⟩ :: entries, result)

def Index.refreshes : Index → List Message → List (List Message) → Index × Except ContextError Unit
  | index, messages, [] => index.refresh encode messages
  | index, messages, more :: rest =>
      Index.refreshes (index.refresh encode messages).1 (messages ++ more) rest

variable {encode}

theorem lay_eq (pinned left index : Nat) (messages : List Message)
    (enough : messages.length ≤ left) :
    lay encode pinned left index messages = encodeSpans encode (spans pinned index messages) := by
  induction left generalizing index messages with
  | zero =>
      have empty : messages = [] := List.length_eq_zero_iff.mp (by omega)
      rw [empty, spans_nil]
      rfl
  | succ left ih =>
      cases messages with
      | nil =>
          rw [spans_nil]
          rfl
      | cons first rest =>
          rw [List.length_cons] at enough
          unfold lay
          by_cases here : index = pinned
          · subst here
            rw [if_pos rfl, spans_pinned]
            exact ih (index + 1) rest (by omega)
          · rw [if_neg here, spans_cons here, encodeSpans]
            have bound : followers pinned index first rest ≤ rest.length := followers_le
            have stop : (Span.mk index
                (first :: rest.take (followers pinned index first rest))).stop =
                  index + 1 + followers pinned index first rest := by
              simp only [Span.stop, List.length_cons, List.length_take]
              omega
            have after := ih (index + 1 + followers pinned index first rest)
              (rest.drop (followers pinned index first rest)) (by rw [List.length_drop]; omega)
            simp only [stop]
            cases encode (first :: rest.take (followers pinned index first rest)) with
            | none => rfl
            | some text => simp only [after]

theorem encodeSpans_append {done : List Span} {entries : List Entry}
    (held : List.Forall₂ (Encodes encode) done entries) (rest : List Span) :
    encodeSpans encode (done ++ rest) =
      (entries ++ (encodeSpans encode rest).1, (encodeSpans encode rest).2) := by
  induction held with
  | nil => rfl
  | cons first _ ih =>
      obtain ⟨text, encoded, rfl⟩ := first
      rw [List.cons_append, encodeSpans, encoded, ih]
      rfl

theorem Index.Follows.refresh_eq {index : Index} {messages : List Message}
    (follows : index.Follows encode messages) (more : List Message) :
    index.refresh encode (messages ++ more) =
      ({ index with
          groups := (encodeSpans encode (spans index.pinned 0 (messages ++ more))).1 },
        (encodeSpans encode (spans index.pinned 0 (messages ++ more))).2) := by
  obtain ⟨kept, start, kept_held, begins, inside, grown⟩ := follows.resumes more
  rw [grown, encodeSpans_append kept_held]
  unfold Index.refresh
  simp only [begins, if_neg (Nat.not_lt.mpr inside)]
  rw [lay_eq _ _ _ _ (by rw [List.length_drop]; omega)]

theorem Index.Follows.refreshes_eq {index : Index} {read : List Message}
    (follows : index.Follows encode read) (since : List Message)
    (growths : List (List Message)) :
    index.refreshes encode (read ++ since) growths =
      index.refresh encode (read ++ since ++ growths.flatten) := by
  induction growths generalizing index read since with
  | nil => rw [Index.refreshes, List.flatten_nil, List.append_nil]
  | cons more rest ih =>
      obtain ⟨pinned, next, -⟩ := index.refresh_spec read since follows
      have grown : read ++ since ++ (more :: rest).flatten =
          read ++ (since ++ (more ++ rest.flatten)) := by
        rw [List.flatten_cons, List.append_assoc]
      rw [Index.refreshes, ih next more, List.append_assoc (read ++ since), next.refresh_eq,
        pinned, grown, follows.refresh_eq (since ++ (more ++ rest.flatten)),
        List.append_assoc read]

end Rebuilt

/-! ## What a layout holds -/

section Layout

variable {pinned : Nat}

theorem followers_joins {start : Nat} {first : Message} {rest : List Message} {offset : Nat}
    (within : offset < followers pinned start first rest) :
    ∃ message, rest[offset]? = some message ∧ (message.isToolResult = true ∨
      offset = 0 ∧ start + 1 ≠ pinned ∧ message.isAssistant = true) := by
  by_cases lead : offset < answered pinned start first rest
  · unfold answered at lead
    split at lead
    · rename_i reply
      cases rest with
      | nil => simp at reply
      | cons next rest =>
          have zero : offset = 0 := by omega
          subst zero
          simp only [List.head?_cons, Option.any_some, Bool.and_eq_true,
            decide_eq_true_eq] at reply
          exact ⟨next, rfl, .inr ⟨rfl, reply.1.2, reply.2⟩⟩
    · omega
  · unfold followers at within
    simp only at within
    have beyond : offset - answered pinned start first rest <
        ((rest.drop (answered pinned start first rest)).takeWhile Message.isToolResult).length := by
      omega
    have member := List.getElem_mem beyond
    have result := (List.mem_takeWhile_imp member)
    refine ⟨_, ?_, .inl result⟩
    have inside := List.IsPrefix.getElem (List.takeWhile_prefix Message.isToolResult
      (l := rest.drop (answered pinned start first rest))) beyond
    rw [inside, List.getElem_drop]
    have position : answered pinned start first rest +
        (offset - answered pinned start first rest) = offset := by omega
    simp only [position]
    rw [List.getElem?_eq_getElem]

theorem followers_ends {start : Nat} {first message : Message} {rest : List Message}
    (behind : rest[followers pinned start first rest]? = some message) :
    message.isToolResult = false := by
  unfold followers at behind
  simp only at behind
  generalize answered pinned start first rest = taken at behind
  rw [← List.getElem?_drop] at behind
  generalize rest.drop taken = tail at behind
  induction tail with
  | nil => simp at behind
  | cons head tail ih =>
      rw [List.takeWhile_cons] at behind
      cases result : head.isToolResult with
      | true =>
          rw [result, if_pos rfl, List.length_cons, List.getElem?_cons_succ] at behind
          exact ih behind
      | false =>
          rw [result] at behind
          simp only [Bool.false_eq_true, if_false, List.length_nil, List.getElem?_cons_zero,
            Option.some.injEq] at behind
          rw [← behind, result]

variable {index : Nat} {messages : List Message} {span : Span}

theorem spans_head (held : span ∈ spans pinned index messages) :
    ∃ first rest, span.start ≠ pinned ∧ index ≤ span.start ∧
      messages.drop (span.start - index) = first :: rest ∧
      span.messages = first :: rest.take (followers pinned span.start first rest) := by
  obtain ⟨front, back, laid⟩ := List.append_of_mem held
  obtain ⟨after, resumed⟩ := spans_resume index messages front back span laid
  cases behind : messages.drop (span.start - index) with
  | nil =>
      rw [behind, spans_nil] at resumed
      exact nomatch resumed
  | cons first rest =>
      rw [behind] at resumed
      by_cases here : span.start = pinned
      · have within := (spans_placed pinned (pinned + 1) rest).within span (by
          rw [here, spans_pinned] at resumed
          rw [← resumed]
          exact List.mem_cons_self)
        omega
      · rw [spans_cons here, List.cons.injEq] at resumed
        refine ⟨first, rest, here, after, rfl, ?_⟩
        have same := congrArg Span.messages resumed.1
        exact same

theorem spans_messages (held : span ∈ spans pinned 0 messages) :
    span.messages = (messages.take span.stop).drop span.start := by
  obtain ⟨first, rest, -, -, behind, said⟩ := spans_head held
  rw [Nat.sub_zero] at behind
  have bound : followers pinned span.start first rest ≤ rest.length := followers_le
  rw [List.drop_take, behind, said, Span.stop, said]
  have count : span.start + (first :: rest.take (followers pinned span.start first rest)).length -
      span.start = followers pinned span.start first rest + 1 := by
    rw [List.length_cons, List.length_take]
    omega
  rw [count, List.take_succ_cons]

variable (pinned) in
theorem spans_cover (index : Nat) (messages : List Message) (position : Nat)
    (after : index ≤ position) (within : position < index + messages.length)
    (elsewhere : position ≠ pinned) :
    ∃ span ∈ spans pinned index messages, span.start ≤ position ∧ position < span.stop := by
  induction index, messages using spans.induct pinned with
  | case1 index => exact absurd within (by rw [List.length_nil]; omega)
  | case2 first rest ih =>
      rw [spans_pinned]
      rw [List.length_cons] at within
      exact ih (by omega) (by omega)
  | case3 index first rest apart ih =>
      rw [spans_cons apart]
      rw [List.length_cons] at within
      have bound : followers pinned index first rest ≤ rest.length := followers_le
      have stop : (Span.mk index (first :: rest.take (followers pinned index first rest))).stop =
          index + 1 + followers pinned index first rest := by
        simp only [Span.stop, List.length_cons, List.length_take]
        omega
      by_cases here : position < index + 1 + followers pinned index first rest
      · exact ⟨_, List.mem_cons_self, after, by rw [stop]; exact here⟩
      · obtain ⟨span, held, inside⟩ := ih (by omega) (by rw [List.length_drop]; omega)
        exact ⟨span, List.mem_cons_of_mem _ held, inside⟩

theorem spans_spare (held : span ∈ spans pinned 0 messages)
    (asked : ∀ message, messages[pinned]? = some message → message.isToolResult = false) :
    ¬ (span.start ≤ pinned ∧ pinned < span.stop) := by
  rintro ⟨after, within⟩
  obtain ⟨first, rest, elsewhere, -, behind, said⟩ := spans_head held
  rw [Nat.sub_zero] at behind
  rw [Span.stop, said, List.length_cons, List.length_take] at within
  obtain ⟨message, stands, joins⟩ := @followers_joins pinned span.start first rest
    (pinned - span.start - 1) (by omega)
  have position : pinned = span.start + (pinned - span.start - 1 + 1) := by omega
  have same : messages[pinned]? = some message := by
    calc messages[pinned]? = (messages.drop span.start)[pinned - span.start - 1 + 1]? := by
          rw [List.getElem?_drop, ← position]
      _ = rest[pinned - span.start - 1]? := by rw [behind, List.getElem?_cons_succ]
      _ = some message := stands
  rcases joins with result | ⟨zero, apart, -⟩
  · rw [asked message same] at result
    exact Bool.false_ne_true result
  · omega

variable (pinned) in
theorem spans_begin (index : Nat) (messages : List Message) (span : Span)
    (held : span ∈ spans pinned index messages) (later : index < span.start) (message : Message)
    (begins : messages[span.start - index]? = some message)
    (result : message.isToolResult = true) : span.start = pinned + 1 := by
  induction index, messages using spans.induct pinned with
  | case1 index => simp at held
  | case2 first rest ih =>
      rw [spans_pinned] at held
      by_cases next : span.start = pinned + 1
      · exact next
      · have position : span.start - pinned = span.start - (pinned + 1) + 1 := by omega
        rw [position, List.getElem?_cons_succ] at begins
        exact ih held (by omega) begins
  | case3 index first rest apart ih =>
      rw [spans_cons apart] at held
      rcases List.mem_cons.mp held with rfl | held
      · exact absurd later (Nat.lt_irrefl index)
      · have placed := (spans_placed pinned (index + 1 + followers pinned index first rest)
          (rest.drop (followers pinned index first rest))).within span held
        by_cases next : span.start = index + 1 + followers pinned index first rest
        · have position : span.start - index = followers pinned index first rest + 1 := by omega
          rw [position, List.getElem?_cons_succ] at begins
          rw [followers_ends begins] at result
          exact absurd result Bool.false_ne_true
        · refine ih held (by omega) ?_
          have position : span.start - index = followers pinned index first rest +
              (span.start - (index + 1 + followers pinned index first rest)) + 1 := by omega
          rw [position, List.getElem?_cons_succ] at begins
          rw [List.getElem?_drop]
          exact begins

end Layout

/-! ## What an index holds -/

def Entry.Holds (entry : Entry) (position : Nat) : Prop :=
  entry.start ≤ position ∧ position < entry.stop

def CalledBy (messages : List Message) (turn result : Nat) : Prop :=
  turn < result ∧ (∃ message, messages[turn]? = some message ∧ message.isAssistant = true) ∧
    ∀ position, turn < position → position ≤ result →
      ∃ message, messages[position]? = some message ∧ message.isToolResult = true

/-- An index of a whole conversation: contiguous groups, in order, of every message but
the pinned one, each turn in one group with its results. -/
structure Index.LaysOut (encode : List Message → Option String) (index : Index)
    (messages : List Message) : Prop where
  within : ∀ entry ∈ index.groups, entry.start < entry.stop ∧ entry.stop ≤ messages.length
  apart : index.groups.Pairwise fun earlier later => earlier.stop ≤ later.start
  encoded : ∀ entry ∈ index.groups, entry.group.sequence = entry.stop ∧
    encode ((messages.take entry.stop).drop entry.start) = some entry.group.text
  spares : ∀ entry ∈ index.groups, ¬ entry.Holds index.pinned
  covers : ∀ position < messages.length, position ≠ index.pinned →
    ∃ entry ∈ index.groups, entry.Holds position
  together : ∀ entry ∈ index.groups, ∀ turn result, CalledBy messages turn result →
    entry.Holds result → entry.Holds turn

section LaysOut

variable {encode : List Message → Option String} {layout : List Span} {entries : List Entry}

theorem encoded_places (held : List.Forall₂ (Encodes encode) layout entries) :
    entries.map (fun entry => (entry.start, entry.stop)) =
      layout.map (fun span => (span.start, span.stop)) := by
  refine Paired.map_eq ?_ held
  rintro span - entry ⟨text, _, rfl⟩
  rfl

theorem Index.Complete.within {index : Index} {messages : List Message}
    (complete : index.Complete encode messages) :
    ∀ entry ∈ index.groups, entry.start < entry.stop ∧ entry.stop ≤ messages.length := by
  intro entry member
  obtain ⟨span, held, text, -, rfl⟩ := Paired.exists_left complete member
  have inside := (spans_placed index.pinned 0 messages).within span held
  rw [Nat.zero_add] at inside
  exact inside.2

theorem Index.Complete.apart {index : Index} {messages : List Message}
    (complete : index.Complete encode messages) :
    index.groups.Pairwise fun earlier later => earlier.stop ≤ later.start := by
  have places := encoded_places complete
  have apart : (index.groups.map fun entry => (entry.start, entry.stop)).Pairwise
      fun earlier later => earlier.2 ≤ later.1 := by
    rw [places, List.pairwise_map]
    exact (spans_placed index.pinned 0 messages).apart
  exact List.pairwise_map.mp apart

theorem Index.Complete.numbered {index : Index} {messages : List Message}
    (complete : index.Complete encode messages) :
    ∀ entry ∈ index.groups, entry.group.sequence = entry.stop := by
  intro entry member
  obtain ⟨span, -, text, -, rfl⟩ := Paired.exists_left complete member
  rfl

theorem Index.Complete.laysOut {index : Index} {messages : List Message}
    (complete : index.Complete encode messages)
    (asked : ∀ message, messages[index.pinned]? = some message → message.isUser = true) :
    index.LaysOut encode messages := by
  have unanswered : ∀ message, messages[index.pinned]? = some message →
      message.isToolResult = false := by
    intro message stands
    have user := asked message stands
    cases message with
    | user text => rfl
    | assistant text calls replay => exact nomatch user
    | toolResult callId output image => exact nomatch user
  refine ⟨complete.within, complete.apart, ?_, ?_, ?_, ?_⟩
  · intro entry member
    obtain ⟨span, held, text, encoded, rfl⟩ := Paired.exists_left complete member
    rw [spans_messages held] at encoded
    exact ⟨rfl, encoded⟩
  · intro entry member
    obtain ⟨span, held, text, -, rfl⟩ := Paired.exists_left complete member
    exact spans_spare held unanswered
  · intro position inside elsewhere
    obtain ⟨span, held, holds⟩ := spans_cover index.pinned 0 messages position (Nat.zero_le _)
      (by rw [Nat.zero_add]; exact inside) elsewhere
    obtain ⟨entry, member, text, -, rfl⟩ := Paired.exists_right complete held
    exact ⟨_, member, holds⟩
  · intro entry member turn result called holds
    obtain ⟨span, held, text, -, rfl⟩ := Paired.exists_left complete member
    obtain ⟨before, ⟨turned, spoke, assistant⟩, between⟩ := called
    refine ⟨?_, Nat.lt_trans before holds.2⟩
    by_contra apart
    have later : turn < span.start := Nat.lt_of_not_le apart
    obtain ⟨first, begins, answer⟩ := between span.start later holds.1
    have behind := spans_begin index.pinned 0 messages span held (Nat.zero_lt_of_lt later) first
      begins answer
    -- the message ahead of the group is the pinned one, which is the turn or a result of it
    by_cases here : turn = index.pinned
    · have user := asked turned (here ▸ spoke)
      cases turned with
      | user text => exact nomatch assistant
      | assistant text calls replay => exact nomatch user
      | toolResult callId output image => exact nomatch user
    · have reached : span.start ≤ result := holds.1
      obtain ⟨other, stands, result_there⟩ := between index.pinned (by omega) (by omega)
      rw [unanswered other stands] at result_there
      exact Bool.false_ne_true result_there

end LaysOut

/-! ## What is retained -/

def Harness.Sends (h : Harness) (position : Nat) (message : Message) : Prop :=
  ∃ original, h.messages[position]? = some original ∧
    message = if position = h.pinned then original else h.replayed position original

/-- The messages of some groups and the pinned one, each once, in the conversation's
order. -/
def Harness.InPlace (h : Harness) (entries : List Entry) (sent : List Message) : Prop :=
  ∃ positions : List Nat, positions.Pairwise (· < ·) ∧
    (∀ position, position ∈ positions ↔
      position = h.pinned ∨ ∃ entry ∈ entries, entry.Holds position) ∧
    List.Forall₂ h.Sends positions sent

def notesOf (encoding : Encoding) : Option Summary → Except ContextError (List Message)
  | none => .ok []
  | some summary =>
      match summary.context encoding with
      | .error failure => .error failure
      | .ok notes => .ok [.user notes]

/-- The positions `retained` sends from, where `gone` says the pinned one has gone out. -/
def places (pinned : Nat) : Bool → List Entry → List Nat
  | true, [] => []
  | false, [] => [pinned]
  | gone, entry :: rest =>
      let due := !gone && decide (pinned < entry.start)
      (if due then [pinned] else []) ++ List.range' entry.start (entry.stop - entry.start) ++
        places pinned (gone || due) rest

section Retained

variable {encode : List Message → Option String} {h : Harness}

theorem Harness.replay_ok {entry : Entry} (within : entry.start ≤ entry.stop)
    (inside : entry.stop ≤ h.messages.length) :
    ∃ sent, h.replay entry = .ok sent ∧ List.Forall₂
      (fun position message => ∃ original, h.messages[position]? = some original ∧
        message = h.replayed position original)
      (List.range' entry.start (entry.stop - entry.start)) sent := by
  unfold Harness.replay
  rw [if_pos ⟨within, inside⟩]
  refine ⟨_, rfl, ?_⟩
  rw [List.forall₂_iff_get]
  constructor
  · rw [List.length_range', List.length_mapIdx, List.length_drop, List.length_take]
    omega
  · intro offset first second
    rw [List.length_range'] at first
    simp only [List.get_eq_getElem, List.getElem_range', List.getElem_mapIdx, List.getElem_drop,
      List.getElem_take, Nat.one_mul]
    exact ⟨_, List.getElem?_eq_getElem (by omega), rfl⟩

theorem Harness.replay_sends {entry : Entry} (within : entry.start < entry.stop)
    (inside : entry.stop ≤ h.messages.length) (apart : ¬ entry.Holds h.pinned) :
    ∃ sent, h.replay entry = .ok sent ∧
      List.Forall₂ h.Sends (List.range' entry.start (entry.stop - entry.start)) sent := by
  obtain ⟨sent, replays, places⟩ := h.replay_ok (Nat.le_of_lt within) inside
  refine ⟨sent, replays, ?_⟩
  rw [List.forall₂_iff_get] at places ⊢
  refine ⟨places.1, ?_⟩
  intro offset first second
  obtain ⟨original, stands, same⟩ := places.2 offset first second
  refine ⟨original, stands, ?_⟩
  rw [if_neg, same]
  intro here
  rw [List.length_range'] at first
  simp only [List.get_eq_getElem, List.getElem_range', Nat.one_mul] at here
  exact apart ⟨by omega, by omega⟩

theorem find_sequence {groups : List Entry}
    (within : ∀ entry ∈ groups, entry.start < entry.stop)
    (apart : groups.Pairwise fun earlier later => earlier.stop ≤ later.start)
    (numbered : ∀ entry ∈ groups, entry.group.sequence = entry.stop) {entry : Entry}
    (member : entry ∈ groups) :
    groups.find? (·.group.sequence = entry.group.sequence) = some entry := by
  have stops : (groups.map Entry.stop).Nodup := by
    rw [List.Nodup, List.pairwise_map]
    refine apart.imp_of_mem ?_
    intro earlier later _ inside before same
    have := within later inside
    omega
  cases found : groups.find? (·.group.sequence = entry.group.sequence) with
  | none =>
      have missing := List.find?_eq_none.mp found entry member
      simp at missing
  | some other =>
      have same := List.find?_some found
      have inside := List.mem_of_find?_eq_some found
      rw [decide_eq_true_eq, numbered other inside, numbered entry member] at same
      rw [List.inj_on_of_nodup_map stops inside member same]

theorem Index.LaysOut.find {index : Index} {messages : List Message}
    (laid : index.LaysOut encode messages) {entry : Entry} (member : entry ∈ index.groups) :
    index.groups.find? (·.group.sequence = entry.group.sequence) = some entry :=
  find_sequence (fun other inside => (laid.within other inside).1) laid.apart
    (fun other inside => (laid.encoded other inside).1) member

theorem Harness.retainGroups_each (sends : Nat → Message → Prop) {message : Message}
    (current : h.current = .ok message) (alone : sends h.pinned message) (gone : Bool)
    (entries : List Entry)
    (found : ∀ entry ∈ entries,
      h.index.groups.find? (·.group.sequence = entry.group.sequence) = some entry)
    (replays : ∀ entry ∈ entries, ∃ sent, h.replay entry = .ok sent ∧
      List.Forall₂ sends (List.range' entry.start (entry.stop - entry.start)) sent) :
    ∃ sent, h.retainGroups gone (entries.map Entry.group) = .ok sent ∧
      List.Forall₂ sends (places h.pinned gone entries) sent := by
  induction entries generalizing gone with
  | nil =>
      cases gone with
      | true => exact ⟨[], rfl, .nil⟩
      | false =>
          refine ⟨[message], ?_, .cons alone .nil⟩
          rw [List.map_nil, Harness.retainGroups, current]
  | cons entry rest ih =>
      obtain ⟨here, found⟩ := List.forall_mem_cons.mp found
      obtain ⟨⟨replayed, replay, replay_sends⟩, replays⟩ := List.forall_mem_cons.mp replays
      obtain ⟨others, retains, others_sends⟩ :=
        ih (gone || (!gone && decide (h.pinned < entry.start))) found replays
      refine ⟨(if !gone && decide (h.pinned < entry.start) then [message] else []) ++
        replayed ++ others, ?_, ?_⟩
      · rw [List.map_cons, Harness.retainGroups, here]
        simp only [replay, retains, current]
        cases due : !gone && decide (h.pinned < entry.start) with
        | true => rfl
        | false => rfl
      · rw [places]
        refine List.rel_append (List.rel_append ?_ replay_sends) others_sends
        split
        · exact .cons alone .nil
        · exact .nil

theorem Harness.current_ok (asked : h.pinned < h.messages.length) :
    h.current = .ok h.messages[h.pinned] := by
  rw [Harness.current, List.getElem?_eq_getElem asked]

theorem Harness.retainGroups_sends (laid : h.index.LaysOut encode h.messages)
    (pinned : h.index.pinned = h.pinned) (asked : h.pinned < h.messages.length) (gone : Bool)
    (entries : List Entry) (kept : ∀ entry ∈ entries, entry ∈ h.index.groups) :
    ∃ sent, h.retainGroups gone (entries.map Entry.group) = .ok sent ∧
      List.Forall₂ h.Sends (places h.pinned gone entries) sent := by
  have alone : h.Sends h.pinned h.messages[h.pinned] :=
    ⟨_, List.getElem?_eq_getElem asked, (if_pos rfl).symm⟩
  refine Harness.retainGroups_each h.Sends (h.current_ok asked) alone gone entries ?_ ?_
  · exact fun entry member => laid.find (kept entry member)
  · intro entry member
    obtain ⟨within, inside⟩ := laid.within entry (kept entry member)
    exact h.replay_sends within inside (pinned ▸ laid.spares entry (kept entry member))

theorem places_least (pinned : Nat) (gone : Bool) (entries : List Entry) (least : Nat)
    (before : gone = false → least ≤ pinned) (starts : ∀ entry ∈ entries, least ≤ entry.start) :
    ∀ position ∈ places pinned gone entries, least ≤ position := by
  induction entries generalizing gone with
  | nil =>
      cases gone with
      | true => exact fun position member => absurd member List.not_mem_nil
      | false =>
          intro position member
          rw [List.mem_singleton.mp member]
          exact before rfl
  | cons entry rest ih =>
      intro position member
      rw [places, List.mem_append, List.mem_append] at member
      rcases member with (pinned_here | held) | later
      · cases gone with
        | true => exact absurd pinned_here List.not_mem_nil
        | false =>
            split at pinned_here
            · rw [List.mem_singleton.mp pinned_here]
              exact before rfl
            · exact absurd pinned_here List.not_mem_nil
      · obtain ⟨offset, -, rfl⟩ := List.mem_range'.mp held
        exact (starts entry List.mem_cons_self).trans (Nat.le_add_right _ _)
      · refine ih _ ?_ (fun other held => starts other (List.mem_cons_of_mem _ held)) position later
        intro still
        rw [Bool.or_eq_false_iff] at still
        exact before still.1

theorem places_ascend (pinned : Nat) (gone : Bool) (entries : List Entry)
    (within : ∀ entry ∈ entries, entry.start < entry.stop)
    (apart : entries.Pairwise fun earlier later => earlier.stop ≤ later.start)
    (spares : ∀ entry ∈ entries, ¬ entry.Holds pinned) :
    (places pinned gone entries).Pairwise (· < ·) := by
  induction entries generalizing gone with
  | nil =>
      cases gone with
      | true => exact .nil
      | false => exact List.pairwise_singleton _ _
  | cons entry rest ih =>
      rw [List.pairwise_cons] at apart
      have inside := within entry List.mem_cons_self
      have rest_ascend := ih (gone || (!gone && decide (pinned < entry.start)))
        (fun other held => within other (List.mem_cons_of_mem _ held)) apart.2
        (fun other held => spares other (List.mem_cons_of_mem _ held))
      have behind := places_least pinned (gone || (!gone && decide (pinned < entry.start))) rest
        entry.stop (by
          intro still
          rw [Bool.or_eq_false_iff] at still
          have not_due : ¬ pinned < entry.start := by
            have := still.2
            rw [still.1] at this
            simpa using this
          by_contra short
          exact spares entry List.mem_cons_self ⟨by omega, by omega⟩) apart.1
      rw [places, List.pairwise_append, List.pairwise_append]
      refine ⟨⟨?_, List.pairwise_lt_range', ?_⟩, rest_ascend, ?_⟩
      · split
        · exact List.pairwise_singleton _ _
        · exact .nil
      · intro first pinned_here second held
        split at pinned_here
        · rename_i due
          rw [Bool.and_eq_true, decide_eq_true_eq] at due
          obtain ⟨offset, -, rfl⟩ := List.mem_range'.mp held
          rw [List.mem_singleton.mp pinned_here]
          omega
        · exact absurd pinned_here List.not_mem_nil
      · intro first ahead second later
        have after := behind second later
        rcases List.mem_append.mp ahead with pinned_here | held
        · split at pinned_here
          · rename_i due
            rw [Bool.and_eq_true, decide_eq_true_eq] at due
            rw [List.mem_singleton.mp pinned_here]
            omega
          · exact absurd pinned_here List.not_mem_nil
        · obtain ⟨offset, short, rfl⟩ := List.mem_range'.mp held
          omega

theorem mem_places (pinned : Nat) (gone : Bool) (entries : List Entry) (position : Nat) :
    position ∈ places pinned gone entries ↔
      gone = false ∧ position = pinned ∨ ∃ entry ∈ entries, entry.Holds position := by
  induction entries generalizing gone with
  | nil => cases gone <;> simp [places]
  | cons entry rest ih =>
      have held : position ∈ List.range' entry.start (entry.stop - entry.start) ↔
          entry.Holds position := by
        rw [List.mem_range'_1, Entry.Holds]
        omega
      rw [places, List.mem_append, List.mem_append, held, ih, List.exists_mem_cons_iff]
      cases gone with
      | true => simp
      | false =>
          by_cases due : pinned < entry.start
          · simp [due]
            tauto
          · simp [due]
            tauto

theorem Harness.retained_inPlace (laid : h.index.LaysOut encode h.messages)
    (pinned : h.index.pinned = h.pinned) (asked : h.pinned < h.messages.length)
    (encoding : Encoding) {entries : List Entry} (kept : entries.Sublist h.index.groups)
    {summary : Option Summary} {notes : List Message}
    (noted : notesOf encoding summary = .ok notes) :
    ∃ sent, h.retained encoding summary (entries.map Entry.group) = .ok (notes ++ sent) ∧
      h.InPlace entries sent := by
  have member : ∀ entry ∈ entries, entry ∈ h.index.groups := fun entry held => kept.subset held
  obtain ⟨sent, retains, sends⟩ := h.retainGroups_sends laid pinned asked false entries member
  refine ⟨sent, ?_, places h.pinned false entries, ?_, ?_, sends⟩
  · cases summary with
    | none =>
        rw [notesOf, Except.ok.injEq] at noted
        rw [← noted, Harness.retained, retains]
        rfl
    | some summary =>
        rw [notesOf] at noted
        cases written : summary.context encoding with
        | error failure => simp [written] at noted
        | ok text =>
            simp only [written, Except.ok.injEq] at noted
            rw [← noted, Harness.retained, written, retains]
            rfl
  · refine places_ascend h.pinned false entries ?_ (laid.apart.sublist kept) ?_
    · exact fun entry held => (laid.within entry (member entry held)).1
    · exact fun entry held => pinned ▸ laid.spares entry (member entry held)
  · intro position
    rw [mem_places]
    simp

end Retained

/-- The index of a conversation that grew, refreshed at every growth, is the one built
from nothing over all of it; where it was built, it lays out the conversation, and
whatever groups of it are retained go out in their places. -/
theorem refreshes_rebuild (encode : List Message → Option String) (pinned : Nat)
    (messages : List Message) (growths : List (List Message)) :
    (Index.new pinned).refreshes encode messages growths =
        (Index.new pinned).refresh encode (messages ++ growths.flatten) ∧
      ∀ index, (Index.new pinned).refreshes encode messages growths = (index, .ok ()) →
        (∀ message, (messages ++ growths.flatten)[pinned]? = some message →
          message.isUser = true) →
        index.LaysOut encode (messages ++ growths.flatten) ∧
        ∀ (h : Harness) (encoding : Encoding) (entries : List Entry) (summary : Option Summary)
          (notes : List Message), h.messages = messages ++ growths.flatten → h.index = index →
          h.pinned = pinned → pinned < h.messages.length → entries.Sublist index.groups →
          notesOf encoding summary = .ok notes →
          ∃ sent, h.retained encoding summary (entries.map Entry.group) = .ok (notes ++ sent) ∧
            h.InPlace entries sent := by
  have follows : (Index.new pinned).Follows encode messages := Index.new_follows pinned messages
  have rebuilt := follows.refreshes_eq [] growths
  rw [List.append_nil] at rebuilt
  refine ⟨rebuilt, ?_⟩
  intro index refreshed asked
  obtain ⟨same, -, ended⟩ := (Index.new pinned).refresh_spec messages growths.flatten follows
  rw [← rebuilt, refreshed] at same ended
  rcases ended with ⟨-, complete⟩ | failed
  · have laid := Index.Complete.laysOut complete (by
      rw [show index.pinned = pinned from same]
      exact asked)
    refine ⟨laid, ?_⟩
    intro h encoding entries summary notes whole held where_pinned inside kept noted
    subst held
    rw [← whole] at laid
    exact h.retained_inPlace laid (same.trans where_pinned.symm) (where_pinned ▸ inside) encoding
      kept noted
  · exact nomatch failed

/-- A request, an answer with its result and a later question, refreshed twice. -/
theorem refreshes_rebuild_answered :
    ∃ index, (Index.new 0).refreshes LoneTurn.shared.encode [.user "fix the build"]
        [[.assistant "look" [] Replay.default, .toolResult "call-1" "log" none],
          [.user "go on"]] = (index, .ok ()) ∧
      index.LaysOut LoneTurn.shared.encode
        ([.user "fix the build"] ++ [[.assistant "look" [] Replay.default,
          .toolResult "call-1" "log" none], [.user "go on"]].flatten) := by
  refine ⟨⟨0, [⟨⟨3, "looklog"⟩, 1, 3⟩, ⟨⟨4, "go on"⟩, 3, 4⟩]⟩, by decide +kernel, ?_⟩
  refine ((refreshes_rebuild LoneTurn.shared.encode 0 _ _).2 _ (by decide +kernel) ?_).1
  intro message stands
  rw [List.getElem?_append_left (by decide), List.getElem?_cons_zero, Option.some.injEq] at stands
  rw [← stands]
  rfl

end Agentsfleet.Context
