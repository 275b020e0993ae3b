import Agentsfleet.Session.Calls

/-!
# One device login

Approvals, presented codes and aborts of one session, in any order and from any
caller.  The server runs one script at a time, so calls that race are calls in
some order.  Between any two of them the key may run out.
-/

set_option autoImplicit false

namespace Agentsfleet.Session

open Agentsfleet.Library

/-! ## Runs -/

section Runs

variable {blob : Option SessionState} (held : Held blob) {calls : List Call}

include held

theorem taken_held {t : Taken} (member : t ∈ Run.taken step blob calls) :
    Held t.before ∧ t.after = step t.before t.event :=
  Run.taken_step held_step held t member

theorem taken_grows {t : Taken} (member : t ∈ Run.taken step blob calls) :
    Grows t.before t.after := by
  obtain ⟨sound, steps⟩ := taken_held held member
  rw [steps]
  exact grows_step t.before t.event sound

theorem earlier_grows {e l : Taken} (order : Run.Earlier (Run.taken step blob calls) e l) :
    Grows e.after l.before :=
  Run.taken_between held_step Grows.refl Grows.trans grows_step held order

theorem approves_after {t : Taken} (member : t ∈ Run.taken step blob calls) {approval : Approval}
    (approves : t.Approves approval) :
    ∃ s s', t.before = some s ∧ s.status = .pending ∧ t.after = some s' ∧
      s'.status = .verificationPending ∧ Carries s' approval := by
  obtain ⟨now, called, answered⟩ := approves
  have steps := (taken_held held member).2
  have did := approve_spec t.before approval now
  rw [Taken.answered, called, answer, Answer.approve.injEq] at answered
  rw [called, step] at steps
  rw [answered, ← steps] at did
  generalize t.before = before at did ⊢
  generalize t.after = after at did ⊢
  cases did with
  | approved s s' pending status carries attempts =>
      exact ⟨s, s', rfl, pending, rfl, status, carries⟩

theorem redeems_after {t : Taken} (member : t ∈ Run.taken step blob calls)
    {submitted fingerprint : String} {now : Int} {payload : VerifyPayload}
    (redeems : t.Redeems submitted fingerprint now payload) :
    ∃ s s' approval, t.before = some s ∧ s.status = .verificationPending ∧ Carries s approval ∧
      submitted = approval.codeHmacHex ∧ payload = approval.payload ∧ t.after = some s' ∧
      s'.status = .consumed ∧ Carries s' approval ∧
      s'.consumedClientFingerprintHex = some fingerprint ∧
      s'.consumePayloadExpiresAtMs = some (now + consumeReplayWindow) := by
  obtain ⟨called, answered⟩ := redeems
  obtain ⟨sound, steps⟩ := taken_held held member
  have did := verify_spec sound submitted now fingerprint
  rw [Taken.answered, called, answer, Answer.verify.injEq] at answered
  rw [called, step] at steps
  rw [answered, ← steps] at did
  clear steps answered called sound member
  generalize t.before = before at did ⊢
  generalize t.after = after at did ⊢
  cases did with
  | success s s' approval carries waits right status kept client window =>
      exact ⟨s, s', approval, rfl, waits, carries, right, rfl, rfl, status, kept, client, window⟩

theorem limited_after {t : Taken} (member : t ∈ Run.taken step blob calls)
    (answered : t.answered = .verify (some .rateLimited)) :
    ∃ s, t.after = some s ∧ s.status = .aborted := by
  obtain ⟨sound, steps⟩ := taken_held held member
  rw [Taken.answered] at answered
  cases called : t.event with
  | approve approval now => rw [called] at answered; cases answered
  | abort owner reason => rw [called] at answered; cases answered
  | runOut => rw [called] at answered; cases answered
  | verify submitted now fingerprint =>
      have did := verify_spec sound submitted now fingerprint
      rw [called, answer, Answer.verify.injEq] at answered
      rw [called, step] at steps
      rw [answered, ← steps] at did
      clear steps answered called sound member
      generalize t.before = before at did
      generalize t.after = after at did ⊢
      cases did with
      | limited s s' approval carries waits wrong status kept reached => exact ⟨s', rfl, status⟩

theorem releases_before {t : Taken} (member : t ∈ Run.taken step blob calls)
    {payload : VerifyPayload} (releases : t.Releases payload) :
    ∃ s, t.before = some s ∧ (s.status = .verificationPending ∨ s.status = .consumed) := by
  obtain ⟨sound, _⟩ := taken_held held member
  rw [Taken.Releases, Taken.answered] at releases
  cases called : t.event with
  | approve approval now => rw [called] at releases; rcases releases with h | h <;> cases h
  | abort owner reason => rw [called] at releases; rcases releases with h | h <;> cases h
  | runOut => rw [called] at releases; rcases releases with h | h <;> cases h
  | verify submitted now fingerprint =>
      have did := verify_spec sound submitted now fingerprint
      rw [called, answer, Answer.verify.injEq, Answer.verify.injEq] at releases
      rcases releases with first | again
      · rw [first] at did
        clear first called sound member
        generalize t.before = before at did ⊢
        generalize (verifyConsumeScript before submitted now fingerprint).1 = after at did
        cases did with
        | success s s' approval carries waits right status kept client window =>
            exact ⟨s, rfl, Or.inl waits⟩
      · rw [again] at did
        clear again called sound member
        generalize t.before = before at did ⊢
        generalize (verifyConsumeScript before submitted now fingerprint).1 = after at did
        cases did with
        | replay s approval ends over_ carries same window within => exact ⟨s, rfl, Or.inr over_⟩

/-- An earlier call's end stays: a session that is over is never handed to a later
call in another state. -/
theorem earlier_terminal {e l : Taken} (order : Run.Earlier (Run.taken step blob calls) e l)
    {s : SessionState} (found : e.after = some s) (over_ : s.status.isTerminal = true) :
    (l.before = some s ∨ l.before = none) ∧ (l.after = some s ∨ l.after = none) := by
  have reaches := (earlier_grows held order).trans (taken_grows held order.mem.2)
  refine ⟨?_, ?_⟩
  · rw [← found]
    exact (earlier_grows held order).terminal s found over_
  · rw [← found]
    exact reaches.terminal s found over_

end Runs

/-! ## Where an approval and a redemption come from -/

/-- The key holds a session approved by `approval`. -/
def Bears (approval : Approval) (blob : Option SessionState) : Prop :=
  ∃ s, blob = some s ∧ s.status ≠ .pending ∧ Carries s approval

theorem bears_verified {submitted fingerprint : String} {now : Int} {approval : Approval}
    {before after : Option SessionState} {outcome : Option VerifyOutcome}
    (did : Verified submitted now fingerprint before after outcome) (bears : Bears approval after) :
    Bears approval before := by
  obtain ⟨s', last, past, carries⟩ := bears
  cases did with
  | missing => exact ⟨s', last, past, carries⟩
  | notApproved s pending => exact ⟨s', last, past, carries⟩
  | aborted s over_ reason => exact ⟨s', last, past, carries⟩
  | consumed s over_ => exact ⟨s', last, past, carries⟩
  | replay s other ends over_ held same window within => exact ⟨s', last, past, carries⟩
  | invalid s _ other held waits wrong status kept attempts below =>
      cases last
      exact ⟨s, rfl, by rw [waits]; decide, kept.unique carries ▸ held⟩
  | limited s _ other held waits wrong status kept reached =>
      cases last
      exact ⟨s, rfl, by rw [waits]; decide, kept.unique carries ▸ held⟩
  | success s _ other held waits right status kept client window =>
      cases last
      exact ⟨s, rfl, by rw [waits]; decide, kept.unique carries ▸ held⟩

theorem bears_aborted {owner : String} {approval : Approval} {before after : Option SessionState}
    {outcome : Option AbortOutcome} (did : Aborted owner before after outcome)
    (bears : Bears approval after) : Bears approval before := by
  obtain ⟨s', last, past, carries⟩ := bears
  cases did with
  | missing => exact ⟨s', last, past, carries⟩
  | kept s outcome other => exact ⟨s', last, past, carries⟩
  | aborted s _ other held owns waits status kept =>
      cases last
      exact ⟨s, rfl, by rw [waits]; decide, kept.unique carries ▸ held⟩

theorem bears_caused {approval : Approval} (blob : Option SessionState) (call : Call)
    (held : Held blob) (absent : ¬ Bears approval blob) (bears : Bears approval (step blob call)) :
    Taken.Approves ⟨blob, call, step blob call⟩ approval := by
  cases call with
  | verify submitted now fingerprint =>
      exact absurd (bears_verified (verify_spec held submitted now fingerprint) bears) absent
  | abort owner reason => exact absurd (bears_aborted (abort_spec held owner reason) bears) absent
  | runOut =>
      obtain ⟨s', last, _⟩ := bears
      cases last
  | approve other now =>
      refine ⟨now, ?_⟩
      have did := approve_spec blob other now
      rw [Taken.answered, answer]
      rw [step] at bears
      generalize (approveScript blob other now).1 = after at did bears
      generalize approveOutcome (approveScript blob other now).2 = outcome at did ⊢
      cases did with
      | missing => exact absurd bears absent
      | conflict s past => exact absurd bears absent
      | approved s s' pending status kept attempts =>
          obtain ⟨_, last, _, carries⟩ := bears
          cases last
          rw [kept.unique carries]
          exact ⟨rfl, rfl⟩

/-- The key holds a session redeemed from `fingerprint`, to be repeated until `ends`. -/
def Redeemed (approval : Approval) (fingerprint : String) (ends : Int)
    (blob : Option SessionState) : Prop :=
  ∃ s, blob = some s ∧ s.status = .consumed ∧ Carries s approval ∧
    s.consumedClientFingerprintHex = some fingerprint ∧ s.consumePayloadExpiresAtMs = some ends

theorem redeemed_caused {approval : Approval} {fingerprint : String} {ends : Int}
    (blob : Option SessionState) (call : Call) (held : Held blob)
    (absent : ¬ Redeemed approval fingerprint ends blob)
    (redeemed : Redeemed approval fingerprint ends (step blob call)) :
    ∃ submitted now, Taken.Redeems ⟨blob, call, step blob call⟩ submitted fingerprint now
      approval.payload ∧ ends = now + consumeReplayWindow := by
  obtain ⟨s', last, over_, carries, client, window⟩ := redeemed
  have back : blob = some s' → False := fun same =>
    absent ⟨s', same, over_, carries, client, window⟩
  cases call with
  | runOut => cases last
  | approve other now =>
      have did := approve_spec blob other now
      rw [step] at last
      generalize approveOutcome (approveScript blob other now).2 = outcome at did
      rw [last] at did
      cases did with
      | conflict s past => exact (back rfl).elim
      | approved s _ pending status kept attempts =>
          rw [status] at over_
          cases over_
  | abort owner reason =>
      have did := abort_spec held owner reason
      rw [step] at last
      generalize abortOutcome (abortScript blob owner reason).2 = outcome at did
      rw [last] at did
      cases did with
      | kept s outcome other => exact (back rfl).elim
      | aborted s _ other held owns waits status kept =>
          rw [status] at over_
          cases over_
  | verify submitted now other =>
      have did := verify_spec held submitted now other
      simp only [Taken.Redeems, Taken.answered, answer]
      rw [step] at last
      generalize parseOutcome (verifyConsumeScript blob submitted now other).2 = outcome at did ⊢
      rw [last] at did
      cases did with
      | notApproved s pending => exact (back rfl).elim
      | aborted s ended reason => exact (back rfl).elim
      | consumed s ended => exact (back rfl).elim
      | replay s approval ends over_ carries same window within => exact (back rfl).elim
      | invalid s _ approval carries waits wrong status kept attempts below =>
          rw [status] at over_
          cases over_
      | limited s _ approval carries waits wrong status kept reached =>
          rw [status] at over_
          cases over_
      | success s _ other_ held_ waits right status kept client_ window_ =>
          rw [client] at client_
          rw [window] at window_
          cases client_
          cases window_
          rw [kept.unique carries]
          exact ⟨submitted, now, ⟨rfl, rfl⟩, rfl⟩

/-! ## Wrong codes -/

def Wrong (count : Nat) (blob : Option SessionState) : Prop :=
  ∀ s, blob = some s → (s.status = .pending → count = 0) ∧
    (s.status = .verificationPending → s.verificationAttempts = count)

theorem wrong_over {count : Nat} {s : SessionState} (over_ : s.status.isTerminal = true) :
    Wrong count (some s) := by
  intro _ found
  cases found
  refine ⟨fun pending => ?_, fun waits => ?_⟩
  · rw [pending] at over_
    cases over_
  · rw [waits] at over_
    cases over_

theorem wrong_step (count : Nat) (blob : Option SessionState) (call : Call) (held : Held blob)
    (wrong : Wrong count blob) :
    Wrong (count + (Taken.rejected ⟨blob, call, step blob call⟩).toNat) (step blob call) := by
  cases call with
  | runOut => exact fun _ found => by cases found
  | approve approval now =>
      have did := approve_spec blob approval now
      change Wrong count (approveScript blob approval now).1
      generalize (approveScript blob approval now).1 = after at did ⊢
      generalize approveOutcome (approveScript blob approval now).2 = outcome at did
      cases did with
      | missing => exact wrong
      | conflict s past => exact wrong
      | approved s s' pending status carries attempts =>
          intro _ found
          cases found
          refine ⟨fun fresh => by simp [status] at fresh, fun _ => ?_⟩
          rw [attempts, (held s rfl).pending pending |>.2]
          exact ((wrong s rfl).1 pending).symm
  | abort owner reason =>
      have did := abort_spec held owner reason
      change Wrong count (abortScript blob owner reason).1
      generalize (abortScript blob owner reason).1 = after at did ⊢
      generalize abortOutcome (abortScript blob owner reason).2 = outcome at did
      cases did with
      | missing => exact wrong
      | kept s outcome other => exact wrong
      | aborted s s' approval carries owns waits status kept =>
          exact wrong_over (by rw [status]; decide)
  | verify submitted now fingerprint =>
      have did := verify_spec held submitted now fingerprint
      rw [Taken.rejected, Taken.answered, answer, step]
      dsimp only
      generalize (verifyConsumeScript blob submitted now fingerprint).1 = after at did ⊢
      generalize parseOutcome (verifyConsumeScript blob submitted now fingerprint).2 = outcome
        at did ⊢
      cases did with
      | missing => exact wrong
      | notApproved s pending => exact wrong
      | aborted s over_ reason => exact wrong
      | consumed s over_ => exact wrong
      | replay s approval ends over_ carries same window within => exact wrong
      | invalid s s' approval carries waits bad status kept attempts below =>
          intro _ found
          cases found
          refine ⟨fun fresh => by simp [status] at fresh, fun _ => ?_⟩
          rw [attempts, (wrong s rfl).2 waits]
          rfl
      | limited s s' approval carries waits bad status kept reached =>
          exact wrong_over (by rw [status]; decide)
      | success s s' approval carries waits right status kept client window =>
          exact wrong_over (by rw [status]; decide)

/-! ## One release -/

structure OneRelease (history : List Taken) : Prop where
  /-- After an approval no other takes, and its payload stays. -/
  approved_once : ∀ (e l : Taken) approval, Run.Earlier history e l → e.Approves approval →
    (∀ other, ¬ l.Approves other) ∧ ∀ s, l.after = some s → Carries s approval
  /-- A first release answers the approved code with the approved payload. -/
  redeemed_code : ∀ l : Taken, l ∈ history → ∀ submitted fingerprint now payload,
    l.Redeems submitted fingerprint now payload → ∃ (e : Taken) (approval : Approval),
      Run.Earlier history e l ∧ e.Approves approval ∧ submitted = approval.codeHmacHex ∧
        payload = approval.payload
  redeemed_once : ∀ (e l : Taken) submitted fingerprint now payload, Run.Earlier history e l →
    e.Redeems submitted fingerprint now payload →
    ∀ submitted fingerprint now payload, ¬ l.Redeems submitted fingerprint now payload
  /-- A later release repeats the first one, to its client and inside its window. -/
  repeated : ∀ l : Taken, l ∈ history → ∀ fingerprint now payload,
    l.Repeats fingerprint now payload → ∃ (e : Taken) (submitted : String) (start : Int),
      Run.Earlier history e l ∧ e.Redeems submitted fingerprint start payload ∧
        now < start + consumeReplayWindow
  /-- A wrong code is answered by the limit exactly when it is the last allowed. -/
  limited_at : ∀ done (l : Taken) rest, history = done ++ l :: rest →
    ∀ s approval submitted now fingerprint, l.before = some s →
    s.status = .verificationPending → Carries s approval →
    l.event = .verify submitted now fingerprint → submitted ≠ approval.codeHmacHex →
    (l.answered = .verify (some .rateLimited) ↔ done.countP Taken.rejected + 1 = maxVerifyAttempts)
  /-- The limit aborts the session, and nothing is released after it. -/
  limited : ∀ l : Taken, l ∈ history → l.answered = .verify (some .rateLimited) →
    (∃ s, l.after = some s ∧ s.status = .aborted) ∧
    ∀ (later : Taken) payload, Run.Earlier history l later → ¬ later.Releases payload
  /-- An abort that changes anything is its approver's. -/
  aborted_by : ∀ l : Taken, l ∈ history → ∀ owner reason, l.event = .abort owner reason →
    l.after ≠ l.before → ∃ (e : Taken) (approval : Approval), Run.Earlier history e l ∧
      e.Approves approval ∧ owner = approval.approver
  /-- A session that is over stays as it is for as long as its key does. -/
  terminal : ∀ (e l : Taken) s, Run.Earlier history e l → e.after = some s →
    s.status.isTerminal = true → l.after = some s ∨ l.after = none

section Login

variable {sessionId cliPublicKey tokenName : String} {start : Int} {calls : List Call}

theorem held_opened : Held (some (opened sessionId cliPublicKey tokenName start)) :=
  held_some (opened_sound sessionId cliPublicKey tokenName start)

theorem bears_earlier {l : Taken}
    (member : l ∈ Run.taken step (some (opened sessionId cliPublicKey tokenName start)) calls)
    {approval : Approval} (bears : Bears approval l.before) :
    ∃ e, Run.Earlier (Run.taken step (some (opened sessionId cliPublicKey tokenName start)) calls)
      e l ∧ Taken.Approves e approval := by
  have absent : ¬ Bears approval (some (opened sessionId cliPublicKey tokenName start)) := by
    rintro ⟨s, found, past, _⟩
    cases found
    exact past rfl
  exact Run.brought held_step bears_caused held_opened absent member bears

theorem redeemed_earlier {l : Taken}
    (member : l ∈ Run.taken step (some (opened sessionId cliPublicKey tokenName start)) calls)
    {approval : Approval} {fingerprint : String} {ends : Int}
    (redeemed : Redeemed approval fingerprint ends l.before) :
    ∃ e, Run.Earlier (Run.taken step (some (opened sessionId cliPublicKey tokenName start)) calls)
      e l ∧ ∃ submitted now, Taken.Redeems e submitted fingerprint now approval.payload ∧
        ends = now + consumeReplayWindow := by
  have absent : ¬ Redeemed approval fingerprint ends
      (some (opened sessionId cliPublicKey tokenName start)) := by
    rintro ⟨s, found, over_, _⟩
    cases found
    cases over_
  exact Run.brought held_step redeemed_caused held_opened absent member redeemed

end Login

/-- A login releases its payload once: every property of `OneRelease` holds of every
order of calls on a session as it is stored. -/
theorem release_once (sessionId cliPublicKey tokenName : String) (start : Int)
    (calls : List Call) :
    OneRelease (Run.taken step (some (opened sessionId cliPublicKey tokenName start)) calls) := by
  have held : Held (some (opened sessionId cliPublicKey tokenName start)) := held_opened
  constructor
  · intro e l approval order approves
    obtain ⟨_, s, _, _, found, status, carries⟩ := approves_after held order.mem.1 approves
    have past : s.status ≠ .pending := by rw [status]; decide
    have before := earlier_grows held order
    refine ⟨fun other again => ?_, fun s' last => ?_⟩
    · obtain ⟨s', _, found', pending, _⟩ := approves_after held order.mem.2 again
      exact (before.approved s approval found past carries s' found').1 pending
    · have reaches := before.trans (taken_grows held order.mem.2)
      exact (reaches.approved s approval found past carries s' last).2
  · intro l member submitted fingerprint now payload redeems
    obtain ⟨s, _, approval, found, waits, carries, right, handed, _⟩ :=
      redeems_after held member redeems
    obtain ⟨e, order, approves⟩ := bears_earlier member ⟨s, found, by rw [waits]; decide, carries⟩
    exact ⟨e, approval, order, approves, right, handed⟩
  · intro e l submitted fingerprint now payload order redeems submitted' fingerprint' now' payload'
      again
    obtain ⟨_, s, _, _, _, _, _, _, found, over_, _⟩ := redeems_after held order.mem.1 redeems
    obtain ⟨s', _, _, found', waits, _⟩ := redeems_after held order.mem.2 again
    rcases (earlier_terminal held order found (by rw [over_]; decide)).1 with same | none_
    · rw [same] at found'
      cases found'
      rw [over_] at waits
      cases waits
    · rw [none_] at found'
      cases found'
  · rintro l member fingerprint now payload ⟨submitted, called, answered⟩
    obtain ⟨sound, steps⟩ := taken_held held member
    have did := verify_spec sound submitted now fingerprint
    rw [Taken.answered, called, answer, Answer.verify.injEq] at answered
    rw [answered] at did
    generalize (verifyConsumeScript l.before submitted now fingerprint).1 = after at did
    cases found : l.before with
    | none =>
        rw [found] at did
        cases did
    | some s =>
        rw [found] at did
        cases did with
        | replay _ approval ends over_ carries same window within =>
            obtain ⟨e, order, submitted', start', redeems, ends_⟩ :=
              redeemed_earlier member ⟨s, found, over_, carries, same, window⟩
            exact ⟨e, submitted', start', order, redeems, by omega⟩
  · intro done l rest split s approval submitted now fingerprint found waits carries called wrong
    have member : l ∈ Run.taken step (some (opened sessionId cliPublicKey tokenName start)) calls
      := by rw [split]; simp
    obtain ⟨sound, _⟩ := taken_held held member
    have opened_wrong : Wrong 0 (some (opened sessionId cliPublicKey tokenName start)) := by
      intro _ same
      cases same
      exact ⟨fun _ => rfl, fun waits => by cases waits⟩
    have counts := ((Run.counted held_step wrong_step held opened_wrong split) s found).2 waits
    have did := verify_spec sound submitted now fingerprint
    rw [Taken.answered, called, answer, Answer.verify.injEq]
    generalize (verifyConsumeScript l.before submitted now fingerprint).1 = after at did
    generalize parseOutcome (verifyConsumeScript l.before submitted now fingerprint).2 = outcome
      at did ⊢
    rw [found] at did
    cases did with
    | notApproved _ pending => rw [waits] at pending; cases pending
    | aborted _ over_ reason => rw [waits] at over_; cases over_
    | consumed _ over_ => rw [waits] at over_; cases over_
    | replay _ other ends over_ kept same window within => rw [waits] at over_; cases over_
    | success _ s' other kept waits right status kept' client window =>
        exact absurd (kept.unique carries ▸ right) wrong
    | invalid _ s' other kept waits bad status kept' attempts below =>
        refine ⟨fun same => by simp at same, fun reached => ?_⟩
        omega
    | limited _ s' other kept waits bad status kept' reached =>
        refine ⟨fun _ => ?_, fun _ => rfl⟩
        omega
  · intro l member answered
    obtain ⟨s, found, over_⟩ := limited_after held member answered
    refine ⟨⟨s, found, over_⟩, fun later payload order releases => ?_⟩
    obtain ⟨s', found', live⟩ := releases_before held order.mem.2 releases
    rcases (earlier_terminal held order found (by rw [over_]; decide)).1 with same | none_
    · rw [same] at found'
      cases found'
      rw [over_] at live
      rcases live with waits | redeemed
      · cases waits
      · cases redeemed
    · rw [none_] at found'
      cases found'
  · intro l member owner reason called changed
    obtain ⟨sound, steps⟩ := taken_held held member
    have did := abort_spec sound owner reason
    rw [called, step] at steps
    rw [← steps] at did
    generalize abortOutcome (abortScript l.before owner reason).2 = outcome at did
    clear steps
    generalize l.after = after at did changed
    cases found : l.before with
    | none =>
        rw [found] at did changed
        cases did
        exact absurd rfl changed
    | some s =>
        rw [found] at did changed
        cases did with
        | kept _ outcome other => exact absurd rfl changed
        | aborted _ s' approval carries owns waits status kept =>
            obtain ⟨e, order, approves⟩ :=
              bears_earlier member ⟨s, found, by rw [waits]; decide, carries⟩
            exact ⟨e, approval, order, approves, owns⟩
  · intro e l s order found over_
    exact (earlier_terminal held order found over_).2

end Agentsfleet.Session
