import Agentsfleet.Library.Trace
import Agentsfleet.Session.Scripts
import Std.Data.String.ToNat

/-!
# Calls on one device login

What an approval, a presented code, an abort and the end of the key's time to
live each do to what the key holds, what they keep of it and how it may grow.
-/

set_option autoImplicit false

namespace Agentsfleet.Session

open Agentsfleet.Library

/-! ## Calls -/

inductive Call where
  | approve (approval : Approval) (now : Int)
  | verify (submitted : String) (now : Int) (fingerprint : String)
  | abort (owner : String) (reason : AbortReason)
  /-- The key's time to live passed. -/
  | runOut
deriving DecidableEq, Repr

inductive Answer where
  | approve (outcome : Option ApproveOutcome)
  | verify (outcome : Option VerifyOutcome)
  | abort (outcome : Option AbortOutcome)
  | none
deriving DecidableEq, Repr

def step (blob : Option SessionState) : Call → Option SessionState
  | .approve approval now => (approveScript blob approval now).1
  | .verify submitted now fingerprint => (verifyConsumeScript blob submitted now fingerprint).1
  | .abort owner reason => (abortScript blob owner reason).1
  | .runOut => none

def answer (blob : Option SessionState) : Call → Answer
  | .approve approval now => .approve (approveOutcome (approveScript blob approval now).2)
  | .verify submitted now fingerprint =>
      .verify (parseOutcome (verifyConsumeScript blob submitted now fingerprint).2)
  | .abort owner reason => .abort (abortOutcome (abortScript blob owner reason).2)
  | .runOut => .none

abbrev Taken := Run.Taken (Option SessionState) Call

namespace Taken

variable (t : Taken)

def answered : Answer := answer t.before t.event

def Approves (approval : Approval) : Prop :=
  ∃ now, t.event = .approve approval now ∧ t.answered = .approve (some .approved)

def Redeems (submitted fingerprint : String) (now : Int) (payload : VerifyPayload) : Prop :=
  t.event = .verify submitted now fingerprint ∧ t.answered = .verify (some (.success payload))

def Repeats (fingerprint : String) (now : Int) (payload : VerifyPayload) : Prop :=
  ∃ submitted, t.event = .verify submitted now fingerprint ∧
    t.answered = .verify (some (.replay payload))

def Releases (payload : VerifyPayload) : Prop :=
  t.answered = .verify (some (.success payload)) ∨ t.answered = .verify (some (.replay payload))

def rejected : Bool :=
  match t.answered with
  | .verify (some (.invalidCode _)) => true
  | _ => false

end Taken

/-! ## What the blob holds -/

def Approval.payload (approval : Approval) : VerifyPayload :=
  ⟨approval.dashboardPublicKey, approval.ciphertext, approval.nonce⟩

/-- The session carries `approval`. -/
structure Carries (s : SessionState) (approval : Approval) : Prop where
  key : s.dashboardPublicKey = some approval.dashboardPublicKey
  ciphertext : s.ciphertext = some approval.ciphertext
  nonce : s.nonce = some approval.nonce
  code : s.verificationCodeHmacHex = some approval.codeHmacHex
  approver : s.clerkUserId = some approval.approver

theorem Carries.unique {s : SessionState} {one other : Approval} (first : Carries s one)
    (second : Carries s other) : one = other := by
  obtain ⟨key, ciphertext, nonce, code, approver⟩ := first
  obtain ⟨key', ciphertext', nonce', code', approver'⟩ := second
  rw [key] at key'
  rw [ciphertext] at ciphertext'
  rw [nonce] at nonce'
  rw [code] at code'
  rw [approver] at approver'
  cases one
  cases other
  simp_all

structure Sound (s : SessionState) : Prop where
  pending : s.status = .pending → s.clerkUserId = none ∧ s.verificationAttempts = 0
  approved : s.status ≠ .pending → ∃ approval, Carries s approval
  live : s.status ≠ .expired
  open_ : s.status = .verificationPending → s.verificationAttempts < maxVerifyAttempts
  redeemed : s.status = .consumed →
    ∃ fingerprint now, s.consumedClientFingerprintHex = some fingerprint ∧
      s.consumePayloadExpiresAtMs = some (now + consumeReplayWindow)

def Held (blob : Option SessionState) : Prop := ∀ s, blob = some s → Sound s

theorem opened_sound (sessionId cliPublicKey tokenName : String) (now : Int) :
    Sound (opened sessionId cliPublicKey tokenName now) := by
  constructor
  · exact fun _ => ⟨rfl, rfl⟩
  · exact fun approved => absurd rfl approved
  · exact fun expired => by cases expired
  · exact fun pending => by cases pending
  · exact fun consumed => by cases consumed

/-! ## What one call can do -/

inductive Approved (approval : Approval) (now : Int) :
    Option SessionState → Option SessionState → Option ApproveOutcome → Prop
  | missing : Approved approval now none none (some .missing)
  | conflict (s : SessionState) (past : s.status ≠ .pending) :
      Approved approval now (some s) (some s) (some (.conflict (some s.status.asStr)))
  | approved (s s' : SessionState) (pending : s.status = .pending)
      (status : s'.status = .verificationPending) (carries : Carries s' approval)
      (attempts : s'.verificationAttempts = s.verificationAttempts) :
      Approved approval now (some s) (some s') (some .approved)

theorem approve_spec (blob : Option SessionState) (approval : Approval) (now : Int) :
    Approved approval now blob (approveScript blob approval now).1
      (approveOutcome (approveScript blob approval now).2) := by
  cases blob with
  | none => exact .missing
  | some s =>
      by_cases past : s.status ≠ .pending
      · rw [approveScript, if_pos past]
        exact .conflict s past
      · rw [approveScript, if_neg past]
        exact .approved s _ (not_not.mp past) rfl ⟨rfl, rfl, rfl, rfl, rfl⟩ rfl

inductive Verified (submitted : String) (now : Int) (fingerprint : String) :
    Option SessionState → Option SessionState → Option VerifyOutcome → Prop
  | missing : Verified submitted now fingerprint none none (some .missing)
  | notApproved (s : SessionState) (pending : s.status = .pending) :
      Verified submitted now fingerprint (some s) (some s) (some .notApproved)
  | aborted (s : SessionState) (over_ : s.status = .aborted) (reason : String) :
      Verified submitted now fingerprint (some s) (some s) (some (.aborted reason))
  | consumed (s : SessionState) (over_ : s.status = .consumed) :
      Verified submitted now fingerprint (some s) (some s) (some .consumed)
  | replay (s : SessionState) (approval : Approval) (ends : Int) (over_ : s.status = .consumed)
      (carries : Carries s approval)
      (same : s.consumedClientFingerprintHex = some fingerprint)
      (window : s.consumePayloadExpiresAtMs = some ends) (within : now < ends) :
      Verified submitted now fingerprint (some s) (some s) (some (.replay approval.payload))
  | invalid (s s' : SessionState) (approval : Approval) (carries : Carries s approval)
      (waits : s.status = .verificationPending) (wrong : submitted ≠ approval.codeHmacHex)
      (status : s'.status = .verificationPending) (kept : Carries s' approval)
      (attempts : s'.verificationAttempts = s.verificationAttempts + 1)
      (below : s.verificationAttempts + 1 < maxVerifyAttempts) :
      Verified submitted now fingerprint (some s) (some s')
        (some (.invalidCode (s.verificationAttempts + 1)))
  | limited (s s' : SessionState) (approval : Approval) (carries : Carries s approval)
      (waits : s.status = .verificationPending) (wrong : submitted ≠ approval.codeHmacHex)
      (status : s'.status = .aborted) (kept : Carries s' approval)
      (reached : s.verificationAttempts + 1 = maxVerifyAttempts) :
      Verified submitted now fingerprint (some s) (some s') (some .rateLimited)
  | success (s s' : SessionState) (approval : Approval) (carries : Carries s approval)
      (waits : s.status = .verificationPending) (right : submitted = approval.codeHmacHex)
      (status : s'.status = .consumed) (kept : Carries s' approval)
      (client : s'.consumedClientFingerprintHex = some fingerprint)
      (window : s'.consumePayloadExpiresAtMs = some (now + consumeReplayWindow)) :
      Verified submitted now fingerprint (some s) (some s') (some (.success approval.payload))

theorem count_toString {n : Nat} (small : n < maxVerifyAttempts) : count (toString n) = some n := by
  have bound : n < 5 := small
  have reads : (toString n).toNat? = some n := Nat.toNat?_repr n
  rw [count, reads, Option.bind_some, if_pos (by omega)]

theorem parse_payload {s : SessionState} {approval : Approval} (carries : Carries s approval) :
    table [some "success", s.dashboardPublicKey, s.ciphertext, s.nonce] = ["success",
        approval.dashboardPublicKey, approval.ciphertext, approval.nonce] ∧
      table [some "replay", s.dashboardPublicKey, s.ciphertext, s.nonce] = ["replay",
        approval.dashboardPublicKey, approval.ciphertext, approval.nonce] := by
  rw [carries.key, carries.ciphertext, carries.nonce]
  exact ⟨rfl, rfl⟩

theorem verify_spec {blob : Option SessionState} (held : Held blob) (submitted : String) (now : Int)
    (fingerprint : String) :
    Verified submitted now fingerprint blob (verifyConsumeScript blob submitted now fingerprint).1
      (parseOutcome (verifyConsumeScript blob submitted now fingerprint).2) := by
  cases blob with
  | none => exact .missing
  | some s =>
      have sound := held s rfl
      cases status : s.status with
      | pending =>
          simp only [verifyConsumeScript, status]
          exact .notApproved s status
      | expired => exact absurd status sound.live
      | aborted =>
          simp only [verifyConsumeScript, status]
          exact .aborted s status _
      | consumed =>
          simp only [verifyConsumeScript, status]
          obtain ⟨approval, carries⟩ := sound.approved (by rw [status]; decide)
          obtain ⟨_, opened_, _, window⟩ := sound.redeemed status
          rw [(parse_payload carries).2, window]
          split
          · rename_i fits
            exact .replay s approval _ status carries fits.2 window (of_decide_eq_true fits.1)
          · exact .consumed s status
      | verificationPending =>
          obtain ⟨approval, carries⟩ := sound.approved (by rw [status]; decide)
          have below := sound.open_ status
          simp only [verifyConsumeScript, status, carries.code, Option.getD_some, ne_eq,
            diff_eq_zero]
          by_cases right : approval.codeHmacHex = submitted
          · rw [if_neg (not_not.mpr right), (parse_payload carries).1]
            exact .success s _ approval carries status right.symm rfl
              ⟨carries.key, carries.ciphertext, carries.nonce, rfl, carries.approver⟩
              rfl rfl
          · rw [if_pos right]
            by_cases limit : maxVerifyAttempts ≤ s.verificationAttempts + 1
            · rw [if_pos limit]
              exact .limited s _ approval carries status (Ne.symm right) rfl
                ⟨carries.key, carries.ciphertext, carries.nonce, rfl, carries.approver⟩
                (by omega)
            · rw [if_neg limit]
              have parsed : parseOutcome ["invalid_code", toString (s.verificationAttempts + 1)]
                  = some (.invalidCode (s.verificationAttempts + 1)) := by
                rw [parseOutcome, count_toString (by omega)]
                rfl
              rw [parsed]
              exact .invalid s _ approval carries status (Ne.symm right) rfl
                ⟨carries.key, carries.ciphertext, carries.nonce, rfl, carries.approver⟩
                rfl (by omega)

inductive Aborted (owner : String) :
    Option SessionState → Option SessionState → Option AbortOutcome → Prop
  | missing : Aborted owner none none (some .missing)
  | kept (s : SessionState) (outcome : AbortOutcome) (other : outcome ≠ .aborted) :
      Aborted owner (some s) (some s) (some outcome)
  | aborted (s s' : SessionState) (approval : Approval) (carries : Carries s approval)
      (owns : owner = approval.approver) (waits : s.status = .verificationPending)
      (status : s'.status = .aborted) (kept : Carries s' approval) :
      Aborted owner (some s) (some s') (some .aborted)

theorem abort_spec {blob : Option SessionState} (held : Held blob) (owner : String)
    (reason : AbortReason) :
    Aborted owner blob (abortScript blob owner reason).1
      (abortOutcome (abortScript blob owner reason).2) := by
  cases blob with
  | none => exact .missing
  | some s =>
      have sound := held s rfl
      rw [abortScript]
      by_cases owns : s.clerkUserId = some owner
      · rw [if_neg (not_not.mpr owns)]
        by_cases redeemed : s.status = .consumed
        · rw [if_pos redeemed]
          exact .kept s .consumed (by decide)
        · rw [if_neg redeemed]
          by_cases done : s.status = .aborted
          · rw [if_pos done]
            exact .kept s .alreadyAborted (by decide)
          · rw [if_neg done]
            cases status : s.status with
            | pending =>
                have none_ := (sound.pending status).1
                rw [owns] at none_
                cases none_
            | expired => exact absurd status sound.live
            | consumed => exact absurd status redeemed
            | aborted => exact absurd status done
            | verificationPending =>
                obtain ⟨approval, carries⟩ := sound.approved (by rw [status]; decide)
                have same : owner = approval.approver := by
                  have approver := carries.approver
                  rw [owns] at approver
                  exact Option.some.inj approver
                exact .aborted s _ approval carries same status rfl
                  ⟨carries.key, carries.ciphertext, carries.nonce, carries.code, carries.approver⟩
      · rw [if_pos owns]
        exact .kept s .notOwner (by decide)

/-! ## What calls keep -/

theorem Carries.sound_open {s : SessionState} {approval : Approval} (carries : Carries s approval)
    (status : s.status = .verificationPending)
    (below : s.verificationAttempts < maxVerifyAttempts) : Sound s :=
  { pending := fun pending => by rw [status] at pending; cases pending
    approved := fun _ => ⟨approval, carries⟩
    live := by rw [status]; decide
    open_ := fun _ => below
    redeemed := fun consumed => by rw [status] at consumed; cases consumed }

theorem Carries.sound_aborted {s : SessionState} {approval : Approval}
    (carries : Carries s approval) (status : s.status = .aborted) : Sound s :=
  { pending := fun pending => by rw [status] at pending; cases pending
    approved := fun _ => ⟨approval, carries⟩
    live := by rw [status]; decide
    open_ := fun waits => by rw [status] at waits; cases waits
    redeemed := fun consumed => by rw [status] at consumed; cases consumed }

theorem Carries.sound_consumed {s : SessionState} {approval : Approval} {fingerprint : String}
    {now : Int} (carries : Carries s approval) (status : s.status = .consumed)
    (client : s.consumedClientFingerprintHex = some fingerprint)
    (window : s.consumePayloadExpiresAtMs = some (now + consumeReplayWindow)) : Sound s :=
  { pending := fun pending => by rw [status] at pending; cases pending
    approved := fun _ => ⟨approval, carries⟩
    live := by rw [status]; decide
    open_ := fun waits => by rw [status] at waits; cases waits
    redeemed := fun _ => ⟨fingerprint, now, client, window⟩ }

theorem held_some {s : SessionState} (sound : Sound s) : Held (some s) :=
  fun _ found => Option.some.inj found ▸ sound

theorem held_none : Held none := fun _ found => by cases found

theorem held_approved {approval : Approval} {now : Int} {before after : Option SessionState}
    {outcome : Option ApproveOutcome} (held : Held before)
    (did : Approved approval now before after outcome) : Held after := by
  cases did with
  | missing => exact held
  | conflict s past => exact held
  | approved s s' pending status carries attempts =>
      have fresh := ((held s rfl).pending pending).2
      exact held_some (carries.sound_open status (by rw [attempts, fresh]; decide))

theorem held_verified {submitted fingerprint : String} {now : Int}
    {before after : Option SessionState} {outcome : Option VerifyOutcome} (held : Held before)
    (did : Verified submitted now fingerprint before after outcome) : Held after := by
  cases did with
  | missing => exact held
  | notApproved s pending => exact held
  | aborted s over_ reason => exact held
  | consumed s over_ => exact held
  | replay s approval ends over_ carries same window within => exact held
  | invalid s s' approval carries waits wrong status kept attempts below =>
      exact held_some (kept.sound_open status (by omega))
  | limited s s' approval carries waits wrong status kept reached =>
      exact held_some (kept.sound_aborted status)
  | success s s' approval carries waits right status kept client window =>
      exact held_some (kept.sound_consumed status client window)

theorem held_aborted {owner : String} {before after : Option SessionState}
    {outcome : Option AbortOutcome} (held : Held before)
    (did : Aborted owner before after outcome) : Held after := by
  cases did with
  | missing => exact held
  | kept s outcome other => exact held
  | aborted s s' approval carries owns waits status kept =>
      exact held_some (kept.sound_aborted status)

theorem held_step (blob : Option SessionState) (call : Call) (held : Held blob) :
    Held (step blob call) := by
  cases call with
  | approve approval now => exact held_approved held (approve_spec blob approval now)
  | verify submitted now fingerprint =>
      exact held_verified held (verify_spec held submitted now fingerprint)
  | abort owner reason => exact held_aborted held (abort_spec held owner reason)
  | runOut => exact held_none

/-- How the key may change over a login: an approval stays, and what is over is
over. -/
structure Grows (before after : Option SessionState) : Prop where
  gone : before = none → after = none
  terminal : ∀ s, before = some s → s.status.isTerminal = true → after = before ∨ after = none
  approved : ∀ s approval, before = some s → s.status ≠ .pending → Carries s approval →
    ∀ s', after = some s' → s'.status ≠ .pending ∧ Carries s' approval

namespace Grows

theorem refl (blob : Option SessionState) : Grows blob blob :=
  { gone := id
    terminal := fun _ _ _ => Or.inl rfl
    approved := fun s approval found past carries s' same => by
      rw [found] at same
      cases same
      exact ⟨past, carries⟩ }

theorem trans {first second third : Option SessionState} (one : Grows first second)
    (two : Grows second third) : Grows first third := by
  constructor
  · exact fun none_ => two.gone (one.gone none_)
  · intro s found over_
    rcases one.terminal s found over_ with same | none_
    · have next := two.terminal s (same.trans found) over_
      rwa [same] at next
    · exact Or.inr (two.gone none_)
  · intro s approval found past carries s' last
    cases middle : second with
    | none =>
        rw [two.gone middle] at last
        cases last
    | some m =>
        obtain ⟨past', carries'⟩ := one.approved s approval found past carries m middle
        exact two.approved m approval middle past' carries' s' last

theorem runOut (blob : Option SessionState) : Grows blob none :=
  { gone := fun _ => rfl
    terminal := fun _ _ _ => Or.inr rfl
    approved := fun _ _ _ _ _ _ found => by cases found }

theorem of_open {s s' : SessionState} {approval : Approval} (carries : Carries s approval)
    (waits : s.status = .verificationPending) (past : s'.status ≠ .pending)
    (kept : Carries s' approval) : Grows (some s) (some s') := by
  constructor
  · exact fun none_ => by cases none_
  · intro _ found over_
    cases found
    rw [waits] at over_
    cases over_
  · intro _ other found _ others _ last
    cases found
    cases last
    exact ⟨past, others.unique carries ▸ kept⟩

theorem of_pending {s s' : SessionState} (pending : s.status = .pending) :
    Grows (some s) (some s') := by
  constructor
  · exact fun none_ => by cases none_
  · intro _ found over_
    cases found
    rw [pending] at over_
    cases over_
  · intro _ _ found past
    cases found
    exact absurd pending past

end Grows

theorem grows_approved {approval : Approval} {now : Int} {before after : Option SessionState}
    {outcome : Option ApproveOutcome} (did : Approved approval now before after outcome) :
    Grows before after := by
  cases did with
  | missing => exact .refl _
  | conflict s past => exact .refl _
  | approved s s' pending status carries attempts => exact .of_pending pending

theorem grows_verified {submitted fingerprint : String} {now : Int}
    {before after : Option SessionState} {outcome : Option VerifyOutcome}
    (did : Verified submitted now fingerprint before after outcome) : Grows before after := by
  cases did with
  | missing => exact .refl _
  | notApproved s pending => exact .refl _
  | aborted s over_ reason => exact .refl _
  | consumed s over_ => exact .refl _
  | replay s approval ends over_ carries same window within => exact .refl _
  | invalid s s' approval carries waits wrong status kept attempts below =>
      exact .of_open carries waits (by rw [status]; decide) kept
  | limited s s' approval carries waits wrong status kept reached =>
      exact .of_open carries waits (by rw [status]; decide) kept
  | success s s' approval carries waits right status kept client window =>
      exact .of_open carries waits (by rw [status]; decide) kept

theorem grows_aborted {owner : String} {before after : Option SessionState}
    {outcome : Option AbortOutcome} (did : Aborted owner before after outcome) :
    Grows before after := by
  cases did with
  | missing => exact .refl _
  | kept s outcome other => exact .refl _
  | aborted s s' approval carries owns waits status kept =>
      exact .of_open carries waits (by rw [status]; decide) kept

theorem grows_step (blob : Option SessionState) (call : Call) (held : Held blob) :
    Grows blob (step blob call) := by
  cases call with
  | approve approval now => exact grows_approved (approve_spec blob approval now)
  | verify submitted now fingerprint =>
      exact grows_verified (verify_spec held submitted now fingerprint)
  | abort owner reason => exact grows_aborted (abort_spec held owner reason)
  | runOut => exact .runOut blob

end Agentsfleet.Session
