import Mathlib.Data.List.Forall2
import Agentsfleet.Egress.Admission
import Agentsfleet.Secrets.Scrub

/-!
# The vault and what leaves through it

Where a placeholder's value comes from, for one lease, and the request a draft becomes:
admitted first, its `Authorization` headers filled in one pass each.
-/

set_option autoImplicit false

namespace Agentsfleet.Egress

open Agentsfleet.Secrets (Scrub AhoCorasick Bytes fieldHost fieldToken)

structure Minted where
  token : String
  expiresAt : Int
deriving DecidableEq

/-- How long before its expiry a minted token is minted again, in milliseconds. -/
def refreshMargin : Int := 30000

structure Vault where
  minted : List (String × Minted)
  /-- Tokens a re-mint replaced. -/
  retired : List (String × Minted)
  /-- Masks every minted token; `none` until the first mint. -/
  masker : Option Scrub

structure Answer where
  now : Int
  mint : Except Error Minted

namespace Vault

def new : Vault := ⟨[], [], none⟩

def get? (vault : Vault) (name : String) : Option Minted :=
  (vault.minted.find? fun held => held.1 == name).map Prod.snd

/-- The token held for `name` replaced, or added. -/
def insert (held : List (String × Minted)) (name : String) (minted : Minted) :
    List (String × Minted) :=
  match held with
  | [] => [(name, minted)]
  | first :: rest =>
      if first.1 == name then (name, minted) :: rest else first :: insert rest name minted

section Hold

-- the matcher's builder, which can fail
variable (build : (patterns : List Bytes) → Option (AhoCorasick patterns))

/-- Makes sure a fresh token for `name` is held, minting one if not.  The masker covers the
token a new one replaces and every one replaced before it. -/
def hold (vault : Vault) (name : String) (answer : Answer) : Vault × Except Error Unit :=
  if (vault.get? name).any fun held => answer.now + refreshMargin < held.expiresAt then
    (vault, .ok ())
  else
    match answer.mint with
    | .error refusal => (vault, .error refusal)
    | .ok minted =>
        match Scrub.of build
            ((vault.minted ++ vault.retired ++ [(name, minted)]).map fun held =>
              (held.1 ++ "." ++ fieldToken, held.2.token)) with
        | none => (vault, .error .unmaskable)
        | some masker =>
            ({ minted := insert vault.minted name minted
               retired := vault.retired ++ ((vault.get? name).map fun old => (name, old)).toList
               masker := some masker }, .ok ())

/-- Holds what `wanted` needs minted, in turn, up to the first that is not answered. -/
def holdAll (admission : Admission) : Vault → List (SecretRef × Answer) → Vault × Except Error Unit
  | vault, [] => (vault, .ok ())
  | vault, (secret, answer) :: rest =>
      match admission.mints secret.name with
      | none => holdAll admission vault rest
      | some _ =>
          match vault.hold build secret.name answer with
          | (vault, .error refusal) => (vault, .error refusal)
          | (vault, .ok ()) => holdAll admission vault rest

/-- The value that goes in the place of `secret`. -/
def value (vault : Vault) (admission : Admission) (secret : SecretRef) : Option String :=
  match admission.mints secret.name with
  | some _ => if secret.field = fieldToken then (vault.get? secret.name).map Minted.token else none
  | none => admission.statics.field secret.name secret.field

/-- `template` with every placeholder replaced by its value, minting what is minted and is
not yet held fresh; `answers` are the world's, one for each placeholder. -/
def fill (vault : Vault) (admission : Admission) (template : String) (answers : Nat → Answer) :
    Vault × Except Error String :=
  let wanted := (parse template).getD []
  match vault.holdAll build admission (wanted.zip ((List.range wanted.length).map answers)) with
  | (vault, .error refusal) => (vault, .error refusal)
  | (vault, .ok ()) =>
      match wanted.find? fun secret => (vault.value admission secret).isNone with
      | some missing => (vault, .error (admission.unknown missing))
      | none => (vault, .ok (substitute template (vault.value admission)))

end Hold

end Vault

/-! ## What leaves -/

/-- What HTTP carries: a header's name, in lower case, and whether a value may stand in
one. -/
structure Headers where
  name : String → Option String
  value : String → Bool
  lowercase : ∀ text header, name text = some header → header = asciiLowercase text

structure Outbound where
  method : Method
  url : Url
  headers : List (String × String)
  body : Option String
deriving DecidableEq

section Prepare

variable (build : (patterns : List Bytes) → Option (AhoCorasick patterns)) (http : Headers)

/-- One header as HTTP carries it, `Authorization` filled in. -/
def header (vault : Vault) (admission : Admission) (name value : String)
    (answers : Nat → Answer) : Vault × Except Error (String × String) :=
  match http.name name with
  | none => (vault, .error (.invalidHeader name))
  | some header =>
      if header = "authorization" then
        match vault.fill build admission value answers with
        | (vault, .error refusal) => (vault, .error refusal)
        | (vault, .ok filled) =>
            if http.value filled then (vault, .ok (header, filled))
            else (vault, .error (.invalidHeader name))
      else if http.value value then (vault, .ok (header, value))
      else (vault, .error (.invalidHeader name))

def headers (admission : Admission) (answers : Nat → Nat → Answer) :
    Nat → Vault → List (String × String) → Vault × Except Error (List (String × String))
  | _, vault, [] => (vault, .ok [])
  | place, vault, (name, value) :: rest =>
      match header build http vault admission name value (answers place) with
      | (vault, .error refusal) => (vault, .error refusal)
      | (vault, .ok sent) =>
          match headers admission answers (place + 1) vault rest with
          | (vault, .error refusal) => (vault, .error refusal)
          | (vault, .ok others) => (vault, .ok (sent :: others))

/-- `draft`, admitted and with its credentials in place, ready for a transport. -/
def prepare (libraries : Libraries) (admission : Admission) (vault : Vault) (draft : Draft)
    (answers : Nat → Nat → Answer) : Vault × Except Error Outbound :=
  match admission.admitDraft libraries draft with
  | .error refusal => (vault, .error refusal)
  | .ok admitted =>
      match headers build http admission answers 0 vault admitted.headers with
      | (vault, .error refusal) => (vault, .error refusal)
      | (vault, .ok sent) => (vault, .ok ⟨admitted.method, admitted.url, sent, admitted.body⟩)

end Prepare

/-! ## Where secrets end -/

theorem Vault.fill_ok {build : (patterns : List Bytes) → Option (AhoCorasick patterns)}
    {vault : Vault} {admission : Admission} {template filled : String} {answers : Nat → Answer}
    {wanted : List SecretRef} (parsed : parse template = some wanted)
    (answered : (vault.fill build admission template answers).2 = .ok filled) :
    ∃ held : Vault, filled = substitute template (held.value admission) ∧
      ∀ secret ∈ wanted, (held.value admission secret).isSome = true := by
  rw [fill, parsed, Option.getD_some] at answered
  cases holds : vault.holdAll build admission
      (wanted.zip ((List.range wanted.length).map answers)) with
  | mk held result =>
      rw [holds] at answered
      cases result with
      | error refusal => cases answered
      | ok _ =>
          dsimp only at answered
          cases missing : wanted.find? fun secret => (held.value admission secret).isNone with
          | some secret =>
              rw [missing] at answered
              cases answered
          | none =>
              rw [missing] at answered
              cases answered
              refine ⟨held, rfl, ?_⟩
              intro secret member
              have here := List.find?_eq_none.mp missing secret member
              rw [Option.isNone_iff_eq_none] at here
              exact Option.isSome_iff_ne_none.mpr here

/-- A header as it was written and as it is sent to `host`: the same text, in which no
placeholder opens, or an `Authorization` value whose placeholders are each bound to `host`
and each replaced once. -/
inductive HeaderPlaced (admission : Admission) (draft : Draft) (host : String)
    (written sent : String × String) : Prop
  | plain (name : sent.1 = asciiLowercase written.1) (no_name : mentions written.1 = false)
      (no_value : mentions written.2 = false) (same : sent.2 = written.2)
  | filled (may : draft.placement = .authorization) (name : sent.1 = "authorization")
      (no_name : mentions written.1 = false) (vault : Vault)
      (every : ((pieces written.2).filterMap Piece.ref).length = openings written.2)
      (bound : ∀ secret ∈ (pieces written.2).filterMap Piece.ref,
        Admission.Bound admission secret host ∧ (vault.value admission secret).isSome = true)
      (once : sent.2.toList = (pieces written.2).flatMap (Piece.fill (vault.value admission)))

theorem asciiLowercase_of_eq {name : String}
    (same : eqIgnoreAsciiCase name "authorization" = true) :
    asciiLowercase name = "authorization" := by
  have letters := beq_iff_eq.mp same
  rw [asciiLowercase, letters]
  decide

theorem header_ok {build : (patterns : List Bytes) → Option (AhoCorasick patterns)}
    {http : Headers} {vault : Vault} {admission : Admission} {draft : Draft} {host : String}
    {written sent : String × String} {answers : Nat → Answer} {secrets : List SecretRef}
    (held : headerSecrets written.1 written.2 draft.placement = .ok secrets)
    (bound : ∀ secret ∈ secrets, Admission.Bound admission secret host)
    (carried : (header build http vault admission written.1 written.2 answers).2 = .ok sent) :
    HeaderPlaced admission draft host written sent := by
  obtain ⟨parsed, no_name, stands⟩ := headerSecrets_ok held
  obtain ⟨listed, every⟩ := parse_eq parsed
  rw [header] at carried
  cases read : http.name written.1 with
  | none =>
      rw [read] at carried
      cases carried
  | some name =>
      have lower := http.lowercase written.1 name read
      rw [read] at carried
      dsimp only at carried
      by_cases credential : name = "authorization"
      · rw [if_pos credential] at carried
        cases fills : vault.fill build admission written.2 answers with
        | mk after result =>
            rw [fills] at carried
            cases result with
            | error refusal => cases carried
            | ok filled =>
                have answered : (vault.fill build admission written.2 answers).2 = .ok filled := by
                  rw [fills]
                obtain ⟨own, same, some_⟩ := Vault.fill_ok parsed answered
                dsimp only at carried
                split at carried
                · cases carried
                  rcases stands with none_ | ⟨_, may⟩
                  · subst none_
                    refine .plain lower no_name (parse_nil parsed) ?_
                    rw [same]
                    exact substitute_none listed.symm _
                  · refine .filled may credential no_name own (listed ▸ every) ?_ ?_
                    · intro secret member
                      rw [← listed] at member
                      exact ⟨bound secret member, some_ secret member⟩
                    · rw [same, substitute, String.toList_ofList]
                · cases carried
      · rw [if_neg credential] at carried
        have none_ : secrets = [] := by
          rcases stands with none_ | ⟨same, _⟩
          · exact none_
          · exact absurd (lower.trans (asciiLowercase_of_eq same)) credential
        subst none_
        split at carried
        · cases carried
          exact .plain lower no_name (parse_nil parsed) rfl
        · cases carried

theorem headers_ok {build : (patterns : List Bytes) → Option (AhoCorasick patterns)}
    {http : Headers} {admission : Admission} {draft : Draft} {host : String}
    {answers : Nat → Nat → Answer} {place : Nat} {vault : Vault}
    {written sent : List (String × String)}
    (held : ∀ header ∈ written, ∃ secrets,
      headerSecrets header.1 header.2 draft.placement = .ok secrets ∧
        ∀ secret ∈ secrets, Admission.Bound admission secret host)
    (carried : (headers build http admission answers place vault written).2 = .ok sent) :
    List.Forall₂ (HeaderPlaced admission draft host) written sent := by
  induction written generalizing place vault sent with
  | nil =>
      cases carried
      exact .nil
  | cons first rest ih =>
      obtain ⟨name, value⟩ := first
      obtain ⟨⟨secrets, here, bound⟩, others⟩ := List.forall_mem_cons.mp held
      rw [headers] at carried
      cases one : header build http vault admission name value (answers place) with
      | mk after result =>
          rw [one] at carried
          cases result with
          | error refusal => cases carried
          | ok shown =>
              dsimp only at carried
              cases more : headers build http admission answers (place + 1) after rest with
              | mk last results =>
                  rw [more] at carried
                  cases results with
                  | error refusal => cases carried
                  | ok others_ =>
                      cases carried
                      have sent_here : (header build http vault admission name value
                          (answers place)).2 = .ok shown := by rw [one]
                      have sent_others : (headers build http admission answers (place + 1) after
                          rest).2 = .ok others_ := by rw [more]
                      exact .cons (header_ok here bound sent_here) (ih others sent_others)

/-- A header that carries no placeholder, or an `Authorization` value each of whose
placeholders is bound to `host`. -/
def Stands (admission : Admission) (draft : Draft) (host : String) (header : String × String) :
    Prop :=
  mentions header.1 = false ∧ (mentions header.2 = false ∨
    draft.placement = .authorization ∧ eqIgnoreAsciiCase header.1 "authorization" = true ∧
      ((pieces header.2).filterMap Piece.ref).length = openings header.2 ∧
      ∀ secret ∈ (pieces header.2).filterMap Piece.ref, Admission.Bound admission secret host)

theorem stands_of {admission : Admission} {draft : Draft} {host : String}
    {written : String × String} {secrets : List SecretRef}
    (held : headerSecrets written.1 written.2 draft.placement = .ok secrets)
    (bound : ∀ secret ∈ secrets, Admission.Bound admission secret host) :
    Stands admission draft host written := by
  obtain ⟨parsed, no_name, stands⟩ := headerSecrets_ok held
  obtain ⟨listed, every⟩ := parse_eq parsed
  rcases stands with none_ | ⟨same, may⟩
  · subst none_
    exact ⟨no_name, Or.inl (parse_nil parsed)⟩
  · exact ⟨no_name, Or.inr ⟨may, same, listed ▸ every, listed ▸ bound⟩⟩

def oneCredential : Admission :=
  { network := ⟨.publicly, false, [], false, []⟩
    origins := []
    mintable := []
    statics := ⟨some [("example",
      .object [("token", .string "t0ken"), ("host", .string "api.example")])]⟩ }

def oneUrl : Url :=
  ⟨"https", "", none, some (.domain "api.example"), some "api.example", some 443, "/x", none,
    "https://api.example/x"⟩

def oneLibrary : Libraries :=
  { parse := fun text => if text = "https://api.example/x" then .ok oneUrl else .error "other"
    showV4 := fun _ => ""
    showV6 := fun _ => ""
    entries := fun _ => none
    quoted := id }

def asWritten : Headers := ⟨fun text => some (asciiLowercase text), fun _ => true,
  fun _ _ same => (Option.some.inj same).symm⟩

def oneDraft : Draft :=
  ⟨"get", "https://$\x7bsecrets.example.host\x7d/x",
    [("Authorization", "Bearer $\x7bsecrets.example.token\x7d"), ("Accept", "text/plain")], none,
    .authorization⟩

def oneOutbound : Outbound :=
  ⟨.get, oneUrl, [("authorization", "Bearer t0ken"), ("accept", "text/plain")], none⟩

end Agentsfleet.Egress
