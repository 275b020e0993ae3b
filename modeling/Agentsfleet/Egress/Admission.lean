import Agentsfleet.Core.Bounds
import Agentsfleet.Egress.Origin
import Agentsfleet.Egress.Placeholder
import Agentsfleet.Secrets.Statics

/-!
# Admission

Whether one request may leave, decided before any connection exists: the method, where
each placeholder stands, HTTPS, the host, each credential bound to this host, the host's
origin rules and `read_only`.
-/

set_option autoImplicit false

namespace Agentsfleet.Egress

open Agentsfleet.Core (Json Members)
open Agentsfleet.Secrets (StaticSecrets fieldHost fieldToken)

inductive Error where
  | invalidUrl (reason : String)
  | invalidHeader (name : String)
  | httpsRequired
  | methodNotAllowed (method : String)
  | hostNotAllowed (host : String)
  | addressNotAllowed (host : String)
  | placementNotAllowed (what : String)
  | credentialHostNotAllowed (name host : String)
  | secretNotFound (name field : String)
  | secretFieldNotFound (name field fields : String)
  | requestPolicyNotAllowed (host method path : String) (why : Option String)
  | credentialMintRefused (code detail : String)
  | unmaskable
deriving DecidableEq, Repr

/-- The methods `read_only` admits everywhere. -/
def reads : List Method := [.get, .head]

def https : String := "https"

def inUrl : String := "a placeholder in the URL, or credentials in its userinfo"

def inBody : String := "a placeholder in the body"

def schemeSeparator : String := "://"

/-- The scheme a bare entry is read under, to find its host. -/
def assumedScheme : String := "https://"

inductive HttpEgress where
  | restricted
  | publicly
deriving DecidableEq, Repr

def packageManagerDomains : List String :=
  ["registry.npmjs.org", "pypi.org", "files.pythonhosted.org", "static.crates.io", "crates.io",
    "index.crates.io", "proxy.golang.org", "sum.golang.org"]

structure NetworkPolicy where
  httpEgress : HttpEgress
  packageManagerDomains : Bool
  allow : List String
  readOnly : Bool
  readPostPaths : List String

/-- An integration this run may request a short-lived credential for. -/
structure Mintable where
  name : String
  integration : String
deriving DecidableEq, Repr

/-- What is asked of libraries: parsing a URL, spelling an address, the entries of a JSON
object, a text in quotes. -/
structure Libraries where
  parse : String → Except String Url
  showV4 : Core.Ipv4Addr → String
  showV6 : Core.Ipv6Addr → String
  entries : String → Option Members
  quoted : String → String

/-- A request the policy admits, its placeholders not yet resolved. -/
structure Admitted where
  method : Method
  url : Url
  headers : List (String × String)
  body : Option String
deriving DecidableEq

/-- One lease's network policy, read where each request consults it. -/
structure Admission where
  network : NetworkPolicy
  origins : List HttpOriginPolicy
  mintable : List Mintable
  statics : StaticSecrets

/-! ## Hosts -/

section Hosts

variable (libraries : Libraries)

/-- `host` as an allowlist entry spells it. -/
def spelled : Host → String
  | .domain name => asciiLowercase name
  | .ipv4 address => libraries.showV4 address
  | .ipv6 address => libraries.showV6 address

/-- The host `entry` names. -/
def allowlistHost (entry : String) : Option String :=
  let url :=
    if contains entry schemeSeparator then libraries.parse entry
    else libraries.parse (assumedScheme ++ entry)
  match url with
  | .error _ => none
  | .ok url => url.host.map (spelled libraries)

/-- Whether `url` names an address literal a resolver would refuse. -/
def blockedLiteral (url : Url) : Bool :=
  match url.host with
  | some (.ipv4 address) => address.isBlocked
  | some (.ipv6 address) => address.isBlocked
  | _ => false

end Hosts

/-- Whether an address literal stays outside the private ranges. -/
def reachable (url : Url) (host : String) : Except Error Unit :=
  if blockedLiteral url then .error (.addressNotAllowed host) else .ok ()

/-- The method `text` names, when a tool may send it. -/
def sendable (text : String) : Except Error Method :=
  match methods.find? fun method => method.asStr.toList == text.toList.map Char.toUpper with
  | some method => .ok method
  | none => .error (.methodNotAllowed text)

/-! ## Where placeholders stand -/

def headerSecrets (name value : String) (placement : Placement) : Except Error (List SecretRef) :=
  let carries := eqIgnoreAsciiCase name "authorization" && placement == .authorization
  let reserved := eqIgnoreAsciiCase name "host" || mentions name
  match parse value with
  | some found =>
      if !reserved && (found.isEmpty || carries) then .ok found
      else .error (.placementNotAllowed ("the " ++ name ++ " header as written"))
  | none => .error (.placementNotAllowed ("the " ++ name ++ " header as written"))

def headersSecrets (placement : Placement) :
    List (String × String) → Except Error (List SecretRef)
  | [] => .ok []
  | (name, value) :: rest => do
      let here ← headerSecrets name value placement
      let others ← headersSecrets placement rest
      .ok (here ++ others)

/-- The placeholders `draft`'s headers carry. -/
def placed (draft : Draft) : Except Error (List SecretRef) :=
  if draft.body.any mentions then .error (.placementNotAllowed inBody)
  else headersSecrets draft.placement draft.headers

namespace Admission

section Admits

variable (libraries : Libraries) (admission : Admission)

/-- Whether `name` is minted rather than read from `secrets_map`. -/
def mints (name : String) : Option Mintable :=
  admission.mintable.find? fun mintable => mintable.name == name

/-- The refusal for `secret`, which this fleet cannot supply. -/
def unknown (secret : SecretRef) : Error :=
  let fields :=
    match admission.mints secret.name with
    | some _ => some [fieldToken]
    | none => admission.statics.fieldNames secret.name
  match fields with
  | some (field :: rest) =>
      let sorted := (field :: rest).mergeSort fun left right => decide (left ≤ right)
      .secretFieldNotFound secret.name secret.field (String.intercalate ", " sorted)
  | _ => .secretNotFound secret.name secret.field

/-- The text the URL is read from: `text`, its host placeholder put in place, with the host
that was. -/
def resolve (text : String) (placement : Placement) : Except Error (String × Option String) :=
  let named :=
    match placement with
    | .authorization => hostUrl text
    | .nowhere => none
  match named with
  | none => .ok (text, none)
  | some (name, rest) =>
      match admission.statics.host name with
      | none => .error (admission.unknown ⟨name, fieldHost⟩)
      | some host => .ok (https ++ "://" ++ host ++ rest, some host)

/-- The URL `text` names, its host placeholder put in place. -/
def locate (text : String) (placement : Placement) : Except Error Url :=
  match admission.resolve text placement with
  | .error refusal => .error refusal
  | .ok (resolved, host) =>
      if mentions resolved then .error (.placementNotAllowed inUrl)
      else
        match libraries.parse resolved with
        | .error reason => .error (.invalidUrl reason)
        | .ok url =>
            let hostKept := host.all fun host =>
              url.hostStr.any fun parsed => eqIgnoreAsciiCase parsed host
            if url.scheme ≠ https then .error .httpsRequired
            else if url.username ≠ "" ∨ url.password.isSome ∨ !hostKept then
              .error (.placementNotAllowed inUrl)
            else .ok url

/-- Whether `url`'s host is one an allowlist entry names. -/
def listed (url : Url) (host : String) : Except Error Unit :=
  let wanted := url.host.map (spelled libraries)
  let named := wanted.any fun wanted =>
    (admission.network.allow.filterMap (allowlistHost libraries)).any fun allowed =>
      allowed == wanted
  let isPublic := admission.network.httpEgress == .publicly
  let package := admission.network.packageManagerDomains && packageManagerDomains.contains host
  if isPublic || package || named then .ok () else .error (.hostNotAllowed host)

def origin (host : String) : Option HttpOriginPolicy :=
  admission.origins.find? fun origin => eqIgnoreAsciiCase origin.host host

/-- Whether `host` is where `secret` goes: a minted one where the host's origin policy names
it, a static one only to its own `host` field. -/
def sentHere (secret : SecretRef) (host : String) : Except Error Bool :=
  match admission.mints secret.name with
  | some _ =>
      if secret.field ≠ fieldToken then .error (admission.unknown secret)
      else .ok ((admission.origin host).any fun origin =>
        origin.credentialNames.any fun name => name == secret.name)
  | none =>
      match admission.statics.field secret.name secret.field with
      | none => .error (admission.unknown secret)
      | some _ => .ok ((admission.statics.host secret.name).any fun bound =>
          eqIgnoreAsciiCase bound host)

/-- Whether `secret` may be sent to `host`. -/
def bound (secret : SecretRef) (host : String) : Except Error Unit :=
  match admission.sentHere secret host with
  | .error refusal => .error refusal
  | .ok true => .ok ()
  | .ok false => .error (.credentialHostNotAllowed secret.name host)

/-- Each secret in turn, up to the first that may not be sent to `host`. -/
def boundAll (host : String) : List SecretRef → Except Error Unit
  | [] => .ok ()
  | secret :: rest => do
      admission.bound secret host
      boundAll host rest

/-- Whether a rule admitted the request: `false` for a host with no rules. -/
def originAdmits (method : Method) (url : Url) (body : Option String) : Except Error Bool :=
  let host := url.hostStr.getD ""
  match admission.origin host with
  | none => .ok false
  | some origin =>
      if admits libraries.entries origin method url body then .ok true
      else
        .error (.requestPolicyNotAllowed host method.asStr url.path
          (closedRefusal libraries.entries libraries.quoted origin method url body))

/-- Whether `url` is a listed query path, ending there or at its query. -/
def readPost (url : Url) : Bool :=
  admission.network.readPostPaths.any fun listed =>
    match stripHead listed.toList url.text.toList with
    | some [] => true
    | some (c :: _) => c == '?'
    | none => false

/-- Under `read_only`: reads, matched POST and PATCH rules, and listed query POSTs. -/
def readOnlyAdmits (method : Method) (url : Url) (matched : Bool) : Except Error Unit :=
  if !admission.network.readOnly || reads.contains method
      || (matched && (method == .post || method == .patch))
      || (method == .post && admission.readPost url) then .ok ()
  else .error (.methodNotAllowed method.asStr)

/-- `draft`, admitted, or the first rule it breaks. -/
def admitDraft (draft : Draft) : Except Error Admitted := do
  let method ← sendable draft.method
  let url ← admission.locate libraries draft.url draft.placement
  let credentials ← placed draft
  admission.listed libraries url (url.hostStr.getD "")
  reachable url (url.hostStr.getD "")
  admission.boundAll (url.hostStr.getD "") credentials
  let matched ← admission.originAdmits libraries method url draft.body
  admission.readOnlyAdmits method url matched
  .ok ⟨method, url, draft.headers, draft.body⟩

end Admits

end Admission

/-! ## What admission checked -/

theorem headerSecrets_ok {name value : String} {placement : Placement} {found : List SecretRef}
    (held : headerSecrets name value placement = .ok found) :
    parse value = some found ∧ mentions name = false ∧
      (found = [] ∨ (eqIgnoreAsciiCase name "authorization" = true ∧
        placement = .authorization)) := by
  rw [headerSecrets] at held
  cases parsed : parse value with
  | none =>
      rw [parsed] at held
      cases held
  | some secrets =>
      rw [parsed] at held
      dsimp only at held
      split at held
      · rename_i fits
        cases held
        simp only [Bool.and_eq_true, Bool.or_eq_true, Bool.not_eq_true', Bool.or_eq_false_iff,
          beq_iff_eq, List.isEmpty_iff] at fits
        exact ⟨rfl, fits.1.2, fits.2⟩
      · cases held

theorem headersSecrets_ok {placement : Placement} {headers : List (String × String)}
    {found : List SecretRef} (held : headersSecrets placement headers = .ok found) :
    ∀ header ∈ headers, ∃ secrets, headerSecrets header.1 header.2 placement = .ok secrets ∧
      ∀ secret ∈ secrets, secret ∈ found := by
  induction headers generalizing found with
  | nil => exact fun header member => absurd member List.not_mem_nil
  | cons first rest ih =>
      obtain ⟨here, first_held, held⟩ := Core.bind_eq_ok.mp held
      obtain ⟨others, rest_held, held⟩ := Core.bind_eq_ok.mp held
      cases held
      intro header member
      rcases List.mem_cons.mp member with same | later
      · rw [same]
        exact ⟨here, first_held, fun secret listed => List.mem_append_left others listed⟩
      · obtain ⟨secrets, read, inside⟩ := ih rest_held header later
        exact ⟨secrets, read,
          fun secret listed => List.mem_append_right here (inside secret listed)⟩

theorem placed_ok {draft : Draft} {found : List SecretRef} (held : placed draft = .ok found) :
    (∀ body, draft.body = some body → mentions body = false) ∧
      headersSecrets draft.placement draft.headers = .ok found := by
  rw [placed] at held
  by_cases misplaced : draft.body.any mentions = true
  · rw [if_pos misplaced] at held
    cases held
  · rw [if_neg misplaced] at held
    refine ⟨?_, held⟩
    intro body carried
    rw [carried, Option.any_some] at misplaced
    exact Bool.eq_false_iff.mpr misplaced

namespace Admission

variable {libraries : Libraries} {admission : Admission}

/-- The policy binds `secret` to `host`: as a credential minted for its origin, or as a
static one whose own host it is. -/
inductive Bound (admission : Admission) (secret : SecretRef) (host : String) : Prop
  | minted (mintable : Mintable) (origin : HttpOriginPolicy)
      (mints : admission.mints secret.name = some mintable) (token : secret.field = fieldToken)
      (here : admission.origin host = some origin)
      (named : secret.name ∈ origin.credentialNames)
  | static (own : String) (mints : admission.mints secret.name = none)
      (held : admission.statics.host secret.name = some own)
      (here : eqIgnoreAsciiCase own host = true)

theorem bound_ok {secret : SecretRef} {host : String}
    (checked : admission.bound secret host = .ok ()) : Bound admission secret host := by
  have sent : admission.sentHere secret host = .ok true := by
    rw [bound] at checked
    split at checked
    · cases checked
    · assumption
    · cases checked
  rw [sentHere] at sent
  cases mints : admission.mints secret.name with
  | some mintable =>
      rw [mints] at sent
      dsimp only at sent
      by_cases token : secret.field = fieldToken
      · rw [if_neg (not_not_intro token)] at sent
        obtain ⟨origin, here, named⟩ := (Option.any_eq_true _ _).mp (Except.ok.inj sent)
        obtain ⟨name, listed, same⟩ := List.any_eq_true.mp named
        exact .minted mintable origin mints token here (beq_iff_eq.mp same ▸ listed)
      · rw [if_pos token] at sent
        cases sent
  | none =>
      rw [mints] at sent
      dsimp only at sent
      split at sent
      · cases sent
      · obtain ⟨own, held, here⟩ := (Option.any_eq_true _ _).mp (Except.ok.inj sent)
        exact .static own mints held here

theorem boundAll_ok {host : String} {secrets : List SecretRef}
    (checked : admission.boundAll host secrets = .ok ()) :
    ∀ secret ∈ secrets, Bound admission secret host := by
  induction secrets with
  | nil => exact fun secret member => absurd member List.not_mem_nil
  | cons first rest ih =>
      obtain ⟨_, here, others⟩ := Core.bind_eq_ok.mp checked
      intro secret member
      rcases List.mem_cons.mp member with same | later
      · rw [same]
        exact bound_ok here
      · exact ih others secret later

/-- The URL sent is the one written, or the one written with its whole host put in the place
of a host placeholder; the text it is read from opens no other. -/
inductive Located (libraries : Libraries) (admission : Admission) (draft : Draft) (url : Url) :
    Prop
  | written (plain : mentions draft.url = false) (read : libraries.parse draft.url = .ok url)
  | host (name rest host parsed : String) (may : draft.placement = .authorization)
      (named : hostUrl draft.url = some (name, rest))
      (held : admission.statics.host name = some host)
      (plain : mentions (https ++ "://" ++ host ++ rest) = false)
      (read : libraries.parse (https ++ "://" ++ host ++ rest) = .ok url)
      (whole : url.hostStr = some parsed) (same : eqIgnoreAsciiCase parsed host = true)

theorem locate_ok {draft : Draft} {url : Url}
    (located : admission.locate libraries draft.url draft.placement = .ok url) :
    Located libraries admission draft url ∧ url.scheme = https ∧ url.username = "" ∧
      url.password = none := by
  rw [locate] at located
  cases resolved : admission.resolve draft.url draft.placement with
  | error refusal =>
      rw [resolved] at located
      cases located
  | ok pair =>
      obtain ⟨text, host⟩ := pair
      rw [resolved] at located
      dsimp only at located
      by_cases opens : mentions text = true
      · rw [if_pos opens] at located
        cases located
      rw [if_neg opens] at located
      cases read : libraries.parse text with
      | error reason =>
          rw [read] at located
          cases located
      | ok parsed =>
          rw [read] at located
          dsimp only at located
          by_cases scheme : parsed.scheme ≠ https
          · rw [if_pos scheme] at located
            cases located
          rw [if_neg scheme] at located
          split at located
          · cases located
          rename_i kept
          cases located
          rw [not_or, not_or, Bool.not_eq_true', Bool.not_eq_false] at kept
          obtain ⟨username, password, whole⟩ := kept
          refine ⟨?_, not_not.mp scheme, not_not.mp username,
            Option.not_isSome_iff_eq_none.mp password⟩
          unfold resolve at resolved
          dsimp only at resolved
          split at resolved
          · cases resolved
            exact .written (Bool.eq_false_iff.mpr opens) read
          · rename_i name rest named
            split at resolved
            · cases resolved
            · rename_i own held
              cases resolved
              have may : draft.placement = .authorization := by
                cases place : draft.placement with
                | authorization => rfl
                | nowhere =>
                    rw [place] at named
                    cases named
              rw [may] at named
              obtain ⟨shown, here, same⟩ := (Option.any_eq_true _ _).mp whole
              exact .host name rest own shown may named held (Bool.eq_false_iff.mpr opens) read
                here same

structure Passed (libraries : Libraries) (admission : Admission) (draft : Draft)
    (admitted : Admitted) : Prop where
  method : sendable draft.method = .ok admitted.method
  url : Located libraries admission draft admitted.url
  https : admitted.url.scheme = Egress.https
  body : admitted.body = draft.body ∧ ∀ body, draft.body = some body → mentions body = false
  headers : admitted.headers = draft.headers ∧ ∀ header ∈ draft.headers, ∃ secrets,
    headerSecrets header.1 header.2 draft.placement = .ok secrets ∧
      ∀ secret ∈ secrets, Bound admission secret (admitted.url.hostStr.getD "")
  origin : ∃ matched, admission.originAdmits libraries admitted.method admitted.url draft.body
    = .ok matched

theorem admitDraft_ok {draft : Draft} {admitted : Admitted}
    (passes : admission.admitDraft libraries draft = .ok admitted) :
    Passed libraries admission draft admitted := by
  rw [admitDraft] at passes
  obtain ⟨method, sends, passes⟩ := Core.bind_eq_ok.mp passes
  obtain ⟨url, located, passes⟩ := Core.bind_eq_ok.mp passes
  obtain ⟨credentials, places, passes⟩ := Core.bind_eq_ok.mp passes
  obtain ⟨_, _, passes⟩ := Core.bind_eq_ok.mp passes
  obtain ⟨_, _, passes⟩ := Core.bind_eq_ok.mp passes
  obtain ⟨_, binds, passes⟩ := Core.bind_eq_ok.mp passes
  obtain ⟨matched, origin, passes⟩ := Core.bind_eq_ok.mp passes
  obtain ⟨_, _, passes⟩ := Core.bind_eq_ok.mp passes
  cases passes
  obtain ⟨here, https, _, _⟩ := locate_ok located
  obtain ⟨body, headers⟩ := placed_ok places
  refine ⟨sends, here, https, ⟨rfl, body⟩, ⟨rfl, ?_⟩, ⟨matched, origin⟩⟩
  intro header member
  obtain ⟨secrets, held, inside⟩ := headersSecrets_ok headers header member
  exact ⟨secrets, held, fun secret listed => boundAll_ok binds secret (inside secret listed)⟩

end Admission

end Agentsfleet.Egress
