import Mathlib.Data.List.Infix
import Mathlib.Data.List.Nodup
import Agentsfleet.Core.Json
import Agentsfleet.Egress.Request

/-!
# Origin rules

A host with rules is reached only by a request one rule admits: the method, the path
exactly or by prefix, and every field the rule locks.  A rule that lists its permitted
fields is closed to every other key and to a query.
-/

set_option autoImplicit false

namespace Agentsfleet.Egress

open Agentsfleet.Core (Json Members)

/-! ## Rules as the daemon sends them -/

inductive HttpMethod where
  | get
  | head
  | post
  | patch
deriving DecidableEq, Repr

inductive HttpPathMatch where
  | exact
  | begins
deriving DecidableEq, Repr

/-- One required top-level field, with exactly one expected value set. -/
structure HttpJsonFieldRule where
  name : String
  stringValue : Option String
  booleanValue : Option Bool
deriving DecidableEq, Repr

structure HttpRequestRule where
  method : HttpMethod
  path : String
  pathMatch : HttpPathMatch
  jsonFields : List HttpJsonFieldRule
  permittedFields : Option (List String)
deriving DecidableEq, Repr

structure HttpOriginPolicy where
  host : String
  credentialNames : List String
  requests : List HttpRequestRule
deriving DecidableEq, Repr

/-! ## Paths -/

def httpsPort : Nat := 443

/-- Escapes a server may decode into `.`, `/` or `\` after the rule matched. -/
def encodedSeparators : List String := ["%2e", "%2f", "%5c"]

/-- Segments that walk the tree instead of naming a place in it. -/
def dotSegments : List String := [".", ".."]

def segments (path : String) : List String := (path.toList.splitOn '/').map String.ofList

def contains (text part : String) : Bool := decide (part.toList <:+: text.toList)

def asciiLowercase (text : String) : String := String.ofList (text.toList.map Char.toLower)

/-- Whether `url` is on port 443 and its path holds no escape or dot segment. -/
def trustedPath (url : Url) : Bool :=
  url.port == some httpsPort
    && !url.path.toList.contains '\\'
    && !encodedSeparators.any (contains (asciiLowercase url.path))
    && !(segments url.path).any fun segment => dotSegments.contains segment

def methodOf : HttpMethod → Method
  | .get => .get
  | .head => .head
  | .post => .post
  | .patch => .patch

def pathAdmits (matching : HttpPathMatch) (rule path : String) : Bool :=
  match matching with
  | .exact => path == rule
  | .begins => decide (rule.toList <+: path.toList)

/-! ## Bodies -/

/-- A body's top-level fields, each key written once. -/
structure Fields where
  members : Members
  once : (members.map Prod.fst).Nodup

/-- The entries of an object in the order they are read, the second of two equal keys
refused. -/
def visitMap : Members → List (String × Json) → Option Members
  | fields, [] => some fields
  | fields, (key, value) :: rest =>
      if (fields.get? key).isSome then none else visitMap (fields ++ [(key, value)]) rest

theorem get?_isSome {members : Members} {key : String} :
    (members.get? key).isSome = true ↔ key ∈ members.map Prod.fst := by
  rw [Members.get?, Option.isSome_map, List.find?_isSome, List.mem_map]
  simp only [decide_eq_true_eq]

theorem visitMap_spec (fields : Members) {entries read : Members}
    (once : (fields.map Prod.fst).Nodup) (visited : visitMap fields entries = some read) :
    read = fields ++ entries ∧ (read.map Prod.fst).Nodup := by
  induction entries generalizing fields with
  | nil =>
      have same : fields = read := Option.some.inj visited
      exact ⟨by rw [List.append_nil, same], same ▸ once⟩
  | cons entry rest ih =>
      obtain ⟨key, value⟩ := entry
      by_cases seen : (fields.get? key).isSome = true
      · rw [visitMap, if_pos seen] at visited
        cases visited
      · rw [visitMap, if_neg seen] at visited
        rw [get?_isSome] at seen
        have once' : ((fields ++ [(key, value)]).map Prod.fst).Nodup := by
          rw [List.map_append, List.nodup_append]
          refine ⟨once, List.nodup_singleton key, ?_⟩
          intro held inside written last
          rw [List.map_singleton, List.mem_singleton] at last
          intro same
          rw [same, last] at inside
          exact seen inside
        obtain ⟨same, keys⟩ := ih _ once' visited
        rw [List.append_assoc, List.singleton_append] at same
        exact ⟨same, keys⟩

section Matcher

-- what a JSON reader finds at the top level of a text, `none` where it is not one object
variable (entries : String → Option Members)

/-- A body read as fields, when it is an object whose keys are each written once. -/
def Fields.fromStr (body : String) : Option Fields :=
  match entries body with
  | none => none
  | some found =>
      match visited : visitMap [] found with
      | none => none
      | some members => some ⟨members, (visitMap_spec [] List.nodup_nil visited).2⟩

/-- What a request carries beyond its method and path. -/
structure Sent where
  query : Bool
  body : Bool
  fields : Option Fields

/-- Whether the body's top-level field holds exactly the value `locked` names. -/
def fieldAdmits (locked : HttpJsonFieldRule) (fields : Fields) : Bool :=
  match fields.members.get? locked.name with
  | none => false
  | some value =>
      match locked.stringValue, locked.booleanValue with
      | some expected, none => value.asStr == some expected
      | none, some expected => value.asBool == some expected
      | _, _ => false

/-- Whether `rule` lists its whole key set, which closes it to every other. -/
def closed (rule : HttpRequestRule) : Bool := rule.permittedFields.isSome

/-- Whether `key` is one of the fields `rule` locks or permits. -/
def named (rule : HttpRequestRule) (key : String) : Bool :=
  rule.jsonFields.any (fun locked => locked.name == key)
    || (rule.permittedFields.getD []).any fun permitted => permitted == key

/-- Whether `sent` carries no query and no top-level key `rule` does not name. -/
def sendsOnlyNamed (rule : HttpRequestRule) (sent : Sent) : Bool :=
  let keysNamed :=
    match sent.body, sent.fields with
    | false, _ => true
    | true, some fields => fields.members.all fun member => named rule member.1
    | true, none => false
  !sent.query && keysNamed

def ruleAdmits (rule : HttpRequestRule) (method : Method) (path : String) (sent : Sent) : Bool :=
  method == methodOf rule.method
    && pathAdmits rule.pathMatch rule.path path
    && rule.jsonFields.all (fun locked =>
      match sent.fields with
      | some fields => fieldAdmits locked fields
      | none => false)
    && (!closed rule || sendsOnlyNamed rule sent)

/-- What `url` and `body` carry. -/
def sent (url : Url) (body : Option String) : Sent :=
  { query := url.query.isSome
    body := body.isSome
    fields := body.bind (Fields.fromStr entries) }

/-- Whether `origin`'s rules admit `method` at `url` carrying `body`. -/
def admits (origin : HttpOriginPolicy) (method : Method) (url : Url) (body : Option String) :
    Bool :=
  trustedPath url
    && origin.requests.any fun rule => ruleAdmits rule method url.path (sent entries url body)

/-! ## What an admitted request carries -/

theorem Fields.fromStr_members {text : String} {fields : Fields}
    (read : Fields.fromStr entries text = some fields) : entries text = some fields.members := by
  rw [Fields.fromStr] at read
  split at read
  · cases read
  · rename_i found listed
    split at read
    · cases read
    · rename_i members visited
      have same := (visitMap_spec [] List.nodup_nil visited).1
      cases read
      exact listed.trans (congrArg some same.symm)

theorem ruleAdmits_spec {rule : HttpRequestRule} {method : Method} {path : String} {sent : Sent}
    (admitted : ruleAdmits rule method path sent = true) :
    method = methodOf rule.method ∧ pathAdmits rule.pathMatch rule.path path = true ∧
      (∀ locked ∈ rule.jsonFields, ∃ fields, sent.fields = some fields ∧
        fieldAdmits locked fields = true) ∧
      (closed rule = true → sendsOnlyNamed rule sent = true) := by
  simp only [ruleAdmits, Bool.and_eq_true, Bool.or_eq_true, beq_iff_eq, Bool.not_eq_true',
    List.all_eq_true] at admitted
  obtain ⟨⟨⟨same, at_path⟩, holds⟩, only⟩ := admitted
  refine ⟨same, at_path, ?_, ?_⟩
  · intro locked member
    have here := holds locked member
    cases read : sent.fields with
    | none =>
        rw [read] at here
        cases here
    | some fields =>
        rw [read] at here
        exact ⟨fields, rfl, here⟩
  · intro lists
    rcases only with open_ | named_
    · rw [lists] at open_
      cases open_
    · exact named_

theorem fieldAdmits_string {name value : String} {fields : Fields}
    (holds : fieldAdmits ⟨name, some value, none⟩ fields = true) :
    fields.members.get? name = some (.string value) := by
  rw [fieldAdmits] at holds
  split at holds
  · cases holds
  · rename_i held found
    rw [found]
    cases held <;> simp_all [Json.asStr]

theorem fieldAdmits_bool {name : String} {value : Bool} {fields : Fields}
    (holds : fieldAdmits ⟨name, none, some value⟩ fields = true) :
    fields.members.get? name = some (.bool value) := by
  rw [fieldAdmits] at holds
  split at holds
  · cases holds
  · rename_i held found
    rw [found]
    cases held <;> simp_all [Json.asBool]

structure Trusted (url : Url) : Prop where
  port : url.port = some 443
  no_backslash : '\\' ∉ url.path.toList
  no_escape : ∀ escape ∈ encodedSeparators, ¬ escape.toList <:+: (asciiLowercase url.path).toList
  no_dots : ∀ segment ∈ segments url.path, segment ∉ dotSegments

theorem trustedPath_iff (url : Url) : trustedPath url = true ↔ Trusted url := by
  simp only [trustedPath, Bool.and_eq_true, beq_iff_eq, Bool.not_eq_true', List.any_eq_false,
    contains, decide_eq_true_eq, httpsPort]
  constructor
  · rintro ⟨⟨⟨port, plain⟩, escapes⟩, dots⟩
    refine ⟨port, ?_, escapes, ?_⟩
    · intro member
      rw [List.contains_iff_mem.mpr member] at plain
      cases plain
    · intro segment member listed
      exact dots segment member (List.contains_iff_mem.mpr listed)
  · rintro ⟨port, plain, escapes, dots⟩
    refine ⟨⟨⟨port, ?_⟩, escapes⟩, ?_⟩
    · exact Bool.eq_false_iff.mpr fun member => plain (List.contains_iff_mem.mp member)
    · intro segment member listed
      exact dots segment member (List.contains_iff_mem.mp listed)

/-! ## Refusals -/

def keyEchoMax : Nat := 64

/-- Why a closed rule refused a request its method and path match: a query. -/
def queryRefused : String := "it carries a query string, which this rule does not admit"

/-- The sentence naming the first key a closed rule does not list; `quoted` is the text
in quotes with its escapes. -/
def keyRefused (quoted : String → String) (key : String) : String :=
  "it sends " ++ quoted (String.ofList (key.toList.take keyEchoMax))
    ++ ", which this rule does not list"

/-- Why a closed rule at `method` and `url`'s path refused this request. -/
def closedRefusal (quoted : String → String) (origin : HttpOriginPolicy) (method : Method)
    (url : Url) (body : Option String) : Option String :=
  if !trustedPath url then none
  else
    match origin.requests.find? fun rule =>
        method == methodOf rule.method && pathAdmits rule.pathMatch rule.path url.path
          && closed rule with
    | none => none
    | some rule =>
        if url.query.isSome then some queryRefused
        else
          match body.bind (Fields.fromStr entries) with
          | none => none
          | some fields =>
              (fields.members.find? fun member => !named rule member.1).map
                fun member => keyRefused quoted member.1

end Matcher

end Agentsfleet.Egress
