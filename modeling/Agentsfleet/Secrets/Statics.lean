import Agentsfleet.Core.Json

/-!
# Static credentials

A lease's `secrets_map` as every caller reads it: a credential is an object of string
fields, and its `host` field names where it may be sent rather than holding a secret.
-/

set_option autoImplicit false

namespace Agentsfleet.Secrets

open Agentsfleet.Core (Json Members)

def fieldHost : String := "host"

def fieldToken : String := "token"

def asObject : Json → Option Members
  | .object members => some members
  | _ => none

structure StaticSecrets where
  credentials : Option Members

namespace StaticSecrets

def fields (statics : StaticSecrets) (name : String) : Option Members :=
  statics.credentials.bind fun credentials => (credentials.get? name).bind asObject

/-- The string field `field` of credential `name`. -/
def field (statics : StaticSecrets) (name field : String) : Option String :=
  (statics.fields name).bind fun fields => (fields.get? field).bind Json.asStr

/-- The names of credential `name`'s string fields, never their values. -/
def fieldNames (statics : StaticSecrets) (name : String) : Option (List String) :=
  (statics.fields name).map fun fields =>
    (fields.filter fun member => member.2.asStr.isSome).map Prod.fst

/-- The host credential `name` may be sent to. -/
def host (statics : StaticSecrets) (name : String) : Option String := statics.field name fieldHost

/-- Every secret value as `(name.field, value)`: each string field except `host`. -/
def values (statics : StaticSecrets) : List (String × String) :=
  (statics.credentials.getD []).flatMap fun (name, credential) =>
    ((asObject credential).getD []).filterMap fun (field, value) =>
      if field = fieldHost then none else value.asStr.map fun text => (name ++ "." ++ field, text)

theorem mem_values {statics : StaticSecrets} {name field value : String}
    (held : statics.field name field = some value) (secret : field ≠ fieldHost) :
    (name ++ "." ++ field, value) ∈ statics.values := by
  simp only [StaticSecrets.field, fields, Option.bind_eq_some_iff] at held
  obtain ⟨members, ⟨credentials, carried, credential, named, object⟩, found, inside, text⟩ := held
  rw [values, carried, List.mem_flatMap]
  refine ⟨(name, credential), Members.mem_of_get? named, ?_⟩
  simp only [object, Option.getD_some, List.mem_filterMap]
  exact ⟨(field, found), Members.mem_of_get? inside, by rw [if_neg secret, text]; rfl⟩

end StaticSecrets

end Agentsfleet.Secrets
