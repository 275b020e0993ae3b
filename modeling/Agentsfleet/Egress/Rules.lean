import Agentsfleet.Egress.Admission

/-!
# A repository binding as request rules

What the daemon compiles a binding into: the breadth of a bound repository's reads under
a prefix, and for a write the few requests that publish one branch and one draft, each at
its exact path.
-/

set_option autoImplicit false

namespace Agentsfleet.Egress

open Agentsfleet.Core (Json Members)

def apiHost : String := "api.github.com"

def credentialGithub : String := "github"

def detailNoRepairBranch : String := "a write binding needs the branch its lease authorised"

def detailNotExactlyOneRepository : String := "a write binding bounds exactly one repository"

/-- How far a binding reaches, a write with the base it opens against. -/
inductive Reach where
  | read
  | write (base : String)
deriving DecidableEq, Repr

inductive RepositoryPublication where
  | eventDraft
  | existingPr
deriving DecidableEq, Repr

structure RepositoryBinding where
  repositories : List String
  reach : Reach
  publication : RepositoryPublication
deriving DecidableEq, Repr

namespace Rules

/-- The API path of `suffix` under `repository`. -/
def path (repository suffix : String) : String := "/repos/" ++ repository ++ suffix

def refsHeads : String := "refs/heads/"
def refsPath : String := "/git/refs"
def commitsPath : String := "/git/commits"
def pullsPath : String := "/pulls"

/-! ## Reading -/

def subtree : String := "/"

def readMethods : List HttpMethod := [.get, .head]

def readRules (repository : String) : List HttpRequestRule :=
  readMethods.map fun method =>
    { method
      path := path repository subtree
      pathMatch := .begins
      jsonFields := []
      permittedFields := none }

/-! ## Writing -/

/-- The endpoints a write binding may POST to with nothing locked. -/
def openObjectPaths : List String := ["/git/blobs", "/git/trees"]

def commitFields : List String := ["message", "tree", "parents"]

/-- What a ref creation may carry beside the ref it is locked to. -/
def refFields : List String := ["sha"]

/-- What a Pull Request may carry beside its three locked fields. -/
def pullFields : List String := ["title", "body", "maintainer_can_modify"]

/-- One POST admitted at an exact path, with `fields` locked and `permitted` admitted
beside them. -/
def exactPost (repository suffix : String) (fields : List HttpJsonFieldRule)
    (permitted : Option (List String)) : HttpRequestRule :=
  { method := .post
    path := path repository suffix
    pathMatch := .exact
    jsonFields := fields
    permittedFields := permitted }

/-- A rule pinning `name` to exactly `value`. -/
def locked (name value : String) : HttpJsonFieldRule := ⟨name, some value, none⟩

/-- A continuation can only fast-forward the current event-owned branch. -/
def refUpdate (repository branch : String) : HttpRequestRule :=
  { method := .patch
    path := path repository (refsPath ++ "/heads/" ++ branch)
    pathMatch := .exact
    jsonFields := [⟨"force", none, some false⟩]
    permittedFields := some ["sha"] }

def writeRulesOf (repository base branch : String) : List HttpRequestRule :=
  openObjectPaths.map (fun suffix => exactPost repository suffix [] none)
    ++ [exactPost repository commitsPath [] (some commitFields),
      exactPost repository refsPath [locked "ref" (refsHeads ++ branch)] (some refFields),
      exactPost repository pullsPath
        [locked "head" branch, locked "base" base, ⟨"draft", none, some true⟩] (some pullFields),
      refUpdate repository branch]

def writeRules (binding : RepositoryBinding) (base : String) (repairBranch : Option String) :
    Except String (List HttpRequestRule) :=
  match repairBranch with
  | none => .error detailNoRepairBranch
  | some branch =>
      match binding.repositories with
      | [repository] => .ok (writeRulesOf repository base branch)
      | _ => .error detailNotExactlyOneRepository

def extension (binding : RepositoryBinding) (repairBranch : Option String) :
    Except String (List HttpRequestRule) :=
  match binding.reach, binding.publication with
  | .write base, .eventDraft => writeRules binding base repairBranch
  | _, _ => .ok []

def build (binding : RepositoryBinding) (repairBranch : Option String) :
    Except String (List HttpOriginPolicy) :=
  match extension binding repairBranch with
  | .error detail => .error detail
  | .ok writes =>
      .ok [{ host := apiHost
             credentialNames := [credentialGithub]
             requests := binding.repositories.flatMap readRules ++ writes }]

/-! ## What the rules admit -/

section Confined

variable (entries : String → Option Members)

/-- The body holds `value` at `key`, in an object. -/
def Holds (body : Option String) (key : String) (value : Json) : Prop :=
  ∃ text members, body = some text ∧ entries text = some members ∧
    members.get? key = some value

/-- No query is sent, and a body that is sent is an object with no key but the listed
ones, each written once. -/
def SendsOnly (url : Url) (body : Option String) (keys : List String) : Prop :=
  url.query = none ∧ ∀ text, body = some text → ∃ members, entries text = some members ∧
    (members.map Prod.fst).Nodup ∧ ∀ key ∈ members.map Prod.fst, key ∈ keys

/-- The requests beyond reads that a write of `repository` admits. -/
inductive Writes (repository base branch : String) (method : Method) (url : Url)
    (body : Option String) : Prop
  | object (suffix : String) (listed : suffix ∈ openObjectPaths) (posts : method = .post)
      (at_path : url.path = path repository suffix)
  | commit (posts : method = .post) (at_path : url.path = path repository commitsPath)
      (only : SendsOnly entries url body ["message", "tree", "parents"])
  | createRef (posts : method = .post) (at_path : url.path = path repository refsPath)
      (only : SendsOnly entries url body ["ref", "sha"])
      (ref : Holds entries body "ref" (.string (refsHeads ++ branch)))
  | pull (posts : method = .post) (at_path : url.path = path repository pullsPath)
      (only : SendsOnly entries url body
        ["head", "base", "draft", "title", "body", "maintainer_can_modify"])
      (head : Holds entries body "head" (.string branch))
      (base_ : Holds entries body "base" (.string base))
      (draft : Holds entries body "draft" (.bool true))
  | updateRef (patches : method = .patch)
      (at_path : url.path = path repository (refsPath ++ "/heads/" ++ branch))
      (only : SendsOnly entries url body ["force", "sha"])
      (force : Holds entries body "force" (.bool false))

variable {entries}

theorem sendsOnly_of {rule : HttpRequestRule} {url : Url} {body : Option String}
    (only : sendsOnlyNamed rule (sent entries url body) = true) :
    SendsOnly entries url body
      (rule.jsonFields.map HttpJsonFieldRule.name ++ rule.permittedFields.getD []) := by
  simp only [sendsOnlyNamed, sent, Bool.and_eq_true, Bool.not_eq_true',
    Option.isSome_eq_false_iff, Option.isNone_iff_eq_none] at only
  obtain ⟨query, keys⟩ := only
  refine ⟨query, ?_⟩
  intro text carried
  subst carried
  simp only [Option.isSome_some, Option.bind_some] at keys
  cases read : Fields.fromStr entries text with
  | none =>
      rw [read] at keys
      cases keys
  | some fields =>
      rw [read] at keys
      refine ⟨fields.members, Fields.fromStr_members entries read, fields.once, ?_⟩
      intro key member
      obtain ⟨entry, listed, same⟩ := List.mem_map.mp member
      have here := List.all_eq_true.mp keys entry listed
      rw [named, same, Bool.or_eq_true, List.any_eq_true, List.any_eq_true] at here
      rcases here with ⟨rule_, listed_, spelled⟩ | ⟨permitted, listed_, spelled⟩
      · rw [← beq_iff_eq.mp spelled]
        exact List.mem_append_left _ (List.mem_map_of_mem listed_)
      · rw [← beq_iff_eq.mp spelled]
        exact List.mem_append_right _ listed_

theorem holds_of {url : Url} {body : Option String} {fields : Fields} {key : String} {value : Json}
    (read : (sent entries url body).fields = some fields)
    (found : fields.members.get? key = some value) : Holds entries body key value := by
  obtain ⟨text, carried, parsed⟩ := Option.bind_eq_some_iff.mp read
  exact ⟨text, fields.members, carried, Fields.fromStr_members entries parsed, found⟩

theorem readRules_admits {repository : String} {rule : HttpRequestRule} {method : Method}
    {url : Url} {body : Option String} (member : rule ∈ readRules repository)
    (admitted : ruleAdmits rule method url.path (sent entries url body) = true) :
    (method = .get ∨ method = .head) ∧
      (path repository subtree).toList <+: url.path.toList := by
  obtain ⟨same, at_path, _, _⟩ := ruleAdmits_spec admitted
  obtain ⟨reads, listed, here⟩ := List.mem_map.mp member
  subst here
  refine ⟨?_, of_decide_eq_true at_path⟩
  rcases List.mem_cons.mp listed with get | head
  · rw [get] at same
    exact Or.inl same
  · rw [List.mem_singleton.mp head] at same
    exact Or.inr same

theorem writeRules_admits {repository base branch : String} {rule : HttpRequestRule}
    {method : Method} {url : Url} {body : Option String}
    (member : rule ∈ writeRulesOf repository base branch)
    (admitted : ruleAdmits rule method url.path (sent entries url body) = true) :
    Writes entries repository base branch method url body := by
  obtain ⟨same, at_path, holds, only⟩ := ruleAdmits_spec admitted
  rcases List.mem_append.mp member with object | other
  · obtain ⟨suffix, listed, here⟩ := List.mem_map.mp object
    subst here
    exact .object suffix listed same (beq_iff_eq.mp at_path)
  · simp only [List.mem_cons, List.not_mem_nil, or_false] at other
    rcases other with commit | ref | pull | update
    · subst commit
      exact .commit same (beq_iff_eq.mp at_path) (sendsOnly_of (only rfl))
    · subst ref
      obtain ⟨fields, read, held⟩ := holds _ List.mem_cons_self
      exact .createRef same (beq_iff_eq.mp at_path) (sendsOnly_of (only rfl))
        (holds_of read (fieldAdmits_string held))
    · subst pull
      obtain ⟨fields, read, head⟩ := holds _ List.mem_cons_self
      obtain ⟨fields', read', base_⟩ := holds _ (List.mem_cons_of_mem _ List.mem_cons_self)
      obtain ⟨fields'', read'', draft⟩ :=
        holds _ (List.mem_cons_of_mem _ (List.mem_cons_of_mem _ List.mem_cons_self))
      exact .pull same (beq_iff_eq.mp at_path) (sendsOnly_of (only rfl))
        (holds_of read (fieldAdmits_string head)) (holds_of read' (fieldAdmits_string base_))
        (holds_of read'' (fieldAdmits_bool draft))
    · subst update
      obtain ⟨fields, read, force⟩ := holds _ List.mem_cons_self
      exact .updateRef same (beq_iff_eq.mp at_path) (sendsOnly_of (only rfl))
        (holds_of read (fieldAdmits_bool force))

theorem extension_rules {binding : RepositoryBinding} {repairBranch : Option String}
    {writes : List HttpRequestRule} (extended : extension binding repairBranch = .ok writes)
    {rule : HttpRequestRule} (member : rule ∈ writes) :
    ∃ repository base branch, binding.repositories = [repository] ∧
      binding.reach = .write base ∧ binding.publication = .eventDraft ∧
      repairBranch = some branch ∧ rule ∈ writeRulesOf repository base branch := by
  rw [extension] at extended
  split at extended
  · rename_i base reach publication
    unfold writeRules at extended
    cases branch : repairBranch with
    | none =>
        rw [branch] at extended
        cases extended
    | some named_ =>
        rw [branch] at extended
        dsimp only at extended
        split at extended
        · rename_i repository one
          cases extended
          exact ⟨repository, base, named_, one, reach, publication, rfl, member⟩
        · cases extended
  · cases extended
    cases member

theorem build_rules {binding : RepositoryBinding} {repairBranch : Option String}
    {policies : List HttpOriginPolicy} {policy : HttpOriginPolicy}
    (built : build binding repairBranch = .ok policies) (member : policy ∈ policies) :
    policy.host = apiHost ∧ ∀ rule ∈ policy.requests,
      (∃ repository ∈ binding.repositories, rule ∈ readRules repository) ∨
        ∃ writes, extension binding repairBranch = .ok writes ∧ rule ∈ writes := by
  rw [build] at built
  cases extended : extension binding repairBranch with
  | error detail =>
      rw [extended] at built
      cases built
  | ok writes =>
      rw [extended] at built
      cases built
      rw [List.mem_singleton.mp member]
      refine ⟨rfl, ?_⟩
      intro rule listed
      rcases List.mem_append.mp listed with read | write
      · obtain ⟨repository, bound, here⟩ := List.mem_flatMap.mp read
        exact Or.inl ⟨repository, bound, here⟩
      · exact Or.inr ⟨writes, rfl, write⟩

/-- What a binding's rules admit stays in its repositories: a read beneath one of them, or
one of the listed writes of its only one. -/
theorem build_confines {binding : RepositoryBinding} {repairBranch : Option String}
    {policies : List HttpOriginPolicy} {policy : HttpOriginPolicy} {method : Method} {url : Url}
    {body : Option String} (built : build binding repairBranch = .ok policies)
    (member : policy ∈ policies) (admitted : admits entries policy method url body = true) :
    Trusted url ∧
      ((∃ repository ∈ binding.repositories, (method = .get ∨ method = .head) ∧
          (path repository subtree).toList <+: url.path.toList) ∨
        ∃ repository base branch, binding.repositories = [repository] ∧
          binding.reach = .write base ∧ binding.publication = .eventDraft ∧
          repairBranch = some branch ∧ Writes entries repository base branch method url body) := by
  rw [admits, Bool.and_eq_true, List.any_eq_true] at admitted
  obtain ⟨trusted, rule, listed, holds⟩ := admitted
  refine ⟨(trustedPath_iff url).mp trusted, ?_⟩
  rcases (build_rules built member).2 rule listed with ⟨repository, bound, read⟩ | extends_
  · exact Or.inl ⟨repository, bound, readRules_admits read holds⟩
  · obtain ⟨writes, extended, added⟩ := extends_
    obtain ⟨repository, base, branch, one, reach, publication, named_, write⟩ :=
      extension_rules extended added
    exact Or.inr ⟨repository, base, branch, one, reach, publication, named_,
      writeRules_admits write holds⟩

end Confined

theorem origin_some {admission : Admission} {host : String} {origin : HttpOriginPolicy}
    (found : admission.origin host = some origin) :
    origin ∈ admission.origins ∧ eqIgnoreAsciiCase origin.host host = true := by
  rw [Admission.origin] at found
  have same := List.find?_some found
  exact ⟨List.mem_of_find?_eq_some found, same⟩

/-- A binding's rules and their matcher confine a run.  What the matcher admits is a read
beneath a bound repository or a listed write of the only one, on port 443, with no dot
segment and no escape of one; and admission asks the rules only of the policy's host. -/
theorem rules_confine (libraries : Libraries) (binding : RepositoryBinding)
    (repairBranch : Option String) (policies : List HttpOriginPolicy)
    (built : build binding repairBranch = .ok policies) :
    (∀ policy ∈ policies, ∀ (method : Method) (url : Url) (body : Option String),
      admits libraries.entries policy method url body = true →
        Trusted url ∧
          ((∃ repository ∈ binding.repositories, (method = .get ∨ method = .head) ∧
              (path repository subtree).toList <+: url.path.toList) ∨
            ∃ repository base branch, binding.repositories = [repository] ∧
              binding.reach = .write base ∧ binding.publication = .eventDraft ∧
              repairBranch = some branch ∧
              Writes libraries.entries repository base branch method url body)) ∧
      ∀ admission : Admission, admission.origins = policies →
        ∀ (method : Method) (url : Url) (body : Option String),
          admission.originAdmits libraries method url body = .ok true →
            (∃ host, url.hostStr = some host ∧ eqIgnoreAsciiCase apiHost host = true) ∧
              ∃ policy ∈ policies, admits libraries.entries policy method url body = true := by
  refine ⟨fun policy member method url body => build_confines built member, ?_⟩
  intro admission held method url body admitted
  rw [Admission.originAdmits] at admitted
  cases found : admission.origin (url.hostStr.getD "") with
  | none =>
      rw [found] at admitted
      cases admitted
  | some origin =>
      rw [found] at admitted
      dsimp only at admitted
      obtain ⟨member, same⟩ := origin_some found
      rw [held] at member
      have here := (build_rules built member).1
      rw [here] at same
      by_cases admits_ : admits libraries.entries origin method url body = true
      · refine ⟨?_, origin, member, admits_⟩
        cases named : url.hostStr with
        | none =>
            rw [named] at same
            exact absurd same (by decide)
        | some host =>
            rw [named, Option.getD_some] at same
            exact ⟨host, rfl, same⟩
      · rw [if_neg admits_] at admitted
        cases admitted

/-- The URL of `path` at `host`. -/
def urlAt (host path : String) : Url :=
  { scheme := "https"
    username := ""
    password := none
    host := some (.domain host)
    hostStr := some host
    port := some 443
    path
    query := none
    text := "https://" ++ host ++ path }

/-- Libraries that read no text as an object: what no request below needs. -/
def noObjects (parse : String → Except String Url) : Libraries :=
  { parse
    showV4 := fun _ => ""
    showV6 := fun _ => ""
    entries := fun _ => none
    quoted := id }

def widgets : RepositoryBinding := ⟨["acme/widgets"], .write "dev", .eventDraft⟩

def widgetsPolicy : HttpOriginPolicy :=
  { host := apiHost
    credentialNames := [credentialGithub]
    requests := readRules "acme/widgets" ++ writeRulesOf "acme/widgets" "dev" "repair" }

theorem widgets_confined : Trusted (urlAt apiHost "/repos/acme/widgets/pulls") ∧
    ∃ host, (urlAt apiHost "/repos/acme/widgets/pulls").hostStr = some host ∧
      eqIgnoreAsciiCase apiHost host = true := by
  have built : build widgets (some "repair") = .ok [widgetsPolicy] := rfl
  have confined := rules_confine (noObjects fun _ => .error "") widgets (some "repair")
    [widgetsPolicy] built
  refine ⟨(confined.1 widgetsPolicy List.mem_cons_self .get _ none (by decide +kernel)).1, ?_⟩
  exact (confined.2 ⟨⟨.publicly, false, [], false, []⟩, [widgetsPolicy], [], ⟨none⟩⟩ rfl
    .get _ none (by decide +kernel)).1

/-- A blob with any body, a commit with none, an empty segment and another host: none is
refused by the rules and their matcher. -/
theorem widgets_admits_more : build widgets (some "repair") = .ok [widgetsPolicy] ∧
    admits (fun _ => none) widgetsPolicy .post (urlAt apiHost "/repos/acme/widgets/git/blobs")
      (some "not an object") = true ∧
    admits (fun _ => none) widgetsPolicy .post (urlAt apiHost "/repos/acme/widgets/git/commits")
      none = true ∧
    admits (fun _ => none) widgetsPolicy .get (urlAt apiHost "/repos/acme/widgets//pulls")
      none = true ∧
    admits (fun _ => none) widgetsPolicy .get (urlAt "elsewhere" "/repos/acme/widgets/pulls")
      none = true :=
  ⟨rfl, by decide +kernel, by decide +kernel, by decide +kernel, by decide +kernel⟩

end Rules

end Agentsfleet.Egress
