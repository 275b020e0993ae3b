import Agentsfleet.Library.Links
import Agentsfleet.Library.SortedMap
import Agentsfleet.Recovery.Manifest
import Agentsfleet.Recovery.Path

/-!
# The runner's link graph

A capture and a restore resolve every link of the workspace before they accept
it, each from its own directory, against the same link map.
-/

set_option autoImplicit false

namespace Agentsfleet.Recovery

open Agentsfleet.Library

inductive LinkError where
  | pathText
  | escapesWorkspace
  | resolutionBound
  | chainEscapes
  | cyclicOrTooDeep
deriving DecidableEq

/-- The validation of `PathText`. -/
def pathText (value : String) : Bool := lengthBytes 1 4096 value && pathCharacters value

/-- One component of `Path::new(target).components()` in `valid_link`'s count. -/
def linkDepth : Nat → List String → Option Nat
  | depth, [] => some depth
  | depth, part :: rest =>
      if part = "" ∨ part = "." then linkDepth depth rest
      else if part = ".." then if 0 < depth then linkDepth (depth - 1) rest else none
      else linkDepth (depth + 1) rest

def validLink (path target : String) : Except LinkError Unit :=
  if pathText target = false then .error .pathText
  -- An absolute target begins with a root component.
  else if target.toList.head? = some '/' then .error .escapesWorkspace
  else if (linkDepth ((split path).length - 1) (split target)).isNone then .error .escapesWorkspace
  else .ok ()

def maxComponents : Nat := 8192

def maxFollowed : Nat := 40

/-- The loop of `validate` for one link; `left` is what the component bound leaves. -/
def walk (links : SortedMap String String) :
    Nat → Nat → List String → List String → Except LinkError Unit
  | _, _, _, [] => .ok ()
  | 0, _, _, _ :: _ => .error .resolutionBound
  | left + 1, followed, resolved, part :: pending =>
      if part = "" ∨ part = "." then walk links left followed resolved pending
      else if part = ".." then
        if resolved = [] then .error .chainEscapes
        else walk links left followed resolved.dropLast pending
      else
        match links.get (join (resolved ++ [part])) with
        | none => walk links left followed (resolved ++ [part]) pending
        | some target =>
            if maxFollowed < followed + 1 then .error .cyclicOrTooDeep
            else walk links left (followed + 1) resolved (split target ++ pending)

def validateEach (links : SortedMap String String) : List (String × String) → Except LinkError Unit
  | [] => .ok ()
  | (path, target) :: rest => do
      validLink path target
      walk links maxComponents 0 (parentParts path) (split target)
      validateEach links rest

/-- `links::validate`. -/
def validate (links : List (String × String)) : Except LinkError Unit :=
  validateEach (SortedMap.ofList links) (SortedMap.ofList links).entries

/-! ## What a link graph means -/

/-- A component of a target, as a file system takes it. -/
def step (part : String) : Step String :=
  if part = "" ∨ part = "." then .stay else if part = ".." then .up else .into part

def steps (target : String) : List (Step String) := (split target).map step

def linkAt (target : String → Option String) (dir : List String) : Option (List (Step String)) :=
  (target (join dir)).map steps

def LeadsTo (target : String → Option String) (path : String) (out : List String) (count : Nat) :
    Prop :=
  ∃ text, target path = some text ∧
    Resolves (linkAt target) (parentParts path) (steps text) out count

/-- A link whose resolution follows exactly so many links, each as often as met. -/
def Follows (target : String → Option String) (count : Nat) (path : String) : Prop :=
  ∃ out, LeadsTo target path out count

theorem walk_resolves {links : SortedMap String String} {left followed : Nat}
    {resolved pending : List String} (accepted : walk links left followed resolved pending = .ok ())
    (within : followed ≤ maxFollowed) :
    ∃ out count, Resolves (linkAt links.get) resolved (pending.map step) out count ∧
      followed + count ≤ maxFollowed := by
  induction left generalizing followed resolved pending with
  | zero =>
      cases pending with
      | nil => exact ⟨resolved, 0, .done resolved, within⟩
      | cons part pending => simp [walk] at accepted
  | succ left ih =>
      cases pending with
      | nil => exact ⟨resolved, 0, .done resolved, within⟩
      | cons part pending =>
          unfold walk at accepted
          by_cases still : part = "" ∨ part = "."
          · rw [if_pos still] at accepted
            obtain ⟨out, count, next, total⟩ := ih accepted within
            rw [List.map_cons, step, if_pos still]
            exact ⟨out, count, .stay next, total⟩
          · rw [if_neg still] at accepted
            by_cases above : part = ".."
            · rw [if_pos above] at accepted
              by_cases root : resolved = []
              · simp [root] at accepted
              · rw [if_neg root] at accepted
                obtain ⟨out, count, next, total⟩ := ih accepted within
                rw [List.map_cons, step, if_neg still, if_pos above]
                exact ⟨out, count, .up root next, total⟩
            · rw [if_neg above] at accepted
              rw [List.map_cons, step, if_neg still, if_neg above]
              cases held : links.get (join (resolved ++ [part])) with
              | none =>
                  rw [held] at accepted
                  obtain ⟨out, count, next, total⟩ := ih accepted within
                  exact ⟨out, count, .into (by simp [linkAt, held]) next, total⟩
              | some target =>
                  simp only [held] at accepted
                  by_cases deep : maxFollowed < followed + 1
                  · rw [if_pos deep] at accepted
                    exact nomatch accepted
                  · rw [if_neg deep] at accepted
                    obtain ⟨out, count, whole, total⟩ := ih accepted (by omega)
                    rw [List.map_append] at whole
                    obtain ⟨mid, first, second, through, next, both⟩ := whole.split
                    refine ⟨out, first + second + 1, .follow ?_ through next, by omega⟩
                    simp [linkAt, held, steps]

theorem validateEach_walks {links : SortedMap String String} {each : List (String × String)}
    (accepted : validateEach links each = .ok ()) {path target : String}
    (member : (path, target) ∈ each) :
    walk links maxComponents 0 (parentParts path) (split target) = .ok () := by
  induction each with
  | nil => simp at member
  | cons link rest ih =>
      obtain ⟨first, text⟩ := link
      unfold validateEach at accepted
      cases valid : validLink first text with
      | error refused => simp [valid, bind, Except.bind] at accepted
      | ok done =>
          cases walked : walk links maxComponents 0 (parentParts first) (split text) with
          | error refused => simp [valid, walked, bind, Except.bind] at accepted
          | ok done =>
              simp only [valid, walked, bind, Except.bind] at accepted
              rcases List.mem_cons.mp member with same | later
              · obtain ⟨rfl, rfl⟩ := Prod.mk.inj same
                exact walked
              · exact ih accepted later

/-- Every link of an accepted set resolves, following at most `maxFollowed` links. -/
theorem validate_leadsTo {links : List (String × String)} (accepted : validate links = .ok ())
    {path target : String} (held : (SortedMap.ofList links).get path = some target) :
    ∃ out count, LeadsTo (SortedMap.ofList links).get path out count ∧ count ≤ maxFollowed := by
  have walked := validateEach_walks accepted ((SortedMap.mem_entries_iff _ _ _).mpr held)
  obtain ⟨out, count, resolves, total⟩ := walk_resolves walked (Nat.zero_le _)
  exact ⟨out, count, ⟨target, held, resolves⟩, by omega⟩

end Agentsfleet.Recovery
