import Mathlib.Data.List.Basic

/-!
# Symbolic links

Resolution of a walk in a tree of directories with symbolic links, one component
at a time, as the relation a file system follows.  The count says how many links
were followed, each as often as it is met.
-/

set_option autoImplicit false

namespace Agentsfleet.Library

inductive Step (Name : Type) where
  | stay
  | up
  | into (name : Name)
deriving DecidableEq

section Resolves

variable {Name : Type} (links : List Name → Option (List (Step Name)))

/-- From `dir`, the walk ends in the given directory after so many links. -/
inductive Resolves : List Name → List (Step Name) → List Name → Nat → Prop
  | done (dir : List Name) : Resolves dir [] dir 0
  | stay {dir rest out count} (next : Resolves dir rest out count) :
      Resolves dir (.stay :: rest) out count
  | up {dir rest out count} (inside : dir ≠ []) (next : Resolves dir.dropLast rest out count) :
      Resolves dir (.up :: rest) out count
  | into {dir name rest out count} (plain : links (dir ++ [name]) = none)
      (next : Resolves (dir ++ [name]) rest out count) :
      Resolves dir (.into name :: rest) out count
  | follow {dir name rest target mid out first second}
      (link : links (dir ++ [name]) = some target) (through : Resolves dir target mid first)
      (next : Resolves mid rest out second) :
      Resolves dir (.into name :: rest) out (first + second + 1)

variable {links} {dir mid out : List Name} {front rest : List (Step Name)}

theorem Resolves.unique {count : Nat} (one : Resolves links dir rest out count)
    {other : List Name} {again : Nat} (two : Resolves links dir rest other again) :
    other = out ∧ again = count := by
  induction one generalizing other again with
  | done dir =>
      cases two
      exact ⟨rfl, rfl⟩
  | stay _ ih =>
      cases two with
      | stay next => exact ih next
  | up _ _ ih =>
      cases two with
      | up _ next => exact ih next
  | into plain _ ih =>
      cases two with
      | into _ next => exact ih next
      | follow link => simp [plain] at link
  | follow link _ _ ih_through ih_next =>
      cases two with
      | into plain => simp [link] at plain
      | follow link_again through next =>
          rw [link, Option.some.injEq] at link_again
          subst link_again
          obtain ⟨rfl, rfl⟩ := ih_through through
          obtain ⟨rfl, rfl⟩ := ih_next next
          exact ⟨rfl, rfl⟩

theorem Resolves.split {count : Nat} (whole : Resolves links dir (front ++ rest) out count) :
    ∃ mid first second, Resolves links dir front mid first ∧
      Resolves links mid rest out second ∧ count = first + second := by
  induction front generalizing dir count with
  | nil => exact ⟨dir, 0, count, .done dir, whole, by omega⟩
  | cons step front ih =>
      cases whole with
      | stay next =>
          obtain ⟨mid, first, second, before, after, total⟩ := ih next
          exact ⟨mid, first, second, .stay before, after, total⟩
      | up inside next =>
          obtain ⟨mid, first, second, before, after, total⟩ := ih next
          exact ⟨mid, first, second, .up inside before, after, total⟩
      | into plain next =>
          obtain ⟨mid, first, second, before, after, total⟩ := ih next
          exact ⟨mid, first, second, .into plain before, after, total⟩
      | follow link through next =>
          obtain ⟨mid, first, second, before, after, total⟩ := ih next
          refine ⟨mid, _, second, .follow link through before, after, ?_⟩
          omega

/-- A walk reaches only components of its own directory, of its steps and of the
links it follows. -/
theorem Resolves.components {count : Nat} (holds : Name → Prop)
    (whole : Resolves links dir rest out count)
    (linked : ∀ at_dir target, links at_dir = some target →
      ∀ name, Step.into name ∈ target → holds name)
    (before : ∀ name ∈ dir, holds name) (ahead : ∀ name, Step.into name ∈ rest → holds name) :
    ∀ name ∈ out, holds name := by
  induction whole with
  | done dir => exact before
  | stay _ ih => exact ih before fun name member => ahead name (by simp [member])
  | up _ _ ih =>
      apply ih
      · intro name member
        exact before name (List.dropLast_subset _ member)
      · exact fun name member => ahead name (by simp [member])
  | into _ _ ih =>
      apply ih
      · intro name member
        rcases List.mem_append.mp member with old | new
        · exact before name old
        · rw [List.mem_singleton.mp new]
          exact ahead _ (by simp)
      · exact fun name member => ahead name (by simp [member])
  | follow link _ _ ih_through ih_next =>
      apply ih_next
      · exact ih_through before fun name member => linked _ _ link name member
      · exact fun name member => ahead name (by simp [member])

end Resolves

end Agentsfleet.Library
