import Agentsfleet.Recovery.Verify

/-!
# The order of a verification

What verification finds does not depend on the order it visits the links in, nor
on what resolving other links first has cached.
-/

set_option autoImplicit false

namespace Agentsfleet.Recovery.Tree

open Agentsfleet.Library

variable {tree : Tree}

def Refuses (follow : String → Memo → Except TaskRefusal (Resolved × Memo)) : Prop :=
  ∀ path memo refused, follow path memo = .error refused → refused = .checkpointIncompatible

theorem expand_refuses {follow : String → Memo → Except TaskRefusal (Resolved × Memo)}
    (refuses : Refuses follow) (parts : List String) (start : Resolved) (memo : Memo)
    (refused : TaskRefusal) (failed : tree.expand follow parts start memo = .error refused) :
    refused = .checkpointIncompatible := by
  induction parts generalizing start memo with
  | nil => exact nomatch failed
  | cons part rest ih =>
      unfold expand at failed
      by_cases still : part = "" ∨ part = "."
      · rw [if_pos still] at failed
        exact ih _ _ failed
      · rw [if_neg still] at failed
        by_cases above : part = ".."
        · rw [if_pos above] at failed
          by_cases root : start.components = []
          · rw [if_pos root, Except.error.injEq] at failed
            exact failed.symm
          · rw [if_neg root] at failed
            exact ih _ _ failed
        · rw [if_neg above] at failed
          by_cases linked : (tree.target (join (start.components ++ [part]))).isSome = true
          · rw [if_pos linked] at failed
            cases followed : follow (join (start.components ++ [part])) memo with
            | error reason =>
                simp only [followed, Except.error.injEq] at failed
                rw [← failed]
                exact refuses _ _ _ followed
            | ok answer =>
                obtain ⟨link, after⟩ := answer
                simp only [followed] at failed
                by_cases many : maxLinks < start.substitutions + link.substitutions
                · rw [if_pos many, Except.error.injEq] at failed
                  exact failed.symm
                · rw [if_neg many] at failed
                  exact ih _ _ failed
          · rw [if_neg linked] at failed
            exact ih _ _ failed

theorem resolve_refuses (left : Nat) : Refuses (tree.resolve left) := by
  induction left with
  | zero =>
      intro path memo refused failed
      unfold resolve at failed
      cases cached : memo.cache.get path with
      | some earlier => simp [cached] at failed
      | none =>
          simp only [cached, Except.error.injEq] at failed
          exact failed.symm
  | succ left ih =>
      intro path memo refused failed
      unfold resolve at failed
      cases cached : memo.cache.get path with
      | some earlier => simp [cached] at failed
      | none =>
          simp only [cached] at failed
          by_cases met : path ∈ memo.visiting
          · rw [if_pos met, Except.error.injEq] at failed
            exact failed.symm
          · rw [if_neg met] at failed
            cases held : tree.target path with
            | none =>
                simp only [held, Except.error.injEq] at failed
                exact failed.symm
            | some text =>
                simp only [held] at failed
                cases expanded : tree.expand (tree.resolve left) (split text)
                    ⟨parentParts path, 1⟩ (memo.enter path) with
                | error reason =>
                    simp only [expanded, Except.error.injEq] at failed
                    rw [← failed]
                    exact expand_refuses ih _ _ _ _ expanded
                | ok found => simp [expanded] at failed

theorem verifyNodes_refuses (entries : List (String × Node)) (memo : Memo) :
    tree.verifyNodes entries memo = .ok () ∨
      tree.verifyNodes entries memo = .error .checkpointIncompatible := by
  induction entries generalizing memo with
  | nil => exact .inl rfl
  | cons entry rest ih =>
      obtain ⟨path, node⟩ := entry
      unfold verifyNodes
      by_cases placed : tree.misplaced path = true
      · rw [if_pos placed]
        exact .inr rfl
      · rw [if_neg placed]
        by_cases linked : node.target.isSome = true
        · rw [if_pos linked]
          cases answered : tree.resolve maxLinks path memo with
          | error refused =>
              rw [resolve_refuses _ _ _ _ answered]
              exact .inr rfl
          | ok found => exact ih found.2
        · rw [if_neg linked]
          exact ih memo

def resolveAll (tree : Tree) : List String → Memo → Except TaskRefusal Memo
  | [], memo => .ok memo
  | path :: rest, memo =>
      match tree.resolve maxLinks path memo with
      | .error refused => .error refused
      | .ok (_, memo) => tree.resolveAll rest memo

theorem resolveAll_sound {paths : List String} {memo next : Memo} (sound : tree.Sound memo)
    (resolved : tree.resolveAll paths memo = .ok next) :
    tree.Sound next ∧ next.visiting = memo.visiting := by
  induction paths generalizing memo with
  | nil =>
      rw [resolveAll, Except.ok.injEq] at resolved
      rw [← resolved]
      exact ⟨sound, rfl⟩
  | cons path rest ih =>
      rw [resolveAll] at resolved
      cases answered : tree.resolve maxLinks path memo with
      | error refused => simp [answered] at resolved
      | ok found =>
          obtain ⟨_, after⟩ := found
          simp only [answered] at resolved
          obtain ⟨-, sound_after, same⟩ := resolve_sound maxLinks _ _ _ _ sound answered
          obtain ⟨sound_next, idle⟩ := ih sound_after resolved
          exact ⟨sound_next, idle.trans same⟩

theorem sound_empty : tree.Sound ⟨SortedMap.empty, ∅⟩ := by
  intro path resolved
  simp

/-- Verification accepts exactly the counted, well placed trees whose every link
leads somewhere within the limit, whatever order the entries are visited in and
whatever links were resolved before. -/
theorem verify_order_free (tree : Tree) (entries : UInt32) (bytes : UInt64) :
    (tree.verify entries bytes = .ok () ↔
      tree.Counted entries bytes ∧ tree.Parented ∧
        ∀ path text, tree.target path = some text → tree.Reaches path) ∧
    ∀ earlier visits memo, visits.Perm tree.nodes.entries →
      tree.resolveAll earlier ⟨SortedMap.empty, ∅⟩ = .ok memo →
      tree.verifyNodes visits memo = tree.verifyNodes tree.nodes.entries ⟨SortedMap.empty, ∅⟩ := by
  refine ⟨tree.verify_iff entries bytes, ?_⟩
  intro earlier visits memo visited resolved
  obtain ⟨sound, idle⟩ := resolveAll_sound sound_empty resolved
  have same : tree.verifyNodes visits memo = .ok () ↔
      tree.verifyNodes tree.nodes.entries ⟨SortedMap.empty, ∅⟩ = .ok () := by
    rw [verifyNodes_iff visits sound idle, verifyNodes_iff _ sound_empty rfl]
    simp only [visited.mem_iff]
  rcases tree.verifyNodes_refuses tree.nodes.entries ⟨SortedMap.empty, ∅⟩ with accepted | refused
  · rw [accepted]
    exact same.mpr accepted
  · rcases tree.verifyNodes_refuses visits memo with accepted | again
    · rw [same.mp accepted] at refused
      exact nomatch refused
    · rw [again, refused]

/-- A link to its own directory and one through it: the second is visited first,
once the first was resolved. -/
theorem verify_order_free_throughDot :
    (throughDot 1).verifyNodes
        [("s", ⟨false, 0, some "d"⟩), ("d", ⟨false, 0, some "."⟩)]
        ((⟨SortedMap.empty, ∅⟩ : Memo).leave "d" ⟨[], 1⟩) =
      (throughDot 1).verifyNodes (throughDot 1).nodes.entries ⟨SortedMap.empty, ∅⟩ := by
  refine (verify_order_free (throughDot 1) 2 0).2 ["d"] _ _ ?_ ?_
  · decide +kernel
  · rfl

end Agentsfleet.Recovery.Tree
