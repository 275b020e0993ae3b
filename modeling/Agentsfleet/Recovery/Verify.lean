import Agentsfleet.Recovery.Tree

/-!
# Verification and the file system

The cached resolution of the tree finds what a file system finds, whatever an
earlier link left in the cache, and finds it exactly where no link leads through
`maxLinks` others.  The runner's own check stops one link later.
-/

set_option autoImplicit false

namespace Agentsfleet.Recovery

open Agentsfleet.Library

namespace Tree

/-- A resolution as the file system makes it, within the limit. -/
def Settles (tree : Tree) (path : String) (resolved : Resolved) : Prop :=
  ∃ count, LeadsTo tree.target path resolved.components count ∧
    resolved.substitutions = count + 1 ∧ resolved.substitutions ≤ maxLinks

def Sound (tree : Tree) (memo : Memo) : Prop :=
  ∀ path resolved, memo.cache.get path = some resolved → tree.Settles path resolved

def Answers (tree : Tree) (follow : String → Memo → Except TaskRefusal (Resolved × Memo)) : Prop :=
  ∀ path memo resolved next, tree.Sound memo → follow path memo = .ok (resolved, next) →
    tree.Settles path resolved ∧ tree.Sound next ∧ next.visiting = memo.visiting

/-- Every link on the way to this one leads somewhere, by more than `count` links. -/
def Under (tree : Tree) (count : Nat) (memo : Memo) : Prop :=
  ∀ path ∈ memo.visiting, ∃ out deeper, LeadsTo tree.target path out deeper ∧ count < deeper

/-- A link that leads somewhere by fewer than `bound` links is resolved. -/
def Completes (tree : Tree) (bound : Nat)
    (follow : String → Memo → Except TaskRefusal (Resolved × Memo)) : Prop :=
  ∀ path memo out count, tree.Sound memo → LeadsTo tree.target path out count → count < bound →
    tree.Under count memo → ∃ resolved next, follow path memo = .ok (resolved, next)

end Tree

theorem LeadsTo.unique {target : String → Option String} {path : String}
    {out other : List String} {count again : Nat} (one : LeadsTo target path out count)
    (two : LeadsTo target path other again) : other = out ∧ again = count := by
  obtain ⟨text, held, resolves⟩ := one
  obtain ⟨text_again, held_again, resolves_again⟩ := two
  rw [held, Option.some.injEq] at held_again
  subst held_again
  exact resolves.unique resolves_again

theorem LeadsTo.plain {target : String → Option String} {path : String} {out : List String}
    {count : Nat} (leads : LeadsTo target path out count) : ∀ part ∈ out, Plain part := by
  have named : ∀ text name, Step.into name ∈ steps text → Plain name := by
    intro text name member
    obtain ⟨part, held, same⟩ := List.mem_map.mp member
    have plain := split_plain text part held
    unfold step at same
    split at same
    · simp at same
    · split at same
      · simp at same
      · rw [Step.into.injEq] at same
        rwa [← same]
  obtain ⟨text, _, resolves⟩ := leads
  apply resolves.components Plain
  · intro dir steps_there linked name member
    obtain ⟨link, _, rfl⟩ := Option.map_eq_some_iff.mp linked
    exact named link name member
  · exact parentParts_plain path
  · exact named text

namespace Tree

variable {tree : Tree}

theorem linkAt_some {dir : List String} {target : List (Step String)}
    (link : linkAt tree.target dir = some target) :
    ∃ text, tree.target (join dir) = some text ∧ target = steps text := by
  obtain ⟨text, held, rfl⟩ := Option.map_eq_some_iff.mp link
  exact ⟨text, held, rfl⟩

theorem linkAt_none {dir : List String} (missing : (tree.target (join dir)).isSome ≠ true) :
    linkAt tree.target dir = none := by
  rw [linkAt, Option.map_eq_none_iff]
  simpa using missing

theorem Settles.continues {dir : List String} {part : String} {link : Resolved}
    (settles : tree.Settles (join (dir ++ [part])) link)
    (plain : ∀ name ∈ dir ++ [part], Plain name) {rest : List (Step String)} {out : List String}
    {count : Nat} (next : Resolves (linkAt tree.target) link.components rest out count) :
    ∃ total, Resolves (linkAt tree.target) dir (.into part :: rest) out total ∧
      total = link.substitutions + count := by
  obtain ⟨through, ⟨text, held, resolves⟩, counted, _⟩ := settles
  rw [parentParts_join plain] at resolves
  refine ⟨through + count + 1, .follow ?_ resolves next, by omega⟩
  rw [linkAt, held]
  rfl

theorem Sound.enter {memo : Memo} (sound : tree.Sound memo) (path : String) :
    tree.Sound (memo.enter path) := sound

theorem Sound.leave {memo : Memo} (sound : tree.Sound memo) {path : String} {resolved : Resolved}
    (settles : tree.Settles path resolved) : tree.Sound (memo.leave path resolved) := by
  intro other found cached
  rw [Memo.leave, SortedMap.get_insert] at cached
  by_cases here : other = path
  · rw [if_pos here, Option.some.injEq] at cached
    rw [here, ← cached]
    exact settles
  · rw [if_neg here] at cached
    exact sound other found cached

section Expand

variable {follow : String → Memo → Except TaskRefusal (Resolved × Memo)}

theorem expand_sound (answers : tree.Answers follow) {parts : List String}
    (plain : ∀ part ∈ parts, Plain part) (start : Resolved) {resolved : Resolved}
    {memo next : Memo}
    (sound : tree.Sound memo) (begun : ∀ part ∈ start.components, Plain part)
    (within : start.substitutions ≤ maxLinks)
    (expanded : tree.expand follow parts start memo = .ok (resolved, next)) :
    (∃ count, Resolves (linkAt tree.target) start.components (parts.map step)
        resolved.components count ∧
      resolved.substitutions = start.substitutions + count ∧
      resolved.substitutions ≤ maxLinks) ∧
    tree.Sound next ∧ next.visiting = memo.visiting := by
  induction parts generalizing start memo with
  | nil =>
      simp only [expand, Except.ok.injEq, Prod.mk.injEq] at expanded
      obtain ⟨rfl, rfl⟩ := expanded
      exact ⟨⟨0, .done _, rfl, within⟩, sound, rfl⟩
  | cons part rest ih =>
      have later : ∀ name ∈ rest, Plain name := fun name member => plain name (by simp [member])
      have longer : ∀ name ∈ start.components ++ [part], Plain name := by
        intro name member
        rcases List.mem_append.mp member with old | new
        · exact begun name old
        · exact plain name (by simp [List.mem_singleton.mp new])
      unfold expand at expanded
      by_cases still : part = "" ∨ part = "."
      · rw [if_pos still] at expanded
        obtain ⟨⟨count, walked, total, few⟩, kept⟩ := ih later _ sound begun within expanded
        rw [List.map_cons, step, if_pos still]
        exact ⟨⟨count, .stay walked, total, few⟩, kept⟩
      · rw [if_neg still] at expanded
        by_cases above : part = ".."
        · rw [if_pos above] at expanded
          by_cases root : start.components = []
          · simp [root] at expanded
          · rw [if_neg root] at expanded
            obtain ⟨⟨count, walked, total, few⟩, kept⟩ := ih later ⟨_, start.substitutions⟩ sound
              (fun name member => begun name (List.dropLast_subset _ member)) within expanded
            rw [List.map_cons, step, if_neg still, if_pos above]
            exact ⟨⟨count, .up root walked, total, few⟩, kept⟩
        · rw [if_neg above] at expanded
          rw [List.map_cons, step, if_neg still, if_neg above]
          by_cases linked : (tree.target (join (start.components ++ [part]))).isSome = true
          · rw [if_pos linked] at expanded
            cases followed : follow (join (start.components ++ [part])) memo with
            | error refused => simp [followed] at expanded
            | ok answer =>
                obtain ⟨link, after⟩ := answer
                obtain ⟨settles, sound_after, same⟩ := answers _ _ _ _ sound followed
                simp only [followed] at expanded
                by_cases many : maxLinks < start.substitutions + link.substitutions
                · simp [if_pos many] at expanded
                · rw [if_neg many] at expanded
                  have ended : ∀ name ∈ link.components, Plain name := by
                    obtain ⟨_, leads, _⟩ := settles
                    exact leads.plain
                  obtain ⟨⟨count, walked, total, few⟩, sound_next, kept⟩ :=
                    ih later ⟨link.components, start.substitutions + link.substitutions⟩
                      sound_after ended
                      (Nat.le_of_not_lt many) expanded
                  obtain ⟨sum, whole, counted⟩ := settles.continues longer walked
                  exact ⟨⟨sum, whole, by simp only at total; omega, few⟩, sound_next,
                    kept.trans same⟩
          · rw [if_neg linked] at expanded
            obtain ⟨⟨count, walked, total, few⟩, kept⟩ :=
              ih later ⟨_, start.substitutions⟩ sound longer within expanded
            exact ⟨⟨count, .into (linkAt_none linked) walked, total, few⟩, kept⟩

end Expand

theorem resolve_sound (left : Nat) : tree.Answers (tree.resolve left) := by
  induction left with
  | zero =>
      intro path memo resolved next sound answered
      unfold resolve at answered
      cases cached : memo.cache.get path with
      | none => simp [cached] at answered
      | some earlier =>
          simp only [cached, Except.ok.injEq, Prod.mk.injEq] at answered
          obtain ⟨rfl, rfl⟩ := answered
          exact ⟨sound path _ cached, sound, rfl⟩
  | succ left ih =>
      intro path memo resolved next sound answered
      unfold resolve at answered
      cases cached : memo.cache.get path with
      | some earlier =>
          simp only [cached, Except.ok.injEq, Prod.mk.injEq] at answered
          obtain ⟨rfl, rfl⟩ := answered
          exact ⟨sound path _ cached, sound, rfl⟩
      | none =>
          simp only [cached] at answered
          by_cases met : path ∈ memo.visiting
          · simp [if_pos met] at answered
          · rw [if_neg met] at answered
            cases held : tree.target path with
            | none => simp [held] at answered
            | some text =>
                simp only [held] at answered
                cases expanded : tree.expand (tree.resolve left) (split text)
                    ⟨parentParts path, 1⟩ (memo.enter path) with
                | error refused => simp [expanded] at answered
                | ok found =>
                    obtain ⟨ended, after⟩ := found
                    obtain ⟨⟨count, walked, total, few⟩, sound_after, same⟩ :=
                      expand_sound ih (split_plain text) ⟨parentParts path, 1⟩ (sound.enter path)
                        (parentParts_plain path) (show 1 ≤ maxLinks by decide) expanded
                    simp only [expanded, Except.ok.injEq, Prod.mk.injEq] at answered
                    obtain ⟨rfl, rfl⟩ := answered
                    have settles : tree.Settles path ended :=
                      ⟨count, ⟨text, held, walked⟩, by simp only at total; omega, few⟩
                    refine ⟨settles, sound_after.leave settles, ?_⟩
                    simp only [Memo.leave, same, Memo.enter]
                    exact Finset.erase_insert met

variable {follow : String → Memo → Except TaskRefusal (Resolved × Memo)} in
theorem expand_complete {bound : Nat} (answers : tree.Answers follow)
    (completes : tree.Completes bound follow) {parts : List String}
    (plain : ∀ part ∈ parts, Plain part) (start : Resolved) {memo : Memo}
    (sound : tree.Sound memo) (begun : ∀ part ∈ start.components, Plain part)
    {out : List String} {count : Nat}
    (walked : Resolves (linkAt tree.target) start.components (parts.map step) out count)
    (fewer : count ≤ bound) (within : start.substitutions + count ≤ maxLinks)
    (under : ∀ path ∈ memo.visiting, ∃ out deeper,
      LeadsTo tree.target path out deeper ∧ count ≤ deeper) :
    ∃ resolved next, tree.expand follow parts start memo = .ok (resolved, next) := by
  induction parts generalizing start memo count with
  | nil => exact ⟨start, memo, rfl⟩
  | cons part rest ih =>
      have later : ∀ name ∈ rest, Plain name := fun name member => plain name (by simp [member])
      have longer : ∀ name ∈ start.components ++ [part], Plain name := by
        intro name member
        rcases List.mem_append.mp member with old | new
        · exact begun name old
        · exact plain name (by simp [List.mem_singleton.mp new])
      unfold expand
      rw [List.map_cons, step] at walked
      by_cases still : part = "" ∨ part = "."
      · rw [if_pos still] at walked ⊢
        cases walked with
        | stay next => exact ih later start sound begun next fewer within under
      · rw [if_neg still] at walked ⊢
        by_cases above : part = ".."
        · rw [if_pos above] at walked ⊢
          cases walked with
          | up root next =>
              rw [if_neg root]
              exact ih later ⟨_, start.substitutions⟩ sound
                (fun name member => begun name (List.dropLast_subset _ member)) next fewer within
                under
        · rw [if_neg above] at walked ⊢
          cases walked with
          | into missing next =>
              have unlinked : (tree.target (join (start.components ++ [part]))).isSome ≠ true := by
                rw [linkAt, Option.map_eq_none_iff] at missing
                simp [missing]
              rw [if_neg unlinked]
              exact ih later ⟨_, start.substitutions⟩ sound longer next fewer within under
          | @follow _ _ _ _ mid _ first second link through next =>
              obtain ⟨text, held, rfl⟩ := linkAt_some link
              have leads : LeadsTo tree.target (join (start.components ++ [part])) mid first := by
                refine ⟨text, held, ?_⟩
                rw [parentParts_join longer]
                exact through
              have shallower : tree.Under first memo := by
                intro path member
                obtain ⟨end_there, deeper, leads_there, least⟩ := under path member
                exact ⟨end_there, deeper, leads_there, by omega⟩
              obtain ⟨resolved, after, followed⟩ :=
                completes _ memo mid first sound leads (by omega) shallower
              obtain ⟨⟨again, leads_again, counted, _⟩, sound_after, same⟩ :=
                answers _ _ _ _ sound followed
              obtain ⟨ended, rfl⟩ := leads.unique leads_again
              rw [if_pos (by simp [held]), followed]
              simp only
              rw [if_neg (by omega)]
              apply ih later _ sound_after
              · exact leads_again.plain
              · rw [ended]
                exact next
              · omega
              · simp only
                omega
              · intro path member
                rw [same] at member
                obtain ⟨end_there, deeper, leads_there, least⟩ := under path member
                exact ⟨end_there, deeper, leads_there, by omega⟩

theorem resolve_complete (left : Nat) (within : left ≤ maxLinks) :
    tree.Completes left (tree.resolve left) := by
  induction left with
  | zero => exact fun path memo out count sound leads fewer => absurd fewer (Nat.not_lt_zero _)
  | succ left ih =>
      intro path memo out count sound leads fewer under
      unfold resolve
      cases cached : memo.cache.get path with
      | some earlier => exact ⟨earlier, memo, rfl⟩
      | none =>
          have unmet : path ∉ memo.visiting := by
            intro met
            obtain ⟨other, deeper, leads_again, more⟩ := under path met
            obtain ⟨_, same⟩ := leads.unique leads_again
            omega
          obtain ⟨text, held, walked⟩ := id leads
          simp only [if_neg unmet, held]
          have completes : tree.Completes left (tree.resolve left) := ih (by omega)
          have above : ∀ other ∈ (memo.enter path).visiting, ∃ out deeper,
              LeadsTo tree.target other out deeper ∧ count ≤ deeper := by
            intro other member
            rcases Finset.mem_insert.mp member with rfl | before
            · exact ⟨out, count, leads, Nat.le_refl _⟩
            · obtain ⟨end_there, deeper, leads_there, more⟩ := under other before
              exact ⟨end_there, deeper, leads_there, Nat.le_of_lt more⟩
          obtain ⟨resolved, after, expanded⟩ := expand_complete (resolve_sound left) completes
            (split_plain text) ⟨parentParts path, 1⟩ (sound.enter path) (parentParts_plain path)
            walked
            (by omega) (by simp only; omega) above
          rw [expanded]
          exact ⟨_, _, rfl⟩

/-- A link as verification wants it: it leads somewhere, within the limit. -/
def Reaches (tree : Tree) (path : String) : Prop :=
  ∃ out count, LeadsTo tree.target path out count ∧ count < maxLinks

theorem verifyNodes_iff (entries : List (String × Node)) {memo : Memo} (sound : tree.Sound memo)
    (idle : memo.visiting = ∅) :
    tree.verifyNodes entries memo = .ok () ↔
      ∀ entry ∈ entries, tree.misplaced entry.1 = false ∧
        (entry.2.target.isSome = true → tree.Reaches entry.1) := by
  induction entries generalizing memo with
  | nil => simp [verifyNodes]
  | cons entry rest ih =>
      obtain ⟨path, node⟩ := entry
      unfold verifyNodes
      rw [List.forall_mem_cons]
      by_cases placed : tree.misplaced path = true
      · simp [placed]
      · rw [if_neg placed]
        have well : tree.misplaced path = false := by simpa using placed
        by_cases linked : node.target.isSome = true
        · rw [if_pos linked]
          constructor
          · intro verified
            cases answered : tree.resolve maxLinks path memo with
            | error refused => simp [answered] at verified
            | ok found =>
                obtain ⟨resolved, next⟩ := found
                obtain ⟨⟨count, leads, counted, few⟩, sound_next, same⟩ :=
                  resolve_sound maxLinks _ _ _ _ sound answered
                simp only [answered] at verified
                refine ⟨⟨well, fun _ => ⟨_, count, leads, by omega⟩⟩, ?_⟩
                exact (ih sound_next (same.trans idle)).mp verified
          · rintro ⟨⟨_, reaches⟩, others⟩
            obtain ⟨out, count, leads, few⟩ := reaches linked
            obtain ⟨resolved, next, answered⟩ := resolve_complete maxLinks (Nat.le_refl _) path memo
              out count sound leads few (by simp [Under, idle])
            obtain ⟨_, sound_next, same⟩ := resolve_sound maxLinks _ _ _ _ sound answered
            rw [answered]
            exact (ih sound_next (same.trans idle)).mpr others
        · rw [if_neg linked, ih sound idle]
          simp [well, linked]

def Counted (tree : Tree) (entries : UInt32) (bytes : UInt64) : Prop :=
  addSizes 0 tree.nodes.entries = some bytes ∧ tree.nodes.size = entries.toNat

def Parented (tree : Tree) : Prop :=
  ∀ path node, tree.nodes.get path = some node → ∀ ancestor ∈ ancestors path,
    ∀ parent, tree.nodes.get ancestor = some parent → parent.directory = true

theorem misplaced_iff {path : String} : tree.misplaced path = false ↔
    ∀ ancestor ∈ ancestors path, ∀ parent, tree.nodes.get ancestor = some parent →
      parent.directory = true := by
  rw [misplaced, List.any_eq_false]
  constructor
  · intro none_there ancestor member parent held
    simpa [held] using none_there ancestor member
  · intro directories ancestor member
    cases held : tree.nodes.get ancestor with
    | none => simp
    | some parent => simp [directories ancestor member parent held]

/-- Verification accepts exactly the counted, well placed trees whose links all
lead somewhere within the limit. -/
theorem verify_iff (tree : Tree) (entries : UInt32) (bytes : UInt64) :
    tree.verify entries bytes = .ok () ↔
      tree.Counted entries bytes ∧ tree.Parented ∧
        ∀ path text, tree.target path = some text → tree.Reaches path := by
  have fresh : tree.Sound ⟨SortedMap.empty, ∅⟩ := by
    intro path resolved
    simp
  have nodes := verifyNodes_iff tree.nodes.entries fresh rfl
  have spread : (∀ entry ∈ tree.nodes.entries, tree.misplaced entry.1 = false ∧
      (entry.2.target.isSome = true → tree.Reaches entry.1)) ↔
      tree.Parented ∧ ∀ path text, tree.target path = some text → tree.Reaches path := by
    constructor
    · intro each
      constructor
      · intro path node held
        exact misplaced_iff.mp (each _ ((SortedMap.mem_entries_iff _ _ _).mpr held)).1
      · intro path text held
        obtain ⟨node, stored, linked⟩ := Option.bind_eq_some_iff.mp held
        exact (each _ ((SortedMap.mem_entries_iff _ _ _).mpr stored)).2 (by simp [linked])
    · rintro ⟨parented, reaches⟩ ⟨path, node⟩ member
      have stored := (SortedMap.mem_entries_iff _ _ _).mp member
      refine ⟨misplaced_iff.mpr (parented path node stored), ?_⟩
      intro linked
      obtain ⟨text, target⟩ := Option.isSome_iff_exists.mp linked
      exact reaches path text (by rw [Tree.target, stored]; exact target)
  unfold verify Counted
  cases summed : addSizes 0 tree.nodes.entries with
  | none => simp
  | some sum =>
      by_cases counts : tree.nodes.size ≠ entries.toNat ∨ sum ≠ bytes
      · simp only [if_pos counts, reduceCtorEq, false_iff]
        rintro ⟨⟨same, size⟩, _⟩
        rw [Option.some.injEq] at same
        exact counts.elim (fun other => other size) (fun other => other same)
      · simp only [if_neg counts]
        rw [nodes, spread]
        simp only [not_or, not_not] at counts
        simp [counts.1, counts.2]

theorem links_get (tree : Tree) : (SortedMap.ofList tree.links).get = tree.target := by
  funext path
  rw [links, SortedMap.ofList_entries, SortedMap.get_filterMap]
  rfl

/-! ## The two checkers -/

/-- A tree whose links the runner accepted is accepted exactly when no link
follows `maxFollowed` others: the daemon counts the link it starts from. -/
theorem verify_validated_iff (tree : Tree) (entries : UInt32) (bytes : UInt64)
    (counted : tree.Counted entries bytes) (parented : tree.Parented)
    (accepted : validate tree.links = .ok ()) :
    tree.verify entries bytes = .ok () ↔ ∀ path, ¬ Follows tree.target maxFollowed path := by
  rw [verify_iff]
  constructor
  · rintro ⟨_, _, reaches⟩ path ⟨out, leads⟩
    obtain ⟨text, held, _⟩ := id leads
    obtain ⟨other, count, leads_again, few⟩ := reaches path text held
    obtain ⟨_, same⟩ := leads.unique leads_again
    have limits : maxLinks = maxFollowed := rfl
    omega
  · intro none_follows
    refine ⟨counted, parented, ?_⟩
    intro path text held
    rw [← links_get] at held
    obtain ⟨out, count, leads, few⟩ := validate_leadsTo accepted held
    rw [links_get] at leads
    refine ⟨out, count, leads, lt_of_le_of_ne few ?_⟩
    intro exactly
    subst exactly
    exact none_follows path ⟨out, leads⟩

/-- A link to its own directory, and one that passes through it so many times. -/
def throughDot (times : Nat) : Tree where
  nodes := SortedMap.ofList
    [("d", ⟨false, 0, some "."⟩), ("s", ⟨false, 0, some (join (List.replicate times "d"))⟩)]

theorem throughDot_parented (times : Nat) : (throughDot times).Parented := by
  intro path node held ancestor member
  have listed := (SortedMap.mem_entries_iff _ _ _).mpr held
  have paths : path = "d" ∨ path = "s" := by
    simp only [throughDot, SortedMap.ofList, List.foldl_cons, List.foldl_nil,
      SortedMap.insert, SortedMap.empty, SortedMap.place] at listed
    revert listed
    simp [show ¬ ("s" : String) < "d" by decide]
    tauto
  rcases paths with rfl | rfl
  · simp [ancestors, cuts] at member
  · simp [ancestors, cuts] at member

/-- Accepted at capture, refused at commit. -/
theorem forty_followed_refused :
    validate (throughDot 40).links = .ok () ∧ (throughDot 40).Counted 2 0 ∧
      (throughDot 40).Parented ∧
        (throughDot 40).verify 2 0 = .error .checkpointIncompatible := by
  refine ⟨by decide +kernel, ⟨by decide +kernel, by decide +kernel⟩, throughDot_parented 40, ?_⟩
  decide +kernel

theorem thirty_nine_followed_accepted :
    (throughDot 39).verify 2 0 = .ok () ↔
      ∀ path, ¬ Follows (throughDot 39).target maxFollowed path :=
  verify_validated_iff (throughDot 39) 2 0 ⟨by decide +kernel, by decide +kernel⟩
    (throughDot_parented 39) (by decide +kernel)

end Tree

end Agentsfleet.Recovery
