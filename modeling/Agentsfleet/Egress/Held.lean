import Agentsfleet.Egress.Vault
import Agentsfleet.Library.Run

/-!
# What a vault has held stays masked

A lease's vault over every hold made of it: a token is replaced or kept, and
whichever, the masker still has it.
-/

set_option autoImplicit false

namespace Agentsfleet.Egress

open Agentsfleet.Library
open Agentsfleet.Secrets (Scrub AhoCorasick Bytes fieldToken)

namespace Vault

variable {build : (patterns : List Bytes) → Option (AhoCorasick patterns)}

def holding (build : (patterns : List Bytes) → Option (AhoCorasick patterns)) :
    Vault → List (String × Answer) → Vault :=
  Run.final fun vault hold => (vault.hold build hold.1 hold.2).1

/-- The mask set the vault hands to its outputs has `token`. -/
def Masks (vault : Vault) (token : String) : Prop :=
  ∃ masker, vault.masker = some masker ∧ token ∈ masker.secrets

def handed (vault : Vault) : List (String × Minted) := vault.minted ++ vault.retired

/-! ## One hold -/

theorem get?_insert (held : List (String × Minted)) (name : String) (minted : Minted) :
    (insert held name minted).find? (fun entry => entry.1 == name) = some (name, minted) := by
  induction held with
  | nil => simp [insert]
  | cons first rest ih =>
      rw [insert]
      by_cases same : first.1 == name
      · rw [if_pos same]
        simp
      · rw [if_neg same, List.find?_cons, eq_false_of_ne_true same]
        exact ih

theorem mem_insert {held : List (String × Minted)} {name : String} (minted : Minted)
    {entry : String × Minted} (member : entry ∈ held) :
    entry ∈ insert held name minted ∨ held.find? (fun other => other.1 == name) = some entry := by
  induction held with
  | nil => exact absurd member List.not_mem_nil
  | cons first rest ih =>
      rw [insert]
      by_cases same : first.1 == name
      · rw [if_pos same, List.find?_cons, same]
        rcases List.mem_cons.mp member with rfl | later
        · exact .inr rfl
        · exact .inl (List.mem_cons_of_mem _ later)
      · rw [if_neg same, List.find?_cons, eq_false_of_ne_true same]
        rcases List.mem_cons.mp member with rfl | later
        · exact .inl List.mem_cons_self
        · exact (ih later).imp_left (List.mem_cons_of_mem _)

theorem of_mem_insert {held : List (String × Minted)} {name : String} {minted : Minted}
    {entry : String × Minted} (member : entry ∈ insert held name minted) :
    entry ∈ held ∨ entry = (name, minted) := by
  induction held with
  | nil => exact .inr (List.mem_singleton.mp member)
  | cons first rest ih =>
      rw [insert] at member
      split at member
      · rcases List.mem_cons.mp member with same | later
        · exact .inr same
        · exact .inl (List.mem_cons_of_mem _ later)
      · rcases List.mem_cons.mp member with rfl | later
        · exact .inl List.mem_cons_self
        · exact (ih later).imp_left (List.mem_cons_of_mem _)

theorem get?_mem {vault : Vault} {name : String} {minted : Minted}
    (found : vault.get? name = some minted) : (name, minted) ∈ vault.minted := by
  obtain ⟨entry, here, rfl⟩ := Option.map_eq_some_iff.mp found
  have matched := List.find?_some here
  rw [← beq_iff_eq.mp matched]
  exact List.mem_of_find?_eq_some here

theorem hold_spec (vault : Vault) (name : String) (answer : Answer) :
    (vault.hold build name answer).1 = vault ∧
        ((vault.hold build name answer).2 = .ok () → (vault.get? name).isSome = true) ∨
      ∃ minted masker, (vault.hold build name answer).2 = .ok () ∧
        Scrub.of build ((vault.handed ++ [(name, minted)]).map fun held =>
          (held.1 ++ "." ++ fieldToken, held.2.token)) = some masker ∧
        (vault.hold build name answer).1 =
          { minted := insert vault.minted name minted
            retired := vault.retired ++ ((vault.get? name).map fun old => (name, old)).toList
            masker := some masker } := by
  unfold hold
  split
  · rename_i fresh
    refine .inl ⟨rfl, fun _ => ?_⟩
    cases found : vault.get? name with
    | none =>
        rw [found] at fresh
        cases fresh
    | some minted => rfl
  · split
    · exact .inl ⟨rfl, fun ok => nomatch ok⟩
    · rename_i minted _
      split
      · exact .inl ⟨rfl, fun ok => nomatch ok⟩
      · rename_i masker built
        exact .inr ⟨minted, masker, rfl, built, rfl⟩

theorem hold_ok {vault : Vault} {name : String} {answer : Answer}
    (held : (vault.hold build name answer).2 = .ok ()) :
    ∃ minted, (vault.hold build name answer).1.get? name = some minted := by
  rcases vault.hold_spec name answer with ⟨same, found⟩ | ⟨minted, masker, -, -, after⟩
  · rw [same]
    exact Option.isSome_iff_exists.mp (found held)
  · exact ⟨minted, by rw [after, get?, get?_insert]; rfl⟩

theorem hold_error {vault : Vault} {name : String} {answer : Answer} {refusal : Error}
    (failed : (vault.hold build name answer).2 = .error refusal) :
    (vault.hold build name answer).1 = vault := by
  rcases vault.hold_spec name answer with ⟨same, -⟩ | ⟨_, _, ok, -, -⟩
  · exact same
  · rw [ok] at failed
    cases failed

theorem handed_hold {vault : Vault} (name : String) (answer : Answer) {entry : String × Minted}
    (member : entry ∈ vault.handed) : entry ∈ (vault.hold build name answer).1.handed := by
  rcases vault.hold_spec name answer with ⟨same, -⟩ | ⟨minted, masker, -, -, after⟩
  · rw [same]
    exact member
  · rw [after, handed]
    rcases List.mem_append.mp member with now | before
    · rcases mem_insert minted now with stays | found
      · exact List.mem_append_left _ stays
      · have replaced : vault.get? name = some entry.2 := by rw [get?, found]; rfl
        have matched := List.find?_some found
        have named : entry.1 = name := beq_iff_eq.mp matched
        rw [replaced, ← named]
        exact List.mem_append_right _ (List.mem_append_right _ List.mem_cons_self)
    · exact List.mem_append_right _ (List.mem_append_left _ before)

/-! ## Every hold -/

def Covered (vault : Vault) : Prop :=
  ∀ entry ∈ vault.handed, entry.2.token ≠ "" → vault.Masks entry.2.token

theorem covered_new : Covered new := fun _ member => absurd member List.not_mem_nil

theorem mem_secrets {named : List (String × String)} {masker : Scrub}
    (built : Scrub.of build named = some masker) {entry : String × String} (member : entry ∈ named)
    (some_char : entry.2 ≠ "") : entry.2 ∈ masker.secrets := by
  obtain ⟨matcher, -, rfl⟩ := Option.map_eq_some_iff.mp built
  refine List.mem_map_of_mem (List.mem_filter.mpr ⟨member, ?_⟩)
  rw [Bool.not_eq_true', String.isEmpty_eq_false_iff]
  exact some_char

theorem Covered.hold {vault : Vault} (covered : vault.Covered) (name : String) (answer : Answer) :
    (vault.hold build name answer).1.Covered := by
  rcases vault.hold_spec name answer with ⟨same, -⟩ | ⟨minted, masker, -, built, after⟩
  · rw [same]
    exact covered
  · rw [after]
    intro entry member some_char
    have known : entry ∈ vault.handed ++ [(name, minted)] := by
      rcases List.mem_append.mp member with now | before
      · rcases of_mem_insert now with stays | rfl
        · exact List.mem_append_left _ (List.mem_append_left _ stays)
        · exact List.mem_append_right _ List.mem_cons_self
      · rcases List.mem_append.mp before with retired | replaced
        · exact List.mem_append_left _ (List.mem_append_right _ retired)
        · obtain ⟨old, found, rfl⟩ := Option.mem_toList.mp replaced |> Option.map_eq_some_iff.mp
          exact List.mem_append_left _ (List.mem_append_left _ (get?_mem found))
    exact ⟨masker, rfl, mem_secrets built (List.mem_map_of_mem known) some_char⟩

theorem Covered.holding {vault : Vault} (covered : vault.Covered)
    (holds : List (String × Answer)) :
    (vault.holding build holds).Covered ∧
      ∀ entry ∈ vault.handed, entry ∈ (vault.holding build holds).handed := by
  induction holds generalizing vault with
  | nil => exact ⟨covered, fun _ member => member⟩
  | cons hold rest ih =>
      obtain ⟨still, kept⟩ := ih (covered.hold hold.1 hold.2)
      exact ⟨still, fun entry member => kept entry (handed_hold hold.1 hold.2 member)⟩

/-- A hold at any point of a lease answers with a token that is masked then and after every
later hold, unless it is empty; one that fails leaves the vault as it was. -/
theorem minted_stay_masked (build : (patterns : List Bytes) → Option (AhoCorasick patterns))
    (before after : List (String × Answer)) (name : String) (answer : Answer) :
    ((new.holding build before).hold build name answer).2 = .ok () ∧
        (∃ minted, ((new.holding build before).hold build name answer).1.get? name = some minted ∧
          (minted.token ≠ "" →
            (((new.holding build before).hold build name answer).1.holding build after).Masks
              minted.token)) ∨
      (∃ refusal, ((new.holding build before).hold build name answer).2 = .error refusal) ∧
        ((new.holding build before).hold build name answer).1 = new.holding build before := by
  have covered : (new.holding build before).Covered := (covered_new.holding before).1
  cases answered : ((new.holding build before).hold build name answer).2 with
  | error refusal => exact .inr ⟨⟨refusal, rfl⟩, hold_error answered⟩
  | ok _ =>
      obtain ⟨minted, found⟩ := hold_ok answered
      have later :
          (((new.holding build before).hold build name answer).1.holding build after).Covered ∧
          ∀ entry ∈ ((new.holding build before).hold build name answer).1.handed, entry ∈
            (((new.holding build before).hold build name answer).1.holding build after).handed :=
        (covered.hold name answer).holding after
      obtain ⟨still, kept⟩ := later
      refine .inl ⟨rfl, minted, found, fun some_char => ?_⟩
      exact still _ (kept _ (List.mem_append_left _ (get?_mem found))) some_char

/-- A mint that answers an empty token is held, and masks nothing. -/
theorem empty_token_unmasked :
    ((new.hold (fun patterns => some (Secrets.Carry.scanning patterns)) "github"
        ⟨0, .ok ⟨"", 60000⟩⟩).1.get? "github").map Minted.token = some "" ∧
      ¬ (new.hold (fun patterns => some (Secrets.Carry.scanning patterns)) "github"
        ⟨0, .ok ⟨"", 60000⟩⟩).1.Masks "" := by
  refine ⟨rfl, ?_⟩
  rintro ⟨masker, -, member⟩
  exact masker.some_char "" member rfl

end Vault

end Agentsfleet.Egress
