import Agentsfleet.Billing.Price
import Mathlib.Data.Rat.Floor
import Mathlib.Tactic.NormNum

/-!
# A charge is exact but for its rounding

What the tiers of a book say a line costs, as a rational, beside what the rater charges.
-/

set_option autoImplicit false

namespace Agentsfleet.Billing

open Agentsfleet.Core

/-! ## The tier of a request -/

def Tier.threshold (tier : Tier) : Int := tier.price.promptTokensAbove.toInt

/-- The tier's dates hold the instant, and the prompt exceeds its threshold; the base tier takes
every prompt. -/
def Tier.Takes (tier : Tier) (instant : Int) (wholePrompt : Nat) : Prop :=
  (tier.price.effectiveFrom ≤ instant ∧
    ∀ stop, tier.price.effectiveUntil = some stop → instant < stop) ∧
  (tier.threshold = 0 ∨ tier.threshold < wholePrompt)

def Distinct (tiers : List Tier) (instant : Int) : Prop :=
  ∀ first ∈ tiers, ∀ second ∈ tiers, first.covers instant = true → second.covers instant = true →
    first.threshold = second.threshold → first = second

/-- The tier a usage is priced at: the highest its prompt exceeds, and none on a key of the
tenant's own. -/
def Chosen (rater : Rater) (usage : UsageLine) : Option Tier → Prop
  | none => rater.posture = .selfManaged ∨
      ∀ tier ∈ rater.book.tiers, ¬ tier.Takes usage.instant usage.wholePrompt
  | some tier => rater.posture = .platform ∧ tier ∈ rater.book.tiers ∧
      tier.Takes usage.instant usage.wholePrompt ∧
      ∀ other ∈ rater.book.tiers, other.Takes usage.instant usage.wholePrompt →
        other.threshold ≤ tier.threshold

theorem covers_iff {tier : Tier} {instant : Int} :
    tier.covers instant = true ↔ tier.price.effectiveFrom ≤ instant ∧
      ∀ stop, tier.price.effectiveUntil = some stop → instant < stop := by
  unfold Tier.covers
  rw [Bool.and_eq_true, decide_eq_true_iff]
  cases tier.price.effectiveUntil with
  | none => simp
  | some stop => simp

theorem takes_iff {tier : Tier} {instant : Int} {wholePrompt : Nat} :
    (tier.covers instant && tier.admits wholePrompt) = true ↔ tier.Takes instant wholePrompt := by
  rw [Bool.and_eq_true, covers_iff]
  refine and_congr Iff.rfl ?_
  simp [Tier.admits, Tier.threshold]

theorem highest_none {tiers : List Tier} (none_ : highest tiers = none) : tiers = [] := by
  cases tiers with
  | nil => rfl
  | cons tier rest =>
      unfold highest at none_
      cases others : highest rest with
      | none =>
          rw [others] at none_
          cases none_
      | some best =>
          rw [others] at none_
          dsimp only at none_
          split at none_
          · cases none_
          · cases none_

theorem highest_le {tiers : List Tier} {best : Tier} (found : highest tiers = some best) :
    ∀ tier ∈ tiers, tier.threshold ≤ best.threshold := by
  induction tiers generalizing best with
  | nil => cases found
  | cons first rest ih =>
      unfold highest at found
      cases others : highest rest with
      | none =>
          rw [others] at found
          cases found
          rw [highest_none others]
          simp
      | some candidate =>
          rw [others] at found
          dsimp only at found
          have below := ih others
          by_cases higher : candidate.price.promptTokensAbove.toInt <
              first.price.promptTokensAbove.toInt
          · rw [if_pos higher] at found
            cases found
            refine List.forall_mem_cons.mpr ⟨Int.le_refl _, fun tier member => ?_⟩
            exact Int.le_of_lt (Int.lt_of_le_of_lt (below tier member) higher)
          · rw [if_neg higher] at found
            cases found
            exact List.forall_mem_cons.mpr ⟨Int.not_lt.mp higher, below⟩

def Rater.tier (rater : Rater) (usage : UsageLine) : Option Tier :=
  match rater.posture with
  | .selfManaged => none
  | .platform => rater.book.quote usage.instant usage.wholePrompt

theorem chosen_tier (rater : Rater) (usage : UsageLine) :
    Chosen rater usage (rater.tier usage) := by
  unfold Rater.tier
  cases posture : rater.posture with
  | selfManaged => exact .inl posture
  | platform =>
      dsimp only
      cases quoted : rater.book.quote usage.instant usage.wholePrompt with
      | none =>
          refine .inr fun tier listed takes => ?_
          have kept := List.filter_eq_nil_iff.mp (highest_none quoted) tier listed
          exact kept (takes_iff.mpr takes)
      | some tier =>
          obtain ⟨listed, kept⟩ := List.mem_filter.mp (highest_mem quoted)
          refine ⟨posture, listed, takes_iff.mp kept, fun other held takes => ?_⟩
          exact highest_le quoted other (List.mem_filter.mpr ⟨held, takes_iff.mpr takes⟩)

theorem chosen_unique {rater : Rater} {usage : UsageLine} {first second : Option Tier}
    (distinct : Distinct rater.book.tiers usage.instant) (one : Chosen rater usage first)
    (other : Chosen rater usage second) : first = second := by
  cases first with
  | none =>
      cases second with
      | none => rfl
      | some tier =>
          obtain ⟨platform, listed, takes, -⟩ := other
          rcases one with selfManaged | nothing
          · rw [platform] at selfManaged
            cases selfManaged
          · exact absurd takes (nothing tier listed)
  | some tier =>
      obtain ⟨platform, listed, takes, top⟩ := one
      cases second with
      | none =>
          rcases other with selfManaged | nothing
          · rw [platform] at selfManaged
            cases selfManaged
          · exact absurd takes (nothing tier listed)
      | some rival =>
          obtain ⟨-, held, taken, best⟩ := other
          refine congrArg some (distinct tier listed rival held (covers_iff.mpr takes.1)
            (covers_iff.mpr taken.1) ?_)
          exact Int.le_antisymm (best tier listed takes) (top rival held taken)

/-! ## The exact price -/

def exactNanos : UInt32 × Option Int64 → ℚ
  | (tokens, some rate) => ((tokens.toNat * rate.toInt : Int) : ℚ) / tokensPerMtok
  | (_, none) => 0

def exactRuntime (usage : UsageLine) : ℚ :=
  ((usage.runtimeMs.toNat * runNanosPerSec : Int) : ℚ) / msPerSec

def chargedCategories (usage : UsageLine) : Option Tier → List (UInt32 × Option Int64)
  | none => []
  | some tier => categories usage tier.price

def exactPrice (usage : UsageLine) (tier : Option Tier) : ℚ :=
  exactRuntime usage + ((chargedCategories usage tier).map exactNanos).sum

def roundedPrice (usage : UsageLine) (tier : Option Tier) : Int :=
  ⌈exactRuntime usage⌉ +
    ((chargedCategories usage tier).map fun category => ⌈exactNanos category⌉).sum

def pricedTokens (usage : UsageLine) (tier : Option Tier) : Nat :=
  ((chargedCategories usage tier).map fun category =>
    if category.2.isSome then category.1.toNat else 0).sum

theorem nanosFor_eq_ceil (tokens : Nat) (rate : Int) :
    nanosFor tokens rate = ⌈((tokens * rate : Int) : ℚ) / tokensPerMtok⌉ := by
  have million : ((tokensPerMtok : Int) : ℚ) = ((1000000 : Nat) : ℚ) := by
    norm_num [tokensPerMtok]
  rw [million, Rat.ceil_intCast_div_natCast]
  unfold nanosFor
  omega

theorem categoryNanos_eq_ceil (category : UInt32 × Option Int64) :
    categoryNanos category = ⌈exactNanos category⌉ := by
  obtain ⟨tokens, rate⟩ := category
  cases rate with
  | none => exact Int.ceil_zero.symm
  | some rate => exact nanosFor_eq_ceil tokens.toNat rate.toInt

theorem exactRuntime_eq (usage : UsageLine) :
    exactRuntime usage = ((usage.runtimeMs.toNat * 100 : Int) : ℚ) := by
  unfold exactRuntime
  have rate : ((msPerSec : Int) : ℚ) = 1000 := by norm_num [msPerSec]
  rw [rate, div_eq_iff (by norm_num)]
  norm_num [runNanosPerSec, mul_assoc]

theorem ceil_exactRuntime (usage : UsageLine) :
    ⌈exactRuntime usage⌉ = usage.runtimeMs.toNat * 100 := by
  rw [exactRuntime_eq, Int.ceil_intCast]

theorem sum_ceil_bounds (list : List (UInt32 × Option Int64)) :
    (list.map exactNanos).sum ≤ ((list.map fun category => ⌈exactNanos category⌉).sum : Int) ∧
      (((list.map fun category => ⌈exactNanos category⌉).sum : Int) : ℚ) ≤
        (list.map exactNanos).sum + list.length ∧
      (list ≠ [] → (((list.map fun category => ⌈exactNanos category⌉).sum : Int) : ℚ) <
        (list.map exactNanos).sum + list.length) := by
  induction list with
  | nil => simp
  | cons category rest ih =>
      obtain ⟨low, high, -⟩ := ih
      have above := Int.le_ceil (exactNanos category)
      have below := Int.ceil_lt_add_one (exactNanos category)
      rw [List.map_cons, List.sum_cons, List.map_cons, List.sum_cons, List.length_cons,
        Int.cast_add, Nat.cast_succ]
      refine ⟨by linarith, by linarith, fun _ => by linarith⟩

theorem categories_length (usage : UsageLine) (price : Price) :
    (categories usage price).length = 6 := rfl

/-- The charge is no less than the price and, over the six categories of a line, less than a
nano each more. -/
theorem roundedPrice_bounds (usage : UsageLine) (tier : Option Tier) :
    exactPrice usage tier ≤ roundedPrice usage tier ∧
      (roundedPrice usage tier : ℚ) < exactPrice usage tier + 6 := by
  obtain ⟨low, high, strict⟩ := sum_ceil_bounds (chargedCategories usage tier)
  have whole : ((⌈exactRuntime usage⌉ : Int) : ℚ) = exactRuntime usage := by
    rw [ceil_exactRuntime, exactRuntime_eq]
  unfold exactPrice roundedPrice
  rw [Int.cast_add, whole]
  refine ⟨by linarith, ?_⟩
  cases tier with
  | none =>
      have none : ((chargedCategories usage none).length : ℚ) = 0 := by
        rw [chargedCategories, List.length_nil, Nat.cast_zero]
      linarith
  | some tier =>
      have some : ((chargedCategories usage (some tier)).length : ℚ) = 6 := by
        rw [chargedCategories, categories_length]
        norm_num
      have := strict (by simp [chargedCategories, categories])
      linarith

/-! ## The charge -/

/-- A line as the rater takes it, its time inside the work's window. -/
def Rater.clamped (rater : Rater) (line : UsageLine) : UsageLine :=
  { line with instant := rater.window.clamp line.instant }

def unpricedTokens (rater : Rater) (usage : UsageLine) : Option Tier → Nat
  | none => match rater.posture with
    | .selfManaged => 0
    | .platform => tokensOf usage
  | some tier => ((categories usage tier.price).map categoryUnpriced).sum

theorem tokens_eq {rater : Rater} {usage : UsageLine}
    (nonneg : ∀ tier ∈ rater.book.tiers, tier.price.Nonneg) :
    rater.tokens usage = .ok ((rater.tier usage).map Tier.id,
      ((chargedCategories usage (rater.tier usage)).map categoryNanos).sum,
      unpricedTokens rater usage (rater.tier usage)) := by
  unfold Rater.tokens Rater.tier unpricedTokens
  cases rater.posture with
  | selfManaged => rfl
  | platform =>
      dsimp only
      cases quoted : rater.book.quote usage.instant usage.wholePrompt with
      | none => rfl
      | some tier =>
          have priced := categories_nonneg (nonneg tier (quote_covers quoted).1) usage
          dsimp only
          rw [tokenCost, addCategories_eq 0 0 priced (Int.le_refl 0)
            (by rw [categories_length]; omega)]
          change Except.ok _ = _
          rw [Int.zero_add, Nat.zero_add]
          rfl

theorem sum_categories_lt {list : List (UInt32 × Option Int64)}
    (nonneg : ∀ category ∈ list, categoryNonneg category) :
    (list.map categoryNanos).sum ≤ list.length * 2 ^ 95 := by
  induction list with
  | nil => exact Int.le_refl 0
  | cons category rest ih =>
      have others := ih fun other member => nonneg other (List.mem_cons_of_mem _ member)
      have first : categoryNanos category < 2 ^ 95 := by
        obtain ⟨tokens, rate⟩ := category
        cases rate with
        | none =>
            show (0 : Int) < 2 ^ 95
            norm_num
        | some rate =>
            exact nanosFor_lt tokens.toNat_lt rate.toInt_lt
              (nonneg (tokens, some rate) List.mem_cons_self rate rfl)
      rw [List.map_cons, List.sum_cons, List.length_cons, Int.natCast_add, Int.add_mul]
      omega

theorem runtime_ok {runtimeMs : Int} (low : 0 ≤ runtimeMs) (high : runtimeMs < 2 ^ 32) :
    (wide (runtimeMs * runNanosPerSec) >>= fun product => ceilDiv product msPerSec) =
      .ok (runtimeMs * 100) := by
  have product : runtimeMs * runNanosPerSec = runtimeMs * 100000 := rfl
  have second : msPerSec = 1000 := rfl
  rw [wide_ok (by omega) (by omega)]
  change ceilDiv (runtimeMs * runNanosPerSec) msPerSec = _
  rw [ceilDiv_ok (by omega) (by omega) (by decide) (by decide), product, second]
  refine congrArg Except.ok ?_
  omega

theorem rate_eq {rater : Rater} (line : UsageLine)
    (nonneg : ∀ tier ∈ rater.book.tiers, tier.price.Nonneg) :
    rater.rate line =
      let usage := rater.clamped line
      let tier := rater.tier usage
      if inI64 (roundedPrice usage tier) then
        .ok { usage := usage, price := tier.map Tier.id, charged := roundedPrice usage tier
              unpricedTokens := unpricedTokens rater usage tier }
      else .error .chargeOverflow := by
  have small := (rater.clamped line).runtimeMs.toNat_lt
  obtain ⟨product, multiplied, divided⟩ := bind_eq_ok.mp
    (runtime_ok (Int.natCast_nonneg (rater.clamped line).runtimeMs.toNat) (by omega))
  have priced : ∀ category ∈ chargedCategories (rater.clamped line)
      (rater.tier (rater.clamped line)), categoryNonneg category := by
    cases chosen : rater.tier (rater.clamped line) with
    | none => exact fun category member => absurd member List.not_mem_nil
    | some tier =>
        have listed := chosen_tier rater (rater.clamped line)
        rw [chosen] at listed
        exact categories_nonneg (nonneg tier listed.2.1) _
  have low := sum_categories_nonneg priced
  have high := sum_categories_lt priced
  have few : ((chargedCategories (rater.clamped line)
      (rater.tier (rater.clamped line))).length : Int) ≤ 6 := by
    cases rater.tier (rater.clamped line) with
    | none =>
        show (0 : Int) ≤ 6
        decide
    | some tier => exact Int.le_refl 6
  have rounded : roundedPrice (rater.clamped line) (rater.tier (rater.clamped line)) =
      (rater.clamped line).runtimeMs.toNat * 100 + ((chargedCategories (rater.clamped line)
        (rater.tier (rater.clamped line))).map categoryNanos).sum := by
    rw [roundedPrice, ceil_exactRuntime, ← funext categoryNanos_eq_ceil]
  dsimp only
  rw [rounded]
  unfold Rater.rate
  change (wide ((rater.clamped line).runtimeMs.toNat * runNanosPerSec) >>= _) = _
  rw [multiplied]
  change (ceilDiv product msPerSec >>= _) = _
  rw [divided]
  change (rater.tokens (rater.clamped line) >>= _) = _
  rw [tokens_eq nonneg]
  change (wide _ >>= _) = _
  rw [wide_ok (by omega) (by omega)]
  rfl

theorem priced_add_unpriced {rater : Rater} {usage : UsageLine}
    (posture : rater.posture = .platform) (tier : Option Tier) :
    pricedTokens usage tier + unpricedTokens rater usage tier = tokensOf usage := by
  cases tier with
  | none =>
      unfold unpricedTokens pricedTokens
      rw [posture]
      exact Nat.zero_add _
  | some tier =>
      have parts : ∀ list : List (UInt32 × Option Int64),
          (list.map fun category => if category.2.isSome then category.1.toNat else 0).sum +
            (list.map categoryUnpriced).sum = (list.map fun category => category.1.toNat).sum := by
        intro list
        induction list with
        | nil => rfl
        | cons category rest ih =>
            obtain ⟨tokens, rate⟩ := category
            rw [List.map_cons, List.sum_cons, List.map_cons, List.sum_cons, List.map_cons,
              List.sum_cons, ← ih]
            cases rate with
            | none =>
                simp only [categoryUnpriced, Option.isSome_none, Bool.false_eq_true, if_false]
                omega
            | some rate =>
                simp only [categoryUnpriced, Option.isSome_some, if_true]
                omega
      refine (parts (categories usage tier.price)).trans ?_
      simp only [categories, List.map_cons, List.map_nil, List.sum_cons, List.sum_nil]
      unfold tokensOf UsageLine.wholePrompt
      omega

/-- A line is charged its run time and, on the platform's key, each category of its tokens at
the tier its whole prompt exceeds, every part rounded up on its own; it is refused exactly when
that does not fit. -/
theorem rate_exact (rater : Rater) (line : UsageLine)
    (nonneg : ∀ tier ∈ rater.book.tiers, tier.price.Nonneg)
    (distinct : Distinct rater.book.tiers (rater.clamped line).instant) :
    ∃ tier, Chosen rater (rater.clamped line) tier ∧
      (∀ other, Chosen rater (rater.clamped line) other → other = tier) ∧
      (exactPrice (rater.clamped line) tier ≤ roundedPrice (rater.clamped line) tier ∧
        (roundedPrice (rater.clamped line) tier : ℚ) <
          exactPrice (rater.clamped line) tier + 6) ∧
      (inI64 (roundedPrice (rater.clamped line) tier) = true → ∃ rated,
        rater.rate line = .ok rated ∧ rated.usage = rater.clamped line ∧
        rated.price = tier.map Tier.id ∧
        rated.charged = roundedPrice (rater.clamped line) tier ∧
        (rater.posture = .platform →
          pricedTokens (rater.clamped line) tier + rated.unpricedTokens =
            tokensOf (rater.clamped line)) ∧
        (rater.posture = .selfManaged → rated.unpricedTokens = 0)) ∧
      (rater.rate line = .error .chargeOverflow ↔
        inI64 (roundedPrice (rater.clamped line) tier) = false) := by
  refine ⟨rater.tier (rater.clamped line), chosen_tier rater _, fun other chosen =>
    chosen_unique distinct chosen (chosen_tier rater _), roundedPrice_bounds _ _, ?_, ?_⟩
  · intro fits
    refine ⟨_, (rate_eq line nonneg).trans (if_pos fits), rfl, rfl, rfl, ?_, ?_⟩
    · intro platform
      exact priced_add_unpriced platform _
    · intro selfManaged
      show unpricedTokens rater _ (rater.tier _) = 0
      unfold Rater.tier unpricedTokens
      rw [selfManaged]
  · rw [rate_eq line nonneg]
    cases fits : inI64 (roundedPrice (rater.clamped line) (rater.tier (rater.clamped line))) with
    | true => simp [fits]
    | false => simp [fits]

def twoTiers : Rater where
  book := ⟨[dated "long" 200000 3000001, dated "base" 0 1500000]⟩
  posture := .platform
  window := ⟨0, 100⟩
where
  dated (id : String) (above : Int32) (rate : Int64) : Tier :=
    ⟨id, { effectiveFrom := 0, effectiveUntil := none, promptTokensAbove := above
           inputNanosPerMtok := rate, cachedInputNanosPerMtok := rate
           cacheWriteNanosPerMtok := none, cacheWrite5mNanosPerMtok := none
           cacheWrite1hNanosPerMtok := none, outputNanosPerMtok := rate }⟩

/-- A second of run time and a prompt past the upper threshold. -/
def longLine : UsageLine :=
  { UsageLine.runtime 1 50 1000 with inputTokens := 200001, outputTokens := 1 }

theorem twoTiers_nonneg : ∀ tier ∈ twoTiers.book.tiers, tier.price.Nonneg := by
  have tiers : ∀ id above rate, 0 ≤ rate.toInt → (twoTiers.dated id above rate).price.Nonneg :=
    fun id above rate low => ⟨low, low, nofun, nofun, nofun, low⟩
  intro tier member
  rcases List.mem_cons.mp member with rfl | member
  · exact tiers _ _ _ (by decide)
  · rw [List.mem_singleton.mp member]
    exact tiers _ _ _ (by decide)

theorem twoTiers_distinct (instant : Int) : Distinct twoTiers.book.tiers instant := by
  have apart : ∀ first ∈ twoTiers.book.tiers, ∀ second ∈ twoTiers.book.tiers,
      first.price.promptTokensAbove.toInt = second.price.promptTokensAbove.toInt →
        first = second := by decide
  exact fun first one second other _ _ same => apart first one second other same

theorem rate_exact_two_tiers :
    ∃ tier, Chosen twoTiers (twoTiers.clamped longLine) tier ∧
      exactPrice (twoTiers.clamped longLine) tier ≤
        roundedPrice (twoTiers.clamped longLine) tier ∧
      (twoTiers.rate longLine = .error .chargeOverflow ↔
        inI64 (roundedPrice (twoTiers.clamped longLine) tier) = false) := by
  obtain ⟨tier, chosen, -, bounds, -, refused⟩ :=
    rate_exact twoTiers longLine twoTiers_nonneg (twoTiers_distinct _)
  exact ⟨tier, chosen, bounds.1, refused⟩

/-- The charge is not the token categories alone: it holds the run time too. -/
theorem runtime_is_charged :
    ∃ rater line tier rated, (∀ listed ∈ rater.book.tiers, listed.price.Nonneg) ∧
      Distinct rater.book.tiers (rater.clamped line).instant ∧
      Chosen rater (rater.clamped line) (some tier) ∧ rater.rate line = .ok rated ∧
      rated.charged ≠ ((categories (rater.clamped line) tier.price).map
        fun category => ⌈exactNanos category⌉).sum := by
  refine ⟨twoTiers, longLine, twoTiers.dated "long" 200000 3000001,
    ⟨longLine, some "long", 700008, 0⟩, twoTiers_nonneg, twoTiers_distinct _, ?_, ?_, ?_⟩
  · exact chosen_tier twoTiers (twoTiers.clamped longLine)
  · decide +kernel
  · rw [← funext categoryNanos_eq_ceil]
    decide +kernel

end Agentsfleet.Billing
