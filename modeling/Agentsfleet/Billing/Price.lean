import Agentsfleet.Billing.Usage
import Agentsfleet.Core.Bounds
import Mathlib.Algebra.Order.Ring.Int
import Mathlib.Data.List.Basic
import Mathlib.Tactic.Linarith

/-!
# Price

What a request costs: the dated tiers of one model, the rater that turns a line
into nanos, and the reservation a paid decision is admitted against.  The source
computes in `i128` and narrows once; every step here is held to that width.
-/

set_option autoImplicit false

namespace Agentsfleet.Billing

open Agentsfleet.Core

structure Price where
  effectiveFrom : Int
  effectiveUntil : Option Int
  promptTokensAbove : Int32
  inputNanosPerMtok : Int64
  cachedInputNanosPerMtok : Int64
  cacheWriteNanosPerMtok : Option Int64
  cacheWrite5mNanosPerMtok : Option Int64
  cacheWrite1hNanosPerMtok : Option Int64
  outputNanosPerMtok : Int64
deriving DecidableEq

structure Tier where
  id : String
  price : Price
deriving DecidableEq

/-- Inclusive start, exclusive end. -/
def Tier.covers (tier : Tier) (instant : Int) : Bool :=
  decide (tier.price.effectiveFrom ≤ instant) &&
    match tier.price.effectiveUntil with
    | none => true
    | some stop => decide (instant < stop)

/-- The base tier takes every request, any other those above its threshold. -/
def Tier.admits (tier : Tier) (wholePrompt : Nat) : Bool :=
  tier.price.promptTokensAbove.toInt = 0 ||
    decide (tier.price.promptTokensAbove.toInt < (wholePrompt : Int))

structure PriceBook where
  tiers : List Tier
deriving DecidableEq

inductive PriceError where
  /-- `i128` arithmetic left its width. -/
  | overflow
  | chargeOverflow
deriving DecidableEq

/-! ## Arithmetic -/

def tokensPerMtok : Int := 1000000

def runNanosPerSec : Int := 100000

def msPerSec : Int := 1000

/-- One `i128` operation's result. -/
def wide (value : Int) : Except PriceError Int :=
  if inI128 value then .ok value else .error .overflow

def ceilDiv (numerator denominator : Int) : Except PriceError Int := do
  let raised ← wide (numerator + denominator)
  let raised ← wide (raised - 1)
  wide (raised.tdiv denominator)

/-! ## The reservation -/

/-- What one tier reserves; `none` when it does not fit an `i64`. -/
def Price.reservation (price : Price) (input output : UInt32) :
    Except PriceError (Option Int) := do
  let inputRate :=
    max (max price.inputNanosPerMtok.toInt price.cachedInputNanosPerMtok.toInt)
      (price.cacheWriteNanosPerMtok.getD price.inputNanosPerMtok).toInt
  let prompt ← wide (input.toNat * inputRate)
  let prompt ← ceilDiv prompt tokensPerMtok
  let prompt ← wide (prompt + 2)
  let answer ← wide (output.toNat * price.outputNanosPerMtok.toInt)
  let answer ← ceilDiv answer tokensPerMtok
  let total ← wide (prompt + answer)
  return if inI64 total then some total else none

/-- `collect::<Option<Vec<_>>>`: stopped at the first tier without one. -/
def reservations (input output : UInt32) : List Tier → Except PriceError (Option (List Int))
  | [] => .ok (some [])
  | tier :: rest => do
      match ← tier.price.reservation input output with
      | none => return none
      | some nanos =>
          match ← reservations input output rest with
          | none => return none
          | some others => return some (nanos :: others)

def PriceBook.decisionReservation (book : PriceBook) (instant : Int) (input output : UInt32) :
    Except PriceError (Option Int) := do
  match ← reservations input output (book.tiers.filter fun tier => tier.covers instant) with
  | none => return none
  | some nanos => return nanos.max?

/-! ## The rate -/

/-- `max_by_key`: the last of the tiers with the highest threshold. -/
def highest : List Tier → Option Tier
  | [] => none
  | tier :: rest =>
      match highest rest with
      | none => some tier
      | some best =>
          if best.price.promptTokensAbove.toInt < tier.price.promptTokensAbove.toInt then some tier
          else some best

def PriceBook.quote (book : PriceBook) (instant : Int) (wholePrompt : Nat) : Option Tier :=
  highest (book.tiers.filter fun tier => tier.covers instant && tier.admits wholePrompt)

/-- The span a piece of work ran over. -/
structure Window where
  since : Int
  stop : Int
deriving DecidableEq

def Window.clamp (window : Window) (instant : Int) : Int :=
  max window.since (min instant (max window.stop window.since))

structure Rater where
  book : PriceBook
  posture : Posture
  window : Window

def tokensOf (usage : UsageLine) : Nat := usage.wholePrompt + usage.outputTokens.toNat

def categories (usage : UsageLine) (price : Price) : List (UInt32 × Option Int64) :=
  [(usage.inputTokens, some price.inputNanosPerMtok),
    (usage.cachedInputTokens, some price.cachedInputNanosPerMtok),
    (usage.cacheWriteTokens, price.cacheWriteNanosPerMtok),
    (usage.cacheWrite5mTokens, price.cacheWrite5mNanosPerMtok),
    (usage.cacheWrite1hTokens, price.cacheWrite1hNanosPerMtok),
    (usage.outputTokens, some price.outputNanosPerMtok)]

/-- The fold of `token_cost`: the cost so far, and the tokens left unpriced. -/
def addCategories : List (UInt32 × Option Int64) → Int → Nat → Except PriceError (Int × Nat)
  | [], cost, unpriced => .ok (cost, unpriced)
  | (tokens, some rate) :: rest, cost, unpriced => do
      let product ← wide (tokens.toNat * rate.toInt)
      let nanos ← ceilDiv product tokensPerMtok
      let cost ← wide (cost + nanos)
      addCategories rest cost unpriced
  | (tokens, none) :: rest, cost, unpriced => addCategories rest cost (unpriced + tokens.toNat)

def tokenCost (usage : UsageLine) (price : Price) : Except PriceError (Int × Nat) :=
  addCategories (categories usage price) 0 0

def Rater.tokens (rater : Rater) (usage : UsageLine) :
    Except PriceError (Option String × Int × Nat) :=
  match rater.posture with
  | .selfManaged => .ok (none, 0, 0)
  | .platform =>
      match rater.book.quote usage.instant usage.wholePrompt with
      | none => .ok (none, 0, tokensOf usage)
      | some tier => do
          let (cost, unpriced) ← tokenCost usage tier.price
          return (some tier.id, cost, unpriced)

def Rater.rate (rater : Rater) (line : UsageLine) : Except PriceError RatedLine := do
  let usage := { line with instant := rater.window.clamp line.instant }
  let runtime ← wide (usage.runtimeMs.toNat * runNanosPerSec)
  let runtime ← ceilDiv runtime msPerSec
  let (price, tokens, unpriced) ← rater.tokens usage
  let charged ← wide (runtime + tokens)
  if inI64 charged then
    return { usage := usage, price := price, charged := charged, unpricedTokens := unpriced }
  else throw .chargeOverflow

structure FrozenQuote where
  instant : Int
  book : PriceBook
deriving DecidableEq

def FrozenQuote.rate (quote : FrozenQuote) (line : UsageLine) : Except PriceError RatedLine :=
  Rater.rate ⟨quote.book, .platform, ⟨quote.instant, quote.instant⟩⟩ line

/-- The line `known` rates a receipt by: cache writes not split by lifetime. -/
def knownLine (seq : Nat) (instant : Int) (uncached cached cacheWrite output : UInt32) :
    UsageLine where
  seq := seq
  instant := instant
  inputTokens := uncached
  cachedInputTokens := cached
  cacheWriteTokens := cacheWrite
  cacheWrite5mTokens := 0
  cacheWrite1hTokens := 0
  outputTokens := output
  runtimeMs := 0

/-! ## Rates that are not negative -/

structure Price.Nonneg (price : Price) : Prop where
  input : 0 ≤ price.inputNanosPerMtok.toInt
  cached : 0 ≤ price.cachedInputNanosPerMtok.toInt
  cacheWrite : ∀ rate, price.cacheWriteNanosPerMtok = some rate → 0 ≤ rate.toInt
  cacheWrite5m : ∀ rate, price.cacheWrite5mNanosPerMtok = some rate → 0 ≤ rate.toInt
  cacheWrite1h : ∀ rate, price.cacheWrite1hNanosPerMtok = some rate → 0 ≤ rate.toInt
  output : 0 ≤ price.outputNanosPerMtok.toInt

def nanosFor (tokens : Nat) (rate : Int) : Int := (tokens * rate + 999999) / 1000000

theorem nanosFor_nonneg (tokens : Nat) {rate : Int} (nonneg : 0 ≤ rate) :
    0 ≤ nanosFor tokens rate := by
  have product : 0 ≤ (tokens : Int) * rate := Int.mul_nonneg (Int.natCast_nonneg _) nonneg
  unfold nanosFor
  omega

theorem nanosFor_mono {tokens more : Nat} {rate dearer : Int} (fewer : tokens ≤ more)
    (nonneg : 0 ≤ rate) (cheaper : rate ≤ dearer) :
    nanosFor tokens rate ≤ nanosFor more dearer := by
  have product : (tokens : Int) * rate ≤ more * dearer := by
    apply Int.mul_le_mul
    · exact Int.ofNat_le.mpr fewer
    · exact cheaper
    · exact nonneg
    · exact Int.natCast_nonneg _
  unfold nanosFor
  omega

/-- Three counts rounded up on their own cost at most two nanos more than
rounded up together. -/
theorem nanosFor_three (first second third : Nat) (rate : Int) :
    nanosFor first rate + nanosFor second rate + nanosFor third rate ≤
      nanosFor (first + second + third) rate + 2 := by
  have spread : ((first + second + third : Nat) : Int) * rate =
      first * rate + second * rate + third * rate := by
    rw [Int.natCast_add, Int.natCast_add, Int.add_mul, Int.add_mul]
  unfold nanosFor
  rw [spread]
  omega

theorem product_lt {tokens : Nat} {rate : Int} (count : tokens < 2 ^ 32) (bound : rate < 2 ^ 63)
    (nonneg : 0 ≤ rate) : (tokens : Int) * rate < 2 ^ 95 := by
  have at_most : (tokens : Int) * rate ≤ (2 ^ 32 - 1) * (2 ^ 63 - 1) := by
    apply Int.mul_le_mul
    · omega
    · omega
    · exact nonneg
    · decide
  omega

theorem nanosFor_lt {tokens : Nat} {rate : Int} (count : tokens < 2 ^ 32) (bound : rate < 2 ^ 63)
    (nonneg : 0 ≤ rate) : nanosFor tokens rate < 2 ^ 95 := by
  have product := product_lt count bound nonneg
  have low : 0 ≤ (tokens : Int) * rate := Int.mul_nonneg (Int.natCast_nonneg _) nonneg
  unfold nanosFor
  omega

theorem wide_ok {value : Int} (low : 0 ≤ value) (high : value < 2 ^ 100) :
    wide value = .ok value := by
  unfold wide
  rw [if_pos (inI128_of_abs (by omega) (by omega))]

theorem ceilDiv_ok {numerator denominator : Int} (low : 0 ≤ numerator)
    (high : numerator < 2 ^ 98) (positive : 0 < denominator) (small : denominator < 2 ^ 98) :
    ceilDiv numerator denominator = .ok ((numerator + denominator - 1) / denominator) := by
  have raised : 0 ≤ numerator + denominator - 1 := by omega
  have quotient := Int.ediv_le_self denominator raised
  have quotient_nonneg := Int.ediv_nonneg raised (Int.le_of_lt positive)
  unfold ceilDiv
  rw [wide_ok (by omega) (by omega)]
  change wide (numerator + denominator - 1) >>= _ = _
  rw [wide_ok raised (by omega)]
  change wide ((numerator + denominator - 1).tdiv denominator) = _
  rw [Int.tdiv_eq_ediv_of_nonneg raised]
  exact wide_ok quotient_nonneg (by omega)

theorem category_ok {tokens : Nat} {rate : Int} (count : tokens < 2 ^ 32)
    (bound : rate < 2 ^ 63) (nonneg : 0 ≤ rate) :
    (wide (tokens * rate) >>= fun product => ceilDiv product tokensPerMtok) =
      .ok (nanosFor tokens rate) := by
  have product := product_lt count bound nonneg
  have low : 0 ≤ (tokens : Int) * rate := Int.mul_nonneg (Int.natCast_nonneg _) nonneg
  rw [wide_ok low (by omega)]
  change ceilDiv (tokens * rate) tokensPerMtok = _
  rw [ceilDiv_ok low (by omega) (by decide) (by decide)]
  unfold nanosFor tokensPerMtok
  congr 2
  omega

/-! ## What a tier reserves -/

/-- The dearest way a prompt token can be priced when writes are not split. -/
def Price.inputRate (price : Price) : Int :=
  max (max price.inputNanosPerMtok.toInt price.cachedInputNanosPerMtok.toInt)
    (price.cacheWriteNanosPerMtok.getD price.inputNanosPerMtok).toInt

def Price.reserved (price : Price) (input output : UInt32) : Int :=
  nanosFor input.toNat price.inputRate + 2 +
    nanosFor output.toNat price.outputNanosPerMtok.toInt

theorem inputRate_lt (price : Price) : price.inputRate < 2 ^ 63 := by
  have first := price.inputNanosPerMtok.toInt_lt
  have second := price.cachedInputNanosPerMtok.toInt_lt
  have third := (price.cacheWriteNanosPerMtok.getD price.inputNanosPerMtok).toInt_lt
  unfold Price.inputRate
  omega

theorem inputRate_nonneg {price : Price} (nonneg : price.Nonneg) : 0 ≤ price.inputRate := by
  have first := nonneg.input
  unfold Price.inputRate
  omega

theorem reservation_ok {price : Price} (nonneg : price.Nonneg) (input output : UInt32) :
    price.reservation input output =
      .ok (if inI64 (price.reserved input output) then some (price.reserved input output)
        else none) := by
  have rate := inputRate_nonneg nonneg
  have prompt := category_ok input.toNat_lt (inputRate_lt price) rate
  have answer := category_ok output.toNat_lt price.outputNanosPerMtok.toInt_lt nonneg.output
  have prompt_lt := nanosFor_lt input.toNat_lt (inputRate_lt price) rate
  have answer_lt := nanosFor_lt output.toNat_lt price.outputNanosPerMtok.toInt_lt nonneg.output
  have prompt_nonneg := nanosFor_nonneg input.toNat rate
  have answer_nonneg := nanosFor_nonneg output.toNat nonneg.output
  obtain ⟨first, product, divided⟩ := bind_eq_ok.mp prompt
  obtain ⟨second, answered, rounded⟩ := bind_eq_ok.mp answer
  unfold Price.reservation
  change (wide (input.toNat * price.inputRate) >>= _) = _
  rw [product]
  change (ceilDiv first tokensPerMtok >>= _) = _
  rw [divided]
  change (wide (nanosFor input.toNat price.inputRate + 2) >>= _) = _
  rw [wide_ok (by omega) (by omega)]
  change (wide (output.toNat * price.outputNanosPerMtok.toInt) >>= _) = _
  rw [answered]
  change (ceilDiv second tokensPerMtok >>= _) = _
  rw [rounded]
  change (wide (price.reserved input output) >>= _) = _
  rw [wide_ok (by unfold Price.reserved; omega) (by unfold Price.reserved; omega)]
  rfl

theorem reservations_ok (input output : UInt32) {tiers : List Tier}
    (nonneg : ∀ tier ∈ tiers, tier.price.Nonneg) :
    ∃ answer, reservations input output tiers = .ok answer ∧
      ∀ nanos, answer = some nanos →
        nanos = tiers.map (fun tier => tier.price.reserved input output) ∧
          ∀ tier ∈ tiers, inI64 (tier.price.reserved input output) = true := by
  induction tiers with
  | nil =>
      refine ⟨some [], rfl, ?_⟩
      intro nanos same
      cases same
      exact ⟨rfl, by simp⟩
  | cons tier rest ih =>
      have first := reservation_ok (nonneg tier (by simp)) input output
      obtain ⟨others, remaining, found⟩ := ih fun other member => nonneg other (by simp [member])
      unfold reservations
      rw [first]
      cases fits : inI64 (tier.price.reserved input output) with
      | false => exact ⟨none, rfl, nofun⟩
      | true =>
          change ∃ answer, (reservations input output rest >>= _) = _ ∧ _
          rw [remaining]
          cases others with
          | none => exact ⟨none, rfl, nofun⟩
          | some nanos =>
              refine ⟨some (tier.price.reserved input output :: nanos), rfl, ?_⟩
              intro all same
              cases same
              obtain ⟨listed, fit⟩ := found nanos rfl
              refine ⟨by rw [listed, List.map_cons], ?_⟩
              intro other member
              rcases List.mem_cons.mp member with rfl | inside
              · exact fits
              · exact fit other inside

theorem reserved_nonneg {price : Price} (nonneg : price.Nonneg) (input output : UInt32) :
    0 ≤ price.reserved input output := by
  have prompt := nanosFor_nonneg input.toNat (inputRate_nonneg nonneg)
  have answer := nanosFor_nonneg output.toNat nonneg.output
  unfold Price.reserved
  omega

theorem decisionReservation_ok {book : PriceBook}
    (nonneg : ∀ tier ∈ book.tiers, tier.price.Nonneg) (instant : Int) (input output : UInt32) :
    ∃ answer, book.decisionReservation instant input output = .ok answer ∧
      ∀ reserved, answer = some reserved →
        0 ≤ reserved ∧ reserved < 2 ^ 63 ∧
          ∀ tier ∈ book.tiers, tier.covers instant = true →
            tier.price.reserved input output ≤ reserved := by
  have covering : ∀ tier ∈ book.tiers.filter fun tier => tier.covers instant,
      tier.price.Nonneg := fun tier member => nonneg tier (List.mem_filter.mp member).1
  obtain ⟨answer, asked, bounded⟩ := reservations_ok input output covering
  unfold PriceBook.decisionReservation
  rw [asked]
  cases answer with
  | none => exact ⟨none, rfl, nofun⟩
  | some nanos =>
      refine ⟨nanos.max?, rfl, ?_⟩
      intro reserved best
      obtain ⟨listed, fit⟩ := bounded nanos rfl
      obtain ⟨member, largest⟩ := List.max?_eq_some_iff.mp best
      rw [listed] at member
      obtain ⟨tier, held, rfl⟩ := List.mem_map.mp member
      obtain ⟨inside, _⟩ := List.mem_filter.mp held
      refine ⟨reserved_nonneg (nonneg tier inside) input output,
        (inI64_iff.mp (fit tier held)).2, ?_⟩
      intro other listed_other covered
      apply largest
      rw [listed]
      exact List.mem_map.mpr ⟨other, List.mem_filter.mpr ⟨listed_other, covered⟩, rfl⟩

/-! ## What a line is charged -/

theorem highest_mem {tiers : List Tier} {best : Tier} (found : highest tiers = some best) :
    best ∈ tiers := by
  induction tiers with
  | nil => exact nomatch found
  | cons tier rest ih =>
      unfold highest at found
      cases others : highest rest with
      | none =>
          rw [others] at found
          cases found
          exact List.mem_cons_self
      | some candidate =>
          simp only [others] at found
          split at found
          · cases found
            exact List.mem_cons_self
          · cases found
            exact List.mem_cons_of_mem _ (ih others)

theorem quote_covers {book : PriceBook} {instant : Int} {wholePrompt : Nat} {tier : Tier}
    (quoted : book.quote instant wholePrompt = some tier) :
    tier ∈ book.tiers ∧ tier.covers instant = true := by
  obtain ⟨member, kept⟩ := List.mem_filter.mp (highest_mem quoted)
  rw [Bool.and_eq_true] at kept
  exact ⟨member, kept.1⟩

def categoryNanos : UInt32 × Option Int64 → Int
  | (tokens, some rate) => nanosFor tokens.toNat rate.toInt
  | (_, none) => 0

def categoryNonneg (category : UInt32 × Option Int64) : Prop :=
  ∀ rate, category.2 = some rate → 0 ≤ rate.toInt

def categoryUnpriced : UInt32 × Option Int64 → Nat
  | (_, some _) => 0
  | (tokens, none) => tokens.toNat

theorem addCategories_eq {list : List (UInt32 × Option Int64)} (cost : Int) (unpriced : Nat)
    (nonneg : ∀ category ∈ list, categoryNonneg category) (low : 0 ≤ cost)
    (high : cost + list.length * 2 ^ 95 < 2 ^ 99) :
    addCategories list cost unpriced =
      .ok (cost + (list.map categoryNanos).sum, unpriced + (list.map categoryUnpriced).sum) := by
  induction list generalizing cost unpriced with
  | nil => simp [addCategories]
  | cons category rest ih =>
      have others : ∀ other ∈ rest, categoryNonneg other :=
        fun other member => nonneg other (by simp [member])
      rw [List.length_cons, Int.natCast_add, Int.add_mul] at high
      obtain ⟨tokens, rate⟩ := category
      cases rate with
      | none =>
          have added := ih cost (unpriced + tokens.toNat) others low (by omega)
          simpa [addCategories, categoryNanos, categoryUnpriced, Nat.add_assoc] using added
      | some rate =>
          have positive : 0 ≤ rate.toInt := nonneg (tokens, some rate) (by simp) rate rfl
          have below := nanosFor_lt tokens.toNat_lt rate.toInt_lt positive
          have above := nanosFor_nonneg tokens.toNat positive
          obtain ⟨product, multiplied, divided⟩ :=
            bind_eq_ok.mp (category_ok tokens.toNat_lt rate.toInt_lt positive)
          have added := ih (cost + nanosFor tokens.toNat rate.toInt) unpriced
            others (by omega) (by omega)
          unfold addCategories
          rw [multiplied]
          change (ceilDiv product tokensPerMtok >>= _) = _
          rw [divided]
          change (wide (cost + nanosFor tokens.toNat rate.toInt) >>= _) = _
          rw [wide_ok (by omega) (by omega)]
          change addCategories rest _ unpriced = _
          rw [added, List.map_cons, List.sum_cons, Int.add_assoc, List.map_cons, List.sum_cons,
            categoryUnpriced, Nat.zero_add]
          rfl

theorem addCategories_ok {list : List (UInt32 × Option Int64)} (cost : Int) (unpriced : Nat)
    (nonneg : ∀ category ∈ list, categoryNonneg category) (low : 0 ≤ cost)
    (high : cost + list.length * 2 ^ 95 < 2 ^ 99) :
    ∃ left, addCategories list cost unpriced = .ok (cost + (list.map categoryNanos).sum, left) :=
  ⟨_, addCategories_eq cost unpriced nonneg low high⟩

theorem categoryNanos_nonneg {category : UInt32 × Option Int64}
    (nonneg : categoryNonneg category) : 0 ≤ categoryNanos category := by
  obtain ⟨tokens, rate⟩ := category
  cases rate with
  | none => exact Int.le_refl 0
  | some rate => exact nanosFor_nonneg _ (nonneg rate rfl)

theorem sum_categories_nonneg {list : List (UInt32 × Option Int64)}
    (nonneg : ∀ category ∈ list, categoryNonneg category) :
    0 ≤ (list.map categoryNanos).sum := by
  induction list with
  | nil => exact Int.le_refl 0
  | cons category rest ih =>
      have first := categoryNanos_nonneg (nonneg category List.mem_cons_self)
      have others := ih fun other member => nonneg other (List.mem_cons_of_mem _ member)
      rw [List.map_cons, List.sum_cons]
      omega

theorem categories_nonneg {price : Price} (nonneg : price.Nonneg) (usage : UsageLine) :
    ∀ category ∈ categories usage price, categoryNonneg category := by
  intro category member
  simp only [categories, List.mem_cons, List.not_mem_nil, or_false] at member
  rcases member with rfl | rfl | rfl | rfl | rfl | rfl
  · intro rate same
    cases same
    exact nonneg.input
  · intro rate same
    cases same
    exact nonneg.cached
  · exact nonneg.cacheWrite
  · exact nonneg.cacheWrite5m
  · exact nonneg.cacheWrite1h
  · intro rate same
    cases same
    exact nonneg.output

/-- What the categories of a decision's line cost stays within the tier's
reservation, where its counts stay within the reserved counts. -/
theorem known_cost_le {price : Price} (nonneg : price.Nonneg) (seq : Nat) (instant : Int)
    {uncached cached cacheWrite answer input output : UInt32}
    (prompt_fits : uncached.toNat + cached.toNat + cacheWrite.toNat ≤ input.toNat)
    (answer_fits : answer.toNat ≤ output.toNat) :
    ((categories (knownLine seq instant uncached cached cacheWrite answer) price).map
      categoryNanos).sum ≤ price.reserved input output := by
  have plain := nanosFor_mono (Nat.le_refl uncached.toNat) nonneg.input
    (show price.inputNanosPerMtok.toInt ≤ price.inputRate by unfold Price.inputRate; omega)
  have cache := nanosFor_mono (Nat.le_refl cached.toNat) nonneg.cached
    (show price.cachedInputNanosPerMtok.toInt ≤ price.inputRate by unfold Price.inputRate; omega)
  have written : categoryNanos (cacheWrite, price.cacheWriteNanosPerMtok) ≤
      nanosFor cacheWrite.toNat price.inputRate := by
    cases rated : price.cacheWriteNanosPerMtok with
    | none => exact nanosFor_nonneg _ (inputRate_nonneg nonneg)
    | some rate =>
        refine nanosFor_mono (Nat.le_refl _) (nonneg.cacheWrite rate rated) ?_
        simp only [Price.inputRate, rated, Option.getD_some]
        omega
  have together := nanosFor_three uncached.toNat cached.toNat cacheWrite.toNat price.inputRate
  have most := nanosFor_mono prompt_fits (inputRate_nonneg nonneg) (Int.le_refl price.inputRate)
  have completed := nanosFor_mono answer_fits nonneg.output
    (Int.le_refl price.outputNanosPerMtok.toInt)
  have split_5m : categoryNanos (0, price.cacheWrite5mNanosPerMtok) = 0 := by
    cases price.cacheWrite5mNanosPerMtok with
    | none => rfl
    | some rate => simp [categoryNanos, nanosFor]
  have split_1h : categoryNanos (0, price.cacheWrite1hNanosPerMtok) = 0 := by
    cases price.cacheWrite1hNanosPerMtok with
    | none => rfl
    | some rate => simp [categoryNanos, nanosFor]
  simp only [categories, knownLine, List.map_cons, List.map_nil, List.sum_cons, List.sum_nil,
    split_5m, split_1h]
  simp only [categoryNanos] at written ⊢
  unfold Price.reserved
  omega

theorem rate_usage {rater : Rater} {line : UsageLine} {rated : RatedLine}
    (priced : rater.rate line = .ok rated) :
    rated.usage.seq = line.seq ∧ rated.usage.runtimeMs = line.runtimeMs := by
  unfold Rater.rate at priced
  obtain ⟨_, _, priced⟩ := bind_eq_ok.mp priced
  obtain ⟨_, _, priced⟩ := bind_eq_ok.mp priced
  obtain ⟨tokens, _, priced⟩ := bind_eq_ok.mp priced
  obtain ⟨charged, _, priced⟩ := bind_eq_ok.mp priced
  by_cases fits : inI64 charged = true
  · rw [if_pos fits] at priced
    cases priced
    exact ⟨rfl, rfl⟩
  · rw [if_neg fits] at priced
    exact nomatch priced

theorem clamp_instant (instant : Int) : (Window.mk instant instant).clamp instant = instant := by
  simp [Window.clamp]

/-- A line of a decision rates at the cost of its categories, or at nothing
where no tier covers it. -/
theorem rate_known (quote : FrozenQuote) (price : Option String) (cost : Int) (unpriced : Nat)
    {seq : Nat} {uncached cached cacheWrite answer : UInt32}
    (tokens : Rater.tokens ⟨quote.book, .platform, ⟨quote.instant, quote.instant⟩⟩
      (knownLine seq quote.instant uncached cached cacheWrite answer) = .ok (price, cost, unpriced))
    (low : 0 ≤ cost) (high : cost < 2 ^ 63) :
    quote.rate (knownLine seq quote.instant uncached cached cacheWrite answer) =
      .ok ⟨knownLine seq quote.instant uncached cached cacheWrite answer, price, cost,
        unpriced⟩ := by
  have runtime : (wide (((0 : UInt32).toNat : Int) * runNanosPerSec) >>=
      fun product => ceilDiv product msPerSec) = .ok 0 := by decide +kernel
  obtain ⟨product, multiplied, divided⟩ := bind_eq_ok.mp runtime
  have same : { knownLine seq quote.instant uncached cached cacheWrite answer with
      instant := (Window.mk quote.instant quote.instant).clamp quote.instant } =
        knownLine seq quote.instant uncached cached cacheWrite answer := by
    rw [clamp_instant]
    rfl
  unfold FrozenQuote.rate Rater.rate
  change (wide (((0 : UInt32).toNat : Int) * runNanosPerSec) >>= _) = _
  rw [multiplied]
  change (ceilDiv product msPerSec >>= _) = _
  rw [divided]
  change (Rater.tokens _ { knownLine seq quote.instant uncached cached cacheWrite answer with
    instant := (Window.mk quote.instant quote.instant).clamp quote.instant } >>= _) = _
  rw [same, tokens]
  change (wide (0 + cost) >>= _) = _
  rw [Int.zero_add, wide_ok low (by omega)]
  change (if inI64 cost = true then _ else _) = _
  rw [if_pos (inI64_iff.mpr ⟨by omega, high⟩)]
  change Except.ok (RatedLine.mk
    { knownLine seq quote.instant uncached cached cacheWrite answer with
      instant := (Window.mk quote.instant quote.instant).clamp quote.instant }
    price cost unpriced) = _
  rw [same]

/-- A decision reserves at least what its usage is charged, and neither
computation leaves its width. -/
theorem charge_within_reservation (book : PriceBook)
    (nonneg : ∀ tier ∈ book.tiers, tier.price.Nonneg) (instant : Int) (input output : UInt32) :
    ∃ answer, book.decisionReservation instant input output = .ok answer ∧
      ∀ reserved, answer = some reserved →
        ∀ (seq : Nat) (uncached cached cacheWrite completed : UInt32),
          uncached.toNat + cached.toNat + cacheWrite.toNat ≤ input.toNat →
          completed.toNat ≤ output.toNat →
            ∃ rated, FrozenQuote.rate ⟨instant, book⟩
                (knownLine seq instant uncached cached cacheWrite completed) = .ok rated ∧
              rated.charged ≤ reserved := by
  obtain ⟨answer, asked, bounded⟩ := decisionReservation_ok nonneg instant input output
  refine ⟨answer, asked, ?_⟩
  intro reserved answered seq uncached cached cacheWrite completed prompt_fits answer_fits
  obtain ⟨low, high, covers⟩ := bounded reserved answered
  cases quoted : book.quote instant
      (knownLine seq instant uncached cached cacheWrite completed).wholePrompt with
  | none =>
      refine ⟨_, rate_known ⟨instant, book⟩ none 0
        (tokensOf (knownLine seq instant uncached cached cacheWrite completed))
        ?_ (by decide) (by decide), low⟩
      simp only [Rater.tokens, knownLine] at quoted ⊢
      rw [quoted]
  | some tier =>
      obtain ⟨member, covered⟩ := quote_covers quoted
      have positive := nonneg tier member
      obtain ⟨left, cost⟩ := addCategories_ok 0 0
        (categories_nonneg positive
          (knownLine seq instant uncached cached cacheWrite completed))
        (Int.le_refl 0) (by simp [categories])
      have within := known_cost_le positive seq instant prompt_fits answer_fits
      have reserve := covers tier member covered
      rw [Int.zero_add] at cost
      have cost_nonneg := sum_categories_nonneg (categories_nonneg positive
        (knownLine seq instant uncached cached cacheWrite completed))
      refine ⟨_, rate_known ⟨instant, book⟩ (some tier.id) _ left ?_ cost_nonneg (by omega),
        Int.le_trans within reserve⟩
      simp only [Rater.tokens]
      rw [show (knownLine seq instant uncached cached cacheWrite completed).instant = instant
        from rfl, quoted]
      change (tokenCost _ tier.price >>= _) = _
      rw [tokenCost, cost]
      rfl

/-- A book with a base tier and a dearer one above 500 prompt tokens, whose
writes the dearer tier leaves unpriced. -/
def tieredBook : PriceBook :=
  ⟨[⟨"base", ⟨0, none, 0, 3000000, 300000, some 3750000, none, none, 15000000⟩⟩,
    ⟨"long", ⟨0, some 100, 500, 6000001, 600000, none, none, none, 22500000⟩⟩]⟩

/-- A prompt of 901 tokens in three categories, priced at the upper tier. -/
theorem tiered_charge_within_reservation :
    ∃ rated, FrozenQuote.rate ⟨7, tieredBook⟩ (knownLine 3221225472 7 700 200 1 50) = .ok rated ∧
      rated.charged ≤ 6534 := by
  have nonneg : ∀ tier ∈ tieredBook.tiers, tier.price.Nonneg := by
    intro tier member
    simp only [tieredBook, List.mem_cons, List.not_mem_nil, or_false] at member
    rcases member with rfl | rfl
    · exact ⟨by decide, by decide, by simp, by simp, by simp, by decide⟩
    · exact ⟨by decide, by decide, by simp, by simp, by simp, by decide⟩
  have reserved : tieredBook.decisionReservation 7 901 50 = .ok (some 6534) := by decide +kernel
  obtain ⟨answer, asked, bounded⟩ := charge_within_reservation tieredBook nonneg 7 901 50
  rw [reserved] at asked
  cases asked
  exact bounded 6534 rfl 3221225472 700 200 1 50 (by decide) (by decide)

end Agentsfleet.Billing
