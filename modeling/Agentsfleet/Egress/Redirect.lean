import Agentsfleet.Egress.Request
import Agentsfleet.Library.Run

/-!
# Redirect chains

One admitted GET and the continuations `next` drafts for it, over any sequence
of responses.  What a URL is belongs to the URL library: its text, the URL
without its fragment, joining and origins are parameters here.
-/

set_option autoImplicit false

namespace Agentsfleet.Egress

open Agentsfleet.Library

/-- The largest number of continuations for a single tool call. -/
def maxRedirects : Nat := 3
/-- The largest raw or resolved redirect URL admitted for one hop. -/
def targetMaxBytes : Nat := 8192

inductive Stop where
  | invalidTarget
  | loop
  | hopLimit
  | privacy
deriving DecidableEq, Repr

def Stop.reason : Stop → String
  | .invalidTarget => "redirect has no single valid bounded Location"
  | .loop => "redirect loop refused"
  | .hopLimit => "redirect limit exceeded"
  | .privacy => "redirect response could not be safely masked"

structure Urls (Url : Type) where
  text : Url → String
  parse : String → Option Url
  join : Url → String → Option Url
  withoutFragment : Url → Url
  sameOrigin : Url → Url → Bool

/-- A validated Location and its absolute destination. -/
structure Target (Url : Type) where
  raw : String
  resolved : Url

structure Inbound (Url : Type) where
  status : Nat
  contentType : Option String
  body : String
  truncated : Bool
  redirect : Option (Target Url)
  followedRedirects : Nat

/-- Whether a status can continue a bodyless GET. -/
def follows (status : Nat) : Bool :=
  status == 301 || status == 302 || status == 303 || status == 307 || status == 308

/-- Private state of one call; `privacy` holds the targets whose spellings are
masked. -/
structure Chain (Url : Type) where
  current : Url
  headers : List (String × String)
  seen : List String
  privacy : List (Target Url)
  hops : Nat
  stripped : Bool
  started : Bool
  ending : String
  status : Nat

section Url

variable {Url : Type} (urls : Urls Url)

/-- `identity`: the text of a URL but for its fragment. -/
def identity (url : Url) : String := urls.text (urls.withoutFragment url)

/-- `Written`: from one byte to the bound. -/
def written (text : String) : Bool :=
  decide (1 ≤ text.utf8ByteSize) && decide (text.utf8ByteSize ≤ targetMaxBytes)

/-- `Target::new`: one bounded Location, resolved against the request's URL. -/
def Target.new (base : Url) (raw : String) : Except Stop (Target Url) :=
  if !written raw then .error .invalidTarget
  else
    match urls.join base raw with
    | none => .error .invalidTarget
    | some joined =>
        if !written (urls.text joined) then .error .invalidTarget
        else
          match urls.parse (urls.text joined) with
          | none => .error .invalidTarget
          | some resolved => .ok ⟨raw, resolved⟩

/-- `Target::from_headers`: only a single readable header continues a chain. -/
def Target.fromHeaders (base : Url) : List (Option String) → Option (Target Url)
  | [some raw] => (Target.new urls base raw).toOption
  | _ => none

namespace Chain

def new (current : Url) (headers : List (String × String)) : Chain Url :=
  ⟨current, headers, [identity urls current], [], 0, false, false, "interrupted", 0⟩

/-- `continuation`, without the response it takes the target from. -/
def continuation (chain : Chain Url) (redirect : Option (Target Url)) :
    Chain Url × Except Stop Draft :=
  match redirect with
  | none => (chain, .error .invalidTarget)
  | some target =>
      let chain := { chain with privacy := chain.privacy ++ [target] }
      if identity urls target.resolved ∈ chain.seen then (chain, .error .loop)
      else if chain.hops = maxRedirects then (chain, .error .hopLimit)
      else
        let chain :=
          if urls.sameOrigin chain.current target.resolved then chain
          else { chain with headers := [], stripped := true }
        let chain :=
          { chain with
            current := target.resolved
            seen := chain.seen ++ [identity urls target.resolved]
            hops := chain.hops + 1 }
        (chain, .ok ⟨"GET", urls.text chain.current, chain.headers, none, .authorization⟩)

/-- `next`; `clean` masks the known targets in a response that ends the chain. -/
def next (clean : List (Target Url) → Inbound Url → Except Stop (Inbound Url))
    (chain : Chain Url) (response : Inbound Url) :
    Chain Url × Inbound Url × Except Stop (Option Draft) :=
  let chain := { chain with status := response.status }
  if !follows response.status then
    match clean chain.privacy response with
    | .error reason => ({ chain with ending := reason.reason }, response, .error reason)
    | .ok cleaned => (chain, { cleaned with followedRedirects := chain.hops }, .ok none)
  else
    let chain := { chain with started := true }
    let taken := { response with redirect := none }
    match chain.continuation urls response.redirect with
    | (chain, .error reason) => ({ chain with ending := reason.reason }, taken, .error reason)
    | (chain, .ok draft) => (chain, taken, .ok (some draft))

end Chain

/-! ## Walks -/

structure Hop (Url : Type) where
  source : Url
  target : Url
  draft : Draft

structure Walk (Url : Type) where
  chain : Chain Url
  hops : List (Hop Url)

def Walk.start (current : Url) (headers : List (String × String)) : Walk Url :=
  ⟨Chain.new urls current headers, []⟩

def Walk.step (clean : List (Target Url) → Inbound Url → Except Stop (Inbound Url))
    (walk : Walk Url) (response : Inbound Url) : Walk Url :=
  match walk.chain.next urls clean response with
  | (chain, _, .ok (some draft)) =>
      ⟨chain, walk.hops ++ [⟨walk.chain.current, chain.current, draft⟩]⟩
  | (chain, _, _) => ⟨chain, walk.hops⟩

def Walk.requested (first : Url) (walk : Walk Url) : List Url :=
  first :: walk.hops.map Hop.target

def Hop.crosses (hop : Hop Url) : Bool := !urls.sameOrigin hop.source hop.target

/-! ## One response -/

structure Chain.Same (chain next : Chain Url) : Prop where
  current : next.current = chain.current
  headers : next.headers = chain.headers
  seen : next.seen = chain.seen
  hops : next.hops = chain.hops

/-- A chain moved to `target`, and the draft that asks for it. -/
structure Chain.Moved (chain next : Chain Url) (target : Url) (draft : Draft) : Prop where
  fresh : identity urls target ∉ chain.seen
  left : chain.hops ≠ maxRedirects
  current : next.current = target
  headers : next.headers = if urls.sameOrigin chain.current target then chain.headers else []
  seen : next.seen = chain.seen ++ [identity urls target]
  hops : next.hops = chain.hops + 1
  draft : draft = ⟨"GET", urls.text target, next.headers, none, .authorization⟩

theorem Chain.continuation_cases (chain : Chain Url) (redirect : Option (Target Url)) :
    (∃ reason, (chain.continuation urls redirect).2 = .error reason ∧
        chain.Same (chain.continuation urls redirect).1) ∨
      ∃ target draft, (chain.continuation urls redirect).2 = .ok draft ∧
        chain.Moved urls (chain.continuation urls redirect).1 target draft := by
  unfold Chain.continuation
  cases redirect with
  | none => exact .inl ⟨.invalidTarget, rfl, rfl, rfl, rfl, rfl⟩
  | some target =>
      by_cases met : identity urls target.resolved ∈ chain.seen
      · simp only [if_pos met]
        exact .inl ⟨.loop, rfl, rfl, rfl, rfl, rfl⟩
      · by_cases spent : chain.hops = maxRedirects
        · simp only [if_neg met, if_pos spent]
          exact .inl ⟨.hopLimit, rfl, rfl, rfl, rfl, rfl⟩
        · simp only [if_neg met, if_neg spent]
          by_cases same : urls.sameOrigin chain.current target.resolved = true
          · simp only [if_pos same]
            exact .inr ⟨target.resolved, _, rfl, met, spent, rfl, (if_pos same).symm, rfl, rfl, rfl⟩
          · simp only [if_neg same]
            exact .inr ⟨target.resolved, _, rfl, met, spent, rfl, (if_neg same).symm, rfl, rfl, rfl⟩

theorem Walk.step_cases (clean : List (Target Url) → Inbound Url → Except Stop (Inbound Url))
    (walk : Walk Url) (response : Inbound Url) :
    (walk.chain.Same (walk.step urls clean response).chain ∧
        (walk.step urls clean response).hops = walk.hops) ∨
      ∃ target draft, walk.chain.Moved urls (walk.step urls clean response).chain target draft ∧
        (walk.step urls clean response).hops =
          walk.hops ++ [⟨walk.chain.current, target, draft⟩] := by
  unfold Walk.step Chain.next
  cases followed : follows response.status with
  | false =>
      simp only [Bool.not_false, if_true]
      cases clean walk.chain.privacy response with
      | error reason => exact .inl ⟨⟨rfl, rfl, rfl, rfl⟩, rfl⟩
      | ok cleaned => exact .inl ⟨⟨rfl, rfl, rfl, rfl⟩, rfl⟩
  | true =>
      simp only [Bool.not_true, Bool.false_eq_true, if_false]
      have cases_of := Chain.continuation_cases urls
        { walk.chain with status := response.status, started := true } response.redirect
      cases made : Chain.continuation urls
        { walk.chain with status := response.status, started := true } response.redirect with
      | mk chain outcome =>
          rw [made] at cases_of
          rcases cases_of with ⟨reason, failed, same⟩ | ⟨target, draft, drafted, moved⟩
          · simp only at failed
            subst failed
            exact .inl ⟨⟨same.current, same.headers, same.seen, same.hops⟩, rfl⟩
          · simp only at drafted
            subst drafted
            refine .inr ⟨target, draft, ⟨moved.fresh, moved.left, moved.current, moved.headers,
              moved.seen, moved.hops, moved.draft⟩, ?_⟩
            simp only
            rw [moved.current]

/-! ## Whole chains -/

section Walks

variable (first : Url) (headers : List (String × String))

structure Walk.Sound (walk : Walk Url) : Prop where
  counted : walk.chain.hops = walk.hops.length ∧ walk.hops.length ≤ maxRedirects
  seen : walk.chain.seen = (walk.requested first).map (identity urls)
  fresh : walk.chain.seen.Nodup
  linked : walk.hops.map Hop.source ++ [walk.chain.current] = walk.requested first
  drafts : ∀ hop ∈ walk.hops, hop.draft.method = "GET" ∧ hop.draft.body = none ∧
    hop.draft.url = urls.text hop.target
  carried : ∀ hop ∈ walk.hops, hop.crosses urls = true →
    hop.draft.headers = [] ∧ walk.chain.headers = []
  dropped : walk.hops.Pairwise fun earlier later =>
    earlier.crosses urls = true → later.draft.headers = []
  original : walk.chain.headers = headers ∨ walk.chain.headers = []

theorem Walk.sound_start : (Walk.start urls first headers).Sound urls first headers where
  counted := ⟨rfl, Nat.zero_le _⟩
  seen := rfl
  fresh := by simp [Walk.start, Chain.new]
  linked := rfl
  drafts _ member := absurd member List.not_mem_nil
  carried _ member := absurd member List.not_mem_nil
  dropped := List.Pairwise.nil
  original := .inl rfl

variable {urls first headers}

theorem Walk.Sound.step (clean : List (Target Url) → Inbound Url → Except Stop (Inbound Url))
    {walk : Walk Url} (sound : walk.Sound urls first headers) (response : Inbound Url) :
    (walk.step urls clean response).Sound urls first headers := by
  rcases walk.step_cases urls clean response with ⟨same, kept⟩ | ⟨target, draft, moved, grown⟩
  · have requested : (walk.step urls clean response).requested first = walk.requested first := by
      rw [Walk.requested, kept, Walk.requested]
    refine ⟨?_, ?_, ?_, ?_, ?_, ?_, ?_, ?_⟩
    · rw [same.hops, kept]
      exact sound.counted
    · rw [same.seen, requested]
      exact sound.seen
    · rw [same.seen]
      exact sound.fresh
    · rw [kept, same.current, requested]
      exact sound.linked
    · rw [kept]
      exact sound.drafts
    · rw [kept, same.headers]
      exact sound.carried
    · rw [kept]
      exact sound.dropped
    · rw [same.headers]
      exact sound.original
  · have requested : (walk.step urls clean response).requested first =
        walk.requested first ++ [target] := by
      rw [Walk.requested, grown, List.map_append, Walk.requested]
      rfl
    -- A chain whose headers went keeps none to carry.
    have stays : walk.chain.headers = [] → (walk.step urls clean response).chain.headers = [] := by
      intro none_left
      rw [moved.headers, none_left]
      split <;> rfl
    refine ⟨?_, ?_, ?_, ?_, ?_, ?_, ?_, ?_⟩
    · have counted := sound.counted
      have left := moved.left
      rw [moved.hops, grown, List.length_append, List.length_singleton]
      omega
    · rw [moved.seen, requested, List.map_append, sound.seen]
      rfl
    · rw [moved.seen, List.nodup_append]
      refine ⟨sound.fresh, by simp, ?_⟩
      rintro name member other single rfl
      rw [List.mem_singleton.mp single] at member
      exact moved.fresh member
    · rw [grown, moved.current, requested, List.map_append, List.map_singleton, sound.linked]
    · intro hop member
      rw [grown] at member
      rcases List.mem_append.mp member with old | new
      · exact sound.drafts hop old
      · rw [List.mem_singleton.mp new, moved.draft]
        exact ⟨rfl, rfl, rfl⟩
    · intro hop member crosses
      rw [grown] at member
      rcases List.mem_append.mp member with old | new
      · obtain ⟨its_own, gone⟩ := sound.carried hop old crosses
        exact ⟨its_own, stays gone⟩
      · have here := List.mem_singleton.mp new
        rw [here] at crosses ⊢
        have away : urls.sameOrigin walk.chain.current target = false := by
          simpa [Hop.crosses] using crosses
        have none_left : (walk.step urls clean response).chain.headers = [] := by
          rw [moved.headers, away]
          rfl
        refine ⟨?_, none_left⟩
        rw [moved.draft]
        exact none_left
    · rw [grown, List.pairwise_append]
      refine ⟨sound.dropped, List.pairwise_singleton _ _, ?_⟩
      intro earlier member later new crosses
      rw [List.mem_singleton.mp new, moved.draft]
      exact stays (sound.carried earlier member crosses).2
    · rw [moved.headers]
      split
      · exact sound.original
      · exact .inr rfl

structure Walk.Safe (urls : Urls Url) (first : Url) (walk : Walk Url) : Prop where
  bounded : walk.hops.length ≤ maxRedirects
  /-- Each continuation starts where the last one went. -/
  linked : walk.hops.map Hop.source ++ [walk.chain.current] = walk.requested first
  once : ((walk.requested first).map urls.withoutFragment).Nodup
  bodyless : ∀ hop ∈ walk.hops, hop.draft.method = "GET" ∧ hop.draft.body = none ∧
    hop.draft.url = urls.text hop.target
  stripped : ∀ hop ∈ walk.hops, hop.crosses urls = true → hop.draft.headers = []
  sticky : walk.hops.Pairwise fun earlier later =>
    earlier.crosses urls = true → later.draft.headers = []

end Walks

end Url

/-- Over every sequence of responses, whatever their targets. -/
theorem redirects_safe {Url : Type} (urls : Urls Url)
    (clean : List (Target Url) → Inbound Url → Except Stop (Inbound Url)) (first : Url)
    (headers : List (String × String)) (responses : List (Inbound Url)) :
    (Run.final (Walk.step urls clean) (Walk.start urls first headers) responses).Safe
      urls first := by
  have sound := Run.invariant_of_step (Walk.Sound urls first headers)
    (fun _ response held => Walk.Sound.step clean held response)
    (Walk.sound_start urls first headers) responses _
    (Run.final_mem_states (Walk.step urls clean) (Walk.start urls first headers) responses)
  refine ⟨sound.counted.2, sound.linked, ?_, sound.drafts,
    fun hop member crosses => (sound.carried hop member crosses).1, sound.dropped⟩
  have fresh := sound.fresh
  have texts : (identity urls : Url → String) = urls.text ∘ urls.withoutFragment := rfl
  rw [sound.seen, texts, ← List.map_map] at fresh
  exact List.Pairwise.of_map _ (fun _ _ differs same => differs (by rw [same])) fresh

end Agentsfleet.Egress
