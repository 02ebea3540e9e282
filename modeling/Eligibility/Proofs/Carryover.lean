import Mathlib
import Eligibility.Proofs.Attempts

namespace Eligibility

/-- What an attempt is told after attempts that were rejected with these failures. -/
def Carry.context (c : Carry) (rejected : List (List Failure)) : List Failure :=
  match c with
  | .replace => rejected.getLastD []
  | .accumulate => rejected.flatten

/-- One more rejection changes the context as the run does. -/
theorem Carry.context_concat (c : Carry) (rejected : List (List Failure)) (latest : List Failure) :
    c.context (rejected ++ [latest]) = c.next (c.context rejected) latest := by
  cases c with
  | replace => simp [context, next]
  | accumulate => simp [context, next]

/-- Once something was found in each attempt, there is something to be told. -/
theorem Carry.context_eq_nil {c : Carry} {rejected : List (List Failure)}
    (h : ∀ failures ∈ rejected, failures ≠ []) : c.context rejected = [] ↔ rejected = [] := by
  constructor
  · intro hnil
    by_contra hne
    cases c with
    | replace =>
      have hlast := h _ (List.getLast_mem hne)
      rw [context, List.getLastD_eq_getLast?, List.getLast?_eq_some_getLast hne] at hnil
      exact hlast hnil
    | accumulate =>
      obtain ⟨failures, hmem⟩ := List.exists_mem_of_ne_nil _ hne
      exact h failures hmem (List.flatten_eq_nil_iff.mp hnil failures hmem)
  · rintro rfl
    cases c <;> rfl

/-- The full validator finds something in what it rejects. -/
theorem Validator.full_rejected_ne_nil {σ : Type} {solver : Solver} {oracle : Oracle σ}
    {kinds : List Kind} {text : String} {r : Rule} {s t : σ} {failures : List Failure}
    (h : (Validator.full solver oracle kinds).validate text r s = (.ok (.rejected failures), t)) :
    failures ≠ [] := by
  have houtcome : ∀ found, Review.outcome r found = .rejected failures → failures ≠ [] := by
    intro found hfound
    cases found with
    | nil => cases hfound
    | cons f fs =>
      cases hfound
      exact List.cons_ne_nil f fs
  simp only [Validator.full] at h
  split at h
  · cases h
  · split at h
    · cases h
    · simp only [Prod.mk.injEq, Except.ok.injEq] at h
      exact houtcome _ h.1

namespace Run

structure Round where
  brief : Brief
  candidate : Rule
  failures : List Failure

def Round.events (text : String) (r : Round) : List Event :=
  [.drafted r.brief (.ok r.candidate), .judged text r.candidate (.ok (.rejected r.failures))]

section

variable (config : Config) (text : String)

def briefAfter (rounds : List Round) : Brief :=
  ⟨text, config.allowedKinds, config.carry.context (rounds.map Round.failures)⟩

/-- Each round was told of those before it. -/
def Informed (rounds : List Round) : Prop :=
  ∀ i r, rounds[i]? = some r → r.brief = briefAfter config text (rounds.take i)

end

variable {σ : Type} {config : Config} {g : Generator σ} {v : Validator σ} {text : String}

theorem Informed.concat {rounds : List Round} (h : Informed config text rounds) {r : Round}
    (hr : r.brief = briefAfter config text rounds) : Informed config text (rounds ++ [r]) := by
  intro i q hq
  rcases Nat.lt_or_ge i rounds.length with hi | hi
  · rw [List.getElem?_append_left hi] at hq
    rw [List.take_append_of_le_length (by omega)]
    exact h i q hq
  · rw [List.getElem?_append_right hi] at hq
    have hzero : i - rounds.length = 0 := by
      by_contra hne
      simp [hne] at hq
    have hlength : i = rounds.length := by omega
    subst hlength
    simp only [Nat.sub_self, List.getElem?_cons_zero, Option.some.injEq] at hq
    subst hq
    rw [List.take_left]
    exact hr

/-- Rejected attempts are rounds, each told of those before it, and so is the attempt to come. -/
theorem Rejections.exists_rounds {s t : σ} {n : Nat} {events : List Event} {prior : List Failure}
    (h : Rejections config g v text s n events prior t) :
    ∃ rounds : List Round, events = rounds.flatMap (Round.events text) ∧ rounds.length = n ∧
      prior = config.carry.context (rounds.map Round.failures) ∧ Informed config text rounds := by
  induction h with
  | none =>
    refine ⟨[], rfl, rfl, ?_, ?_⟩
    · cases config.carry <;> rfl
    · intro i r hr
      simp at hr
  | @more n events called prior latest t u before attempt ih =>
    obtain ⟨rounds, hevents, hlength, hprior, hinformed⟩ := ih
    cases attempt with
    | @judged r answer t' u' hdraft hkind hjudge =>
      have hbrief : (⟨text, config.allowedKinds, prior⟩ : Brief) =
          briefAfter config text rounds := by
        rw [briefAfter, hprior]
      refine ⟨rounds ++ [⟨⟨text, config.allowedKinds, prior⟩, r, latest⟩], ?_, ?_, ?_, ?_⟩
      · simp [hevents, Round.events]
      · simp [hlength]
      · rw [List.map_append, List.map_singleton, Carry.context_concat, hprior]
      · exact hinformed.concat hbrief

/-- What the validator is recorded to have answered, it has answered. -/
theorem Attempt.validated {prior : List Failure} {s t : σ} {called : List Event} {e : Ending}
    (h : Attempt config g v text prior s called e t) {r : Rule} {answer : Except Trouble Outcome}
    (hmem : Event.judged text r answer ∈ called) :
    ∃ s' t', v.validate text r s' = (answer, t') := by
  cases h with
  | undrafted hdraft => simp at hmem
  | unacceptable hdraft hkind => simp at hmem
  | @judged r' answer' u t hdraft hkind hjudge =>
    simp only [List.mem_cons, reduceCtorEq, Event.judged.injEq, true_and, List.not_mem_nil,
      or_false, false_or] at hmem
    obtain ⟨rfl, rfl⟩ := hmem
    exact ⟨u, t, hjudge⟩

theorem Rejections.validated {s t : σ} {n : Nat} {events : List Event} {prior : List Failure}
    (h : Rejections config g v text s n events prior t) {r : Rule} {answer : Except Trouble Outcome}
    (hmem : Event.judged text r answer ∈ events) :
    ∃ s' t', v.validate text r s' = (answer, t') := by
  induction h with
  | none => cases hmem
  | more before attempt ih =>
    rcases List.mem_append.mp hmem with hmem | hmem
    · exact ih hmem
    · exact attempt.validated hmem

/-- Every judgement of a run is an answer that the validator gave. -/
theorem Ends.validated {s t : σ} {k : Nat} {events : List Event} {e : Ending}
    (h : Ends config g v text s k events e t) {r : Rule} {answer : Except Trouble Outcome}
    (hmem : Event.judged text r answer ∈ events) :
    ∃ s' t', v.validate text r s' = (answer, t') := by
  cases h with
  | intro before attempt =>
    rcases List.mem_append.mp hmem with hmem | hmem
    · exact before.validated hmem
    · exact attempt.validated hmem

/-- An attempt starts with the only draft in it. -/
theorem Attempt.exists_draft {prior : List Failure} {s t : σ} {called : List Event} {e : Ending}
    (h : Attempt config g v text prior s called e t) :
    ∃ answer judged, called = .drafted ⟨text, config.allowedKinds, prior⟩ answer :: judged ∧
      ∀ event ∈ judged, event.isDraft = false := by
  cases h with
  | undrafted hdraft => exact ⟨_, _, rfl, by simp⟩
  | unacceptable hdraft hkind => exact ⟨_, _, rfl, by simp⟩
  | judged hdraft hkind hjudge => exact ⟨_, _, rfl, by simp [Event.isDraft]⟩

/-- After rounds that all found something, only the first draft is told of nothing. -/
theorem prior_briefAfter_take_eq_nil {rounds : List Round} (h : ∀ r ∈ rounds, r.failures ≠ [])
    {i : Nat} (hi : i ≤ rounds.length) :
    (briefAfter config text (rounds.take i)).prior = [] ↔ i = 0 := by
  have htold : ∀ failures ∈ (rounds.take i).map Round.failures, failures ≠ [] := by
    intro failures hmem
    obtain ⟨r, hr, rfl⟩ := List.mem_map.mp hmem
    exact h r (List.mem_of_mem_take hr)
  rw [briefAfter, Carry.context_eq_nil htold, List.map_eq_nil_iff, List.take_eq_nil_iff]
  constructor
  · rintro (hzero | hnone)
    · exact hzero
    · subst hnone
      simpa using hi
  · intro hzero
    exact .inl hzero

/-- What the generator is told in a run, whoever generates and validates.

All attempts but the last are rounds of a draft and a rejection. Every draft, the last one included,
is asked for with the same text and kinds, and with the context that the policy makes of the
failures of all rounds before it: none at first, later those of the latest round or those of all of
them in their order. If the full validator judges, no rejection is without failures, so the first
draft is the only one that is told of none. -/
theorem history_tells_context (hvalid : config.validate = .ok ()) (g : Generator σ)
    (v : Validator σ) (text : String) (s : σ) :
    ∃ (rounds : List Round) (answer : Except Trouble Rule) (judged : List Event),
      history config g v text s = rounds.flatMap (Round.events text) ++
        .drafted (briefAfter config text rounds) answer :: judged ∧
      (∀ event ∈ judged, event.isDraft = false) ∧
      rounds.length < config.maxAttempts ∧
      Informed config text rounds ∧
      ∀ (solver : Solver) (oracle : Oracle σ) (kinds : List Kind), v = .full solver oracle kinds →
        (∀ candidate failures, .judged text candidate (.ok (.rejected failures)) ∈
          history config g v text s → failures ≠ []) ∧
        ∀ i ≤ rounds.length, (briefAfter config text (rounds.take i)).prior = [] ↔ i = 0 := by
  obtain ⟨k, events, e, t, h⟩ := exists_concludes hvalid g v text s
  have hhistory := h.history hvalid
  obtain ⟨hends, hwithin, -⟩ := h
  -- Said of all events: the last attempt is no round, but it may have been rejected as well.
  have hfull : ∀ (solver : Solver) (oracle : Oracle σ) (kinds : List Kind),
      v = .full solver oracle kinds → ∀ candidate failures,
        .judged text candidate (.ok (.rejected failures)) ∈ events → failures ≠ [] := by
    rintro solver oracle kinds rfl candidate failures hmem
    obtain ⟨s', t', hvalidate⟩ := hends.validated hmem
    exact Validator.full_rejected_ne_nil hvalidate
  cases hends with
  | @intro n before called prior e t u hbefore attempt =>
    obtain ⟨rounds, rfl, hlength, hprior, hinformed⟩ := hbefore.exists_rounds
    obtain ⟨answer, judged, rfl, hjudged⟩ := attempt.exists_draft
    refine ⟨rounds, answer, judged, ?_, hjudged, by omega, hinformed, ?_⟩
    · rw [hhistory, briefAfter, hprior]
    · intro solver oracle kinds hv
      rw [hhistory]
      refine ⟨hfull solver oracle kinds hv, fun i hi => prior_briefAfter_take_eq_nil ?_ hi⟩
      intro r hr
      apply hfull solver oracle kinds hv r.candidate
      apply List.mem_append_left
      apply List.mem_flatMap_of_mem hr
      simp [Round.events]

theorem count_drafts_rounds (text : String) (rounds : List Round) :
    (rounds.flatMap (Round.events text)).countP Event.isDraft = rounds.length := by
  induction rounds with
  | nil => rfl
  | cons r rounds ih =>
    rw [List.flatMap_cons, List.countP_append, ih, List.length_cons, Nat.add_comm]
    rfl

/-- An empty conjunction is drafted three times. The second and the third draft are told what was
wrong. -/
theorem history_tells_context_thrice :
    let config : Config := ⟨3, [.allOf], .accumulate⟩
    let g := Generator.steady (.allOf [])
    let v : Validator Nat := .full .bounds .assenting [.allOf]
    config.validate = .ok () ∧
    ∃ rounds answer judged, rounds.length = 2 ∧
      history config g v "x" 0 = rounds.flatMap (Round.events "x") ++
        .drafted (briefAfter config "x" rounds) answer :: judged ∧
      Informed config "x" rounds ∧
      ∀ i ≤ 2, (briefAfter config "x" (rounds.take i)).prior = [] ↔ i = 0 := by
  intro config g v
  have hvalid : config.validate = .ok () := rfl
  obtain ⟨rounds, answer, judged, hhistory, hjudged, -, hinformed, hfull⟩ :=
    history_tells_context hvalid g v "x" 0
  have hcount : (history config g v "x" 0).countP Event.isDraft = 3 := by decide +kernel
  have hlength : rounds.length = 2 := by
    have hnone : judged.countP Event.isDraft = 0 := by
      rw [List.countP_eq_zero]
      intro event hevent
      simp [hjudged event hevent]
    rw [hhistory, List.countP_append, count_drafts_rounds, List.countP_cons, hnone] at hcount
    simp only [Event.isDraft, if_true] at hcount
    omega
  have hprior := (hfull _ _ _ rfl).2
  rw [hlength] at hprior
  exact ⟨hvalid, rounds, answer, judged, hlength, hhistory, hinformed, hprior⟩

end Run

end Eligibility
