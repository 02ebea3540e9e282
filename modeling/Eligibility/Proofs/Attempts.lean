import Mathlib
import Eligibility.Drafting.Loop

namespace Eligibility

/-- A question put to the generator or to the validator of a run, with the answer. -/
inductive Event where
  | drafted (brief : Brief) (answer : Except Trouble Rule)
  | judged (text : String) (candidate : Rule) (answer : Except Trouble Outcome)

namespace Event

def isDraft : Event → Bool
  | .drafted .. => true
  | .judged .. => false

def isJudgement : Event → Bool
  | .drafted .. => false
  | .judged .. => true

end Event

def Generator.recorded {σ : Type} (g : Generator σ) : Generator (σ × List Event) where
  generate brief s :=
    let answer := g.generate brief s.1
    (answer.1, answer.2, s.2 ++ [.drafted brief answer.1])

def Validator.recorded {σ : Type} (v : Validator σ) : Validator (σ × List Event) where
  validate text r s :=
    let answer := v.validate text r s.1
    (answer.1, answer.2, s.2 ++ [.judged text r answer.1])

/-- How one attempt ends: nothing was drafted, the kind of the candidate is not allowed, or the
validator was asked and answered. -/
inductive Ending where
  | undrafted (trouble : Trouble)
  | unacceptable (kind : Kind)
  | judged (answer : Except Trouble Outcome)

namespace Ending

def IsRejection (e : Ending) : Prop := ∃ latest, e = .judged (.ok (.rejected latest))

def isJudged : Ending → Bool
  | .judged _ => true
  | _ => false

/-- What a run returns that this ending of attempt `k` decides. -/
def result (config : Config) (k : Nat) : Ending → Except RunFault Compiled
  | .undrafted trouble => .error (.generator trouble)
  | .unacceptable kind => .error (.unacceptable kind config.allowedKinds)
  | .judged (.error trouble) => .error (.validator trouble)
  | .judged (.ok (.accepted source)) => .ok ⟨source, k⟩
  | .judged (.ok (.rejected latest)) => .error (.exhausted k latest)

variable {config : Config} {e : Ending} {k : Nat}

theorem result_eq_ok {c : Compiled} :
    e.result config k = .ok c ↔ e = .judged (.ok (.accepted c.source)) ∧ c.attempts = k := by
  obtain ⟨source, attempts⟩ := c
  rcases e with trouble | kind | trouble | source' | latest <;> simp [result, eq_comm]

theorem result_eq_exhausted {n : Nat} {failures : List Failure} :
    e.result config k = .error (.exhausted n failures) ↔
      e = .judged (.ok (.rejected failures)) ∧ n = k := by
  rcases e with trouble | kind | trouble | source | latest <;> simp [result, and_comm, eq_comm]

theorem result_eq_generator {trouble : Trouble} :
    e.result config k = .error (.generator trouble) ↔ e = .undrafted trouble := by
  rcases e with trouble' | kind | trouble' | source | latest <;> simp [result]

theorem result_eq_unacceptable {kind : Kind} {allowed : List Kind} :
    e.result config k = .error (.unacceptable kind allowed) ↔
      e = .unacceptable kind ∧ allowed = config.allowedKinds := by
  rcases e with trouble | kind' | trouble | source | latest <;> simp [result, eq_comm]

theorem result_eq_validator {trouble : Trouble} :
    e.result config k = .error (.validator trouble) ↔ e = .judged (.error trouble) := by
  rcases e with trouble' | kind | trouble' | source | latest <;> simp [result]

end Ending

namespace Run

section

variable {σ : Type} (config : Config) (g : Generator σ) (v : Validator σ) (text : String)

/-- One attempt that is told of the failures `prior`: what is asked on the way, how it ends and the
state it leaves. -/
inductive Attempt (prior : List Failure) (s : σ) : List Event → Ending → σ → Prop where
  | undrafted {trouble : Trouble} {t : σ}
      (hdraft : g.generate ⟨text, config.allowedKinds, prior⟩ s = (.error trouble, t)) :
      Attempt prior s [.drafted ⟨text, config.allowedKinds, prior⟩ (.error trouble)]
        (.undrafted trouble) t
  | unacceptable {r : Rule} {t : σ}
      (hdraft : g.generate ⟨text, config.allowedKinds, prior⟩ s = (.ok r, t))
      (hkind : r.kind ∉ config.allowedKinds) :
      Attempt prior s [.drafted ⟨text, config.allowedKinds, prior⟩ (.ok r)]
        (.unacceptable r.kind) t
  | judged {r : Rule} {answer : Except Trouble Outcome} {t u : σ}
      (hdraft : g.generate ⟨text, config.allowedKinds, prior⟩ s = (.ok r, t))
      (hkind : r.kind ∈ config.allowedKinds) (hjudge : v.validate text r t = (answer, u)) :
      Attempt prior s
        [.drafted ⟨text, config.allowedKinds, prior⟩ (.ok r), .judged text r answer]
        (.judged answer) u

/-- The first `n` attempts of a run were all rejected: what was asked until then, the failures the
next attempt is told of and the state it starts from. -/
inductive Rejections (s : σ) : Nat → List Event → List Failure → σ → Prop where
  | none : Rejections s 0 [] [] s
  | more {n : Nat} {events called : List Event} {prior latest : List Failure} {t u : σ}
      (before : Rejections s n events prior t)
      (attempt : Attempt config g v text prior t called (.judged (.ok (.rejected latest))) u) :
      Rejections s (n + 1) (events ++ called) (config.carry.next prior latest) u

/-- Attempt `k` comes about, since those before it were rejected, and it ends in this way. -/
inductive Ends (s : σ) : Nat → List Event → Ending → σ → Prop where
  | intro {n : Nat} {events called : List Event} {prior : List Failure} {e : Ending} {t u : σ}
      (before : Rejections config g v text s n events prior t)
      (attempt : Attempt config g v text prior t called e u) :
      Ends s (n + 1) (events ++ called) e u

/-- Attempt `k` is the one that decides: it is not rejected, or no other may follow. -/
structure Concludes (s : σ) (k : Nat) (events : List Event) (e : Ending) (t : σ) : Prop where
  ends : Ends config g v text s k events e t
  within : k ≤ config.maxAttempts
  last : e.IsRejection → k = config.maxAttempts

/-- What a run asks and is answered, in order. -/
def history (s : σ) : List Event := (compile config g.recorded v.recorded text (s, [])).2.2

end

variable {σ : Type} {config : Config} {g : Generator σ} {v : Validator σ} {text : String}

/-- An attempt ends in one of the ways, whatever the generator and the validator answer. -/
theorem exists_attempt (config : Config) (g : Generator σ) (v : Validator σ) (text : String)
    (prior : List Failure) (s : σ) : ∃ called e t, Attempt config g v text prior s called e t := by
  rcases hdraft : g.generate ⟨text, config.allowedKinds, prior⟩ s with ⟨draft, t⟩
  cases draft with
  | error trouble => exact ⟨_, _, _, .undrafted hdraft⟩
  | ok r =>
    by_cases hkind : r.kind ∈ config.allowedKinds
    · exact ⟨_, _, _, .judged hdraft hkind rfl⟩
    · exact ⟨_, _, _, .unacceptable hdraft hkind⟩

/-- An attempt that is not rejected ends the run. -/
theorem attempt_of_not_rejection {prior : List Failure} {s t : σ} {called : List Event} {e : Ending}
    (h : Attempt config g v text prior s called e t) (he : ¬ e.IsRejection) (left n : Nat) :
    attempt config g v text left n prior s = (e.result config n, t) := by
  unfold attempt
  cases h with
  | undrafted hdraft => simp only [hdraft, Ending.result]
  | unacceptable hdraft hkind => simp [hdraft, Config.allows, hkind, Ending.result]
  | @judged r answer u t hdraft hkind hjudge =>
    simp only [hdraft, Config.allows, List.contains_iff_mem, hkind, if_true, hjudge]
    rcases answer with trouble | source | latest
    · rfl
    · rfl
    · exact absurd ⟨latest, rfl⟩ he

/-- A rejected attempt ends the run if no other is left. -/
theorem attempt_of_last_rejection {prior latest : List Failure} {s t : σ} {called : List Event}
    (h : Attempt config g v text prior s called (.judged (.ok (.rejected latest))) t) (n : Nat) :
    attempt config g v text 0 n prior s = (.error (.exhausted n latest), t) := by
  unfold attempt
  cases h with
  | judged hdraft hkind hjudge => simp [hdraft, Config.allows, hkind, hjudge]

/-- After a rejected attempt the next one is told what the policy carries over. -/
theorem attempt_of_rejection {prior latest : List Failure} {s t : σ} {called : List Event}
    (h : Attempt config g v text prior s called (.judged (.ok (.rejected latest))) t)
    (left n : Nat) :
    attempt config g v text (left + 1) n prior s =
      attempt config g v text left (n + 1) (config.carry.next prior latest) t := by
  rw [attempt]
  cases h with
  | judged hdraft hkind hjudge => simp [hdraft, Config.allows, hkind, hjudge]

/-- While all attempts were rejected and one more is allowed, the run stands before that one, and
its number is one more than the rejections. -/
theorem compile_of_rejections (hvalid : config.validate = .ok ()) {s t : σ} {n : Nat}
    {events : List Event} {prior : List Failure}
    (h : Rejections config g v text s n events prior t) (hn : n < config.maxAttempts) :
    compile config g v text s =
      attempt config g v text (config.maxAttempts - (n + 1)) (n + 1) prior t := by
  induction h with
  | none => simp only [compile, hvalid]
  | @more n events called prior latest t u before rejected ih =>
    obtain ⟨left, hleft⟩ : ∃ left, config.maxAttempts - (n + 1) = left + 1 :=
      ⟨config.maxAttempts - (n + 1) - 1, by omega⟩
    have hnext : config.maxAttempts - (n + 1 + 1) = left := by omega
    rw [ih (by omega), hleft, attempt_of_rejection rejected, hnext]

theorem Concludes.compile (hvalid : config.validate = .ok ()) {s t : σ} {k : Nat}
    {events : List Event} {e : Ending} (h : Concludes config g v text s k events e t) :
    compile config g v text s = (e.result config k, t) := by
  obtain ⟨ends, within, last⟩ := h
  cases ends with
  | @intro n events called prior e t u before attempt =>
    rw [compile_of_rejections hvalid before within]
    by_cases he : e.IsRejection
    · have hk := last he
      obtain ⟨latest, rfl⟩ := he
      rw [show config.maxAttempts - (n + 1) = 0 by omega, attempt_of_last_rejection attempt]
      rfl
    · exact attempt_of_not_rejection attempt he _ _

/-- After rejections that leave attempts over, some attempt decides. -/
theorem Rejections.exists_concludes {s t : σ} {n : Nat} {events : List Event}
    {prior : List Failure} (h : Rejections config g v text s n events prior t) (left : Nat)
    (hleft : n + left + 1 = config.maxAttempts) :
    ∃ k events e t, Concludes config g v text s k events e t := by
  induction left generalizing n events prior t with
  | zero =>
    obtain ⟨called, e, u, attempt⟩ := exists_attempt config g v text prior t
    exact ⟨n + 1, _, e, u, .intro h attempt, by omega, fun _ => hleft⟩
  | succ left ih =>
    obtain ⟨called, e, u, attempt⟩ := exists_attempt config g v text prior t
    by_cases he : e.IsRejection
    · obtain ⟨latest, rfl⟩ := he
      exact ih (.more h attempt) (by omega)
    · exact ⟨n + 1, _, e, u, .intro h attempt, by omega, fun h => absurd h he⟩

theorem one_le_maxAttempts (hvalid : config.validate = .ok ()) : 1 ≤ config.maxAttempts := by
  by_contra hzero
  have hmax : config.maxAttempts = 0 := by omega
  simp [Config.validate, hmax] at hvalid

/-- Every run under a valid config has an attempt that decides it. -/
theorem exists_concludes (hvalid : config.validate = .ok ()) (g : Generator σ) (v : Validator σ)
    (text : String) (s : σ) : ∃ k events e t, Concludes config g v text s k events e t := by
  have hmax := one_le_maxAttempts hvalid
  exact Rejections.none.exists_concludes (config.maxAttempts - 1) (by omega)

/-- Recording changes no attempt, and records just what is asked in it. -/
theorem Attempt.recorded {prior : List Failure} {s t : σ} {called : List Event} {e : Ending}
    (h : Attempt config g v text prior s called e t) (log : List Event) :
    Attempt config g.recorded v.recorded text prior (s, log) called e (t, log ++ called) := by
  cases h with
  | undrafted hdraft => exact .undrafted (by simp [Generator.recorded, hdraft])
  | unacceptable hdraft hkind => exact .unacceptable (by simp [Generator.recorded, hdraft]) hkind
  | @judged r answer u t hdraft hkind hjudge =>
    refine .judged (t := (u, log ++ [.drafted ⟨text, config.allowedKinds, prior⟩ (.ok r)]))
      ?_ hkind ?_
    · simp [Generator.recorded, hdraft]
    · simp [Validator.recorded, hjudge]

theorem Rejections.recorded {s t : σ} {n : Nat} {events : List Event} {prior : List Failure}
    (h : Rejections config g v text s n events prior t) :
    Rejections config g.recorded v.recorded text (s, []) n events prior (t, events) := by
  induction h with
  | none => exact .none
  | more before attempt ih => exact .more ih (attempt.recorded _)

theorem Concludes.recorded {s t : σ} {k : Nat} {events : List Event} {e : Ending}
    (h : Concludes config g v text s k events e t) :
    Concludes config g.recorded v.recorded text (s, []) k events e (t, events) := by
  obtain ⟨ends, within, last⟩ := h
  refine ⟨?_, within, last⟩
  cases ends with
  | intro before attempt => exact .intro before.recorded (attempt.recorded _)

/-- What a run asks is what its attempts ask, up to the one that decides. -/
theorem Concludes.history (hvalid : config.validate = .ok ()) {s t : σ} {k : Nat}
    {events : List Event} {e : Ending} (h : Concludes config g v text s k events e t) :
    Run.history config g v text s = events := by
  rw [Run.history, h.recorded.compile hvalid]

/-- With a config that is not valid nothing is asked. -/
theorem compile_of_invalid {fault : ConfigFault} (h : config.validate = .error fault)
    (g : Generator σ) (v : Validator σ) (text : String) (s : σ) :
    compile config g v text s = (.error (.config fault), s) := by
  simp only [compile, h]

/-- A run with recorders is the run without them. -/
theorem compile_recorded (config : Config) (g : Generator σ) (v : Validator σ) (text : String)
    (s : σ) :
    compile config g.recorded v.recorded text (s, []) =
      ((compile config g v text s).1, (compile config g v text s).2, history config g v text s) := by
  cases hvalid : config.validate with
  | error fault =>
    rw [history, compile_of_invalid hvalid, compile_of_invalid hvalid]
  | ok _ =>
    obtain ⟨k, events, e, t, h⟩ := exists_concludes hvalid g v text s
    rw [h.history hvalid, h.compile hvalid, h.recorded.compile hvalid]

/-- An attempt asks the generator once. -/
theorem Attempt.count_drafts {prior : List Failure} {s t : σ} {called : List Event} {e : Ending}
    (h : Attempt config g v text prior s called e t) : called.countP Event.isDraft = 1 := by
  cases h <;> rfl

/-- An attempt asks the validator once if it comes to be judged, and else not at all. -/
theorem Attempt.count_judgements {prior : List Failure} {s t : σ} {called : List Event}
    {e : Ending} (h : Attempt config g v text prior s called e t) :
    called.countP Event.isJudgement = if e.isJudged then 1 else 0 := by
  cases h <;> rfl

theorem Rejections.count_events {s t : σ} {n : Nat} {events : List Event} {prior : List Failure}
    (h : Rejections config g v text s n events prior t) :
    events.countP Event.isDraft = n ∧ events.countP Event.isJudgement = n := by
  induction h with
  | none => exact ⟨rfl, rfl⟩
  | more before attempt ih =>
    simp only [List.countP_append, ih, attempt.count_drafts, attempt.count_judgements]
    exact ⟨trivial, rfl⟩

/-- Up to the end of attempt `k` the generator was asked `k` times, and the validator once less if
the attempt did not come to it. -/
theorem Ends.count_events {s t : σ} {k : Nat} {events : List Event} {e : Ending}
    (h : Ends config g v text s k events e t) :
    events.countP Event.isDraft = k ∧
      events.countP Event.isJudgement = if e.isJudged then k else k - 1 := by
  cases h with
  | intro before attempt =>
    simp only [List.countP_append, before.count_events, attempt.count_drafts,
      attempt.count_judgements, true_and]
    cases e.isJudged <;> simp

theorem count_drafts_le (config : Config) (g : Generator σ) (v : Validator σ) (text : String)
    (s : σ) : (history config g v text s).countP Event.isDraft ≤ config.maxAttempts := by
  cases hvalid : config.validate with
  | error fault => simp [history, compile_of_invalid hvalid]
  | ok _ =>
    obtain ⟨k, events, e, t, h⟩ := exists_concludes hvalid g v text s
    rw [h.history hvalid, h.ends.count_events.1]
    exact h.within

/-- How a run comes out, whatever its generator and its validator are.

A config that is not valid is reported and nobody is asked. Otherwise the first attempt that is not
rejected decides: with its number `k` the run returns what this attempt ends in, after `k` drafts and
as many judgements, or one less if the attempt did not come to be judged. If all attempts are
rejected the run returns the failures of the last one. The number of the attempt that a run stands
before is never above the attempts allowed. -/
theorem compile_outcome (config : Config) (g : Generator σ) (v : Validator σ) (text : String)
    (s : σ) :
    compile config g.recorded v.recorded text (s, []) =
      ((compile config g v text s).1, (compile config g v text s).2, history config g v text s) ∧
    (∀ fault, config.validate = .error fault →
      compile config g v text s = (.error (.config fault), s) ∧ history config g v text s = []) ∧
    (config.validate = .ok () →
      (∀ k events e t, k ≤ config.maxAttempts → Ends config g v text s k events e t →
        ¬ e.IsRejection →
        compile config g v text s = (e.result config k, t) ∧
        history config g v text s = events ∧
        events.countP Event.isDraft = k ∧
        events.countP Event.isJudgement = if e.isJudged then k else k - 1) ∧
      ((∀ k events e t, k ≤ config.maxAttempts → Ends config g v text s k events e t →
        e.IsRejection) →
        ∃ events latest t,
          Ends config g v text s config.maxAttempts events (.judged (.ok (.rejected latest))) t ∧
          compile config g v text s = (.error (.exhausted config.maxAttempts latest), t) ∧
          history config g v text s = events ∧
          events.countP Event.isDraft = config.maxAttempts ∧
          events.countP Event.isJudgement = config.maxAttempts) ∧
      (∀ n events prior t, n < config.maxAttempts →
        Rejections config g v text s n events prior t →
        compile config g v text s =
          attempt config g v text (config.maxAttempts - (n + 1)) (n + 1) prior t)) ∧
    (history config g v text s).countP Event.isDraft ≤ config.maxAttempts := by
  refine ⟨compile_recorded config g v text s, ?_, ?_, count_drafts_le config g v text s⟩
  · intro fault hfault
    refine ⟨compile_of_invalid hfault g v text s, ?_⟩
    rw [history, compile_of_invalid hfault]
  · intro hvalid
    refine ⟨?_, ?_, fun n events prior t hn h => compile_of_rejections hvalid h hn⟩
    · intro k events e t hk hends he
      have h : Concludes config g v text s k events e t := ⟨hends, hk, fun hr => absurd hr he⟩
      exact ⟨h.compile hvalid, h.history hvalid, hends.count_events⟩
    · intro hall
      obtain ⟨k, events, e, t, h⟩ := exists_concludes hvalid g v text s
      have he : e.IsRejection := hall k events e t h.within h.ends
      have hk : k = config.maxAttempts := h.last he
      obtain ⟨latest, rfl⟩ := he
      subst hk
      exact ⟨events, latest, t, h.ends, h.compile hvalid, h.history hvalid,
        h.ends.count_events⟩

end Run

def Generator.steady (r : Rule) : Generator Nat where
  generate _ drafts := (.ok r, drafts + 1)

def Validator.patient (n : Nat) : Validator Nat where
  validate _ r drafts := (.ok (if drafts < n then .rejected [] else .accepted r.source), drafts)

/-- The same rule is accepted at the second draft of three, and rejected for good if there is but
one. -/
theorem Run.compile_outcome_patient :
    let g := Generator.steady (.comparison ⟨"x", .atLeast, .var "y"⟩)
    let v := Validator.patient 2
    (compile ⟨3, [.comparison], .accumulate⟩ g v "x" 0 = (.ok ⟨"vars.x.is_gte(vars.y)", 2⟩, 2) ∧
      (history ⟨3, [.comparison], .accumulate⟩ g v "x" 0).countP Event.isJudgement = 2) ∧
    (∃ latest t,
      compile ⟨1, [.comparison], .replace⟩ g v "x" 0 = (.error (.exhausted 1 latest), t)) ∧
    compile ⟨0, [.comparison], .replace⟩ g v "x" 0 = (.error (.config .zeroAttempts), 0) := by
  intro g v
  refine ⟨?_, ?_, ?_⟩
  · have hends : Ends ⟨3, [.comparison], .accumulate⟩ g v "x" 0 2 _
        (.judged (.ok (.accepted "vars.x.is_gte(vars.y)"))) 2 :=
      .intro (.more .none (.judged rfl (by decide) rfl)) (.judged rfl (by decide) rfl)
    obtain ⟨hcompile, hhistory, -, hjudged⟩ :=
      ((compile_outcome ⟨3, [.comparison], .accumulate⟩ g v "x" 0).2.2.1 rfl).1 2 _ _ _
        (by decide) hends (by rintro ⟨latest, h⟩; cases h)
    exact ⟨hcompile, hhistory ▸ hjudged⟩
  · have hrejected : ∀ k events e t, k ≤ 1 →
        Ends ⟨1, [.comparison], .replace⟩ g v "x" 0 k events e t → e.IsRejection := by
      intro k events e t hk h
      obtain ⟨before, attempt⟩ := h
      cases before with
      | more => omega
      | none =>
        cases attempt with
        | undrafted hdraft => cases hdraft
        | unacceptable hdraft hkind =>
          cases hdraft
          exact absurd (by decide) hkind
        | judged hdraft hkind hjudge =>
          cases hdraft
          cases hjudge
          exact ⟨[], rfl⟩
    obtain ⟨events, latest, t, -, hcompile, -⟩ :=
      ((compile_outcome ⟨1, [.comparison], .replace⟩ g v "x" 0).2.2.1 rfl).2.1 hrejected
    exact ⟨latest, t, hcompile⟩
  · exact ((compile_outcome ⟨0, [.comparison], .replace⟩ g v "x" 0).2.1 .zeroAttempts rfl).1

end Eligibility
