import Mathlib
import Eligibility.Proofs.Acceptance
import Eligibility.Proofs.Attempts

namespace Eligibility

/-- The reply at a position is a text that holds this rule. -/
def Proposes (replies : List (Except Trouble String)) (i : Nat) (r : Rule) : Prop :=
  ∃ reply, replies[i]? = some (.ok reply) ∧ Rule.parse (Text.extractJson reply) = .ok r

def Approves (replies : List (Except Trouble String)) (i : Nat) : Prop :=
  ∃ reply opinion, replies[i]? = some (.ok reply) ∧
    Reply.parse (Text.extractJson reply) = .ok opinion ∧ opinion.agree = true

theorem Proposes.source_eq {replies : List (Except Trouble String)} {i : Nat} {r : Rule}
    (h : Proposes replies i r) {reply program : String} (hreply : replies[i]? = some (.ok reply))
    (hprogram : (Rule.parse (Text.extractJson reply)).toOption.map Rule.source = some program) :
    r.source = program := by
  obtain ⟨reply', hreply', hparse⟩ := h
  have heq : reply' = reply := Except.ok.inj (Option.some.inj (hreply'.symm.trans hreply))
  rw [← heq, hparse] at hprogram
  exact Option.some.inj hprogram

/-- A check shows the guideline and, between fences, the program of the rule. -/
def IsCheck (text : String) (r : Rule) (call : Call) : Prop :=
  call = ⟨Prompt.judge, "## Guideline text\n" ++ text ++ "\n\n## Compiled rule\n```\n" ++ r.source ++
    "\n```"⟩

/-- Drafts and checks take turns, and a check is about the rule just proposed. -/
def Alternates (config : Config) (text : String) (replies : List (Except Trouble String))
    (calls : List Call) : Prop :=
  ∀ i call, calls[i]? = some call →
    (i % 2 = 0 → ∃ prior,
      call = ⟨Prompt.draft, Brief.question ⟨text, config.allowedKinds, prior⟩⟩) ∧
    (i % 2 = 1 → ∃ r, Proposes replies (i - 1) r ∧ IsCheck text r call)

/-- What a script is after `m` calls of a run. -/
structure Stands (config : Config) (text : String) (replies : List (Except Trouble String))
    (m : Nat) (t : Script) : Prop where
  left : t.replies = replies.drop m
  count : t.calls.length = m
  alternates : Alternates config text replies t.calls

theorem Rule.ofReply_eq_ok {reply : String} {r : Rule} :
    Rule.ofReply reply = .ok r ↔ Rule.parse (Text.extractJson reply) = .ok r := by
  simp only [Rule.ofReply]
  split <;> simp_all

theorem Verdict.ofReply_eq_ok {reply : String} {v : Verdict} :
    Verdict.ofReply reply = .ok v ↔
      ∃ r, Reply.parse (Text.extractJson reply) = .ok r ∧ r.verdict = v := by
  simp only [Verdict.ofReply]
  split <;> simp_all

theorem Reply.verdict_eq_agree {r : Reply} : r.verdict = .agree ↔ r.agree = true := by
  unfold Reply.verdict
  split_ifs <;> simp_all

section

variable {config : Config} {text : String} {replies : List (Except Trouble String)} {m : Nat}
  {t u : Script}

/-- The call at position `m` takes the reply at position `m`. -/
theorem Stands.ask (h : Stands config text replies m t) (system user : String) :
    ∃ answer, Client.scripted.ask system user t =
      (answer, ⟨replies.drop (m + 1), t.calls ++ [⟨system, user⟩]⟩) ∧
      ∀ reply, answer = .ok reply → replies[m]? = some (.ok reply) := by
  have hnext : replies.drop (m + 1) = t.replies.tail := by rw [h.left, List.tail_drop]
  have hhead : replies[m]? = t.replies.head? := by rw [h.left, List.head?_drop]
  rw [hnext, hhead]
  cases hreplies : t.replies with
  | nil =>
    refine ⟨.error (.of "no more replies"), ?_, fun _ h => by cases h⟩
    simp only [Client.scripted, hreplies, List.tail_nil]
  | cons r rs =>
    refine ⟨r, by simp only [Client.scripted, hreplies, List.tail_cons], ?_⟩
    rintro reply rfl
    rfl

/-- The turns go on with one call more, if it is the draft or the check that is due. -/
theorem Stands.concat (h : Stands config text replies m t) {call : Call}
    (hdraft : m % 2 = 0 → ∃ prior,
      call = ⟨Prompt.draft, Brief.question ⟨text, config.allowedKinds, prior⟩⟩)
    (hcheck : m % 2 = 1 → ∃ r, Proposes replies (m - 1) r ∧ IsCheck text r call) :
    Stands config text replies (m + 1) ⟨replies.drop (m + 1), t.calls ++ [call]⟩ := by
  refine ⟨rfl, by simp [h.count], ?_⟩
  intro i c hc
  rw [List.getElem?_append, h.count] at hc
  split at hc
  · exact h.alternates i c hc
  · have hi : i = m := by
      by_contra hne
      rw [List.getElem?_eq_none (by simp; omega)] at hc
      cases hc
    subst hi
    simp only [Nat.sub_self, List.getElem?_cons_zero, Option.some.injEq] at hc
    subst hc
    exact ⟨hdraft, hcheck⟩

/-- A draft takes its turn, and the rule it gives is in the reply of that turn. -/
theorem Stands.generate (h : Stands config text replies m t) (hm : m % 2 = 0)
    {prior : List Failure} {answer : Except Trouble Rule}
    (hdraft : (Generator.ofClient Client.scripted).generate ⟨text, config.allowedKinds, prior⟩ t =
      (answer, u)) :
    Stands config text replies (m + 1) u ∧ ∀ r, answer = .ok r → Proposes replies m r := by
  obtain ⟨reply, hask, hreply⟩ :=
    h.ask Prompt.draft (Brief.question ⟨text, config.allowedKinds, prior⟩)
  have hstands := h.concat (fun _ => ⟨prior, rfl⟩) (fun hodd => by omega)
  cases reply with
  | error trouble =>
    simp only [Generator.ofClient, hask, Prod.mk.injEq] at hdraft
    obtain ⟨rfl, rfl⟩ := hdraft
    exact ⟨hstands, fun r hr => by cases hr⟩
  | ok reply =>
    simp only [Generator.ofClient, hask, Prod.mk.injEq] at hdraft
    obtain ⟨rfl, rfl⟩ := hdraft
    exact ⟨hstands, fun r hr => ⟨reply, hreply reply rfl, Rule.ofReply_eq_ok.mp hr⟩⟩

/-- A check takes its turn, and accepts only the program of the rule just proposed and only on an
agreement. -/
theorem Stands.validate (h : Stands config text replies m t) (hm : m % 2 = 1) {r : Rule}
    (hr : Proposes replies (m - 1) r) {answer : Except Trouble Outcome}
    (hjudge : (Validator.full Solver.bounds (.ofClient .scripted) config.allowedKinds).validate
      text r t = (answer, u)) :
    Stands config text replies (m + 1) u ∧
      ∀ source, answer = .ok (.accepted source) →
        (r.lint = [] ∧ r.kind ∈ config.allowedKinds ∧ r.conflicts = []) ∧ source = r.source ∧
          Approves replies m := by
  obtain ⟨reply, hask, hreply⟩ := h.ask Prompt.judge (Oracle.question text r.source)
  have hstands := h.concat (fun heven => by omega) (fun _ => ⟨r, hr, rfl⟩)
  cases reply with
  | error trouble =>
    simp only [Validator.full, Solver.bounds, Oracle.ofClient, hask, Prod.mk.injEq] at hjudge
    obtain ⟨rfl, rfl⟩ := hjudge
    exact ⟨hstands, fun source hs => by cases hs⟩
  | ok reply =>
    simp only [Validator.full, Solver.bounds, Oracle.ofClient, hask] at hjudge
    cases hverdict : Verdict.ofReply reply with
    | error trouble =>
      simp only [hverdict, Prod.mk.injEq] at hjudge
      obtain ⟨rfl, rfl⟩ := hjudge
      exact ⟨hstands, fun source hs => by cases hs⟩
    | ok verdict =>
      simp only [hverdict, Prod.mk.injEq] at hjudge
      obtain ⟨rfl, rfl⟩ := hjudge
      refine ⟨hstands, fun source hs => ?_⟩
      obtain ⟨hnone, hsource⟩ := Review.outcome_accepted.mp (Except.ok.inj hs)
      obtain ⟨hlint, hkind, hconflicts, rfl⟩ := Review.checks_eq_nil.mp hnone
      obtain ⟨opinion, hparse, hagree⟩ := Verdict.ofReply_eq_ok.mp hverdict
      rw [Reply.verdict_eq_agree] at hagree
      exact ⟨⟨hlint, hkind, hconflicts⟩, hsource, reply, opinion, hreply reply rfl, hparse, hagree⟩

end

namespace Run

section

variable (config : Config) (text : String) (replies : List (Except Trouble String))

def ScriptEnds (k : Nat) (e : Ending) (t : Script) : Prop :=
  ∃ events, Ends config (.ofClient .scripted)
    (.full .bounds (.ofClient .scripted) config.allowedKinds) text ⟨replies, []⟩ k events e t

end

variable {config : Config} {text : String} {replies : List (Except Trouble String)}

/-- One attempt makes one call, or two if it comes to be judged. -/
theorem Attempt.stands {m : Nat} {prior : List Failure} {t u : Script} {called : List Event}
    {e : Ending} (h : Stands config text replies m t) (hm : m % 2 = 0)
    (ha : Attempt config (.ofClient .scripted)
      (.full .bounds (.ofClient .scripted) config.allowedKinds) text prior t called e u) :
    Stands config text replies (m + if e.isJudged then 2 else 1) u ∧
      ∀ source, e = .judged (.ok (.accepted source)) →
        ∃ r, Proposes replies m r ∧ source = r.source ∧ r.kind ∈ config.allowedKinds ∧
          r.lint = [] ∧ r.conflicts = [] ∧ Approves replies (m + 1) := by
  cases ha with
  | undrafted hdraft => exact ⟨(h.generate hm hdraft).1, fun source he => by cases he⟩
  | unacceptable hdraft hkind => exact ⟨(h.generate hm hdraft).1, fun source he => by cases he⟩
  | @judged r answer t' u hdraft hkind hjudge =>
    obtain ⟨hdrafted, hproposes⟩ := h.generate hm hdraft
    have hr : Proposes replies m r := hproposes r rfl
    obtain ⟨hjudged, haccepted⟩ := hdrafted.validate (by omega) hr hjudge
    refine ⟨hjudged, ?_⟩
    intro source he
    obtain ⟨⟨hlint, hkind, hconflicts⟩, hsource, happroves⟩ :=
      haccepted source (Ending.judged.inj he)
    exact ⟨r, hr, hsource, hkind, hlint, hconflicts, happroves⟩

/-- After `n` rejections two calls have been made for each. -/
theorem Rejections.stands {n : Nat} {prior : List Failure} {t : Script} {events : List Event}
    (h : Rejections config (.ofClient .scripted)
      (.full .bounds (.ofClient .scripted) config.allowedKinds) text ⟨replies, []⟩ n events prior
        t) :
    Stands config text replies (2 * n) t := by
  induction h with
  | none => exact ⟨rfl, rfl, fun i call hc => by cases hc⟩
  | more before attempt ih => exact (Attempt.stands ih (by omega) attempt).1

theorem ScriptEnds.stands {k : Nat} {e : Ending} {t : Script}
    (h : ScriptEnds config text replies k e t) :
    Stands config text replies (if e.isJudged then 2 * k else 2 * k - 1) t ∧
      ∀ source, e = .judged (.ok (.accepted source)) →
        ∃ r, Proposes replies (2 * k - 2) r ∧ source = r.source ∧ r.kind ∈ config.allowedKinds ∧
          r.lint = [] ∧ r.conflicts = [] ∧ Approves replies (2 * k - 1) := by
  obtain ⟨events, before, attempt⟩ := h
  obtain ⟨hstands, haccepted⟩ := Attempt.stands before.stands (by omega) attempt
  rename_i n events called prior t
  have hcalls : (2 * n + if e.isJudged then 2 else 1) =
      if e.isJudged then 2 * (n + 1) else 2 * (n + 1) - 1 := by
    split <;> omega
  exact ⟨hcalls ▸ hstands, haccepted⟩

theorem draft_ne_judge : Prompt.draft ≠ Prompt.judge := by
  decide +kernel

/-- A run in which one client drafts and judges, on any list of replies.

The calls are drafts and checks in turn, each check about the rule just proposed, and at most two for
each attempt. A program is returned only after two calls for each attempt up to the last one, whose
replies hold the rule of this program and an agreement. A run whose attempts are used up has made two
calls for each of them. A run that ends with attempt `k` because it had no rule of an allowed kind has
made no check in it, and one that ends because the check failed has made it. -/
theorem withClient_dialogue {config : Config} (hvalid : config.validate = .ok ()) (text : String)
    (replies : List (Except Trouble String)) {outcome : Except RunFault Compiled} {script : Script}
    (hrun : withClient config .scripted text ⟨replies, []⟩ = (outcome, script)) :
    (Prompt.draft ≠ Prompt.judge ∧ Alternates config text replies script.calls) ∧
    script.calls.length ≤ 2 * config.maxAttempts ∧
    (∀ source k, outcome = .ok ⟨source, k⟩ →
      script.calls.length = 2 * k ∧
      ∃ r, Proposes replies (2 * k - 2) r ∧ source = r.source ∧ r.kind ∈ config.allowedKinds ∧
        r.lint = [] ∧ r.conflicts = [] ∧ Approves replies (2 * k - 1)) ∧
    (∀ n failures, outcome = .error (.exhausted n failures) →
      script.calls.length = 2 * config.maxAttempts) ∧
    (∀ trouble, outcome = .error (.generator trouble) →
      ∃ k ≤ config.maxAttempts, ScriptEnds config text replies k (.undrafted trouble) script ∧
        script.calls.length = 2 * k - 1) ∧
    (∀ kind allowed, outcome = .error (.unacceptable kind allowed) →
      ∃ k ≤ config.maxAttempts, ScriptEnds config text replies k (.unacceptable kind) script ∧
        script.calls.length = 2 * k - 1) ∧
    (∀ trouble, outcome = .error (.validator trouble) →
      ∃ k ≤ config.maxAttempts, ScriptEnds config text replies k (.judged (.error trouble)) script ∧
        script.calls.length = 2 * k) := by
  obtain ⟨k, events, e, t, h⟩ := exists_concludes hvalid (.ofClient .scripted)
    (.full .bounds (.ofClient .scripted) config.allowedKinds) text ⟨replies, []⟩
  have hends : ScriptEnds config text replies k e t := ⟨events, h.ends⟩
  have hwithin : k ≤ config.maxAttempts := h.within
  obtain ⟨⟨-, hcount, halternates⟩, haccepted⟩ := hends.stands
  rw [withClient, h.compile hvalid, Prod.mk.injEq] at hrun
  obtain ⟨rfl, rfl⟩ := hrun
  refine ⟨⟨draft_ne_judge, halternates⟩, ?_, ?_, ?_, ?_, ?_, ?_⟩
  · rw [hcount]
    split <;> omega
  · intro source n hok
    obtain ⟨rfl, rfl⟩ := Ending.result_eq_ok.mp hok
    exact ⟨hcount, haccepted source rfl⟩
  · intro n failures hexhausted
    obtain ⟨rfl, -⟩ := Ending.result_eq_exhausted.mp hexhausted
    rw [hcount, ← h.last ⟨failures, rfl⟩]
    rfl
  · intro trouble hgenerator
    obtain rfl := Ending.result_eq_generator.mp hgenerator
    exact ⟨k, hwithin, hends, hcount⟩
  · intro kind allowed hkind
    obtain ⟨rfl, -⟩ := Ending.result_eq_unacceptable.mp hkind
    exact ⟨k, hwithin, hends, hcount⟩
  · intro trouble hvalidator
    obtain rfl := Ending.result_eq_validator.mp hvalidator
    exact ⟨k, hwithin, hends, hcount⟩

/-- An empty conjunction, rejected although the model agrees with it, and then a comparison. -/
def twoDrafts : List (Except Trouble String) :=
  [.ok "[\"AllOf\",[]]", .ok "\x7b\"agree\":true\x7d",
    .ok "[\"ComparisonConstraint\",[\"Variable\",\"x\"],\">=\",[\"Variable\",\"y\"]]",
    .ok "```json\n\x7b\"agree\":true\x7d\n```", .error (.of "not asked for")]

/-- The first check is about the empty conjunction, the second about the comparison. -/
theorem withClient_dialogue_two_drafts :
    Config.default.validate = .ok () ∧
    (withClient .default .scripted "x" ⟨twoDrafts, []⟩).1 = .ok ⟨"vars.x.is_gte(vars.y)", 2⟩ ∧
    (withClient .default .scripted "x" ⟨twoDrafts, []⟩).2.calls.length = 4 ∧
    (withClient .default .scripted "x" ⟨twoDrafts, []⟩).2.calls[1]? = some ⟨Prompt.judge,
      "## Guideline text\nx\n\n## Compiled rule\n```\ndsl.allOf()\n```"⟩ ∧
    (withClient .default .scripted "x" ⟨twoDrafts, []⟩).2.calls[3]? = some ⟨Prompt.judge,
      "## Guideline text\nx\n\n## Compiled rule\n```\nvars.x.is_gte(vars.y)\n```"⟩ := by
  have hoption : (withClient .default .scripted "x" ⟨twoDrafts, []⟩).1.toOption =
      some ⟨"vars.x.is_gte(vars.y)", 2⟩ := by
    decide +kernel
  have hok : (withClient .default .scripted "x" ⟨twoDrafts, []⟩).1 =
      .ok ⟨"vars.x.is_gte(vars.y)", 2⟩ := by
    generalize (withClient .default .scripted "x" ⟨twoDrafts, []⟩).1 = outcome at hoption
    cases outcome with
    | error fault => cases hoption
    | ok c => exact congrArg _ (Option.some.inj hoption)
  have hvalid : Config.default.validate = .ok () := rfl
  obtain ⟨⟨-, halternates⟩, -, haccepted, -⟩ :=
    withClient_dialogue hvalid "x" twoDrafts Prod.mk.eta.symm
  have hcount := (haccepted _ _ hok).1
  have hcalled : ∀ i < 4, ∃ call,
      (withClient .default .scripted "x" ⟨twoDrafts, []⟩).2.calls[i]? = some call :=
    fun i hi => ⟨_, List.getElem?_eq_getElem (by omega)⟩
  refine ⟨hvalid, hok, hcount, ?_, ?_⟩
  · obtain ⟨call, hcall⟩ := hcalled 1 (by omega)
    obtain ⟨r, hr, rfl⟩ := (halternates 1 call hcall).2 rfl
    have hsource : r.source = "dsl.allOf()" := hr.source_eq rfl (by decide +kernel)
    rw [hcall, hsource]
    rfl
  · obtain ⟨call, hcall⟩ := hcalled 3 (by omega)
    obtain ⟨r, hr, rfl⟩ := (halternates 3 call hcall).2 rfl
    have hsource : r.source = "vars.x.is_gte(vars.y)" := hr.source_eq rfl (by decide +kernel)
    rw [hcall, hsource]
    rfl

end Run

end Eligibility
