import Mathlib
import Eligibility.Drafting.Generator
import Eligibility.Review.Oracle
import Eligibility.Proofs.Dialogue
import Eligibility.Proofs.Extent

namespace Eligibility

open Json (Draft Fault Letter)

namespace Reply

def valuesOf (key : String) (members : List (List Letter × Draft)) : List Draft :=
  (members.filter fun m => Letter.text? m.1 == some key).map Prod.snd

/-- A reason is a text, or is left out. -/
inductive GivesReason : List Draft → String → Prop where
  | absent : GivesReason [] ""
  | given {letters : List Letter} {s : String} (h : Letter.text? letters = some s) :
      GivesReason [.string letters] s

/-- The answer that a document gives: its members `agree` and `reason`, in any order and among others,
or the two values in an array. -/
inductive Answers : Draft → Reply → Prop where
  | members {ms : List (List Letter × Draft)} {a : Bool} {s : String}
      (spelled : ∀ m ∈ ms, (Letter.text? m.1).isSome = true)
      (agree : valuesOf "agree" ms = [.bool a])
      (reason : GivesReason (valuesOf "reason" ms) s) : Answers (.object ms true) ⟨a, s⟩
  | items {ds : List Draft} {a : Bool} {s : String} (reason : GivesReason ds s) :
      Answers (.array (.bool a :: ds) true) ⟨a, s⟩

theorem asBool_eq_ok {d : Draft} {b : Bool} : d.asBool = .ok b ↔ d = .bool b := by
  cases d with
  | bool c => simp [Draft.asBool]
  | _ => simp [Draft.asBool, Draft.refuse_ne_ok]

theorem asText_eq_ok {d : Draft} {s : String} :
    d.asText = .ok s ↔ ∃ letters, d = .string letters ∧ Letter.text? letters = some s := by
  cases d with
  | string letters => simp [Draft.asText, Draft.spelled_eq_ok]
  | _ => simp [Draft.asText, Draft.refuse_ne_ok]

/-- What a field holds after further values: what it held if there are none, else the only one. -/
inductive Gathers {α : Type} (get : Draft → Except Fault α) :
    Option α → List Draft → Option α → Prop where
  | rest (held : Option α) : Gathers get held [] held
  | first {d : Draft} {a : α} (h : get d = .ok a) : Gathers get none [d] (some a)

theorem gathers_nil {α : Type} {get : Draft → Except Fault α} {held out : Option α} :
    Gathers get held [] out ↔ held = out := by
  constructor
  · rintro ⟨⟩
    rfl
  · rintro rfl
    exact .rest held

/-- A field takes a value only if it holds none. -/
theorem gathers_cons {α : Type} {get : Draft → Except Fault α} {held out : Option α} {d : Draft}
    {ds : List Draft} : Gathers get held (d :: ds) out ↔
      held = none ∧ ∃ a, get d = .ok a ∧ Gathers get (some a) ds out := by
  constructor
  · rintro ⟨⟩
    exact ⟨rfl, _, ‹_›, .rest _⟩
  · rintro ⟨rfl, a, ha, ⟨⟩⟩
    exact .first ha

theorem gathers_agree {ds : List Draft} {a : Bool} :
    Gathers Draft.asBool none ds (some a) ↔ ds = [.bool a] := by
  constructor
  · rintro (_ | h)
    rw [asBool_eq_ok.mp h]
  · rintro rfl
    exact .first rfl

theorem gathers_reason {ds : List Draft} {s : String} :
    (∃ out, Gathers Draft.asText none ds out ∧ out.getD "" = s) ↔ GivesReason ds s := by
  constructor
  · rintro ⟨out, _ | h, rfl⟩
    · exact .absent
    · obtain ⟨letters, rfl, hs⟩ := asText_eq_ok.mp h
      exact .given hs
  · rintro (_ | h)
    · exact ⟨none, .rest none, rfl⟩
    · exact ⟨some s, .first (asText_eq_ok.mpr ⟨_, rfl, h⟩), rfl⟩

theorem valuesOf_cons {letters : List Letter} {d : Draft} {ms : List (List Letter × Draft)}
    {name : String} (h : Letter.text? letters = some name) (key : String) :
    valuesOf key ((letters, d) :: ms) =
      if name = key then d :: valuesOf key ms else valuesOf key ms := by
  unfold valuesOf
  split <;> simp_all

section Members

variable {letters : List Letter} {d : Draft} {ms : List (List Letter × Draft)} {agree : Option Bool}
  {reason : Option String} {r : Reply}

theorem ofMembers_agree (h : Letter.text? letters = some "agree") :
    ofMembers true agree reason ((letters, d) :: ms) = .ok r ↔
      agree = none ∧ ∃ a, d.asBool = .ok a ∧ ofMembers true (some a) reason ms = .ok r := by
  rw [ofMembers, bind_eq_ok]
  simp only [Draft.spelled_eq_ok, h, Option.some.injEq, exists_eq_left']
  cases agree with
  | none => simp [bind_eq_ok]
  | some a => simp

theorem ofMembers_reason (h : Letter.text? letters = some "reason") :
    ofMembers true agree reason ((letters, d) :: ms) = .ok r ↔
      reason = none ∧ ∃ s, d.asText = .ok s ∧ ofMembers true agree (some s) ms = .ok r := by
  rw [ofMembers, bind_eq_ok]
  simp only [Draft.spelled_eq_ok, h, Option.some.injEq, exists_eq_left']
  cases reason with
  | none => simp [bind_eq_ok]
  | some s => simp

theorem ofMembers_other {name : String} (h : Letter.text? letters = some name)
    (hagree : name ≠ "agree") (hreason : name ≠ "reason") (hd : d.isUnbroken = true) :
    ofMembers true agree reason ((letters, d) :: ms) = .ok r ↔
      ofMembers true agree reason ms = .ok r := by
  rw [ofMembers, bind_eq_ok]
  simp only [Draft.spelled_eq_ok, h, Option.some.injEq, exists_eq_left']
  simp [bind_eq_ok, Draft.pass, hd]

/-- Members are read one by one, but only their keys tell which is which. -/
theorem ofMembers_eq_ok (hms : Draft.membersUnbroken ms = true) :
    ofMembers true agree reason ms = .ok r ↔
      (∀ m ∈ ms, (Letter.text? m.1).isSome = true) ∧
      Gathers Draft.asBool agree (valuesOf "agree" ms) (some r.agree) ∧
      ∃ out, Gathers Draft.asText reason (valuesOf "reason" ms) out ∧ out.getD "" = r.reason := by
  induction ms generalizing agree reason with
  | nil =>
    cases agree with
    | none => simp [ofMembers, build, valuesOf, gathers_nil]
    | some a =>
      obtain ⟨a', s⟩ := r
      simp [ofMembers, build, valuesOf, gathers_nil]
  | cons m ms ih =>
    obtain ⟨letters, d⟩ := m
    rw [Draft.membersUnbroken, Bool.and_eq_true] at hms
    rw [List.forall_mem_cons]
    cases htext : Letter.text? letters with
    | none =>
      rw [ofMembers, bind_eq_ok]
      simp [Draft.spelled_eq_ok, htext]
    | some name =>
      simp only [valuesOf_cons htext, Option.isSome_some, true_and]
      by_cases hagree : name = "agree"
      · subst hagree
        rw [ofMembers_agree htext, if_pos rfl, if_neg (by decide), gathers_cons]
        simp only [ih hms.2]
        constructor
        · rintro ⟨hnone, a, ha, hspelled, hgathers, hreason⟩
          exact ⟨hspelled, ⟨hnone, a, ha, hgathers⟩, hreason⟩
        · rintro ⟨hspelled, ⟨hnone, a, ha, hgathers⟩, hreason⟩
          exact ⟨hnone, a, ha, hspelled, hgathers, hreason⟩
      · by_cases hreason : name = "reason"
        · subst hreason
          rw [ofMembers_reason htext, if_neg (by decide), if_pos rfl]
          simp only [ih hms.2, gathers_cons]
          constructor
          · rintro ⟨hnone, a, ha, hspelled, hgathers, out, hout, hr⟩
            exact ⟨hspelled, hgathers, out, ⟨hnone, a, ha, hout⟩, hr⟩
          · rintro ⟨hspelled, hgathers, out, ⟨hnone, a, ha, hout⟩, hr⟩
            exact ⟨hnone, a, ha, hspelled, hgathers, out, hout, hr⟩
        · rw [ofMembers_other htext hagree hreason hms.1, if_neg hagree, if_neg hreason, ih hms.2]

end Members

theorem ofItems_one {d : Draft} {a : Bool} {s : String} :
    ofItems true [d] = .ok ⟨a, s⟩ ↔ d = .bool a ∧ s = "" := by
  rw [ofItems, bind_eq_ok]
  constructor
  · rintro ⟨b, hb, he⟩
    cases he
    exact ⟨asBool_eq_ok.mp hb, rfl⟩
  · rintro ⟨rfl, rfl⟩
    exact ⟨a, rfl, rfl⟩

theorem ofItems_more {d e : Draft} {rest : List Draft} {a : Bool} {s : String} :
    ofItems true (d :: e :: rest) = .ok ⟨a, s⟩ ↔
      d = .bool a ∧ (∃ letters, e = .string letters ∧ Letter.text? letters = some s) ∧ rest = [] := by
  simp only [ofItems, bind_eq_ok]
  constructor
  · rintro ⟨b, hb, t, ht, he⟩
    cases rest with
    | nil =>
      cases he
      exact ⟨asBool_eq_ok.mp hb, asText_eq_ok.mp ht, rfl⟩
    | cons f rest => cases he
  · rintro ⟨rfl, he, rfl⟩
    exact ⟨a, rfl, s, asText_eq_ok.mpr he, rfl⟩

/-- An array is a reply exactly if it is a boolean and at most a text after it. -/
theorem ofItems_eq_ok {ds : List Draft} {r : Reply} :
    ofItems true ds = .ok r ↔ ∃ es, ds = .bool r.agree :: es ∧ GivesReason es r.reason := by
  obtain ⟨a, s⟩ := r
  cases ds with
  | nil => simp [ofItems]
  | cons d es =>
    cases es with
    | nil =>
      rw [ofItems_one]
      constructor
      · rintro ⟨rfl, rfl⟩
        exact ⟨[], rfl, .absent⟩
      · rintro ⟨es, ⟨⟩, ⟨⟩⟩
        exact ⟨rfl, rfl⟩
    | cons e rest =>
      rw [ofItems_more]
      constructor
      · rintro ⟨rfl, ⟨letters, rfl, hs⟩, rfl⟩
        exact ⟨_, rfl, .given hs⟩
      · rintro ⟨es, ⟨⟩, hreason⟩
        cases hreason with
        | given hs => exact ⟨rfl, ⟨_, rfl, hs⟩, rfl⟩

/-- A document without a break is read as the answer that it gives. -/
theorem ofDraft_eq_ok {d : Draft} (hd : d.isUnbroken = true) {r : Reply} :
    ofDraft d = .ok r ↔ Answers d r := by
  cases d with
  | object ms closed =>
    rw [Draft.isUnbroken, Bool.and_eq_true] at hd
    obtain ⟨rfl, hms⟩ := hd
    rw [ofDraft, ofMembers_eq_ok hms, gathers_agree, gathers_reason]
    constructor
    · rintro ⟨hspelled, hagree, hreason⟩
      exact .members hspelled hagree hreason
    · rintro ⟨hspelled, hagree, hreason⟩
      exact ⟨hspelled, hagree, hreason⟩
  | array ds closed =>
    rw [Draft.isUnbroken, Bool.and_eq_true] at hd
    obtain ⟨rfl, -⟩ := hd
    rw [ofDraft, ofItems_eq_ok]
    constructor
    · rintro ⟨es, rfl, hreason⟩
      exact .items hreason
    · rintro ⟨⟩
      exact ⟨_, rfl, ‹_›⟩
  | _ =>
    constructor
    · intro h
      exact absurd h (Draft.refuse_ne_ok _ _ r)
    · rintro ⟨⟩

/-- A well-formed text is read as the reply that its own members give. -/
theorem parse_eq_ok {text : String} {d : Draft} (h : Draft.Spans text.toList d) {r : Reply} :
    Reply.parse text = .ok r ↔ Answers d r := by
  have hparse : Reply.parse text = ofDraft (Draft.read text.toList).1 >>= fun r =>
      if (Draft.skipSpace (Draft.read text.toList).2).isEmpty then .ok r else .error .grammar := rfl
  rw [hparse, bind_eq_ok, h.draft, h.rest, ← ofDraft_eq_ok h.unbroken]
  simp

end Reply

theorem eq_ok_of_toOption {ε α : Type} {x : Except ε α} {a : α} (h : x.toOption = some a) :
    x = .ok a := by
  cases x with
  | error e => cases h
  | ok b => exact congrArg Except.ok (Option.some.inj h)

/-- Two texts of one document are read as the same rule. -/
theorem Rule.parse_congr {text text' : String} {d : Draft} (h : Draft.Spans text.toList d)
    (h' : Draft.Spans text'.toList d) {r : Rule} :
    Rule.parse text = .ok r ↔ Rule.parse text' = .ok r := by
  simp only [Rule.parse_eq_ok, Node.parse_eq_ok, Json.parse?_of_spans h, Json.parse?_of_spans h']

/-- A document comes through as it stands, up to the blanks around it, exactly if it has no fence in it.
Then a rule is drafted from the reply exactly if the reply by itself is that rule, and a verdict is the
one of the answer that the document gives. -/
theorem reply_read_as_it_stands_iff {reply : String} {d : Draft}
    (h : Draft.Spans reply.toList d) :
    (Text.extractJson reply = String.ofList (Text.trim reply.toList) ↔
      ¬ Text.fence <:+: reply.toList) ∧
    (¬ Text.fence <:+: reply.toList →
      (∀ r, Rule.ofReply reply = .ok r ↔ Rule.parse reply = .ok r) ∧
      ∀ v, Verdict.ofReply reply = .ok v ↔ ∃ r, Reply.Answers d r ∧ r.verdict = v) := by
  refine ⟨Text.extractJson_eq_trim_iff reply, fun hfence => ?_⟩
  have hextract := (Text.extractJson_eq_trim_iff reply).mpr hfence
  have hspans : Draft.Spans (Text.extractJson reply).toList d := by
    rw [hextract, String.toList_ofList]
    exact h.trim
  constructor
  · intro r
    rw [Rule.ofReply_eq_ok]
    exact Rule.parse_congr hspans h
  · intro v
    simp only [Verdict.ofReply_eq_ok, Reply.parse_eq_ok hspans]

/-- A rule with blanks around it, and an answer among other members whose reason quotes with single
backticks. -/
theorem reply_read_as_it_stands_quoting :
    let rule := "\n[\"OneOf\", []] "
    let answer := " \x7b\"reason\": \"`x` \", \"note\": [1], \"agree\": false\x7d\t"
    Text.extractJson rule = "[\"OneOf\", []]" ∧
      (∃ r, Rule.ofReply rule = .ok r ∧ r.source = "dsl.oneOf()") ∧
      Verdict.ofReply answer = .ok (.disagree "`x` ") := by
  intro rule answer
  have hrule : Draft.Spans rule.toList (Draft.read rule.toList).1 :=
    ⟨rfl, by decide +kernel, by decide +kernel⟩
  have hanswer : Draft.Spans answer.toList (Draft.read answer.toList).1 :=
    ⟨rfl, by decide +kernel, by decide +kernel⟩
  have hfences : ¬ Text.fence <:+: rule.toList ∧ ¬ Text.fence <:+: answer.toList := by
    decide +kernel
  have hparse : (Rule.parse rule).toOption.map Rule.source = some "dsl.oneOf()" := by
    decide +kernel
  have hreads : (Reply.ofDraft (Draft.read answer.toList).1).toOption = some ⟨false, "`x` "⟩ := by
    decide +kernel
  have hanswers := (Reply.ofDraft_eq_ok hanswer.unbroken).mp (eq_ok_of_toOption hreads)
  obtain ⟨r, hr, hsource⟩ := exists_ok_of_toOption hparse
  obtain ⟨hextract, hrules⟩ := reply_read_as_it_stands_iff hrule
  obtain ⟨-, hverdicts⟩ := reply_read_as_it_stands_iff hanswer
  refine ⟨?_, ?_, ?_⟩
  · rw [hextract.mpr hfences.1]
    decide +kernel
  · exact ⟨r, ((hrules hfences.1).1 r).mpr hr, hsource⟩
  · exact ((hverdicts hfences.2).2 _).mpr ⟨_, hanswers, by decide⟩

/-- A fence inside a string diverts the reading: a disagreement is taken for an agreement, and a rule
is not found. -/
theorem reply_cut_at_fence_in_string :
    let answer := "\x7b\"agree\":false,\"reason\":\"```[true]```\"\x7d"
    let rule := "\x7b\"typename\":\"OneOf\",\"options\":[],\"note\":\"```\"\x7d"
    (∃ d, Draft.Spans answer.toList d ∧ Reply.Answers d ⟨false, "```[true]```"⟩) ∧
      Text.extractJson answer = "[true]" ∧ Verdict.ofReply answer = .ok .agree ∧
      (∃ r, Rule.parse rule = .ok r ∧ r.source = "dsl.oneOf()") ∧
      ∀ r, Rule.ofReply rule ≠ .ok r := by
  intro answer rule
  have hanswer : Draft.Spans answer.toList (Draft.read answer.toList).1 :=
    ⟨rfl, by decide +kernel, by decide +kernel⟩
  have hreads : (Reply.ofDraft (Draft.read answer.toList).1).toOption =
      some ⟨false, "```[true]```"⟩ := by
    decide +kernel
  have hverdict : (Verdict.ofReply answer).toOption = some .agree := by decide +kernel
  have hparse : (Rule.parse rule).toOption.map Rule.source = some "dsl.oneOf()" := by
    decide +kernel
  have hlost : (Rule.ofReply rule).toOption.isNone = true := by decide +kernel
  refine ⟨⟨_, hanswer, ?_⟩, by decide +kernel, eq_ok_of_toOption hverdict,
    exists_ok_of_toOption hparse, fun r hr => ?_⟩
  · exact (Reply.ofDraft_eq_ok hanswer.unbroken).mp (eq_ok_of_toOption hreads)
  · rw [hr] at hlost
    cases hlost

end Eligibility
