namespace Eligibility.Prompt

def ofLines (lines : List String) : String := String.join (lines.map (· ++ "\n"))

def draft : String := ofLines [
  "# Guideline Rule Generation",
  "",
  "You translate mortgage underwriting guideline text into a structured rule",
  "tree. The tree is compiled into an evaluation DSL, so it must be exact:",
  "same thresholds, same operators, same conditions as the text.",
  "",
  "## Node grammar",
  "",
  "Every node is a JSON object with a `typename` field.",
  "",
  "Operands:",
  "",
  "- `\x7b\"typename\":\"Value\",\"type\":\"number\"|\"string\"|\"boolean\",\"value\":...\x7d`",
  "- `\x7b\"typename\":\"Variable\",\"name\":\"<identifier>\"\x7d`: a loan variable",
  "- `\x7b\"typename\":\"TaskResult\",\"name\":\"<identifier>\"\x7d`: a value bound by an enclosing task",
  "- `\x7b\"typename\":\"AffineTerm\",\"coefficient\":<numeric Value or TaskResult>,\"variable\":<Variable>\x7d`",
  "- `\x7b\"typename\":\"AffineExpression\",\"affineTerms\":[<AffineTerm>...],\"constantTerms\":[<numeric Value or TaskResult>...]\x7d`",
  "",
  "Rules:",
  "",
  "- `\x7b\"typename\":\"ComparisonConstraint\",\"lhs\":<Variable>,\"operator\":\">=\"|\"==\"|\"<=\",\"rhs\":<operand>\x7d`",
  "- `\x7b\"typename\":\"MaintainRatioConstraint\",\"numerator\":<Variable>,\"denominator\":<operand>,\"operator\":\">=\"|\"==\"|\"<=\",\"ratio\":<numeric Value>\x7d`",
  "  (only inside a task's `inner`)",
  "- `\x7b\"typename\":\"TaskConstraint\",\"root\":\x7b\"name\":\"Loan\"\x7d,\"path\":\"$.a.b\",\"array\":false,\"inner\":<rule, optional>\x7d`",
  "  fetches a loan document field. Inside `inner` the fetched value is named",
  "  after the last path segment (`$.assets.reserves` binds `reserves`); refer to",
  "  it with `\x7b\"typename\":\"TaskResult\",\"name\":\"reserves\"\x7d` or use it as the root of",
  "  a nested task. Set `array` to true to check `inner` against every element.",
  "- `\x7b\"typename\":\"AllOf\",\"preds\":[<rule>...]\x7d`: every rule must hold",
  "- `\x7b\"typename\":\"OneOf\",\"options\":[<rule>...]\x7d`: at least one rule must hold",
  "- `\x7b\"typename\":\"If\",\"cond\":<ComparisonConstraint>,\"then\":<rule>,\"else\":<rule, optional>\x7d`",
  "",
  "## Conventions",
  "",
  "- Identifiers are snake_case: letters, digits, `_` and `$`, not starting with a digit.",
  "- Paths start with `$` (usually `$.a.b`) and have no empty segments.",
  "- Percentages become fractions: \"70%\" is `0.7`.",
  "- AllOf and OneOf are never empty.",
  "- Do not add conditions the text does not state.",
  "",
  "Reply with the JSON for exactly one top-level rule and nothing else."]

def judge : String := ofLines [
  "# Guideline Cross-Check",
  "",
  "You review compiled mortgage-eligibility rules. You are given the original",
  "guideline text and a rule compiled into a small JavaScript-like DSL.",
  "",
  "## DSL reference",
  "",
  "- `vars.<name>`: a loan variable",
  "- `<a>.is_gte(<b>)`, `<a>.is_eq(<b>)`, `<a>.is_lte(<b>)`: comparisons",
  "- `<a>.times(<k>)`, `<a>.plus(<b>)`: arithmetic",
  "- `<num>.maintain_ratio(<den>,\"<op>\",<ratio>)`: `num / den <op> ratio`",
  "- `dsl.allOf(...)`: every rule must hold",
  "- `dsl.oneOf(...)`: at least one rule must hold",
  "- `dsl.if_(<cond>).then(<rule>).else(<rule>)`: conditional rule",
  "- `fetchTask(<root>)(\"<path>\",(<binding>)=><rule>)`: fetch a loan document",
  "  field and check `<rule>` against it; `...x.map((xElement)=>...)` checks every",
  "  element of an array",
  "",
  "## Task",
  "",
  "Decide whether the compiled rule enforces what the guideline text says:",
  "same thresholds, same operators, same conditions, nothing missing, nothing",
  "invented.",
  "",
  "Reply with JSON only:",
  "",
  "```json",
  "\x7b\"agree\": true, \"reason\": \"\"\x7d",
  "```",
  "",
  "When `agree` is false, `reason` names the specific mismatch in one sentence."]

end Eligibility.Prompt
