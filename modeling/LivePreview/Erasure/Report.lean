/-
What erasing has removed.

Each removal is a hit of one rule.  A report keeps the hits, newest first, and
everything else about it is counted from them.
-/
import LivePreview.Text.Basic

namespace LivePreview

/-- The kinds of type syntax that are removed. -/
inductive ErasureRule where
  | interfaceDecl
  | typeAlias
  | ambient
  | enumDecl
  | hookArguments
  | callArguments
  | arrowParameters
  | parameterType
  | thisParameter
  | returnType
  | variableType
  | fieldType
  | asAssertion
  | satisfiesCheck
  | nonNull
  | optionalMark
  | accessModifier
  | implementsClause
  | classParameters
  | abstractModifier
deriving DecidableEq, Repr

namespace ErasureRule

/-- The rules in the order in which a report lists them. -/
def all : List ErasureRule :=
  [interfaceDecl, typeAlias, ambient, enumDecl, hookArguments, callArguments, arrowParameters,
    parameterType, thisParameter, returnType, variableType, fieldType, asAssertion,
    satisfiesCheck, nonNull, optionalMark, accessModifier, implementsClause, classParameters,
    abstractModifier]

/-- The name of a rule in a report. -/
def name : ErasureRule → String
  | interfaceDecl => "interface"
  | typeAlias => "type-alias"
  | ambient => "declare"
  | enumDecl => "enum"
  | hookArguments => "hook-generic"
  | callArguments => "symbol-generic"
  | arrowParameters => "arrow-type-params"
  | parameterType => "param-annotation"
  | thisParameter => "this-param"
  | returnType => "return-annotation"
  | variableType => "variable-annotation"
  | fieldType => "field-annotation"
  | asAssertion => "as-assertion"
  | satisfiesCheck => "satisfies"
  | nonNull => "non-null"
  | optionalMark => "optional-marker"
  | accessModifier => "access-modifier"
  | implementsClause => "implements"
  | classParameters => "class-type-params"
  | abstractModifier => "abstract"

end ErasureRule

/-- The hits of a run, newest first. -/
structure ErasureReport where
  hits : List ErasureRule := []
deriving DecidableEq, Repr

namespace ErasureReport

/-- The report with one more hit. -/
def hit (r : ErasureReport) (rule : ErasureRule) : ErasureReport := ⟨rule :: r.hits⟩

/-- Number of hits of one rule. -/
def count (r : ErasureReport) (rule : ErasureRule) : Nat := r.hits.count rule

/-- Number of hits of all rules. -/
def total (r : ErasureReport) : Nat := r.hits.length

/-- The rules that were hit, with their numbers of hits. -/
def counts (r : ErasureReport) : List (ErasureRule × Nat) :=
  (ErasureRule.all.map fun rule => (rule, r.count rule)).filter fun (_, n) => n != 0

/-- The report in one line. -/
def summary (r : ErasureReport) : Text :=
  if r.hits.isEmpty then "no type syntax found".toList
  else Text.join ", ".toList <| r.counts.map fun (rule, n) =>
    rule.name.toList ++ " x".toList ++ Text.ofNat n

end ErasureReport

end LivePreview
