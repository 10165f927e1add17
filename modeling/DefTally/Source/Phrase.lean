/-!
# The phrases of a Python module

The kinds of phrase that the grammar of `DefTally.Source.Syntax` gives a rule to.
-/

namespace DefTally.Source

/-- A kind of phrase. -/
inductive Phrase where
  | module | statement | statementLine | importStatement | importDots | relativeImport
  | futureImportStatement | importFromStatement | importList | aliasedImport | importAll
  | printStatement | printTarget | assertStatement | expressionStatement | namedExpression
  | namedTarget | returnStatement | deleteStatement | raiseStatement | passStatement
  | breakStatement | continueStatement | ifStatement | elifClause | elseClause | matchStatement
  | matchBlock | caseClause | forStatement | whileStatement | tryStatement | exceptClause
  | exceptGroupClause | finallyClause | withStatement | withClause | withItem
  | functionDefinition | parameters | lambdaParameters | listSplat | dictionarySplat
  | globalStatement | nonlocalStatement | execStatement | typeAliasStatement | classDefinition
  | typeParameters | parenthesizedListSplat | arguments | decoratedDefinition | decorator
  | block | expressionList | dottedName | casePattern | simplePattern | caseAsPattern
  | unionPattern | caseListPattern | caseTuplePattern | dictPattern | keyValuePattern
  | keywordPattern | splatPattern | classPattern | complexPattern | parameterList | patterns
  | parameter | pattern | tuplePattern | listPattern | defaultParameter | typedDefaultParameter
  | listSplatPattern | dictionarySplatPattern | asPattern | comprehensionSource | expression
  | primaryExpression | notOperation | booleanOperation | binaryOperation | unaryOperation
  | notIn | isNot | comparison | lambdaExpression | lambdaInComprehension | assignment
  | augmentedAssignment | patternList | assignedValue | yieldExpression | memberAccess | subscript
  | slice | call | typedParameter | typeExpression | splatType | genericType | unionType
  | constrainedType | memberType | keywordArgument | listDisplay | setDisplay | tupleDisplay
  | dictionaryDisplay | pair | listComprehension | dictionaryComprehension | setComprehension
  | generatorExpression | comprehensionClauses | parenthesizedExpression | elements
  | forInClause | ifClause | conditionalExpression | adjacentStrings | stringLiteral
  | stringContent | interpolation | interpolatedValue | formatSpecifier | awaitExpression
  | positionalSeparator | keywordSeparator
  deriving DecidableEq, Repr

namespace Phrase

/-- The number of a phrase in the grammar. -/
def number (p : Phrase) : Nat := p.ctorIdx

/-- How many kinds of phrase there are. -/
def count : Nat := Phrase.keywordSeparator.number + 1

/-- All kinds of phrase, by number. -/
def all : List Phrase := (List.range count).map ofNat

end Phrase

end DefTally.Source
