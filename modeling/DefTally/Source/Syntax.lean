import DefTally.Grammar.Basic
import DefTally.Source.Phrase
import DefTally.Source.Token

/-!
# The grammar of a Python module

`Phrase.rule` gives the rule of every kind of phrase, and `syntaxGrammar` is the grammar they
make up. It is a permissive grammar, wider than the language of any one interpreter: the
print and exec statements of old modules stand beside pattern matching and type aliases, and
many keywords may serve as names where the grammar has no other use for them.

Rules that need no phrase of their own, such as `suite`, are plain definitions and become
part of the productions that use them.
-/

namespace DefTally.Source

open DefTally.Grammar
open DefTally.Grammar.Rule (chain oneOf optional many many1 sepBy1 ranked)

/-! The precedence levels, from loose to tight. -/

namespace Level

def softName : Int := -3
def plainPrint : Int := -3
def lambda : Int := -2
def typedParameter : Int := -1
def conditional : Int := -1
def preferred : Int := 1
def parenthesized : Int := 1
def or : Int := 10
def and : Int := 11
def not : Int := 12
def comparison : Int := 13
def bitOr : Int := 14
def bitAnd : Int := 15
def bitXor : Int := 16
def shift : Int := 17
def sum : Int := 18
def product : Int := 19
def unary : Int := 20
def power : Int := 21
def call : Int := 22

end Level

/-! Shorthands in which the rules are written. -/

/-- A token as a rule. -/
def tok (t : Token) : Rule := .token t.number

/-- A phrase as a rule. -/
def ph (p : Phrase) : Rule := .phrase p.number

/-- The rule at a level of precedence. -/
def at_ (level : Int) (r : Rule) : Rule := ranked level none r

/-- The rule at a level of precedence, grouping to the left. -/
def leftward (level : Int) (r : Rule) : Rule := ranked level (some .left) r

/-- The rule at a level of precedence, grouping to the right. -/
def rightward (level : Int) (r : Rule) : Rule := ranked level (some .right) r

/-- The rule at least once, with commas between. -/
def commas (r : Rule) : Rule := sepBy1 r (tok .comma)

/-- The rule at least once, with commas between and perhaps one at the end. -/
def commasOpen (r : Rule) : Rule := chain [commas r, optional (tok .comma)]

/-- The rule between round brackets. -/
def inParens (r : Rule) : Rule := chain [tok .parenOpen, r, tok .parenClose]

/-- The rule between square brackets. -/
def inBrackets (r : Rule) : Rule := chain [tok .bracketOpen, r, tok .bracketClose]

/-- The rule between curly brackets. -/
def inBraces (r : Rule) : Rule := chain [tok .braceOpen, r, tok .braceClose]

/-- Two operands with an operator between them. -/
def infixed (operand : Phrase) (operator : Token) : Rule :=
  chain [ph operand, tok operator, ph operand]

/-! Rules without a phrase of their own. -/

/-- A keyword that may be used as a name. -/
def softName : Rule :=
  oneOf [at_ Level.softName (oneOf [tok .kwPrint, tok .kwExec, tok .kwAsync, tok .kwAwait]),
    tok .kwType, tok .kwMatch]

/-- A statement that fits on a line. -/
def simpleStatement : Rule :=
  oneOf [ph .futureImportStatement, ph .importStatement, ph .importFromStatement,
    ph .printStatement, ph .assertStatement, ph .expressionStatement, ph .returnStatement,
    ph .deleteStatement, ph .raiseStatement, ph .passStatement, ph .breakStatement,
    ph .continueStatement, ph .globalStatement, ph .nonlocalStatement, ph .execStatement,
    ph .typeAliasStatement]

/-- A statement with a block of its own. -/
def compoundStatement : Rule :=
  oneOf [ph .ifStatement, ph .forStatement, ph .whileStatement, ph .tryStatement,
    ph .withStatement, ph .functionDefinition, ph .classDefinition, ph .decoratedDefinition,
    ph .matchStatement]

/-- What follows the colon of a compound statement: statements on the same line, an indented
block, or nothing at all. -/
def suite : Rule := oneOf [ph .statementLine, chain [tok .indent, ph .block], tok .newline]

/-- One expression, or several with commas. -/
def expressions : Rule := oneOf [ph .expression, ph .expressionList]

/-- What is assigned to. -/
def leftHandSide : Rule := oneOf [ph .pattern, ph .patternList]

/-- What a star in a parameter list or pattern may collect into. -/
def splatTarget : Rule := oneOf [tok .name, softName, ph .subscript, ph .memberAccess]

/-- A plain number. -/
def numeral : Rule := oneOf [tok .integer, tok .float]

namespace Phrase

/-- The rule of a phrase. -/
def rule : Phrase → Rule
  -- modules and lines
  | module => many (ph statement)
  | statement => oneOf [ph statementLine, compoundStatement]
  | statementLine =>
    chain [sepBy1 simpleStatement (tok .semicolon), optional (tok .semicolon), tok .newline]
  | block => chain [many (ph statement), tok .dedent]
  -- imports
  | importStatement => chain [tok .kwImport, ph importList]
  | importDots => many1 (tok .dot)
  | relativeImport => chain [ph importDots, optional (ph dottedName)]
  | futureImportStatement =>
    chain [tok .kwFrom, tok .kwFuture, tok .kwImport,
      oneOf [ph importList, inParens (ph importList)]]
  | importFromStatement =>
    chain [tok .kwFrom, oneOf [ph relativeImport, ph dottedName], tok .kwImport,
      oneOf [ph importAll, ph importList, inParens (ph importList)]]
  | importList => commasOpen (oneOf [ph dottedName, ph aliasedImport])
  | aliasedImport => chain [ph dottedName, tok .kwAs, tok .name]
  | importAll => tok .star
  | dottedName => at_ Level.preferred (sepBy1 (tok .name) (tok .dot))
  -- simple statements
  | printStatement =>
    oneOf [
      at_ Level.preferred (chain [tok .kwPrint, ph printTarget,
        many (chain [tok .comma, ph expression]), optional (tok .comma)]),
      at_ Level.plainPrint (chain [tok .kwPrint, commas (ph expression), optional (tok .comma)])]
  | printTarget => chain [tok .shiftRight, ph expression]
  | assertStatement => chain [tok .kwAssert, commas (ph expression)]
  | expressionStatement =>
    oneOf [ph expression, commasOpen (ph expression), ph assignment, ph augmentedAssignment,
      ph yieldExpression]
  | returnStatement => chain [tok .kwReturn, optional expressions]
  | deleteStatement => chain [tok .kwDel, expressions]
  | raiseStatement =>
    chain [tok .kwRaise, optional expressions, optional (chain [tok .kwFrom, ph expression])]
  | passStatement => leftward 0 (tok .kwPass)
  | breakStatement => leftward 0 (tok .kwBreak)
  | continueStatement => leftward 0 (tok .kwContinue)
  | globalStatement => chain [tok .kwGlobal, commas (tok .name)]
  | nonlocalStatement => chain [tok .kwNonlocal, commas (tok .name)]
  | execStatement =>
    chain [tok .kwExec, oneOf [ph stringLiteral, tok .name],
      optional (chain [tok .kwIn, commas (ph expression)])]
  | typeAliasStatement =>
    chain [tok .kwType, ph typeExpression, tok .assign, ph typeExpression]
  -- compound statements
  | ifStatement =>
    chain [tok .kwIf, ph expression, tok .colon, suite, many (ph elifClause),
      optional (ph elseClause)]
  | elifClause => chain [tok .kwElif, ph expression, tok .colon, suite]
  | elseClause => chain [tok .kwElse, tok .colon, suite]
  | matchStatement =>
    chain [tok .kwMatch, commas (ph expression), optional (tok .comma), tok .colon,
      ph matchBlock]
  | matchBlock => oneOf [chain [tok .indent, many (ph caseClause), tok .dedent], tok .newline]
  | caseClause =>
    chain [tok .kwCase, commas (ph casePattern), optional (tok .comma),
      optional (ph ifClause), tok .colon, suite]
  | forStatement =>
    chain [optional (tok .kwAsync), tok .kwFor, leftHandSide, tok .kwIn, expressions,
      tok .colon, suite, optional (ph elseClause)]
  | whileStatement =>
    chain [tok .kwWhile, ph expression, tok .colon, suite, optional (ph elseClause)]
  | tryStatement =>
    let tail := chain [optional (ph elseClause), optional (ph finallyClause)]
    chain [tok .kwTry, tok .colon, suite,
      oneOf [chain [many1 (ph exceptClause), tail], chain [many1 (ph exceptGroupClause), tail],
        ph finallyClause]]
  | exceptClause =>
    chain [tok .kwExcept,
      optional (chain [ph expression,
        optional (chain [oneOf [tok .kwAs, tok .comma], ph expression])]),
      tok .colon, suite]
  | exceptGroupClause =>
    chain [tok .exceptStar, ph expression, optional (chain [tok .kwAs, ph expression]),
      tok .colon, suite]
  | finallyClause => chain [tok .kwFinally, tok .colon, suite]
  | withStatement => chain [optional (tok .kwAsync), tok .kwWith, ph withClause, tok .colon, suite]
  | withClause => oneOf [commasOpen (ph withItem), inParens (commasOpen (ph withItem))]
  | withItem => ph expression
  | functionDefinition =>
    chain [optional (tok .kwAsync), tok .kwDef, tok .name, optional (ph typeParameters),
      ph parameters, optional (chain [tok .arrow, ph typeExpression]), tok .colon, suite]
  | classDefinition =>
    chain [tok .kwClass, tok .name, optional (ph typeParameters), optional (ph arguments),
      tok .colon, suite]
  | decoratedDefinition =>
    chain [many1 (ph decorator), oneOf [ph classDefinition, ph functionDefinition]]
  | decorator => chain [tok .at, ph expression, tok .newline]
  -- parameters and arguments
  | parameters => inParens (optional (ph parameterList))
  | lambdaParameters => ph parameterList
  | parameterList => commasOpen (ph parameter)
  | parameter =>
    oneOf [tok .name, ph typedParameter, ph defaultParameter, ph typedDefaultParameter,
      ph listSplatPattern, ph tuplePattern, ph keywordSeparator, ph positionalSeparator,
      ph dictionarySplatPattern]
  | defaultParameter =>
    chain [oneOf [tok .name, ph tuplePattern], tok .assign, ph expression]
  | typedDefaultParameter =>
    at_ Level.typedParameter (chain [tok .name, tok .colon, ph typeExpression, tok .assign,
      ph expression])
  | typedParameter =>
    at_ Level.typedParameter (chain [oneOf [tok .name, ph listSplatPattern,
      ph dictionarySplatPattern], tok .colon, ph typeExpression])
  | positionalSeparator => tok .slash
  | keywordSeparator => tok .star
  | arguments =>
    inParens (chain [optional (commas (oneOf [ph expression, ph listSplat, ph dictionarySplat,
      ph parenthesizedListSplat, ph keywordArgument])), optional (tok .comma)])
  | keywordArgument => chain [oneOf [tok .name, softName], tok .assign, ph expression]
  | listSplat => chain [tok .star, ph expression]
  | dictionarySplat => chain [tok .doubleStar, ph expression]
  | parenthesizedListSplat =>
    at_ Level.parenthesized (inParens (oneOf [ph parenthesizedListSplat, ph listSplat]))
  -- types
  | typeParameters => inBrackets (commasOpen (ph typeExpression))
  | typeExpression =>
    oneOf [at_ Level.preferred (ph expression), ph splatType, ph genericType, ph unionType,
      ph constrainedType, ph memberType]
  | splatType => at_ Level.preferred (chain [oneOf [tok .star, tok .doubleStar], tok .name])
  | genericType =>
    at_ Level.preferred (chain [oneOf [tok .name, tok .kwType], ph typeParameters])
  | unionType => leftward 0 (infixed typeExpression .bar)
  | constrainedType => rightward 0 (infixed typeExpression .colon)
  | memberType => chain [ph typeExpression, tok .dot, tok .name]
  -- the patterns of a case
  | casePattern =>
    at_ Level.preferred (oneOf [ph caseAsPattern, ph keywordPattern, ph simplePattern])
  | simplePattern =>
    at_ Level.preferred (oneOf [ph classPattern, ph splatPattern, ph unionPattern,
      ph caseListPattern, ph caseTuplePattern, ph dictPattern, ph stringLiteral,
      ph adjacentStrings, tok .kwTrue, tok .kwFalse, tok .kwNone,
      chain [optional (tok .minus), numeral], ph complexPattern, ph dottedName,
      tok .kwUnderscore])
  | caseAsPattern => chain [ph casePattern, tok .kwAs, tok .name]
  | unionPattern =>
    rightward 0 (chain [ph simplePattern,
      many1 (leftward 0 (chain [tok .bar, ph simplePattern]))])
  | caseListPattern => inBrackets (optional (commasOpen (ph casePattern)))
  | caseTuplePattern => inParens (optional (commasOpen (ph casePattern)))
  | dictPattern =>
    inBraces (optional (commasOpen (oneOf [ph keyValuePattern, ph splatPattern])))
  | keyValuePattern => chain [ph simplePattern, tok .colon, ph casePattern]
  | keywordPattern => chain [tok .name, tok .assign, ph simplePattern]
  | splatPattern =>
    at_ Level.preferred (chain [oneOf [tok .star, tok .doubleStar],
      oneOf [tok .name, tok .kwUnderscore]])
  | classPattern => chain [ph dottedName, inParens (optional (commasOpen (ph casePattern)))]
  | complexPattern =>
    at_ Level.preferred (chain [optional (tok .minus), numeral,
      oneOf [tok .plus, tok .minus], numeral])
  -- what is assigned to
  | patterns => commasOpen (ph pattern)
  | pattern =>
    oneOf [tok .name, softName, ph subscript, ph memberAccess, ph listSplatPattern,
      ph tuplePattern, ph listPattern]
  | tuplePattern => inParens (optional (ph patterns))
  | listPattern => inBrackets (optional (ph patterns))
  | listSplatPattern => chain [tok .star, splatTarget]
  | dictionarySplatPattern => chain [tok .doubleStar, splatTarget]
  | patternList =>
    chain [ph pattern, oneOf [tok .comma,
      chain [many1 (chain [tok .comma, ph pattern]), optional (tok .comma)]]]
  | assignment =>
    chain [leftHandSide, oneOf [chain [tok .assign, ph assignedValue],
      chain [tok .colon, ph typeExpression],
      chain [tok .colon, ph typeExpression, tok .assign, ph assignedValue]]]
  | augmentedAssignment =>
    chain [leftHandSide,
      oneOf [tok .plusAssign, tok .minusAssign, tok .starAssign, tok .slashAssign,
        tok .atAssign, tok .doubleSlashAssign, tok .percentAssign, tok .doubleStarAssign,
        tok .shiftRightAssign, tok .shiftLeftAssign, tok .ampersandAssign, tok .caretAssign,
        tok .barAssign],
      ph assignedValue]
  | assignedValue =>
    oneOf [ph expression, ph expressionList, ph assignment, ph augmentedAssignment,
      ph patternList, ph yieldExpression]
  -- expressions
  | expressionList =>
    rightward 0 (chain [ph expression, oneOf [tok .comma,
      chain [many1 (chain [tok .comma, ph expression]), optional (tok .comma)]]])
  | expression =>
    oneOf [ph comparison, ph notOperation, ph booleanOperation, ph lambdaExpression,
      ph primaryExpression, ph conditionalExpression, ph namedExpression, ph asPattern]
  | primaryExpression =>
    oneOf [ph awaitExpression, ph binaryOperation, tok .name, softName, ph stringLiteral,
      ph adjacentStrings, tok .integer, tok .float, tok .kwTrue, tok .kwFalse, tok .kwNone,
      ph unaryOperation, ph memberAccess, ph subscript, ph call, ph listDisplay,
      ph listComprehension, ph dictionaryDisplay, ph dictionaryComprehension, ph setDisplay,
      ph setComprehension, ph tupleDisplay, ph parenthesizedExpression,
      ph generatorExpression, tok .ellipsis, ph listSplatPattern]
  | asPattern => leftward 0 (infixed expression .kwAs)
  | namedExpression => chain [ph namedTarget, tok .walrus, ph expression]
  | namedTarget => oneOf [tok .name, softName]
  | conditionalExpression =>
    rightward Level.conditional (chain [ph expression, tok .kwIf, ph expression, tok .kwElse,
      ph expression])
  | lambdaExpression =>
    at_ Level.lambda (chain [tok .kwLambda, optional (ph lambdaParameters), tok .colon,
      ph expression])
  | yieldExpression =>
    rightward 0 (chain [tok .kwYield,
      oneOf [chain [tok .kwFrom, ph expression], optional expressions]])
  | notOperation => at_ Level.not (chain [tok .kwNot, ph expression])
  | booleanOperation =>
    oneOf [leftward Level.and (infixed expression .kwAnd),
      leftward Level.or (infixed expression .kwOr)]
  | comparison =>
    leftward Level.comparison (chain [ph primaryExpression,
      many1 (chain [
        oneOf [tok .less, tok .lessEqual, tok .equal, tok .unequal, tok .greaterEqual,
          tok .greater, tok .lessGreater, tok .kwIn, ph notIn, tok .kwIs, ph isNot],
        ph primaryExpression])])
  | notIn => chain [tok .kwNot, tok .kwIn]
  | isNot => chain [tok .kwIs, tok .kwNot]
  | binaryOperation =>
    oneOf [leftward Level.sum (infixed primaryExpression .plus),
      leftward Level.sum (infixed primaryExpression .minus),
      leftward Level.product (infixed primaryExpression .star),
      leftward Level.product (infixed primaryExpression .at),
      leftward Level.product (infixed primaryExpression .slash),
      leftward Level.product (infixed primaryExpression .percent),
      leftward Level.product (infixed primaryExpression .doubleSlash),
      rightward Level.power (infixed primaryExpression .doubleStar),
      leftward Level.bitOr (infixed primaryExpression .bar),
      leftward Level.bitAnd (infixed primaryExpression .ampersand),
      leftward Level.bitXor (infixed primaryExpression .caret),
      leftward Level.shift (infixed primaryExpression .shiftLeft),
      leftward Level.shift (infixed primaryExpression .shiftRight)]
  | unaryOperation =>
    at_ Level.unary (chain [oneOf [tok .plus, tok .minus, tok .tilde], ph primaryExpression])
  | awaitExpression => at_ Level.unary (chain [tok .kwAwait, ph primaryExpression])
  | memberAccess => at_ Level.call (chain [ph primaryExpression, tok .dot, tok .name])
  | subscript =>
    at_ Level.call (chain [ph primaryExpression,
      inBrackets (commasOpen (oneOf [ph expression, ph slice]))])
  | slice =>
    chain [optional (ph expression), tok .colon, optional (ph expression),
      optional (chain [tok .colon, optional (ph expression)])]
  | call =>
    at_ Level.call (chain [ph primaryExpression,
      oneOf [ph generatorExpression, ph arguments]])
  -- displays and comprehensions
  | listDisplay => inBrackets (optional (ph elements))
  | setDisplay => inBraces (ph elements)
  | tupleDisplay => inParens (optional (ph elements))
  | dictionaryDisplay =>
    inBraces (chain [optional (commas (oneOf [ph pair, ph dictionarySplat])),
      optional (tok .comma)])
  | pair => infixed expression .colon
  | elements =>
    commasOpen (oneOf [ph expression, ph yieldExpression, ph listSplat,
      ph parenthesizedListSplat])
  | parenthesizedExpression =>
    at_ Level.parenthesized (inParens (oneOf [ph expression, ph yieldExpression]))
  | listComprehension => inBrackets (chain [ph expression, ph comprehensionClauses])
  | dictionaryComprehension => inBraces (chain [ph pair, ph comprehensionClauses])
  | setComprehension => inBraces (chain [ph expression, ph comprehensionClauses])
  | generatorExpression => inParens (chain [ph expression, ph comprehensionClauses])
  | comprehensionClauses => chain [ph forInClause, many (oneOf [ph forInClause, ph ifClause])]
  | forInClause =>
    leftward 0 (chain [optional (tok .kwAsync), tok .kwFor, leftHandSide, tok .kwIn,
      commasOpen (ph comprehensionSource)])
  | ifClause => chain [tok .kwIf, ph expression]
  | comprehensionSource => oneOf [ph expression, ph lambdaInComprehension]
  | lambdaInComprehension =>
    chain [tok .kwLambda, optional (ph lambdaParameters), tok .colon, ph comprehensionSource]
  -- string literals
  | adjacentStrings => chain [ph stringLiteral, many1 (ph stringLiteral)]
  | stringLiteral =>
    chain [tok .stringStart, many (oneOf [ph interpolation, ph stringContent]), tok .stringEnd]
  | stringContent =>
    rightward 0 (many1 (oneOf [tok .doubledBrace, tok .escape, tok .loneBackslash,
      tok .stringText]))
  | interpolation =>
    inBraces (chain [ph interpolatedValue, optional (tok .assign), optional (tok .conversion),
      optional (ph formatSpecifier)])
  | interpolatedValue =>
    oneOf [ph expression, ph expressionList, ph patternList, ph yieldExpression]
  | formatSpecifier => chain [tok .colon, many (oneOf [tok .formatText, ph interpolation])]

end Phrase

/-- The grammar of a module. -/
def syntaxGrammar : Grammar :=
  .ofRules Token.count Token.endOfText.number Phrase.module.number (Phrase.all.map Phrase.rule)

end DefTally.Source
