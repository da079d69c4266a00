import MiniPascal.Diagnostic
import MiniPascal.Settings
import MiniPascal.Trace

/-!
# The grammar, as a table of what to do next

The language is that of these rules, where `[x]` is an optional part and `{x}` a repeated one.

    program         = PROGRAM identifier ";" block "."
    block           = [varDeclaration] {procedureDeclaration} compound
    varDeclaration  = VAR varList ";" {varList ";"}
    varList         = variable {"," variable} ":" type
    type            = INTEGER | REAL | BOOLEAN
    procedureDeclaration = PROCEDURE identifier [formals] ";" block ";"
    formals         = "(" section {";" section} ")"
    section         = [VAR] varList
    compound        = BEGIN command {";" command} END
    command         = assignment | procedureCall | compound | conditional | repetition
    assignment      = variable ":=" expression
    procedureCall   = identifier ["(" expressionList ")"]
    conditional     = IF expression THEN command [ELSE command]
    repetition      = WHILE expression DO command
    expression      = simpleExpression [relation simpleExpression]
    simpleExpression = ["+" | "-"] term {("+" | "-" | OR) term}
    term            = factor {("*" | "/" | AND) factor}
    factor          = variable | number | "(" expression ")" | NOT factor
    variable        = identifier
    expressionList  = expression {"," expression}

Only the extended dialect repeats the groups of a `var` section, and only it has procedures and the
relations `<=` and `>=`.

`expand` makes the rules a table: it tells, for a phrase and the kind of the token in front, the
steps that a check takes. Beside the parts of the phrase they hold the traces that are left on the
way, and what is reported and skipped where the token does not fit.
-/

namespace MiniPascal

/-- A part of a program. The phrases `more…`, `…Part` and `…Groups` are what may follow inside
another one. -/
inductive Phrase where
  | program
  | block
  | varDeclaration
  | varGroups
  | varList
  | moreVariables
  | type
  | procedures
  | procedureDeclaration
  | formalsPart
  | formals
  | formalSection
  | moreSections
  | compound
  | moreCommands
  | command
  | assignment
  | procedureCall
  | argumentsPart
  | conditional
  | elsePart
  | repetition
  | expression
  | relationPart
  | simpleExpression
  | moreTerms
  | term
  | moreFactors
  | factor
  | variableName
  | expressionList
  | moreExpressions
  deriving DecidableEq, Repr

/-- A step of a check. -/
inductive Step where
  /-- Consume a token of this kind. If another is there, report it and recover. -/
  | expect (k : Kind)
  /-- Leave a trace. -/
  | mark (t : Trace)
  /-- Record a diagnostic. -/
  | report (e : Diagnostic)
  /-- Consume a token, whatever it is. -/
  | skip
  /-- Consume a token if the recovery policy consumes tokens that do not fit. -/
  | recover
  /-- Check a phrase. -/
  | phrase (p : Phrase)
  /-- Check a phrase one level deeper. If no level is left, report that and consume a token. -/
  | level (p : Phrase)
  /-- Close the level that was opened last. -/
  | close
  /-- Put the end of the check on record. -/
  | finish
  deriving DecidableEq, Repr

namespace Grammar

/-- The kinds that name a type. -/
def typeKinds : List Kind := [.kwInteger, .kwReal, .kwBoolean]

/-- The kinds of the signs in front of a first term. -/
def signs : List Kind := [.plus, .minus]

/-- The kinds that join terms. -/
def addingOperators : List Kind := [.plus, .minus, .kwOr]

/-- The kinds that join factors. -/
def multiplyingOperators : List Kind := [.times, .divide, .kwAnd]

/-- The kinds that compare two simple expressions. -/
def relations (d : Dialect) : List Kind :=
  [.equal, .notEqual, .less, .greater] ++
    if d.hasRelationalPairs then [.lessEqual, .greaterEqual] else []

/-- The steps that check a command: `first` is the kind of its first token and `next` of the one
behind it. Where procedures can be called, an identifier starts an assignment only if the
assignment sign follows at once. -/
@[macro_inline]
def commandSteps (d : Dialect) (first next : Kind) : List Step :=
  match first with
  | .identifier =>
    if d.hasProcedures && next != .assign then [.phrase .procedureCall] else [.phrase .assignment]
  | .kwBegin => [.phrase .compound]
  | .kwIf => [.phrase .conditional]
  | .kwWhile => [.phrase .repetition]
  | .endOfText => [.report (.unexpected .endOfText)]
  | found => [.report (.unexpected found), .skip]

/-- The steps that check a factor whose first token is of kind `first`. -/
def factorSteps (first : Kind) : List Step :=
  match first with
  | .identifier => [.phrase .variableName]
  | .integerLiteral | .realLiteral => [.expect first]
  | .leftParen => [.expect .leftParen, .phrase .expression, .expect .rightParen]
  | .kwNot => [.expect .kwNot, .level .factor]
  | found => [.report (.expectedFactor found), .skip]

/-- The steps that check a phrase when a token of kind `c` is in front and one of kind `next`
behind it. It is inlined so that `next` is looked for only where it matters. -/
@[macro_inline]
def expand (d : Dialect) (p : Phrase) (c next : Kind) : List Step :=
  match p with
  | .program =>
    if c = .kwProgram then
      [.expect .kwProgram, .expect .identifier, .expect .semicolon, .phrase .block, .expect .dot,
        .finish]
    else [.report (.expected .kwProgram c)]
  | .block =>
    if c = .kwVar then [.phrase .varDeclaration, .phrase .procedures, .phrase .compound]
    else [.phrase .procedures, .phrase .compound]
  | .varDeclaration =>
    [.expect .kwVar, .phrase .varList, .expect .semicolon, .phrase .varGroups]
  | .varGroups =>
    if d.repeatsVarGroups && c = .identifier then
      [.phrase .varList, .expect .semicolon, .phrase .varGroups]
    else []
  | .varList => [.phrase .variableName, .phrase .moreVariables, .expect .colon, .phrase .type]
  | .moreVariables =>
    if c = .comma then [.expect .comma, .phrase .variableName, .phrase .moreVariables] else []
  | .type => if c ∈ typeKinds then [.expect c] else [.report (.expectedType c), .recover]
  | .procedures =>
    if d.hasProcedures && c = .kwProcedure then [.level .procedureDeclaration, .phrase .procedures]
    else []
  | .procedureDeclaration =>
    [.expect .kwProcedure, .expect .identifier, .phrase .formalsPart, .expect .semicolon,
      .phrase .block, .expect .semicolon]
  | .formalsPart => if c = .leftParen then [.phrase .formals] else []
  | .formals =>
    [.expect .leftParen, .phrase .formalSection, .phrase .moreSections, .expect .rightParen]
  | .formalSection =>
    if c = .kwVar then [.expect .kwVar, .phrase .varList] else [.phrase .varList]
  | .moreSections =>
    if c = .semicolon then [.expect .semicolon, .phrase .formalSection, .phrase .moreSections]
    else []
  | .compound =>
    if c = .kwBegin then
      [.expect .kwBegin, .mark .compoundBegin, .level .command, .phrase .moreCommands,
        .expect .kwEnd, .mark .compoundEnd]
    else [.report (.expected .kwBegin c), .skip]
  | .moreCommands =>
    if c = .semicolon then
      [.expect .semicolon, .mark .separator, .level .command, .phrase .moreCommands]
    else []
  | .command => .mark (.command c) :: commandSteps d c next
  | .assignment =>
    [.mark .assignment, .phrase .variableName, .expect .assign, .phrase .expression]
  | .procedureCall =>
    if c = .identifier then [.expect .identifier, .phrase .argumentsPart]
    else [.report (.expected .identifier c)]
  | .argumentsPart =>
    if c = .leftParen then [.expect .leftParen, .phrase .expressionList, .expect .rightParen]
    else []
  | .conditional =>
    if c = .kwIf then
      [.expect .kwIf, .phrase .expression, .expect .kwThen, .level .command, .phrase .elsePart]
    else [.report (.expected .kwIf c)]
  | .elsePart => if c = .kwElse then [.expect .kwElse, .level .command] else []
  | .repetition =>
    if c = .kwWhile then [.expect .kwWhile, .phrase .expression, .expect .kwDo, .level .command]
    else [.report (.expected .kwWhile c)]
  | .expression => [.mark .expression, .phrase .simpleExpression, .phrase .relationPart]
  | .relationPart => if c ∈ relations d then [.expect c, .phrase .simpleExpression] else []
  | .simpleExpression =>
    if c ∈ signs then [.expect c, .phrase .term, .phrase .moreTerms]
    else [.phrase .term, .phrase .moreTerms]
  | .moreTerms =>
    if c ∈ addingOperators then [.expect c, .phrase .term, .phrase .moreTerms] else []
  | .term => [.level .factor, .phrase .moreFactors]
  | .moreFactors =>
    if c ∈ multiplyingOperators then [.expect c, .level .factor, .phrase .moreFactors] else []
  | .factor => factorSteps c
  | .variableName => [.expect .identifier]
  | .expressionList => [.phrase .expression, .phrase .moreExpressions]
  | .moreExpressions =>
    if c = .comma then [.expect .comma, .phrase .expression, .phrase .moreExpressions] else []

end Grammar

/-- The step that checks a phrase by itself. A command and a factor open a level wherever they
stand; a procedure declaration opens one only as a part of a block. -/
def Phrase.step : Phrase → Step
  | .command => .level .command
  | .factor => .level .factor
  | p => .phrase p

end MiniPascal
