import MiniPascal.Kind

/-!
# Traces

A trace is a line that tells how far a check has come. Compound commands, commands, assignments and
expressions leave one when they are entered, separators and the end of a compound command when they
have been passed.
-/

namespace MiniPascal

/-- What a check tells about its way through a text. -/
inductive Trace where
  /-- A compound command has been entered. -/
  | compoundBegin
  /-- The separator of two commands has been passed. -/
  | separator
  /-- A compound command has been left. -/
  | compoundEnd
  /-- A command is entered; `first` is the kind of its first token. -/
  | command (first : Kind)
  /-- An assignment is entered. -/
  | assignment
  /-- An expression is entered. -/
  | expression
  deriving DecidableEq, Repr

/-- The line that is printed. -/
def Trace.text : Trace → String
  | compoundBegin => "Parsing BEGIN"
  | separator => "Parsing SEMICOLON"
  | compoundEnd => "Parsing END"
  | command first => "Parsing command with token: " ++ first.label
  | assignment => "Parsing assignment"
  | expression => "Parsing expression"

end MiniPascal
