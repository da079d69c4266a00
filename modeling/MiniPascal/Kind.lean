/-!
# Token kinds

A token of a Mini-Pascal text is of one of 38 kinds: sixteen reserved words, the punctuation and
operators, identifiers and the two kinds of number, the end of the text, and the kind of everything
that is none of these.

A kind is written in two ways. Its *label* is what traces and diagnostics print; `ofLabel?` reads
it back (`ofLabel?_label`). Its *title* is the same words in camel case.
-/

namespace MiniPascal

/-- What a token is. Reserved words are `kw…`. -/
inductive Kind where
  | kwProgram
  | identifier
  | semicolon
  | dot
  | kwVar
  | kwInteger
  | kwReal
  | kwBoolean
  | kwProcedure
  | leftParen
  | rightParen
  | comma
  | colon
  | kwBegin
  | kwEnd
  | assign
  | kwIf
  | kwThen
  | kwElse
  | kwWhile
  | kwDo
  | plus
  | minus
  | kwOr
  | times
  | divide
  | kwAnd
  | equal
  | notEqual
  | less
  | lessEqual
  | greater
  | greaterEqual
  | integerLiteral
  | realLiteral
  | kwNot
  | endOfText
  | error
  deriving DecidableEq, Repr, Inhabited

namespace Kind

/-- Every kind, in the order in which they are numbered. -/
def all : List Kind :=
  [.kwProgram, .identifier, .semicolon, .dot, .kwVar, .kwInteger, .kwReal, .kwBoolean,
    .kwProcedure, .leftParen, .rightParen, .comma, .colon, .kwBegin, .kwEnd, .assign, .kwIf,
    .kwThen, .kwElse, .kwWhile, .kwDo, .plus, .minus, .kwOr, .times, .divide, .kwAnd, .equal,
    .notEqual, .less, .lessEqual, .greater, .greaterEqual, .integerLiteral, .realLiteral, .kwNot,
    .endOfText, .error]

theorem mem_all (k : Kind) : k ∈ all := by cases k <;> decide

/-- The label that traces and diagnostics print. -/
def label : Kind → String
  | kwProgram => "PROGRAM"
  | identifier => "IDENTIFIER"
  | semicolon => "SEMICOLON"
  | dot => "DOT"
  | kwVar => "VAR"
  | kwInteger => "INTEGER"
  | kwReal => "REAL"
  | kwBoolean => "BOOLEAN"
  | kwProcedure => "PROCEDURE"
  | leftParen => "LPAREN"
  | rightParen => "RPAREN"
  | comma => "COMMA"
  | colon => "COLON"
  | kwBegin => "BEGIN"
  | kwEnd => "END"
  | assign => "ASSIGN"
  | kwIf => "IF"
  | kwThen => "THEN"
  | kwElse => "ELSE"
  | kwWhile => "WHILE"
  | kwDo => "DO"
  | plus => "PLUS"
  | minus => "MINUS"
  | kwOr => "OR"
  | times => "TIMES"
  | divide => "DIV"
  | kwAnd => "AND"
  | equal => "EQUAL"
  | notEqual => "NOT_EQUAL"
  | less => "LESS"
  | lessEqual => "LESS_EQUAL"
  | greater => "GREATER"
  | greaterEqual => "GREATER_EQUAL"
  | integerLiteral => "NUM_INTEGER"
  | realLiteral => "NUM_REAL"
  | kwNot => "NOT"
  | endOfText => "END_OF_FILE"
  | error => "ERROR"

/-- The label's words in camel case; `LParen` and `RParen` keep their first letter apart. -/
def title : Kind → String
  | kwProgram => "Program"
  | identifier => "Identifier"
  | semicolon => "Semicolon"
  | dot => "Dot"
  | kwVar => "Var"
  | kwInteger => "Integer"
  | kwReal => "Real"
  | kwBoolean => "Boolean"
  | kwProcedure => "Procedure"
  | leftParen => "LParen"
  | rightParen => "RParen"
  | comma => "Comma"
  | colon => "Colon"
  | kwBegin => "Begin"
  | kwEnd => "End"
  | assign => "Assign"
  | kwIf => "If"
  | kwThen => "Then"
  | kwElse => "Else"
  | kwWhile => "While"
  | kwDo => "Do"
  | plus => "Plus"
  | minus => "Minus"
  | kwOr => "Or"
  | times => "Times"
  | divide => "Div"
  | kwAnd => "And"
  | equal => "Equal"
  | notEqual => "NotEqual"
  | less => "Less"
  | lessEqual => "LessEqual"
  | greater => "Greater"
  | greaterEqual => "GreaterEqual"
  | integerLiteral => "NumInteger"
  | realLiteral => "NumReal"
  | kwNot => "Not"
  | endOfText => "EndOfFile"
  | error => "Error"

instance : ToString Kind := ⟨label⟩

/-- The kind of the given number. -/
def ofIndex? (i : Nat) : Option Kind := all[i]?

/-- The kind that is labelled so. -/
def ofLabel? (s : String) : Option Kind := all.find? (·.label == s)

/-- A label names one kind. -/
theorem ofLabel?_label (k : Kind) : ofLabel? k.label = some k := by cases k <;> decide

end Kind

end MiniPascal
