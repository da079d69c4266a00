import MiniPascal.Kind

/-!
# Tokens

A token is a kind with its lexeme: the characters it was scanned from, of which at most
`maxLexeme` are kept.
-/

namespace MiniPascal

/-- A kind and the text that it was read from. -/
structure Token where
  kind : Kind
  lexeme : String
  deriving DecidableEq, Repr, Inhabited

namespace Token

/-- The places of a lexeme, one of which is left for a terminator. -/
def lexemePlaces : Nat := 100

/-- The number of characters that a lexeme keeps. -/
def maxLexeme : Nat := lexemePlaces - 1

/-- A token read from `cs`. What goes beyond `maxLexeme` characters is left out of the lexeme. -/
def ofChars (kind : Kind) (cs : List Char) : Token := ⟨kind, String.ofList (cs.take maxLexeme)⟩

/-- A token read from a text. -/
def ofText (kind : Kind) (text : String) : Token := ofChars kind text.toList

/-- The token that stands behind the last one of a text. -/
def endOfText : Token := ⟨.endOfText, ""⟩

/-- The token is of the kind that ends a text, whatever its lexeme. -/
def isEnd (t : Token) : Bool := t.kind = .endOfText

@[simp] theorem kind_ofChars (k : Kind) (cs : List Char) : (ofChars k cs).kind = k := rfl

@[simp] theorem isEnd_endOfText : endOfText.isEnd = true := rfl

/-- A lexeme is a beginning of what was read, of at most `maxLexeme` characters. -/
theorem toList_lexeme_ofChars (k : Kind) (cs : List Char) :
    (ofChars k cs).lexeme.toList = cs.take maxLexeme := by simp [ofChars]

end Token

end MiniPascal
