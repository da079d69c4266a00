/-!
# Dialects

The language comes in three dialects. `legacy` is the poorest: it reserves only the word `program`
and has no assignment sign. `standard` reserves every word and has `:=`. `extended` adds real
numbers, comments, two-character relations, procedures, and `var` sections of several groups.
-/

namespace MiniPascal

/-- Which language a text is written in. -/
inductive Dialect where
  | legacy
  | standard
  | extended
  deriving DecidableEq, Repr

instance : Inhabited Dialect := ⟨.standard⟩

namespace Dialect

/-- All sixteen words are reserved, and not `program` alone. -/
def reservesAllWords : Dialect → Bool
  | legacy => false
  | _ => true

/-- `:=` is one token. -/
def hasAssign : Dialect → Bool
  | legacy => false
  | _ => true

/-- `<=`, `>=` and `<>` are operators. -/
def hasRelationalPairs : Dialect → Bool
  | extended => true
  | _ => false

/-- Digits, a dot and digits are one token. -/
def hasRealLiterals : Dialect → Bool
  | extended => true
  | _ => false

/-- A text in braces is skipped like a blank. -/
def hasComments : Dialect → Bool
  | extended => true
  | _ => false

/-- A `var` section may hold several groups. -/
def repeatsVarGroups : Dialect → Bool
  | extended => true
  | _ => false

/-- Procedures can be declared and called. -/
def hasProcedures : Dialect → Bool
  | extended => true
  | _ => false

/-- The dialect's word on the command line. -/
def word : Dialect → String
  | legacy => "legacy"
  | standard => "standard"
  | extended => "extended"

/-- The dialect's name where settings are shown. -/
def title : Dialect → String
  | legacy => "Legacy"
  | standard => "Standard"
  | extended => "Extended"

def all : List Dialect := [legacy, standard, extended]

/-- The dialect with the given word; case matters. -/
def ofWord? (s : String) : Option Dialect := all.find? (·.word == s)

theorem ofWord?_word (d : Dialect) : ofWord? d.word = some d := by cases d <;> decide

end Dialect

end MiniPascal
