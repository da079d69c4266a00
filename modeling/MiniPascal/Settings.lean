import MiniPascal.Dialect

/-!
# Settings of a check

Beside the dialect, a check is told what to do with a token that is not the one it needs, and how
deep commands, factors and procedure declarations may be nested.
-/

namespace MiniPascal

/-- What becomes of a token that is not the required one. Either way the fault is reported. -/
inductive Recovery where
  /-- The token is taken for the required one and consumed. -/
  | swallow
  /-- The required token is taken to have been there; the present one stays. -/
  | insert
  deriving DecidableEq, Repr

instance : Inhabited Recovery := ⟨.swallow⟩

namespace Recovery

/-- A token of the wrong kind is consumed. -/
def consumesMismatch : Recovery → Bool
  | swallow => true
  | insert => false

/-- The policy's word on the command line. -/
def word : Recovery → String
  | swallow => "swallow"
  | insert => "insert"

/-- The policy's name where settings are shown. -/
def title : Recovery → String
  | swallow => "Swallow"
  | insert => "Insert"

def all : List Recovery := [swallow, insert]

/-- The policy with the given word; case matters. -/
def ofWord? (s : String) : Option Recovery := all.find? (·.word == s)

theorem ofWord?_word (r : Recovery) : ofWord? r.word = some r := by cases r <;> decide

end Recovery

/-- How deep levels may be nested when nothing else is said. -/
def defaultMaxNesting : Nat := 256

/-- The settings of one check. -/
structure Settings where
  dialect : Dialect := .standard
  recovery : Recovery := .swallow
  maxNesting : Nat := defaultMaxNesting
  deriving DecidableEq, Repr, Inhabited

end MiniPascal
