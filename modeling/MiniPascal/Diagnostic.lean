import MiniPascal.Kind

/-!
# Diagnostics

A diagnostic is one fault that a check has found. A check never stops at a fault: it records the
diagnostic and goes on.
-/

namespace MiniPascal

/-- A fault in the form of a text. -/
inductive Diagnostic where
  /-- A token of one kind is required, and one of another kind is there. -/
  | expected (required found : Kind)
  /-- The name of a type is required. -/
  | expectedType (found : Kind)
  /-- No command starts so. -/
  | unexpected (found : Kind)
  /-- No factor starts so. -/
  | expectedFactor (found : Kind)
  /-- More than `limit` levels would be open. -/
  | nestingTooDeep (limit : Nat)
  deriving DecidableEq, Repr

/-- The line that is printed, in Portuguese. -/
def Diagnostic.message : Diagnostic → String
  | expected required found =>
    "Erro de Sintaxe: esperado " ++ required.label ++ " mas recebeu " ++ found.label
  | expectedType found => "Erro de Sintaxe: esperado type mas recebeu " ++ found.label
  | unexpected found => "Erro de Sintaxe: inesperado token " ++ found.label
  | expectedFactor found => "Erro de Sintaxe: Esperado UNKNOWN mas recebeu " ++ found.label
  | nestingTooDeep limit => "Erro de Sintaxe: aninhamento excede o limite de " ++ toString limit

end MiniPascal
