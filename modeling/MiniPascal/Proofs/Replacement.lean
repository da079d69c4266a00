import MiniPascal.Proofs.Repair
import Mathlib.Data.List.Forall2

/-!
# Replaced tokens

Under the `swallow` policy a token that does not fit is consumed as if it were the one that is
missing. Then the repaired text (`Repairs`) is as long as the text, but for what is missing at its
end, and the repair tells which tokens are to be replaced.

* `Replacement` — a token to be replaced for each diagnostic about a token, from left to right, and
  a token to be added for each diagnostic about the end.

**Theorem (`Repairs.exists_replacement`).** Repairs under the `swallow` policy are replacements.

For whole programs this is `exists_replacement_of_swallow`.
-/

namespace MiniPascal

open Grammar

/-! ## Replacements -/

/-- A token of the given kind makes up for what the diagnostic reports. -/
inductive Diagnostic.MadeUpBy : Diagnostic → Kind → Prop
  | token (k found : Kind) : MadeUpBy (.expected k found) k
  | type {k : Kind} (hk : k ∈ typeKinds) (found : Kind) : MadeUpBy (.expectedType found) k
  | factor (found : Kind) : MadeUpBy (.expectedFactor found) .identifier

/-- The diagnostic is about the end of a text. -/
def Diagnostic.atEnd (e : Diagnostic) : Bool := e.found? = some .endOfText

/-- Puts other kinds at some places of a list. -/
def substitute (ks : List Kind) (subs : List (Nat × Kind)) : List Kind :=
  subs.foldl (fun ks sub => ks.set sub.1 sub.2) ks

/-- What is to be done about the diagnostics `ds` in a text of the kinds `ks`. -/
structure Replacement (ks : List Kind) (ds : List Diagnostic) where
  /-- Places, and what is to be put there. -/
  subs : List (Nat × Kind)
  /-- What is to be added at the end. -/
  added : List Kind
  /-- The places are different ones, from left to right. -/
  increasing : subs.Pairwise fun sub sub' => sub.1 < sub'.1
  /-- There is one place for each diagnostic that is about a token. A token of the kind that was
  found is there, and it is replaced by one that makes up for the diagnostic. -/
  replaced : List.Forall₂ (fun e sub => ks[sub.1]? = e.found? ∧ e.MadeUpBy sub.2)
    (ds.filter fun e => !e.atEnd) subs
  /-- There is one addition for each diagnostic that is about the end. -/
  completed : List.Forall₂ Diagnostic.MadeUpBy (ds.filter Diagnostic.atEnd) added

/-- The kinds when it has been done. -/
def Replacement.kinds {ks : List Kind} {ds : List Diagnostic} (r : Replacement ks ds) : List Kind :=
  substitute ks r.subs ++ r.added

@[simp] theorem substitute_nil (subs : List (Nat × Kind)) : substitute [] subs = [] := by
  induction subs with
  | nil => rfl
  | cons sub subs ih => exact ih

namespace Replacement

variable {ks : List Kind} {ds : List Diagnostic} {e : Diagnostic} {k c : Kind}

/-- The same substitutions, one place to the right. -/
def shift (subs : List (Nat × Kind)) : List (Nat × Kind) := subs.map fun sub => (sub.1 + 1, sub.2)

@[simp] theorem substitute_shift (k : Kind) (ks : List Kind) (subs : List (Nat × Kind)) :
    substitute (k :: ks) (shift subs) = k :: substitute ks subs := by
  induction subs generalizing ks with
  | nil => rfl
  | cons sub subs ih => exact ih (ks.set sub.1 sub.2)

theorem increasing_shift (r : Replacement ks ds) :
    (shift r.subs).Pairwise fun sub sub' => sub.1 < sub'.1 := by
  rw [shift, List.pairwise_map]
  exact r.increasing.imp Nat.succ_lt_succ

theorem replaced_shift (r : Replacement ks ds) (c : Kind) :
    List.Forall₂ (fun e sub => (c :: ks)[sub.1]? = e.found? ∧ e.MadeUpBy sub.2)
      (ds.filter fun e => !e.atEnd) (shift r.subs) := by
  rw [shift, List.forall₂_map_right_iff]
  exact r.replaced

/-- A token is kept. -/
def keep (r : Replacement ks ds) (c : Kind) : Replacement (c :: ks) ds where
  subs := shift r.subs
  added := r.added
  increasing := r.increasing_shift
  replaced := r.replaced_shift c
  completed := r.completed

/-- A token is replaced. -/
def replace (r : Replacement ks ds) (made : e.MadeUpBy k) (found : e.found? = some c)
    (inside : e.atEnd = false) : Replacement (c :: ks) (e :: ds) where
  subs := (0, k) :: shift r.subs
  added := r.added
  increasing := by
    refine List.pairwise_cons.2 ⟨?_, r.increasing_shift⟩
    intro sub hs
    obtain ⟨sub, -, rfl⟩ := List.mem_map.1 hs
    exact Nat.succ_pos sub.1
  replaced := by
    rw [List.filter_cons_of_pos (by simp [inside])]
    exact .cons ⟨found.symm, made⟩ (r.replaced_shift c)
  completed := by
    rw [List.filter_cons_of_neg (by simp [inside])]
    exact r.completed

/-- A token is added at the end. -/
def complete (r : Replacement [] ds) (made : e.MadeUpBy k) (atEnd : e.atEnd) :
    Replacement [] (e :: ds) where
  subs := r.subs
  added := k :: r.added
  increasing := r.increasing
  replaced := by
    rw [List.filter_cons_of_neg (by simp [atEnd])]
    exact r.replaced
  completed := by
    rw [List.filter_cons_of_pos atEnd]
    exact .cons made r.completed

theorem kinds_keep (r : Replacement ks ds) (c : Kind) : (r.keep c).kinds = c :: r.kinds := by
  simp [Replacement.kinds, keep]

theorem kinds_replace (r : Replacement ks ds) (made : e.MadeUpBy k) (found : e.found? = some c)
    (inside : e.atEnd = false) : (r.replace made found inside).kinds = k :: r.kinds := by
  show substitute (k :: ks) (shift r.subs) ++ r.added = k :: r.kinds
  rw [substitute_shift]
  rfl

theorem kinds_complete (r : Replacement [] ds) (made : e.MadeUpBy k) (atEnd : e.atEnd) :
    (r.complete made atEnd).kinds = k :: r.kinds := by
  simp [Replacement.kinds, complete]

/-- A token that makes up for a diagnostic comes in the stead of the token in front, or is added
if there is none. -/
theorem exists_cons (noEnd : .endOfText ∉ ks) (made : e.MadeUpBy k)
    (found : e.found? = some (front ks)) (r : Replacement ks.tail ds) :
    ∃ r' : Replacement ks (e :: ds), r'.kinds = k :: r.kinds := by
  cases ks with
  | nil =>
    have atEnd : e.atEnd := decide_eq_true found
    exact ⟨r.complete made atEnd, r.kinds_complete made atEnd⟩
  | cons c ks =>
    have inside : e.atEnd = false := by
      refine decide_eq_false ?_
      intro h
      rw [found] at h
      exact noEnd (List.mem_cons.2 (.inl (Option.some.inj h).symm))
    exact ⟨r.replace made found inside, r.kinds_replace made found inside⟩

end Replacement

/-- **Repairs that consume what they find are replacements.** -/
theorem Repairs.exists_replacement {ks ks' : List Kind} {ds : List Diagnostic}
    (h : Repairs .swallow ks ds ks') (noEnd : .endOfText ∉ ks) :
    ∃ r : Replacement ks ds, r.kinds = ks' := by
  induction h with
  | done => exact ⟨⟨[], [], .nil, .nil, .nil⟩, rfl⟩
  | @keep k ks ks' ds _ ih =>
    obtain ⟨r, rfl⟩ := ih fun h => noEnd (List.mem_cons_of_mem k h)
    exact ⟨r.keep k, r.kinds_keep k⟩
  | @token k ks ks' ds _ ih =>
    obtain ⟨r, rfl⟩ := ih fun h => noEnd (List.mem_of_mem_tail h)
    exact Replacement.exists_cons noEnd (.token k _) rfl r
  | @type k hk ks ks' ds _ ih =>
    obtain ⟨r, rfl⟩ := ih fun h => noEnd (List.mem_of_mem_tail h)
    exact Replacement.exists_cons noEnd (.type hk _) rfl r
  | @factor ks ks' ds _ ih =>
    obtain ⟨r, rfl⟩ := ih fun h => noEnd (List.mem_of_mem_tail h)
    exact Replacement.exists_cons noEnd (.factor _) rfl r

/-! ## Whole programs -/

/-- **Swallowing takes the offending token for the expected one.** If each diagnostic is about a
missing token or type, or about something that is no factor, put in the stead of each token that
was found one that makes up for the diagnostic, and add one for each diagnostic about the end. Then
the check finds nothing wrong and leaves the traces that it left before. -/
theorem exists_replacement_of_swallow {text : String} {s : Settings}
    (policy : s.recovery = .swallow)
    (repairable : ∀ e ∈ (check text s).diagnostics, e.repairable) :
    ∃ r : Replacement (kinds text s.dialect) (check text s).diagnostics,
      ∀ text', kinds text' s.dialect = r.kinds →
        (check text' s).isClean ∧ (check text' s).lines = traced (check text s).lines := by
  obtain ⟨ks, repairs, clean⟩ := exists_repair repairable
  rw [policy] at repairs
  obtain ⟨r, rfl⟩ := repairs.exists_replacement (endOfText_not_mem_tokens s.dialect text.toList)
  exact ⟨r, clean⟩

/-- A comma stands for a semicolon, an equals sign for an assignment sign, and the dot is missing
at the end. -/
theorem exists_replacement_of_swallow_three :
    ∃ r : Replacement (kinds "program p, begin x = 1 end" .standard)
        [.expected .semicolon .comma, .expected .assign .equal, .expected .dot .endOfText],
      ∀ text', kinds text' .standard = r.kinds →
        (check text' ⟨.standard, .swallow, 9⟩).isClean ∧
          (check text' ⟨.standard, .swallow, 9⟩).lines =
            traced (check "program p, begin x = 1 end" ⟨.standard, .swallow, 9⟩).lines :=
  have found : (check "program p, begin x = 1 end" ⟨.standard, .swallow, 9⟩).diagnostics =
      [.expected .semicolon .comma, .expected .assign .equal, .expected .dot .endOfText] := by
    decide +kernel
  found ▸ exists_replacement_of_swallow rfl (by rw [found]; decide)

end MiniPascal
