import MiniPascal.Proofs.KindCheck
import MiniPascal.Proofs.Tiling

/-!
# How much a check says

The lines of a check are bounded by the tokens of its text: there are no more than four for each
token, and a text without tokens gets one.

* `Phrase.price` — the number of lines that a phrase leaves at the end of a text, where nothing of
  it is there.
* `Step.lead?` — the kind of the token that an agenda asks for before it does anything but leave
  traces. Where this token is there, the report of its absence is saved.

**Theorem (`Walk.length_le`).** The lines of a walk cost no more than the price of its agenda and
four for each token that is consumed, less five if the token in front is the one that the agenda
asks for: the token pays four lines, and its absence, one more, is not reported.

The bound for whole programs (`length_check_le`) is met by texts of every length, those that break
off behind the word `program` and any number of times `begin` (`exists_length_eq`).
-/

namespace MiniPascal

open Grammar

/-! ## Prices -/

/-- The lines that a phrase leaves at the end of a text. -/
def Phrase.price : Phrase → Nat
  | varGroups | moreVariables | procedures | formalsPart | moreSections | moreCommands
  | argumentsPart | elsePart | relationPart | moreTerms | moreFactors | moreExpressions => 0
  | program | block | type | compound | procedureCall | conditional | repetition
  | simpleExpression | term | factor | variableName => 1
  | command | expression | expressionList => 2
  | varList | formalSection => 3
  | varDeclaration | procedureDeclaration | formals | assignment => 5

/-- The kind of the token that a phrase asks for first, whatever is in front. -/
def Phrase.lead? : Phrase → Option Kind
  | variableName | varList | assignment => some .identifier
  | varDeclaration => some .kwVar
  | procedureDeclaration => some .kwProcedure
  | formals => some .leftParen
  | _ => none

namespace Step

/-- The lines that a step leaves at the end of a text. A level leaves one at least, if only to say
that there is no room for it. -/
def price : Step → Nat
  | expect _ | mark _ | report _ => 1
  | phrase p => p.price
  | level p => max 1 p.price
  | skip | recover | close | finish => 0

/-- The lines that an agenda leaves at the end of a text. -/
def totalPrice : List Step → Nat
  | [] => 0
  | step :: more => step.price + totalPrice more

/-- The kind of the token that an agenda asks for before it does anything but leave traces. Of the
levels only a declaration counts: a command or a factor does not insist on one kind. -/
def lead? : List Step → Option Kind
  | mark _ :: more => lead? more
  | expect k :: _ => some k
  | phrase p :: _ => p.lead?
  | level .procedureDeclaration :: _ => some .kwProcedure
  | _ => none

/-- What is saved where the tokens `ks` are in front: the four lines that the first token pays,
and the one that would tell of its absence. -/
def saving (agenda : List Step) (ks : List Kind) : Nat :=
  if (lead? agenda).any (ks.head? = some ·) then 5 else 0

@[simp] theorem totalPrice_nil : totalPrice [] = 0 := rfl

@[simp] theorem totalPrice_cons (step : Step) (agenda : List Step) :
    totalPrice (step :: agenda) = step.price + totalPrice agenda := rfl

@[simp] theorem totalPrice_append (agenda more : List Step) :
    totalPrice (agenda ++ more) = totalPrice agenda + totalPrice more := by
  induction agenda with
  | nil => simp
  | cons step agenda ih => simp [ih, Nat.add_assoc]

theorem lead?_append {agenda : List Step} {k : Kind} (h : lead? agenda = some k)
    (more : List Step) : lead? (agenda ++ more) = some k := by
  fun_induction lead? agenda with
  | case1 t rest ih => exact ih h
  | case5 => cases h
  | _ => exact h

@[simp] theorem saving_nil (agenda : List Step) : saving agenda [] = 0 := by
  cases h : lead? agenda <;> simp [saving, h]

theorem saving_cons {agenda : List Step} (c : Kind) (ks : List Kind) :
    saving agenda (c :: ks) = if lead? agenda = some c then 5 else 0 := by
  cases h : lead? agenda <;> simp [saving, h, eq_comm]

theorem saving_of_none {agenda : List Step} (h : lead? agenda = none) (ks : List Kind) :
    saving agenda ks = 0 := by
  simp [saving, h]

/-- A token that is consumed pays for what is saved on it, but for the report of its absence. -/
theorem saving_le (agenda : List Step) (ks : List Kind) :
    4 * ks.tail.length + saving agenda ks ≤ 4 * ks.length + 1 := by
  cases ks with
  | nil =>
    rw [saving_nil]
    decide
  | cons c ks =>
    rw [saving_cons, List.tail_cons, List.length_cons]
    split <;> omega

/-- Nothing is saved on a token that does not fit. -/
theorem saving_expect_of_ne {k : Kind} {ks : List Kind} (h : front ks ≠ k) (rest : List Step) :
    saving (.expect k :: rest) ks = 0 := by
  cases ks with
  | nil => exact saving_nil _
  | cons c ks =>
    rw [saving_cons]
    exact if_neg fun same => h (Option.some.inj same).symm

theorem saving_level {p : Phrase} (hp : p ≠ .procedureDeclaration) (rest : List Step)
    (ks : List Kind) : saving (.level p :: rest) ks = 0 := by
  refine saving_of_none ?_ ks
  cases p <;> first | rfl | exact absurd rfl hp

/-- What is saved on a level is saved on its phrase. -/
theorem saving_level_le (p : Phrase) (rest more : List Step) (ks : List Kind) :
    saving (.level p :: rest) ks ≤ saving (.phrase p :: more) ks := by
  by_cases hp : p = .procedureDeclaration
  · subst hp
    exact Nat.le_refl _
  · rw [saving_level hp]
    exact Nat.zero_le _

end Step

/-- The steps for a phrase cost no more than the phrase, if what is saved on them counts. -/
theorem Grammar.totalPrice_expand (d : Dialect) (p : Phrase) (c next : Kind) :
    Step.totalPrice (expand d p c next) + (if p.lead? = some c then 5 else 0) ≤
      p.price + if c ≠ .endOfText ∧ Step.lead? (expand d p c next) = some c then 5 else 0 := by
  have table : ∀ c ∈ Kind.all, ∀ next ∈ [Kind.assign, .error],
      Step.totalPrice (expand d p c next) + (if p.lead? = some c then 5 else 0) ≤
        p.price + if c ≠ .endOfText ∧ Step.lead? (expand d p c next) = some c then 5 else 0 := by
    cases d <;> cases p <;> decide +kernel
  exact of_table (P := fun steps => Step.totalPrice steps + (if p.lead? = some c then 5 else 0) ≤
    p.price + if c ≠ .endOfText ∧ Step.lead? steps = some c then 5 else 0)
      (table c (Kind.mem_all c)) next

/-! ## The price of a walk -/

namespace Step

/-- What is saved on a phrase is saved on the steps for it, and their price is made up for. -/
theorem price_expand (d : Dialect) (p : Phrase) (ks : List Kind) (rest : List Step) :
    totalPrice (expand d p (front ks) (front ks.tail)) + saving (.phrase p :: rest) ks ≤
      p.price + saving (expand d p (front ks) (front ks.tail) ++ rest) ks := by
  have table := Grammar.totalPrice_expand d p (front ks) (front ks.tail)
  cases ks with
  | nil =>
    have none : ¬(front [] ≠ .endOfText ∧
        lead? (expand d p (front []) (front [].tail)) = some (front [])) := fun h => h.1 rfl
    rw [if_neg none] at table
    rw [saving_nil, saving_nil]
    omega
  | cons c ks =>
    rw [front_cons] at table ⊢
    have here : saving (.phrase p :: rest) (c :: ks) = if p.lead? = some c then 5 else 0 :=
      saving_cons c ks
    rw [here]
    by_cases hc : c ≠ .endOfText ∧ lead? (expand d p c (front (c :: ks).tail)) = some c
    · rw [if_pos hc] at table
      rw [saving_cons, if_pos (lead?_append hc.2 rest)]
      exact table
    · rw [if_neg hc] at table
      omega

/-- A refused level leaves one line and consumes a token. What was to be saved on the level is
lost with it; only a declaration has savings, and it costs as much. -/
theorem price_refused (p : Phrase) (rest : List Step) (ks : List Kind) :
    1 + 4 * ks.tail.length + saving (.level p :: rest) ks ≤
      4 * ks.length + (Step.level p).price := by
  have consumed := saving_le (.level p :: rest) ks
  by_cases hp : p = .procedureDeclaration
  · have : (Step.level p).price = 5 := by rw [hp]; rfl
    omega
  · have one : 1 ≤ (Step.level p).price := Nat.le_max_left 1 p.price
    have shorter : ks.tail.length ≤ ks.length := by simp
    rw [saving_level hp]
    omega

/-- **Every step is paid for.** The lines that it leaves, and what is still to be paid, are no more
than what was to be paid before. -/
theorem price_move (s : Settings) (σ : Spot) (step : Step) (rest : List Step) :
    (σ.move s step).lines.length + 4 * (σ.move s step).spot.ahead.length +
        totalPrice ((σ.move s step).todo ++ rest) + saving (step :: rest) σ.ahead ≤
      4 * σ.ahead.length + totalPrice (step :: rest) +
        saving ((σ.move s step).todo ++ rest) (σ.move s step).spot.ahead := by
  rw [totalPrice_append, totalPrice_cons]
  cases step with
  | expect k =>
    by_cases hk : front σ.ahead = k
    · rw [Spot.move_expect hk]
      have consumed := saving_le (.expect k :: rest) σ.ahead
      show 0 + 4 * σ.ahead.tail.length + (0 + totalPrice rest) + _ ≤
        4 * σ.ahead.length + (1 + totalPrice rest) + _
      omega
    · rw [Spot.move_expect_of_ne hk, saving_expect_of_ne hk]
      have shorter := σ.length_recover_le s.recovery
      show 1 + 4 * (σ.recover s.recovery).ahead.length + (0 + totalPrice rest) + 0 ≤
        4 * σ.ahead.length + (1 + totalPrice rest) + _
      omega
  | phrase p =>
    have paid := price_expand s.dialect p σ.ahead rest
    show 0 + 4 * σ.ahead.length +
      (totalPrice (expand s.dialect p (front σ.ahead) (front σ.ahead.tail)) + totalPrice rest) +
        saving (.phrase p :: rest) σ.ahead ≤
      4 * σ.ahead.length + (p.price + totalPrice rest) +
        saving (expand s.dialect p (front σ.ahead) (front σ.ahead.tail) ++ rest) σ.ahead
    omega
  | level p =>
    by_cases room : σ.depth < s.maxNesting
    · rw [Spot.move_level p room]
      have price : p.price ≤ (Step.level p).price := Nat.le_max_right 1 p.price
      have saved := saving_level_le p rest (.close :: rest) σ.ahead
      show 0 + 4 * σ.ahead.length + (p.price + 0 + totalPrice rest) + _ ≤
        4 * σ.ahead.length + ((Step.level p).price + totalPrice rest) +
          saving (.phrase p :: .close :: rest) σ.ahead
      omega
    · rw [Spot.move_level_of_not p room]
      have paid := price_refused p rest σ.ahead
      show 1 + 4 * σ.ahead.tail.length + (0 + totalPrice rest) + _ ≤
        4 * σ.ahead.length + ((Step.level p).price + totalPrice rest) + _
      omega
  | mark t =>
    show 1 + 4 * σ.ahead.length + (0 + totalPrice rest) + saving rest σ.ahead ≤
      4 * σ.ahead.length + (1 + totalPrice rest) + saving rest σ.ahead
    omega
  | report e =>
    rw [saving_of_none rfl]
    show 1 + 4 * σ.ahead.length + (0 + totalPrice rest) + 0 ≤
      4 * σ.ahead.length + (1 + totalPrice rest) + saving rest σ.ahead
    omega
  | skip =>
    have shorter := σ.length_advance_le
    rw [saving_of_none rfl]
    show 0 + 4 * σ.advance.ahead.length + (0 + totalPrice rest) + 0 ≤
      4 * σ.ahead.length + (0 + totalPrice rest) + saving rest σ.advance.ahead
    omega
  | recover =>
    have shorter := σ.length_recover_le s.recovery
    rw [saving_of_none rfl]
    show 0 + 4 * (σ.recover s.recovery).ahead.length + (0 + totalPrice rest) + 0 ≤
      4 * σ.ahead.length + (0 + totalPrice rest) + saving rest (σ.recover s.recovery).ahead
    omega
  | close | finish =>
    rw [saving_of_none rfl]
    show 0 + 4 * σ.ahead.length + (0 + totalPrice rest) + 0 ≤
      4 * σ.ahead.length + (0 + totalPrice rest) + saving rest σ.ahead
    omega

end Step

/-- **A walk is paid for.** Its lines and the tokens that it leaves are no more than the tokens in
front of it and the price of its agenda, less what is saved. -/
theorem Walk.length_le {s : Settings} {i : Nat} {a : List Step} {σ σ' : Spot} {ls : List Line}
    (walk : Walk s i a σ ls σ') :
    ls.length + 4 * σ'.ahead.length + Step.saving a σ.ahead ≤
      4 * σ.ahead.length + Step.totalPrice a := by
  induction walk with
  | nil σ =>
    rw [Step.saving_of_none rfl]
    exact Nat.le_of_eq (Nat.zero_add _)
  | @cons step i rest σ _ ls _ ih =>
    have paid := Step.price_move s σ step rest
    rw [List.length_append]
    omega

/-- A program has the lines of its tokens. Without its first token it has one line. -/
theorem Walk.length_program_le {s : Settings} {i : Nat} {ks : List Kind} {n : Nat} {ls : List Line}
    {σ' : Spot} (walk : Walk s i [.phrase .program] ⟨ks, n⟩ ls σ') :
    ls.length ≤ max 1 (4 * ks.length) := by
  by_cases h : front ks = .kwProgram
  · have steps : (⟨ks, n⟩ : Spot).move s (.phrase .program) =
        { spot := ⟨ks, n⟩, todo := expand s.dialect .program .kwProgram (front ks.tail) } := by
      simp only [Spot.move, h]
    obtain ⟨_, ls, -, rfl, parts⟩ := walk.move steps
    have saved : Step.saving (expand s.dialect .program .kwProgram (front ks.tail) ++ []) ks =
        Step.totalPrice (expand s.dialect .program .kwProgram (front ks.tail) ++ []) := by
      rw [eq_cons_of_front h (by decide)]
      rfl
    have paid := parts.length_le
    simp only [saved] at paid
    show ls.length ≤ max 1 (4 * ks.length)
    omega
  · have steps : (⟨ks, n⟩ : Spot).move s (.phrase .program) =
        { spot := ⟨ks, n⟩, todo := [.report (.expected .kwProgram (front ks))] } := by
      simp only [Spot.move, expand, if_neg h]
    obtain ⟨_, ls, -, rfl, parts⟩ := walk.move steps
    cases parts with
    | cons _ done =>
      cases done
      exact Nat.le_max_left 1 _

/-! ## Texts that break off -/

/-- A check under the `insert` policy, with as many levels as asked for. -/
def inserting (levels : Nat) : Settings := ⟨.standard, .insert, levels⟩

section

variable {levels i m n : Nat} {ls : List Line}

/-- A command is a compound command, or there is none: then its two lines are a trace and a
report. -/
theorem Walk.exists_command
    (compound : Walk (inserting levels) i [.phrase .compound] ⟨List.replicate m .kwBegin, n⟩ ls
      ⟨[], n⟩) (length : ls.length = 4 * m + 1) :
    ∃ j ls', ls'.length = 4 * m + 2 ∧
      Walk (inserting levels) j [.phrase .command] ⟨List.replicate m .kwBegin, n⟩ ls' ⟨[], n⟩ := by
  cases m with
  | zero =>
    exact ⟨_, _, rfl, .cons (.phrase .command) (.cons (.mark _) (.cons (.report _) (.nil _)))⟩
  | succ m =>
    refine ⟨_, _, ?_, .cons (.phrase .command) (.cons (.mark _) compound)⟩
    exact congrArg (· + 1) length

/-- The walk into a compound command inside of a compound command, and so on to the end of the text.
Each of them leaves four lines: it is told as a command and as a compound one, and then its END is
missed and told. -/
theorem exists_walk_compound (m n : Nat) (room : n + m ≤ levels) :
    ∃ i ls, ls.length = 4 * m + 1 ∧
      Walk (inserting levels) i [.phrase .compound] ⟨List.replicate m .kwBegin, n⟩ ls ⟨[], n⟩ := by
  induction m generalizing n with
  | zero =>
    exact ⟨_, _, rfl, .cons (.phrase .compound) (.cons (.report _) (.cons .skip (.nil _)))⟩
  | succ m ih =>
    obtain ⟨i, ls, length, inner⟩ := ih (n + 1) (by omega)
    obtain ⟨j, ls, length, command⟩ := inner.exists_command length
    have ending : Walk (inserting levels) 4
        [.close, .phrase .moreCommands, .expect .kwEnd, .mark .compoundEnd] ⟨[], n + 1⟩
        [.diagnostic (.expected .kwEnd .endOfText), .trace .compoundEnd] ⟨[], n⟩ :=
      .cons .close (.cons (.phrase .moreCommands) (.cons (.expect .kwEnd)
        (.cons (.mark .compoundEnd) (.nil _))))
    have open? : n < (inserting levels).maxNesting := by
      show n < levels
      omega
    have level := Walk.of_move
      (Spot.move_level (σ := ⟨List.replicate m .kwBegin, n⟩) .command open?)
      (command.append ending)
    refine ⟨_, _, ?_, .cons (.phrase .compound) (.cons (.expect .kwBegin)
      (.cons (.mark .compoundBegin) level))⟩
    show (ls ++ [_, _]).length + 1 = 4 * (m + 1) + 1
    rw [List.length_append, length]
    rfl

/-- The walk of a program that breaks off behind `m` times BEGIN. -/
theorem exists_walk_unfinished (m : Nat) (room : m ≤ levels) :
    ∃ i ls σ, ls.length = 4 * (m + 1) ∧
      Walk (inserting levels) i [.phrase .program] ⟨.kwProgram :: List.replicate m .kwBegin, 0⟩ ls
        σ := by
  have start : 0 + m ≤ levels := by omega
  obtain ⟨i, ls, length, compound⟩ := exists_walk_compound m 0 start
  have ending : Walk (inserting levels) 2 [.expect .dot, .finish] ⟨[], 0⟩
      [.diagnostic (.expected .dot .endOfText)] ⟨[], 0⟩ :=
    .cons (.expect .dot) (.cons .finish (.nil _))
  have rest := compound.append ending
  -- Two reports in front of the compound command, and one behind it.
  have total (e e' : Line) :
      (e :: e' :: (ls ++ [.diagnostic (.expected .dot .endOfText)])).length = 4 * (m + 1) := by
    rw [List.length_cons, List.length_cons, List.length_append, length]
    rfl
  cases m <;>
    exact ⟨_, _, _, total _ _, .cons (.phrase .program) (.cons (.expect .kwProgram)
      (.cons (.expect .identifier) (.cons (.expect .semicolon) (.cons (.phrase .block)
        (.cons (.phrase .procedures) rest)))))⟩

end

/-! ### Spelled out -/

namespace Lexis

theorem isBlank_of_isWordStart {c : Char} (h : isWordStart c) : isBlank c = false := by
  have table : blanks.all fun c => !isWordStart c := by decide
  refine eq_false_of_ne_true fun hc => ?_
  have := List.all_eq_true.1 table c (List.contains_iff_mem.1 hc)
  simp [h] at this

/-- A word behind a blank is scanned as a whole. -/
theorem scan?_word (d : Dialect) {c : Char} {more rest : List Char} (start : isWordStart c)
    (run : Run isWordChar (c :: more) rest) :
    scan? d (' ' :: c :: more ++ rest) =
      some (Token.ofChars (wordKind d (c :: more)) (c :: more), rest) := by
  have brace : c ≠ '{' := by
    rintro rfl
    exact absurd start (by decide)
  have gap : dropGap d false (' ' :: c :: more ++ rest) = c :: (more ++ rest) := by
    show dropGap d false (c :: (more ++ rest)) = _
    simp [dropGap, isBlank_of_isWordStart start, brace]
  exact scan?_of_piece gap (.word start run)

/-- The characters are a word. -/
def isWord : List Char → Bool
  | [] => false
  | c :: more => isWordStart c && more.all isWordChar

/-- A text of words, with a blank in front of each. -/
def spaced (words : List (List Char)) : List Char := words.flatMap (' ' :: ·)

/-- The tokens of a text of words are the words. -/
theorem map_kind_tokens_spaced (d : Dialect) {words : List (List Char)}
    (h : ∀ word ∈ words, isWord word) :
    (tokens d (spaced words)).map Token.kind = words.map (wordKind d) := by
  induction words with
  | nil => exact congrArg _ (tokens_of_none rfl)
  | cons word words ih =>
    obtain ⟨here, others⟩ := List.forall_mem_cons.1 h
    have stop : ∀ c ∈ (spaced words).head?, ¬isWordChar c := by
      cases words with
      | nil => nofun
      | cons other words =>
        intro c hc
        cases hc
        decide
    cases word with
    | nil => cases here
    | cons c more =>
      obtain ⟨start, all⟩ := Bool.and_eq_true_iff.1 here
      have run : Run isWordChar (c :: more) (spaced words) :=
        .cons (isWordChar_of_isWordStart start) ⟨List.all_eq_true.1 all, stop⟩
      show (tokens d (' ' :: c :: more ++ spaced words)).map Token.kind = _
      rw [tokens_of_some (scan?_word d start run), List.map_cons, ih others]
      rfl

end Lexis

/-- A program that breaks off behind `m` times BEGIN. -/
def unfinished (m : Nat) : List (List Char) :=
  "program".toList :: List.replicate m "begin".toList

theorem kinds_unfinished (m : Nat) :
    kinds (String.ofList (Lexis.spaced (unfinished m))) .standard =
      .kwProgram :: List.replicate m .kwBegin := by
  have words : ∀ word ∈ unfinished m, Lexis.isWord word := by
    refine List.forall_mem_cons.2 ⟨by decide, ?_⟩
    intro word hw
    rw [List.eq_of_mem_replicate hw]
    decide
  have kind : Lexis.wordKind .standard "program".toList = .kwProgram ∧
      Lexis.wordKind .standard "begin".toList = .kwBegin := by decide
  rw [kinds, String.toList_ofList, Lexis.map_kind_tokens_spaced .standard words, unfinished,
    List.map_cons, List.map_replicate, kind.1, kind.2]

/-- For every number there is a text of so many tokens with as many lines as there can be. -/
theorem exists_length_eq (n : Nat) :
    ∃ text s, (tokens s.dialect text.toList).length = n ∧
      (check text s).length = max 1 (4 * n) := by
  cases n with
  | zero => exact ⟨"", default, by decide +kernel, by decide +kernel⟩
  | succ m =>
    obtain ⟨i, ls, σ, length, walk⟩ := exists_walk_unfinished m (Nat.le_refl m)
    refine ⟨String.ofList (Lexis.spaced (unfinished m)), inserting m, ?_, ?_⟩
    · have same := congrArg List.length (kinds_unfinished m)
      rw [kinds, List.length_map] at same
      exact same.trans (by simp)
    · have walk' : Walk (inserting m) i [.phrase .program]
          ⟨kinds (String.ofList (Lexis.spaced (unfinished m))) .standard, 0⟩ ls σ :=
        kinds_unfinished m ▸ walk
      show (check _ _).lines.length = _
      rw [walk'.lines_check, length]
      omega

/-! ## Whole programs -/

/-- **What a check says is bounded by the text.** A check leaves no more than four lines for each
token, and one line for a text without tokens. The bound cannot be improved: for every number of
tokens there is a text that meets it. -/
theorem length_check_le :
    (∀ text s, (check text s).length ≤ max 1 (4 * (tokens s.dialect text.toList).length)) ∧
      ∀ n, ∃ text s, (tokens s.dialect text.toList).length = n ∧
        (check text s).length = max 1 (4 * n) := by
  refine ⟨?_, exists_length_eq⟩
  intro text s
  obtain ⟨i, σ, walk⟩ := exists_walk_check text s
  have bound := walk.length_program_le
  rw [kinds, List.length_map] at bound
  exact bound

end MiniPascal
