import MiniPascal.Proofs.Slicing

/-!
# Pulling tokens

A scanner can be asked for its tokens in several ways: one by one, with or without the end, some of
them, all that are left, or with a look ahead. In whatever order that is done, it is as if the tokens
were taken from the front of a list.

* `Cut.token`, `Cut.left` — what a scan finds behind a number of others, and what it leaves of the
  text. All that happens to a scanner is that it scans once more.
* `Cut.endOf` — the place where the piece of a token ends.
* `Scanner.Behind` — the invariant: the scanner stands behind a number of scans.
* `Pull.reply` — what a list of tokens answers to a pull, and `Pull.scans` how many scans the pull
  asks for.
* `Pull.RanOut` — the pull has scanned the end of the text.
* `Scanner.Pulled` — the tokens that pulls have handed over, what they leave to be pulled, and the
  place where they leave the scanner.

**Theorem (`Cut.Tiles.pull_left`).** Each scan finds the next token. Behind the last one it finds the
end, again and again.

**Theorem (`Scanner.Behind.answer`).** So a pull is answered as the list of the tokens that are still
to come answers it, and it leaves the scanner behind the scans that it asks for.

**Theorem (`Scanner.Behind.follow`).** Pulls one after the other hand over the tokens of their scans.
One of them runs out if together they ask for more scans than there are tokens.

For every text and all pulls, in any order, this is `pulls_agree`.
-/

namespace MiniPascal

open Lexis

/-! ## Scans of a text -/

namespace Cut

/-- What is behind the first `k` tiles. -/
def drop (cut : Cut) (k : Nat) : Cut := ⟨cut.tiles.drop k, cut.last⟩

/-- What `j` scans leave of the text. The scan behind those for the tokens finds the end, and then
nothing is left. -/
def left (cut : Cut) (j : Nat) : List Char :=
  if j ≤ cut.tiles.length then (cut.drop j).text else []

/-- The token that a scan finds behind `j` others. -/
def token (cut : Cut) (j : Nat) : Token := cut.tokens[j]?.getD Token.endOfText

/-- The end of the first `k` pieces and the gaps in front of them, in bytes from the start of the
text. -/
def endOf (cut : Cut) (k : Nat) : Nat :=
  byteLength ((cut.tiles.take k).flatMap fun t => t.gap ++ t.piece)

variable {cut : Cut} {d : Dialect} {cs : List Char} {j k : Nat}

theorem length_tokens (cut : Cut) : cut.tokens.length = cut.tiles.length := List.length_map _

theorem left_of_le (le : j ≤ cut.tokens.length) : cut.left j = (cut.drop j).text :=
  if_pos (cut.length_tokens ▸ le)

theorem left_of_lt (lt : cut.tokens.length < j) : cut.left j = [] :=
  if_neg (Nat.not_le_of_lt (cut.length_tokens ▸ lt))

theorem token_of_lt (lt : j < cut.tokens.length) : cut.token j = cut.tokens[j] := by
  rw [token, List.getElem?_eq_getElem lt, Option.getD_some]

theorem token_of_le (le : cut.tokens.length ≤ j) : cut.token j = Token.endOfText := by
  rw [token, List.getElem?_eq_none le, Option.getD_none]

/-- The scans find the tokens and then the end. -/
theorem getElem?_token (le : j ≤ cut.tokens.length) :
    (cut.tokens ++ [Token.endOfText])[j]? = some (cut.token j) := by
  rcases Nat.lt_or_eq_of_le le with lt | rfl
  · rw [List.getElem?_append_left lt, List.getElem?_eq_getElem lt, token_of_lt lt]
  · rw [List.getElem?_concat_length, token_of_le (Nat.le_refl _)]

/-- What a scan finds is the first of the tokens that are still to come. -/
theorem headD_drop (cut : Cut) (j : Nat) :
    (cut.tokens.drop j).headD Token.endOfText = cut.token j := by
  rw [List.headD_eq_head?_getD, List.head?_drop, token]

theorem token_drop (cut : Cut) (k j : Nat) : (cut.drop k).token j = cut.token (k + j) := by
  simp [token, tokens, drop]

/-- A scan behind some of the tiles is one scan more than there are of these. -/
theorem left_drop (le : k ≤ cut.tokens.length) : (cut.drop k).left 1 = cut.left (k + 1) := by
  rw [length_tokens] at le
  have iff : 1 ≤ cut.tiles.length - k ↔ k + 1 ≤ cut.tiles.length := by omega
  simp only [left, drop, List.length_drop, List.drop_drop, iff]

/-- A place and what is left there make up the whole text. -/
theorem endOf_add_byteLength_left (le : k ≤ cut.tokens.length) :
    cut.endOf k + byteLength (cut.left k) = byteLength cut.text := by
  rw [left_of_le le, endOf, ← byteLength_append]
  unfold text drop
  rw [← List.append_assoc, ← List.flatMap_append, List.take_append_drop]

namespace Tiles

theorem text_eq (h : cut.Tiles d cs) : cut.text = cs := Tiling.text_eq h

/-- The tokens of a text are those of its pieces. -/
theorem tokens_eq (h : cut.Tiles d cs) : MiniPascal.tokens d cs = cut.tokens := by
  obtain ⟨tiles, g, tiling, same⟩ := exists_tiling d cs
  obtain ⟨rfl, -⟩ := Tiling.unique h tiling
  exact same

theorem tokenize_eq {text : String} (h : cut.Tiles d text.toList) :
    tokenize text d = cut.tokens ++ [Token.endOfText] := by
  rw [tokenize, h.tokens_eq]

/-- What is behind some of the tiles is tiled by the others. -/
theorem drop (h : cut.Tiles d cs) (k : Nat) : (cut.drop k).Tiles d (cut.drop k).text := by
  obtain ⟨tiles, g⟩ := cut
  change Tiling d tiles g cs at h
  show Tiling d (tiles.drop k) g (text ⟨tiles.drop k, g⟩)
  induction h generalizing k with
  | last gap =>
    rw [List.drop_nil]
    exact .last gap
  | @tile t tiles g rest gap piece later ih =>
    cases k with
    | zero =>
      have whole : Tiling d (t :: tiles) g (t.gap ++ (t.piece ++ rest)) := .tile gap piece later
      rw [List.drop_zero, text, whole.text_eq]
      exact whole
    | succ k => exact ih k

/-- The first scan finds the first piece, or the end if there is none. -/
theorem pull_eq (h : cut.Tiles d cs) : pull d cs = (cut.token 0, cut.left 1) := by
  obtain ⟨tiles, g⟩ := cut
  change Tiling d tiles g cs at h
  unfold pull
  cases h with
  | last gap =>
    have found : dropGap d false (cs ++ []) = [] := gap.dropGap_eq
    have none : scan? d cs = none := by
      rw [List.append_nil] at found
      unfold scan?
      rw [found]
    rw [none]
    rfl
  | @tile t tiles _ rest gap piece later =>
    have left : left ⟨t :: tiles, g⟩ 1 = rest :=
      (left_of_le (Nat.succ_pos _)).trans later.text_eq
    rw [scan?_of_piece gap.dropGap_eq piece, left]
    rfl

/-- **Each scan finds the next token**, and behind the last one it finds the end. -/
theorem pull_left (h : cut.Tiles d cs) (j : Nat) :
    pull d (cut.left j) = (cut.token j, cut.left (j + 1)) := by
  by_cases le : j ≤ cut.tokens.length
  · rw [left_of_le le, (h.drop j).pull_eq, token_drop, left_drop le]
    rfl
  · have lt := Nat.lt_of_not_le le
    rw [left_of_lt lt, left_of_lt (Nat.lt_succ_of_lt lt), token_of_le (Nat.le_of_lt lt)]
    rfl

/-- What some scans leave has the tokens that they have not found. -/
theorem tokens_left (h : cut.Tiles d cs) (j : Nat) :
    MiniPascal.tokens d (cut.left j) = cut.tokens.drop j := by
  by_cases le : j ≤ cut.tokens.length
  · rw [left_of_le le, (h.drop j).tokens_eq, tokens, Cut.drop, List.map_drop]
    rfl
  · have lt := Nat.lt_of_not_le le
    rw [left_of_lt lt, List.drop_eq_nil_of_le (Nat.le_of_lt lt)]
    exact tokens_of_none rfl

theorem not_isEnd (h : cut.Tiles d cs) {t : Token} (mem : t ∈ cut.tokens) : ¬t.isEnd := by
  intro isEnd
  have kind : t.kind = .endOfText := of_decide_eq_true isEnd
  rw [← h.tokens_eq] at mem
  exact endOfText_not_mem_tokens d cs (kind ▸ List.mem_map_of_mem mem)

/-- A scan finds the end if there are no more tokens than scans in front of it. -/
theorem isEnd_token_iff (h : cut.Tiles d cs) : (cut.token j).isEnd ↔ cut.tokens.length ≤ j := by
  constructor
  · intro isEnd
    apply Nat.le_of_not_lt
    intro lt
    rw [token_of_lt lt] at isEnd
    exact h.not_isEnd (List.getElem_mem lt) isEnd
  · intro le
    rw [token_of_le le]
    rfl

end Tiles

end Cut

/-! ## Scanners behind some scans -/

namespace Scanner

/-- The scanner reads a text that is cut so, and has made `j` scans. -/
structure Behind (cut : Cut) (j : Nat) (s : Scanner) : Prop where
  tiles : cut.Tiles s.dialect s.text.toList
  rest : s.rest = cut.left j

namespace Behind

variable {cut : Cut} {d : Dialect} {s : Scanner} {j : Nat}

theorem ofText {text : String} (h : cut.Tiles d text.toList) : (ofText text d).Behind cut 0 where
  tiles := h
  rest := h.text_eq.symm

/-- The scanner finds the next token and has made one scan more. -/
theorem next (h : s.Behind cut j) : s.next.1 = cut.token j ∧ s.next.2.Behind cut (j + 1) := by
  have found := h.tiles.pull_left j
  rw [← h.rest] at found
  exact ⟨congrArg Prod.fst found, h.tiles, congrArg Prod.snd found⟩

/-- Scans behind the end make no difference. -/
theorem of_lt {j' : Nat} (h : s.Behind cut j) (lt : cut.tokens.length < j)
    (lt' : cut.tokens.length < j') : s.Behind cut j' where
  tiles := h.tiles
  rest := by rw [h.rest, Cut.left_of_lt lt, Cut.left_of_lt lt']

theorem take (h : s.Behind cut j) (m : Nat) :
    (s.take m).1 = (cut.tokens.drop j).take m ∧ (s.take m).2.Behind cut (j + m) := by
  induction m generalizing s j with
  | zero => exact ⟨rfl, h⟩
  | succ m ih =>
    obtain ⟨found, later⟩ := h.next
    by_cases ends : cut.tokens.length ≤ j
    · -- The scanner stops here, and that is behind the end as all further scans would be.
      have isEnd : s.next.1.isEnd := found ▸ h.tiles.isEnd_token_iff.2 ends
      rw [take_succ_of_isEnd m isEnd, List.drop_eq_nil_of_le ends]
      exact ⟨rfl, later.of_lt (Nat.lt_succ_of_le ends) (by omega)⟩
    · have token : ¬s.next.1.isEnd := found ▸ mt h.tiles.isEnd_token_iff.1 ends
      have lt := Nat.lt_of_not_le ends
      obtain ⟨more, behind⟩ := ih later
      rw [Nat.add_right_comm] at behind
      rw [take_succ m token, found, more, List.drop_eq_getElem_cons lt, Cut.token_of_lt lt]
      exact ⟨rfl, behind⟩

theorem collect (h : s.Behind cut j) :
    s.collect.1 = cut.tokens.drop j ∧ s.collect.2.Behind cut (j + (cut.tokens.length + 1)) := by
  have all := h.tiles.tokens_left j
  rw [← h.rest] at all
  have none : cut.left (j + (cut.tokens.length + 1)) = [] := Cut.left_of_lt (by omega)
  exact ⟨all, h.tiles, none.symm⟩

/-- The scanner's place is the end of the last piece that it found. If it found the end, it is the
end of the text. -/
theorem position (h : s.Behind cut j) :
    s.position = if j ≤ cut.tokens.length then cut.endOf j else byteLength cut.text := by
  have whole := s.position_add_byteLength_rest
  rw [h.rest, ← h.tiles.text_eq] at whole
  split
  · next le =>
    have sizes := Cut.endOf_add_byteLength_left le
    omega
  · next gt =>
    rw [Cut.left_of_lt (Nat.lt_of_not_le gt)] at whole
    exact whole

end Behind

end Scanner

/-! ## The answers of a list -/

namespace Pull

/-- The pull does not go over to another text. -/
def keepsText : Pull → Bool
  | .reset _ => false
  | _ => true

/-- What a list answers that holds the tokens still to come. -/
def reply (ts : List Token) : Pull → Answer
  | .next => .token (ts.headD Token.endOfText)
  | .item => .item ts.head?
  | .peek => .kind (ts.headD Token.endOfText).kind
  | .collect => .tokens ts
  | .take n => .tokens (ts.take n)
  | .reset _ => .done

/-- How many scans a pull asks for, in a text of `n` tokens. To collect them all is to scan the end
as well. -/
def scans (n : Nat) : Pull → Nat
  | .next | .item => 1
  | .collect => n + 1
  | .take m => m
  | .peek | .reset _ => 0

/-- The answer shows that the pull has scanned the end of the text. To look ahead is not to scan. -/
def RanOut : Pull → Answer → Prop
  | .next, .token t => t.isEnd
  | .item, .item t => t = none
  | .collect, .tokens _ => True
  | .take n, .tokens ts => ts.length < n
  | _, _ => False

variable {ts : List Token} {n : Nat}

/-- A pull hands over a token for each of its scans, as long as there are any. -/
theorem delivered_reply (noEnd : ∀ t ∈ ts, ¬t.isEnd) (few : ts.length ≤ n) (x : Pull) :
    (x.reply ts).delivered = ts.take (x.scans n) := by
  have all (ts' : List Token) (sub : ts' ⊆ ts) : ts'.filter (!·.isEnd) = ts' :=
    List.filter_eq_self.2 fun t mem => by simpa using noEnd t (sub mem)
  cases x with
  | next | item =>
    cases ts with
    | nil => rfl
    | cons t ts => exact all [t] (by simp)
  | peek | reset => rfl
  | collect =>
    show ts.filter _ = ts.take (n + 1)
    rw [all ts (List.Subset.refl ts), List.take_of_length_le (Nat.le_succ_of_le few)]
  | take m => exact all _ (List.take_subset m ts)

/-- A pull runs out where it asks for more scans than there are tokens. -/
theorem ranOut_reply_iff (noEnd : ∀ t ∈ ts, ¬t.isEnd) (few : ts.length ≤ n) (x : Pull) :
    x.RanOut (x.reply ts) ↔ ts.length < x.scans n := by
  cases x with
  | next =>
    cases ts with
    | nil => simp [RanOut, reply, scans]
    | cons t ts => simpa [RanOut, reply, scans] using noEnd t List.mem_cons_self
  | item => cases ts <;> simp [RanOut, reply, scans]
  | peek | reset => simp [RanOut, scans]
  | collect => simpa [RanOut, reply, scans] using Nat.lt_succ_of_le few
  | take m =>
    show (ts.take m).length < m ↔ ts.length < m
    rw [List.length_take]
    omega

end Pull

/-! ## Pulls of all kinds -/

namespace Scanner

variable {cut : Cut} {s : Scanner} {j : Nat}

/-- **A scanner answers as the list of the tokens that are still to come.** -/
theorem Behind.answer (h : s.Behind cut j) {x : Pull} (keeps : x.keepsText) :
    (s.answer x).1 = x.reply (cut.tokens.drop j) ∧
      (s.answer x).2.Behind cut (j + x.scans cut.tokens.length) := by
  obtain ⟨found, later⟩ := h.next
  cases x with
  | next =>
    refine ⟨congrArg Answer.token ?_, later⟩
    rw [found, Cut.headD_drop]
  | item =>
    refine ⟨congrArg Answer.item ?_, later⟩
    have isEnd : s.next.1.isEnd ↔ cut.tokens.length ≤ j := found ▸ h.tiles.isEnd_token_iff
    rw [List.head?_drop]
    by_cases ends : cut.tokens.length ≤ j
    · rw [List.getElem?_eq_none ends]
      exact if_pos (isEnd.2 ends)
    · have lt := Nat.lt_of_not_le ends
      rw [List.getElem?_eq_getElem lt, ← Cut.token_of_lt lt, ← found]
      exact if_neg (mt isEnd.1 ends)
  | peek =>
    refine ⟨congrArg Answer.kind ?_, h⟩
    rw [peek, found, Cut.headD_drop]
  | collect =>
    obtain ⟨all, behind⟩ := h.collect
    exact ⟨congrArg Answer.tokens all, behind⟩
  | take m =>
    obtain ⟨first, behind⟩ := h.take m
    exact ⟨congrArg Answer.tokens first, behind⟩
  | reset text => cases keeps

/-- **All pulls together hand over a token for each of their scans**, as long as there are any. One
of them runs out if they ask for more. -/
theorem Behind.follow (h : s.Behind cut j) {xs : List Pull} (keep : ∀ x ∈ xs, x.keepsText) :
    ∃ m, (s.follow xs).2.Behind cut (j + m) ∧
      (s.follow xs).1.flatMap Answer.delivered = (cut.tokens.drop j).take m ∧
      ((∃ p ∈ xs.zip (s.follow xs).1, p.1.RanOut p.2) ↔ cut.tokens.length - j < m) := by
  induction xs generalizing s j with
  | nil => exact ⟨0, h, List.take_zero.symm, by simp⟩
  | cons x xs ih =>
    obtain ⟨here, others⟩ := List.forall_mem_cons.1 keep
    obtain ⟨replies, behind⟩ := h.answer here
    obtain ⟨m, later, delivered, ranOut⟩ := ih behind others
    have few : (cut.tokens.drop j).length ≤ cut.tokens.length := by simp
    have noEnd : ∀ t ∈ cut.tokens.drop j, ¬t.isEnd :=
      fun t mem => h.tiles.not_isEnd (List.mem_of_mem_drop mem)
    refine ⟨x.scans cut.tokens.length + m, ?_, ?_, ?_⟩
    · rw [← Nat.add_assoc]
      exact later
    · show (s.answer x).1.delivered ++ ((s.answer x).2.follow xs).1.flatMap _ = _
      rw [delivered, replies, Pull.delivered_reply noEnd few, List.take_add, List.drop_drop]
    · have first := Pull.ranOut_reply_iff noEnd few x
      rw [List.length_drop] at first
      show (∃ p ∈ (x, (s.answer x).1) :: xs.zip ((s.answer x).2.follow xs).1, _) ↔ _
      simp only [List.mem_cons, or_and_right, exists_or, exists_eq_left]
      rw [ranOut, replies, first]
      omega

end Scanner

/-- To look ahead from behind the last token leaves the scanner there; to ask for an item takes it
over the gap at the end. -/
example : ((Scanner.ofText "a " .standard).follow [.take 1, .peek]).2.position = 1 ∧
    ((Scanner.ofText "a " .standard).follow [.take 1, .peek, .item]).2.position = 2 := by
  decide +kernel

end MiniPascal
