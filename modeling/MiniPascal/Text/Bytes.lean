/-!
# Texts and bytes

How many bytes a text takes in UTF-8, and where it can be cut: only between characters. A place in
a text is a number of bytes. `splitBytes?_eq_some_iff` says that a text is cut at a place exactly
if some front of it takes that many bytes, and `isSome_slice?_iff` which parts can be cut out.
-/

namespace MiniPascal

/-- The size of a text in bytes, written as UTF-8. -/
def byteLength : List Char → Nat
  | [] => 0
  | c :: cs => c.utf8Size + byteLength cs

@[simp] theorem byteLength_nil : byteLength [] = 0 := rfl

@[simp] theorem byteLength_cons (c : Char) (cs : List Char) :
    byteLength (c :: cs) = c.utf8Size + byteLength cs := rfl

@[simp] theorem byteLength_append (cs ds : List Char) :
    byteLength (cs ++ ds) = byteLength cs + byteLength ds := by
  induction cs with
  | nil => simp
  | cons c cs ih => simp [ih, Nat.add_assoc]

theorem byteLength_eq_zero_iff {cs : List Char} : byteLength cs = 0 ↔ cs = [] := by
  cases cs with
  | nil => simp
  | cons c cs => simp [Nat.ne_of_gt c.utf8Size_pos]

/-- No character takes less than a byte. -/
theorem length_le_byteLength (cs : List Char) : cs.length ≤ byteLength cs := by
  induction cs with
  | nil => exact Nat.le_refl 0
  | cons c cs ih =>
    have pos := c.utf8Size_pos
    simp only [List.length_cons, byteLength_cons]
    omega

theorem byteLength_le_of_suffix {cs ds : List Char} (h : cs <:+ ds) :
    byteLength cs ≤ byteLength ds := by
  obtain ⟨front, rfl⟩ := h
  simp

theorem byteLength_ofList (cs : List Char) : (String.ofList cs).utf8ByteSize = byteLength cs := by
  induction cs with
  | nil => rfl
  | cons c cs ih =>
    rw [String.ofList_cons, String.utf8ByteSize_append, String.utf8ByteSize_singleton, ih]
    rfl

/-- It is the size of the text's encoding. -/
theorem byteLength_toList (text : String) : byteLength text.toList = text.utf8ByteSize := by
  rw [← byteLength_ofList, String.ofList_toList]

/-- The two parts of a text in front of a place and behind it. -/
def splitBytes? (place : Nat) : List Char → Option (List Char × List Char)
  | [] => if place = 0 then some ([], []) else none
  | c :: cs =>
    if place = 0 then some ([], c :: cs)
    else if c.utf8Size ≤ place then
      (splitBytes? (place - c.utf8Size) cs).map fun parts => (c :: parts.1, parts.2)
    else none

/-- A text is cut between two characters, and nothing is lost. -/
theorem splitBytes?_eq_some_iff {place : Nat} {cs front back : List Char} :
    splitBytes? place cs = some (front, back) ↔ front ++ back = cs ∧ byteLength front = place := by
  induction cs generalizing place front with
  | nil =>
    unfold splitBytes?
    by_cases h : place = 0
    · subst h
      constructor
      · rintro ⟨⟩
        exact ⟨rfl, rfl⟩
      · rintro ⟨whole, -⟩
        obtain ⟨rfl, rfl⟩ := List.append_eq_nil_iff.1 whole
        rfl
    · rw [if_neg h]
      constructor
      · rintro ⟨⟩
      · rintro ⟨whole, size⟩
        obtain ⟨rfl, rfl⟩ := List.append_eq_nil_iff.1 whole
        exact absurd size.symm h
  | cons c cs ih =>
    have pos := c.utf8Size_pos
    unfold splitBytes?
    by_cases h : place = 0
    · subst h
      rw [if_pos rfl]
      constructor
      · rintro ⟨⟩
        exact ⟨rfl, rfl⟩
      · rintro ⟨whole, size⟩
        cases front with
        | nil => rw [← whole]; rfl
        | cons d front => simp only [byteLength_cons] at size; have := d.utf8Size_pos; omega
    · rw [if_neg h]
      constructor
      · intro found
        split at found
        · obtain ⟨⟨f, b⟩, cut, same⟩ := Option.map_eq_some_iff.1 found
          cases same
          obtain ⟨whole, size⟩ := ih.1 cut
          exact ⟨by rw [List.cons_append, whole], by rw [byteLength_cons, size]; omega⟩
        · cases found
      · rintro ⟨whole, size⟩
        cases front with
        | nil => exact absurd size.symm h
        | cons d front =>
          rw [List.cons_append, List.cons.injEq] at whole
          obtain ⟨rfl, rfl⟩ := whole
          rw [byteLength_cons] at size
          rw [if_pos (by omega), ih.2 ⟨rfl, by omega⟩]
          rfl

/-! ## Boundaries and slices -/

/-- The boundaries between characters are the places where some front of the text ends. -/
theorem isValid_iff {place : Nat} {text : String} : (⟨place⟩ : String.Pos.Raw).IsValid text ↔
    ∃ front back, front ++ back = text.toList ∧ byteLength front = place := by
  rw [String.Pos.Raw.isValid_iff_exists_append]
  constructor
  · rintro ⟨front, back, rfl, size⟩
    refine ⟨front.toList, back.toList, String.toList_append.symm, ?_⟩
    rw [byteLength_toList]
    exact (congrArg String.Pos.Raw.byteIdx size).symm
  · rintro ⟨front, back, whole, rfl⟩
    refine ⟨String.ofList front, String.ofList back, ?_, ?_⟩
    · rw [← String.ofList_append, whole, String.ofList_toList]
    · rw [← byteLength_ofList]
      rfl

/-- The part of a text between two places. -/
def slice? (start stop : Nat) (cs : List Char) : Option (List Char) :=
  (splitBytes? stop cs).bind fun parts => (splitBytes? start parts.1).map Prod.snd

theorem slice?_eq_some_iff {start stop : Nat} {cs part : List Char} :
    slice? start stop cs = some part ↔
      ∃ front back, front ++ part ++ back = cs ∧ byteLength front = start ∧
        byteLength (front ++ part) = stop := by
  unfold slice?
  constructor
  · intro found
    obtain ⟨⟨upTo, back⟩, cut, found⟩ := Option.bind_eq_some_iff.1 found
    obtain ⟨⟨front, part'⟩, cut', rfl⟩ := Option.map_eq_some_iff.1 found
    obtain ⟨whole, size⟩ := splitBytes?_eq_some_iff.1 cut
    obtain ⟨whole', size'⟩ := splitBytes?_eq_some_iff.1 cut'
    exact ⟨front, back, by rw [whole', whole], size', by rw [whole', size]⟩
  · rintro ⟨front, back, whole, size, size'⟩
    rw [splitBytes?_eq_some_iff.2 ⟨whole, size'⟩, Option.bind_some,
      splitBytes?_eq_some_iff.2 ⟨rfl, size⟩]
    rfl

/-- **What can be sliced.** A range is one that a text can be sliced by exactly if it starts and
ends on boundaries between characters and does not end in front of its start. -/
theorem isSome_slice?_iff {start stop : Nat} {text : String} :
    (slice? start stop text.toList).isSome ↔
      start ≤ stop ∧ (⟨start⟩ : String.Pos.Raw).IsValid text ∧
        (⟨stop⟩ : String.Pos.Raw).IsValid text := by
  rw [isValid_iff, isValid_iff, Option.isSome_iff_exists]
  constructor
  · rintro ⟨part, found⟩
    obtain ⟨front, back, whole, rfl, rfl⟩ := slice?_eq_some_iff.1 found
    refine ⟨by simp, ⟨front, part ++ back, ?_, rfl⟩, ⟨front ++ part, back, whole, rfl⟩⟩
    rw [← List.append_assoc, whole]
  · rintro ⟨le, ⟨front, behind, whole, rfl⟩, ⟨upTo, back, whole', rfl⟩⟩
    have fits : front <+: upTo := by
      rcases List.prefix_or_prefix_of_prefix ⟨behind, whole⟩ ⟨back, whole'⟩ with fits | ⟨more, rfl⟩
      · exact fits
      · have none : more = [] := by
          rw [← byteLength_eq_zero_iff]
          simp only [byteLength_append] at le
          omega
        simp [none]
    obtain ⟨part, rfl⟩ := fits
    exact ⟨part, slice?_eq_some_iff.2 ⟨front, back, whole', rfl, rfl⟩⟩

end MiniPascal
