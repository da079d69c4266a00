import MiniPascal.Text.WhiteSpace

/-!
# Modes of patterns

How a part of a pattern is read hangs on its mode. Flags change the mode, for the rest of a group
or for a group of its own: `(?flags)`, `(?flags:…)`.

In Unicode mode, which is the usual one, a pattern may not ask for what takes tables of Unicode to
answer: the case of a character, and what a digit, a word or white space is. Outside of it a
pattern stands for bytes, and may not match what is no UTF-8.
-/

namespace MiniPascal.Text.Pattern

/-- How a part of a pattern is read. -/
structure Mode where
  /-- The pattern stands for characters, and not for bytes. -/
  unicode : Bool := true
  /-- Upper and lower case are not told apart. -/
  ignoresCase : Bool := false
  /-- White space is left out, and so are comments, from a `#` to the end of a line. -/
  isSpaced : Bool := false
  deriving DecidableEq, Repr

/-! ## Flags -/

/-- The letters of the flags. Those that only change what a pattern matches are not told apart. -/
def flagLetters : List Char := ['i', 'm', 's', 'U', 'u', 'R', 'x']

/-- Flags are well formed: each once, and a hyphen at most once and not at the end. -/
def areFlags (cs : List Char) : Bool :=
  cs.all (fun c => c == '-' || flagLetters.contains c) && cs.eraseDups.length == cs.length &&
    cs.getLast? != some '-'

namespace Mode

/-- The mode with a flag switched. -/
def switch (m : Mode) (on : Bool) : Char → Mode
  | 'u' => { m with unicode := on }
  | 'i' => { m with ignoresCase := on }
  | 'x' => { m with isSpaced := on }
  | _ => m

/-- The mode with the flags in front of the hyphen switched on, and those behind it off. -/
def withFlags (m : Mode) (flags : List Char) : Mode :=
  let off := (flags.dropWhile (· != '-')).drop 1
  off.foldl (·.switch false) ((flags.takeWhile (· != '-')).foldl (·.switch true) m)

end Mode

/-! ## What is left out -/

/-- The text without the white space and the comments at its front. -/
def dropSpaced (inComment : Bool) : List Char → List Char
  | [] => []
  | c :: more =>
    if inComment then dropSpaced (c != '\n') more
    else if isWhiteSpace c then dropSpaced false more
    else if c == '#' then dropSpaced true more
    else c :: more

/-- The text without what the mode leaves out at its front. -/
def Mode.skip (m : Mode) (cs : List Char) : List Char :=
  if m.isSpaced then dropSpaced false cs else cs

theorem dropSpaced_suffix (inComment : Bool) (cs : List Char) : dropSpaced inComment cs <:+ cs := by
  fun_induction dropSpaced inComment cs with
  | case1 => exact List.suffix_rfl
  | case2 c more ih => exact ih.trans (List.suffix_cons c more)
  | case3 _ c more _ _ ih => exact ih.trans (List.suffix_cons c more)
  | case4 _ c more _ _ _ ih => exact ih.trans (List.suffix_cons c more)
  | case5 => exact List.suffix_rfl

/-- Only a front of the text is left out. -/
theorem Mode.skip_suffix (m : Mode) (cs : List Char) : m.skip cs <:+ cs := by
  unfold skip
  split
  · exact dropSpaced_suffix false cs
  · exact List.suffix_rfl

end MiniPascal.Text.Pattern
