import JoinOrder.Text.Alphabetic
/-!
# Dotted names

The text of a name that may have several parts: identifiers with points between them. Blanks and
comments may stand around every identifier. An identifier is a word, whose ASCII letters are
lowered, or stands in double quotes and is then taken as it is, with every quote in it written
twice.

A text that is anything else is no name: one with an operator, a number, an empty part or a quote or
comment that does not end.
-/

namespace JoinOrder.Sql

/-! ## Blanks and comments -/

/-- The text after a block comment, from inside of it: `depth` comments are open around the one that
is read, and `last` is the character before. -/
def afterComment? (depth : Nat) (last : Char) : List Char → Option (List Char)
  | [] => none
  | c :: rest =>
    if last = '/' && c = '*' then afterComment? (depth + 1) c rest
    else if last = '*' && c = '/' then
      match depth with
      | 0 => some rest
      | depth + 1 => afterComment? depth c rest
    else afterComment? depth c rest

theorem length_le_of_afterComment? {depth : Nat} {last : Char} {text rest : List Char}
    (h : afterComment? depth last text = some rest) : rest.length ≤ text.length := by
  induction text generalizing depth last with
  | nil => simp [afterComment?] at h
  | cons c text ih =>
    unfold afterComment? at h
    split at h
    · exact Nat.le_succ_of_le (ih h)
    · split at h
      · cases depth with
        | zero =>
          cases h
          exact Nat.le_succ _
        | succ depth => exact Nat.le_succ_of_le (ih h)
      · exact Nat.le_succ_of_le (ih h)

/-- The text after the blanks and comments it begins with. Two hyphens begin a comment that ends
with the line; a block comment that does not end is left. -/
def skipBlanks : List Char → List Char
  | '-' :: '-' :: rest => skipBlanks (rest.dropWhile (· ≠ '\n'))
  | '/' :: '*' :: rest =>
    match _h : afterComment? 0 ' ' rest with
    | some after => skipBlanks after
    | none => '/' :: '*' :: rest
  | c :: rest => if Text.blanks.contains c then skipBlanks rest else c :: rest
  | [] => []
termination_by text => text.length
decreasing_by
  · have := (List.dropWhile_suffix (p := fun c : Char => decide (c ≠ '\n')) (l := rest)).length_le
    simp only [List.length_cons]
    omega
  · have := length_le_of_afterComment? _h
    simp only [List.length_cons]
    omega
  · simp

theorem length_skipBlanks_le (text : List Char) : (skipBlanks text).length ≤ text.length := by
  fun_induction skipBlanks text with
  | case1 rest ih =>
    have := (List.dropWhile_suffix (p := fun c : Char => decide (c ≠ '\n')) (l := rest)).length_le
    simp only [List.length_cons]
    omega
  | case2 rest after h ih =>
    have := length_le_of_afterComment? h
    simp only [List.length_cons]
    omega
  | case3 => exact Nat.le_refl _
  | case4 c rest _ _ _ ih => exact Nat.le_succ_of_le ih
  | case5 => exact Nat.le_refl _
  | case6 => exact Nat.le_refl _

/-! ## Identifiers -/

/-- A character that a word can begin with. -/
def isWordStart (c : Char) : Bool := Text.isAlphabetic c || c = '_' || c = '#' || c = '@'

/-- A character that a word can go on with. -/
def isWordPart (c : Char) : Bool := isWordStart c || c.isDigit || c = '$'

/-- The text up to the closing quote and the rest, from inside of the quotes. -/
def unquote? : List Char → Option (List Char × List Char)
  | [] => none
  | '"' :: '"' :: rest => (unquote? rest).map fun (text, rest) => ('"' :: text, rest)
  | '"' :: rest => some ([], rest)
  | c :: rest => (unquote? rest).map fun (text, rest) => (c :: text, rest)

/-- The identifier a text begins with, and the rest. -/
def identifier? : List Char → Option (String × List Char)
  | [] => none
  | c :: rest =>
    if c = '"' then (unquote? rest).map fun (text, rest) => (String.ofList text, rest)
    else if isWordStart c then
      some (String.ofList ((c :: rest.takeWhile isWordPart).map Char.toLower),
        rest.dropWhile isWordPart)
    else none

theorem length_lt_of_unquote? {text inner rest : List Char}
    (h : unquote? text = some (inner, rest)) : rest.length < text.length := by
  fun_induction unquote? text generalizing inner with
  | case1 => simp at h
  | case2 text ih =>
    obtain ⟨⟨_, _⟩, found, eq⟩ := Option.map_eq_some_iff.1 h
    cases eq
    exact Nat.lt_succ_of_lt (Nat.lt_succ_of_lt (ih found))
  | case3 => cases h; simp
  | case4 c text _ _ ih =>
    obtain ⟨⟨_, _⟩, found, eq⟩ := Option.map_eq_some_iff.1 h
    cases eq
    exact Nat.lt_succ_of_lt (ih found)

theorem length_lt_of_identifier? {text rest : List Char} {name : String}
    (h : identifier? text = some (name, rest)) : rest.length < text.length := by
  cases text with
  | nil => simp [identifier?] at h
  | cons c text =>
    simp only [identifier?] at h
    split at h
    · obtain ⟨⟨_, _⟩, found, eq⟩ := Option.map_eq_some_iff.1 h
      cases eq
      exact Nat.lt_succ_of_lt (length_lt_of_unquote? found)
    · split at h
      · cases h
        exact Nat.lt_succ_of_le (List.dropWhile_suffix _).length_le
      · simp at h

/-! ## Names -/

/-- The parts of a name. -/
def nameParts? (text : List Char) : Option (List String) :=
  match _begun : identifier? (skipBlanks text) with
  | none => none
  | some (name, rest) =>
    match _pointed : skipBlanks rest with
    | [] => some [name]
    | '.' :: after => (nameParts? after).map (name :: ·)
    | _ => none
termination_by text.length
decreasing_by
  have first := length_skipBlanks_le text
  have second := length_lt_of_identifier? _begun
  have third := length_skipBlanks_le rest
  rw [_pointed, List.length_cons] at third
  omega

end JoinOrder.Sql
