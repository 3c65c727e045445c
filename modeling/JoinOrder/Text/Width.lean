import JoinOrder.Text.Shaping
import JoinOrder.Text.Wide
/-!
# Terminal columns

The number of columns a line of text takes in a terminal. A character alone takes one, two or none;
characters that join take the columns of one. A selector after a character makes a picture of it,
which takes two columns, or a sign, which takes one.

## Reading from the end

Whether a character joins hangs on what follows it: a lam disappears into the alef after it, and of
two lams before one alef only the second does. So the columns are summed from the end of the line,
and all that is kept of the rest is its opening.
-/

namespace JoinOrder.Text

/-- The columns of a character alone. -/
def charColumns (c : Char) : Nat :=
  if c.toNat = 0x17d8 then 3
  else if c.toNat = 0x17a4 then 2
  else if zeroWidth.contains c then 0
  else if wide.contains c then 2
  else 1

/-! ## Openings -/

/-- What a text begins with: its form, and the selectors before it. -/
structure Opening where
  /-- The form of the text after the selectors. -/
  form : Form := .plain
  /-- A selector asks the character before the text to be a picture. -/
  asPicture : Bool := false
  /-- A selector asks the character before the text to be a sign. -/
  asSign : Bool := false
  deriving DecidableEq, Repr

namespace Opening

/-- The opening after a selector for a picture. Letters still join across it, and so do pictographs
with a joiner after it. -/
def selectPicture (o : Opening) : Opening :=
  if o.form.isScript then { o with asPicture := true }
  else if o.form.isJoined then { form := o.form, asPicture := true }
  else { asPicture := true }

/-- The opening after a selector for a sign. Letters still join across it. -/
def selectSign (o : Opening) : Opening :=
  if o.form.isScript then { o with asSign := true } else { asSign := true }

/-- The opening for a character that the selector for a picture does not concern. -/
def dropPicture (o : Opening) : Opening :=
  if !o.asPicture then o else if o.form.isScript then { o with asPicture := false } else {}

/-- The columns and the opening of a text, from its first character and those of the rest. -/
def prepend (c : Char) : Int × Opening → Int × Opening
  | (n, o) =>
    if o.asPicture && styled.contains c then
      (n + if o.form.isJoined then 0 else 2, { form := .pictograph })
    else
      let o := o.dropPicture
      if c.toNat ≤ 0xa0 then (n + 1, {})
      else if c.toNat = 0xfe0f then (n, o.selectPicture)
      else if c.toNat = 0xfe0e then (n, o.selectSign)
      else if o.asSign && narrowsAsSign c then (n + 1, {})
      else match o.form.join? c with
        | some (k, form) => (n + k, { form })
        | none => (n + charColumns c, { form := .ofChar c })

end Opening

/-! ## Lines -/

/-- The columns of a line whose characters are all shown. -/
def columns (line : List Char) : Nat := (line.foldr Opening.prepend (0, {})).1.toNat

/-- How far a line has come in a sequence that sets colours. -/
inductive Escape where
  /-- Outside of all sequences. -/
  | outside
  /-- After the escape character. -/
  | begun
  /-- After the bracket that follows it. -/
  | inside
  deriving DecidableEq, Repr

/-- A character that takes a column of its own when shown. -/
def takesColumn (c : Char) : Bool :=
  0x20 ≤ c.toNat && !(0x7f ≤ c.toNat && c.toNat < 0xa0) && 0 < charColumns c

/-- The characters of a line that belong to sequences that set colours: all from the bracket after
an escape character up to the next `m`. -/
def hidden : Escape → List Char → Nat
  | _, [] => 0
  | .outside, c :: rest => hidden (if c = '\x1b' then .begun else .outside) rest
  | .begun, c :: rest => if c = '[' then hidden .inside rest + 1 else hidden .outside rest
  | .inside, c :: rest =>
    hidden (if c = 'm' then .outside else .inside) rest + if takesColumn c then 1 else 0

/-- The columns of a line as it is shown. -/
def shownColumns (line : List Char) : Nat := columns line - hidden .outside line

end JoinOrder.Text
