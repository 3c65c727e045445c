import JoinOrder.Text.Emoji
import JoinOrder.Text.ZeroWidth
/-!
# Characters that join

Some characters are drawn as one with those after them: an Arabic lam with an alef, a Khmer letter
below another, two regional indicators as a flag, pictographs with a joiner between them. So what a
character adds to the columns of a text hangs on what follows it.

## The form of a text

A character joins only with the beginning of the rest, and not with what the rest looks like further
on. All that has to be known of the rest is its form: whether it begins with something that a
character before it can join with. A form that waits for more characters, such as an alef with marks
before it or a pictograph with a joiner before it, is a form of its own.
-/

namespace JoinOrder.Text

/-! ## Sets of letters -/

/-- The Arabic letters shaped as an alef. -/
def alefs : CharSet :=
  ⟨[(0x622, 0x623), (0x625, 0x625), (0x627, 0x627), (0x671, 0x673), (0x675, 0x675), (0x773, 0x774),
    (0x870, 0x882)]⟩

/-- The Arabic letters shaped as a lam. -/
def lams : CharSet :=
  ⟨[(0x644, 0x644), (0x6b5, 0x6b8), (0x76a, 0x76a), (0x8a6, 0x8a6), (0x8c7, 0x8c7)]⟩

/-- The Khmer letters that can be set below another. -/
def subscripts : CharSet :=
  ⟨[(0x1780, 0x1782), (0x1784, 0x1787), (0x1789, 0x178c), (0x178e, 0x1793), (0x1795, 0x1798),
    (0x179b, 0x179d), (0x17a0, 0x17a0), (0x17a2, 0x17a2), (0x17a7, 0x17a7), (0x17ab, 0x17ac),
    (0x17af, 0x17af)]⟩

/-- The Tifinagh consonants. -/
def consonants : CharSet := ⟨[(0x2d31, 0x2d65), (0x2d6f, 0x2d6f)]⟩

/-- The Lisu tones that come first in a pair. -/
def firstTones : CharSet := ⟨[(0xa4f8, 0xa4fb)]⟩

/-- The Lisu tones that come second in a pair. -/
def secondTones : CharSet := ⟨[(0xa4fc, 0xa4fd)]⟩

/-- The marks that never part letters that join, the Arabic ones apart. -/
def ignorableMarks : CharSet :=
  ⟨[(0x34f, 0x34f), (0x17b4, 0x17b5), (0x180b, 0x180d), (0x180f, 0x180f), (0xfe00, 0xfe0f),
    (0xe0100, 0xe01ef)]⟩

/-- The digits of a tag. -/
def tagDigits : CharSet := ⟨[(0xe0030, 0xe0039)]⟩

/-- The letters of a tag. -/
def tagLetters : CharSet := ⟨[(0xe0061, 0xe007a)]⟩

/-! ## Forms -/

/-- What a text begins with, as far as a character before it can join with it. -/
inductive Form where
  /-- Nothing to join with. -/
  | plain
  /-- An Arabic alef. -/
  | alef
  /-- A Hebrew lamed, perhaps with a joiner before it. -/
  | lamed (joiner : Bool)
  /-- A Khmer letter that can be set below another. -/
  | subscript
  /-- A Buginese ya, perhaps with a joiner before it. -/
  | ya (joiner : Bool)
  /-- A Buginese vowel sign before a joined ya. -/
  | vowelYa
  /-- A Tifinagh consonant, perhaps with a joiner before it. -/
  | consonant (joiner : Bool)
  /-- A Tifinagh consonant joiner before a consonant. -/
  | joinedConsonant
  /-- A Lisu tone that comes second in a pair. -/
  | secondTone
  /-- An Old Turkic letter I, perhaps with a joiner before it. -/
  | orkhonI (joiner : Bool)
  /-- A pictograph. -/
  | pictograph
  /-- A tone of skin. -/
  | tone
  /-- One regional indicator. -/
  | regional
  /-- Regional indicators, two or more. -/
  | flags
  /-- A joiner before a pictograph. -/
  | joined
  /-- An enclosing keycap before a joiner. -/
  | keycap
  /-- Regional indicators before a joiner: one of them. -/
  | joinedRegional
  /-- Regional indicators before a joiner: an even number of them. -/
  | evenRegionals
  /-- Regional indicators before a joiner: an odd number of them, three or more. -/
  | oddRegionals
  /-- The end of a tag before a joiner, and so many of its letters and then digits. -/
  | tag (letters digits : Nat)
  deriving DecidableEq, Repr

namespace Form

/-- The form of a text whose first character joins with nothing after it. -/
def ofChar (c : Char) : Form :=
  if alefs.contains c then .alef
  else if c.toNat = 0x5dc then .lamed false
  else if subscripts.contains c then .subscript
  else if c.toNat = 0x1a10 then .ya false
  else if consonants.contains c then .consonant false
  else if secondTones.contains c then .secondTone
  else if c.toNat = 0x10c03 then .orkhonI false
  else if regionals.contains c then .regional
  else if tones.contains c then .tone
  else if pictographs.contains c then .pictograph
  else .plain

/-- A form of letters, not of pictographs. -/
def isScript : Form → Bool
  | .alef | .lamed _ | .subscript | .ya _ | .vowelYa | .consonant _ | .joinedConsonant
  | .secondTone | .orkhonI _ => true
  | _ => false

/-- A pictograph before this form would join with it. -/
def isJoined (f : Form) : Bool := f = .joined || f = .keycap

/-- The form after a joiner before a form of letters; the Arabic one has no use for it. -/
def joiner? : Form → Option Form
  | .lamed _ => some (.lamed true)
  | .ya _ => some (.ya true)
  | .consonant _ => some (.consonant true)
  | .orkhonI _ => some (.orkhonI true)
  | .alef => none
  | f => if f.isScript then some f else none

/-- What a character adds to the columns when it joins with a form of letters, and the form of the
text it then begins. -/
def joinLetter? (c : Char) : Form → Option (Int × Form)
  | .alef =>
    if lams.contains c then some (0, .plain)
    else if zeroWidth.contains c && !parting.contains c then some (0, .alef)
    else none
  | .lamed true => if c.toNat = 0x5d0 then some (0, .plain) else none
  | .subscript => if c.toNat = 0x17d2 then some (-1, .plain) else none
  | .ya true => if c.toNat = 0x1a17 then some (0, .vowelYa) else none
  | .vowelYa => if c.toNat = 0x1a15 then some (0, .plain) else none
  | .consonant joiner =>
    if c.toNat = 0x2d7f then some (1, .joinedConsonant)
    else if joiner && consonants.contains c then some (0, .plain)
    else none
  | .joinedConsonant => if consonants.contains c then some (-1, .plain) else none
  | .secondTone => if firstTones.contains c then some (0, .plain) else none
  | .orkhonI true => if c.toNat = 0x10c32 then some (0, .plain) else none
  | _ => none

/-- What a character adds to the columns when it joins with a form of pictographs, and the form of
the text it then begins. -/
def joinPictograph? (c : Char) : Form → Option (Int × Form)
  | .tone => if toneBases.contains c then some (0, .pictograph) else joiner
  | .pictograph => joiner
  | .regional => if regionals.contains c then some (1, .flags) else none
  | .flags => if regionals.contains c then some (1, .flags) else joiner
  | .joined =>
    if c.toNat = 0x20e3 then some (0, .keycap)
    else if regionals.contains c then some (1, .joinedRegional)
    else if tones.contains c then some (0, .tone)
    else if c.toNat = 0xe007f then some (0, .tag 0 0)
    else if pictographs.contains c then some (0, .pictograph)
    else none
  | .joinedRegional => if regionals.contains c then some (-1, .evenRegionals) else none
  | .evenRegionals => if regionals.contains c then some (3, .oddRegionals) else joiner
  | .oddRegionals => if regionals.contains c then some (-1, .evenRegionals) else joiner
  | .tag letters digits =>
    if tagLetters.contains c && digits = 0 && letters < 6 then some (0, .tag (letters + 1) 0)
    else if tagDigits.contains c && letters ≤ 4 && digits < 3 then
      some (0, .tag letters (digits + 1))
    else if c.toNat = 0x1f3f4 && (digits = 3 || digits = 0 && 3 ≤ letters) then
      some (0, .pictograph)
    else none
  | _ => none
where
  /-- A joiner waits for a pictograph before it. -/
  joiner : Option (Int × Form) := if c.toNat = 0x200d then some (0, .joined) else none

/-- What a character adds to the columns when it joins with a form, and the form of the text it then
begins. -/
def join? (c : Char) (f : Form) : Option (Int × Form) :=
  match f.joiner? with
  | some after =>
    if c.toNat = 0x200d then some (0, after)
    else if ignorableMarks.contains c then some (0, f)
    else joinLetter? c f
  | none => if f.isScript then joinLetter? c f else joinPictograph? c f

end Form

end JoinOrder.Text
