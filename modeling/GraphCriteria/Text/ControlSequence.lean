/-!
# Control sequences

Text that is meant for a terminal may hold ASCII control characters and sequences that
begin with an escape character.  Its plain form leaves both out and keeps white space.
White space within a sequence interrupts it: the characters that follow are kept, up to the
next one that is left out, and from there on the sequence is read to its end.
-/

namespace GraphCriteria.Text.ControlSequence

/-! ## Characters -/

/-- Whether a control character is white space. -/
def isSpacing (c : Char) : Bool :=
  c == '\t' || c == '\n' || c == '\x0c' || c == '\r'

/-- Whether a character is ASCII. -/
def isAscii (c : Char) : Bool :=
  c.toNat < 0x80

/-- Whether a character outside of all sequences is kept. -/
def isKept (c : Char) : Bool :=
  isSpacing c || (0x20 ≤ c.toNat && c.toNat != 0x7F)

/-- Whether a character gives up the sequence that it stands in. -/
def isCancel (c : Char) : Bool :=
  c == '\x18' || c == '\x1a'

/-- Whether the UTF-8 form of a character has the byte `0x9C`, which ends a string. -/
def hasTerminator (c : Char) : Bool :=
  let n := c.toNat
  0x80 ≤ n && (n % 64 == 0x1C || (0x800 ≤ n && n / 64 % 64 == 0x1C) ||
    (0x10000 ≤ n && n / 4096 % 64 == 0x1C))

/-! ## Stages of a sequence -/

/-- What has been read of a sequence. -/
inductive Stage where
  | outside
  /-- The escape character. -/
  | escape
  /-- Intermediate characters after it. -/
  | intermediate
  /-- The introducer of a control sequence, and its parameters. -/
  | parameters
  /-- The introducer of a device control string, its parameters, and what follows them. -/
  | device
  | deviceParameters
  | deviceIntermediate
  /-- The inside of a string that ends at a terminator. -/
  | string
  /-- The inside of a command that ends at a bell. -/
  | command
deriving DecidableEq, Repr

namespace Stage

/-- Whether white space interrupts a sequence at this stage. -/
def isInterruptible : Stage → Bool
  | escape | intermediate | parameters => true
  | _ => false

/-- The stage after one more character of a sequence. -/
def next (stage : Stage) (c : Char) : Stage :=
  let n := c.toNat
  match stage with
  | outside => outside
  | escape =>
    if n < 0x20 || 0x7E < n then escape
    else if n < 0x30 then intermediate
    else if c = '[' then parameters
    else if c = ']' then command
    else if c = 'P' then device
    else if c = 'X' || c = '^' || c = '_' then string
    else outside
  | intermediate => if 0x30 ≤ n && n ≤ 0x7E then outside else intermediate
  | parameters => if 0x40 ≤ n && n ≤ 0x7E then outside else parameters
  | device =>
    if n < 0x20 || 0x7E < n then device
    else if n < 0x30 then deviceIntermediate
    else if n < 0x40 then deviceParameters
    else string
  | deviceParameters =>
    if n < 0x20 || 0x7E < n then deviceParameters
    else if n < 0x30 then deviceIntermediate
    else if n < 0x3C then deviceParameters
    else string
  | deviceIntermediate => if 0x30 ≤ n && n ≤ 0x7E then string else deviceIntermediate
  | string => if hasTerminator c then outside else string
  | command => if c = '\x07' then outside else command

end Stage

/-! ## Plain text -/

/-- The plain form of a text that goes on at a stage, which may be interrupted. -/
def plainFrom (stage : Stage) (isInterrupted : Bool) : List Char → List Char
  | [] => []
  | c :: cs =>
    if c = '\x1b' then plainFrom .escape false cs
    else if isCancel c then plainFrom .outside false cs
    else if stage = .outside || isInterrupted then
      if !isKept c then plainFrom stage false cs
      else if isAscii c then c :: plainFrom stage isInterrupted cs
      else c :: plainFrom .outside false cs
    else if stage.isInterruptible && isSpacing c then c :: plainFrom stage true cs
    else plainFrom (stage.next c) false cs

/-- The plain form of a text. -/
def plain (text : List Char) : List Char :=
  plainFrom .outside false text

end GraphCriteria.Text.ControlSequence
