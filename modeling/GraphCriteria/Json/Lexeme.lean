import GraphCriteria.Json.Fault

/-!
# Lexemes of JSON texts

Blanks, words, strings and numbers are read off the front of a list of characters.  Each
reader returns what it has read and what follows it.  Text that is only skipped is read
more leniently: its surrogates need not come in pairs and its numbers may be of any size.
-/

namespace GraphCriteria.Json

open Text

/-! ## Blanks and words -/

/-- Whether a character is a blank of JSON. -/
def isBlank (c : Char) : Bool :=
  c == ' ' || c == '\n' || c == '\t' || c == '\r'

/-- Drop leading blanks. -/
def dropBlanks (cs : List Char) : List Char :=
  cs.dropWhile isBlank

/-- Read the characters of a word. -/
def readWord : List Char → List Char → Except Fault (List Char)
  | [], cs => .ok cs
  | _ :: _, [] => .error .endOfValue
  | w :: ws, c :: cs => if c = w then readWord ws cs else .error .expectedIdent

/-! ## Strings -/

/-- Read four hexadecimal digits.  The text ends too early when fewer than four bytes are
left of it. -/
def readFourHex (cs : List Char) : Except Fault (Nat × List Char) :=
  match cs with
  | a :: b :: c :: d :: rest =>
    match hexValue? a, hexValue? b, hexValue? c, hexValue? d with
    | some a, some b, some c, some d => .ok (((a * 16 + b) * 16 + c) * 16 + d, rest)
    | _, _, _, _ => .error .invalidEscape
  | short => if utf8Length short < 4 then .error .endOfString else .error .invalidEscape

/-- Whether a code unit begins a surrogate pair. -/
def isHighSurrogate (n : Nat) : Bool :=
  0xD800 ≤ n && n ≤ 0xDBFF

/-- Whether a code unit ends a surrogate pair. -/
def isLowSurrogate (n : Nat) : Bool :=
  0xDC00 ≤ n && n ≤ 0xDFFF

/-- Read the second half of a surrogate pair. -/
def readLowSurrogate (high : Nat) (cs : List Char) : Except Fault (Char × List Char) :=
  match cs with
  | [] => .error .endOfString
  | '\\' :: [] => .error .endOfString
  | '\\' :: 'u' :: rest =>
    match readFourHex rest with
    | .error fault => .error fault
    | .ok (low, rest) =>
      if isLowSurrogate low then
        .ok (Char.ofNat (0x10000 + (high - 0xD800) * 0x400 + (low - 0xDC00)), rest)
      else .error .loneSurrogate
  | _ => .error .unfinishedPair

/-- The character of a one-letter escape. -/
def letterEscape? : Char → Option Char
  | '"' => some '"'
  | '\\' => some '\\'
  | '/' => some '/'
  | 'b' => some '\x08'
  | 'f' => some '\x0c'
  | 'n' => some '\n'
  | 'r' => some '\r'
  | 't' => some '\t'
  | _ => none

/-- Read an escape after its backslash. -/
def readEscape (cs : List Char) : Except Fault (Char × List Char) :=
  match cs with
  | [] => .error .endOfString
  | 'u' :: rest =>
    match readFourHex rest with
    | .error fault => .error fault
    | .ok (unit, rest) =>
      if isLowSurrogate unit then .error .loneSurrogate
      else if isHighSurrogate unit then readLowSurrogate unit rest
      else .ok (Char.ofNat unit, rest)
  | c :: rest =>
    match letterEscape? c with
    | some d => .ok (d, rest)
    | none => .error .invalidEscape

/-- Skip an escape after its backslash. -/
def skipEscape (cs : List Char) : Except Fault (List Char) :=
  match cs with
  | [] => .error .endOfString
  | 'u' :: rest => (readFourHex rest).map Prod.snd
  | c :: rest => if (letterEscape? c).isSome then .ok rest else .error .invalidEscape

/-- Read a string up to its closing quote.  The first argument is a text at least as long,
which bounds the number of steps. -/
def readStringWithin : List Char → List Char → List Char → Except Fault (String × List Char)
  | [], _, _ => .error .endOfString
  | _ :: bound, read, cs =>
    match cs with
    | [] => .error .endOfString
    | '"' :: rest => .ok (String.ofList read.reverse, rest)
    | '\\' :: rest =>
      match readEscape rest with
      | .error fault => .error fault
      | .ok (c, rest) => readStringWithin bound (c :: read) rest
    | c :: rest =>
      if c.toNat < 0x20 then .error .controlCharacter
      else readStringWithin bound (c :: read) rest

/-- Read a string after its opening quote. -/
def readString (cs : List Char) : Except Fault (String × List Char) :=
  readStringWithin cs [] cs

/-- Skip a string up to its closing quote.  The first argument is a text at least as long,
which bounds the number of steps. -/
def skipStringWithin : List Char → List Char → Except Fault (List Char)
  | [], _ => .error .endOfString
  | _ :: bound, cs =>
    match cs with
    | [] => .error .endOfString
    | '"' :: rest => .ok rest
    | '\\' :: rest =>
      match skipEscape rest with
      | .error fault => .error fault
      | .ok rest => skipStringWithin bound rest
    | c :: rest =>
      if c.toNat < 0x20 then .error .controlCharacter else skipStringWithin bound rest

/-- Skip a string after its opening quote. -/
def skipString (cs : List Char) : Except Fault (List Char) :=
  skipStringWithin cs cs

/-! ## Numbers -/

/-- Whether a text begins with a digit. -/
def startsWithDigit : List Char → Bool
  | c :: _ => isDigit c
  | [] => false

/-- Append digits to a number while it fits a 64-bit word: the number, how many digits
were appended, and the text after them. -/
def takeDigits (n : Nat) : List Char → Nat × Nat × List Char
  | [] => (n, 0, [])
  | c :: cs =>
    if isDigit c && 10 * n + digitValue c < Nat.pow 2 64 then
      let (m, count, rest) := takeDigits (10 * n + digitValue c) cs
      (m, count + 1, rest)
    else (n, 0, c :: cs)

/-- The float of a sign, a word and a power of ten. -/
def makeFloat (positive : Bool) (significand : Nat) (exponent : Int) : Except Fault Number :=
  match scaled? significand exponent with
  | some f => .ok (.float (if positive then f else -f))
  | none => .error .numberOutOfRange

/-- Read an exponent after its letter.  An exponent beyond 32 bits leaves zero or is out
of range. -/
def readExponent (positive : Bool) (significand : Nat) (exponent : Int) (cs : List Char) :
    Except Fault (Number × List Char) :=
  let (isUp, cs) :=
    match cs with
    | '+' :: rest => (true, rest)
    | '-' :: rest => (false, rest)
    | cs => (true, cs)
  match cs with
  | [] => .error .endOfValue
  | c :: _ =>
    if !isDigit c then .error .invalidNumber
    else
      let n := (cs.takeWhile isDigit).foldl (fun n c => 10 * n + digitValue c) 0
      let rest := cs.dropWhile isDigit
      if n < Nat.pow 2 31 then
        (makeFloat positive significand (if isUp then exponent + n else exponent - n)).map
          (·, rest)
      else if significand ≠ 0 && isUp then .error .numberOutOfRange
      else (makeFloat positive 0 0).map (·, rest)

/-- Read an exponent, if there is one. -/
def readScale (positive : Bool) (significand : Nat) (exponent : Int) (cs : List Char) :
    Except Fault (Number × List Char) :=
  match cs with
  | 'e' :: rest | 'E' :: rest => readExponent positive significand exponent rest
  | rest => (makeFloat positive significand exponent).map (·, rest)

/-- Read a fraction after its point.  Digits that no longer fit the word do not count. -/
def readFraction (positive : Bool) (significand : Nat) (exponent : Int) (cs : List Char) :
    Except Fault (Number × List Char) :=
  let (n, count, rest) := takeDigits significand cs
  if startsWithDigit rest then
    readScale positive n (exponent - count) (rest.dropWhile isDigit)
  else if count = 0 then
    if rest = [] then .error .endOfValue else .error .invalidNumber
  else readScale positive n (exponent - count) rest

/-- Read what may follow the digits of a number.  The integers are those of 64 bits; a
negative zero is a float. -/
def readNumberTail (positive : Bool) (n : Nat) (cs : List Char) :
    Except Fault (Number × List Char) :=
  match cs with
  | '.' :: rest => readFraction positive n 0 rest
  | 'e' :: rest | 'E' :: rest => readExponent positive n 0 rest
  | rest =>
    if positive then .ok (.integer n, rest)
    else if 1 ≤ n && n ≤ Nat.pow 2 63 then .ok (.integer (-(n : Int)), rest)
    else .ok (.float (-n.toUInt64.toFloat), rest)

/-- Read a number after its sign. -/
def readNumber (positive : Bool) (cs : List Char) : Except Fault (Number × List Char) :=
  match cs with
  | [] => .error .endOfValue
  | '0' :: rest =>
    if startsWithDigit rest then .error .invalidNumber else readNumberTail positive 0 rest
  | c :: _ =>
    if !isDigit c then .error .invalidNumber
    else
      let (n, _, rest) := takeDigits 0 cs
      if startsWithDigit rest then
        let exponent : Int := (rest.takeWhile isDigit).length
        match rest.dropWhile isDigit with
        | '.' :: rest => readFraction positive n exponent rest
        | rest => readScale positive n exponent rest
      else readNumberTail positive n rest

/-- Skip an exponent after its letter. -/
def skipExponent (cs : List Char) : Except Fault (List Char) :=
  let digits :=
    match cs with
    | '+' :: rest | '-' :: rest => rest
    | cs => cs
  if startsWithDigit digits then .ok (digits.dropWhile isDigit) else .error .invalidNumber

/-- Skip what may follow the whole digits of a number. -/
def skipNumberTail (cs : List Char) : Except Fault (List Char) :=
  match cs with
  | '.' :: rest =>
    if startsWithDigit rest then
      match rest.dropWhile isDigit with
      | 'e' :: rest | 'E' :: rest => skipExponent rest
      | rest => .ok rest
    else .error .invalidNumber
  | 'e' :: rest | 'E' :: rest => skipExponent rest
  | rest => .ok rest

/-- Skip a number after its sign. -/
def skipNumber (cs : List Char) : Except Fault (List Char) :=
  match cs with
  | '0' :: rest =>
    if startsWithDigit rest then .error .invalidNumber else skipNumberTail rest
  | cs =>
    if startsWithDigit cs then skipNumberTail (cs.dropWhile isDigit) else .error .invalidNumber

end GraphCriteria.Json
