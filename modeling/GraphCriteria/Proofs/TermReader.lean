import GraphCriteria.Proofs.Grammar
import GraphCriteria.Term.Literal

/-!
# Reading terms

Terms that are written out in full are read off the front of a text: an IRI between angle brackets, or
a string between quotes with a language tag or the IRI of a datatype after it.  A reader takes as much
of the text as belongs to the term and returns what follows.  Three quotes in a row open a string that
may run over several lines.  Names with a prefix and the short forms of numbers and truth values are
left out, as no value is written so.

Main definitions:

- Definition `Quotes.readInside?`: read the inside of a string, up to the quote that closes it.
- Definition `Term.read?`: read a term.

Main results:

- Theorem `Quotes.readInside?_flatMap`: if each character of a text is written so that it is read back,
  then so is the whole text, and reading stops at its closing quote.
- Theorem `readString?_flatMap`: such a text is read back together with its quotes.
- Theorem `readIri?_append`: an IRI is read up to its closing bracket.
- Theorem `readTag_append`: a language tag is read up to a character that cannot go on with it.
-/

namespace GraphCriteria

open Text

/-! ## Strings -/

/-- How far an escape within a string has been read. -/
inductive EscapeStage where
  /-- There is none. -/
  | none
  /-- Its letter comes next. -/
  | letter
  /-- The digits of a code point: how many come after the next one, and the number so far. -/
  | code (more value : Nat)
deriving DecidableEq, Repr

/-- The character that a letter stands for after a backslash. -/
def escapedChar? : Char → Option Char
  | 't' => some '\t'
  | 'b' => some '\x08'
  | 'n' => some '\n'
  | 'r' => some '\r'
  | 'f' => some '\x0c'
  | '"' => some '"'
  | '\'' => some '\''
  | '\\' => some '\\'
  | _ => none

/-- The character of a code point. -/
def charOfCode? (code : Nat) : Option Char :=
  if code.isValidChar then some (Char.ofNat code) else none

/-- Put a character before a text that has been read. -/
def prependChar (c : Char) (read : List Char × List Char) : List Char × List Char :=
  (c :: read.1, read.2)

/-- What a string stands between: one or three of a kind of quote. -/
structure Quotes where
  mark : Char
  isLong : Bool
deriving DecidableEq, Repr

namespace Quotes

/-- The quotes that values and patterns are written between. -/
def double : Quotes :=
  ⟨'"', false⟩

/-- Read the inside of a string and the quotes that close it.  Only a long string may have line
breaks, and quotes that are not three in a row. -/
def readInside? (quotes : Quotes) : EscapeStage → List Char → Option (List Char × List Char)
  | _, [] => none
  | .none, c :: cs =>
    if c = quotes.mark && !quotes.isLong then some ([], cs)
    else if c = quotes.mark && cs.take 2 = [quotes.mark, quotes.mark] then some ([], cs.drop 2)
    else if c = '\\' then quotes.readInside? .letter cs
    else if (c = '\n' || c = '\r') && !quotes.isLong then none
    else (quotes.readInside? .none cs).map (prependChar c)
  | .letter, c :: cs =>
    if c = 'u' then quotes.readInside? (.code 3 0) cs
    else if c = 'U' then quotes.readInside? (.code 7 0) cs
    else
      match escapedChar? c with
      | some escaped => (quotes.readInside? .none cs).map (prependChar escaped)
      | none => none
  | .code more value, c :: cs =>
    match hexValue? c, more with
    | none, _ => none
    | some digit, more + 1 => quotes.readInside? (.code more (16 * value + digit)) cs
    | some digit, 0 =>
      match charOfCode? (16 * value + digit) with
      | some escaped => (quotes.readInside? .none cs).map (prependChar escaped)
      | none => none

/-- If each character of a text is written so that it is read back, then so is the whole text, and
reading stops at its closing quote, whatever follows. -/
theorem readInside?_flatMap {mark : Char} {write : Char → List Char}
    (hwrite : ∀ c rest, readInside? ⟨mark, false⟩ .none (write c ++ rest) =
      (readInside? ⟨mark, false⟩ .none rest).map (prependChar c)) (text rest : List Char) :
    readInside? ⟨mark, false⟩ .none (text.flatMap write ++ mark :: rest) = some (text, rest) := by
  induction text with
  | nil => simp [readInside?]
  | cons c cs ih => simp [List.append_assoc, hwrite, ih, prependChar]

/-- A character that needs no escape is read as it stands. -/
theorem readInside?_double_cons {c : Char} (hquote : c ≠ '"') (hescape : c ≠ '\\')
    (hfeed : c ≠ '\n') (hreturn : c ≠ '\r') (rest : List Char) :
    double.readInside? .none (c :: rest) =
      (double.readInside? .none rest).map (prependChar c) := by
  simp [readInside?, double, hquote, hescape, hfeed, hreturn]

/-- A letter after a backslash is read as the character that it stands for. -/
theorem readInside?_double_escape {letter c : Char} (h : escapedChar? letter = some c)
    (rest : List Char) :
    double.readInside? .none ('\\' :: letter :: rest) =
      (double.readInside? .none rest).map (prependChar c) := by
  have hcode : letter ≠ 'u' ∧ letter ≠ 'U' := by
    constructor <;>
      (rintro rfl
       cases h)
  simp [readInside?, double, hcode, h]

end Quotes

/-- Read a string after its first quote. -/
def readString? (mark : Char) (cs : List Char) : Option (List Char × List Char) :=
  if cs.take 2 = [mark, mark] then Quotes.readInside? ⟨mark, true⟩ .none (cs.drop 2)
  else Quotes.readInside? ⟨mark, false⟩ .none cs

/-- A string is read back if each of its characters is and none is written with a quote in front,
unless the string is empty and another quote follows it. -/
theorem readString?_flatMap {mark : Char} {write : Char → List Char}
    (hwrite : ∀ c rest, Quotes.readInside? ⟨mark, false⟩ .none (write c ++ rest) =
      (Quotes.readInside? ⟨mark, false⟩ .none rest).map (prependChar c))
    (hfront : ∀ c, ∃ d ds, write c = d :: ds ∧ d ≠ mark) (text : List Char) {rest : List Char}
    (hrest : text = [] → rest.head? ≠ some mark) :
    readString? mark (text.flatMap write ++ mark :: rest) = some (text, rest) := by
  have hshort : (text.flatMap write ++ mark :: rest).take 2 ≠ [mark, mark] := by
    cases text with
    | nil =>
        have hnext := hrest rfl
        cases rest with
        | nil => simp
        | cons c rest => simpa using hnext
    | cons c cs =>
        obtain ⟨d, ds, hwritten, hd⟩ := hfront c
        simp [hwritten, hd]
  rw [readString?, if_neg hshort]
  exact Quotes.readInside?_flatMap hwrite text rest

/-! ## IRIs -/

/-- Read an IRI after its opening bracket. -/
def readIri? : List Char → Option (List Char × List Char)
  | [] => none
  | c :: cs =>
    if c = '>' then some ([], cs)
    else if isIriChar c then (readIri? cs).map (prependChar c)
    else none

/-- An IRI is read up to its closing bracket, whatever follows. -/
theorem readIri?_append {iri : List Char} (h : ∀ c ∈ iri, isIriChar c = true) (rest : List Char) :
    readIri? (iri ++ '>' :: rest) = some (iri, rest) := by
  induction iri with
  | nil => simp [readIri?]
  | cons c cs ih =>
      have hc : isIriChar c = true := h c List.mem_cons_self
      have hend : c ≠ '>' := by
        rintro rfl
        exact absurd hc (by decide)
      simp [readIri?, hend, hc, ih fun d hd => h d (List.mem_cons_of_mem _ hd), prependChar]

/-! ## Language tags -/

/-- Read the longest language tag, which is empty if there is none: letters, and subtags of letters
and digits, each after a hyphen. -/
def readTag (isFirst : Bool) : List Char → List Char × List Char
  | [] => ([], [])
  | c :: cs =>
    if c = '-' && cs.head?.any isAlphanumeric then prependChar c (readTag false cs)
    else if isLetter c || (!isFirst && isDigit c) then prependChar c (readTag isFirst cs)
    else ([], c :: cs)

/-- A text that does not go on with a language tag. -/
def EndsTag (rest : List Char) : Prop :=
  ∀ c, rest.head? = some c → isAlphanumeric c = false ∧ c ≠ '-'

theorem EndsTag.readTag {rest : List Char} (h : EndsTag rest) (isFirst : Bool) :
    readTag isFirst rest = ([], rest) := by
  cases rest with
  | nil => rfl
  | cons c cs =>
      obtain ⟨hc, hhyphen⟩ := h c rfl
      rw [isAlphanumeric, Bool.or_eq_false_iff] at hc
      simp [GraphCriteria.readTag, hhyphen, hc]

/-- A subtag is read whole. -/
theorem readTag_subtag {isFirst : Bool} {part : List Char}
    (h : ∀ c ∈ part, (isLetter c || (!isFirst && isDigit c)) = true) (rest : List Char) :
    readTag isFirst (part ++ rest) =
      (part ++ (readTag isFirst rest).1, (readTag isFirst rest).2) := by
  induction part with
  | nil => rfl
  | cons c cs ih =>
      have hc := h c List.mem_cons_self
      have hhyphen : c ≠ '-' := by
        rintro rfl
        cases isFirst <;> exact absurd hc (by decide)
      simp [readTag, hhyphen, hc, ih fun d hd => h d (List.mem_cons_of_mem _ hd), prependChar]

/-- A hyphen before a subtag is read. -/
theorem readTag_hyphen (isFirst : Bool) {c : Char} (hc : isAlphanumeric c = true)
    (cs : List Char) :
    readTag isFirst ('-' :: c :: cs) = prependChar '-' (readTag false (c :: cs)) := by
  rw [readTag]
  simp [hc]

/-- Subtags that are not empty are read one after another. -/
theorem readTag_subtags (isFirst : Bool) {parts : List (List Char)}
    (h : ∀ part ∈ parts, part ≠ [] ∧ ∀ c ∈ part, isAlphanumeric c = true) {rest : List Char}
    (hrest : EndsTag rest) :
    readTag isFirst (parts.flatMap (fun part => '-' :: part) ++ rest) =
      (parts.flatMap (fun part => '-' :: part), rest) := by
  induction parts generalizing isFirst with
  | nil => exact hrest.readTag isFirst
  | cons part parts ih =>
      obtain ⟨hsome, hpart⟩ := h part List.mem_cons_self
      have hlater : ∀ c ∈ part, (isLetter c || (!false && isDigit c)) = true := hpart
      have hread := readTag_subtag hlater (parts.flatMap (fun part => '-' :: part) ++ rest)
      rw [ih false fun other hother => h other (List.mem_cons_of_mem _ hother)] at hread
      obtain ⟨c, cs, rfl⟩ := List.exists_cons_of_ne_nil hsome
      rw [List.flatMap_cons, List.append_assoc, List.cons_append, List.cons_append,
        readTag_hyphen isFirst (hpart c List.mem_cons_self), ← List.cons_append, hread]
      simp [prependChar]

/-- A language tag is read up to a character that cannot go on with it. -/
theorem readTag_append {first : List Char} {parts : List (List Char)}
    (hfirst : ∀ c ∈ first, isLetter c = true)
    (hparts : ∀ part ∈ parts, part ≠ [] ∧ ∀ c ∈ part, isAlphanumeric c = true) {rest : List Char}
    (hrest : EndsTag rest) :
    readTag true (first ++ parts.flatMap (fun part => '-' :: part) ++ rest) =
      (first ++ parts.flatMap (fun part => '-' :: part), rest) := by
  have hletters : ∀ c ∈ first, (isLetter c || (!true && isDigit c)) = true := by
    intro c hc
    simp [hfirst c hc]
  rw [List.append_assoc, readTag_subtag hletters, readTag_subtags true hparts hrest]

/-! ## Terms -/

/-- A term of a query. -/
inductive Term where
  | iri (text : String)
  | literal (lexical : String) (mark : Literal.Mark)
deriving DecidableEq, Repr

/-- Read what marks a literal. -/
def readMark? : List Char → Option (Literal.Mark × List Char)
  | '@' :: cs =>
    match readTag true cs with
    | ([], _) => none
    | (tag, rest) => some (.language (String.ofList tag), rest)
  | '^' :: '^' :: '<' :: cs =>
    (readIri? cs).map fun read => (.datatype (String.ofList read.1), read.2)
  | '^' :: '^' :: _ => none
  | cs => some (.plain, cs)

/-- Read a term. -/
def Term.read? : List Char → Option (Term × List Char)
  | [] => none
  | c :: cs =>
    if c = '<' then (readIri? cs).map fun read => (.iri (String.ofList read.1), read.2)
    else if c = '"' || c = '\'' then
      match readString? c cs with
      | none => none
      | some (text, rest) =>
        (readMark? rest).map fun read => (.literal (String.ofList text) read.1, read.2)
    else none

end GraphCriteria
