import GraphCriteria.Text.Ascii

/-!
# IPv6 addresses

An address has eight groups of one to four hexadecimal digits between colons.  One run
of groups may be left out as a double colon, and the last two groups may be written as
an IPv4 address.  Readers here take an address off the front of a text and return what
follows it.
-/

namespace GraphCriteria.Ipv6

open Text

/-- Read one group of an address. -/
def readGroup? (cs : List Char) : Option (List Char) :=
  let digits := cs.takeWhile isHexDigit
  if 1 ≤ digits.length && digits.length ≤ 4 then some (cs.dropWhile isHexDigit) else none

/-- Read one decimal octet, which has no needless leading zero. -/
def readOctet? (cs : List Char) : Option (List Char) :=
  let digits := cs.takeWhile isDigit
  let value := digits.foldl (fun n c => 10 * n + digitValue c) 0
  let plain := digits.length == 1 || digits.head? != some '0'
  if 1 ≤ digits.length && digits.length ≤ 3 && plain && value ≤ 255 then
    some (cs.dropWhile isDigit)
  else none

/-- Read a given character. -/
def readChar? (c : Char) : List Char → Option (List Char)
  | d :: cs => if d = c then some cs else none
  | [] => none

/-- Read four octets between full stops. -/
def readIpv4? (cs : List Char) : Option (List Char) := do
  let cs ← readOctet? cs
  let cs ← readChar? '.' cs
  let cs ← readOctet? cs
  let cs ← readChar? '.' cs
  let cs ← readOctet? cs
  let cs ← readChar? '.' cs
  readOctet? cs

/-- How much of an address has been read: the groups, whether the last two were an IPv4
address, and the text that follows. -/
structure Progress where
  groups : Nat
  hasIpv4 : Bool
  rest : List Char

/-- Read as many groups as there are, up to a number of free places.  An IPv4 address
takes two places and ends the groups. -/
def readGroups : Nat → Bool → List Char → Progress
  | 0, _, cs => ⟨0, false, cs⟩
  | places + 1, isFirst, cs =>
    let afterColon? := if isFirst then some cs else readChar? ':' cs
    let ipv4? := if places = 0 then none else afterColon?.bind readIpv4?
    match ipv4?, afterColon?.bind readGroup? with
    | some rest, _ => ⟨2, true, rest⟩
    | none, some rest =>
      let later := readGroups places false rest
      ⟨later.groups + 1, later.hasIpv4, later.rest⟩
    | none, none => ⟨0, false, cs⟩

/-- Whether a text is an IPv6 address.  A double colon stands for at least one group. -/
def isAddress (cs : List Char) : Bool :=
  let head := readGroups 8 true cs
  if head.groups = 8 then head.rest.isEmpty
  else if head.hasIpv4 then false
  else
    match head.rest with
    | ':' :: ':' :: rest => (readGroups (7 - head.groups) true rest).rest.isEmpty
    | _ => false

end GraphCriteria.Ipv6
