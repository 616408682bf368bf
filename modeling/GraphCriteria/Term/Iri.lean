import GraphCriteria.Term.Ipv6

/-!
# Absolute IRIs

An IRI is a scheme, an authority, a path, a query and a fragment.  It is checked from
left to right, and the first fault is reported.  A text without a scheme is first checked
as a relative reference, so that a wrong character in it is what is reported.
-/

namespace GraphCriteria.Iri

open Text

/-- What is wrong with an IRI. -/
inductive Fault where
  | noScheme
  | codePoint (c : Char)
  | percentEncoding (text : List Char)
  | hostCharacter (c : Char)
  | hostAddress
  | portCharacter (c : Char)
deriving DecidableEq, Repr

/-- The wording of a fault. -/
def Fault.message : Fault → String
  | noScheme => "No scheme found in an absolute IRI"
  | codePoint c => "Invalid IRI code point '" ++ String.ofList [c] ++ "'"
  | percentEncoding text => "Invalid IRI percent encoding '" ++ String.ofList text ++ "'"
  | hostCharacter c => "Invalid character '" ++ String.ofList [c] ++ "' in host"
  | hostAddress => "Invalid host IP (invalid IPv6 address syntax)"
  | portCharacter c => "Invalid character '" ++ String.ofList [c] ++ "'"

/-! ## Character classes -/

/-- Whether a character is an ASCII one that stands for itself everywhere. -/
def isPlainAscii (c : Char) : Bool :=
  isAlphanumeric c || "!$&'()*+,-.;=_~".toList.contains c

/-- Whether a character stands for itself everywhere. -/
def isPlain (c : Char) : Bool :=
  let n := c.toNat
  isPlainAscii c || (0xA0 ≤ n && n ≤ 0xD7FF) || (0xF900 ≤ n && n ≤ 0xFDCF) ||
    (0xFDF0 ≤ n && n ≤ 0xFFEF) ||
    (0x10000 ≤ n && n ≤ 0xDFFFF && n % 0x10000 ≤ 0xFFFD) || (0xE1000 ≤ n && n ≤ 0xEFFFD)

/-- Whether a character is private, and thus allowed in queries only. -/
def isPrivate (c : Char) : Bool :=
  let n := c.toNat
  (0xE000 ≤ n && n ≤ 0xF8FF) || (0xF0000 ≤ n && n ≤ 0xFFFFD) || (0x100000 ≤ n && n ≤ 0x10FFFD)

/-- Whether a character may stand in a path. -/
def isPathChar (c : Char) : Bool :=
  isPlain c || c == ':' || c == '@' || c == '/'

/-- Whether a character may stand in a query. -/
def isQueryChar (c : Char) : Bool :=
  isPathChar c || c == '?' || isPrivate c

/-- Whether a character may stand in a fragment. -/
def isFragmentChar (c : Char) : Bool :=
  isPathChar c || c == '?'

/-- Whether a character begins a path, a query or a fragment. -/
def endsAuthority (c : Char) : Bool :=
  c == '/' || c == '?' || c == '#'

/-! ## Components -/

/-- Read allowed characters and percent escapes up to a stop character or the end, and
return the text from there on. -/
def readUntil (stop allowed : Char → Bool) : List Char → Except Fault (List Char)
  | [] => .ok []
  | c :: cs =>
    if stop c then .ok (c :: cs)
    else if allowed c then readUntil stop allowed cs
    else if c = '%' then
      match cs with
      | a :: b :: rest =>
        if isHexDigit a && isHexDigit b then readUntil stop allowed rest
        else .error (.percentEncoding ['%', a, b])
      | rest => .error (.percentEncoding ('%' :: rest))
    else .error (.codePoint c)

/-- Check a fragment. -/
def checkFragment (cs : List Char) : Except Fault Unit := do
  let _ ← readUntil (fun _ => false) isFragmentChar cs

/-- Check a query and what follows it. -/
def checkQuery (cs : List Char) : Except Fault Unit := do
  match ← readUntil (· == '#') isQueryChar cs with
  | [] => pure ()
  | _ :: rest => checkFragment rest

/-- Check a path and what follows it. -/
def checkPath (cs : List Char) : Except Fault Unit := do
  match ← readUntil (fun c => c == '?' || c == '#') isPathChar cs with
  | [] => pure ()
  | '?' :: rest => checkQuery rest
  | _ :: rest => checkFragment rest

/-- Check the number between the colon of a host and the path, and what follows it. -/
def checkPort (cs : List Char) : Except Fault Unit :=
  match cs.dropWhile isDigit with
  | [] => .ok ()
  | c :: rest => if endsAuthority c then checkPath (c :: rest) else .error (.portCharacter c)

/-- Check the version and the address of a future kind of address, after its letter. -/
def checkFutureAddress (cs : List Char) : Except Fault Unit :=
  let version := cs.takeWhile isHexDigit
  match cs.dropWhile isHexDigit with
  | [] => .error (.hostCharacter ']')
  | '.' :: address =>
    match address with
    | [] => .error (.hostCharacter ']')
    | c :: _ =>
      if version = [] then .error (.hostCharacter c)
      else
        match address.find? fun c => !(isPlainAscii c || c == ':') with
        | some c => .error (.hostCharacter c)
        | none => .ok ()
  | c :: _ => .error (.hostCharacter c)

/-- Check an address between square brackets. -/
def checkAddress (cs : List Char) : Except Fault Unit :=
  match cs with
  | 'v' :: rest | 'V' :: rest => checkFutureAddress rest
  | cs => if Ipv6.isAddress cs then .ok () else .error .hostAddress

/-- Check a host and what follows it. -/
def checkHost (cs : List Char) : Except Fault Unit := do
  match cs with
  | '[' :: inside =>
    match inside.dropWhile (· != ']') with
    | [] => .error (.hostCharacter '[')
    | _ :: rest =>
      checkAddress (inside.takeWhile (· != ']'))
      match rest with
      | [] => pure ()
      | ':' :: number => checkPort number
      | c :: _ => if endsAuthority c then checkPath rest else .error (.hostCharacter c)
  | cs =>
    match ← readUntil (fun c => c == ':' || endsAuthority c) isPlain cs with
    | [] => pure ()
    | ':' :: number => checkPort number
    | rest => checkPath rest

/-- Check an authority, which may name a user before its host, and what follows it. -/
def checkAuthority (cs : List Char) : Except Fault Unit := do
  let stop := fun c => c == '@' || c == '[' || endsAuthority c
  match ← readUntil stop (fun c => isPlain c || c == ':') cs with
  | '@' :: host => checkHost host
  | _ => checkHost cs

/-- Check a reference that has no scheme. -/
def checkRelative (cs : List Char) : Except Fault Unit := do
  match cs with
  | '/' :: '/' :: rest => checkAuthority rest
  | '/' :: rest => checkPath rest
  | cs => checkPath (← readUntil endsAuthority (fun c => isPlain c || c == '@') cs)

/-- The text after the scheme and its colon, where there is a scheme. -/
def afterScheme? (cs : List Char) : Option (List Char) :=
  match cs with
  | [] => none
  | c :: rest =>
    if isLetter c then
      match rest.dropWhile fun c => isAlphanumeric c || "+-.".toList.contains c with
      | ':' :: rest => some rest
      | _ => none
    else none

/-- Check an absolute IRI. -/
def check (cs : List Char) : Except Fault Unit := do
  match cs with
  | ':' :: _ => .error .noScheme
  | cs =>
    match afterScheme? cs with
    | some ('/' :: '/' :: rest) => checkAuthority rest
    | some rest => checkPath rest
    | none =>
      checkRelative cs
      .error .noScheme

end GraphCriteria.Iri
