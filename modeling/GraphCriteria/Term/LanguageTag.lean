import GraphCriteria.Text.Ascii

/-!
# Language tags

A language tag is a list of subtags between hyphens: a primary language, extended
languages, a script, a region, variants, extensions and a private part.  A few
registered tags that do not fit this scheme are accepted as they stand, and so are
tags that are private as a whole.  All lengths are counted in UTF-8 bytes.
-/

namespace GraphCriteria.LanguageTag

open Text

/-- What is wrong with a language tag. -/
inductive Fault where
  | emptyExtension
  | emptyPrivateUse
  | invalidSubtag
  | invalidLanguage
  | subtagTooLong
  | emptySubtag
  | tooManyExtlangs
deriving DecidableEq, Repr

/-- The wording of a fault. -/
def Fault.message : Fault → String
  | emptyExtension => "If an extension subtag is present, it must not be empty"
  | emptyPrivateUse => "If the `x` subtag is present, it must not be empty"
  | invalidSubtag => "A subtag fails to parse, it does not match any other subtags"
  | invalidLanguage => "The given language subtag is invalid"
  | subtagTooLong => "A subtag may be eight characters in length at maximum"
  | emptySubtag => "A subtag should not be empty"
  | tooManyExtlangs => "At maximum three extlangs are allowed"

/-! ## Subtags -/

/-- The parts of a text between hyphens. -/
def subtags : List Char → List (List Char)
  | [] => [[]]
  | c :: cs =>
    match subtags cs with
    | [] => [[c]]
    | first :: rest => if c = '-' then [] :: first :: rest else (c :: first) :: rest

/-- The registered tags that do not follow the scheme, in lower case. -/
def registered : List String :=
  ["art-lojban", "cel-gaulish", "en-gb-oed", "i-ami", "i-bnn", "i-default", "i-enochian",
    "i-hak", "i-klingon", "i-lux", "i-mingo", "i-navajo", "i-pwn", "i-tao", "i-tay", "i-tsu",
    "no-bok", "no-nyn", "sgn-be-fr", "sgn-be-nl", "sgn-ch-de", "zh-guoyu", "zh-hakka", "zh-min",
    "zh-min-nan", "zh-xiang"]

/-! ## Reading subtag by subtag -/

/-- What has been read of a tag.  A singleton announces a part that must follow it. -/
inductive Stage where
  | start
  | afterLanguage (extlangs : Nat)
  | afterExtlang
  | afterScript
  | afterRegion
  | inExtension (announced : Bool)
  | inPrivateUse (announced : Bool)
deriving DecidableEq, Repr

namespace Stage

/-- Whether an extension has been announced and not yet given. -/
def isOpenExtension : Stage → Bool
  | inExtension announced => announced
  | _ => false

/-- Whether a script may come next. -/
def admitsScript : Stage → Bool
  | afterLanguage _ | afterExtlang => true
  | _ => false

/-- Whether a region may come next. -/
def admitsRegion : Stage → Bool
  | afterLanguage _ | afterExtlang | afterScript => true
  | _ => false

/-- Whether a variant may come next. -/
def admitsVariant : Stage → Bool
  | afterLanguage _ | afterExtlang | afterScript | afterRegion => true
  | _ => false

end Stage

/-- Whether a subtag has the form of a region. -/
def isRegion (part : List Char) : Bool :=
  (part.length == 2 && part.all isLetter) || (part.length == 3 && part.all isDigit)

/-- Whether a subtag has the form of a variant. -/
def isVariant (part : List Char) : Bool :=
  part.all isAlphanumeric &&
    match part with
    | [] => false
    | c :: _ => (isLetter c && 5 ≤ part.length) || (isDigit c && 4 ≤ part.length)

/-- The stage after one more subtag. -/
def advance (stage : Stage) (part : List Char) : Except Fault Stage :=
  if part = [] then .error .emptySubtag
  else if 8 < utf8Length part then .error .subtagTooLong
  else
    match stage with
    | .start =>
      if utf8Length part < 2 || !part.all isLetter then .error .invalidLanguage
      else if part.length < 4 then .ok (.afterLanguage 0)
      else .ok .afterExtlang
    | .inPrivateUse _ =>
      if part.all isAlphanumeric then .ok (.inPrivateUse false) else .error .invalidSubtag
    | stage =>
      if part = ['x'] then
        if stage.isOpenExtension then .error .emptyExtension else .ok (.inPrivateUse true)
      else if part.length = 1 && part.all isAlphanumeric then
        if stage.isOpenExtension then .error .emptyExtension else .ok (.inExtension true)
      else
        match stage with
        | .inExtension _ =>
          if part.all isAlphanumeric then .ok (.inExtension false) else .error .invalidSubtag
        | .afterLanguage extlangs =>
          if part.length = 3 && part.all isLetter then
            if extlangs < 3 then .ok (.afterLanguage (extlangs + 1)) else .error .tooManyExtlangs
          else next stage part
        | stage => next stage part
where
  /-- A script, a region or a variant. -/
  next (stage : Stage) (part : List Char) : Except Fault Stage :=
    if stage.admitsScript && part.length = 4 && part.all isLetter then .ok .afterScript
    else if stage.admitsRegion && isRegion part then .ok .afterRegion
    else if stage.admitsVariant && isVariant part then .ok .afterRegion
    else .error .invalidSubtag

/-- The stage after all subtags of a list. -/
def advanceAll : Stage → List (List Char) → Except Fault Stage
  | stage, [] => .ok stage
  | stage, part :: parts =>
    match advance stage part with
    | .ok stage => advanceAll stage parts
    | .error fault => .error fault

/-- Check the subtags of a tag that is private as a whole. -/
def checkPrivate : List (List Char) → Except Fault Unit
  | [] => .ok ()
  | part :: parts =>
    if part = [] then .error .emptySubtag
    else if 8 < utf8Length part then .error .subtagTooLong
    else if !part.all isAlphanumeric then .error .invalidSubtag
    else checkPrivate parts

/-- Check a tag in lower case. -/
def check (tag : List Char) : Except Fault Unit :=
  if registered.contains (String.ofList tag) then .ok ()
  else
    match tag with
    | ['x', '-'] => .error .emptyPrivateUse
    | 'x' :: '-' :: rest => checkPrivate (subtags rest)
    | _ =>
      match advanceAll .start (subtags tag) with
      | .error fault => .error fault
      | .ok (.inExtension true) => .error .emptyExtension
      | .ok (.inPrivateUse true) => .error .emptyPrivateUse
      | .ok _ => .ok ()

/-- The lower-case form of a language tag. -/
def ofText (text : String) : Except Fault String :=
  let tag := text.toList.map Char.toLower
  match check tag with
  | .ok () => .ok (String.ofList tag)
  | .error fault => .error fault

end GraphCriteria.LanguageTag
