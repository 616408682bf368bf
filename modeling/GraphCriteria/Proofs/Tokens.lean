import GraphCriteria.Proofs.Grammar
import GraphCriteria.Proofs.Passes
import GraphCriteria.Term.Iri
import GraphCriteria.Term.LanguageTag

/-!
# Tokens that have passed their check

An IRI that has been checked has no character in it that could close its brackets or that may not stand
between them.  A language tag that has been checked is made of letters and, after hyphens, of letters
and digits.

Main results:

- Theorem `Iri.allowed_of_check`: a checked IRI may stand between angle brackets as it is.
- Theorem `LanguageTag.hasForm_of_check`: a checked language tag has the form of one in a query.
-/

namespace GraphCriteria

open Text

/-! ## IRIs -/

namespace Iri

/-- A text of characters that may all stand between the brackets of an IRI. -/
def Allowed (cs : List Char) : Prop :=
  ∀ c ∈ cs, isIriChar c = true

namespace Allowed

/-- Nothing may always stand in an IRI. -/
theorem nil : Allowed [] :=
  fun _ hc => absurd hc List.not_mem_nil

theorem cons {c : Char} {cs : List Char} (hc : isIriChar c = true) (h : Allowed cs) :
    Allowed (c :: cs) := by
  intro d hd
  rcases List.mem_cons.1 hd with rfl | hd
  · exact hc
  · exact h d hd

/-- Two parts that may stand in an IRI may stand there in a row. -/
theorem append {cs ds : List Char} (hcs : Allowed cs) (hds : Allowed ds) : Allowed (cs ++ ds) := by
  intro c hc
  rcases List.mem_append.1 hc with hc | hc
  · exact hcs c hc
  · exact hds c hc

/-- So may the longest front part of characters of one kind, if these may. -/
theorem takeWhile {p : Char → Bool} (hp : ∀ c, p c = true → isIriChar c = true) (cs : List Char) :
    Allowed (cs.takeWhile p) :=
  fun c hc => hp c (List.all_eq_true.1 List.all_takeWhile c hc)

/-- What a run of allowed characters is followed by decides. -/
theorem of_dropWhile {p : Char → Bool} (hp : ∀ c, p c = true → isIriChar c = true)
    {cs : List Char} (h : Allowed (cs.dropWhile p)) : Allowed cs := by
  rw [← List.takeWhile_append_dropWhile (p := p) (l := cs)]
  exact (takeWhile hp cs).append h

end Allowed

/-! ### Characters -/

/-- All characters that may not stand between brackets are ASCII. -/
theorem isIriChar_of_le {c : Char} (h : 128 ≤ c.toNat) : isIriChar c = true := by
  have hspecial : "<>\"\x7b\x7d|^\\".toList.contains c = false := by
    rw [List.contains_eq_mem, decide_eq_false_iff_not]
    intro hmem
    have hascii : "<>\"\x7b\x7d|^\\".toList.all (·.toNat < 128) = true := by decide
    have hlt := of_decide_eq_true (List.all_eq_true.1 hascii c hmem)
    omega
  simp only [isIriChar, hspecial, Bool.and_eq_true, decide_eq_true_eq, Bool.not_false, and_true,
    bne_iff_ne]
  omega

/-- A class of characters that are allowed as far as they are ASCII is allowed. -/
theorem isIriChar_of_ascii {p : Char → Bool}
    (h : ∀ n < 128, p (Char.ofNat n) = true → isIriChar (Char.ofNat n) = true) {c : Char}
    (hc : p c = true) : isIriChar c = true := by
  by_cases hascii : c.toNat < 128
  · have hnumber := h c.toNat hascii
    rw [Char.ofNat_toNat] at hnumber
    exact hnumber hc
  · exact isIriChar_of_le (by omega)

/-- The characters of a query may stand in an IRI, private ones included. -/
theorem isIriChar_of_isQueryChar {c : Char} (h : isQueryChar c = true) : isIriChar c = true :=
  isIriChar_of_ascii (by decide +kernel) h

/-- So may those of a path, which a query takes as well. -/
theorem isIriChar_of_isPathChar {c : Char} (h : isPathChar c = true) : isIriChar c = true :=
  isIriChar_of_isQueryChar (by simp [isQueryChar, h])

/-- So may those of a fragment, which adds the question mark to those of a path. -/
theorem isIriChar_of_isFragmentChar {c : Char} (h : isFragmentChar c = true) :
    isIriChar c = true := by
  rw [isFragmentChar, Bool.or_eq_true] at h
  exact isIriChar_of_isQueryChar (by
    rw [isQueryChar, Bool.or_eq_true, Bool.or_eq_true]
    exact .inl h)

/-- Plain characters stand for themselves in a path. -/
theorem isIriChar_of_isPlain {c : Char} (h : isPlain c = true) : isIriChar c = true :=
  isIriChar_of_isPathChar (by simp [isPathChar, h])

/-- So do those among them that are ASCII. -/
theorem isIriChar_of_isPlainAscii {c : Char} (h : isPlainAscii c = true) : isIriChar c = true :=
  isIriChar_of_isPlain (by simp [isPlain, h])

theorem isIriChar_of_isHexDigit {c : Char} (h : isHexDigit c = true) : isIriChar c = true :=
  isIriChar_of_ascii (by decide +kernel) h

theorem isIriChar_of_isDigit {c : Char} (h : isDigit c = true) : isIriChar c = true :=
  isIriChar_of_ascii (by decide +kernel) h

/-- Letters may stand in an IRI, as digits and hexadecimal digits may. -/
theorem isIriChar_of_isLetter {c : Char} (h : isLetter c = true) : isIriChar c = true :=
  isIriChar_of_ascii (by decide +kernel) h

/-! ### Components -/

/-- A reader stops at a stop character, if at all, and has passed allowed characters until then. -/
theorem readUntil_ok {stop allowed : Char → Bool}
    (hallowed : ∀ c, allowed c = true → isIriChar c = true) {cs rest : List Char}
    (h : readUntil stop allowed cs = .ok rest) :
    (Allowed rest → Allowed cs) ∧ ∀ c, rest.head? = some c → stop c = true := by
  fun_induction readUntil stop allowed cs with
  | case1 =>
      cases h
      exact ⟨id, by simp⟩
  | case2 c cs hstop =>
      cases h
      exact ⟨id, by simpa using hstop⟩
  | case3 c cs hstop hc ih =>
      obtain ⟨hcs, hend⟩ := ih h
      exact ⟨fun hrest => (hcs hrest).cons (hallowed c hc), hend⟩
  | case4 a b later hhex hstop hc ih =>
      obtain ⟨hcs, hend⟩ := ih h
      rw [Bool.and_eq_true] at hhex
      refine ⟨fun hrest => .cons (by decide) (.cons ?_ (.cons ?_ (hcs hrest))), hend⟩
      · exact isIriChar_of_isHexDigit hhex.1
      · exact isIriChar_of_isHexDigit hhex.2
  | case5 => cases h
  | case6 => cases h
  | case7 => cases h

/-- What follows the characters up to a stop decides. -/
theorem Allowed.of_readUntil {stop allowed : Char → Bool}
    (hallowed : ∀ c, allowed c = true → isIriChar c = true) {cs rest : List Char}
    (h : readUntil stop allowed cs = .ok rest) (hrest : Allowed rest) : Allowed cs :=
  (readUntil_ok hallowed h).1 hrest

/-- A fragment that is accepted may stand in an IRI. -/
theorem allowed_of_checkFragment {cs : List Char} (h : checkFragment cs = .ok ()) :
    Allowed cs := by
  obtain ⟨rest, hread, -⟩ := exists_ok_of_bind h
  obtain ⟨hcs, hend⟩ := readUntil_ok (fun _ => isIriChar_of_isFragmentChar) hread
  cases rest with
  | nil => exact hcs .nil
  | cons c rest => cases hend c rfl

/-- So may a query, with the fragment after it. -/
theorem allowed_of_checkQuery {cs : List Char} (h : checkQuery cs = .ok ()) : Allowed cs := by
  obtain ⟨rest, hread, hrest⟩ := exists_ok_of_bind h
  obtain ⟨hcs, hend⟩ := readUntil_ok (fun _ => isIriChar_of_isQueryChar) hread
  cases rest with
  | nil => exact hcs .nil
  | cons c rest =>
      obtain rfl : c = '#' := by simpa using hend c rfl
      exact hcs (.cons (by decide) (allowed_of_checkFragment hrest))

/-- So may a path, with the query or the fragment after it. -/
theorem allowed_of_checkPath {cs : List Char} (h : checkPath cs = .ok ()) : Allowed cs := by
  obtain ⟨rest, hread, hrest⟩ := exists_ok_of_bind h
  obtain ⟨hcs, hend⟩ := readUntil_ok (fun _ => isIriChar_of_isPathChar) hread
  cases rest with
  | nil => exact hcs .nil
  | cons c rest =>
      have hc : c = '?' ∨ c = '#' := by simpa using hend c rfl
      rcases hc with rfl | rfl
      · exact hcs (.cons (by decide) (allowed_of_checkQuery hrest))
      · exact hcs (.cons (by decide) (allowed_of_checkFragment hrest))

/-- So may a port, and the path after it. -/
theorem allowed_of_checkPort {cs : List Char} (h : checkPort cs = .ok ()) : Allowed cs := by
  apply Allowed.of_dropWhile fun _ => isIriChar_of_isDigit
  unfold checkPort at h
  split at h
  · rename_i hnone
    rw [hnone]
    exact .nil
  · rename_i c rest hsome
    rw [hsome]
    split at h
    · exact allowed_of_checkPath h
    · cases h

/-! ### Addresses -/

/-- A text has a front of allowed characters, after which another follows. -/
def Passes (cs rest : List Char) : Prop :=
  Allowed rest → Allowed cs

/-- Reading a group of an address passes hexadecimal digits. -/
theorem passes_of_readGroup? {cs rest : List Char} (h : Ipv6.readGroup? cs = some rest) :
    Passes cs rest := by
  unfold Ipv6.readGroup? at h
  dsimp only at h
  split at h
  · cases h
    exact .of_dropWhile fun _ => isIriChar_of_isHexDigit
  · cases h

/-- Reading a part of a dotted address passes digits. -/
theorem passes_of_readOctet? {cs rest : List Char} (h : Ipv6.readOctet? cs = some rest) :
    Passes cs rest := by
  unfold Ipv6.readOctet? at h
  dsimp only at h
  split at h
  · cases h
    exact .of_dropWhile fun _ => isIriChar_of_isDigit
  · cases h

/-- Reading one character passes that character. -/
theorem passes_of_readChar? {c : Char} (hc : isIriChar c = true) {cs rest : List Char}
    (h : Ipv6.readChar? c cs = some rest) : Passes cs rest := by
  unfold Ipv6.readChar? at h
  split at h
  · rename_i d cs
    split at h
    · rename_i heq
      cases h
      rw [heq]
      exact .cons hc
    · cases h
  · cases h

/-- A dotted address is four parts and the dots between them. -/
theorem passes_of_readIpv4? {cs rest : List Char} (h : Ipv6.readIpv4? cs = some rest) :
    Passes cs rest := by
  have hdot : isIriChar '.' = true := by decide
  obtain ⟨cs₁, h₁, h⟩ := Option.bind_eq_some_iff.1 h
  obtain ⟨cs₂, h₂, h⟩ := Option.bind_eq_some_iff.1 h
  obtain ⟨cs₃, h₃, h⟩ := Option.bind_eq_some_iff.1 h
  obtain ⟨cs₄, h₄, h⟩ := Option.bind_eq_some_iff.1 h
  obtain ⟨cs₅, h₅, h⟩ := Option.bind_eq_some_iff.1 h
  obtain ⟨cs₆, h₆, h⟩ := Option.bind_eq_some_iff.1 h
  intro hrest
  exact passes_of_readOctet? h₁ (passes_of_readChar? hdot h₂ (passes_of_readOctet? h₃
    (passes_of_readChar? hdot h₄ (passes_of_readOctet? h₅ (passes_of_readChar? hdot h₆
      (passes_of_readOctet? h hrest))))))

/-- Reading groups passes what it reads of an address, however far it gets. -/
theorem passes_of_readGroups (places : Nat) (isFirst : Bool) (cs : List Char) :
    Passes cs (Ipv6.readGroups places isFirst cs).rest := by
  induction places generalizing isFirst cs with
  | zero => exact id
  | succ places ih =>
      -- A colon stands before every group but the first.
      have hcolon : ∀ later, (if isFirst then some cs else Ipv6.readChar? ':' cs) = some later →
          Passes cs later := by
        intro later hlater
        cases isFirst with
        | true =>
            cases hlater
            exact id
        | false => exact passes_of_readChar? (by decide) hlater
      unfold Ipv6.readGroups
      dsimp only
      split
      · rename_i rest hipv4
        split at hipv4
        · cases hipv4
        · obtain ⟨later, hlater, hread⟩ := Option.bind_eq_some_iff.1 hipv4
          exact fun hrest => hcolon later hlater (passes_of_readIpv4? hread hrest)
      · rename_i rest _ hgroup
        obtain ⟨later, hlater, hread⟩ := Option.bind_eq_some_iff.1 hgroup
        exact fun hrest => hcolon later hlater (passes_of_readGroup? hread (ih false rest hrest))
      · exact id

/-- What is passed up to the end is the whole address, so all of it may stand in an IRI. -/
theorem allowed_of_isAddress {cs : List Char} (h : Ipv6.isAddress cs = true) : Allowed cs := by
  have hhead := passes_of_readGroups 8 true cs
  unfold Ipv6.isAddress at h
  dsimp only at h
  split at h
  · rw [List.isEmpty_iff.1 h] at hhead
    exact hhead .nil
  · split at h
    · cases h
    · split at h
      · rename_i rest hrest
        have htail := passes_of_readGroups (7 - (Ipv6.readGroups 8 true cs).groups) true rest
        rw [List.isEmpty_iff.1 h] at htail
        rw [hrest] at hhead
        exact hhead (.cons (by decide) (.cons (by decide) (htail .nil)))
      · cases h

/-- An address of a later version may stand in an IRI as well. -/
theorem allowed_of_checkFutureAddress {cs : List Char} (h : checkFutureAddress cs = .ok ()) :
    Allowed cs := by
  apply Allowed.of_dropWhile fun _ => isIriChar_of_isHexDigit
  unfold checkFutureAddress at h
  dsimp only at h
  split at h
  · cases h
  · rename_i address haddress
    rw [haddress]
    split at h
    · cases h
    · split at h
      · cases h
      · split at h
        · cases h
        · rename_i hnone
          refine .cons (by decide) fun c hc => ?_
          have hallowed := List.find?_eq_none.1 hnone c hc
          simp only [Bool.not_eq_eq_eq_not, Bool.not_true, Bool.not_eq_false,
            Bool.or_eq_true, beq_iff_eq] at hallowed
          rcases hallowed with hplain | rfl
          · exact isIriChar_of_isPlainAscii hplain
          · decide
  · cases h

/-- An address in brackets is one of these two forms. -/
theorem allowed_of_checkAddress {cs : List Char} (h : checkAddress cs = .ok ()) : Allowed cs := by
  unfold checkAddress at h
  split at h
  · exact .cons (by decide) (allowed_of_checkFutureAddress h)
  · exact .cons (by decide) (allowed_of_checkFutureAddress h)
  · split at h
    · rename_i haddress
      exact allowed_of_isAddress haddress
    · cases h

/-! ### Hosts and whole IRIs -/

/-- A host is an address in brackets or a name, and a port or a path follows it. -/
theorem allowed_of_checkHost {cs : List Char} (h : checkHost cs = .ok ()) : Allowed cs := by
  unfold checkHost at h
  split at h
  · rename_i inside
    split at h
    · cases h
    · rename_i bracket rest hinside
      have hbracket : bracket = ']' := by
        have hhead := List.head?_dropWhile_not (· != ']') inside
        rw [hinside] at hhead
        simpa using hhead
      obtain ⟨⟨⟩, haddress, hrest⟩ := exists_ok_of_bind h
      rw [← List.takeWhile_append_dropWhile (p := (· != ']')) (l := inside), hinside, hbracket]
      refine .cons (by decide) ((allowed_of_checkAddress haddress).append (.cons (by decide) ?_))
      split at hrest
      · exact .nil
      · exact .cons (by decide) (allowed_of_checkPort hrest)
      · split at hrest
        · exact allowed_of_checkPath hrest
        · cases hrest
  · obtain ⟨rest, hread, hrest⟩ := exists_ok_of_bind h
    apply Allowed.of_readUntil (fun _ => isIriChar_of_isPlain) hread
    split at hrest
    · exact .nil
    · exact .cons (by decide) (allowed_of_checkPort hrest)
    · exact allowed_of_checkPath hrest

/-- An authority is a host that user information may stand before. -/
theorem allowed_of_checkAuthority {cs : List Char} (h : checkAuthority cs = .ok ()) :
    Allowed cs := by
  unfold checkAuthority at h
  obtain ⟨rest, hread, hrest⟩ := exists_ok_of_bind h
  have huser : ∀ c, (isPlain c || c == ':') = true → isIriChar c = true := by
    intro c hc
    rw [Bool.or_eq_true] at hc
    apply isIriChar_of_isPathChar
    rcases hc with hc | hc <;> simp [isPathChar, hc]
  split at hrest
  · exact .of_readUntil huser hread (.cons (by decide) (allowed_of_checkHost hrest))
  · exact allowed_of_checkHost hrest

/-- Before what follows the scheme stand the scheme and its colon. -/
theorem allowed_of_afterScheme? {cs rest : List Char} (h : afterScheme? cs = some rest)
    (hrest : Allowed rest) : Allowed cs := by
  unfold afterScheme? at h
  split at h
  · cases h
  · rename_i c later
    split at h
    · rename_i hletter
      refine .cons (isIriChar_of_isLetter hletter) ?_
      have hscheme : ∀ c, (isAlphanumeric c || "+-.".toList.contains c) = true →
          isIriChar c = true :=
        fun _ hc => isIriChar_of_ascii (p := fun c => isAlphanumeric c || "+-.".toList.contains c)
          (by decide +kernel) hc
      apply Allowed.of_dropWhile hscheme
      split at h
      · rename_i heq
        cases h
        rw [heq]
        exact .cons (by decide) hrest
      · cases h
    · cases h

/-- A checked IRI may stand between angle brackets as it is. -/
theorem allowed_of_check {cs : List Char} (h : check cs = .ok ()) : Allowed cs := by
  unfold check at h
  split at h
  · cases h
  · split at h
    · rename_i rest hscheme
      exact allowed_of_afterScheme? hscheme
        (.cons (by decide) (.cons (by decide) (allowed_of_checkAuthority h)))
    · rename_i rest _ hscheme
      exact allowed_of_afterScheme? hscheme (allowed_of_checkPath h)
    · obtain ⟨_, _, herror⟩ := exists_ok_of_bind h
      cases herror

end Iri

/-! ## Language tags -/

namespace LanguageTag

/-- The form of language tags in queries: letters, and subtags of letters and digits, each after a
hyphen. -/
def HasForm (tag : List Char) : Prop :=
  ∃ (first : List Char) (parts : List (List Char)),
    tag = first ++ parts.flatMap (fun part => '-' :: part) ∧ (first ≠ [] ∧ ∀ c ∈ first, isLetter c = true) ∧
    ∀ part ∈ parts, part ≠ [] ∧ ∀ c ∈ part, isAlphanumeric c = true

/-- A tag is what its subtags are, with hyphens between them. -/
theorem exists_subtags (tag : List Char) :
    ∃ first parts, subtags tag = first :: parts ∧
      tag = first ++ parts.flatMap fun part => '-' :: part := by
  induction tag with
  | nil => exact ⟨[], [], rfl, rfl⟩
  | cons c cs ih =>
      obtain ⟨first, parts, hparts, htag⟩ := ih
      by_cases hc : c = '-'
      · exact ⟨[], first :: parts, by simp [subtags, hparts, hc], by simp [htag, hc]⟩
      · exact ⟨c :: first, parts, by simp [subtags, hparts, hc], by rw [htag, List.cons_append]⟩

/-- Subtags that consist of letters have none but letters and digits. -/
theorem isAlphanumeric_of_isLetter {c : Char} (h : isLetter c = true) :
    isAlphanumeric c = true := by
  simp [isAlphanumeric, h]

theorem all_isAlphanumeric_of_isLetter {part : List Char} (h : part.all isLetter = true) :
    part.all isAlphanumeric = true :=
  List.all_eq_true.2 fun c hc => isAlphanumeric_of_isLetter (List.all_eq_true.1 h c hc)

/-- Regions and variants have letters and digits only. -/
theorem all_isAlphanumeric_of_next {stage later : Stage} {part : List Char}
    (h : advance.next stage part = .ok later) : part.all isAlphanumeric = true := by
  unfold advance.next at h
  split at h
  · rename_i hscript
    simp only [Bool.and_eq_true] at hscript
    exact all_isAlphanumeric_of_isLetter hscript.2
  split at h
  · rename_i hregion
    simp only [isRegion, Bool.and_eq_true, Bool.or_eq_true] at hregion
    rcases hregion.2 with ⟨_, hletters⟩ | ⟨_, hdigits⟩
    · exact all_isAlphanumeric_of_isLetter hletters
    · exact List.all_eq_true.2 fun c hc => by
        simp [isAlphanumeric, List.all_eq_true.1 hdigits c hc]
  split at h
  · rename_i hvariant
    simp only [isVariant, Bool.and_eq_true] at hvariant
    exact hvariant.2.1
  · cases h

/-- A subtag that is accepted is not empty and has letters and digits only; the first of a tag has
letters only. -/
theorem advance_ok {stage later : Stage} {part : List Char} (h : advance stage part = .ok later) :
    part ≠ [] ∧ part.all isAlphanumeric = true ∧
      (stage = .start → part.all isLetter = true) := by
  unfold advance at h
  split at h
  · cases h
  rename_i hsome
  refine ⟨hsome, ?_⟩
  split at h
  · cases h
  split at h
  · -- the primary language
    split at h
    · cases h
    · rename_i hletters
      have hall : part.all isLetter = true := by
        simp only [Bool.or_eq_true, Bool.not_eq_eq_eq_not, Bool.not_true, not_or,
          Bool.not_eq_false] at hletters
        exact hletters.2
      exact ⟨all_isAlphanumeric_of_isLetter hall, fun _ => hall⟩
  · -- the private part
    split at h
    · rename_i hall
      exact ⟨hall, fun hstart => by cases hstart⟩
    · cases h
  · rename_i hstart _
    refine ⟨?_, fun heq => absurd heq hstart⟩
    split at h
    · rename_i hprivate
      rw [hprivate]
      decide
    split at h
    · rename_i hsingleton
      rw [Bool.and_eq_true] at hsingleton
      exact hsingleton.2
    split at h
    · split at h
      · assumption
      · cases h
    · split at h
      · rename_i hextlang
        rw [Bool.and_eq_true] at hextlang
        exact all_isAlphanumeric_of_isLetter hextlang.2
      · exact all_isAlphanumeric_of_next h
    · exact all_isAlphanumeric_of_next h

/-- So it is with all subtags of a list. -/
theorem advanceAll_ok {stage later : Stage} {parts : List (List Char)}
    (h : advanceAll stage parts = .ok later) :
    ∀ part ∈ parts, part ≠ [] ∧ ∀ c ∈ part, isAlphanumeric c = true := by
  induction parts generalizing stage with
  | nil => simp
  | cons part parts ih =>
      unfold advanceAll at h
      split at h
      · rename_i next hnext
        obtain ⟨hsome, hall, -⟩ := advance_ok hnext
        intro other hother
        rcases List.mem_cons.1 hother with rfl | hother
        · exact ⟨hsome, List.all_eq_true.1 hall⟩
        · exact ih h other hother
      · cases h

/-- Subtags for private use are not empty and have none but letters and digits. -/
theorem checkPrivate_ok {parts : List (List Char)} (h : checkPrivate parts = .ok ()) :
    ∀ part ∈ parts, part ≠ [] ∧ ∀ c ∈ part, isAlphanumeric c = true := by
  induction parts with
  | nil => simp
  | cons part parts ih =>
      unfold checkPrivate at h
      split at h
      · cases h
      rename_i hsome
      split at h
      · cases h
      split at h
      · cases h
      rename_i hall
      intro other hother
      rcases List.mem_cons.1 hother with rfl | hother
      · exact ⟨hsome, List.all_eq_true.1 (by simpa using hall)⟩
      · exact ih h other hother

/-- Whether the subtags of a tag give it the form of language tags in queries. -/
def isFormed : List (List Char) → Bool
  | [] => false
  | first :: parts =>
    first ≠ [] && first.all isLetter && parts.all fun part => part ≠ [] && part.all isAlphanumeric

/-- A tag with well-formed subtags has the form of a language tag. -/
theorem hasForm_of_isFormed {tag : List Char} (h : isFormed (subtags tag) = true) :
    HasForm tag := by
  obtain ⟨first, parts, hparts, htag⟩ := exists_subtags tag
  rw [hparts] at h
  simp only [isFormed, Bool.and_eq_true, decide_eq_true_eq, List.all_eq_true] at h
  exact ⟨first, parts, htag, h.1, h.2⟩

/-- The first subtag is the primary language, and all are read in order. -/
theorem hasForm_of_advanceAll {tag : List Char} {stage : Stage}
    (h : advanceAll .start (subtags tag) = .ok stage) : HasForm tag := by
  obtain ⟨first, parts, hparts, htag⟩ := exists_subtags tag
  rw [hparts] at h
  have hall := advanceAll_ok h
  refine ⟨first, parts, htag, ⟨(hall first List.mem_cons_self).1, ?_⟩,
    fun part hpart => hall part (List.mem_cons_of_mem _ hpart)⟩
  unfold advanceAll at h
  split at h
  · rename_i next hnext
    exact List.all_eq_true.1 ((advance_ok hnext).2.2 rfl)
  · cases h

/-- A tag that is private as a whole is the letter `x` and subtags. -/
theorem hasForm_of_checkPrivate {rest : List Char} (h : checkPrivate (subtags rest) = .ok ()) :
    HasForm ('x' :: '-' :: rest) := by
  obtain ⟨first, parts, hparts, hrest⟩ := exists_subtags rest
  rw [hparts] at h
  refine ⟨['x'], first :: parts, ?_, ⟨by simp, List.all_eq_true.1 (by decide)⟩, checkPrivate_ok h⟩
  rw [hrest]
  rfl

/-- A checked language tag has the form of one in a query. -/
theorem hasForm_of_check {tag : List Char} (h : check tag = .ok ()) : HasForm tag := by
  unfold check at h
  split at h
  · rename_i hregistered
    have hall : ∀ known ∈ registered, isFormed (subtags known.toList) = true := by
      decide +kernel
    have htag := hall _ (List.contains_iff_mem.1 hregistered)
    rw [String.toList_ofList] at htag
    exact hasForm_of_isFormed htag
  · split at h
    · cases h
    · exact hasForm_of_checkPrivate h
    · split at h
      · cases h
      · cases h
      · cases h
      · rename_i hread
        exact hasForm_of_advanceAll hread

end LanguageTag

end GraphCriteria
