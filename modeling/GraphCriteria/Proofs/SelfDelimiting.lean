import GraphCriteria.Escaping
import GraphCriteria.Proofs.TermReader
import GraphCriteria.Proofs.Tokens

/-!
# Values that delimit themselves

The term of a value ends where its text ends, and reading the text gives the value back, whatever the
value holds.  So no value can end its term early or begin another one.

Main results:

- Theorem `Literal.readInside?_quotedChar`: each character of a lexical form is read back.
- Theorem `Term.read?_literal`: a literal is read back whole.
- Theorem `stripBrackets_bracketed`: brackets around a text are all dropped.
- Theorem `TermEscaper.read_escape`: the term of a value is read back whole.
-/

namespace GraphCriteria

open Text

/-! ## Ends of terms -/

/-- A text that ends a term: it is empty, or begins with a space, a comma or a closing bracket. -/
def EndsTerm (rest : List Char) : Prop :=
  ∀ c, rest.head? = some c → c ∈ [' ', ',', ')', ']', '\x7d', '>']

theorem EndsTerm.endsTag {rest : List Char} (h : EndsTerm rest) : EndsTag rest := by
  have hall : [' ', ',', ')', ']', '\x7d', '>'].all
      (fun c => !isAlphanumeric c && c != '-') = true := by
    decide
  exact fun c hc => by simpa using List.all_eq_true.1 hall c (h c hc)

/-! ## Lexical forms -/

namespace Literal

theorem hexValue?_upperHexDigit {n : Nat} (h : n < 16) : hexValue? (upperHexDigit n) = some n := by
  have hall : ∀ digit < 16, hexValue? (upperHexDigit digit) = some digit := by decide
  exact hall n h

/-- The four digits of a code point are read as its character. -/
theorem readInside?_fourHexDigits {c : Char} (h : c.toNat < 65536) (rest : List Char) :
    Quotes.double.readInside? (.code 3 0) (fourHexDigits c.toNat ++ rest) =
      (Quotes.double.readInside? .none rest).map (prependChar c) := by
  have hdigit : ∀ n, hexValue? (upperHexDigit (n % 16)) = some (n % 16) := fun n =>
    hexValue?_upperHexDigit (Nat.mod_lt n (by decide))
  have hcode : 16 * (16 * (16 * (c.toNat / 4096 % 16) + c.toNat / 256 % 16) +
      c.toNat / 16 % 16) + c.toNat % 16 = c.toNat := by
    omega
  have hchar : charOfCode? c.toNat = some c := by
    have hvalid : c.toNat.isValidChar := c.valid
    rw [charOfCode?, if_pos hvalid, Char.ofNat_toNat]
  simp [fourHexDigits, Quotes.readInside?, hdigit, hcode, hchar]

theorem toNat_lt_of_needsCode {c : Char} (h : needsCode c = true) : c.toNat < 65536 := by
  simp only [needsCode, Bool.or_eq_true, decide_eq_true_eq, beq_iff_eq] at h
  omega

/-- Each character of a lexical form is read back. -/
theorem readInside?_quotedChar (c : Char) (rest : List Char) :
    Quotes.double.readInside? .none (quotedChar c ++ rest) =
      (Quotes.double.readInside? .none rest).map (prependChar c) := by
  unfold quotedChar
  split
  -- seven characters have a letter
  iterate 7 exact Quotes.readInside?_double_escape rfl rest
  rename_i hfeed _ hreturn hquote hescape
  split
  · rename_i hcode
    rw [← readInside?_fourHexDigits (toNat_lt_of_needsCode hcode) rest]
    simp [Quotes.readInside?, Quotes.double]
  · exact Quotes.readInside?_double_cons hquote hescape hfeed hreturn rest

/-- What is written for a character does not begin with a double quote. -/
theorem exists_quotedChar (c : Char) : ∃ d ds, quotedChar c = d :: ds ∧ d ≠ '"' := by
  unfold quotedChar
  split
  iterate 7 exact ⟨'\\', _, rfl, by decide⟩
  rename_i hquote _
  split
  · exact ⟨'\\', _, rfl, by decide⟩
  · exact ⟨c, [], rfl, hquote⟩

/-! ## Literals -/

/-- A mark made of tokens. -/
def Mark.Legible : Mark → Prop
  | plain => True
  | language tag => LanguageTag.HasForm tag.toList
  | datatype iri => Iri.Allowed iri.toList

/-- The mark of a literal is read back. -/
theorem readMark?_append {mark : Mark} (hmark : mark.Legible) {rest : List Char}
    (hrest : EndsTerm rest) : readMark? (mark.text.toList ++ rest) = some (mark, rest) := by
  cases mark with
  | plain =>
      cases rest with
      | nil => rfl
      | cons c rest =>
          have hc := hrest c rfl
          simp only [List.mem_cons, List.not_mem_nil, or_false] at hc
          rcases hc with rfl | rfl | rfl | rfl | rfl | rfl <;> rfl
  | language tag =>
      obtain ⟨first, parts, htag, ⟨hsome, hfirst⟩, hparts⟩ := hmark
      have hread := readTag_append hfirst hparts hrest.endsTag
      rw [← htag] at hread
      have hfull : tag.toList ≠ [] := by simp [htag, hsome]
      have htext : (Mark.language tag).text.toList ++ rest = '@' :: (tag.toList ++ rest) := by
        simp [Mark.text]
      rw [htext, readMark?, hread]
      split
      · rename_i hnone
        exact absurd (Prod.mk.inj hnone).1 hfull
      · rename_i hsome
        obtain ⟨rfl, rfl⟩ := Prod.mk.inj hsome
        rw [String.ofList_toList]
  | datatype iri =>
      have htext : (Mark.datatype iri).text.toList ++ rest =
          '^' :: '^' :: '<' :: (iri.toList ++ '>' :: rest) := by
        simp [Mark.text]
      rw [htext, readMark?, readIri?_append hmark, Option.map_some, String.ofList_toList]

/-- What follows a lexical form does not begin with a quote. -/
theorem head?_mark_append (mark : Mark) {rest : List Char} (hrest : EndsTerm rest) :
    (mark.text.toList ++ rest).head? ≠ some '"' := by
  cases mark with
  | plain =>
      intro hquote
      have := hrest '"' (by simpa [Mark.text] using hquote)
      exact absurd this (by decide)
  | language tag => simp [Mark.text]
  | datatype iri => simp [Mark.text]

end Literal

/-- A literal is read back whole. -/
theorem Term.read?_literal (lexical : String) {mark : Literal.Mark} (hmark : mark.Legible)
    {rest : List Char} (hrest : EndsTerm rest) :
    Term.read? ((Literal.text lexical mark).toList ++ rest) =
      some (.literal lexical mark, rest) := by
  have htext : (Literal.text lexical mark).toList ++ rest =
      '"' :: (lexical.toList.flatMap Literal.quotedChar ++ '"' :: (mark.text.toList ++ rest)) := by
    simp [Literal.text, Literal.quoted]
  have hstring := readString?_flatMap Literal.readInside?_quotedChar Literal.exists_quotedChar
    lexical.toList fun _ => Literal.head?_mark_append mark hrest
  simp [htext, Term.read?, hstring, Literal.readMark?_append hmark hrest, String.ofList_toList]

/-- A value without a language is marked legibly. -/
theorem legible_markOf (value : String) : (markOf value).Legible := by
  have hall : ∀ datatype : Datatype, ∀ c ∈ datatype.iri.toList, isIriChar c = true := by
    intro datatype
    rw [← List.all_eq_true]
    cases datatype <;> decide +kernel
  unfold markOf
  split
  · exact hall _
  · trivial

/-! ## References -/

/-- A text with so many brackets before and after it. -/
def bracketed (opening closing : Nat) (text : String) : String :=
  String.ofList (List.replicate opening '<' ++ text.toList ++ List.replicate closing '>')

theorem toList_bracketed (opening closing : Nat) (text : String) :
    (bracketed opening closing text).toList =
      List.replicate opening '<' ++ text.toList ++ List.replicate closing '>' :=
  String.toList_ofList

/-- Brackets around a text are all dropped. -/
theorem stripBrackets_bracketed (opening closing : Nat) (text : String) :
    stripBrackets (bracketed opening closing text).toList = stripBrackets text.toList := by
  have hopening : ((bracketed opening closing text).toList).dropWhile (· == '<') =
      text.toList.dropWhile (· == '<') ++ List.replicate closing '>' := by
    rw [toList_bracketed, List.append_assoc,
      List.dropWhile_append_of_pos fun c hc => by simp [List.eq_of_mem_replicate hc],
      List.dropWhile_append]
    split
    · rename_i hnone
      rw [List.isEmpty_iff.1 hnone, List.nil_append, List.dropWhile_replicate]
      rfl
    · rfl
  rw [stripBrackets, hopening, List.reverse_append, List.reverse_replicate,
    List.dropWhile_append_of_pos fun c hc => by simp [List.eq_of_mem_replicate hc], stripBrackets]

/-- A text is what is left of it with the brackets around it. -/
theorem exists_eq_bracketed (value : String) :
    ∃ opening closing,
      value = bracketed opening closing (String.ofList (stripBrackets value.toList)) := by
  have hrun : ∀ (bracket : Char) (cs : List Char), ∃ n,
      cs.takeWhile (· == bracket) = List.replicate n bracket := by
    intro bracket cs
    refine ⟨_, List.eq_replicate_of_mem fun c hc => ?_⟩
    simpa using List.all_eq_true.1 (List.all_takeWhile (p := (· == bracket))) c hc
  obtain ⟨opening, hopening⟩ := hrun '<' value.toList
  obtain ⟨closing, hclosing⟩ := hrun '>' (value.toList.dropWhile (· == '<')).reverse
  refine ⟨opening, closing, String.toList_inj.1 ?_⟩
  calc value.toList
      = value.toList.takeWhile (· == '<') ++ value.toList.dropWhile (· == '<') :=
        List.takeWhile_append_dropWhile.symm
    _ = List.replicate opening '<' ++ (value.toList.dropWhile (· == '<')).reverse.reverse := by
        rw [hopening, List.reverse_reverse]
    _ = List.replicate opening '<' ++
          (stripBrackets value.toList ++ List.replicate closing '>') := by
        rw [← List.takeWhile_append_dropWhile (p := (· == '>'))
          (l := (value.toList.dropWhile (· == '<')).reverse), hclosing, List.reverse_append,
          List.reverse_replicate, stripBrackets]
    _ = (bracketed opening closing (String.ofList (stripBrackets value.toList))).toList := by
        rw [toList_bracketed, String.toList_ofList, List.append_assoc]

/-- Nothing is dropped from an IRI. -/
theorem stripBrackets_eq_self {iri : List Char} (h : Iri.Allowed iri) : stripBrackets iri = iri := by
  have hdrop : ∀ {bracket : Char} {cs : List Char}, isIriChar bracket = false → Iri.Allowed cs →
      cs.dropWhile (· == bracket) = cs := by
    intro bracket cs hbracket hcs
    cases cs with
    | nil => rfl
    | cons c cs =>
        have hc : c ≠ bracket := by
          rintro rfl
          rw [hcs c List.mem_cons_self] at hbracket
          cases hbracket
        simp [hc]
  have hreverse : Iri.Allowed iri.reverse := fun c hc => h c (List.mem_reverse.1 hc)
  rw [stripBrackets, hdrop (by decide) h, hdrop (by decide) hreverse, List.reverse_reverse]

theorem referenceText_ok {value text : String} (h : referenceText value = .ok text) :
    Iri.check (stripBrackets value.toList) = .ok () ∧
      text = bracketed 1 1 (String.ofList (stripBrackets value.toList)) := by
  unfold referenceText at h
  dsimp only at h
  split at h
  · rename_i hcheck
    cases h
    refine ⟨hcheck, String.toList_inj.1 ?_⟩
    simp [toList_bracketed]
  · cases h

/-- The reference of a value does not depend on the brackets around it. -/
theorem referenceText_bracketed (opening closing : Nat) (value : String) :
    referenceText (bracketed opening closing value) = referenceText value := by
  unfold referenceText
  rw [stripBrackets_bracketed]

/-! ## Escapers -/

namespace TermEscaper

/-- The term that a value of a field stands for: the IRI between its brackets, or else a literal with
its language in lower case, or with the datatype that it reads as. -/
def termOf (escaper : TermEscaper) (field value : String) (language : Option String) : Term :=
  if escaper.isReference field then .iri (String.ofList (stripBrackets value.toList))
  else
    .literal value
      (match language with
      | some language => .language language.toLower
      | none => markOf value)

variable {escaper : TermEscaper} {field value text : String} {language : Option String}

/-- The text of a reference is an IRI between brackets. -/
theorem referenceText_of_escape (hreference : escaper.isReference field = true)
    (h : escaper.escape field value language = .ok text) : referenceText value = .ok text := by
  simp only [escape, hreference, if_true] at h
  split at h
  · rename_i found hfound
    cases h
    exact hfound
  · cases h

/-- The text of any other value is a literal whose mark is legible. -/
theorem exists_mark_of_escape (hliteral : escaper.isReference field = false)
    (h : escaper.escape field value language = .ok text) :
    ∃ mark : Literal.Mark, mark.Legible ∧ text = Literal.text value mark ∧
      escaper.termOf field value language = .literal value mark := by
  simp only [escape, hliteral, Bool.false_eq_true, if_false] at h
  cases language with
  | none =>
      cases h
      exact ⟨markOf value, legible_markOf value, rfl, by simp [termOf, hliteral]⟩
  | some language =>
      simp only at h
      split at h
      · rename_i tag htag
        cases h
        unfold LanguageTag.ofText at htag
        dsimp only at htag
        split at htag
        · rename_i hcheck
          cases htag
          have hlower : language.toLower = String.ofList (language.toList.map Char.toLower) := by
            change language.map Char.toLower = _
            rw [← String.toList_inj, String.toList_map, String.toList_ofList]
          refine ⟨_, ?_, rfl, by simp [termOf, hliteral, hlower]⟩
          rw [Literal.Mark.Legible, String.toList_ofList]
          exact LanguageTag.hasForm_of_check hcheck
        · cases htag
      · cases h

/-- The term of a value is read back whole. -/
theorem read?_escape (h : escaper.escape field value language = .ok text) {rest : List Char}
    (hrest : EndsTerm rest) :
    Term.read? (text.toList ++ rest) = some (escaper.termOf field value language, rest) := by
  by_cases hreference : escaper.isReference field = true
  · obtain ⟨hcheck, rfl⟩ := referenceText_ok (referenceText_of_escape hreference h)
    have hread := readIri?_append (Iri.allowed_of_check hcheck) rest
    simp [toList_bracketed, Term.read?, hread, termOf, hreference]
  · rw [Bool.not_eq_true] at hreference
    obtain ⟨mark, hmark, rfl, hterm⟩ := exists_mark_of_escape hreference h
    rw [Term.read?_literal value hmark hrest, hterm]

/-- The reference of a value does not depend on its language, nor on the brackets around it. -/
theorem escape_reference (hreference : escaper.isReference field = true) {other : String}
    (hother : referenceText other = .ok text) (language : Option String) :
    escaper.escape field other language = .ok text := by
  simp only [escape, hreference, if_true, hother]

/-- The text of a value is one term, which ends where the text ends, whatever may follow a term, and is
the term that the value stands for.  A reference is the IRI that is left of the value without the
brackets around it; more brackets, those of the text itself among them, change nothing.  So the texts of
two values, with more after them, are the same only if the terms are. -/
theorem read_escape (h : escaper.escape field value language = .ok text) :
    (∀ rest, EndsTerm rest →
      Term.read? (text.toList ++ rest) = some (escaper.termOf field value language, rest)) ∧
    (escaper.isReference field = true → ∃ iri opening closing,
      value = bracketed opening closing iri ∧ Iri.Allowed iri.toList ∧ text = bracketed 1 1 iri ∧
        ∀ opening closing other,
          escaper.escape field (bracketed opening closing value) other = .ok text ∧
          escaper.escape field text other = .ok text) ∧
    ∀ field' value' language' text' rest rest',
      escaper.escape field' value' language' = .ok text' → EndsTerm rest → EndsTerm rest' →
        text.toList ++ rest = text'.toList ++ rest' →
          text = text' ∧ rest = rest' ∧
            escaper.termOf field value language = escaper.termOf field' value' language' := by
  refine ⟨fun rest hrest => read?_escape h hrest, fun hreference => ?_, ?_⟩
  · have htext := referenceText_of_escape hreference h
    obtain ⟨hcheck, hbracketed⟩ := referenceText_ok htext
    have hallowed := Iri.allowed_of_check hcheck
    obtain ⟨opening, closing, hvalue⟩ := exists_eq_bracketed value
    refine ⟨_, opening, closing, hvalue, by rwa [String.toList_ofList], hbracketed, ?_⟩
    -- The text is its own reference, as an IRI keeps all of its characters.
    have hagain : referenceText text = .ok text := by
      rw [← htext, hbracketed, referenceText_bracketed]
      unfold referenceText
      rw [String.toList_ofList, stripBrackets_eq_self hallowed]
    intro opening closing other
    refine ⟨escape_reference hreference ?_ other, escape_reference hreference hagain other⟩
    rw [referenceText_bracketed, htext]
  · intro field' value' language' text' rest rest' h' hrest hrest' heq
    have hread := read?_escape h hrest
    rw [heq, read?_escape h' hrest'] at hread
    obtain ⟨hterm, rfl⟩ := Prod.mk.inj (Option.some.inj hread)
    exact ⟨String.toList_inj.1 (List.append_cancel_right heq), rfl, hterm.symm⟩

end TermEscaper

/-- Values of authors are references. -/
def Sample.terms : TermEscaper :=
  ⟨StringSet.ofList ["author"]⟩

/-- A value with a quote, the escape of a letter and a delete character, before another triple; a value
in a language that is given in capitals, before another value; and an author with one bracket too many,
before a closing bracket. -/
theorem TermEscaper.read_samples :
    Term.read? ("\"a\\\"b\\\\u0041\\u007F\"".toList ++ " . ?x ?y 'z'".toList) =
        some (.literal "a\"b\\u0041\x7f" .plain, " . ?x ?y 'z'".toList) ∧
      Term.read? ("\"12\"@en-gb".toList ++ ", \"13\"".toList) =
        some (.literal "12" (.language "en-gb"), ", \"13\"".toList) ∧
      Term.read? ("<http://a/b>".toList ++ ")".toList) = some (.iri "http://a/b", ")".toList) ∧
      Sample.terms.escape "author" (bracketed 3 1 "<http://a/b>>") (some "en") =
        .ok "<http://a/b>" ∧
      Sample.terms.escape "author" "<http://a/b>" none = .ok "<http://a/b>" ∧
      Sample.terms.termOf "author" "<http://a/b>>" none =
        Sample.terms.termOf "author" "http://a/b" none := by
  have hquote : Sample.terms.escape "title" "a\"b\\u0041\x7f" none =
      .ok "\"a\\\"b\\\\u0041\\u007F\"" :=
    eq_ok_of_toOption (by decide +kernel)
  have hlanguage : Sample.terms.escape "title" "12" (some "EN-gb") = .ok "\"12\"@en-gb" :=
    eq_ok_of_toOption (by decide +kernel)
  have hauthor : Sample.terms.escape "author" "<http://a/b>>" none = .ok "<http://a/b>" :=
    eq_ok_of_toOption (by decide +kernel)
  have hbare : Sample.terms.escape "author" "http://a/b" none = .ok "<http://a/b>" :=
    eq_ok_of_toOption (by decide +kernel)
  have hterms : Sample.terms.termOf "title" "a\"b\\u0041\x7f" none =
        .literal "a\"b\\u0041\x7f" .plain ∧
      Sample.terms.termOf "title" "12" (some "EN-gb") = .literal "12" (.language "en-gb") ∧
      Sample.terms.termOf "author" "<http://a/b>>" none = .iri "http://a/b" := by
    decide +kernel
  obtain ⟨hfirst, hsecond, hthird⟩ := hterms
  have hreference : Sample.terms.isReference "author" = true := by decide +kernel
  obtain ⟨hread, hbrackets, hsame⟩ := read_escape hauthor
  obtain ⟨_, _, _, _, _, _, hagain⟩ := hbrackets hreference
  refine ⟨hfirst ▸ ?_, hsecond ▸ ?_, hthird ▸ ?_, ?_, ?_, ?_⟩
  · exact (read_escape hquote).1 _ (by simp [EndsTerm])
  · exact (read_escape hlanguage).1 _ (by simp [EndsTerm])
  · exact hread _ (by simp [EndsTerm])
  · exact (hagain 3 1 (some "en")).1
  · exact (hagain 0 0 none).2
  · exact (hsame "author" "http://a/b" none _ [] [] hbare (by simp [EndsTerm])
      (by simp [EndsTerm]) rfl).2.2

end GraphCriteria
