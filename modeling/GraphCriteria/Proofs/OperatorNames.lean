import GraphCriteria.Operator.Name
import Mathlib.Data.List.Forall2

/-!
# The names that operators go by

An operator goes by the words of its name, each in any ASCII letter case, with blanks between them
and any blanks around them.  Every other text is unknown: one with a blank inside a word, and one
with a letter that only other scripts count as the same.

Main definitions:

- Definition `Text.Spread`: words in a row, with blanks between them and after the last.
- Definition `Operator.SpelledBy`: the texts that spell an operator.

Main results:

- Theorem `Text.words_eq_iff`: the words of a text are those that are spread over it.
- Theorem `Text.length_words_gap`: a gap inside a word makes two words of it.
- Theorem `Operator.ofName_eq_ok_iff`: a text names the operator that it spells.
- Theorem `Operator.ofName_spelling`: what each text names, and which texts name nothing.
-/

namespace GraphCriteria

namespace Text

/-! ## Words spread over a text -/

/-- A text of blank characters only. -/
def AllBlank (cs : List Char) : Prop :=
  ∀ c ∈ cs, isBlank c = true

/-- A word: some characters, none of them blank. -/
def IsWord (w : List Char) : Prop :=
  w ≠ [] ∧ ∀ c ∈ w, isBlank c = false

/-- Words in a row, each followed by blanks, of which there is at least one before another word. -/
inductive Spread : List (List Char) → List Char → Prop where
  | nil : Spread [] []
  | cons {w gap cs : List Char} {ws : List (List Char)} (hgap : AllBlank gap)
      (hnext : ws ≠ [] → gap ≠ []) (h : Spread ws cs) : Spread (w :: ws) (w ++ gap ++ cs)

theorem AllBlank.cons {c : Char} {cs : List Char} (hc : isBlank c = true) (h : AllBlank cs) :
    AllBlank (c :: cs) :=
  List.forall_mem_cons.2 ⟨hc, h⟩

/-- Leading blanks add nothing to the words. -/
theorem words_append_of_allBlank {gap : List Char} (h : AllBlank gap) (cs : List Char) :
    words (gap ++ cs) = words cs := by
  induction gap with
  | nil => rfl
  | cons c gap ih =>
      obtain ⟨hc, hgap⟩ := List.forall_mem_cons.1 h
      rw [List.cons_append, words_cons_blank hc, ih hgap]

theorem runAndWords_cons_blank {c : Char} (h : isBlank c = true) (cs : List Char) :
    runAndWords (c :: cs) = ([], words cs) := by
  rw [runAndWords, h]
  rfl

theorem runAndWords_cons_of_not_blank {c : Char} (h : isBlank c = false) (cs : List Char) :
    runAndWords (c :: cs) = (c :: (runAndWords cs).1, (runAndWords cs).2) := by
  rw [runAndWords, h]
  rfl

theorem runAndWords_word_append {w : List Char} (hw : ∀ c ∈ w, isBlank c = false)
    (cs : List Char) :
    runAndWords (w ++ cs) = (w ++ (runAndWords cs).1, (runAndWords cs).2) := by
  induction w with
  | nil => rfl
  | cons c w ih =>
      obtain ⟨hc, hw⟩ := List.forall_mem_cons.1 hw
      rw [List.cons_append, runAndWords_cons_of_not_blank hc, ih hw]
      rfl

/-- A word is whole where the text ends or a blank follows. -/
theorem words_word_append {w gap cs : List Char} (hw : IsWord w) (hgap : AllBlank gap)
    (hnext : gap ≠ [] ∨ cs = []) : words (w ++ gap ++ cs) = w :: words cs := by
  have hrest : runAndWords (gap ++ cs) = ([], words cs) := by
    cases gap with
    | nil =>
        obtain rfl : cs = [] := hnext.resolve_left (fun h => h rfl)
        rfl
    | cons c gap =>
        obtain ⟨hc, hgap⟩ := List.forall_mem_cons.1 hgap
        rw [List.cons_append, runAndWords_cons_blank hc, words_append_of_allBlank hgap]
  rw [words, List.append_assoc, runAndWords_word_append hw.2, hrest, List.append_nil, consWord,
    if_neg hw.1]

/-- Words are found where they are spread. -/
theorem Spread.words_eq {ws : List (List Char)} {cs : List Char} (h : Spread ws cs)
    (hws : ∀ w ∈ ws, IsWord w) : words cs = ws := by
  induction h with
  | nil => rfl
  | @cons w gap cs ws hgap hnext h ih =>
      obtain ⟨hw, hws⟩ := List.forall_mem_cons.1 hws
      have hend : gap ≠ [] ∨ cs = [] := by
        by_cases hlast : ws = []
        · subst hlast
          cases h
          exact .inr rfl
        · exact .inl (hnext hlast)
      rw [words_word_append hw hgap hend, ih hws]

/-- After its first run, a text goes on with blanks, and then its words are spread. -/
theorem exists_spread_runAndWords (cs : List Char) :
    ∃ gap body, cs = (runAndWords cs).1 ++ gap ++ body ∧ AllBlank gap ∧
      ((runAndWords cs).2 ≠ [] → gap ≠ []) ∧ Spread (runAndWords cs).2 body := by
  induction cs with
  | nil => exact ⟨[], [], rfl, by simp [AllBlank], fun h => absurd rfl h, .nil⟩
  | cons c cs ih =>
      obtain ⟨gap, body, hcs, hgap, hnext, hbody⟩ := ih
      cases hc : isBlank c with
      | false =>
          rw [runAndWords_cons_of_not_blank hc]
          exact ⟨gap, body, by rw [List.cons_append, List.cons_append, ← hcs], hgap, hnext, hbody⟩
      | true =>
          rw [runAndWords_cons_blank hc, words, consWord]
          by_cases hrun : (runAndWords cs).1 = []
          · rw [if_pos hrun]
            rw [hrun] at hcs
            exact ⟨c :: gap, body, congrArg (c :: ·) hcs, hgap.cons hc, by simp, hbody⟩
          · rw [if_neg hrun]
            have hone : AllBlank [c] := by simpa [AllBlank] using hc
            have hspread := Spread.cons (w := (runAndWords cs).1) hgap hnext hbody
            rw [← hcs] at hspread
            exact ⟨[c], cs, rfl, hone, by simp, hspread⟩

/-- The words of a text are those that are spread over it, after some blanks. -/
theorem words_eq_iff {ws : List (List Char)} (hws : ∀ w ∈ ws, IsWord w) {cs : List Char} :
    words cs = ws ↔ ∃ before body, cs = before ++ body ∧ AllBlank before ∧ Spread ws body := by
  constructor
  · rintro rfl
    obtain ⟨gap, body, hcs, hgap, hnext, hbody⟩ := exists_spread_runAndWords cs
    rw [words, consWord]
    by_cases hrun : (runAndWords cs).1 = []
    · rw [if_pos hrun]
      rw [hrun] at hcs
      exact ⟨gap, body, hcs, hgap, hbody⟩
    · rw [if_neg hrun]
      have hspread := Spread.cons (w := (runAndWords cs).1) hgap hnext hbody
      rw [← hcs] at hspread
      exact ⟨[], cs, rfl, by simp [AllBlank], hspread⟩
  · rintro ⟨before, body, rfl, hbefore, hbody⟩
    rw [words_append_of_allBlank hbefore, hbody.words_eq hws]

theorem isWord_of_mem_words {w cs : List Char} (h : w ∈ words cs) : IsWord w :=
  ⟨ne_nil_of_mem_words h, isBlank_of_mem_words h⟩

/-- The words of a text have its characters, without the blanks. -/
theorem flatten_words (cs : List Char) :
    (words cs).flatten = cs.filter fun c => !isBlank c := by
  have hcons : ∀ run rest, (consWord run rest).flatten = run ++ rest.flatten := by
    intro run rest
    by_cases hrun : run = [] <;> simp [consWord, hrun]
  rw [words, hcons]
  induction cs with
  | nil => rfl
  | cons c cs ih =>
      cases hc : isBlank c with
      | false =>
          rw [runAndWords_cons_of_not_blank hc, List.filter_cons_of_pos (by simp [hc]), ← ih]
          rfl
      | true =>
          rw [runAndWords_cons_blank hc, List.filter_cons_of_neg (by simp [hc]), ← ih, words, hcons]
          rfl

/-- A gap inside a word makes two words of it. -/
theorem length_words_gap {c d : Char} (hc : isBlank c = false) (hd : isBlank d = false)
    {gap : List Char} (hne : gap ≠ []) (hgap : AllBlank gap) (before after : List Char) :
    (words (before ++ c :: (gap ++ d :: after))).length =
      (words (before ++ c :: d :: after)).length + 1 := by
  -- Before the gap, the two texts have runs in the same places.
  have hruns : ∀ before : List Char,
      ((runAndWords (before ++ c :: (gap ++ d :: after))).1 = [] ↔
        (runAndWords (before ++ c :: d :: after)).1 = []) ∧
      (runAndWords (before ++ c :: (gap ++ d :: after))).2.length =
        (runAndWords (before ++ c :: d :: after)).2.length + 1 := by
    intro before
    induction before with
    | nil =>
        obtain ⟨b, gap, rfl⟩ := List.exists_cons_of_ne_nil hne
        obtain ⟨hb, hgap⟩ := List.forall_mem_cons.1 hgap
        have hrest : runAndWords (c :: (b :: gap ++ d :: after)) = ([c], words (d :: after)) := by
          rw [runAndWords_cons_of_not_blank hc, List.cons_append, runAndWords_cons_blank hb,
            words_append_of_allBlank hgap]
        rw [List.nil_append, List.nil_append, hrest]
        simp [runAndWords_cons_of_not_blank, hc, hd, words, consWord]
    | cons e before ih =>
        cases he : isBlank e with
        | false => simpa [runAndWords_cons_of_not_blank he] using ih.2
        | true =>
            simp only [List.cons_append, runAndWords_cons_blank he, words, consWord, true_and]
            by_cases hrun : (runAndWords (before ++ c :: d :: after)).1 = []
            · rw [if_pos hrun, if_pos (ih.1.2 hrun), ih.2]
            · rw [if_neg hrun, if_neg (mt ih.1.1 hrun), List.length_cons, List.length_cons, ih.2]
  have h := (hruns (' ' :: before)).2
  have hspace : isBlank ' ' = true := by decide
  rwa [List.cons_append, List.cons_append, runAndWords_cons_blank hspace,
    runAndWords_cons_blank hspace] at h

/-! ## Letter case -/

/-- The small ASCII letters with their capitals. -/
def letterPairs : List (Char × Char) :=
  "abcdefghijklmnopqrstuvwxyz".toList.zip "ABCDEFGHIJKLMNOPQRSTUVWXYZ".toList

/-- Two characters that are the same, or the same ASCII letter in two cases. -/
def SameLetter (c d : Char) : Prop :=
  c = d ∨ (c, d) ∈ letterPairs ∨ (d, c) ∈ letterPairs

theorem mem_letterPairs_iff {small capital : Char} :
    (small, capital) ∈ letterPairs ↔
      97 ≤ small.toNat ∧ small.toNat ≤ 122 ∧ small.toNat = capital.toNat + 32 := by
  have hpairs : letterPairs.all (fun p =>
      97 ≤ p.1.toNat ∧ p.1.toNat ≤ 122 ∧ p.1.toNat = p.2.toNat + 32) = true := by
    decide +kernel
  have hletters : ∀ n < 26, (Char.ofNat (97 + n), Char.ofNat (65 + n)) ∈ letterPairs := by
    decide +kernel
  constructor
  · intro h
    simpa using List.all_eq_true.1 hpairs (small, capital) h
  · rintro ⟨hlow, hhigh, heq⟩
    have h := hletters (small.toNat - 97) (by omega)
    rwa [show 97 + (small.toNat - 97) = small.toNat by omega,
      show 65 + (small.toNat - 97) = capital.toNat by omega, Char.ofNat_toNat,
      Char.ofNat_toNat] at h

theorem toNat_toUpper (c : Char) :
    c.toUpper.toNat =
      if 97 ≤ c.toNat ∧ c.toNat ≤ 122 then c.toNat - 32 else c.toNat := by
  have hle : ('a'.val ≤ c.val ∧ c.val ≤ 'z'.val) ↔ (97 ≤ c.toNat ∧ c.toNat ≤ 122) := by
    rw [UInt32.le_iff_toNat_le, UInt32.le_iff_toNat_le]
    rfl
  change (dite ('a'.val ≤ c.val ∧ c.val ≤ 'z'.val) _ _ : Char).toNat = _
  by_cases h : 97 ≤ c.toNat ∧ c.toNat ≤ 122
  · have hsum : (c.val + ('A'.val - 'a'.val)).toNat = (c.toNat + 4294967264) % 4294967296 :=
      UInt32.toNat_add _ _
    rw [dif_pos (hle.2 h), if_pos h]
    change (c.val + ('A'.val - 'a'.val)).toNat = _
    omega
  · rw [dif_neg (mt hle.1 h), if_neg h]

/-- Two characters are the same up to ASCII case if their capitals are the same. -/
theorem sameLetter_iff {c d : Char} : SameLetter c d ↔ c.toUpper = d.toUpper := by
  rw [SameLetter, mem_letterPairs_iff, mem_letterPairs_iff, ← Char.toNat_inj, ← Char.toNat_inj,
    toNat_toUpper, toNat_toUpper]
  split <;> split <;> omega

/-- Capitals are blank where small letters are: never. -/
theorem isBlank_toUpper (c : Char) : isBlank c.toUpper = isBlank c := by
  rw [Bool.eq_iff_iff]
  simp only [isBlank, toNat_toUpper, Bool.or_eq_true, Bool.and_eq_true, decide_eq_true_eq,
    beq_iff_eq]
  split <;> omega

/-- A word in upper case is a word, and was one before. -/
theorem isWord_toUpper_iff {w : List Char} : IsWord (w.map Char.toUpper) ↔ IsWord w := by
  simp [IsWord, isBlank_toUpper]

/-- Lists that agree item by item under a function are images under it. -/
theorem forall₂_iff_map_eq {α β : Type} {R : α → β → Prop} {f : α → β} {as : List α} {bs : List β}
    (h : ∀ b ∈ bs, ∀ a, R a b ↔ f a = b) : List.Forall₂ R as bs ↔ as.map f = bs := by
  induction bs generalizing as with
  | nil => simp
  | cons b bs ih =>
      obtain ⟨hb, hbs⟩ := List.forall_mem_cons.1 h
      cases as with
      | nil => simp
      | cons a as => rw [List.forall₂_cons, hb, ih hbs, List.map_cons, List.cons.injEq]

/-- Words with single spaces between them. -/
theorem spread_intercalate (ws : List (List Char)) : Spread ws (List.intercalate [' '] ws) := by
  have hspace : AllBlank [' '] := by simp [AllBlank, isBlank]
  induction ws with
  | nil => exact .nil
  | cons w ws ih =>
      cases ws with
      | nil =>
          have hnone : AllBlank [] := by simp [AllBlank]
          simpa using Spread.cons (w := w) hnone (by simp) .nil
      | cons v ws =>
          rw [List.intercalate_cons_cons]
          exact .cons hspace (by simp) ih

theorem map_intercalate_space (ws : List (List Char)) :
    (List.intercalate [' '] ws).map Char.toUpper =
      List.intercalate [' '] (ws.map (List.map Char.toUpper)) := by
  induction ws with
  | nil => rfl
  | cons w ws ih =>
      cases ws with
      | nil => simp
      | cons v ws =>
          have hspace : [' '].map Char.toUpper = [' '] := by decide
          rw [List.intercalate_cons_cons, List.map_append, List.map_append, ih, hspace,
            List.map_cons, List.map_cons, List.map_cons, List.intercalate_cons_cons]

/-- Different words are joined to different texts. -/
theorem intercalate_space_inj {ws vs : List (List Char)} (hws : ∀ w ∈ ws, IsWord w)
    (hvs : ∀ v ∈ vs, IsWord v) :
    List.intercalate [' '] ws = List.intercalate [' '] vs ↔ ws = vs := by
  refine ⟨fun h => ?_, congrArg _⟩
  rw [← (spread_intercalate ws).words_eq hws, h, (spread_intercalate vs).words_eq hvs]

end Text

/-! ## Names of operators -/

namespace Operator

open Text

/-- The words of the name of an operator. -/
def nameWords : Operator → List String
  | notIn => ["NOT", "IN"]
  | notLike => ["NOT", "LIKE"]
  | absent => ["NOT", "EXISTS"]
  | op => [op.symbol]

/-- The texts that spell an operator: blanks, if any, and then the words of its name, in order and
in whatever letter case, with blanks between them and maybe after them. -/
def SpelledBy (op : Operator) (text : String) : Prop :=
  ∃ before body spelled, text.toList = before ++ body ∧ AllBlank before ∧ Spread spelled body ∧
    List.Forall₂ (List.Forall₂ SameLetter) spelled (op.nameWords.map String.toList)

/-- The words are those of the name, which has single spaces between them. -/
theorem toList_symbol (op : Operator) :
    op.symbol.toList = List.intercalate [' '] (op.nameWords.map String.toList) := by
  cases op <;> decide +kernel

/-- Names consist of words without small letters and with nothing but ASCII. -/
theorem isWord_nameWords {op : Operator} {w : List Char}
    (hw : w ∈ op.nameWords.map String.toList) :
    IsWord w ∧ ∀ c ∈ w, c.toUpper = c ∧ c.toNat < 128 := by
  have hall : (op.nameWords.map String.toList).all (fun w => w ≠ [] && w.all fun c =>
      !isBlank c && c.toUpper = c && c.toNat < 128) = true := by
    cases op <;> decide +kernel
  have h := List.all_eq_true.1 hall w hw
  simp only [Bool.and_eq_true, decide_eq_true_eq, List.all_eq_true, Bool.not_eq_true'] at h
  exact ⟨⟨h.1, fun c hc => (h.2 c hc).1.1⟩, fun c hc => ⟨(h.2 c hc).1.2, (h.2 c hc).2⟩⟩

/-- Two operators never have the same letters. -/
theorem flatten_nameWords_injective {op other : Operator}
    (h : (op.nameWords.map String.toList).flatten = (other.nameWords.map String.toList).flatten) :
    op = other := by
  cases op <;> cases other <;> first | rfl | simp [nameWords, symbol] at h

theorem named?_eq_some_iff {text : String} {op : Operator} :
    named? text = some op ↔ op.symbol = normalName text := by
  refine ⟨symbol_eq_of_named?, fun h => ?_⟩
  cases hnamed : named? text with
  | none =>
      have hne := List.find?_eq_none.1 hnamed op (mem_all op)
      exact absurd h (by simpa using hne)
  | some found => rw [symbol_injective ((symbol_eq_of_named? hnamed).trans h.symm)]

/-- A text that names no operator is reported as it stands. -/
theorem ofName_eq_error_iff {text : String} {e : ConditionError} :
    ofName text = .error e ↔ e = .unknownOperator text ∧ ∀ op, ofName text ≠ .ok op := by
  unfold ofName
  cases named? text with
  | none => simp [eq_comm]
  | some op => simp

/-- A text names the operator whose name its words make in upper case. -/
theorem ofName_eq_ok_iff_words {text : String} {op : Operator} :
    ofName text = .ok op ↔
      (words text.toList).map (List.map Char.toUpper) = op.nameWords.map String.toList := by
  have hwords : ∀ w ∈ (words text.toList).map (List.map Char.toUpper), IsWord w := by
    intro w hw
    obtain ⟨v, hv, rfl⟩ := List.mem_map.1 hw
    exact isWord_toUpper_iff.2 (isWord_of_mem_words hv)
  calc ofName text = .ok op ↔ named? text = some op := by
        unfold ofName
        cases named? text <;> simp
    _ ↔ op.symbol.toList = (normalName text).toList := by
        rw [named?_eq_some_iff, String.toList_inj]
    _ ↔ _ := by
        rw [toList_symbol, normalName, String.toList_ofList, map_intercalate_space,
          intercalate_space_inj (fun w hw => (isWord_nameWords hw).1) hwords, eq_comm]

/-- Words are those of a name in some letter case if they are its words in upper case. -/
theorem recased_iff {ws : List (List Char)} {op : Operator} :
    List.Forall₂ (List.Forall₂ SameLetter) ws (op.nameWords.map String.toList) ↔
      ws.map (List.map Char.toUpper) = op.nameWords.map String.toList := by
  refine forall₂_iff_map_eq fun w hw v => forall₂_iff_map_eq fun d hd c => ?_
  rw [sameLetter_iff, ((isWord_nameWords hw).2 d hd).1]

/-- A text names the operator that it spells. -/
theorem ofName_eq_ok_iff {text : String} {op : Operator} :
    ofName text = .ok op ↔ op.SpelledBy text := by
  rw [ofName_eq_ok_iff_words]
  constructor
  · intro h
    obtain ⟨before, body, htext, hbefore, hbody⟩ :=
      (words_eq_iff fun w hw => isWord_of_mem_words hw).1 (rfl : words text.toList = _)
    exact ⟨before, body, _, htext, hbefore, hbody, recased_iff.2 h⟩
  · rintro ⟨before, body, spelled, htext, hbefore, hbody, h⟩
    have hupper := recased_iff.1 h
    have hspelled : ∀ w ∈ spelled, IsWord w := by
      intro w hw
      have hmem := List.mem_map_of_mem (f := List.map Char.toUpper) hw
      rw [hupper] at hmem
      exact isWord_toUpper_iff.1 (isWord_nameWords hmem).1
    rw [(words_eq_iff hspelled).2 ⟨before, body, htext, hbefore, hbody⟩, hupper]

/-- A text that names an operator has its letters, in some case. -/
theorem upper_letters_of_ofName {text : String} {op : Operator} (h : ofName text = .ok op) :
    (text.toList.filter fun c => !isBlank c).map Char.toUpper =
      (op.nameWords.map String.toList).flatten := by
  rw [← flatten_words, ← ofName_eq_ok_iff_words.1 h, List.map_flatten]

/-- A gap inside a word is not accepted. -/
theorem ofName_gap_ne_ok {op other : Operator} {before after gap : List Char} {c d : Char}
    (hop : ofName (String.ofList (before ++ c :: d :: after)) = .ok op) (hc : isBlank c = false)
    (hd : isBlank d = false) (hne : gap ≠ []) (hgap : AllBlank gap) :
    ofName (String.ofList (before ++ c :: (gap ++ d :: after))) ≠ .ok other := by
  intro hother
  have hfilter : gap.filter (fun c => !isBlank c) = [] :=
    List.filter_eq_nil_iff.2 fun c hc => by simp [hgap c hc]
  -- The gap leaves the letters as they are, so it could only be the same operator.
  obtain rfl : op = other := by
    apply flatten_nameWords_injective
    rw [← upper_letters_of_ofName hop, ← upper_letters_of_ofName hother, String.toList_ofList,
      String.toList_ofList]
    simp [hfilter, List.filter_cons]
  have hlength := length_words_gap hc hd hne hgap before after
  have hwords := (ofName_eq_ok_iff_words.1 hop).trans (ofName_eq_ok_iff_words.1 hother).symm
  have hsame := congrArg List.length hwords
  rw [String.toList_ofList, String.toList_ofList, List.length_map, List.length_map] at hsame
  omega

/-- The letters of a text that names an operator are ASCII. -/
theorem toNat_lt_of_ofName {text : String} {op : Operator} (h : ofName text = .ok op) {c : Char}
    (hmem : c ∈ text.toList) (hc : isBlank c = false) : c.toNat < 128 := by
  have hletter : c.toUpper ∈ (op.nameWords.map String.toList).flatten := by
    rw [← upper_letters_of_ofName h]
    exact List.mem_map_of_mem (List.mem_filter.2 ⟨hmem, by simp [hc]⟩)
  obtain ⟨w, hw, hcw⟩ := List.mem_flatten.1 hletter
  have hlt := ((isWord_nameWords hw).2 _ hcw).2
  rw [toNat_toUpper] at hlt
  split at hlt <;> omega

/-- A text names an operator exactly if it spells it: blanks, the words of the name in order and in
any ASCII letter case with blanks between them, and blanks again, with nothing else.  Every other
text is reported as it stands.  So no text spells two operators, no blank may be put inside a word,
and no character but those of ASCII may stand in one. -/
theorem ofName_spelling :
    (∀ text op, ofName text = .ok op ↔ op.SpelledBy text) ∧
    (∀ text e, ofName text = .error e ↔ e = .unknownOperator text ∧ ∀ op, ¬ SpelledBy op text) ∧
    (∀ text op other, SpelledBy op text → SpelledBy other text → op = other) ∧
    (∀ op before after gap c d, SpelledBy op (String.ofList (before ++ c :: d :: after)) →
      isBlank c = false → isBlank d = false → gap ≠ [] → AllBlank gap →
        ofName (String.ofList (before ++ c :: (gap ++ d :: after))) =
          .error (.unknownOperator (String.ofList (before ++ c :: (gap ++ d :: after))))) ∧
    ∀ text, ∀ c ∈ text.toList, isBlank c = false → 128 ≤ c.toNat →
      ofName text = .error (.unknownOperator text) := by
  refine ⟨fun text op => ofName_eq_ok_iff, fun text e => ?_, fun text op other hop hother => ?_,
    fun op before after gap c d hop hc hd hne hgap => ?_, fun text c hmem hc hlarge => ?_⟩
  · simp only [ofName_eq_error_iff, ne_eq, ofName_eq_ok_iff]
  · have heq := (ofName_eq_ok_iff.2 hop).symm.trans (ofName_eq_ok_iff.2 hother)
    exact Except.ok.inj heq
  · exact ofName_eq_error_iff.2
      ⟨rfl, fun other => ofName_gap_ne_ok (ofName_eq_ok_iff.2 hop) hc hd hne hgap⟩
  · refine ofName_eq_error_iff.2 ⟨rfl, fun op hop => ?_⟩
    have hsmall := toNat_lt_of_ofName hop hmem hc
    omega

/-- A name in mixed case between blanks of several scripts, a symbol with a space inside, and a name
with a dotless letter. -/
theorem ofName_spelling_mixed :
    notLike.SpelledBy "\u3000nOt\t\u00a0lIKe\n" ∧
      (∀ other, SpelledBy other "\u3000nOt\t\u00a0lIKe\n" → notLike = other) ∧
      lessOrEqual.SpelledBy "<=" ∧ ofName "< =" = .error (.unknownOperator "< =") ∧
      ofName "l\u0131ke" = .error (.unknownOperator "l\u0131ke") := by
  have hmixed : notLike.SpelledBy "\u3000nOt\t\u00a0lIKe\n" :=
    (ofName_spelling.1 _ _).1 (by rw [ofName_eq_ok_iff_words]; decide +kernel)
  have hsymbol : lessOrEqual.SpelledBy (String.ofList ([] ++ '<' :: '=' :: [])) :=
    (ofName_spelling.1 _ _).1 (by rw [ofName_eq_ok_iff_words]; decide +kernel)
  have hspace : AllBlank [' '] := by simp [AllBlank, isBlank]
  exact ⟨hmixed, fun other => ofName_spelling.2.2.1 _ _ _ hmixed, hsymbol,
    ofName_spelling.2.2.2.1 _ [] [] [' '] '<' '=' hsymbol (by decide) (by decide) (by decide) hspace,
    ofName_spelling.2.2.2.2 _ '\u0131' (by decide +kernel) (by decide) (by decide)⟩

end Operator

end GraphCriteria
