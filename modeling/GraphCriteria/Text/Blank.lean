/-!
# Blank characters and words

A character is blank when it has the Unicode property `White_Space`.  The words
of a text are its maximal runs of characters that are not blank.

Main statements:

- Theorem `ne_nil_of_mem_words`: no word is empty.
- Theorem `isBlank_of_mem_words`: no word contains a blank character.
-/

namespace GraphCriteria.Text

/-- Whether a character has the Unicode property `White_Space`. -/
def isBlank (c : Char) : Bool :=
  let n := c.toNat
  (0x09 ≤ n && n ≤ 0x0D) || n == 0x20 || n == 0x85 || n == 0xA0 || n == 0x1680 ||
    (0x2000 ≤ n && n ≤ 0x200A) || n == 0x2028 || n == 0x2029 || n == 0x202F ||
    n == 0x205F || n == 0x3000

/-- Put a run of characters before a list of words, unless the run is empty. -/
def consWord (run : List Char) (rest : List (List Char)) : List (List Char) :=
  if run = [] then rest else run :: rest

/-- The run of nonblank characters that a text begins with, and the words after it. -/
def runAndWords : List Char → List Char × List (List Char)
  | [] => ([], [])
  | c :: cs =>
    let (run, rest) := runAndWords cs
    if isBlank c then ([], consWord run rest) else (c :: run, rest)

/-- The words of a text, in order. -/
def words (cs : List Char) : List (List Char) :=
  consWord (runAndWords cs).1 (runAndWords cs).2

/-- A run of characters counts as a word unless it is empty. -/
theorem mem_consWord {w run : List Char} {rest : List (List Char)} :
    w ∈ consWord run rest ↔ (w = run ∧ run ≠ []) ∨ w ∈ rest := by
  unfold consWord
  split <;> simp_all

/-- A leading blank character adds nothing to the words. -/
theorem words_cons_blank {c : Char} (h : isBlank c = true) (cs : List Char) :
    words (c :: cs) = words cs := by
  simp [words, runAndWords, h, consWord]

private theorem runAndWords_clean (cs : List Char) :
    (∀ c ∈ (runAndWords cs).1, isBlank c = false) ∧
      ∀ w ∈ (runAndWords cs).2, w ≠ [] ∧ ∀ c ∈ w, isBlank c = false := by
  induction cs with
  | nil => simp [runAndWords]
  | cons c cs ih =>
    by_cases hc : isBlank c = true
    · simp only [runAndWords, hc, if_true]
      refine ⟨by simp, fun w hw => ?_⟩
      rcases mem_consWord.1 hw with ⟨rfl, hne⟩ | hw
      · exact ⟨hne, ih.1⟩
      · exact ih.2 w hw
    · simp only [runAndWords, hc]
      refine ⟨fun d hd => ?_, ih.2⟩
      rcases List.mem_cons.1 hd with rfl | hd
      · simpa using hc
      · exact ih.1 d hd

/-- A word is never empty. -/
theorem ne_nil_of_mem_words {w cs : List Char} (h : w ∈ words cs) : w ≠ [] := by
  rcases mem_consWord.1 h with ⟨rfl, hne⟩ | h
  · exact hne
  · exact ((runAndWords_clean cs).2 w h).1

/-- A word has no blank character. -/
theorem isBlank_of_mem_words {w cs : List Char} (h : w ∈ words cs) :
    ∀ c ∈ w, isBlank c = false := by
  rcases mem_consWord.1 h with ⟨rfl, _⟩ | h
  · exact (runAndWords_clean cs).1
  · exact ((runAndWords_clean cs).2 w h).2

end GraphCriteria.Text
