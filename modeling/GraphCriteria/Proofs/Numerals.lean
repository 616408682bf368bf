import GraphCriteria.Proofs.Passes
import Mathlib

/-!
# Exact types of numerals

A numeral denotes a rational number.  Digits are appended one at a time and every step stays in range;
yet a step leaves the range only where the whole numeral does, since digits lead away from zero.  So the
type of a value depends on the number it denotes and on whether it is written with a dot.

Main definitions:

- Structure `Numeral.Written`: a numeral as it is written, and the number it denotes.
- Definitions `Numeral.DenotesInteger` and `Numeral.DenotesDecimal`: numerals with a number in range.

Main results:

- Theorem `Numeral.appendDigits_signed`: no step leaves the range unless the number does.
- Theorem `Numeral.Written.scaled_eq_iff`: the multiples of 10⁻¹⁸ among the numbers of numerals.
- Theorem `Numeral.decimal?_eq_some_iff`: the numbers that are held as decimals.
- Theorem `TermEscaper.escape_typed_iff`: the types of values.
-/

namespace GraphCriteria

namespace Numeral

open Text

/-! ## Written numerals -/

/-- The sign of a numeral, if there is one. -/
inductive Sign where
  | absent
  | plus
  | minus
deriving DecidableEq

namespace Sign

/-- A sign as it is written. -/
def text : Sign → List Char
  | absent => []
  | plus => ['+']
  | minus => ['-']

/-- Whether a sign is a minus sign. -/
def negative : Sign → Bool
  | absent | plus => false
  | minus => true

end Sign

/-- A numeral as it is written: an optional sign, digits and, after a dot if there is one, the digits of
the fraction.  At least one digit stands on one side of the dot. -/
structure Written where
  sign : Sign
  whole : List Char
  fraction : Option (List Char)
  whole_digits : ∀ c ∈ whole, isDigit c = true
  fraction_digits : ∀ c ∈ fraction.getD [], isDigit c = true
  some_digit : whole ≠ [] ∨ fraction.getD [] ≠ []

namespace Written

/-- The characters of a numeral after its sign. -/
def body (numeral : Written) : List Char :=
  numeral.whole ++ numeral.fraction.elim [] ('.' :: ·)

/-- The characters of a numeral. -/
def text (numeral : Written) : List Char :=
  numeral.sign.text ++ numeral.body

/-- The number that a numeral denotes, without its sign. -/
def magnitude (numeral : Written) : ℚ :=
  digitsValue numeral.whole +
    digitsValue (numeral.fraction.getD []) / 10 ^ (numeral.fraction.getD []).length

/-- The number that a numeral denotes. -/
def value (numeral : Written) : ℚ :=
  if numeral.sign.negative then -numeral.magnitude else numeral.magnitude

/-- A numeral differs from another one in its sign, in leading zeros and in trailing zeros of the
fraction only. -/
def Pads (numeral other : Written) : Prop :=
  ∃ leading trailing, numeral.whole = List.replicate leading '0' ++ other.whole ∧
    numeral.fraction = other.fraction.map (· ++ List.replicate trailing '0')

end Written

/-- A number has a two's complement form of so many bits. -/
def InBits (bits : Nat) (x : ℚ) : Prop :=
  -2 ^ (bits - 1) ≤ x ∧ x ≤ 2 ^ (bits - 1) - 1

/-- A text is a numeral without a dot whose number fills at most 64 bits. -/
def DenotesInteger (cs : List Char) : Prop :=
  ∃ numeral : Written, numeral.text = cs ∧ numeral.fraction = none ∧ InBits 64 numeral.value

/-- A text is a numeral whose number is a multiple of 10⁻¹⁸ and, as such, fills at most 128 bits. -/
def DenotesDecimal (cs : List Char) : Prop :=
  ∃ (numeral : Written) (n : ℤ),
    numeral.text = cs ∧ numeral.value * 10 ^ 18 = n ∧ InBits 128 n

/-! ## Ranges -/

/-- A number with or without a minus sign. -/
def signed (negative : Bool) (n : ℕ) : ℤ :=
  if negative then -n else n

/-- A sign may be put before or after scaling. -/
theorem signed_mul (negative : Bool) (m n : ℕ) :
    signed negative m * n = signed negative (m * n) := by
  cases negative <;> simp [signed]

/-- The test of the range is a test of two bounds. -/
theorem fits_iff (bits : Nat) (n : ℤ) : fits bits n = true ↔ InBits bits n := by
  have hcast : (Nat.pow 2 (bits - 1) : ℤ) = 2 ^ (bits - 1) := by
    norm_num [Nat.pow_eq]
  simp only [fits, InBits, hcast, Bool.and_eq_true, decide_eq_true_eq]
  rw [← Int.le_sub_one_iff]
  exact_mod_cast Iff.rfl

/-- Numbers nearer to zero are in range as well. -/
theorem fits_signed_of_le {bits : Nat} {negative : Bool} {m n : ℕ} (hle : m ≤ n)
    (h : fits bits (signed negative n) = true) : fits bits (signed negative m) = true := by
  have hle' : (m : ℤ) ≤ n := by exact_mod_cast hle
  have hm : (0 : ℤ) ≤ m := by positivity
  have hbound : (0 : ℤ) < (Nat.pow 2 (bits - 1) : ℕ) := by
    exact_mod_cast Nat.pow_pos (by norm_num)
  cases negative <;>
    simp only [fits, signed, Bool.false_eq_true, if_false, if_true, Bool.and_eq_true,
      decide_eq_true_eq] at h ⊢ <;>
    constructor <;> linarith [h.1, h.2]

/-- A number is kept exactly when it is in range. -/
theorem kept_eq_some {bits : Nat} {n m : ℤ} :
    (if fits bits n then some n else none) = some m ↔ n = m ∧ InBits bits m := by
  rw [← fits_iff]
  constructor
  · intro h
    split at h
    · rename_i hfits
      cases h
      exact ⟨rfl, hfits⟩
    · cases h
  · rintro ⟨rfl, hfits⟩
    rw [if_pos hfits]

/-! ## Digits -/

/-- Digits in front count by the power of ten of those behind them. -/
theorem digitsValue_append (cs ds : List Char) :
    digitsValue (cs ++ ds) = digitsValue cs * 10 ^ ds.length + digitsValue ds := by
  have hfold : ∀ (ds : List Char) (n : ℕ),
      ds.foldl (fun n c => 10 * n + digitValue c) n = n * 10 ^ ds.length + digitsValue ds := by
    intro ds
    induction ds with
    | nil => simp [digitsValue]
    | cons d ds ih =>
        intro n
        rw [digitsValue, List.foldl_cons, List.foldl_cons, ih, ih, List.length_cons]
        ring
  rw [digitsValue, List.foldl_append, hfold]
  rfl

theorem digitsValue_cons (c : Char) (cs : List Char) :
    digitsValue (c :: cs) = digitValue c * 10 ^ cs.length + digitsValue cs := by
  have h := digitsValue_append [c] cs
  simpa [digitsValue] using h

/-- Zeros count for nothing. -/
theorem digitsValue_zeros (n : ℕ) : digitsValue (List.replicate n '0') = 0 := by
  induction n with
  | zero => rfl
  | succ n ih => simp [List.replicate_succ, digitsValue_cons, ih, digitValue]

/-- A digit other than zero has a value of its own. -/
theorem digitValue_bounds {d : Char} (h : isDigit d = true) (hne : d ≠ '0') :
    0 < digitValue d ∧ digitValue d < 10 := by
  simp only [isDigit, Bool.and_eq_true, decide_eq_true_eq, Char.le_def, UInt32.le_iff_toNat_le] at h
  have hzero : d.toNat ≠ 48 := fun heq => hne (Char.toNat_inj.1 heq)
  have hlower : 48 ≤ d.toNat := h.1
  have hupper : d.toNat ≤ 57 := h.2
  have hvalue : digitValue d = d.toNat - 48 := rfl
  omega

/-- No step leaves the range unless the number does: appending digits to a number gives the whole number
if that is in range, and fails otherwise. -/
theorem appendDigits_signed {negative : Bool} {n : ℕ} (h : fits 128 (signed negative n) = true)
    (digits : List Char) :
    appendDigits negative (signed negative n) digits =
      inRange? (signed negative (n * 10 ^ digits.length + digitsValue digits)) := by
  induction digits generalizing n with
  | nil => simp [appendDigits, digitsValue, inRange?, h]
  | cons c cs ih =>
      have hnext : (if negative then signed negative (n * 10) - digitValue c
          else signed negative (n * 10) + digitValue c) =
            signed negative (n * 10 + digitValue c) := by
        cases negative with
        | false => simp [signed]
        | true =>
            simp [signed]
            ring
      -- The digits that are left are appended to the number after the step.
      have htotal : n * 10 ^ (c :: cs).length + digitsValue (c :: cs) =
          (n * 10 + digitValue c) * 10 ^ cs.length + digitsValue cs := by
        rw [digitsValue_cons, List.length_cons]
        ring
      have hmul : signed negative n * 10 = signed negative (n * 10) := signed_mul negative n 10
      rw [appendDigits, hmul, htotal]
      by_cases hfits : fits 128 (signed negative (n * 10 + digitValue c)) = true
      · have hten := fits_signed_of_le (Nat.le_add_right (n * 10) (digitValue c)) hfits
        simp only [inRange?, hten, hnext, hfits, if_true]
        exact ih hfits
      · -- The number is farther from zero than the step that fails.
        have hle : n * 10 + digitValue c ≤
            (n * 10 + digitValue c) * 10 ^ cs.length + digitsValue cs :=
          Nat.le_add_right_of_le (Nat.le_mul_of_pos_right _ (by positivity))
        have hout := mt (fits_signed_of_le hle) hfits
        rw [inRange?, inRange?, if_neg hout]
        split
        · rfl
        · rename_i m hm
          split at hm
          · cases hm
            rw [hnext, inRange?, if_neg hfits]
          · cases hm

/-! ## Trailing zeros -/

/-- What is dropped is zeros. -/
theorem exists_zeros (cs : List Char) :
    ∃ n, cs = dropTrailingZeros cs ++ List.replicate n '0' := by
  have hzeros : cs.reverse.takeWhile (· == '0') =
      List.replicate (cs.reverse.takeWhile (· == '0')).length '0' := by
    refine List.eq_replicate_of_mem fun c hc => ?_
    simpa using List.mem_takeWhile_imp hc
  refine ⟨(cs.reverse.takeWhile (· == '0')).length, ?_⟩
  calc cs = (cs.reverse.takeWhile (· == '0') ++ cs.reverse.dropWhile (· == '0')).reverse := by
        rw [List.takeWhile_append_dropWhile, List.reverse_reverse]
    _ = dropTrailingZeros cs ++ List.replicate _ '0' := by
        rw [List.reverse_append, hzeros, List.reverse_replicate, dropTrailingZeros,
          List.length_replicate]

/-- What is left does not end in a zero. -/
theorem last_ne_zero {cs ds : List Char} {d : Char} (h : dropTrailingZeros cs = ds ++ [d]) :
    d ≠ '0' := by
  have hreverse : cs.reverse.dropWhile (· == '0') = d :: ds.reverse := by
    rw [← List.reverse_reverse (cs.reverse.dropWhile _), ← dropTrailingZeros, h]
    simp
  have hhead := List.head_dropWhile_not (· == '0') (w := by rw [hreverse]; simp)
  simpa [hreverse] using hhead

/-- Zeros are digits, so it does not matter to the rest whether they are dropped. -/
theorem all_isDigit_dropTrailingZeros (cs : List Char) :
    (dropTrailingZeros cs).all isDigit = cs.all isDigit := by
  obtain ⟨n, hn⟩ := exists_zeros cs
  conv_rhs => rw [hn, List.all_append]
  have hzeros : (List.replicate n '0').all isDigit = true := by
    rw [List.all_eq_true]
    intro c hc
    rw [List.eq_of_mem_replicate hc]
    decide
  rw [hzeros, Bool.and_true]

/-! ## Reading numerals -/

/-- The sign of a text and the text after it. -/
theorem exists_sign (cs : List Char) :
    ∃ (sign : Sign) (rest : List Char),
      splitSign cs = (sign.negative, rest) ∧ cs = sign.text ++ rest := by
  unfold splitSign
  split
  · exact ⟨.plus, _, rfl, rfl⟩
  · exact ⟨.minus, _, rfl, rfl⟩
  · exact ⟨.absent, _, rfl, rfl⟩

/-- Digits are appended to digits in one go. -/
theorem appendDigits_bind (negative : Bool) (whole digits : List Char) (k : ℕ) :
    (appendDigits negative 0 whole).bind (fun n =>
        (appendDigits negative n digits).bind fun n => inRange? (n * Nat.pow 10 k)) =
      inRange? (signed negative (digitsValue (whole ++ digits) * 10 ^ k)) := by
  have hzero : (0 : ℤ) = signed negative 0 := by cases negative <;> rfl
  have hwhole : appendDigits negative 0 whole = inRange? (signed negative (digitsValue whole)) := by
    have hfits : fits 128 (signed negative 0) = true := by cases negative <;> decide
    have hdigits := appendDigits_signed hfits whole
    rwa [← hzero, Nat.zero_mul, Nat.zero_add] at hdigits
  have hle : digitsValue (whole ++ digits) ≤ digitsValue (whole ++ digits) * 10 ^ k :=
    Nat.le_mul_of_pos_right _ (by positivity)
  have hle' : digitsValue whole ≤ digitsValue (whole ++ digits) := by
    rw [digitsValue_append]
    exact Nat.le_add_right_of_le (Nat.le_mul_of_pos_right _ (by positivity))
  rw [hwhole]
  by_cases hfits : fits 128 (signed negative (digitsValue whole)) = true
  · rw [inRange?, if_pos hfits, Option.bind_some, appendDigits_signed hfits, ← digitsValue_append]
    by_cases hall : fits 128 (signed negative (digitsValue (whole ++ digits))) = true
    · rw [inRange?, if_pos hall, Option.bind_some, ← signed_mul]
      norm_cast
    · rw [inRange?, if_neg hall, inRange?, if_neg (mt (fits_signed_of_le hle) hall)]
      rfl
  · rw [inRange?, if_neg hfits, inRange?, if_neg (mt (fits_signed_of_le (hle'.trans hle)) hfits)]
    rfl

namespace Written

variable (numeral : Written)

/-- No word is a numeral. -/
theorem e_not_mem_text : 'e' ∉ numeral.text := by
  have hdigits : ∀ {cs : List Char}, (∀ c ∈ cs, isDigit c = true) → 'e' ∉ cs :=
    fun hcs hmem => absurd (hcs _ hmem) (by decide)
  have hsign : 'e' ∉ numeral.sign.text := by cases numeral.sign <;> decide
  have hwhole := hdigits numeral.whole_digits
  have hfraction := hdigits numeral.fraction_digits
  cases hcase : numeral.fraction <;> simp_all [text, body]

/-- A numeral is read sign first. -/
theorem splitSign_text : splitSign numeral.text = (numeral.sign.negative, numeral.body) := by
  obtain ⟨sign, whole, fraction, hwhole, hfraction, hsome⟩ := numeral
  cases sign with
  | plus | minus => rfl
  | absent =>
      -- What comes first is a digit or the dot.
      cases whole with
      | nil =>
          cases fraction with
          | none => simp at hsome
          | some digits => rfl
      | cons c cs =>
          have hc : isDigit c = true := hwhole c List.mem_cons_self
          simp only [text, Sign.text, body, List.nil_append, List.cons_append, Sign.negative]
          unfold splitSign
          split
          · rename_i heq
            obtain ⟨rfl, -⟩ := List.cons.inj heq
            exact absurd hc (by decide)
          · rename_i heq
            obtain ⟨rfl, -⟩ := List.cons.inj heq
            exact absurd hc (by decide)
          · rfl

theorem takeWhile_body : numeral.body.takeWhile isDigit = numeral.whole := by
  rw [body, List.takeWhile_append_of_pos numeral.whole_digits]
  cases numeral.fraction <;> simp [isDigit]

theorem dropWhile_body :
    numeral.body.dropWhile isDigit = numeral.fraction.elim [] ('.' :: ·) := by
  rw [body, List.dropWhile_append_of_pos numeral.whole_digits]
  cases numeral.fraction <;> simp [isDigit]

/-- The fraction without its trailing zeros. -/
def significant : List Char :=
  dropTrailingZeros (numeral.fraction.getD [])

/-- The multiple of 10⁻¹⁸ that a numeral is read as. -/
theorem decimal?_text :
    decimal? numeral.text =
      if numeral.significant.length ≤ scale then
        inRange? (signed numeral.sign.negative (digitsValue (numeral.whole ++ numeral.significant) *
          10 ^ (scale - numeral.significant.length)))
      else none := by
  rw [decimal?, numeral.splitSign_text]
  simp only [numeral.takeWhile_body, numeral.dropWhile_body, significant, Option.bind_eq_bind]
  obtain ⟨sign, whole, fraction, hwhole, hdigits, hsome⟩ := numeral
  dsimp only
  cases fraction with
  | none =>
      have hne : whole ≠ [] := by simpa using hsome
      have hbind := appendDigits_bind sign.negative whole [] scale
      simpa [hne, appendDigits, dropTrailingZeros] using hbind
  | some fraction =>
      rw [Option.getD_some] at hdigits hsome
      have hall : (dropTrailingZeros fraction).all isDigit = true := by
        rw [all_isDigit_dropTrailingZeros, List.all_eq_true]
        exact hdigits
      have htake : fraction.takeWhile isDigit = fraction := by
        rw [List.takeWhile_eq_self_iff]
        exact hdigits
      have hnonempty : (decide (whole = []) && decide (fraction = [])) = false := by
        simpa [← not_or, imp_iff_not_or] using hsome
      simp only [Option.elim_some, Option.getD_some, htake, hnonempty, hall, Bool.not_true,
        Bool.false_or, Bool.false_eq_true, if_false, decide_eq_true_eq, ← Nat.not_le]
      by_cases hlength : (dropTrailingZeros fraction).length ≤ scale
      · simpa [hlength] using appendDigits_bind sign.negative whole (dropTrailingZeros fraction) _
      · simp [hlength]

/-! ### The numbers of numerals -/

/-- The value of a numeral is its magnitude with its sign. -/
theorem value_eq_signed {n : ℕ} {d : ℚ} (h : numeral.magnitude = n / d) :
    numeral.value = signed numeral.sign.negative n / d := by
  rw [value, h]
  cases numeral.sign.negative <;> simp [signed, neg_div]

/-- Trailing zeros of the fraction do not count. -/
theorem magnitude_eq :
    numeral.magnitude =
      digitsValue (numeral.whole ++ numeral.significant) / 10 ^ numeral.significant.length := by
  obtain ⟨zeros, hzeros⟩ := exists_zeros (numeral.fraction.getD [])
  rw [← significant] at hzeros
  rw [magnitude, hzeros, digitsValue_append, digitsValue_append, digitsValue_zeros,
    List.length_append, List.length_replicate, pow_add]
  push_cast
  field_simp
  ring

/-- Ten does not divide digits that end in a fraction without trailing zeros. -/
theorem not_ten_dvd_significant (h : numeral.significant ≠ []) :
    ¬10 ∣ digitsValue (numeral.whole ++ numeral.significant) := by
  obtain ⟨ds, d, hds⟩ : ∃ ds d, numeral.significant = ds ++ [d] :=
    ⟨_, _, (List.dropLast_append_getLast h).symm⟩
  have hdigit : isDigit d = true := by
    have hall : numeral.significant.all isDigit = true := by
      rw [significant, all_isDigit_dropTrailingZeros, List.all_eq_true]
      exact numeral.fraction_digits
    rw [List.all_eq_true] at hall
    exact hall d (by rw [hds]; simp)
  have hvalue := digitValue_bounds hdigit (last_ne_zero hds)
  have hlast : digitsValue [d] = digitValue d := by simp [digitsValue]
  rw [hds, ← List.append_assoc, digitsValue_append, hlast, List.length_singleton, pow_one]
  omega

/-- The number of a numeral is a multiple of 10⁻¹⁸ exactly when the fraction is short. -/
theorem scaled_eq_iff (n : ℤ) :
    numeral.value * 10 ^ 18 = n ↔ numeral.significant.length ≤ scale ∧
      signed numeral.sign.negative (digitsValue (numeral.whole ++ numeral.significant) *
        10 ^ (scale - numeral.significant.length)) = n := by
  rw [numeral.value_eq_signed numeral.magnitude_eq, ← signed_mul]
  generalize hN : digitsValue (numeral.whole ++ numeral.significant) = N
  generalize hk : numeral.significant.length = k
  have hinteger : (signed numeral.sign.negative N / 10 ^ k * 10 ^ 18 : ℚ) = n ↔
      signed numeral.sign.negative N * 10 ^ 18 = n * 10 ^ k := by
    rw [div_mul_eq_mul_div, div_eq_iff (by positivity)]
    exact_mod_cast Iff.rfl
  rw [hinteger]
  by_cases hshort : k ≤ 18
  · have hpow : (10 : ℤ) ^ 18 = 10 ^ (18 - k) * 10 ^ k := by
      rw [← pow_add, Nat.sub_add_cancel hshort]
    rw [hpow, ← mul_assoc, mul_left_inj' (by positivity)]
    simp [scale, hshort]
  · -- The last digit of a long fraction is not zero, so ten does not divide the digits.
    refine iff_of_false (fun heq => ?_) (fun h => hshort h.1)
    obtain ⟨j, rfl⟩ : ∃ j, k = 18 + (j + 1) := ⟨k - 19, by omega⟩
    have hdvd : (10 : ℤ) ∣ signed numeral.sign.negative N := by
      refine ⟨n * 10 ^ j, ?_⟩
      have hcancel : signed numeral.sign.negative N * 10 ^ 18 = 10 * (n * 10 ^ j) * 10 ^ 18 := by
        rw [heq]
        ring
      exact mul_right_cancel₀ (by norm_num) hcancel
    have hdvdN : 10 ∣ N := by
      have habs : (signed numeral.sign.negative N).natAbs = N := by
        cases numeral.sign.negative <;> simp [signed]
      rw [← habs]
      exact Int.natCast_dvd.1 hdvd
    have hne : numeral.significant ≠ [] := by
      intro hnil
      rw [hnil] at hk
      cases hk
    exact numeral.not_ten_dvd_significant hne (hN ▸ hdvdN)

/-- A numeral is read as a decimal exactly when its number is a multiple of 10⁻¹⁸ in range. -/
theorem decimal?_text_eq_some (n : ℤ) :
    decimal? numeral.text = some n ↔ numeral.value * 10 ^ 18 = n ∧ InBits 128 n := by
  rw [numeral.decimal?_text, numeral.scaled_eq_iff]
  split
  · rename_i hshort
    rw [inRange?, kept_eq_some]
    simp only [hshort, true_and]
  · rename_i hlong
    simp [hlong]

/-- The number of a numeral without a dot is that of its digits. -/
theorem value_of_fraction_none (h : numeral.fraction = none) :
    numeral.value = signed numeral.sign.negative (digitsValue numeral.whole) := by
  have hmagnitude : numeral.magnitude = digitsValue numeral.whole / 1 := by
    simp [magnitude, h, digitsValue]
  simpa using numeral.value_eq_signed hmagnitude

/-- A numeral is read as an integer exactly when it has no dot and its number is in range. -/
theorem integer?_text_eq_some (n : ℤ) :
    integer? numeral.text = some n ↔
      numeral.fraction = none ∧ numeral.value = n ∧ InBits 64 n := by
  rw [integer?, numeral.splitSign_text]
  cases hfraction : numeral.fraction with
  | some fraction =>
      have hdot : ¬numeral.body.all isDigit = true := by
        simp [body, hfraction, isDigit]
      simp [hdot]
  | none =>
      have hbody : numeral.body = numeral.whole := by simp [body, hfraction]
      have hne : numeral.whole ≠ [] := by simpa [hfraction] using numeral.some_digit
      have hall : numeral.whole.all isDigit = true := List.all_eq_true.2 numeral.whole_digits
      rw [numeral.value_of_fraction_none hfraction, hbody]
      simp only [hne, hall, ne_eq, not_false_eq_true, decide_true, Bool.and_self, if_true, true_and,
        Int.cast_inj]
      exact kept_eq_some

end Written

/-! ## Which texts are numerals -/

/-- What is read as a decimal is a numeral. -/
theorem exists_written_of_decimal? {cs : List Char} {n : ℤ} (h : decimal? cs = some n) :
    ∃ numeral : Written, numeral.text = cs := by
  obtain ⟨sign, rest, hsplit, rfl⟩ := exists_sign cs
  rw [decimal?, hsplit] at h
  simp only [Option.bind_eq_bind, Option.bind_eq_some_iff] at h
  obtain ⟨start, hstart, h⟩ := h
  have hrest : rest.takeWhile isDigit ++ rest.dropWhile isDigit = rest :=
    List.takeWhile_append_dropWhile
  have hwhole : ∀ c ∈ rest.takeWhile isDigit, isDigit c = true :=
    fun c hc => List.mem_takeWhile_imp hc
  split at h
  · rename_i hnil
    rw [hnil, List.append_nil] at hrest
    have hne : rest.takeWhile isDigit ≠ [] := by
      intro hempty
      simp [hempty] at h
    refine ⟨⟨sign, rest.takeWhile isDigit, none, hwhole, by simp, .inl hne⟩, ?_⟩
    simp [Written.text, Written.body, hrest]
  · rename_i fraction hdot
    rw [hdot] at hrest
    split at h
    · cases h
    · rename_i hsome
      split at h
      · cases h
      · rename_i hdigits
        have hfraction : ∀ c ∈ fraction, isDigit c = true := by
          simp only [Bool.or_eq_true, Bool.not_eq_true', not_or, Bool.not_eq_false] at hdigits
          rw [← List.all_eq_true, ← all_isDigit_dropTrailingZeros]
          exact hdigits.1
        have hne : rest.takeWhile isDigit ≠ [] ∨ fraction ≠ [] := by
          by_contra hempty
          rw [not_or, not_not, not_not] at hempty
          simp [hempty] at hsome
        refine ⟨⟨sign, rest.takeWhile isDigit, some fraction, hwhole, hfraction, hne⟩, ?_⟩
        simp [Written.text, Written.body, hrest]
  · cases h

/-- What is read as an integer is a numeral. -/
theorem exists_written_of_integer? {cs : List Char} {n : ℤ} (h : integer? cs = some n) :
    ∃ numeral : Written, numeral.text = cs := by
  obtain ⟨sign, digits, hsplit, rfl⟩ := exists_sign cs
  rw [integer?, hsplit] at h
  dsimp only at h
  split at h
  · rename_i hdigits
    simp only [Bool.and_eq_true, decide_eq_true_eq, List.all_eq_true] at hdigits
    refine ⟨⟨sign, digits, none, hdigits.2, by simp, .inl hdigits.1⟩, ?_⟩
    simp [Written.text, Written.body]
  · cases h

/-- The numbers that are held as decimals are those of numerals, as multiples of 10⁻¹⁸ in range. -/
theorem decimal?_eq_some_iff (cs : List Char) (n : ℤ) :
    decimal? cs = some n ↔
      ∃ numeral : Written, numeral.text = cs ∧ numeral.value * 10 ^ 18 = n ∧ InBits 128 n := by
  constructor
  · intro h
    obtain ⟨numeral, rfl⟩ := exists_written_of_decimal? h
    exact ⟨numeral, rfl, (numeral.decimal?_text_eq_some n).1 h⟩
  · rintro ⟨numeral, rfl, h⟩
    exact (numeral.decimal?_text_eq_some n).2 h

/-- A value is read as a decimal exactly if it denotes one. -/
theorem isSome_decimal?_iff (cs : List Char) : (decimal? cs).isSome ↔ DenotesDecimal cs := by
  simp only [Option.isSome_iff_exists, decimal?_eq_some_iff, DenotesDecimal]
  exact exists_comm

/-- It is read as an integer exactly if it denotes one. -/
theorem isSome_integer?_iff (cs : List Char) : (integer? cs).isSome ↔ DenotesInteger cs := by
  rw [Option.isSome_iff_exists]
  constructor
  · rintro ⟨n, h⟩
    obtain ⟨numeral, rfl⟩ := exists_written_of_integer? h
    obtain ⟨hfraction, hvalue, hfits⟩ := (numeral.integer?_text_eq_some n).1 h
    exact ⟨numeral, rfl, hfraction, by rwa [hvalue]⟩
  · rintro ⟨numeral, rfl, hfraction, hfits⟩
    have hvalue := numeral.value_of_fraction_none hfraction
    exact ⟨_, (numeral.integer?_text_eq_some _).2 ⟨hfraction, hvalue, by rwa [← hvalue]⟩⟩

/-! ## Zeros and signs -/

/-- A numeral denotes an integer if it has no dot and its value is in range. -/
theorem denotesInteger_text_iff (numeral : Written) :
    DenotesInteger numeral.text ↔ numeral.fraction = none ∧
      InBits 64 (signed numeral.sign.negative (digitsValue numeral.whole)) := by
  rw [← isSome_integer?_iff, Option.isSome_iff_exists]
  simp only [numeral.integer?_text_eq_some]
  constructor
  · rintro ⟨n, hfraction, hvalue, hfits⟩
    rw [numeral.value_of_fraction_none hfraction] at hvalue
    exact ⟨hfraction, by rwa [hvalue]⟩
  · rintro ⟨hfraction, hfits⟩
    exact ⟨_, hfraction, numeral.value_of_fraction_none hfraction, hfits⟩

/-- It denotes a decimal if its value is a number of units of 10⁻¹⁸ in range. -/
theorem denotesDecimal_text_iff (numeral : Written) :
    DenotesDecimal numeral.text ↔
      ∃ n : ℕ, numeral.magnitude * 10 ^ 18 = n ∧ InBits 128 (signed numeral.sign.negative n) := by
  rw [← isSome_decimal?_iff, Option.isSome_iff_exists]
  simp only [numeral.decimal?_text_eq_some]
  constructor
  · rintro ⟨n, hvalue, hfits⟩
    obtain ⟨-, rfl⟩ := (numeral.scaled_eq_iff n).1 hvalue
    refine ⟨_, ?_, hfits⟩
    unfold Written.value signed at hvalue
    split at hvalue
    · rw [neg_mul, Int.cast_neg, neg_inj, Int.cast_natCast] at hvalue
      exact hvalue
    · rw [Int.cast_natCast] at hvalue
      exact hvalue
  · rintro ⟨n, hmagnitude, hfits⟩
    refine ⟨_, ?_, hfits⟩
    have hdiv : numeral.magnitude = n / 10 ^ 18 := by
      rw [← hmagnitude]
      field_simp
    rw [numeral.value_eq_signed hdiv]
    field_simp

/-- The sign counts at the bound only. -/
theorem inBits_signed_iff {bits n : ℕ} (h : (n : ℚ) ≠ 2 ^ (bits - 1)) (negative : Bool) :
    InBits bits (signed negative n) ↔ n < 2 ^ (bits - 1) := by
  have hne : n ≠ 2 ^ (bits - 1) := by exact_mod_cast h
  have hcast : InBits bits (signed negative n) ↔
      -(2 ^ (bits - 1) : ℤ) ≤ signed negative n ∧ signed negative n ≤ 2 ^ (bits - 1) - 1 := by
    unfold InBits
    exact_mod_cast Iff.rfl
  have hpow : ((2 ^ (bits - 1) : ℕ) : ℤ) = 2 ^ (bits - 1) := by push_cast; rfl
  rw [hcast, ← hpow]
  cases negative <;> simp only [signed, Bool.false_eq_true, if_false, if_true] <;> omega

namespace Written

/-- Numerals of the same number are alike, but for their signs at a bound and for a dot. -/
structure Alike (numeral other : Written) : Prop where
  magnitude_eq : numeral.magnitude = other.magnitude
  fraction_iff : numeral.fraction = none ↔ other.fraction = none
  sign_or : numeral.sign.negative = other.sign.negative ∨
    other.magnitude ≠ 2 ^ 63 ∧ other.magnitude * 10 ^ 18 ≠ 2 ^ 127

/-- Leading zeros and trailing zeros of the fraction do not count. -/
theorem Pads.magnitude_eq {numeral other : Written} (h : numeral.Pads other) :
    numeral.magnitude = other.magnitude := by
  obtain ⟨leading, trailing, hwhole, hfraction⟩ := h
  rw [magnitude, hwhole, hfraction, digitsValue_append, digitsValue_zeros, magnitude]
  cases other.fraction with
  | none => simp
  | some digits =>
      simp only [Option.map_some, Option.getD_some, digitsValue_append, digitsValue_zeros,
        List.length_append, List.length_replicate, pow_add]
      push_cast
      field_simp
      ring

theorem Pads.fraction_iff {numeral other : Written} (h : numeral.Pads other) :
    numeral.fraction = none ↔ other.fraction = none := by
  obtain ⟨_, _, _, hfraction⟩ := h
  rw [hfraction, Option.map_eq_none_iff]

namespace Alike

variable {numeral other : Written}

theorem denotesInteger_iff (h : numeral.Alike other) :
    DenotesInteger numeral.text ↔ DenotesInteger other.text := by
  rw [denotesInteger_text_iff, denotesInteger_text_iff, h.fraction_iff]
  refine and_congr_right fun hother => ?_
  have hmagnitude : ∀ {a : Written}, a.fraction = none → a.magnitude = digitsValue a.whole := by
    intro a ha
    simp [magnitude, ha, digitsValue]
  have hdigits : digitsValue numeral.whole = digitsValue other.whole := by
    have heq := h.magnitude_eq
    rw [hmagnitude (h.fraction_iff.2 hother), hmagnitude hother] at heq
    exact_mod_cast heq
  rw [hdigits]
  rcases h.sign_or with hsign | ⟨hbound, -⟩
  · rw [hsign]
  · rw [hmagnitude hother] at hbound
    rw [inBits_signed_iff hbound, inBits_signed_iff hbound]

theorem denotesDecimal_iff (h : numeral.Alike other) :
    DenotesDecimal numeral.text ↔ DenotesDecimal other.text := by
  rw [denotesDecimal_text_iff, denotesDecimal_text_iff, h.magnitude_eq]
  refine exists_congr fun n => and_congr_right fun hn => ?_
  rcases h.sign_or with hsign | ⟨-, hbound⟩
  · rw [hsign]
  · rw [hn] at hbound
    rw [inBits_signed_iff hbound, inBits_signed_iff hbound]

end Alike

end Written

end Numeral

/-! ## Types of values -/

/-- The type of a value depends on the number it denotes. -/
theorem Datatype.ofValue?_cases (value : String) :
    (ofValue? value = some integer ↔ Numeral.DenotesInteger value.toList) ∧
      (ofValue? value = some decimal ↔ ¬Numeral.DenotesInteger value.toList ∧
        Numeral.DenotesDecimal value.toList) ∧
      (ofValue? value = some boolean ↔ ¬Numeral.DenotesInteger value.toList ∧
        ¬Numeral.DenotesDecimal value.toList ∧ (value = "true" ∨ value = "false")) ∧
      (ofValue? value = none ↔ ¬Numeral.DenotesInteger value.toList ∧
        ¬Numeral.DenotesDecimal value.toList ∧ ¬(value = "true" ∨ value = "false")) := by
  rw [← Numeral.isSome_integer?_iff, ← Numeral.isSome_decimal?_iff, ofValue?]
  by_cases hinteger : (Numeral.integer? value.toList).isSome = true
  · simp [hinteger]
  · by_cases hdecimal : (Numeral.decimal? value.toList).isSome = true
    · simp [hinteger, hdecimal]
    · by_cases hword : value = "true" ∨ value = "false" <;> simp [hinteger, hdecimal, hword]

/-- Numerals that are alike have one type. -/
theorem Datatype.ofValue?_eq_of_alike {numeral other : Numeral.Written} (h : numeral.Alike other) :
    ofValue? (String.ofList numeral.text) = ofValue? (String.ofList other.text) := by
  have hinteger : (Numeral.integer? numeral.text).isSome = (Numeral.integer? other.text).isSome := by
    rw [Bool.eq_iff_iff, Numeral.isSome_integer?_iff, Numeral.isSome_integer?_iff]
    exact h.denotesInteger_iff
  have hdecimal : (Numeral.decimal? numeral.text).isSome = (Numeral.decimal? other.text).isSome := by
    rw [Bool.eq_iff_iff, Numeral.isSome_decimal?_iff, Numeral.isSome_decimal?_iff]
    exact h.denotesDecimal_iff
  have hword : ∀ a : Numeral.Written,
      ¬(String.ofList a.text = "true" ∨ String.ofList a.text = "false") := by
    rintro a (heq | heq) <;>
      exact a.e_not_mem_text (by rw [← String.toList_ofList (l := a.text), heq]; decide)
  simp only [ofValue?, String.toList_ofList, hinteger, hdecimal, hword]

/-! ## Marks of literals -/

namespace Literal

/-- Marks are told apart by their texts. -/
theorem Mark.text_injective {mark other : Mark} (h : mark.text = other.text) : mark = other := by
  have hlist := congrArg String.toList h
  cases mark <;> cases other <;> simp [Mark.text, ← String.toList_inj] at hlist ⊢
  all_goals assumption

/-- A literal determines its mark. -/
theorem text_inj {lexical : String} {mark other : Mark} :
    text lexical mark = text lexical other ↔ mark = other := by
  refine ⟨fun h => Mark.text_injective ?_, congrArg _⟩
  have hlist := congrArg String.toList h
  rw [text, text, String.toList_append, String.toList_append, List.append_cancel_left_eq] at hlist
  exact String.toList_inj.1 hlist

end Literal

theorem markOf_eq_datatype_iff {value : String} {datatype : Datatype} :
    markOf value = .datatype datatype.iri ↔ Datatype.ofValue? value = some datatype := by
  have hinj : ∀ {a b : Datatype}, a.iri = b.iri ↔ a = b := by
    intro a b
    cases a <;> cases b <;> decide
  unfold markOf
  split <;> simp_all

theorem markOf_eq_plain_iff {value : String} :
    markOf value = .plain ↔ Datatype.ofValue? value = none := by
  unfold markOf
  split <;> simp_all

/-! ## Types of written values -/

namespace TermEscaper

variable {terms : TermEscaper} {field : String}

/-- How a value without a language is written determines its type. -/
theorem escape_eq_iff (h : terms.isReference field = false) (value : String)
    (mark : Literal.Mark) :
    terms.escape field value none = .ok (Literal.text value mark) ↔ markOf value = mark := by
  rw [escape, h, if_neg (by decide), Except.ok.injEq, Literal.text_inj]

/-- The types of values are exact.  A value is written as an integer when it is a numeral without a dot
whose number fills 64 bits, else as a decimal when it is a numeral whose number is a multiple of 10⁻¹⁸
that fills 128 bits, else as a boolean when it is one of two words, else as a plain string.  No step of
reading a decimal leaves the range unless the number does.  Leading zeros, trailing zeros of the fraction
and signs do not change the type, but for a sign at the end of a range. -/
theorem escape_typed_iff (h : terms.isReference field = false) :
    (∀ value : String,
      (terms.escape field value none = .ok (Literal.text value (.datatype Datatype.integer.iri)) ↔
        Numeral.DenotesInteger value.toList) ∧
      (terms.escape field value none = .ok (Literal.text value (.datatype Datatype.decimal.iri)) ↔
        ¬Numeral.DenotesInteger value.toList ∧ Numeral.DenotesDecimal value.toList) ∧
      (terms.escape field value none = .ok (Literal.text value (.datatype Datatype.boolean.iri)) ↔
        ¬Numeral.DenotesInteger value.toList ∧ ¬Numeral.DenotesDecimal value.toList ∧
          (value = "true" ∨ value = "false")) ∧
      (terms.escape field value none = .ok (Literal.text value .plain) ↔
        ¬Numeral.DenotesInteger value.toList ∧ ¬Numeral.DenotesDecimal value.toList ∧
          ¬(value = "true" ∨ value = "false"))) ∧
    (∀ (numeral : Numeral.Written) (n : ℤ), numeral.value * 10 ^ 18 = n → Numeral.InBits 128 n →
      Numeral.decimal? numeral.text = some n) ∧
    ∀ numeral other : Numeral.Written, numeral.Pads other →
      (numeral.sign.negative = other.sign.negative ∨
        other.magnitude ≠ 2 ^ 63 ∧ other.magnitude * 10 ^ 18 ≠ 2 ^ 127) →
      ∀ mark,
        terms.escape field (String.ofList numeral.text) none =
            .ok (Literal.text (String.ofList numeral.text) mark) ↔
          terms.escape field (String.ofList other.text) none =
            .ok (Literal.text (String.ofList other.text) mark) := by
  refine ⟨fun value => ?_, fun numeral n hvalue hfits =>
    (numeral.decimal?_text_eq_some n).2 ⟨hvalue, hfits⟩, fun numeral other hpads hsign mark => ?_⟩
  · simp only [escape_eq_iff h, markOf_eq_datatype_iff, markOf_eq_plain_iff]
    exact Datatype.ofValue?_cases value
  · have halike : numeral.Alike other := ⟨hpads.magnitude_eq, hpads.fraction_iff, hsign⟩
    rw [escape_eq_iff h, escape_eq_iff h, markOf, markOf, Datatype.ofValue?_eq_of_alike halike]

end TermEscaper

namespace Sample

/-- The lowest decimal. -/
def lowest : Numeral.Written where
  sign := .minus
  whole := "170141183460469231731".toList
  fraction := some "687303715884105728".toList
  whole_digits := List.all_eq_true.1 (by decide +kernel)
  fraction_digits := List.all_eq_true.1 (by decide +kernel)
  some_digit := by decide +kernel

/-- The lowest decimal with leading and trailing zeros. -/
def paddedLowest : Numeral.Written where
  sign := .minus
  whole := "00170141183460469231731".toList
  fraction := some "6873037158841057280".toList
  whole_digits := List.all_eq_true.1 (by decide +kernel)
  fraction_digits := List.all_eq_true.1 (by decide +kernel)
  some_digit := by decide +kernel

end Sample

/-- Values at the ends of the ranges. -/
theorem TermEscaper.escape_typed_iff_bounds :
    Numeral.DenotesInteger "-9223372036854775808".toList ∧
      ¬Numeral.DenotesInteger "9223372036854775808".toList ∧
      Numeral.DenotesDecimal "9223372036854775808".toList ∧
      Numeral.decimal? Sample.lowest.text = some (-2 ^ 127) ∧
      Sample.paddedLowest.Pads Sample.lowest ∧
      (TermEscaper.mk (.ofList ["uid"])).escape "price" (String.ofList Sample.paddedLowest.text)
          none =
        .ok (Literal.text (String.ofList Sample.paddedLowest.text)
          (.datatype Datatype.decimal.iri)) := by
  have h : (TermEscaper.mk (.ofList ["uid"])).isReference "price" = false := by decide +kernel
  obtain ⟨htypes, hdecimal, hpads⟩ := escape_typed_iff h
  have hpadded : Sample.paddedLowest.Pads Sample.lowest :=
    ⟨2, 1, by decide +kernel, by decide +kernel⟩
  have hlowest : Numeral.decimal? Sample.lowest.text = some (-2 ^ 127) := by
    have hwhole : Numeral.digitsValue Sample.lowest.whole = 170141183460469231731 := by
      decide +kernel
    have hfraction : Numeral.digitsValue (Sample.lowest.fraction.getD []) = 687303715884105728 := by
      decide +kernel
    have hlength : (Sample.lowest.fraction.getD []).length = 18 := by decide +kernel
    have hnegative : Sample.lowest.sign.negative = true := rfl
    refine hdecimal Sample.lowest (-2 ^ 127) ?_ (by norm_num [Numeral.InBits])
    norm_num [Numeral.Written.value, Numeral.Written.magnitude, hwhole, hfraction, hlength, hnegative]
  have hinteger := (htypes "-9223372036854775808").1.1 (eq_ok_of_toOption (by decide +kernel))
  have hbeyond := (htypes "9223372036854775808").2.1.1 (eq_ok_of_toOption (by decide +kernel))
  refine ⟨hinteger, hbeyond.1, hbeyond.2, hlowest, hpadded, ?_⟩
  exact (hpads _ _ hpadded (.inl rfl) _).2 (eq_ok_of_toOption (by decide +kernel))

end GraphCriteria
