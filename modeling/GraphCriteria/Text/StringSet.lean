/-!
# Sets of strings

A set of strings is kept as its strictly increasing list, so that two sets with the
same members are equal.  Strings are ordered by code points.

Main statements:

- Theorem `StringSet.mem_insert`: insertion adds exactly the inserted string.
- Theorem `StringSet.ext`: a set is determined by its members.
-/

namespace GraphCriteria

/-! ## Insertion into an increasing list -/

/-- Insert a string into an increasing list, at its place and only once. -/
def insertString (s : String) : List String → List String
  | [] => [s]
  | t :: ts =>
    if s < t then s :: t :: ts
    else if t < s then t :: insertString s ts
    else t :: ts

/-- Strings of which neither comes first are equal. -/
theorem string_eq_of_not_lt {s t : String} (h₁ : ¬ s < t) (h₂ : ¬ t < s) : s = t :=
  String.le_antisymm (String.not_lt.1 h₂) (String.not_lt.1 h₁)

/-- Inserting a string adds that string. -/
theorem mem_insertString {s t : String} {ts : List String} :
    t ∈ insertString s ts ↔ t = s ∨ t ∈ ts := by
  induction ts with
  | nil => simp [insertString]
  | cons u us ih =>
    rw [insertString]
    split
    · simp
    · split
      · simp only [List.mem_cons, ih]
        constructor
        · rintro (h | h | h)
          · exact .inr (.inl h)
          · exact .inl h
          · exact .inr (.inr h)
        · rintro (h | h | h)
          · exact .inr (.inl h)
          · exact .inl h
          · exact .inr (.inr h)
      · rename_i h₁ h₂
        obtain rfl := string_eq_of_not_lt h₁ h₂
        simp

/-- An increasing list stays so: the string goes where it belongs, or is there already. -/
theorem pairwise_insertString {s : String} {ts : List String} (h : ts.Pairwise (· < ·)) :
    (insertString s ts).Pairwise (· < ·) := by
  induction ts with
  | nil => simp [insertString]
  | cons u us ih =>
    rw [List.pairwise_cons] at h
    rw [insertString]
    split
    · rename_i hs
      refine List.pairwise_cons.2 ⟨fun t ht => ?_, List.pairwise_cons.2 h⟩
      rcases List.mem_cons.1 ht with rfl | ht
      · exact hs
      · exact String.lt_trans hs (h.1 t ht)
    · split
      · rename_i hu
        refine List.pairwise_cons.2 ⟨fun t ht => ?_, ih h.2⟩
        rcases mem_insertString.1 ht with rfl | ht
        · exact hu
        · exact h.1 t ht
      · exact List.pairwise_cons.2 h

/-! ## Sets -/

/-- A finite set of strings, as its strictly increasing list. -/
structure StringSet where
  toList : List String
  increasing : toList.Pairwise (· < ·)
deriving DecidableEq

namespace StringSet

/-- The set without members. -/
def empty : StringSet := ⟨[], .nil⟩

instance : Inhabited StringSet := ⟨empty⟩

instance : EmptyCollection StringSet := ⟨empty⟩

instance : Membership String StringSet := ⟨fun set s => s ∈ set.toList⟩

/-- Whether a string is a member. -/
def contains (set : StringSet) (s : String) : Bool :=
  set.toList.contains s

/-- Add a string. -/
def insert (set : StringSet) (s : String) : StringSet :=
  ⟨insertString s set.toList, pairwise_insertString set.increasing⟩

/-- Add every string of a list. -/
def insertMany (set : StringSet) (ss : List String) : StringSet :=
  ss.foldl insert set

/-- The set of the strings of a list. -/
def ofList (ss : List String) : StringSet :=
  empty.insertMany ss

/-- Whether a set has no members. -/
def isEmpty (set : StringSet) : Bool :=
  set.toList.isEmpty

/-- The members of a set are those that are listed. -/
theorem mem_def {set : StringSet} {s : String} : s ∈ set ↔ s ∈ set.toList := Iff.rfl

@[simp] theorem toList_empty : (∅ : StringSet).toList = [] := rfl

/-- The test for a member finds exactly the members. -/
@[simp] theorem contains_iff {set : StringSet} {s : String} :
    set.contains s = true ↔ s ∈ set := by
  simp [contains, mem_def]

/-- Insertion adds exactly the inserted string. -/
@[simp] theorem mem_insert {set : StringSet} {s t : String} :
    t ∈ set.insert s ↔ t = s ∨ t ∈ set :=
  mem_insertString

/-- Inserting several strings adds exactly these. -/
@[simp] theorem mem_insertMany {set : StringSet} {ss : List String} {t : String} :
    t ∈ set.insertMany ss ↔ t ∈ ss ∨ t ∈ set := by
  unfold insertMany
  induction ss generalizing set with
  | nil => simp
  | cons s ss ih => simp [ih, or_left_comm, or_assoc]

/-- A set that is made of a list has the members of the list. -/
@[simp] theorem mem_ofList {ss : List String} {t : String} : t ∈ ofList ss ↔ t ∈ ss := by
  rw [ofList, mem_insertMany]
  simp [mem_def, empty]

/-- Increasing lists with the same members are equal. -/
private theorem toList_eq_of_mem_iff {ss ts : List String} (hs : ss.Pairwise (· < ·))
    (ht : ts.Pairwise (· < ·)) (h : ∀ u, u ∈ ss ↔ u ∈ ts) : ss = ts := by
  induction ss generalizing ts with
  | nil =>
    cases ts with
    | nil => rfl
    | cons t ts => exact absurd ((h t).2 (by simp)) (by simp)
  | cons s ss ih =>
    cases ts with
    | nil => exact absurd ((h s).1 (by simp)) (by simp)
    | cons t ts =>
      rw [List.pairwise_cons] at hs ht
      have hst : s = t := by
        rcases List.mem_cons.1 ((h s).1 (by simp)) with hst | hst
        · exact hst
        · rcases List.mem_cons.1 ((h t).2 (by simp)) with hts | hts
          · exact hts.symm
          · exact absurd (String.lt_trans (ht.1 s hst) (hs.1 t hts)) (String.lt_irrefl t)
      subst hst
      rw [ih hs.2 ht.2]
      intro u
      constructor
      · intro hu
        rcases List.mem_cons.1 ((h u).1 (by simp [hu])) with rfl | hu'
        · exact absurd (hs.1 u hu) (String.lt_irrefl u)
        · exact hu'
      · intro hu
        rcases List.mem_cons.1 ((h u).2 (by simp [hu])) with rfl | hu'
        · exact absurd (ht.1 u hu) (String.lt_irrefl u)
        · exact hu'

/-- A set is determined by its members. -/
theorem ext {a b : StringSet} (h : ∀ s, s ∈ a ↔ s ∈ b) : a = b := by
  cases a
  cases b
  simp only [mk.injEq]
  exact toList_eq_of_mem_iff (by assumption) (by assumption) h

end StringSet

end GraphCriteria
