import GraphCriteria.Text.StringSet

/-!
# Maps with string keys

A map is kept as the list of its entries in strictly increasing order of their keys,
so that two maps that answer every look-up alike are equal.

Main statements:

- Theorem `StringMap.get?_alter`: altering one key changes the answer for that key only.
- Theorem `StringMap.ext`: a map is determined by its answers.
-/

namespace GraphCriteria

variable {β : Type}

/-! ## Altering an increasing list of entries -/

/-- Alter the entry of a key in an increasing list of entries, adding it if need be. -/
def alterEntry (k : String) (f : Option β → β) : List (String × β) → List (String × β)
  | [] => [(k, f none)]
  | e :: es =>
    if k < e.1 then (k, f none) :: e :: es
    else if e.1 < k then e :: alterEntry k f es
    else (e.1, f (some e.2)) :: es

/-- The value of a key in a list of entries. -/
def lookupEntry (k : String) : List (String × β) → Option β
  | [] => none
  | e :: es => if k = e.1 then some e.2 else lookupEntry k es

/-- Altering an entry adds its key. -/
theorem mem_keys_alterEntry {k j : String} {f : Option β → β} {es : List (String × β)} :
    j ∈ (alterEntry k f es).map Prod.fst ↔ j = k ∨ j ∈ es.map Prod.fst := by
  induction es with
  | nil => simp [alterEntry]
  | cons e es ih =>
    rw [alterEntry]
    split
    · simp
    · split
      · rw [List.map_cons, List.mem_cons, ih, List.map_cons, List.mem_cons]
        exact or_left_comm
      · rename_i h₁ h₂
        rw [string_eq_of_not_lt h₁ h₂]
        simp

/-- The keys stay in increasing order. -/
theorem pairwise_alterEntry {k : String} {f : Option β → β} {es : List (String × β)}
    (h : (es.map Prod.fst).Pairwise (· < ·)) :
    ((alterEntry k f es).map Prod.fst).Pairwise (· < ·) := by
  induction es with
  | nil => simp [alterEntry]
  | cons e es ih =>
    rw [List.map_cons, List.pairwise_cons] at h
    rw [alterEntry]
    split
    · rename_i hk
      rw [List.map_cons, List.map_cons]
      refine List.pairwise_cons.2 ⟨fun j hj => ?_, List.pairwise_cons.2 h⟩
      rcases List.mem_cons.1 hj with rfl | hj
      · exact hk
      · exact String.lt_trans hk (h.1 j hj)
    · split
      · rename_i he
        rw [List.map_cons]
        refine List.pairwise_cons.2 ⟨fun j hj => ?_, ih h.2⟩
        rcases mem_keys_alterEntry.1 hj with rfl | hj
        · exact he
        · exact h.1 j hj
      · rw [List.map_cons]
        exact List.pairwise_cons.2 h

/-- A key below all others is not there. -/
theorem lookupEntry_eq_none {k : String} {es : List (String × β)}
    (h : ∀ j ∈ es.map Prod.fst, k < j) : lookupEntry k es = none := by
  induction es with
  | nil => rfl
  | cons e es ih =>
    rw [List.map_cons] at h
    have hne : k ≠ e.1 := by
      rintro rfl
      exact String.lt_irrefl _ (h e.1 (by simp))
    rw [lookupEntry, if_neg hne]
    exact ih fun j hj => h j (by simp [hj])

/-- A key that comes before the first of an increasing list has no entry in it. -/
theorem lookupEntry_cons_eq_none {k : String} {e : String × β} {es : List (String × β)}
    (hk : k < e.1) (h : ∀ j ∈ es.map Prod.fst, e.1 < j) : lookupEntry k (e :: es) = none := by
  refine lookupEntry_eq_none fun j hj => ?_
  rw [List.map_cons] at hj
  rcases List.mem_cons.1 hj with rfl | hj
  · exact hk
  · exact String.lt_trans hk (h j hj)

/-- Altering an entry changes what is found for its key, and for no other. -/
theorem lookupEntry_alterEntry {k j : String} {f : Option β → β} {es : List (String × β)}
    (h : (es.map Prod.fst).Pairwise (· < ·)) :
    lookupEntry j (alterEntry k f es) =
      if j = k then some (f (lookupEntry k es)) else lookupEntry j es := by
  induction es with
  | nil => simp [alterEntry, lookupEntry]
  | cons e es ih =>
    rw [List.map_cons, List.pairwise_cons] at h
    rw [alterEntry]
    split
    · rename_i hk
      rw [lookupEntry_cons_eq_none hk h.1, lookupEntry]
    · split
      · rename_i he
        have hne : k ≠ e.1 := by
          rintro rfl
          exact String.lt_irrefl _ he
        rw [lookupEntry, ih h.2, lookupEntry, lookupEntry, if_neg hne]
        by_cases hje : j = e.1
        · rw [if_pos hje, if_neg (by rw [hje]; exact fun h => hne h.symm), if_pos hje]
        · rw [if_neg hje, if_neg hje]
      · rename_i h₁ h₂
        obtain rfl := string_eq_of_not_lt h₁ h₂
        rw [lookupEntry, lookupEntry, lookupEntry, if_pos rfl]
        split <;> rfl

/-- Increasing lists of entries that answer every look-up alike are equal. -/
theorem entries_eq_of_lookupEntry {es fs : List (String × β)}
    (hes : (es.map Prod.fst).Pairwise (· < ·)) (hfs : (fs.map Prod.fst).Pairwise (· < ·))
    (h : ∀ k, lookupEntry k es = lookupEntry k fs) : es = fs := by
  induction es generalizing fs with
  | nil =>
    cases fs with
    | nil => rfl
    | cons f fs => simpa [lookupEntry] using h f.1
  | cons e es ih =>
    cases fs with
    | nil => simpa [lookupEntry] using h e.1
    | cons f fs =>
      rw [List.map_cons, List.pairwise_cons] at hes hfs
      have hkey : e.1 = f.1 := by
        refine string_eq_of_not_lt ?_ ?_
        · intro hlt
          have hnone := lookupEntry_cons_eq_none hlt hfs.1
          rw [← h, lookupEntry, if_pos rfl] at hnone
          cases hnone
        · intro hlt
          have hnone := lookupEntry_cons_eq_none hlt hes.1
          rw [h, lookupEntry, if_pos rfl] at hnone
          cases hnone
      have hvalue : e.2 = f.2 := by
        have hhead := h e.1
        rw [lookupEntry, lookupEntry, if_pos rfl, if_pos hkey] at hhead
        exact Option.some.inj hhead
      have htail : es = fs := by
        refine ih hes.2 hfs.2 fun k => ?_
        by_cases hk : k = e.1
        · rw [hk, lookupEntry_eq_none hes.1, hkey, lookupEntry_eq_none hfs.1]
        · have hrest := h k
          rwa [lookupEntry, lookupEntry, if_neg hk, if_neg (by rwa [← hkey])] at hrest
      rw [Prod.ext hkey hvalue, htail]

/-! ## Maps -/

/-- A finite map from strings, as its entries in strictly increasing order of keys. -/
structure StringMap (β : Type) where
  entries : List (String × β)
  increasing : (entries.map Prod.fst).Pairwise (· < ·)

namespace StringMap

theorem increasing_nil : (([] : List (String × β)).map Prod.fst).Pairwise (· < ·) :=
  .nil

/-- The map without entries. -/
def empty : StringMap β := ⟨[], increasing_nil⟩

instance : Inhabited (StringMap β) := ⟨empty⟩

instance : EmptyCollection (StringMap β) := ⟨empty⟩

/-- The value of a key. -/
def get? (map : StringMap β) (k : String) : Option β :=
  lookupEntry k map.entries

/-- Give a key the value that a function makes of the value it has. -/
def alter (map : StringMap β) (k : String) (f : Option β → β) : StringMap β :=
  ⟨alterEntry k f map.entries, pairwise_alterEntry map.increasing⟩

/-- Give a key a value, whatever it had before. -/
def insert (map : StringMap β) (k : String) (b : β) : StringMap β :=
  map.alter k fun _ => b

/-- Give a key a value unless it has one. -/
def insertNew (map : StringMap β) (k : String) (b : β) : StringMap β :=
  map.alter k fun old => old.getD b

/-- The keys in increasing order. -/
def keys (map : StringMap β) : List String :=
  map.entries.map Prod.fst

/-- The number of entries. -/
def size (map : StringMap β) : Nat :=
  map.entries.length

@[simp] theorem get?_empty (k : String) : (∅ : StringMap β).get? k = none := rfl

/-- Altering one key changes the answer for that key only. -/
theorem get?_alter (map : StringMap β) (k j : String) (f : Option β → β) :
    (map.alter k f).get? j = if j = k then some (f (map.get? k)) else map.get? j :=
  lookupEntry_alterEntry map.increasing

/-- A map is determined by its answers. -/
theorem ext {a b : StringMap β} (h : ∀ k, a.get? k = b.get? k) : a = b := by
  cases a
  cases b
  simp only [mk.injEq]
  exact entries_eq_of_lookupEntry (by assumption) (by assumption) h

/-- An entry is put only where there is none. -/
theorem get?_insertNew (map : StringMap β) (k j : String) (b : β) :
    (map.insertNew k b).get? j = if j = k then some ((map.get? k).getD b) else map.get? j :=
  get?_alter map k j _

end StringMap

end GraphCriteria
