import GraphCriteria.Group.Basic

/-!
# Groups as trees

A group is a tree: its entries are leaves and nested groups.  This file gives the induction
that follows this shape, says what it means that a property holds of a group and of all groups
inside it, and names the groups inside it by the places that lead to them.  It also erases from
a tree all that compiling and rendering add.

Main results:

- Theorem `Group.treeInduction`: a tree and its list of entries are proved about together.
- Theorem `Group.everywhere_iff`: a property holds everywhere in a group exactly when it holds
  of the group and everywhere in each nested group.
- Theorem `Group.bare_eq_self_iff`: erasing changes nothing exactly in trees that are still
  being built.
-/

namespace GraphCriteria

/-! ## Induction over trees -/

/-- A property of groups and a property of lists of entries, proved along the tree. -/
theorem Group.treeInduction {P : Group → Prop} {R : List Entry → Prop}
    (group : ∀ conjunction keys entries lacksBundle state, R entries →
      P ⟨conjunction, keys, entries, lacksBundle, state⟩)
    (nil : R [])
    (leaf : ∀ leaf rest, R rest → R (.leaf leaf :: rest))
    (nested : ∀ group rest, P group → R rest → R (.nested group :: rest)) :
    (∀ g, P g) ∧ ∀ entries, R entries := by
  have hgroup : ∀ g, P g := by
    intro g
    refine Group.rec (motive_1 := fun entry => ∀ rest, R rest → R (entry :: rest))
      (motive_2 := P) (motive_3 := R) leaf ?_ group nil ?_ g
    · intro inner ih rest hrest
      exact nested inner rest ih hrest
    · intro head tail hhead htail
      exact hhead tail htail
  refine ⟨hgroup, ?_⟩
  intro entries
  induction entries with
  | nil => exact nil
  | cons entry rest ih =>
      cases entry with
      | leaf l => exact leaf l rest ih
      | nested inner => exact nested inner rest (hgroup inner) ih

/-- A property that passes from the nested groups of a group to the group holds of all. -/
theorem Group.nestedInduction {P : Group → Prop}
    (step : ∀ group : Group, (∀ inner, .nested inner ∈ group.entries → P inner) → P group)
    (group : Group) : P group := by
  refine (Group.treeInduction (P := P)
    (R := fun entries => ∀ inner, Entry.nested inner ∈ entries → P inner) ?_ ?_ ?_ ?_).1 group
  · intro conjunction keys entries lacksBundle state ih
    exact step _ ih
  · intro inner hinner
    simp at hinner
  · intro l rest ih inner hinner
    exact ih inner (by simpa using hinner)
  · intro head rest hhead ih inner hinner
    rcases List.mem_cons.1 hinner with h | h
    · cases h
      exact hhead
    · exact ih inner h

/-! ## Groups inside a group -/

namespace Group

/-- A group lies within itself and within every group that holds it at some depth. -/
inductive Within : Group → Group → Prop where
  | self (group : Group) : Within group group
  | nested {inner middle outer : Group} (mem : .nested middle ∈ outer.entries)
      (within : Within inner middle) : Within inner outer

/-- What stands within a group within a third stands within the third. -/
theorem Within.trans {a b c : Group} (hab : a.Within b) (hbc : b.Within c) : a.Within c := by
  induction hbc with
  | self => exact hab
  | nested mem _ ih => exact .nested mem ih

/-- A property that a group has at every depth. -/
def Everywhere (Q : Group → Prop) (group : Group) : Prop :=
  ∀ inner : Group, inner.Within group → Q inner

/-- What holds everywhere in a tree holds of its root. -/
theorem Everywhere.self {Q : Group → Prop} {group : Group} (h : group.Everywhere Q) : Q group :=
  h group (.self group)

/-- It holds everywhere in each nested group. -/
theorem Everywhere.nested {Q : Group → Prop} {group inner : Group} (h : group.Everywhere Q)
    (mem : .nested inner ∈ group.entries) : inner.Everywhere Q :=
  fun innermost hin => h innermost (.nested mem hin)

/-- It may be replaced by whatever follows from it. -/
theorem Everywhere.mono {Q R : Group → Prop} {group : Group} (hQR : ∀ g, Q g → R g)
    (h : group.Everywhere Q) : group.Everywhere R :=
  fun inner hin => hQR inner (h inner hin)

/-- A property holds everywhere in a group exactly when it holds of the group and
everywhere in each group nested in it. -/
theorem everywhere_iff {Q : Group → Prop} {group : Group} :
    group.Everywhere Q ↔
      Q group ∧ ∀ inner, .nested inner ∈ group.entries → inner.Everywhere Q := by
  constructor
  · intro h
    exact ⟨h.self, fun inner mem => h.nested mem⟩
  · rintro ⟨hroot, hnested⟩ innermost hin
    cases hin with
    | self => exact hroot
    | nested mem hin => exact hnested _ mem innermost hin

end Group

mutual

/-- Whether a test succeeds on all groups of a tree. -/
def Group.all (test : Group → Bool) (group : Group) : Bool :=
  match group with
  | ⟨conjunction, keys, entries, lacksBundle, state⟩ =>
    test ⟨conjunction, keys, entries, lacksBundle, state⟩ && Entry.allNested test entries

/-- Whether a test succeeds on all groups among some entries and on all groups in these. -/
def Entry.allNested (test : Group → Bool) (entries : List Entry) : Bool :=
  match entries with
  | [] => true
  | .leaf _ :: rest => Entry.allNested test rest
  | .nested group :: rest => group.all test && Entry.allNested test rest

end

namespace Group

/-- The test of a whole tree is the test of each group in it. -/
theorem all_iff {test : Group → Bool} {group : Group} :
    group.all test = true ↔ group.Everywhere fun inner => test inner = true := by
  refine (Group.treeInduction
    (P := fun group => group.all test = true ↔ group.Everywhere fun inner => test inner = true)
    (R := fun entries => Entry.allNested test entries = true ↔
      ∀ inner, .nested inner ∈ entries → inner.Everywhere fun deep => test deep = true)
    ?_ ?_ ?_ ?_).1 group
  · intro conjunction keys entries lacksBundle state ih
    rw [all, Bool.and_eq_true, ih, everywhere_iff]
  · simp [Entry.allNested]
  · intro l rest ih
    rw [Entry.allNested, ih]
    simp
  · intro inner rest hinner ih
    rw [Entry.allNested, Bool.and_eq_true, hinner, ih]
    simp

instance (Q : Group → Prop) [DecidablePred Q] (group : Group) : Decidable (group.Everywhere Q) :=
  decidable_of_iff (group.all fun inner => decide (Q inner)) <| by
    rw [all_iff]
    simp only [decide_eq_true_eq]

/-- The group to which a list of places leads, each the place of a nested group among the
entries of the one before. -/
def at? (group : Group) : List Nat → Option Group
  | [] => some group
  | place :: path =>
    match group.entries[place]? with
    | some (.nested inner) => inner.at? path
    | _ => none

/-- A path leads to a group within the tree. -/
theorem within_of_at? {path : List Nat} {group inner : Group} (h : group.at? path = some inner) :
    inner.Within group := by
  induction path generalizing group with
  | nil =>
      cases h
      exact .self _
  | cons place path ih =>
      rw [at?] at h
      split at h
      · rename_i middle hplace
        exact .nested (List.mem_of_getElem? hplace) (ih h)
      · cases h

/-- A path goes on from the nested group at its first place. -/
theorem at?_cons {group inner : Group} {place : Nat}
    (h : group.entries[place]? = some (.nested inner)) (path : List Nat) :
    group.at? (place :: path) = inner.at? path := by
  rw [at?, h]

/-- Paths lead to all groups within a group. -/
theorem exists_at?_of_within {inner outer : Group} (h : inner.Within outer) :
    ∃ path, outer.at? path = some inner := by
  induction h with
  | self => exact ⟨[], rfl⟩
  | nested mem _ ih =>
      obtain ⟨path, hpath⟩ := ih
      obtain ⟨place, hplace⟩ := List.mem_iff_getElem?.1 mem
      exact ⟨place :: path, by rw [at?_cons hplace, hpath]⟩

/-- A path may be followed in two parts. -/
theorem at?_append {group inner : Group} {path : List Nat} (h : group.at? path = some inner)
    (rest : List Nat) : group.at? (path ++ rest) = inner.at? rest := by
  induction path generalizing group with
  | nil =>
      cases h
      rfl
  | cons place path ih =>
      rw [at?] at h
      split at h
      · rename_i middle hplace
        rw [List.cons_append, at?_cons hplace]
        exact ih h
      · cases h

end Group

/-! ## Own leaves -/

/-- The leaves among the entries of a group. -/
def Entry.leaves (entries : List Entry) : List Leaf :=
  entries.filterMap fun
    | .leaf own => some own
    | .nested _ => none

/-- The leaves of a group itself, without those of its nested groups. -/
def Group.ownLeaves (group : Group) : List Leaf :=
  Entry.leaves group.entries

namespace Entry

@[simp] theorem leaves_nil : leaves [] = [] := rfl

@[simp] theorem leaves_cons_leaf (leaf : Leaf) (rest : List Entry) :
    leaves (.leaf leaf :: rest) = leaf :: leaves rest :=
  rfl

@[simp] theorem leaves_cons_nested (group : Group) (rest : List Entry) :
    leaves (.nested group :: rest) = leaves rest :=
  rfl

/-- Own leaves are collected entry by entry. -/
@[simp] theorem leaves_append (front back : List Entry) :
    leaves (front ++ back) = leaves front ++ leaves back := by
  simp [leaves]

end Entry

/-- Own leaves are the leaves among the entries. -/
theorem Group.mem_ownLeaves_iff {group : Group} {leaf : Leaf} :
    leaf ∈ group.ownLeaves ↔ .leaf leaf ∈ group.entries := by
  unfold ownLeaves Entry.leaves
  rw [List.mem_filterMap]
  constructor
  · rintro ⟨entry, hentry, heq⟩
    cases entry with
    | leaf own =>
        cases heq
        exact hentry
    | nested inner => cases heq
  · exact fun h => ⟨_, h, rfl⟩

/-! ## Erasing what compiling adds -/

mutual

/-- The group as it was built, at every depth. -/
def Group.bare (group : Group) : Group :=
  match group with
  | ⟨conjunction, keys, entries, lacksBundle, _⟩ =>
    ⟨conjunction, keys, Entry.bareAll entries, lacksBundle, .building⟩

/-- The entries of a group as they were built. -/
def Entry.bareAll (entries : List Entry) : List Entry :=
  match entries with
  | [] => []
  | .leaf leaf :: rest => .leaf leaf :: Entry.bareAll rest
  | .nested group :: rest => .nested group.bare :: Entry.bareAll rest

end

namespace Entry

/-- Erasing goes through the entries one by one. -/
theorem bareAll_getElem? (entries : List Entry) (place : Nat) :
    (bareAll entries)[place]? = entries[place]?.map fun
      | .leaf own => .leaf own
      | .nested group => .nested group.bare := by
  induction entries generalizing place with
  | nil => simp [bareAll]
  | cons entry rest ih =>
      cases entry <;> cases place <;> simp [bareAll, ih]

/-- The bare form of entries has the same own leaves. -/
@[simp] theorem leaves_bareAll (entries : List Entry) :
    leaves (bareAll entries) = leaves entries := by
  induction entries with
  | nil => simp [bareAll]
  | cons entry rest ih => cases entry <;> simp [bareAll, ih]

/-- Entries with the same bare form have the same leaves. -/
theorem leaves_eq_of_bareAll_eq {es fs : List Entry} (h : bareAll es = bareAll fs) :
    leaves es = leaves fs := by
  rw [← leaves_bareAll es, h, leaves_bareAll]

end Entry

namespace Group

@[simp] theorem bare_conjunction (group : Group) : group.bare.conjunction = group.conjunction := by
  cases group
  rfl

@[simp] theorem bare_keys (group : Group) : group.bare.keys = group.keys := by
  cases group
  rfl

/-- A bare group has the mark of the group, and so needs the same triple for its bundle. -/
@[simp] theorem bare_lacksBundle (group : Group) :
    group.bare.lacksBundle = group.lacksBundle := by
  cases group
  rfl

/-- A bare group is being built. -/
@[simp] theorem bare_state (group : Group) : group.bare.state = .building := by
  cases group
  rfl

/-- Its entries are the bare forms of the entries. -/
@[simp] theorem bare_entries (group : Group) :
    group.bare.entries = Entry.bareAll group.entries := by
  cases group
  rfl

/-- Groups that differ in their states and those of nested groups have the same bare form. -/
theorem bare_eq_of_entries {group other : Group}
    (hconjunction : other.conjunction = group.conjunction)
    (hkeys : other.keys = group.keys) (hmark : other.lacksBundle = group.lacksBundle)
    (hentries : Entry.bareAll other.entries = Entry.bareAll group.entries) :
    other.bare = group.bare := by
  cases group
  cases other
  simp_all [bare]

/-- A group whose groups are all still being built. -/
def AllBuilding (group : Group) : Prop :=
  group.Everywhere fun inner => inner.phase = .building

/-- Only a group that is being built is in the building phase: states that carry a plan are not. -/
theorem phase_eq_building_iff {group : Group} :
    group.phase = .building ↔ group.state = .building := by
  unfold phase
  cases group.state <;> simp [GroupState.phase]

theorem phase_ne_building_iff {group : Group} :
    group.phase ≠ .building ↔ group.state ≠ .building :=
  not_congr phase_eq_building_iff

/-- Every group inside a bare group is still being built. -/
theorem allBuilding_bare (group : Group) : group.bare.AllBuilding := by
  refine (Group.treeInduction (P := fun group => group.bare.AllBuilding)
    (R := fun entries => ∀ inner, .nested inner ∈ Entry.bareAll entries → inner.AllBuilding)
    ?_ ?_ ?_ ?_).1 group
  · intro conjunction keys entries lacksBundle state ih
    exact everywhere_iff.2 ⟨rfl, ih⟩
  · intro inner hinner
    simp [Entry.bareAll] at hinner
  · intro l rest ih inner hinner
    exact ih inner (by simpa [Entry.bareAll] using hinner)
  · intro head rest hhead ih inner hinner
    rw [Entry.bareAll] at hinner
    rcases List.mem_cons.1 hinner with h | h
    · cases h
      exact hhead
    · exact ih inner h

/-- Erasing changes nothing exactly in trees that are still being built. -/
theorem bare_eq_self_iff {group : Group} : group.bare = group ↔ group.AllBuilding := by
  constructor
  · intro h
    rw [← h]
    exact allBuilding_bare group
  · refine (Group.treeInduction (P := fun group => group.AllBuilding → group.bare = group)
      (R := fun entries => (∀ inner, .nested inner ∈ entries → inner.AllBuilding) →
        Entry.bareAll entries = entries) ?_ ?_ ?_ ?_).1 group
    · intro conjunction keys entries lacksBundle state ih h
      have hstate : state = .building := phase_eq_building_iff.1 h.self
      rw [bare, ih (everywhere_iff.1 h).2, hstate]
    · intro _
      rfl
    · intro l rest ih h
      rw [Entry.bareAll, ih fun inner hinner => h inner (by simp [hinner])]
    · intro head rest hhead ih h
      rw [Entry.bareAll, hhead (h head (by simp)), ih fun inner hinner => h inner (by simp [hinner])]

/-- The bare form of the group at a path. -/
theorem at?_bare (group : Group) (path : List Nat) :
    group.bare.at? path = (group.at? path).map bare := by
  induction path generalizing group with
  | nil => rfl
  | cons place path ih =>
      simp only [at?, bare_entries, Entry.bareAll_getElem?]
      cases hentry : group.entries[place]? with
      | none => simp
      | some entry =>
          cases entry with
          | leaf l => simp
          | nested inner => simpa using ih inner

end Group

end GraphCriteria
