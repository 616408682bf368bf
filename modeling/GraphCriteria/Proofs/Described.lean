import GraphCriteria.Proofs.Tree
import GraphCriteria.Request.Description

/-!
# What descriptions describe

A description stands for a tree of groups.  Each condition is a leaf of its group, or in a union
the leaf of a branch of its own.  Building makes this tree unless a condition is not accepted;
then the first such condition decides the error, where the conditions of a described group come
before those of the entries that follow it.

Main results:

- Theorem `GroupDescription.treeInduction`: a description and its entries are proved about
  together.
- Theorem `EntityKeys.leaf_eq`: when a condition is accepted, and what is stored for it.
- Theorem `GroupDescription.build_eq`: building fails with the first fault of all conditions, and
  makes the described tree if there are none.
-/

namespace GraphCriteria

/-! ## Induction over descriptions -/

/-- A property of descriptions and a property of lists of described entries, proved along the
description. -/
theorem GroupDescription.treeInduction {P : GroupDescription → Prop}
    {R : List EntryDescription → Prop}
    (group : ∀ conjunction entries, R entries → P ⟨conjunction, entries⟩)
    (nil : R [])
    (leaf : ∀ field value operator language rest, R rest →
      R (.leaf field value operator language :: rest))
    (nested : ∀ description rest, P description → R rest → R (.group description :: rest)) :
    (∀ description, P description) ∧ ∀ entries, R entries := by
  have hgroup : ∀ description, P description := by
    intro description
    refine GroupDescription.rec (motive_1 := fun entry => ∀ rest, R rest → R (entry :: rest))
      (motive_2 := P) (motive_3 := R) ?_ leaf group nil ?_ description
    · intro inner ih rest hrest
      exact nested inner rest ih hrest
    · intro head tail hhead htail
      exact hhead tail htail
  refine ⟨hgroup, ?_⟩
  intro entries
  induction entries with
  | nil => exact nil
  | cons entry rest ih =>
      cases entry with
      | group inner => exact nested inner rest (hgroup inner) ih
      | leaf field value operator language => exact leaf field value operator language rest ih

/-! ## First faults -/

/-- What comes of a step that has some faults, in order: the first of them, or a value if there
are none. -/
def firstFault {α : Type} (faults : List ConditionError) (value : α) : Except ConditionError α :=
  match faults with
  | [] => .ok value
  | e :: _ => .error e

/-- The first fault of checks in a row is the first among the faults of all. -/
theorem firstFault_bind {α β : Type} {faults more : List ConditionError} {a : α} {b : β}
    {next : α → Except ConditionError β} (hnext : next a = firstFault more b) :
    (firstFault faults a >>= next) = firstFault (faults ++ more) b := by
  cases faults with
  | nil => exact hnext
  | cons e faults => rfl

/-! ## Conditions -/

/-- Whether the value of a condition is a list. -/
def Leaf.hasList (leaf : Leaf) : Bool :=
  match leaf.value with
  | some (.list _) => true
  | _ => false

/-- The faults of a condition as it is asked for.  On keys only sets of members are accepted, or
a single one. -/
def EntityKeys.askingFaults (keys : EntityKeys) (asked : Leaf) : List ConditionError :=
  if (keys.kind asked.field).isKey then
    (if asked.operator.isKeyOperator then []
      else [.unsupportedOperatorForKey asked.field asked.operator]) ++
    (if asked.value.all Value.isEmpty then [.missingRequiredValue asked.field asked.operator]
      else []) ++
    (if (asked.operator = .equal ∨ asked.operator = .notEqual) ∧ asked.hasList then
        [.unsupportedArrayValue asked.field asked.operator]
      else [])
  else if asked.operator.usesValue ∧ asked.value = none then
    [.missingRequiredValue asked.field asked.operator]
  else []

/-- The operator under which a condition on a key is stored. -/
def Operator.forKeys : Operator → Operator
  | equal => isIn
  | notEqual => notIn
  | operator => operator

/-- The leaf that is stored for a condition which is accepted. -/
def EntityKeys.stored (keys : EntityKeys) (asked : Leaf) : Leaf :=
  if (keys.kind asked.field).isKey then
    ⟨asked.field, asked.value.map (.list ·.toList), asked.operator.forKeys, none⟩
  else
    match asked.operator with
    | .present | .absent => { asked with value := none }
    | .isIn | .notIn => { asked with value := asked.value.map (.list ·.toList) }
    | _ => asked

@[simp] theorem EntityKeys.field_stored (keys : EntityKeys) (asked : Leaf) :
    (keys.stored asked).field = asked.field := by
  unfold stored
  split
  · rfl
  · split <;> rfl

/-- An accepted condition on a key is stored as a set of members. -/
theorem EntityKeys.stored_of_isKey {keys : EntityKeys} {asked : Leaf}
    (hkey : (keys.kind asked.field).isKey = true) (haccepted : keys.askingFaults asked = []) :
    ∃ value, asked.value = some value ∧
      (keys.stored asked).value = some (.list value.toList) ∧
      (keys.stored asked).language = none ∧
      ((keys.stored asked).operator = .isIn ∨ (keys.stored asked).operator = .notIn) := by
  obtain ⟨field, value, operator, language⟩ := asked
  simp only [askingFaults, hkey, if_true, List.append_eq_nil_iff] at haccepted
  obtain ⟨⟨hoperator, hvalue⟩, _⟩ := haccepted
  cases value with
  | none => simp at hvalue
  | some value =>
      refine ⟨value, rfl, ?_⟩
      cases operator <;> simp_all [stored, Operator.isKeyOperator, Operator.forKeys]

/-- A condition is accepted when it has no faults. -/
theorem EntityKeys.leaf_eq (keys : EntityKeys) (asked : Leaf) :
    keys.leaf asked.field asked.value asked.operator asked.language =
      firstFault (keys.askingFaults asked) (keys.stored asked) := by
  obtain ⟨field, value, operator, language⟩ := asked
  unfold leaf askingFaults stored
  by_cases hkey : (keys.kind field).isKey = true
  · simp only [hkey]
    rcases value with _ | ⟨text⟩ | ⟨_ | ⟨text, texts⟩⟩ <;> cases operator <;> rfl
  · simp only [hkey]
    rcases value with _ | ⟨text⟩ | ⟨texts⟩ <;> cases operator <;> rfl

/-- The faults of the name of an operator. -/
def operatorFaults (name : Option String) : List ConditionError :=
  match name with
  | none => []
  | some name => if (Operator.named? name).isSome then [] else [.unknownOperator name]

/-- A described condition as it is asked for, about the field that its name addresses. -/
def askedLeaf (field : String) (value : Option Value) (operator language : Option String) : Leaf :=
  ⟨baseField field, value, (operator.bind Operator.named?).getD .equal, language⟩

/-- The name of an operator is faulty if it names none, and a missing name is no fault. -/
theorem operatorOf_eq (name : Option String) :
    operatorOf name =
      firstFault (operatorFaults name) ((name.bind Operator.named?).getD .equal) := by
  cases name with
  | none => rfl
  | some name =>
      rw [operatorOf, Operator.ofName, operatorFaults, Option.bind_some]
      cases Operator.named? name <;> rfl

/-! ## Groups -/

namespace Group

/-- A group that is built of some entries. -/
def ofEntries (conjunction : Conjunction) (keys : EntityKeys) (entries : List Entry) : Group :=
  ⟨conjunction, keys, entries,
    (Entry.leaves entries).all fun leaf => !(keys.kind leaf.field).narrows, .building⟩

/-- The entry for a leaf: in a union, a branch of its own. -/
def entryOf (conjunction : Conjunction) (keys : EntityKeys) (leaf : Leaf) : Entry :=
  match conjunction with
  | .and => .leaf leaf
  | .or => .nested (ofEntries .and keys [.leaf leaf])

variable (conjunction : Conjunction) (keys : EntityKeys) (entries : List Entry)

/-- A nested group goes behind the entries that are there. -/
theorem addGroup_ofEntries (nested : Group) :
    (ofEntries conjunction keys entries).addGroup nested =
      .ok (ofEntries conjunction keys (entries ++ [.nested nested])) := by
  have hleaves : Entry.leaves (entries ++ [.nested nested]) = Entry.leaves entries := by simp
  rw [ofEntries, ofEntries, hleaves]
  rfl

/-- An accepted condition adds the entry for its leaf. -/
theorem addCondition_ofEntries (name : String) (value : Option Value) (operator : Operator)
    (language : Option String) :
    (ofEntries conjunction keys entries).addCondition name value operator language =
      firstFault (keys.askingFaults ⟨baseField name, value, operator, language⟩)
        (ofEntries conjunction keys
          (entries ++ [entryOf conjunction keys
            (keys.stored ⟨baseField name, value, operator, language⟩)])) := by
  have hleaf := keys.leaf_eq ⟨baseField name, value, operator, language⟩
  have hbuilding : (ofEntries conjunction keys entries).ensureBuilding = .ok () := rfl
  have hkeys : (ofEntries conjunction keys entries).keys = keys := rfl
  have hconjunction : (ofEntries conjunction keys entries).conjunction = conjunction := rfl
  rw [addCondition, hbuilding, hkeys, hconjunction]
  dsimp only at hleaf
  dsimp only [bind, Except.bind]
  rw [hleaf]
  cases keys.askingFaults ⟨baseField name, value, operator, language⟩ with
  | cons e faults => rfl
  | nil =>
      cases conjunction with
      | and => simp [firstFault, ofEntries, entryOf, pushLeaf, pushEntry, pure, Except.pure]
      | or =>
          simp [firstFault, ofEntries, entryOf, pushLeaf, pushEntry, sibling, new, pure,
            Except.pure]

end Group

/-! ## Described trees -/

mutual

/-- The faults of all conditions of a description as they are asked for. -/
def GroupDescription.askingFaults (keys : EntityKeys) (description : GroupDescription) :
    List ConditionError :=
  match description with
  | ⟨_, entries⟩ => EntryDescription.askingFaults keys entries

/-- The faults of all conditions of some entries as they are asked for. -/
def EntryDescription.askingFaults (keys : EntityKeys) (entries : List EntryDescription) :
    List ConditionError :=
  match entries with
  | [] => []
  | .group description :: rest =>
    description.askingFaults keys ++ EntryDescription.askingFaults keys rest
  | .leaf field value operator language :: rest =>
    operatorFaults operator ++ keys.askingFaults (askedLeaf field value operator language) ++
      EntryDescription.askingFaults keys rest

end

mutual

/-- The tree of groups that a description stands for. -/
def GroupDescription.tree (keys : EntityKeys) (description : GroupDescription) : Group :=
  match description with
  | ⟨conjunction, entries⟩ =>
    Group.ofEntries conjunction keys (EntryDescription.trees keys conjunction entries)

/-- The entries that some described entries of a group stand for. -/
def EntryDescription.trees (keys : EntityKeys) (conjunction : Conjunction)
    (entries : List EntryDescription) : List Entry :=
  match entries with
  | [] => []
  | .group description :: rest =>
    .nested (description.tree keys) :: EntryDescription.trees keys conjunction rest
  | .leaf field value operator language :: rest =>
    Group.entryOf conjunction keys (keys.stored (askedLeaf field value operator language)) ::
      EntryDescription.trees keys conjunction rest

end

/-- Building fails with the first fault of all conditions, and makes the described tree if there
are none. -/
theorem GroupDescription.build_eq (keys : EntityKeys) (description : GroupDescription) :
    description.build keys =
      firstFault (description.askingFaults keys) (description.tree keys) := by
  refine (GroupDescription.treeInduction
    (P := fun description => description.build keys =
      firstFault (description.askingFaults keys) (description.tree keys))
    (R := fun entries => ∀ conjunction before,
      EntryDescription.addAll keys entries (Group.ofEntries conjunction keys before) =
        firstFault (EntryDescription.askingFaults keys entries)
          (Group.ofEntries conjunction keys
            (before ++ EntryDescription.trees keys conjunction entries))) ?_ ?_ ?_ ?_).1 description
  · intro conjunction entries ih
    rw [GroupDescription.build, askingFaults, tree]
    exact ih conjunction []
  · intro conjunction before
    rw [EntryDescription.addAll, EntryDescription.askingFaults, EntryDescription.trees,
      List.append_nil]
    rfl
  · intro field value operator language rest ih conjunction before
    rw [EntryDescription.addAll, EntryDescription.askingFaults, EntryDescription.trees,
      operatorOf_eq, List.append_assoc]
    apply firstFault_bind
    rw [Group.addCondition_ofEntries]
    apply firstFault_bind
    rw [ih, List.append_assoc]
    rfl
  · intro inner rest hinner ih conjunction before
    rw [EntryDescription.addAll, EntryDescription.askingFaults, EntryDescription.trees, hinner]
    apply firstFault_bind
    rw [Group.addGroup_ofEntries]
    dsimp only [bind, Except.bind]
    rw [ih, List.append_assoc]
    rfl

/-- What holds of every group that is built of entries holds everywhere in a described tree. -/
theorem GroupDescription.everywhere_tree_of {keys : EntityKeys} {Q : Group → Prop}
    (h : ∀ conjunction entries, Q (Group.ofEntries conjunction keys entries))
    (description : GroupDescription) : (description.tree keys).Everywhere Q := by
  refine (GroupDescription.treeInduction
    (P := fun description => (description.tree keys).Everywhere Q)
    (R := fun entries => ∀ conjunction inner,
      .nested inner ∈ EntryDescription.trees keys conjunction entries → inner.Everywhere Q)
    ?_ ?_ ?_ ?_).1 description
  · intro conjunction entries ih
    rw [tree]
    exact Group.everywhere_iff.2 ⟨h _ _, ih conjunction⟩
  · intro conjunction inner hinner
    simp [EntryDescription.trees] at hinner
  · intro field value operator language rest ih conjunction inner hinner
    rw [EntryDescription.trees] at hinner
    rcases List.mem_cons.1 hinner with hbranch | hrest
    · cases conjunction with
      | and => cases hbranch
      | or =>
          cases hbranch
          refine Group.everywhere_iff.2 ⟨h _ _, ?_⟩
          intro inner hinner
          simp [Group.ofEntries] at hinner
    · exact ih conjunction inner hrest
  · intro head rest hhead ih conjunction inner hinner
    rw [EntryDescription.trees] at hinner
    rcases List.mem_cons.1 hinner with heq | hrest
    · cases heq
      exact hhead
    · exact ih conjunction inner hrest

/-- All groups of a described tree are being built, under the same keys. -/
theorem GroupDescription.everywhere_tree (keys : EntityKeys) (description : GroupDescription) :
    (description.tree keys).Everywhere fun inner =>
      inner.state = .building ∧ inner.keys = keys :=
  everywhere_tree_of (fun _ _ => ⟨rfl, rfl⟩) description

theorem GroupDescription.allBuilding_tree (keys : EntityKeys) (description : GroupDescription) :
    (description.tree keys).AllBuilding :=
  (everywhere_tree keys description).mono fun _ h => Group.phase_eq_building_iff.2 h.1

end GraphCriteria
