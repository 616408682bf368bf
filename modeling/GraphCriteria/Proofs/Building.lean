import GraphCriteria.Proofs.Frozen
import GraphCriteria.Proofs.Misuse

/-!
# Building in place

A group can also be built in place, one change after another: the mark of a group is cleared as soon
as a condition is known to narrow it, and the entry is appended last.  This comes to the same, and an
addition that fails has changed nothing.  So mark and entries stay in step along every run.

Main results:

- Theorem `Addition.run_inPlace`: adding in place leaves what adding gives, or else the group itself.
- Theorem `Group.adds`: an addition that is accepted appends one entry, and one that fails changes
  nothing.
- Theorem `Group.needsDefaultBundle_iff_fields`: the mark, read off the fields of own leaves.
- Theorem `Workspace.building_of_reaches`: both, and what the plan holds, for every group that a run
  leads to.
-/

namespace GraphCriteria

/-! ## Additions -/

/-- What is added to a group. -/
inductive Addition where
  | condition (name : String) (value : Option Value) (operator : Operator)
    (language : Option String)
  | equal (name : String) (value : Value)
  | present (name : String)
  | absent (name : String)
  | nested (group : Group)

/-- The group after an addition. -/
def Group.add (group : Group) : Addition → Except ConditionError Group
  | .condition name value operator language => group.addCondition name value operator language
  | .equal name value => group.addEqual name value
  | .present name => group.addPresent name
  | .absent name => group.addAbsent name
  | .nested inner => group.addGroup inner

/-! ## Changes in place -/

/-- A step that changes a group and may fail on the way. -/
abbrev GroupStep (α : Type) : Type :=
  EStateM ConditionError Group α

namespace GroupStep

/-- The step that has a known outcome and changes nothing. -/
def ofExcept {α : Type} : Except ConditionError α → GroupStep α
  | .ok a => pure a
  | .error e => throw e

/-- Append an entry. -/
def push (entry : Entry) : GroupStep Unit :=
  modify (·.pushEntry entry)

/-- Note that a condition narrows the group to some bundle. -/
def narrow : GroupStep Unit :=
  modify fun group => { group with lacksBundle := false }

/-- Make the leaf of a condition on a field of some kind, and note at once whether it narrows the
group. -/
def makeLeaf (kind : FieldKind) (field : String) (value : Option Value) (operator : Operator)
    (language : Option String) : GroupStep Leaf :=
  match kind with
  | .id => ofExcept (keyLeaf field value operator)
  | .bundle => do
    let leaf ← ofExcept (keyLeaf field value operator)
    narrow
    pure leaf
  | .label => ofExcept (plainLeaf field value operator language)
  | .other => do
    let leaf ← ofExcept (plainLeaf field value operator language)
    narrow
    pure leaf

/-- Add a condition to a group that joins its conditions by AND. -/
def addOwn (name : String) (value : Option Value) (operator : Operator)
    (language : Option String) : GroupStep Unit := do
  let group ← get
  ofExcept group.ensureBuilding
  let leaf ← makeLeaf (group.keys.kind (baseField name)) (baseField name) value operator language
  push (.leaf leaf)

/-- Add a condition.  In a union a new branch takes it. -/
def addCondition (name : String) (value : Option Value) (operator : Operator)
    (language : Option String) : GroupStep Unit := do
  let group ← get
  ofExcept group.ensureBuilding
  match group.conjunction with
  | .and => addOwn name value operator language
  | .or =>
    match (addOwn (baseField name) value operator language).run (group.sibling .and) with
    | .ok _ branch => push (.nested branch)
    | .error e _ => throw e

end GroupStep

/-- Add to a group in place. -/
def Addition.inPlace : Addition → GroupStep Unit
  | condition name value operator language => GroupStep.addCondition name value operator language
  | equal name value => GroupStep.addCondition name (some value) .equal none
  | present name => GroupStep.addCondition name none .present none
  | absent name => GroupStep.addCondition name none .absent none
  | nested inner => do
    let group ← get
    GroupStep.ofExcept group.ensureBuilding
    GroupStep.push (.nested inner)

/-- What is left where an outcome takes the place of a group if there is one. -/
def Group.settled (group : Group) :
    Except ConditionError Group → EStateM.Result ConditionError Group Unit
  | .ok later => .ok () later
  | .error e => .error e group

section

variable {group : Group} {name : String} {value : Option Value} {operator : Operator}
  {language : Option String}

/-- An AND group takes the leaf of a condition itself. -/
theorem Group.addCondition_of_and (hstate : group.state = .building)
    (hand : group.conjunction = .and) :
    group.addCondition name value operator language =
      (group.keys.leaf (baseField name) value operator language).map group.pushLeaf := by
  rw [addCondition, ensureBuilding_eq_ok_iff.2 hstate, hand]
  cases group.keys.leaf (baseField name) value operator language <;> rfl

/-- A union takes it as a branch. -/
theorem Group.addCondition_of_or (hstate : group.state = .building)
    (hor : group.conjunction = .or) :
    group.addCondition name value operator language =
      (group.keys.leaf (baseField name) value operator language).map fun leaf =>
        group.pushEntry (.nested ((group.sibling .and).pushLeaf leaf)) := by
  rw [addCondition, ensureBuilding_eq_ok_iff.2 hstate, hor]
  cases group.keys.leaf (baseField name) value operator language <;> rfl

end

namespace GroupStep

variable {group : Group} {name : String} {value : Option Value} {operator : Operator}
  {language : Option String}

theorem run_bind_of_ok {α β : Type} {first : GroupStep α} {next : α → GroupStep β} {a : α}
    {mid : Group} (h : first.run group = .ok a mid) :
    (first >>= next).run group = (next a).run mid := by
  rw [EStateM.run_bind, h]

theorem run_bind_of_error {α β : Type} {first : GroupStep α} {next : α → GroupStep β}
    {e : ConditionError} {mid : Group} (h : first.run group = .error e mid) :
    (first >>= next).run group = .error e mid := by
  rw [EStateM.run_bind, h]

/-- A group that is being built goes on. -/
theorem run_check_of_building (hstate : group.state = .building) :
    (ofExcept group.ensureBuilding).run group = .ok () group := by
  rw [Group.ensureBuilding_eq_ok_iff.2 hstate]
  rfl

/-- The leaf that is made is the one that building stores. -/
theorem run_makeLeaf_of_ok {leaf : Leaf} {field : String}
    (h : group.keys.leaf field value operator language = .ok leaf) :
    (makeLeaf (group.keys.kind field) field value operator language).run group =
      .ok leaf
        { group with
          lacksBundle := group.lacksBundle && !(group.keys.kind field).narrows } := by
  unfold EntityKeys.leaf at h
  cases hkind : group.keys.kind field with
  | id =>
      rw [hkind, FieldKind.isKey, if_pos rfl] at h
      rw [makeLeaf, h, FieldKind.narrows, Bool.not_false, Bool.and_true]
      cases group
      rfl
  | bundle =>
      rw [hkind, FieldKind.isKey, if_pos rfl] at h
      rw [makeLeaf, h, FieldKind.narrows, Bool.not_true, Bool.and_false]
      rfl
  | label =>
      rw [hkind, FieldKind.isKey, if_neg (by decide)] at h
      rw [makeLeaf, h, FieldKind.narrows, Bool.not_false, Bool.and_true]
      cases group
      rfl
  | other =>
      rw [hkind, FieldKind.isKey, if_neg (by decide)] at h
      rw [makeLeaf, h, FieldKind.narrows, Bool.not_true, Bool.and_false]
      rfl

/-- Where there is none, nothing is noted. -/
theorem run_makeLeaf_of_error {field : String} {e : ConditionError}
    (h : group.keys.leaf field value operator language = .error e) :
    (makeLeaf (group.keys.kind field) field value operator language).run group =
      .error e group := by
  unfold EntityKeys.leaf at h
  cases hkind : group.keys.kind field with
  | id | bundle =>
      rw [hkind, FieldKind.isKey, if_pos rfl] at h
      rw [makeLeaf, h]
      rfl
  | label | other =>
      rw [hkind, FieldKind.isKey, if_neg (by decide)] at h
      rw [makeLeaf, h]
      rfl

/-- Adding to an AND group in place leaves the group with the leaf, or else as it was. -/
theorem run_addOwn (group : Group) (hstate : group.state = .building)
    (hand : group.conjunction = .and) (name : String) (value : Option Value) (operator : Operator)
    (language : Option String) :
    (addOwn name value operator language).run group =
      group.settled (group.addCondition name value operator language) := by
  have hget : (get : GroupStep Group).run group = .ok group group := rfl
  rw [addOwn, run_bind_of_ok hget, run_bind_of_ok (run_check_of_building hstate),
    Group.addCondition_of_and hstate hand]
  cases hleaf : group.keys.leaf (baseField name) value operator language with
  | ok leaf =>
      -- The mark was set from the name, and the leaf is stored under it.
      rw [run_bind_of_ok (run_makeLeaf_of_ok hleaf), ← EntityKeys.field_leaf hleaf]
      rfl
  | error e =>
      rw [run_bind_of_error (run_makeLeaf_of_error hleaf)]
      rfl

/-- In any group, adding a condition in place leaves what adding it gives, or else the group as it
was. -/
theorem run_addCondition (group : Group) (name : String) (value : Option Value)
    (operator : Operator) (language : Option String) :
    (addCondition name value operator language).run group =
      group.settled (group.addCondition name value operator language) := by
  have hget : (get : GroupStep Group).run group = .ok group group := rfl
  rw [addCondition, run_bind_of_ok hget]
  by_cases hstate : group.state = .building
  · rw [run_bind_of_ok (run_check_of_building hstate)]
    cases hconjunction : group.conjunction with
    | and => exact run_addOwn group hstate hconjunction name value operator language
    | or =>
        -- The field that a name addresses addresses itself, so the branch stores the same leaf.
        have hname : baseField (baseField name) = baseField name :=
          baseField_eq_self (dot_not_mem_baseField name)
        have hbranch := run_addOwn (group.sibling .and) rfl rfl (baseField name) value operator
          language
        rw [Group.addCondition_of_and rfl rfl, hname] at hbranch
        dsimp only
        rw [hbranch, Group.addCondition_of_or hstate hconjunction]
        have hkeys : (group.sibling .and).keys = group.keys := rfl
        rw [hkeys]
        cases group.keys.leaf (baseField name) value operator language <;> rfl
  · rw [Group.addCondition, Group.ensureBuilding_of_compiled hstate]
    rfl

end GroupStep

/-- Adding in place leaves what adding gives, or else the group as it was. -/
theorem Addition.run_inPlace (addition : Addition) (group : Group) :
    addition.inPlace.run group = group.settled (group.add addition) := by
  cases addition with
  | condition name value operator language =>
      exact GroupStep.run_addCondition group name value operator language
  | equal name value => exact GroupStep.run_addCondition group name (some value) .equal none
  | present name => exact GroupStep.run_addCondition group name none .present none
  | absent name => exact GroupStep.run_addCondition group name none .absent none
  | nested inner =>
      have hget : (get : GroupStep Group).run group = .ok group group := rfl
      rw [inPlace, GroupStep.run_bind_of_ok hget, Group.add, Group.addGroup]
      cases group.ensureBuilding <;> rfl

/-- An addition appends one entry to a group that is being built, or else it fails and leaves the
group as it was, also when it is carried out in place. -/
structure Group.Takes (group : Group) (addition : Addition) : Prop where
  failed : ∀ e, group.add addition = .error e → addition.inPlace.run group = .error e group
  accepted : ∀ later, group.add addition = .ok later →
    addition.inPlace.run group = .ok () later ∧
      group.phase = .building ∧ later.phase = .building ∧
      later.conjunction = group.conjunction ∧ later.keys = group.keys ∧
      ∃ entry, later.entries = group.entries ++ [entry]

/-- What an accepted addition has in common with the group that it is made to. -/
theorem Group.add_ok {group later : Group} {addition : Addition}
    (h : group.add addition = .ok later) :
    group.state = .building ∧ later.state = .building ∧
      later.conjunction = group.conjunction ∧ later.keys = group.keys ∧
      ∃ entry, later.entries = group.entries ++ [entry] := by
  have hcondition : ∀ {name value operator language},
      group.addCondition name value operator language = .ok later →
      group.state = .building ∧ later.state = .building ∧
        later.conjunction = group.conjunction ∧ later.keys = group.keys ∧
        ∃ entry, later.entries = group.entries ++ [entry] := by
    intro name value operator language h
    obtain ⟨hstate, leaf, _, ⟨_, rfl⟩ | ⟨_, rfl⟩⟩ := addCondition_ok h
    · exact ⟨hstate, hstate, rfl, rfl, _, entries_pushLeaf group leaf⟩
    · exact ⟨hstate, hstate, rfl, rfl, _, entries_pushEntry group _⟩
  cases addition with
  | condition | equal | present | absent => exact hcondition h
  | nested inner =>
      obtain ⟨hstate, rfl⟩ := addGroup_ok h
      exact ⟨hstate, hstate, rfl, rfl, _, entries_pushEntry group _⟩

/-- Every addition is of this kind. -/
theorem Group.takes (group : Group) (addition : Addition) : group.Takes addition where
  failed e h := by rw [addition.run_inPlace, h]; rfl
  accepted later h := by
    obtain ⟨hstate, hstate', hrest⟩ := add_ok h
    refine ⟨?_, phase_eq_building_iff.2 hstate, phase_eq_building_iff.2 hstate', hrest⟩
    rw [addition.run_inPlace, h]
    rfl

/-! ## The mark and the entries -/

/-- A condition narrows a group to some bundle when it is about the bundle key, unless this is the id
key as well, or about a field that is no key. -/
theorem EntityKeys.narrows_kind_iff {keys : EntityKeys} {field : String} :
    (keys.kind field).narrows = false ↔ ¬ (field = keys.bundle ∧ field ≠ keys.id) ∧
      (field = keys.id ∨ field = keys.bundle ∨ keys.label = some field) := by
  unfold kind
  by_cases hid : field = keys.id
  · rw [if_pos hid]
    simp [hid, FieldKind.narrows]
  · rw [if_neg hid]
    by_cases hbundle : field = keys.bundle
    · rw [if_pos hbundle]
      subst hbundle
      simp [hid, FieldKind.narrows]
    · rw [if_neg hbundle]
      split <;> simp_all [FieldKind.narrows]

namespace Group

/-- Whether a group is to be linked to its bundle, read off the fields of its own leaves. -/
theorem needsDefaultBundle_iff_fields {group : Group} (h : group.Marked) :
    group.needsDefaultBundle = true ↔ group.conjunction = .and ∧
      ∀ leaf, .leaf leaf ∈ group.entries →
        ¬ (leaf.field = group.keys.bundle ∧ leaf.field ≠ group.keys.id) ∧
          (leaf.field = group.keys.id ∨ leaf.field = group.keys.bundle ∨
            group.keys.label = some leaf.field) := by
  rw [needsDefaultBundle_iff h]
  simp only [mem_ownLeaves_iff, EntityKeys.narrows_kind_iff]

/-- The plan of a group links it to its bundle exactly when this is needed. -/
theorem PlannedIn.isSome_defaultBundle_iff {group : Group} {ctx : Context} {plan : Plan}
    (h : group.PlannedIn ctx plan) :
    plan.defaultBundle.isSome = true ↔ group.needsDefaultBundle = true := by
  obtain ⟨subject, draft, triple?, _, _, hbundle, rfl⟩ := h
  rcases defaultBundle_ok hbundle with ⟨hneeds, target, _, rfl⟩ | ⟨hneeds, rfl⟩ <;>
    simp [Draft.finish, hneeds]

end Group

/-! ## Reachable groups -/

/-- In every group that a run leads to, whatever has failed on the way, and at every depth: an
addition that is accepted appends one entry to a group that is being built, and one that fails
changes nothing; the group is to be linked to its bundle by a triple of its own exactly when it joins
its conditions by AND and no own leaf is about the bundle key, where this is not the id key, or about
a field that is no key; and once it is compiled, its plan has this triple exactly then. -/
theorem Workspace.building_of_reaches {steps : List WorkspaceStep} {group inner : Group}
    (hreach : Reaches steps group) (hinner : inner.Within group) :
    (∀ addition, inner.Takes addition) ∧
    (inner.needsDefaultBundle = true ↔ inner.conjunction = .and ∧
      ∀ leaf, .leaf leaf ∈ inner.entries →
        ¬ (leaf.field = inner.keys.bundle ∧ leaf.field ≠ inner.keys.id) ∧
          (leaf.field = inner.keys.id ∨ leaf.field = inner.keys.bundle ∨
            inner.keys.label = some leaf.field)) ∧
    ∀ plan, inner.plan? = some plan →
      (plan.defaultBundle.isSome = true ↔ inner.needsDefaultBundle = true) := by
  have hmarked := (Group.marked_invariant (Uses steps)).everywhere hreach
  have hplanned := (Group.planned_invariant (Uses steps)).everywhere hreach
  refine ⟨inner.takes, Group.needsDefaultBundle_iff_fields (hmarked inner hinner), ?_⟩
  intro plan hplan
  obtain ⟨ctx, _, hmade⟩ := hplanned inner hinner plan hplan
  exact hmade.isSome_defaultBundle_iff

/-- Build nodes of a given title, after two conditions on keys that are not accepted. -/
def Sample.interrupted : List WorkspaceStep :=
  [.make "page" .and keys, .add "page" "type" (some (.single "a")) "LIKE" none,
    .addEqual "page" "title" (.single "'home'"), .add "page" "nid" (some (.list [])) "IN" none]

/-- The group that is built. -/
def Sample.interruptedPage : Group :=
  ((Workspace.run {} interrupted).get? "page").getD default

/-- Neither failure has left a trace: the group still needs the triple of its bundle.  A condition on
its bundle that is accepted takes this away, and one that fails does not. -/
theorem Workspace.building_of_interrupted :
    Reaches Sample.interrupted Sample.interruptedPage ∧
      Sample.interruptedPage.Within Sample.interruptedPage ∧
      Sample.interruptedPage.needsDefaultBundle = true ∧
      (Addition.condition "type" (some (.single "a")) .less none).inPlace.run
          Sample.interruptedPage =
        .error (.unsupportedOperatorForKey "type" .less) Sample.interruptedPage ∧
      ∃ later, (Addition.equal "type" (.single "page")).inPlace.run Sample.interruptedPage =
          .ok () later ∧ later.needsDefaultBundle = false := by
  have hreach : Reaches Sample.interrupted Sample.interruptedPage := ⟨"page", rfl⟩
  obtain ⟨htakes, hneeds, _⟩ := building_of_reaches hreach (.self _)
  refine ⟨hreach, .self _, hneeds.2 ⟨rfl, ?_⟩, (htakes _).failed _ rfl, _,
    ((htakes _).accepted _ rfl).1, rfl⟩
  have hentries : Sample.interruptedPage.entries =
      [.leaf ⟨"title", some (.single "'home'"), .equal, none⟩] := rfl
  intro leaf hleaf
  rw [hentries, List.mem_singleton] at hleaf
  cases hleaf
  decide

/-- Build something whose id is its bundle as well, and that has a given id. -/
def Sample.sharing : List WorkspaceStep :=
  [.make "page" .and ⟨"nid", "nid", none⟩, .addEqual "page" "nid" (.single "1")]

/-- The group that is built. -/
def Sample.sharingPage : Group :=
  ((Workspace.run {} sharing).get? "page").getD default

/-- A condition on a key that is both counts as one on the id.  So the group still needs the triple of
its bundle, though it has a leaf on its bundle key. -/
theorem Workspace.needsDefaultBundle_of_sharing :
    Reaches Sample.sharing Sample.sharingPage ∧
      ¬ (Sample.sharingPage.needsDefaultBundle = true ↔ Sample.sharingPage.conjunction = .and ∧
        ∀ leaf, .leaf leaf ∈ Sample.sharingPage.entries →
          leaf.field ≠ Sample.sharingPage.keys.bundle ∧
            (leaf.field = Sample.sharingPage.keys.id ∨
              leaf.field = Sample.sharingPage.keys.bundle ∨
              Sample.sharingPage.keys.label = some leaf.field)) := by
  refine ⟨⟨"page", rfl⟩, fun hiff => ?_⟩
  have hentries : Sample.sharingPage.entries =
      [.leaf ⟨"nid", some (.list ["1"]), .isIn, none⟩] := rfl
  have hleaf := (hiff.1 rfl).2 ⟨"nid", some (.list ["1"]), .isIn, none⟩ (by simp [hentries])
  exact hleaf.1 rfl

end GraphCriteria
