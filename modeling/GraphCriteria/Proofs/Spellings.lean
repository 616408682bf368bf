import GraphCriteria.Proofs.Agreement

/-!
# Spellings of one request

A condition can be asked for in several ways: with a column after its field, with a single member
for a list of one, with another name of its operator, or within a group of its own in a union.  The
subject may be named with question marks in front.  All spellings of a request give the same
output, or the same error.

Main definitions:

- Definition `EntryDescription.Respelled`: two spellings of one condition.
- Definition `EntryDescription.SpelledAlike`: described entries that differ in the spellings of
  their conditions, at whatever depth.

Main results:

- Theorem `EntryDescription.Respelled.made_eq`: spellings of a condition make the same entry.
- Theorem `GroupDescription.SpelledAlike.build_eq`: spellings of a description build the same group.
- Theorem `CompileRequest.compile_spelledAlike`: spellings of a request compile alike.
-/

namespace GraphCriteria

/-! ## Spellings -/

/-- Two spellings of one condition of a group. -/
inductive EntryDescription.Respelled (keys : EntityKeys) (conjunction : Conjunction) :
    EntryDescription → EntryDescription → Prop where
  /-- A column is named after the field. -/
  | column (field column : String) (value : Option Value) (operator language : Option String) :
      Respelled keys conjunction (.leaf field value operator language)
        (.leaf (field ++ "." ++ column) value operator language)
  /-- A key equals the one member of a set. -/
  | keyEqual {field : String} {operator other : Option String}
      (hkey : (keys.kind (baseField field)).isKey = true)
      (hequal : operatorOf operator = .ok .equal)
      (hisIn : operatorOf other = .ok .isIn) (text : String) (language : Option String) :
      Respelled keys conjunction (.leaf field (some (.single text)) operator language)
        (.leaf field (some (.list [text])) other language)
  /-- A key differs from the one member of a set. -/
  | keyNotEqual {field : String} {operator other : Option String}
      (hkey : (keys.kind (baseField field)).isKey = true)
      (hnotEqual : operatorOf operator = .ok .notEqual) (hnotIn : operatorOf other = .ok .notIn)
      (text : String) (language : Option String) :
      Respelled keys conjunction (.leaf field (some (.single text)) operator language)
        (.leaf field (some (.list [text])) other language)
  /-- A key has no language. -/
  | keyLanguage {field : String} (hkey : (keys.kind (baseField field)).isKey = true)
      (value : Option Value) (operator language other : Option String) :
      Respelled keys conjunction (.leaf field value operator language)
        (.leaf field value operator other)
  /-- A set has one member. -/
  | member {operator : Option String}
      (hset : operatorOf operator = .ok .isIn ∨ operatorOf operator = .ok .notIn)
      (field text : String) (language : Option String) :
      Respelled keys conjunction (.leaf field (some (.single text)) operator language)
        (.leaf field (some (.list [text])) operator language)
  /-- Whether a field exists does not depend on a value. -/
  | existence {operator : Option String}
      (hexists : operatorOf operator = .ok .present ∨ operatorOf operator = .ok .absent)
      (field : String) (value other : Option Value) (language : Option String) :
      Respelled keys conjunction (.leaf field value operator language)
        (.leaf field other operator language)
  /-- An operator has several names, and equality needs none. -/
  | operator {name other : Option String} {meant : Operator} (hname : operatorOf name = .ok meant)
      (hother : operatorOf other = .ok meant) (field : String) (value : Option Value)
      (language : Option String) :
      Respelled keys conjunction (.leaf field value name language)
        (.leaf field value other language)
  /-- A condition of a union is a branch of its own. -/
  | branch (hor : conjunction = .or) (field : String) (value : Option Value)
      (operator language : Option String) :
      Respelled keys conjunction (.leaf field value operator language)
        (.group ⟨.and, [.leaf field value operator language]⟩)

/-- Described entries of a group that differ in the spellings of conditions, their own and those
of nested groups. -/
inductive EntryDescription.SpelledAlike (keys : EntityKeys) :
    Conjunction → List EntryDescription → List EntryDescription → Prop where
  | refl (conjunction : Conjunction) (entries : List EntryDescription) :
      SpelledAlike keys conjunction entries entries
  | symm {conjunction : Conjunction} {entries others : List EntryDescription}
      (h : SpelledAlike keys conjunction entries others) :
      SpelledAlike keys conjunction others entries
  | trans {conjunction : Conjunction} {entries between others : List EntryDescription}
      (h : SpelledAlike keys conjunction entries between)
      (hrest : SpelledAlike keys conjunction between others) :
      SpelledAlike keys conjunction entries others
  | head {conjunction : Conjunction} {entry other : EntryDescription}
      (h : entry.Respelled keys conjunction other) (rest : List EntryDescription) :
      SpelledAlike keys conjunction (entry :: rest) (other :: rest)
  | tail {conjunction : Conjunction} {rest others : List EntryDescription}
      (entry : EntryDescription) (h : SpelledAlike keys conjunction rest others) :
      SpelledAlike keys conjunction (entry :: rest) (entry :: others)
  | group {inner : Conjunction} {entries others : List EntryDescription} (conjunction : Conjunction)
      (h : SpelledAlike keys inner entries others) (rest : List EntryDescription) :
      SpelledAlike keys conjunction (.group ⟨inner, entries⟩ :: rest)
        (.group ⟨inner, others⟩ :: rest)

/-- Two descriptions of a group that differ in the spellings of conditions. -/
def GroupDescription.SpelledAlike (keys : EntityKeys) (description other : GroupDescription) :
    Prop :=
  other.conjunction = description.conjunction ∧
    EntryDescription.SpelledAlike keys description.conjunction description.entries other.entries

/-! ## Entries made by building -/

/-- A column after a field does not change the field that is addressed. -/
theorem baseField_column (field column : String) :
    baseField (field ++ "." ++ column) = baseField field := by
  have hdrop : ∀ cs : List Char,
      (cs ++ '.' :: column.toList).takeWhile (· != '.') = cs.takeWhile (· != '.') := by
    intro cs
    induction cs with
    | nil => rfl
    | cons c cs ih =>
        rw [List.cons_append, List.takeWhile_cons, List.takeWhile_cons, ih]
  have hlist : (field ++ "." ++ column).toList = field.toList ++ '.' :: column.toList := by
    simp
  rw [baseField, baseField, hlist, hdrop]

/-- The leaf that is stored for a described condition. -/
def EntityKeys.described (keys : EntityKeys) (field : String) (value : Option Value)
    (operator language : Option String) : Except ConditionError Leaf := do
  let operator ← operatorOf operator
  keys.leaf (baseField field) value operator language

theorem EntityKeys.described_eq {operator : Option String} {meant : Operator}
    (h : operatorOf operator = .ok meant) (keys : EntityKeys) (field : String)
    (value : Option Value) (language : Option String) :
    keys.described field value operator language =
      keys.leaf (baseField field) value meant language := by
  rw [described, h]
  rfl

namespace EntryDescription

variable {keys : EntityKeys} {conjunction : Conjunction}

/-- The entry that building makes of a described one. -/
def made (keys : EntityKeys) (conjunction : Conjunction) :
    EntryDescription → Except ConditionError Entry
  | .group description => (description.build keys).map .nested
  | .leaf field value operator language =>
    (keys.described field value operator language).map (Group.entryOf conjunction keys)

/-- Building makes the entries one after another. -/
theorem addAll_cons (entry : EntryDescription) (rest : List EntryDescription)
    (before : List Entry) :
    addAll keys (entry :: rest) (Group.ofEntries conjunction keys before) = (do
      let first ← entry.made keys conjunction
      addAll keys rest (Group.ofEntries conjunction keys (before ++ [first]))) := by
  cases entry with
  | group description =>
      rw [addAll, made]
      cases description.build keys with
      | error e => rfl
      | ok inner =>
          dsimp only [bind, Except.bind]
          rw [Group.addGroup_ofEntries]
          rfl
  | leaf field value operator language =>
      rw [addAll, made]
      cases hoperator : operatorOf operator with
      | error e =>
          rw [EntityKeys.described, hoperator]
          rfl
      | ok meant =>
          have hleaf := keys.leaf_eq ⟨baseField field, value, meant, language⟩
          dsimp only at hleaf
          dsimp only [bind, Except.bind]
          rw [EntityKeys.described_eq hoperator, Group.addCondition_ofEntries, hleaf]
          cases keys.askingFaults ⟨baseField field, value, meant, language⟩ <;> rfl

/-- A group that holds one condition is a branch for it, if the condition is accepted. -/
theorem made_branch (field : String) (value : Option Value) (operator language : Option String) :
    made keys conjunction (.group ⟨.and, [.leaf field value operator language]⟩) =
      made keys .or (.leaf field value operator language) := by
  have hbuild : GroupDescription.build keys ⟨.and, [.leaf field value operator language]⟩ = (do
      let first ← made keys .and (.leaf field value operator language)
      addAll keys [] (Group.ofEntries .and keys [first])) := by
    rw [GroupDescription.build]
    exact addAll_cons _ [] []
  rw [made, hbuild, made, made]
  cases keys.described field value operator language with
  | error e => rfl
  | ok leaf =>
      dsimp only [bind, Except.bind, Except.map]
      rw [addAll]
      rfl

/-- Spellings of a condition make the same entry, or are refused with the same error. -/
theorem Respelled.made_eq {entry other : EntryDescription}
    (h : entry.Respelled keys conjunction other) :
    other.made keys conjunction = entry.made keys conjunction := by
  -- All but the last are spellings of one leaf.
  have hleaf : ∀ {field field' value value' operator operator' language language'},
      keys.described field' value' operator' language' =
        keys.described field value operator language →
      made keys conjunction (.leaf field' value' operator' language') =
        made keys conjunction (.leaf field value operator language) :=
    fun hsame => congrArg (Except.map (Group.entryOf conjunction keys)) hsame
  cases h with
  | column field column value operator language =>
      apply hleaf
      rw [EntityKeys.described, EntityKeys.described, baseField_column]
  | keyEqual hkey hequal hisIn text language =>
      apply hleaf
      rw [EntityKeys.described_eq hequal, EntityKeys.described_eq hisIn, EntityKeys.leaf,
        EntityKeys.leaf, if_pos hkey, if_pos hkey]
      rfl
  | keyNotEqual hkey hnotEqual hnotIn text language =>
      apply hleaf
      rw [EntityKeys.described_eq hnotEqual, EntityKeys.described_eq hnotIn, EntityKeys.leaf,
        EntityKeys.leaf, if_pos hkey, if_pos hkey]
      rfl
  | keyLanguage hkey value operator language other =>
      apply hleaf
      simp only [EntityKeys.described, EntityKeys.leaf, hkey, if_true]
  | member hset field text language =>
      apply hleaf
      rcases hset with hisIn | hnotIn
      · rw [EntityKeys.described_eq hisIn, EntityKeys.described_eq hisIn]
        rfl
      · rw [EntityKeys.described_eq hnotIn, EntityKeys.described_eq hnotIn]
        rfl
  | existence hexists field value other language =>
      apply hleaf
      rcases hexists with hpresent | habsent
      · rw [EntityKeys.described_eq hpresent, EntityKeys.described_eq hpresent]
        rfl
      · rw [EntityKeys.described_eq habsent, EntityKeys.described_eq habsent]
        rfl
  | operator hname hother field value language =>
      apply hleaf
      rw [EntityKeys.described_eq hname, EntityKeys.described_eq hother]
  | branch hor field value operator language =>
      rw [hor]
      exact made_branch field value operator language

/-- Spellings of entries add the same entries to a group, or fail with the same error. -/
theorem SpelledAlike.addAll_eq {entries others : List EntryDescription}
    (h : SpelledAlike keys conjunction entries others) (before : List Entry) :
    addAll keys others (Group.ofEntries conjunction keys before) =
      addAll keys entries (Group.ofEntries conjunction keys before) := by
  induction h generalizing before with
  | refl => rfl
  | symm _ ih => exact (ih before).symm
  | trans _ _ ih ihrest => exact (ihrest before).trans (ih before)
  | head h rest => rw [addAll_cons, addAll_cons, h.made_eq]
  | tail entry _ ih => simp only [addAll_cons, ih]
  | @group inner entries others conjunction _ rest ih =>
      have hbuild : GroupDescription.build keys ⟨inner, others⟩ =
          GroupDescription.build keys ⟨inner, entries⟩ := by
        rw [GroupDescription.build, GroupDescription.build]
        exact ih []
      rw [addAll_cons, addAll_cons, made, made, hbuild]

end EntryDescription

/-- Spellings of a description build the same group, or fail with the same error. -/
theorem GroupDescription.SpelledAlike.build_eq {keys : EntityKeys}
    {description other : GroupDescription} (h : description.SpelledAlike keys other) :
    other.build keys = description.build keys := by
  obtain ⟨conjunction, entries⟩ := description
  obtain ⟨_, others⟩ := other
  obtain ⟨rfl, hentries⟩ := h
  rw [build, build]
  exact hentries.addAll_eq []

/-! ## Requests -/

/-- Question marks in front of a name do not count. -/
theorem Variable.ofName_questions (marks : Nat) (name : String) :
    ofName (String.ofList (List.replicate marks '?') ++ name) = ofName name := by
  have hbare : bareName (String.ofList (List.replicate marks '?') ++ name) = bareName name := by
    rw [bareName, bareName, String.toList_append, String.toList_ofList]
    congr 1
    induction marks with
    | zero => rfl
    | succ marks ih => exact ih
  rw [ofName, ofName, hbare]

/-- Spellings of a request compile alike.  Let the conditions of a request be spelled in another
way, at any depth, and put question marks in front of the name of its subject.  Then it gives the
same output or the same error, and does so in the same steps. -/
theorem CompileRequest.compile_spelledAlike (request : CompileRequest)
    {conditions : GroupDescription}
    (h : request.conditions.SpelledAlike request.keys conditions) (marks : Nat) :
    { request with
        conditions := conditions
        options.subjectVariable :=
          String.ofList (List.replicate marks '?') ++ request.options.subjectVariable }.compile =
      request.compile := by
  refine compile_congr h.build_eq ⟨rfl, ?_, rfl⟩ fun field _ => ⟨fun _ _ => rfl, fun _ _ _ => rfl⟩
  exact (Variable.ofName_questions marks _).symm

/-- The sample request in other words: the title is asked for in a branch of its own and by a
further column, tags exist in small letters and with a value, and the ids have a language. -/
def Sample.respelled : GroupDescription :=
  ⟨.or, [
    .group ⟨.and, [.leaf ("title.value" ++ "." ++ "x") (some (.single "home")) (some "=") none]⟩,
    .group ⟨.and, [.leaf "tag" (some (.single "red")) (some " exists") none,
      .leaf ("nid" ++ "." ++ "id") (some (.list ["1", "2"])) (some "IN") (some "en")]⟩]⟩

/-- It has the same text as the sample request. -/
theorem CompileRequest.compile_respelled :
    { Sample.request with
        conditions := Sample.respelled
        options.subjectVariable := "??entity" }.compile = Sample.request.compile ∧
      (Sample.request.compile []).1.toOption.isSome = true := by
  have hkey : (Sample.keys.kind (baseField "nid")).isKey = true := by decide +kernel
  have hequal : operatorOf (some "=") = .ok .equal := rfl
  have hexists : operatorOf (some "EXISTS") = .ok .present := rfl
  have hsmall : operatorOf (some " exists") = .ok .present := rfl
  have htitle : ∀ rest, EntryDescription.SpelledAlike Sample.keys .or
      (.leaf "title.value" (some (.single "home")) none none :: rest)
      (.group ⟨.and, [.leaf ("title.value" ++ "." ++ "x") (some (.single "home")) (some "=")
        none]⟩ :: rest) := fun rest =>
    .trans (.head (.operator rfl hequal _ _ _) rest)
      (.trans (.head (.column _ "x" _ _ _) rest) (.head (.branch rfl _ _ _ _) rest))
  have htag : ∀ rest, EntryDescription.SpelledAlike Sample.keys .and
      (.leaf "tag" none (some "EXISTS") none :: rest)
      (.leaf "tag" (some (.single "red")) (some " exists") none :: rest) := fun rest =>
    .trans (.head (.operator hexists hsmall _ _ _) rest)
      (.head (.existence (.inl hsmall) _ _ _ _) rest)
  have hid : EntryDescription.SpelledAlike Sample.keys .and
      [.leaf "nid" (some (.list ["1", "2"])) (some "IN") none]
      [.leaf ("nid" ++ "." ++ "id") (some (.list ["1", "2"])) (some "IN") (some "en")] :=
    .trans (.head (.keyLanguage hkey _ _ _ _) []) (.head (.column _ "id" _ _ _) [])
  have hspelled : Sample.request.conditions.SpelledAlike Sample.request.keys Sample.respelled :=
    ⟨rfl, .trans (htitle _) (.tail _ (.group .or (.trans (htag _) (.tail _ hid)) []))⟩
  exact ⟨compile_spelledAlike Sample.request hspelled 2, by decide +kernel⟩

end GraphCriteria
