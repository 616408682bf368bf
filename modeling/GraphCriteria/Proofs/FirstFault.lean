import GraphCriteria.Proofs.Described
import GraphCriteria.Proofs.Phases
import GraphCriteria.Proofs.Predicates
import GraphCriteria.Proofs.Reading

/-!
# The first fault of a request

All that can be wrong with a request is found in its conditions: first in each of them as it is
asked for, then in the names and values that compiling comes to.  This file lists these faults in
order, for the request alone, and shows that the first of them decides the outcome.

Main results:

- Definition `CompileRequest.faults`: the faults of a request.
- Theorem `Leaf.failsFirst_compile`: compiling an accepted condition fails with its first fault,
  whether or not its field is known already.
- Theorem `GroupDescription.failsFirst_compile`: so does compiling a described tree.
- Theorem `CompileRequest.compile_eq_error_iff`: a request fails with its first fault, and
  succeeds if it has none.
-/

namespace GraphCriteria

/-! ## Faults -/

/-- The faults of a name as that of a variable. -/
def Variable.faults (name : String) : List ConditionError :=
  if isName (bareName name).toList then []
  else [.invalidVariable (bareName name) "The variable name is invalid"]

/-- A list is no value for operators that compare with one text. -/
def Leaf.listFaults (leaf : Leaf) : List ConditionError :=
  if leaf.hasList then [.unsupportedArrayValue leaf.field leaf.operator] else []

/-- The texts that a condition compares with. -/
def Leaf.valueTexts (leaf : Leaf) : List String :=
  (leaf.value.map Value.toList).getD []

namespace CompileRequest

variable (request : CompileRequest)

/-- A field needs a predicate, and a variable to choose among several. -/
def mappingFaults (field : String) : List ConditionError :=
  match request.predicatesOf field with
  | [] => [.unknownFieldMapping request.entityType field]
  | [_] => []
  | _ => Variable.faults (field ++ "_predicate")

/-- The faults of texts that are written as values of a field. -/
def writingFaults (field : String) (language : Option String) (texts : List String) :
    List ConditionError :=
  texts.flatMap fun text =>
    match request.escaping.escaper [] field text language with
    | .ok _ => []
    | .error e => [e]

/-- The faults of the clause of a condition on a field that is no key.  An equation has no variable
of its own; only equations and sets of members write values. -/
def clauseFaults (leaf : Leaf) : List ConditionError :=
  match leaf.operator with
  | .equal => leaf.listFaults ++ request.writingFaults leaf.field leaf.language leaf.valueTexts
  | .isIn =>
    Variable.faults leaf.field ++ request.writingFaults leaf.field leaf.language leaf.valueTexts
  | .notIn | .present | .absent => Variable.faults leaf.field
  | .like | .notLike | .notEqual | .less | .greater | .lessOrEqual | .greaterOrEqual =>
    Variable.faults leaf.field ++ leaf.listFaults

/-- The faults that compiling an accepted condition comes to.  Keys are always mapped and written
as sets of members without a language, and the id has no variable of its own. -/
def leafFaults (leaf : Leaf) : List ConditionError :=
  if (request.keys.kind leaf.field).isKey then
    (if request.keys.kind leaf.field = .id then [] else Variable.faults leaf.field) ++
      request.writingFaults leaf.field none leaf.valueTexts
  else request.mappingFaults leaf.field ++ request.clauseFaults leaf

/-- A group in which no condition narrows the entity to some bundle needs a variable for it. -/
def bundleFaults (leaves : List Leaf) : List ConditionError :=
  if leaves.any fun leaf => (request.keys.kind leaf.field).narrows then []
  else Variable.faults request.keys.bundle

/-- In a union a condition is a group of its own. -/
def branchFaults (conjunction : Conjunction) (leaf : Leaf) : List ConditionError :=
  match conjunction with
  | .and => []
  | .or => request.bundleFaults [leaf]

end CompileRequest

/-- The conditions of a described group itself, as they are asked for. -/
def EntryDescription.askedLeaves (entries : List EntryDescription) : List Leaf :=
  entries.filterMap fun
    | .leaf field value operator language => some (askedLeaf field value operator language)
    | .group _ => none

mutual

/-- The faults that compiling a description comes to: those of its entries, in order, and then
that of its bundle. -/
def GroupDescription.compilingFaults (request : CompileRequest) (description : GroupDescription) :
    List ConditionError :=
  match description with
  | ⟨.and, entries⟩ =>
    EntryDescription.compilingFaults request .and entries ++
      request.bundleFaults (EntryDescription.askedLeaves entries)
  | ⟨.or, entries⟩ => EntryDescription.compilingFaults request .or entries

/-- The faults that compiling the entries of a group comes to. -/
def EntryDescription.compilingFaults (request : CompileRequest) (conjunction : Conjunction)
    (entries : List EntryDescription) : List ConditionError :=
  match entries with
  | [] => []
  | .group description :: rest =>
    description.compilingFaults request ++ EntryDescription.compilingFaults request conjunction rest
  | .leaf field value operator language :: rest =>
    request.leafFaults (askedLeaf field value operator language) ++
      request.branchFaults conjunction (askedLeaf field value operator language) ++
        EntryDescription.compilingFaults request conjunction rest

end

/-- The faults of a request, in order: those of all conditions as they are asked for, that of the
name of the entity, and those that compiling comes to. -/
def CompileRequest.faults (request : CompileRequest) : List ConditionError :=
  request.conditions.askingFaults request.keys ++
    Variable.faults request.options.subjectVariable ++ request.conditions.compilingFaults request

/-! ## Outcomes -/

/-- An outcome is an error exactly when it is the first of some faults. -/
def FailsFirst {α : Type} (outcome : Except ConditionError α) (faults : List ConditionError) :
    Prop :=
  ∀ e, outcome = .error e ↔ faults.head? = some e

namespace FailsFirst

variable {α β : Type} {faults more : List ConditionError}

/-- A success has no faults. -/
theorem ok (a : α) : FailsFirst (.ok a) [] := by
  intro e
  simp

/-- A failure is its own first fault. -/
theorem error (e : ConditionError) : FailsFirst (.error e : Except ConditionError α) [e] := by
  intro other
  simp

theorem firstFault (faults : List ConditionError) (a : α) :
    FailsFirst (firstFault faults a) faults := by
  intro e
  cases faults <;> simp [GraphCriteria.firstFault]

/-- A success leaves no fault unreported. -/
theorem eq_nil {a : α} (h : FailsFirst (.ok a) faults) : faults = [] := by
  cases faults with
  | nil => rfl
  | cons e faults => cases (h e).2 rfl

/-- After an error nothing else matters. -/
theorem error_append {e : ConditionError}
    (h : FailsFirst (.error e : Except ConditionError α) faults) (more : List ConditionError) :
    FailsFirst (.error e : Except ConditionError β) (faults ++ more) := by
  intro other
  have hhead := (h e).1 rfl
  cases faults with
  | nil => cases hhead
  | cons first faults =>
      cases hhead
      simp

/-- A step fails first, or else what follows it does. -/
theorem bind {outcome : Except ConditionError α} {next : α → Except ConditionError β}
    (hfirst : FailsFirst outcome faults)
    (hnext : ∀ a, outcome = .ok a → FailsFirst (next a) more) :
    FailsFirst (outcome >>= next) (faults ++ more) := by
  cases outcome with
  | error e => exact hfirst.error_append more
  | ok a =>
      rw [hfirst.eq_nil]
      exact hnext a rfl

end FailsFirst

/-- The same for the steps of a pass. -/
theorem Pass.failsFirst_bind {α β : Type} {first : Pass α} {next : α → Pass β} {trace : Trace}
    {faults more : List ConditionError} (hfirst : FailsFirst (first trace).1 faults)
    (hnext : ∀ a mid, first trace = (.ok a, mid) → FailsFirst (next a mid).1 more) :
    FailsFirst ((first >>= next) trace).1 (faults ++ more) := by
  cases hstep : first trace with
  | mk result mid =>
      rw [hstep] at hfirst
      cases result with
      | error e =>
          rw [bind_apply_error hstep]
          exact hfirst.error_append more
      | ok a =>
          rw [bind_apply_ok hstep, hfirst.eq_nil]
          exact hnext a mid hstep

/-- A step that is followed by its result alone fails as it does. -/
theorem Pass.failsFirst_map {α β : Type} {first : Pass α} {trace : Trace} {result : α → β}
    {faults : List ConditionError} (hfirst : FailsFirst (first trace).1 faults) :
    FailsFirst ((first >>= fun a => pure (result a)) trace).1 faults := by
  rw [← List.append_nil faults]
  exact failsFirst_bind hfirst fun a _ _ => .ok (result a)

/-- A name is refused for its one fault. -/
theorem Variable.failsFirst_ofName (name : String) : FailsFirst (ofName name) (faults name) := by
  unfold ofName faults
  dsimp only
  split
  · exact .ok _
  · exact .error _

/-! ## Steps of a leaf -/

namespace CompileRequest

variable (request : CompileRequest)

/-- The mapping of a key is always found. -/
theorem failsFirst_findMapping_key {kind : FieldKind} (hkey : kind.isKey = true) (field : String)
    (trace : Trace) : FailsFirst (request.context.findMapping kind field trace).1 [] := by
  cases kind with
  | id | bundle => exact .ok _
  | label | other => cases hkey

/-- That of another field fails as its candidates or the name of their variable do. -/
theorem failsFirst_findMapping {kind : FieldKind} (hkey : kind.isKey = false) (field : String)
    (trace : Trace) :
    FailsFirst (request.context.findMapping kind field trace).1 (request.mappingFaults field) := by
  have hresolve : request.context.resolve field trace =
      (request.context.resolver trace request.entityType field,
        trace ++ [.resolverCall request.entityType field]) := rfl
  have htable := request.predicates_table field
  rw [resolver_context] at hresolve
  unfold mappingFaults
  cases kind with
  | id | bundle => cases hkey
  | label | other =>
      cases hlist : request.predicatesOf field with
      | nil =>
          rw [if_pos hlist] at hresolve
          rw [Context.findMapping, Pass.bind_apply_error hresolve]
          exact .error _
      | cons first others =>
          rw [if_neg (by simp [hlist])] at hresolve
          rw [hlist] at htable
          rw [Context.findMapping, Pass.bind_apply_ok hresolve, htable]
          cases others with
          | nil => exact .ok _
          | cons second others =>
              exact Pass.failsFirst_map (Variable.failsFirst_ofName (field ++ "_predicate"))

/-- A known field has had its mapping found, so looking it up comes to the same faults. -/
theorem failsFirst_fetch {draft : Draft} {keys : EntityKeys} {subject : String} {done : List Leaf}
    (hdraft : draft.Sound request.context keys subject done) (field : String) (trace : Trace)
    {faults : List ConditionError}
    (hfind : ∀ trace, FailsFirst (request.context.findMapping (keys.kind field) field trace).1
      faults) :
    FailsFirst (draft.fetch request.context (keys.kind field) field trace).1 faults := by
  apply Pass.failsFirst_map
  rw [Memo.fetch]
  cases hknown : draft.mappings.get? field with
  | some mapping =>
      obtain ⟨before, hfound⟩ := hdraft.found _ (Memo.mem_entries_of_get? hknown)
      have hnone := hfind before
      rw [hfound] at hnone
      rw [hnone.eq_nil]
      exact .ok _
  | none =>
      rw [← List.append_nil faults]
      apply Pass.failsFirst_bind (hfind trace)
      intro mapping mid _
      exact .ok _

/-- A value is refused for the fault of writing it. -/
theorem failsFirst_escape (field : String) (language : Option String) (text : String)
    (trace : Trace) :
    FailsFirst (request.context.escape field text language trace).1
      (request.writingFaults field language [text]) := by
  have hescape : (request.context.escape field text language trace).1 =
      request.escaping.escaper [] field text language :=
    request.functional_context.escaper_eq trace [] field text language
  rw [hescape, writingFaults, List.flatMap_singleton]
  cases request.escaping.escaper [] field text language with
  | ok written => exact .ok _
  | error e => exact .error e

/-- Values are refused for the first fault among them. -/
theorem failsFirst_escapeAll (field : String) (language : Option String) (texts : List String)
    (trace : Trace) :
    FailsFirst (request.context.escapeAll field language texts trace).1
      (request.writingFaults field language texts) := by
  induction texts generalizing trace with
  | nil => exact .ok _
  | cons text texts ih =>
      have hsplit : request.writingFaults field language (text :: texts) =
          request.writingFaults field language [text] ++
            request.writingFaults field language texts := by
        simp [writingFaults]
      rw [hsplit]
      apply Pass.failsFirst_bind (request.failsFirst_escape field language text trace)
      intro written mid _
      exact Pass.failsFirst_map (ih mid)

end CompileRequest

namespace Leaf

variable {leaf : Leaf} {mapping : FieldMapping}

/-- A leaf with a value has one text unless it is a list. -/
theorem failsFirst_scalar (hvalue : leaf.value ≠ none) :
    FailsFirst leaf.scalar leaf.listFaults := by
  unfold scalar listFaults hasList
  cases hsome : leaf.value with
  | none => exact absurd hsome hvalue
  | some value =>
      cases value with
      | single text => exact .ok text
      | list texts => exact .error _

theorem failsFirst_members (request : CompileRequest) {value : Value}
    (hvalue : leaf.value = some value) (trace : Trace) :
    FailsFirst (leaf.members request.context trace).1
      (request.writingFaults leaf.field leaf.language value.toList) := by
  rw [members, hvalue]
  exact request.failsFirst_escapeAll leaf.field leaf.language value.toList trace

/-- A leaf needs a variable unless its field has no predicate. -/
theorem failsFirst_bind (leaf : Leaf) (subject : String) (mapping : FieldMapping) :
    FailsFirst (leaf.bind subject mapping)
      (if mapping.predicate? = none then [] else Variable.faults leaf.field) := by
  rw [bind]
  cases mapping.predicate? with
  | none => exact .ok _
  | some predicate =>
      simp only [reduceCtorEq, if_false]
      rw [← List.append_nil (Variable.faults leaf.field)]
      apply (Variable.failsFirst_ofName leaf.field).bind
      intro target _
      exact .ok _

/-- A list is no operand of an operator without a separator. -/
theorem failsFirst_operand (hvalue : leaf.value ≠ none)
    (hseparator : leaf.operator.rule.separator = none) (kind : FieldKind) (ctx : Context)
    (trace : Trace) : FailsFirst (leaf.operand kind ctx trace).1 leaf.listFaults := by
  unfold operand listFaults hasList
  cases hsome : leaf.value with
  | none => exact absurd hsome hvalue
  | some value =>
      cases value with
      | single text => exact .ok _
      | list texts =>
          simp only [hseparator]
          exact .error _

/-- On keys, sets of members are written; no other values are stored. -/
theorem failsFirst_clause_key (request : CompileRequest) {kind : FieldKind}
    (hkey : kind.isKey = true) {texts : List String} (hvalue : leaf.value = some (.list texts))
    (hoperator : leaf.operator = .isIn ∨ leaf.operator = .notIn) (subject : String)
    (mapping : FieldMapping) (trace : Trace) :
    FailsFirst (leaf.clause request.context subject kind mapping trace).1
      ((if mapping.predicate? = none then [] else Variable.faults leaf.field) ++
        request.writingFaults leaf.field leaf.language texts) := by
  have hbind := leaf.failsFirst_bind subject mapping
  unfold clause
  rcases hoperator with hoperator | hoperator
  · rw [hoperator]
    apply Pass.failsFirst_bind hbind
    rintro ⟨target, binding⟩ mid _
    exact Pass.failsFirst_map (failsFirst_members request hvalue mid)
  · rw [hoperator]
    apply Pass.failsFirst_bind hbind
    rintro ⟨target, binding⟩ mid _
    apply Pass.failsFirst_map
    unfold operand
    simp only [hvalue, hoperator, hkey, Operator.rule, if_true]
    exact Pass.failsFirst_map (failsFirst_members request hvalue mid)

/-- What is stored for an accepted condition on another field comes to the faults of its clause as
it is asked for. -/
theorem failsFirst_clause_other (request : CompileRequest) {keys : EntityKeys} {asked : Leaf}
    (hkey : (keys.kind asked.field).isKey = false) (haccepted : keys.askingFaults asked = [])
    (hpredicate : mapping.predicate? ≠ none) (subject : String) (trace : Trace) :
    FailsFirst
      ((keys.stored asked).clause request.context subject (keys.kind asked.field) mapping trace).1
      (request.clauseFaults asked) := by
  obtain ⟨field, value, operator, language⟩ := asked
  have hvalue : operator.usesValue = true → value ≠ none := by
    intro huses hnone
    simp [EntityKeys.askingFaults, hkey, huses, hnone] at haccepted
  have hbind : ∀ leaf : Leaf,
      FailsFirst (leaf.bind subject mapping) (Variable.faults leaf.field) := by
    intro leaf
    have h := leaf.failsFirst_bind subject mapping
    rwa [if_neg hpredicate] at h
  obtain ⟨predicate, hsome⟩ := Option.ne_none_iff_exists'.1 hpredicate
  unfold EntityKeys.stored
  simp only [hkey, Bool.false_eq_true, if_false]
  unfold clause CompileRequest.clauseFaults
  cases operator with
  | equal =>
      simp only [hsome]
      apply Pass.failsFirst_bind (failsFirst_scalar (hvalue rfl))
      intro text mid hscalar
      have hsingle : value = some (.single text) := by
        rcases value with _ | ⟨other⟩ | ⟨texts⟩
        · exact absurd rfl (hvalue rfl)
        · cases hscalar
          rfl
        · cases hscalar
      subst hsingle
      exact Pass.failsFirst_map (request.failsFirst_escape field language text mid)
  | isIn =>
      apply Pass.failsFirst_bind (hbind _)
      rintro ⟨target, binding⟩ mid _
      apply Pass.failsFirst_map
      obtain ⟨members, rfl⟩ := Option.ne_none_iff_exists'.1 (hvalue rfl)
      have hlist : (⟨field, some (.list members.toList), .isIn, language⟩ : Leaf).value =
          some (.list members.toList) := rfl
      exact failsFirst_members request hlist mid
  | notIn =>
      obtain ⟨members, rfl⟩ := Option.ne_none_iff_exists'.1 (hvalue rfl)
      dsimp only
      rw [← List.append_nil (Variable.faults field)]
      apply Pass.failsFirst_bind (hbind _)
      rintro ⟨target, binding⟩ mid _
      apply Pass.failsFirst_map
      unfold operand
      simp only [Option.map_some, Operator.rule, hkey, Bool.false_eq_true, if_false]
      exact .ok _
  | present | absent => exact Pass.failsFirst_map (hbind _)
  | like | notLike =>
      apply Pass.failsFirst_bind (hbind _)
      rintro ⟨target, binding⟩ mid _
      exact Pass.failsFirst_map (failsFirst_scalar (hvalue rfl))
  | notEqual | less | greater | lessOrEqual | greaterOrEqual =>
      apply Pass.failsFirst_bind (hbind _)
      rintro ⟨target, binding⟩ mid _
      exact Pass.failsFirst_map (failsFirst_operand (hvalue rfl) rfl _ _ mid)

/-- Compiling a leaf comes to the faults of finding the mapping of its field, if it is not known
already, and then to those of its clause. -/
theorem failsFirst_compile_of_clause {request : CompileRequest} {keys : EntityKeys}
    {subject : String} {draft : Draft} {done : List Leaf}
    (hdraft : draft.Sound request.context keys subject done) {finding faults : List ConditionError}
    (hfind : ∀ trace, FailsFirst
      (request.context.findMapping (keys.kind leaf.field) leaf.field trace).1 finding)
    (hclause : ∀ mapping trace, (mapping.predicate? = none ↔ keys.kind leaf.field = .id) →
      FailsFirst (leaf.clause request.context subject (keys.kind leaf.field) mapping trace).1
        faults)
    (trace : Trace) :
    FailsFirst (leaf.compile request.context keys subject draft trace).1 (finding ++ faults) := by
  apply Pass.failsFirst_bind (request.failsFirst_fetch hdraft leaf.field trace hfind)
  rintro ⟨mapping, next⟩ mid hfetch
  obtain ⟨hmaps, _⟩ := Draft.fetch_ok hfetch
  obtain ⟨before, hfound⟩ := hdraft.found_of_maps hmaps
  exact Pass.failsFirst_map (hclause mapping mid (Context.predicate?_eq_none_iff hfound))

/-- Compiling an accepted condition fails with its first fault, whether or not its field is known
already. -/
theorem failsFirst_compile (request : CompileRequest) {asked : Leaf}
    (haccepted : request.keys.askingFaults asked = []) {subject : String} {draft : Draft}
    {done : List Leaf} (hdraft : draft.Sound request.context request.keys subject done)
    (trace : Trace) :
    FailsFirst
      ((request.keys.stored asked).compile request.context request.keys subject draft trace).1
      (request.leafFaults asked) := by
  have hfield := request.keys.field_stored asked
  unfold CompileRequest.leafFaults
  by_cases hkey : (request.keys.kind asked.field).isKey = true
  · obtain ⟨value, hvalue, hstored, hlanguage, hoperator⟩ :=
      EntityKeys.stored_of_isKey hkey haccepted
    have htexts : asked.valueTexts = value.toList := by rw [valueTexts, hvalue]; rfl
    rw [if_pos hkey, htexts, ← List.nil_append (_ ++ _)]
    apply failsFirst_compile_of_clause hdraft
    · rw [hfield]
      exact request.failsFirst_findMapping_key hkey asked.field
    · intro mapping mid hid
      have hclause := failsFirst_clause_key request hkey hstored hoperator subject mapping mid
      rw [hfield] at hid
      simp only [hid, hfield, hlanguage] at hclause
      rwa [hfield]
  · rw [if_neg hkey]
    apply failsFirst_compile_of_clause hdraft
    · rw [hfield]
      exact request.failsFirst_findMapping (by simpa using hkey) asked.field
    · intro mapping mid hid
      rw [hfield] at hid ⊢
      have hpredicate : mapping.predicate? ≠ none := by
        intro hnone
        rw [hid.1 hnone] at hkey
        exact hkey rfl
      exact failsFirst_clause_other request (by simpa using hkey) haccepted hpredicate subject mid

end Leaf

/-! ## Walks and groups -/

namespace Entry

variable {ctx : Context} {keys : EntityKeys} {subject : String} {rest : List Entry} {index : Nat}
  {draft : Draft} {trace : Trace} {faults more : List ConditionError}

theorem failsFirst_compileAll_leaf {leaf : Leaf}
    (hleaf : FailsFirst (leaf.compile ctx keys subject draft trace).1 faults)
    (hrest : ∀ next mid, leaf.compile ctx keys subject draft trace = (.ok next, mid) →
      FailsFirst (compileAll ctx keys subject rest (index + 1) next mid).result more) :
    FailsFirst (compileAll ctx keys subject (.leaf leaf :: rest) index draft trace).result
      (faults ++ more) := by
  rw [compileAll]
  cases hstep : leaf.compile ctx keys subject draft trace with
  | mk result mid =>
      rw [hstep] at hleaf
      cases result with
      | error e => exact hleaf.error_append more
      | ok next =>
          rw [hleaf.eq_nil]
          exact hrest next mid hstep

theorem failsFirst_compileAll_nested {inner : Group}
    (hinner : FailsFirst (inner.compile ctx trace).result faults)
    (hrest : ∀ mid, FailsFirst
      (compileAll ctx keys subject rest (index + 1) (draft.addNested index) mid).result more) :
    FailsFirst (compileAll ctx keys subject (.nested inner :: rest) index draft trace).result
      (faults ++ more) := by
  rw [compileAll]
  dsimp only
  cases hresult : (inner.compile ctx trace).result with
  | error e =>
      rw [hresult] at hinner
      exact hinner.error_append more
  | ok _ =>
      rw [hresult] at hinner
      rw [hinner.eq_nil]
      exact hrest _

end Entry

namespace Group

variable {ctx : Context} {subject : String} {faults more : List ConditionError}

/-- Compiling a group comes to the faults of its entries, and then to that of its bundle. -/
theorem failsFirst_compile {group : Group} {trace : Trace} (hstate : group.state = .building)
    (hsubject : Variable.ofName ctx.options.subjectVariable = .ok subject)
    (hwalk : FailsFirst (group.walk ctx subject trace).result faults)
    (hbundle : FailsFirst (group.defaultBundle ctx subject) more) :
    FailsFirst (group.compile ctx trace).result (faults ++ more) := by
  rw [result_compile hstate, hsubject]
  apply hwalk.bind
  intro draft _
  rw [← List.append_nil more]
  apply hbundle.bind
  intro triple? _
  exact .ok ()

/-- A group with accepted conditions needs a variable for its bundle when none of them, as it is
asked for, narrows the entity to some bundle. -/
theorem failsFirst_defaultBundle (request : CompileRequest) {entries : List Entry}
    {asked : List Leaf} (hleaves : Entry.leaves entries = asked.map request.keys.stored)
    (ctx : Context) (subject : String) :
    FailsFirst ((ofEntries .and request.keys entries).defaultBundle ctx subject)
      (request.bundleFaults asked) := by
  have hneeds : (ofEntries .and request.keys entries).needsDefaultBundle =
      !(asked.any fun leaf => (request.keys.kind leaf.field).narrows) := by
    simp [needsDefaultBundle, ofEntries, hleaves, List.all_map, Function.comp_def,
      List.not_any_eq_all_not]
  unfold defaultBundle CompileRequest.bundleFaults
  rw [hneeds]
  cases asked.any fun leaf => (request.keys.kind leaf.field).narrows with
  | true => exact .ok none
  | false =>
      simp only [Bool.not_false, if_true, Bool.false_eq_true, if_false]
      rw [← List.append_nil (Variable.faults request.keys.bundle)]
      apply (Variable.failsFirst_ofName request.keys.bundle).bind
      intro target _
      exact .ok _

/-- In a union, an accepted condition comes to its own faults and then to that of its branch. -/
theorem failsFirst_compile_branch (request : CompileRequest) {asked : Leaf}
    (haccepted : request.keys.askingFaults asked = [])
    (hsubject : Variable.ofName request.context.options.subjectVariable = .ok subject)
    (trace : Trace) :
    FailsFirst
      ((ofEntries .and request.keys [.leaf (request.keys.stored asked)]).compile request.context
        trace).result
      (request.leafFaults asked ++ request.bundleFaults [asked]) := by
  have hstate : (ofEntries .and request.keys [.leaf (request.keys.stored asked)]).state =
      .building := rfl
  apply failsFirst_compile hstate hsubject
  · rw [← List.append_nil (request.leafFaults asked)]
    apply Entry.failsFirst_compileAll_leaf
    · exact Leaf.failsFirst_compile request haccepted
        (Draft.sound_empty request.context request.keys subject) _
    · intro next mid _
      rw [Entry.compileAll]
      exact .ok next
  · exact failsFirst_defaultBundle request rfl request.context subject

end Group

/-! ## Descriptions -/

theorem EntryDescription.leaves_trees (keys : EntityKeys) (entries : List EntryDescription) :
    Entry.leaves (trees keys .and entries) = (askedLeaves entries).map keys.stored := by
  induction entries with
  | nil => simp [trees, askedLeaves]
  | cons entry rest ih =>
      cases entry with
      | group description => simpa [trees, askedLeaves] using ih
      | leaf field value operator language =>
          simpa [trees, askedLeaves, Group.entryOf] using ih

/-- Compiling a described tree whose conditions are accepted comes to the faults of its
description, in order. -/
theorem GroupDescription.failsFirst_compile (request : CompileRequest) {subject : String}
    (hsubject : Variable.ofName request.context.options.subjectVariable = .ok subject)
    (description : GroupDescription) (haccepted : description.askingFaults request.keys = [])
    (trace : Trace) :
    FailsFirst ((description.tree request.keys).compile request.context trace).result
      (description.compilingFaults request) := by
  refine (GroupDescription.treeInduction
    (P := fun description => description.askingFaults request.keys = [] → ∀ trace,
      FailsFirst ((description.tree request.keys).compile request.context trace).result
        (description.compilingFaults request))
    (R := fun entries => EntryDescription.askingFaults request.keys entries = [] →
      ∀ conjunction index draft trace done,
        draft.Sound request.context request.keys subject done →
        FailsFirst
          (Entry.compileAll request.context request.keys subject
            (EntryDescription.trees request.keys conjunction entries) index draft trace).result
          (EntryDescription.compilingFaults request conjunction entries)) ?_ ?_ ?_ ?_).1
    description haccepted trace
  · intro conjunction entries ih haccepted trace
    have hstate : ((⟨conjunction, entries⟩ : GroupDescription).tree request.keys).state =
        .building := (everywhere_tree request.keys ⟨conjunction, entries⟩).self.1
    have hwalk : FailsFirst (((⟨conjunction, entries⟩ : GroupDescription).tree
        request.keys).walk request.context subject trace).result
          (EntryDescription.compilingFaults request conjunction entries) := by
      rw [tree]
      exact ih haccepted conjunction 0 {} _ []
        (Draft.sound_empty request.context request.keys subject)
    cases conjunction with
    | and =>
        rw [compilingFaults]
        apply Group.failsFirst_compile hstate hsubject hwalk
        rw [tree]
        exact Group.failsFirst_defaultBundle request
          (EntryDescription.leaves_trees request.keys entries) request.context subject
    | or =>
        rw [compilingFaults, ← List.append_nil (EntryDescription.compilingFaults ..)]
        apply Group.failsFirst_compile hstate hsubject hwalk
        rw [tree]
        exact .ok none
  · intro _ conjunction index draft trace done _
    rw [EntryDescription.trees, EntryDescription.compilingFaults, Entry.compileAll]
    exact .ok draft
  · intro field value operator language rest ih haccepted conjunction index draft trace done hdraft
    rw [EntryDescription.askingFaults, List.append_eq_nil_iff, List.append_eq_nil_iff] at haccepted
    obtain ⟨⟨_, hleaf⟩, hrest⟩ := haccepted
    rw [EntryDescription.trees, EntryDescription.compilingFaults]
    cases conjunction with
    | and =>
        rw [CompileRequest.branchFaults, List.append_nil]
        apply Entry.failsFirst_compileAll_leaf
        · exact Leaf.failsFirst_compile request hleaf hdraft trace
        · intro next mid hnext
          exact ih hrest .and _ next mid _ (hdraft.compileLeaf hnext)
    | or =>
        apply Entry.failsFirst_compileAll_nested
        · exact Group.failsFirst_compile_branch request hleaf hsubject trace
        · intro mid
          exact ih hrest .or _ _ mid _ (hdraft.addNested index)
  · intro inner rest hinner ih haccepted conjunction index draft trace done hdraft
    rw [EntryDescription.askingFaults, List.append_eq_nil_iff] at haccepted
    obtain ⟨hfirst, hrest⟩ := haccepted
    rw [EntryDescription.trees, EntryDescription.compilingFaults]
    apply Entry.failsFirst_compileAll_nested (hinner hfirst trace)
    intro mid
    exact ih hrest conjunction _ _ mid _ (hdraft.addNested index)

/-- Rendering a described tree that has been compiled does not fail. -/
theorem GroupDescription.exists_render {keys : EntityKeys} {description : GroupDescription}
    {ctx : Context} {trace : Trace}
    (hcompile : ((description.tree keys).compile ctx trace).result = .ok ()) (later : Trace) :
    ∃ text, (((description.tree keys).compile ctx trace).left.render later).result = .ok text := by
  have hsettled := Group.settled_of_allBuilding (allBuilding_tree keys description)
  exact Group.render_of_settled (Group.settled_compile hsettled ctx trace)
    (Group.phase_compile hsettled hcompile).self later

/-! ## Requests -/

namespace CompileRequest

variable (request : CompileRequest)

/-- The tree of a request whose conditions are accepted fails with the fault of the name of the
entity, which every group needs, or else with those of its groups. -/
theorem failsFirst_tree (haccepted : request.conditions.askingFaults request.keys = [])
    (trace : Trace) :
    FailsFirst ((request.conditions.tree request.keys).compile request.context trace).result
      (Variable.faults request.options.subjectVariable ++
        request.conditions.compilingFaults request) := by
  have hstate := (request.conditions.everywhere_tree request.keys).self.1
  have hresult := Group.result_compile hstate request.context trace
  cases hsubject : Variable.ofName request.context.options.subjectVariable with
  | error e =>
      have hname := Variable.failsFirst_ofName request.context.options.subjectVariable
      rw [hsubject] at hname hresult
      rw [hresult]
      exact hname.error_append _
  | ok subject =>
      have hname := Variable.failsFirst_ofName request.context.options.subjectVariable
      rw [hsubject] at hname
      have hnone : Variable.faults request.options.subjectVariable = [] := hname.eq_nil
      rw [hnone]
      exact request.conditions.failsFirst_compile request hsubject haccepted trace

/-- A request fails with its first fault, and succeeds if it has none. -/
theorem compile_eq_error_iff (trace : Trace) (e : ConditionError) :
    (request.compile trace).1 = .error e ↔ request.faults.head? = some e := by
  have hfails : FailsFirst (request.compile trace).1 request.faults := by
    unfold compile
    rw [GroupDescription.build_eq, faults, List.append_assoc]
    cases hasking : request.conditions.askingFaults request.keys with
    | cons first others => exact (FailsFirst.firstFault (first :: others) ()).error_append _
    | nil =>
        dsimp only [firstFault]
        rw [List.nil_append]
        generalize trace ++ [.built (request.conditions.tree request.keys).conjunction
          (request.conditions.tree request.keys).size] = start
        have htree := request.failsFirst_tree hasking start
        cases hcompile : ((request.conditions.tree request.keys).compile request.context
            start).result with
        | error e =>
            rw [hcompile] at htree
            rw [← List.append_nil (_ ++ _)]
            exact htree.error_append []
        | ok _ =>
            rw [hcompile] at htree
            obtain ⟨text, htext⟩ := GroupDescription.exists_render hcompile
              ((request.conditions.tree request.keys).compile request.context start).trace
            rw [htree.eq_nil, htext]
            exact .ok _
  exact hfails e

/-- The missing value of the second condition is found before the field of the first one, for which
no predicate is listed. -/
example :
    ({ entityType := "node", keys := Sample.keys,
       conditions := ⟨.and, [.group ⟨.or, [.leaf "body.value" none (some "EXISTS") none]⟩,
         .leaf "tag" none (some "LIKE") none]⟩ } : CompileRequest).faults =
      [.missingRequiredValue "tag" .like, .unknownFieldMapping "node" "body",
        .unknownFieldMapping "node" "tag"] := by
  decide +kernel

end CompileRequest

end GraphCriteria
