import GraphCriteria.Proofs.Reference
import GraphCriteria.Proofs.SelfContained

/-!
# What a draft will write

In a functional context, the mapping of a field and the text of a value are what the host says of
them, whenever it is asked.  So the clauses of a draft write what the leaves passed so far write,
step by step of a walk over the entries of a group.

Main results:

- Theorem `Leaf.Becomes.texts_eq`: a clause writes what its leaf writes.
- Theorem `Draft.Reads.compileLeaf`: compiling a leaf adds its texts to those of the draft.
- Theorem `Entry.reads_compileAll`: a walk adds the texts of all entries.
-/

namespace GraphCriteria

/-! ## Words of a fragment -/

/-- A name that is accepted is written after a question mark, without those in front of it. -/
theorem Variable.eq_written {name target : String} (h : ofName name = .ok target) :
    target = written name := by
  unfold ofName at h
  dsimp only at h
  split at h
  · cases h
    rfl
  · cases h

/-- The mapping that a functional host finds for a field. -/
def Context.mappingOf (ctx : Context) (kind : FieldKind) (field : String) : FieldMapping :=
  match kind with
  | .id => .subject
  | .bundle => .predicate ctx.options.typePredicate
  | .label | .other =>
    match ctx.candidates field with
    | [predicate] => .predicate predicate
    | candidates => .choice (Variable.written (field ++ "_predicate")) candidates

namespace Context.Functional

variable {ctx : Context}

/-- A functional host has given its candidates for a field whenever it has given any. -/
theorem candidates_eq (hctx : ctx.Functional) {trace : Trace} {field : String} {found : StringSet}
    (h : ctx.resolver trace ctx.entityType field = .ok found) :
    ctx.candidates field = found.toList := by
  unfold candidates
  rw [hctx.resolver_eq [] trace, h]

/-- In a functional context a field has one mapping only. -/
theorem eq_mappingOf (hctx : ctx.Functional) {kind : FieldKind} {field : String} {trace : Trace}
    {mapping : FieldMapping} (h : (ctx.findMapping kind field trace).1 = .ok mapping) :
    mapping = ctx.mappingOf kind field := by
  rcases findMapping_ok h with ⟨rfl, rfl⟩ | ⟨rfl, rfl⟩ | ⟨hkey, found, hfound, hmapping⟩
  · rfl
  · rfl
  · have hlist := hctx.candidates_eq hfound
    have hother : ctx.mappingOf kind field =
        match found.toList with
        | [predicate] => .predicate predicate
        | candidates => .choice (Variable.written (field ++ "_predicate")) candidates := by
      rw [← hlist]
      cases kind with
      | id | bundle => cases hkey
      | label | other => rfl
    rw [hother]
    rcases hmapping with ⟨predicate, hsingle, rfl⟩ | ⟨hseveral, name, hname, rfl⟩
    · rw [hsingle]
    · rw [Variable.eq_written hname]
      split
      · rename_i hsingle
        rw [hsingle] at hseveral
        simp at hseveral
      · rfl

/-- A functional host has written a value in its one way whenever it has written it. -/
theorem written_eq (hctx : ctx.Functional) {leaf : Leaf} {value text : String} {trace : Trace}
    (h : (ctx.escape leaf.field value leaf.language trace).1 = .ok text) :
    text = ctx.written leaf value := by
  have h' : ctx.escaper trace leaf.field value leaf.language = .ok text := h
  unfold written
  rw [hctx.escaper_eq [] trace, h']

/-- The same for several values in a row. -/
theorem written_eq_of_escapeAll (hctx : ctx.Functional) {leaf : Leaf} {values texts : List String}
    {trace : Trace} (h : (ctx.escapeAll leaf.field leaf.language values trace).1 = .ok texts) :
    texts = values.map (ctx.written leaf) := by
  induction values generalizing trace texts with
  | nil =>
      cases h
      rfl
  | cons value values ih =>
      obtain ⟨first, mid, hfirst, h⟩ := Pass.fst_bind_eq_ok.1 h
      obtain ⟨rest, mid', hrest, h⟩ := Pass.fst_bind_eq_ok.1 h
      cases h
      rw [List.map_cons, ← hctx.written_eq (congrArg Prod.fst hfirst),
        ← ih (congrArg Prod.fst hrest)]

end Context.Functional

/-! ## Clauses and leaves -/

namespace Leaf

variable {leaf : Leaf} {ctx : Context} {keys : EntityKeys}

/-- The id stands for the entity and no other field does. -/
theorem predicate?_mappingOf :
    (ctx.mappingOf (keys.kind leaf.field) leaf.field).predicate? =
      if keys.kind leaf.field = .id then none else some (leaf.predicateText ctx keys) := by
  unfold predicateText
  cases keys.kind leaf.field with
  | id => rfl
  | bundle => rfl
  | label | other =>
      simp only [Context.mappingOf]
      rcases ctx.candidates leaf.field with _ | ⟨first, _ | ⟨second, others⟩⟩ <;> rfl

/-- A leaf speaks of its target and writes its binding. -/
theorem bind_eq {target : String} {binding : Option Triple}
    (h : leaf.bind ctx.subjectText (ctx.mappingOf (keys.kind leaf.field) leaf.field) =
      .ok (target, binding)) :
    target = leaf.targetText ctx keys ∧
      (binding.map Triple.text).toList = leaf.bindingTexts ctx keys := by
  unfold targetText bindingTexts
  rcases bind_ok h with ⟨hnone, rfl, rfl⟩ | ⟨predicate, hpredicate, hname, rfl⟩
  · rw [predicate?_mappingOf] at hnone
    cases hkind : keys.kind leaf.field with
    | id => exact ⟨rfl, rfl⟩
    | bundle | label | other => simp [hkind] at hnone
  · rw [predicate?_mappingOf] at hpredicate
    cases hkind : keys.kind leaf.field with
    | id => simp [hkind] at hpredicate
    | bundle | label | other =>
        simp only [hkind, reduceCtorEq, if_false, Option.some.injEq] at hpredicate
        subst hpredicate
        rw [Variable.eq_written hname]
        exact ⟨rfl, rfl⟩

/-- The only text of a value is what a leaf takes for it. -/
theorem valueText_eq {text : String} (h : leaf.scalar = .ok text) : text = leaf.valueText := by
  unfold scalar at h
  unfold valueText
  split at h
  · rename_i hvalue
    cases h
    rw [hvalue]
  · cases h
  · cases h

/-- The members of a value are written one by one. -/
theorem writtenTexts_eq (hctx : ctx.Functional) {members : List String} {trace : Trace}
    (h : (leaf.members ctx trace).1 = .ok members) : members = leaf.writtenTexts ctx := by
  unfold Leaf.members at h
  unfold writtenTexts
  cases hvalue : leaf.value with
  | none =>
      rw [hvalue] at h
      cases h
  | some value =>
      rw [hvalue] at h
      exact hctx.written_eq_of_escapeAll h

/-- A comparison writes its operand. -/
theorem operandText_eq (hctx : ctx.Functional) {operand : Operand} {trace : Trace}
    (hoperator : leaf.operator.isComparison = true)
    (h : (leaf.operand (keys.kind leaf.field) ctx trace).1 = .ok operand) :
    operand.text = leaf.operandText ctx keys := by
  unfold Leaf.operand at h
  unfold operandText
  cases hvalue : leaf.value with
  | none =>
      rw [hvalue] at h
      cases h
  | some value =>
      rw [hvalue] at h
      cases value with
      | single text =>
          cases h
          rfl
      | list texts =>
          -- Of all comparisons only NOT IN takes a list.
          have hseparator : ∀ separator, leaf.operator.rule.separator = some separator →
              separator = ", " := by
            intro separator hrule
            cases hop : leaf.operator <;> simp_all [Operator.isComparison, Operator.rule]
          dsimp only at h ⊢
          cases hrule : leaf.operator.rule.separator with
          | none =>
              rw [hrule] at h
              cases h
          | some separator =>
              rw [hrule] at h
              obtain rfl := hseparator separator hrule
              dsimp only at h
              by_cases hkey : (keys.kind leaf.field).isKey = true
              · rw [if_pos hkey] at h ⊢
                obtain ⟨members, mid, hmembers, h⟩ := Pass.fst_bind_eq_ok.1 h
                cases h
                rw [Operand.text, writtenTexts_eq hctx (congrArg Prod.fst hmembers)]
              · rw [if_neg hkey] at h ⊢
                cases h
                rfl

/-- A clause writes what its leaf writes. -/
theorem Becomes.texts_eq (hctx : ctx.Functional) {clause : Clause}
    (h : leaf.Becomes ctx ctx.subjectText (keys.kind leaf.field)
      (ctx.mappingOf (keys.kind leaf.field) leaf.field) clause)
    (nestedText? : Nat → Except ConditionError String) :
    clause.texts nestedText? = .ok (leaf.texts ctx keys) ∧
      clause.comparison?.toList = leaf.comparisonTexts ctx keys := by
  unfold Leaf.texts comparisonTexts
  cases h with
  | triple hoperator hpredicate hscalar hobject =>
      rw [hoperator]
      rw [predicate?_mappingOf] at hpredicate
      split at hpredicate
      · cases hpredicate
      · cases hpredicate
        rw [hctx.written_eq hobject, valueText_eq hscalar]
        exact ⟨rfl, rfl⟩
  | values hoperator hbind hmembers =>
      obtain ⟨rfl, hbinding⟩ := bind_eq hbind
      rw [hoperator, writtenTexts_eq hctx hmembers, ← hbinding]
      exact ⟨rfl, rfl⟩
  | existence hoperator hbind =>
      obtain ⟨rfl, hbinding⟩ := bind_eq hbind
      rw [← hbinding]
      rcases hoperator with hoperator | hoperator <;> rw [hoperator] <;> exact ⟨rfl, rfl⟩
  | pattern hoperator hbind hscalar =>
      obtain ⟨rfl, hbinding⟩ := bind_eq hbind
      rw [← hbinding, valueText_eq hscalar]
      rcases hoperator with hoperator | hoperator <;> rw [hoperator]
      · refine ⟨?_, rfl⟩
        simp [Clause.texts, Clause.ownTexts, Clause.binding?, Operator.rule, String.append_assoc]
      · refine ⟨?_, rfl⟩
        simp [Clause.texts, Clause.ownTexts, Clause.binding?, Operator.rule, String.append_assoc]
  | filter hoperator hbind hoperand =>
      obtain ⟨rfl, hbinding⟩ := bind_eq hbind
      rw [← hbinding, ← operandText_eq hctx hoperator hoperand]
      cases hop : leaf.operator <;> simp_all [Operator.isComparison, Clause.texts,
        Clause.ownTexts, Clause.binding?, Clause.comparison?, Operator.rule]

end Leaf

/-! ## Texts of clauses -/

namespace Clause

variable {nestedText? : Nat → Except ConditionError String}

/-- The texts of clauses in a row are those of the clauses before and after. -/
theorem textsOfAll_append {front back : List Clause} {texts more : List String}
    (hfront : textsOfAll nestedText? front = .ok texts)
    (hback : textsOfAll nestedText? back = .ok more) :
    textsOfAll nestedText? (front ++ back) = .ok (texts ++ more) := by
  induction front generalizing texts with
  | nil =>
      cases hfront
      exact hback
  | cons clause front ih =>
      rw [textsOfAll] at hfront
      rw [List.cons_append, textsOfAll]
      cases hclause : clause.texts nestedText? with
      | error e => simp [hclause, bind, Except.bind] at hfront
      | ok first =>
          cases hrest : textsOfAll nestedText? front with
          | error e => simp [hclause, hrest, bind, Except.bind] at hfront
          | ok rest =>
              simp only [hclause, hrest, bind, Except.bind, pure, Except.pure,
                Except.ok.injEq] at hfront
              rw [ih hrest, ← hfront, List.append_assoc]
              rfl

theorem textsOfAll_singleton {clause : Clause} {texts : List String}
    (h : clause.texts nestedText? = .ok texts) : textsOfAll nestedText? [clause] = .ok texts := by
  rw [textsOfAll, h]
  simp [textsOfAll, bind, Except.bind, pure, Except.pure]

end Clause

/-! ## Lists without repetitions -/

/-- The last member of a list counts only if it is new. -/
theorem eraseDups_concat (front : List String) (last : String) :
    (front ++ [last]).eraseDups =
      if last ∈ front then front.eraseDups else front.eraseDups ++ [last] := by
  rw [List.eraseDups_append, List.cons_removeAll]
  by_cases h : last ∈ front <;> simp [h, List.eraseDups_cons]

/-- No member is left twice. -/
theorem nodup_eraseDups (fields : List String) : fields.eraseDups.Nodup := by
  have happend : ∀ front : List String, front.eraseDups.Nodup →
      (front ++ fields).eraseDups.Nodup := by
    induction fields with
    | nil =>
        intro front hfront
        simpa using hfront
    | cons field fields ih =>
        intro front hfront
        rw [List.append_cons]
        apply ih
        rw [eraseDups_concat]
        by_cases hmem : field ∈ front
        · rwa [if_pos hmem]
        · rw [if_neg hmem, List.nodup_append]
          refine ⟨hfront, by simp, ?_⟩
          intro a ha b hb
          rw [List.mem_singleton.1 hb]
          rintro rfl
          exact hmem (List.mem_eraseDups.1 ha)
  exact happend [] .nil

/-! ## Texts of entries -/

/-- A key set is no comparison. -/
theorem Leaf.comparisonTexts_of_isKeySet {leaf : Leaf} {ctx : Context} {keys : EntityKeys}
    (h : leaf.isKeySet keys = true) : leaf.comparisonTexts ctx keys = [] := by
  have hoperator : leaf.operator = .isIn := by
    simp only [isKeySet, Bool.and_eq_true, decide_eq_true_eq] at h
    exact h.1
  rw [comparisonTexts, hoperator]

namespace Entry

/-- What an entry writes after the candidates of predicates, a nested group being the text that it
is given. -/
def textsWith (nestedText : Group → String) (ctx : Context) (keys : EntityKeys) :
    Entry → List String
  | .leaf own => own.otherTexts ctx keys
  | .nested inner => [nestedText inner]

variable (ctx : Context) (keys : EntityKeys)

/-- In one pass, a nested group is given the text of one pass. -/
theorem otherTexts_eq (entries : List Entry) :
    otherTexts ctx keys entries = entries.flatMap (textsWith (·.reference ctx) ctx keys) := by
  induction entries with
  | nil =>
      rw [otherTexts]
      rfl
  | cons entry rest ih =>
      cases entry <;> rw [otherTexts, List.flatMap_cons, ih] <;> rfl

/-- Entries in a row write what the entries before and after write. -/
theorem otherTexts_append (front back : List Entry) :
    otherTexts ctx keys (front ++ back) =
      otherTexts ctx keys front ++ otherTexts ctx keys back := by
  simp only [otherTexts_eq, List.flatMap_append]

end Entry

/-! ## Drafts -/

namespace Draft

/-- What a draft will write is what the entries in a list write. -/
structure Reads (draft : Draft) (ctx : Context) (keys : EntityKeys)
    (nestedText? : Nat → Except ConditionError String) (nestedText : Group → String)
    (done : List Entry) : Prop where
  sound : draft.Sound ctx keys ctx.subjectText (Entry.leaves done)
  fields : draft.mappings.fields = ((Entry.leaves done).map Leaf.field).eraseDups
  values : Clause.textsOfAll nestedText? draft.values =
    .ok ((Entry.leaves done).flatMap (·.keySetTexts ctx keys))
  conditions : Clause.textsOfAll nestedText? draft.conditions =
    .ok (done.flatMap (Entry.textsWith nestedText ctx keys))
  comparisons : (draft.values ++ draft.conditions).filterMap Clause.comparison? =
    (Entry.leaves done).flatMap (·.comparisonTexts ctx keys)

/-- Before the first entry nothing is written. -/
theorem reads_empty (ctx : Context) (keys : EntityKeys)
    (nestedText? : Nat → Except ConditionError String) (nestedText : Group → String) :
    Reads {} ctx keys nestedText? nestedText [] where
  sound := sound_empty ctx keys ctx.subjectText
  fields := rfl
  values := rfl
  conditions := rfl
  comparisons := rfl

/-- Noting a mapping adds its field to the known ones, at the end if it is new. -/
theorem fields_note {draft : Draft} {field : String} {mapping : FieldMapping}
    {before : List String} (h : draft.mappings.fields = before.eraseDups) :
    (draft.note field mapping).mappings.fields = (before ++ [field]).eraseDups := by
  rw [eraseDups_concat]
  cases hknown : draft.mappings.get? field with
  | some known =>
      have hmem : field ∈ before := by
        rw [← List.mem_eraseDups, ← h, ← Classical.not_not (a := field ∈ draft.mappings.fields),
          ← Memo.get?_eq_none_iff, hknown]
        simp
      rw [note_of_get? hknown, if_pos hmem, h]
  | none =>
      have hnew : field ∉ before := by
        rw [← List.mem_eraseDups, ← h, ← Memo.get?_eq_none_iff]
        exact hknown
      rw [note_of_new hknown, if_neg hnew, ← h]
      simp [Memo.fields, Memo.push]

/-- The clause of a leaf that restricts a key to a set goes to the sets. -/
theorem values_add (draft : Draft) (leaf : Leaf) (keys : EntityKeys) (clause : Clause) :
    (draft.add (keys.kind leaf.field) leaf.operator clause).values =
      if leaf.isKeySet keys then draft.values ++ [clause] else draft.values := by
  unfold add
  cases h : leaf.isKeySet keys <;> rw [Leaf.isKeySet] at h <;> simp [h]

/-- Any other clause goes to the conditions. -/
theorem conditions_add (draft : Draft) (leaf : Leaf) (keys : EntityKeys) (clause : Clause) :
    (draft.add (keys.kind leaf.field) leaf.operator clause).conditions =
      if leaf.isKeySet keys then draft.conditions else draft.conditions ++ [clause] := by
  unfold add
  cases h : leaf.isKeySet keys <;> rw [Leaf.isKeySet] at h <;> simp [h]

/-- Compiling a leaf adds its texts to those of the draft. -/
theorem Reads.compileLeaf {draft next : Draft} {ctx : Context} {keys : EntityKeys}
    {nestedText? : Nat → Except ConditionError String} {nestedText : Group → String}
    {done : List Entry} (hctx : ctx.Functional)
    (h : draft.Reads ctx keys nestedText? nestedText done) {leaf : Leaf} {trace later : Trace}
    (hleaf : leaf.compile ctx keys ctx.subjectText draft trace = (.ok next, later)) :
    next.Reads ctx keys nestedText? nestedText (done ++ [.leaf leaf]) := by
  have hsound := h.sound.compileLeaf hleaf
  obtain ⟨mapping, clause, hmaps, hbecomes, rfl⟩ := Leaf.compile_ok hleaf
  obtain ⟨s, hfound⟩ := h.sound.found_of_maps hmaps
  rw [hctx.eq_mappingOf hfound] at hbecomes hsound ⊢
  obtain ⟨htexts, hcomparison⟩ := hbecomes.texts_eq hctx nestedText?
  have hlist := Clause.textsOfAll_singleton htexts
  have hleaves : Entry.leaves (done ++ [.leaf leaf]) = Entry.leaves done ++ [leaf] :=
    Entry.leaves_append done [.leaf leaf]
  refine ⟨?_, ?_, ?_, ?_, ?_⟩
  · rw [hleaves]
    exact hsound
  · rw [add_mappings, hleaves, List.map_append]
    exact fields_note h.fields
  · rw [values_add, note_values, hleaves, List.flatMap_append, List.flatMap_singleton,
      Leaf.keySetTexts]
    cases leaf.isKeySet keys with
    | true => exact Clause.textsOfAll_append h.values hlist
    | false => simpa using h.values
  · rw [conditions_add, note_conditions, List.flatMap_append, List.flatMap_singleton,
      Entry.textsWith, Leaf.otherTexts]
    cases leaf.isKeySet keys with
    | true => simpa using h.conditions
    | false => exact Clause.textsOfAll_append h.conditions hlist
  · have hone : [clause].filterMap Clause.comparison? = clause.comparison?.toList := by
      cases h : clause.comparison? <;> simp [h]
    rw [hleaves, List.flatMap_append, List.flatMap_singleton, ← h.comparisons, ← hcomparison,
      values_add, conditions_add, note_values, note_conditions]
    cases hset : leaf.isKeySet keys with
    | false => simp [hone]
    | true =>
        -- A key set is no comparison, so its place in the plan does not matter.
        have hnone : clause.comparison? = none := by
          rw [← Option.toList_eq_nil_iff, hcomparison]
          exact leaf.comparisonTexts_of_isKeySet hset
        simp [hnone]

/-- A nested group adds its one text. -/
theorem Reads.addNested {draft : Draft} {ctx : Context} {keys : EntityKeys}
    {nestedText? : Nat → Except ConditionError String} {nestedText : Group → String}
    {done : List Entry} (h : draft.Reads ctx keys nestedText? nestedText done) {index : Nat}
    {inner : Group} (hinner : nestedText? index = .ok (nestedText inner)) :
    (draft.addNested index).Reads ctx keys nestedText? nestedText (done ++ [.nested inner]) := by
  have hleaves : Entry.leaves (done ++ [.nested inner]) = Entry.leaves done := by
    rw [Entry.leaves_append]
    simp
  have hlist : Clause.textsOfAll nestedText? [.nested index] = .ok [nestedText inner] :=
    Clause.textsOfAll_singleton (by rw [Clause.texts, hinner]; rfl)
  refine ⟨?_, ?_, ?_, ?_, ?_⟩
  · rw [hleaves]
    exact h.sound.addNested index
  · rw [hleaves]
    exact h.fields
  · rw [hleaves]
    exact h.values
  · rw [List.flatMap_append]
    exact Clause.textsOfAll_append h.conditions hlist
  · rw [hleaves, ← h.comparisons]
    simp [Draft.addNested, Clause.comparison?]

end Draft

/-- A walk over the entries of a group adds the texts of all of them, where those of nested groups
are known by their places. -/
theorem Entry.reads_compileAll {ctx : Context} {keys : EntityKeys}
    {nestedText? : Nat → Except ConditionError String} {nestedText : Group → String}
    {entries done : List Entry} {index : Nat} {draft final : Draft} {trace : Trace}
    (hctx : ctx.Functional) (hdraft : draft.Reads ctx keys nestedText? nestedText done)
    (hnested : ∀ place inner, entries[place]? = some (.nested inner) →
      nestedText? (index + place) = .ok (nestedText inner))
    (h : (compileAll ctx keys ctx.subjectText entries index draft trace).result = .ok final) :
    final.Reads ctx keys nestedText? nestedText (done ++ entries) := by
  induction entries generalizing index draft trace done with
  | nil =>
      rw [compileAll] at h
      cases h
      simpa using hdraft
  | cons entry rest ih =>
      -- Places count from the first entry, so those of the rest lie one further on.
      have hrest : ∀ place inner, rest[place]? = some (.nested inner) →
          nestedText? (index + 1 + place) = .ok (nestedText inner) := by
        intro place inner hplace
        rw [Nat.add_assoc, Nat.add_comm 1 place]
        exact hnested (place + 1) inner hplace
      rw [List.append_cons]
      cases entry with
      | leaf own =>
          obtain ⟨next, mid, hown, hwalk, _⟩ := compileAll_leaf_ok h
          exact ih (hdraft.compileLeaf hctx hown) hrest hwalk
      | nested inner =>
          obtain ⟨_, mid, hwalk, _⟩ := compileAll_nested_ok h
          exact ih (hdraft.addNested (hnested 0 inner rfl)) hrest hwalk

end GraphCriteria
