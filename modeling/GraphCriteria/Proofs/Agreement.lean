import GraphCriteria.Proofs.FieldMappings

/-!
# What compiling depends on

Of its context, compiling a tree reads the entity type, the subject as a variable, the predicate of
the bundle, and what the host says of the fields of the leaves in the tree.  Two contexts in which
these are the same give the same outcome, whatever it is.  So the tables of a request count only as
sets, and only where a condition speaks of the field.

Main results:

- Theorem `Leaf.compile_congr`: a leaf compiles alike where the host says the same of its field.
- Theorem `Group.compile_congr`: so does a tree, for the fields of all leaves in it.
- Theorem `CompileRequest.compile_congr`: and so does a request.
- Theorem `CompileRequest.compile_sameTables`: requests whose tables hold the same members for the
  fields of their conditions compile alike.
-/

namespace GraphCriteria

/-! ## Contexts -/

/-- Two contexts write the names that do not depend on a field in the same way. -/
structure Context.SameNames (ctx other : Context) : Prop where
  entityType : ctx.entityType = other.entityType
  subject : Variable.ofName ctx.options.subjectVariable =
    Variable.ofName other.options.subjectVariable
  typePredicate : ctx.options.typePredicate = other.options.typePredicate

/-- The hosts of two contexts say the same of a field.  The predicates of keys do not matter. -/
structure Context.AnswersAlike (ctx other : Context) (keys : EntityKeys) (field : String) :
    Prop where
  resolver : (keys.kind field).isKey = false → ∀ trace,
    ctx.resolver trace ctx.entityType field = other.resolver trace ctx.entityType field
  escaper : ∀ trace value language,
    ctx.escaper trace field value language = other.escaper trace field value language

section Leaves

variable {ctx other : Context} {keys : EntityKeys}

/-- Hosts that answer alike for a field escape its values alike. -/
theorem Context.AnswersAlike.escape {field : String} (h : ctx.AnswersAlike other keys field)
    (value : String) (language : Option String) :
    ctx.escape field value language = other.escape field value language := by
  funext trace
  rw [Context.escape, Context.escape, h.escaper]

/-- So they do for several values in a row. -/
theorem Context.AnswersAlike.escapeAll {field : String} (h : ctx.AnswersAlike other keys field)
    (language : Option String) (values : List String) :
    ctx.escapeAll field language values = other.escapeAll field language values := by
  induction values with
  | nil => rfl
  | cons value values ih => rw [Context.escapeAll, Context.escapeAll, h.escape, ih]

/-- They find the same mapping, if the contexts have the same names. -/
theorem Context.AnswersAlike.findMapping {field : String} (h : ctx.AnswersAlike other keys field)
    (hnames : ctx.SameNames other) :
    ctx.findMapping (keys.kind field) field = other.findMapping (keys.kind field) field := by
  have hresolve : (keys.kind field).isKey = false → ctx.resolve field = other.resolve field := by
    intro hkey
    funext trace
    rw [Context.resolve, Context.resolve, h.resolver hkey, hnames.entityType]
  cases hkind : keys.kind field with
  | id => rfl
  | bundle => rw [Context.findMapping, Context.findMapping, hnames.typePredicate]
  | label | other =>
      rw [Context.findMapping, Context.findMapping, hresolve (by rw [hkind]; rfl),
        hnames.entityType]

namespace Leaf

variable {leaf : Leaf}

theorem members_congr (h : ctx.AnswersAlike other keys leaf.field) :
    leaf.members ctx = leaf.members other := by
  unfold members
  cases leaf.value with
  | none => rfl
  | some value => exact h.escapeAll leaf.language value.toList

theorem operand_congr (h : ctx.AnswersAlike other keys leaf.field) (kind : FieldKind) :
    leaf.operand kind ctx = leaf.operand kind other := by
  unfold operand
  rw [members_congr h]

/-- So they make the same clause of a leaf. -/
theorem clause_congr (h : ctx.AnswersAlike other keys leaf.field) (subject : String)
    (kind : FieldKind) (mapping : FieldMapping) :
    leaf.clause ctx subject kind mapping = leaf.clause other subject kind mapping := by
  unfold clause
  simp only [h.escape, members_congr h, operand_congr h]

/-- A leaf compiles alike where the host says the same of its field. -/
theorem compile_congr (hnames : ctx.SameNames other) (h : ctx.AnswersAlike other keys leaf.field)
    (subject : String) (draft : Draft) :
    leaf.compile ctx keys subject draft = leaf.compile other keys subject draft := by
  unfold compile Draft.fetch
  simp only [h.findMapping hnames, clause_congr h]

end Leaf

end Leaves

/-! ## Trees -/

/-- The triple for the bundle depends on the names only. -/
theorem Group.defaultBundle_congr {ctx other : Context} (hnames : ctx.SameNames other)
    (group : Group) (subject : String) :
    group.defaultBundle ctx subject = group.defaultBundle other subject := by
  unfold defaultBundle
  rw [hnames.typePredicate]

/-- A tree compiles alike where the hosts say the same of the fields of all leaves in it. -/
theorem Group.compile_congr {ctx other : Context} (hnames : ctx.SameNames other) {group : Group}
    (h : group.Everywhere fun inner => ∀ leaf ∈ inner.ownLeaves,
      ctx.AnswersAlike other inner.keys leaf.field) (trace : Trace) :
    group.compile ctx trace = group.compile other trace := by
  refine (Group.treeInduction
    (P := fun group => (group.Everywhere fun inner => ∀ leaf ∈ inner.ownLeaves,
        ctx.AnswersAlike other inner.keys leaf.field) →
      ∀ trace, group.compile ctx trace = group.compile other trace)
    (R := fun entries => ∀ keys : EntityKeys,
      (∀ leaf ∈ Entry.leaves entries, ctx.AnswersAlike other keys leaf.field) →
      (∀ inner : Group, .nested inner ∈ entries → inner.Everywhere fun inner =>
        ∀ leaf ∈ inner.ownLeaves, ctx.AnswersAlike other inner.keys leaf.field) →
      ∀ subject index draft trace, Entry.compileAll ctx keys subject entries index draft trace =
        Entry.compileAll other keys subject entries index draft trace) ?_ ?_ ?_ ?_).1 group h trace
  · intro conjunction keys entries lacksBundle state ih h trace
    cases state with
    | compiled plan | rendered plan text =>
        rw [compile_of_compiled (by simp), compile_of_compiled (by simp)]
    | building =>
        have hwalk := ih keys h.self (everywhere_iff.1 h).2
        rw [compile, compile, hnames.subject, hnames.entityType]
        simp only [hwalk, defaultBundle_congr hnames]
  · intro keys _ _ subject index draft trace
    rw [Entry.compileAll, Entry.compileAll]
  · intro leaf rest ih keys hleaves hnested subject index draft trace
    have hrest := ih keys (fun own hown => hleaves own (by simp [hown]))
      fun inner hinner => hnested inner (by simp [hinner])
    rw [Entry.compileAll, Entry.compileAll, Leaf.compile_congr hnames (hleaves leaf (by simp))]
    simp only [hrest]
  · intro inner rest hinner ih keys hleaves hnested subject index draft trace
    have hrest := ih keys (fun own hown => hleaves own (by simpa using hown))
      fun inner hinner => hnested inner (by simp [hinner])
    rw [Entry.compileAll, Entry.compileAll, hinner (hnested inner (by simp))]
    simp only [hrest]

/-! ## Requests -/

/-- A described tree has leaves only of the fields that it mentions. -/
theorem GroupDescription.everywhere_tree_fields {keys : EntityKeys}
    {description : GroupDescription} {P : EntityKeys → String → Prop}
    (h : ∀ field ∈ description.fields, P keys field) :
    (description.tree keys).Everywhere fun inner => ∀ leaf ∈ inner.ownLeaves,
      P inner.keys leaf.field := by
  intro inner hinner leaf hleaf
  rw [(everywhere_tree keys description inner hinner).2]
  exact h _ (mentions_tree.1 ⟨inner, hinner, leaf, hleaf, rfl⟩)

namespace CompileRequest

/-- Requests that describe the same tree compile alike where their hosts say the same of its
fields. -/
theorem compile_congr {request other : CompileRequest}
    (hbuild : other.conditions.build other.keys = request.conditions.build request.keys)
    (hnames : request.context.SameNames other.context)
    (h : ∀ field ∈ request.conditions.fields,
      request.context.AnswersAlike other.context request.keys field) :
    other.compile = request.compile := by
  funext trace
  have htree := Group.compile_congr hnames
    (GroupDescription.everywhere_tree_fields (P := fun keys field =>
      request.context.AnswersAlike other.context keys field) h)
  have htype : request.entityType = other.entityType := hnames.entityType
  unfold compile
  rw [hbuild, request.conditions.build_eq]
  cases request.conditions.askingFaults request.keys with
  | cons e faults => rfl
  | nil =>
      dsimp only [firstFault]
      rw [htree, htype]

end CompileRequest

/-- Two ways of giving values differ at most in reference fields that are not among some fields. -/
inductive ValueEscaping.SameOn (fields : List String) : ValueEscaping → ValueEscaping → Prop where
  | raw : SameOn fields .raw .raw
  | terms {references others : List String}
      (h : ∀ field ∈ fields, field ∈ references ↔ field ∈ others) :
      SameOn fields (.terms references) (.terms others)

/-- Whether a field is a reference is all that an escaper for terms knows of it. -/
theorem TermEscaper.escape_congr {terms other : TermEscaper} {field : String}
    (h : terms.isReference field = other.isReference field) (value : String)
    (language : Option String) :
    terms.escape field value language = other.escape field value language := by
  unfold escape
  rw [h]

/-- Which fields are references is all that counts of a list of reference fields. -/
theorem ValueEscaping.SameOn.escaper_eq {fields : List String} {escaping other : ValueEscaping}
    (h : escaping.SameOn fields other) {field : String} (hfield : field ∈ fields) (trace : Trace)
    (value : String) (language : Option String) :
    escaping.escaper trace field value language = other.escaper trace field value language := by
  cases h with
  | raw => rfl
  | @terms references others hmembers =>
      refine TermEscaper.escape_congr ?_ value language
      rw [Bool.eq_iff_iff, TermEscaper.isReference, TermEscaper.isReference,
        StringSet.contains_iff, StringSet.contains_iff, StringSet.mem_ofList, StringSet.mem_ofList]
      exact hmembers field hfield

namespace CompileRequest

/-- A field has the same predicates in two requests that list the same members for it. -/
theorem predicatesOf_congr {request other : CompileRequest} {field : String}
    (h : ∀ predicate, predicate ∈ (request.mappings.get? field).getD [] ↔
      predicate ∈ (other.mappings.get? field).getD []) :
    request.predicatesOf field = other.predicatesOf field := by
  unfold predicatesOf
  refine congrArg StringSet.toList (StringSet.ext fun predicate => ?_)
  rw [StringSet.mem_ofList, StringSet.mem_ofList]
  exact h predicate

/-- The tables of a request count only as sets, and only where they are used.  Let other mappings
list the same members for every field of a condition that is neither the id nor the bundle key,
and let other reference fields be the same among all fields of conditions.  Then the request gives
the same output or the same error, and does so in the same steps. -/
theorem compile_sameTables (request : CompileRequest) {mappings : StringMap (List String)}
    {escaping : ValueEscaping}
    (hmappings : ∀ field ∈ request.conditions.fields, (request.keys.kind field).isKey = false →
      ∀ predicate, predicate ∈ (request.mappings.get? field).getD [] ↔
        predicate ∈ (mappings.get? field).getD [])
    (hescaping : request.escaping.SameOn request.conditions.fields escaping) :
    { request with mappings := mappings, escaping := escaping }.compile = request.compile := by
  let other : CompileRequest := { request with mappings := mappings, escaping := escaping }
  have hother : other.compile = request.compile := by
    refine compile_congr rfl ⟨rfl, rfl, rfl⟩ fun field hfield => ⟨?_, ?_⟩
    · intro hkey trace
      have hlist : request.predicatesOf field = other.predicatesOf field :=
        predicatesOf_congr (hmappings field hfield hkey)
      have hset : request.table.predicates request.entityType field =
          other.table.predicates other.entityType field := by
        refine StringSet.ext fun predicate => ?_
        rw [StringSet.mem_def, StringSet.mem_def, predicates_table, predicates_table, hlist]
      have hleft := request.resolver_context trace field
      have hright := other.resolver_context trace field
      rw [← hlist, ← hset] at hright
      exact hleft.trans hright.symm
    · intro trace value language
      exact hescaping.escaper_eq hfield trace value language
  exact hother

end CompileRequest

namespace Sample

/-- Nodes with one of two tags that refer to some other node, values being written as terms. -/
def referring : CompileRequest where
  entityType := "node"
  keys := keys
  mappings := (StringMap.empty.insert "tag" ["<tag>", "<topic>"]).insert "link" ["<link>"]
  escaping := .terms ["link", "tag"]
  conditions := ⟨.and, [.leaf "tag.value" (some (.list ["urn:red", "urn:blue"])) (some "IN") none,
    .group ⟨.or, [.leaf "link" (some (.single "urn:x")) none none]⟩]⟩

/-- Mappings that list the same predicates for tags and links, in another order and repeatedly, and
more for a name with a full stop, for the bundle and for a field without conditions. -/
def otherMappings : StringMap (List String) :=
  ((((StringMap.empty.insert "tag" ["<topic>", "<tag>", "<topic>"]).insert "link" ["<link>"]).insert
    "tag.value" ["<value>"]).insert "type" ["<kind>"]).insert "body" ["<body>"]

end Sample

/-- Other tables for the same fields give the same text. -/
theorem CompileRequest.compile_referring :
    { Sample.referring with
        mappings := Sample.otherMappings
        escaping := .terms ["tag", "body", "link", "tag"] }.compile = Sample.referring.compile ∧
      (Sample.referring.compile []).1.toOption.map CompileOutput.fragment =
        some ("VALUES ?tag_predicate \x7b <tag> <topic> \x7d . " ++
          "?entity ?tag_predicate ?tag . VALUES ?tag \x7b <urn:red> <urn:blue> \x7d . " ++
          "\x7b ?entity <link> <urn:x> \x7d") := by
  have hfields : Sample.referring.conditions.fields = ["tag", "link"] := by decide +kernel
  have htag : (Sample.referring.mappings.get? "tag").getD [] = ["<tag>", "<topic>"] ∧
      (Sample.otherMappings.get? "tag").getD [] = ["<topic>", "<tag>", "<topic>"] := by
    decide +kernel
  have hlink : Sample.referring.mappings.get? "link" = Sample.otherMappings.get? "link" := by
    decide +kernel
  refine ⟨compile_sameTables Sample.referring ?_ ?_, by decide +kernel⟩
  · rw [hfields]
    intro field hfield _ predicate
    simp only [List.mem_cons, List.not_mem_nil, or_false] at hfield
    rcases hfield with rfl | rfl
    · rw [htag.1, htag.2]
      simp only [List.mem_cons, List.not_mem_nil, or_false]
      grind
    · rw [hlink]
  · rw [hfields]
    exact .terms (by decide)

end GraphCriteria
