import GraphCriteria.Proofs.Described
import GraphCriteria.Proofs.Phases
import GraphCriteria.Proofs.Plans
import GraphCriteria.Proofs.Predicates

/-!
# The field mappings of a request

The output of a request says which predicates stand for each field that its conditions mention,
at whatever depth.  It is collected from the plans of all groups, and since these agree on every
field, the order in which they are visited does not matter.

Main results:

- Theorem `Group.collect_eq`: what is collected of a tree is folded from the notes of its groups.
- Theorem `get?_collectNotes`: notes that agree on every field give the same map in any order.
- Theorem `GroupDescription.compiledIn_tree`: a described tree that has been compiled has plans in
  all its groups.
- Theorem `CompileRequest.fieldMappings_of_compile`: the field mappings of a request.
-/

namespace GraphCriteria

/-! ## Collecting in any order -/

/-- The field mappings that come of visiting some notes in turn. -/
def collectNotes (notes : List (String × FieldMapping)) (found : StringMap (List String)) :
    StringMap (List String) :=
  notes.foldl (fun found note => found.insertNew note.1 note.2.predicates) found

/-- Notes that agree on every field, with each other and with what was found before, can be
visited in any order. -/
theorem get?_collectNotes {notes : List (String × FieldMapping)} {found : StringMap (List String)}
    {listed : String → List String} (hnotes : ∀ note ∈ notes, note.2.predicates = listed note.1)
    (hfound : ∀ field known, found.get? field = some known → known = listed field)
    (field : String) :
    (collectNotes notes found).get? field =
      if field ∈ notes.map Prod.fst then some (listed field) else found.get? field := by
  induction notes generalizing found with
  | nil => simp [collectNotes]
  | cons note notes ih =>
      have hnew : (found.get? note.1).getD note.2.predicates = listed note.1 := by
        cases hknown : found.get? note.1 with
        | none => exact hnotes note List.mem_cons_self
        | some known => exact hfound note.1 known hknown
      have hget : ∀ other, (found.insertNew note.1 note.2.predicates).get? other =
          if other = note.1 then some (listed note.1) else found.get? other := by
        intro other
        rw [StringMap.get?_insertNew, hnew]
      have hagree : ∀ other known,
          (found.insertNew note.1 note.2.predicates).get? other = some known →
            known = listed other := by
        intro other known hknown
        rw [hget] at hknown
        split at hknown
        · rename_i heq
          cases hknown
          rw [heq]
        · exact hfound other known hknown
      have hrest := ih (fun other hother => hnotes other (List.mem_cons_of_mem _ hother)) hagree
      have hstep : collectNotes (note :: notes) found =
          collectNotes notes (found.insertNew note.1 note.2.predicates) := rfl
      rw [hstep, hrest, hget, List.map_cons]
      by_cases hhead : field = note.1
      · simp [hhead]
      · simp only [List.mem_cons, hhead, false_or, if_false]

mutual

/-- The mappings that the plans of a tree note, in the order in which its groups are visited. -/
def Group.noted (group : Group) : List (String × FieldMapping) :=
  match group with
  | ⟨_, _, entries, _, state⟩ =>
    (state.plan?.map fun plan => plan.mappings.entries).getD [] ++ Entry.noted entries

/-- The mappings that the plans of the groups among some entries note. -/
def Entry.noted (entries : List Entry) : List (String × FieldMapping) :=
  match entries with
  | [] => []
  | .leaf _ :: rest => Entry.noted rest
  | .nested group :: rest => group.noted ++ Entry.noted rest

end

/-- What is collected of a tree comes of visiting its notes. -/
theorem Group.collect_eq (group : Group) (found : StringMap (List String)) :
    group.collect found = collectNotes group.noted found := by
  refine (Group.treeInduction
    (P := fun group => ∀ found, group.collect found = collectNotes group.noted found)
    (R := fun entries => ∀ found,
      Entry.collectAll entries found = collectNotes (Entry.noted entries) found) ?_ ?_ ?_ ?_).1
    group found
  · intro conjunction keys entries lacksBundle state ih found
    rw [collect, noted, collectNotes, List.foldl_append, ih]
    cases state.plan? <;> rfl
  · intro found
    rw [Entry.collectAll, Entry.noted]
    rfl
  · intro leaf rest ih found
    rw [Entry.collectAll, Entry.noted, ih]
  · intro inner rest hinner ih found
    rw [Entry.collectAll, Entry.noted, ih, hinner, collectNotes, collectNotes, collectNotes,
      List.foldl_append]

theorem Entry.mem_noted_iff {entries : List Entry} {note : String × FieldMapping} :
    note ∈ noted entries ↔ ∃ inner : Group, .nested inner ∈ entries ∧ note ∈ inner.noted := by
  induction entries with
  | nil => simp [noted]
  | cons entry rest ih =>
      cases entry with
      | leaf own => simp [noted, ih]
      | nested inner => simp [noted, ih]

/-- The notes of a tree are those of the plans of all groups inside it. -/
theorem Group.mem_noted_iff {group : Group} {note : String × FieldMapping} :
    note ∈ group.noted ↔ ∃ inner : Group, inner.Within group ∧ ∃ plan, inner.plan? = some plan ∧
      note ∈ plan.mappings.entries := by
  induction group using Group.nestedInduction with
  | step group ih =>
      have hsplit : note ∈ group.noted ↔
          (∃ plan, group.plan? = some plan ∧ note ∈ plan.mappings.entries) ∨
            note ∈ Entry.noted group.entries := by
        obtain ⟨conjunction, keys, entries, lacksBundle, state⟩ := group
        rw [noted, List.mem_append, plan?]
        cases state.plan? <;> simp
      rw [hsplit, Entry.mem_noted_iff]
      constructor
      · rintro (hown | ⟨inner, hinner, hnote⟩)
        · exact ⟨group, .self group, hown⟩
        · obtain ⟨deep, hdeep, hplan⟩ := (ih inner hinner).1 hnote
          exact ⟨deep, .nested hinner hdeep, hplan⟩
      · rintro ⟨deep, hdeep, hplan⟩
        cases hdeep with
        | self => exact .inl hplan
        | nested hinner hwithin =>
            exact .inr ⟨_, hinner, (ih _ hinner).2 ⟨deep, hwithin, hplan⟩⟩

/-! ## Fields -/

mutual

/-- The fields of all conditions of a description, at whatever depth. -/
def GroupDescription.fields (description : GroupDescription) : List String :=
  match description with
  | ⟨_, entries⟩ => EntryDescription.fields entries

/-- The fields of all conditions of some entries. -/
def EntryDescription.fields (entries : List EntryDescription) : List String :=
  match entries with
  | [] => []
  | .group description :: rest => description.fields ++ EntryDescription.fields rest
  | .leaf field _ _ _ :: rest => baseField field :: EntryDescription.fields rest

end

/-- A field is one of a leaf of some group inside a tree. -/
def Group.Mentions (group : Group) (field : String) : Prop :=
  ∃ inner : Group, inner.Within group ∧ ∃ leaf ∈ inner.ownLeaves, leaf.field = field

/-- A field is one of a leaf among some entries, or in a group nested there. -/
def Entry.Mention (entries : List Entry) (field : String) : Prop :=
  (∃ leaf ∈ leaves entries, leaf.field = field) ∨
    ∃ inner : Group, .nested inner ∈ entries ∧ inner.Mentions field

namespace Entry

variable {rest : List Entry} {field : String}

@[simp] theorem mention_nil : ¬ Mention [] field := by
  simp [Mention]

@[simp] theorem mention_cons_leaf {leaf : Leaf} :
    Mention (.leaf leaf :: rest) field ↔ leaf.field = field ∨ Mention rest field := by
  simp [Mention, or_assoc]

@[simp] theorem mention_cons_nested {inner : Group} :
    Mention (.nested inner :: rest) field ↔ inner.Mentions field ∨ Mention rest field := by
  simp [Mention, or_left_comm]

end Entry

namespace Group

variable {group : Group} {field : String}

/-- A tree mentions what its entries mention. -/
theorem mentions_iff : group.Mentions field ↔ Entry.Mention group.entries field := by
  constructor
  · rintro ⟨deep, hdeep, hleaf⟩
    cases hdeep with
    | self => exact .inl hleaf
    | nested hinner hwithin => exact .inr ⟨_, hinner, deep, hwithin, hleaf⟩
  · rintro (hleaf | ⟨inner, hinner, deep, hdeep, hleaf⟩)
    · exact ⟨group, .self group, hleaf⟩
    · exact ⟨deep, .nested hinner hdeep, hleaf⟩

/-- Erasing what compiling adds changes no field. -/
theorem mentions_bare : group.bare.Mentions field ↔ group.Mentions field := by
  refine (treeInduction (P := fun group => group.bare.Mentions field ↔ group.Mentions field)
    (R := fun entries => Entry.Mention (Entry.bareAll entries) field ↔ Entry.Mention entries field)
    ?_ ?_ ?_ ?_).1 group
  · intro conjunction keys entries lacksBundle state ih
    rw [mentions_iff, mentions_iff, bare]
    exact ih
  · rfl
  · intro leaf rest ih
    rw [Entry.bareAll, Entry.mention_cons_leaf, Entry.mention_cons_leaf, ih]
  · intro inner rest hinner ih
    rw [Entry.bareAll, Entry.mention_cons_nested, Entry.mention_cons_nested, hinner, ih]

end Group

/-- The entry of a leaf mentions its field. -/
theorem Entry.mention_entryOf {conjunction : Conjunction} {keys : EntityKeys} {leaf : Leaf}
    {rest : List Entry} {field : String} :
    Mention (Group.entryOf conjunction keys leaf :: rest) field ↔
      leaf.field = field ∨ Mention rest field := by
  cases conjunction with
  | and => rw [Group.entryOf, mention_cons_leaf]
  | or =>
      rw [Group.entryOf, mention_cons_nested, Group.mentions_iff]
      simp [Group.ofEntries]

/-- A described tree mentions the fields of its description. -/
theorem GroupDescription.mentions_tree {keys : EntityKeys} {description : GroupDescription}
    {field : String} : (description.tree keys).Mentions field ↔ field ∈ description.fields := by
  refine (GroupDescription.treeInduction
    (P := fun description => (description.tree keys).Mentions field ↔ field ∈ description.fields)
    (R := fun entries => ∀ conjunction,
      Entry.Mention (EntryDescription.trees keys conjunction entries) field ↔
        field ∈ EntryDescription.fields entries) ?_ ?_ ?_ ?_).1 description
  · intro conjunction entries ih
    rw [Group.mentions_iff, tree, fields]
    exact ih conjunction
  · intro conjunction
    simp [EntryDescription.trees, EntryDescription.fields]
  · intro name value operator language rest ih conjunction
    have hfield : (askedLeaf name value operator language).field = baseField name := rfl
    rw [EntryDescription.trees, EntryDescription.fields, Entry.mention_entryOf, ih,
      keys.field_stored, hfield, List.mem_cons, eq_comm]
  · intro inner rest hinner ih conjunction
    rw [EntryDescription.trees, EntryDescription.fields, Entry.mention_cons_nested, hinner, ih,
      List.mem_append]

/-! ## Notes of compiled trees -/

/-- In a functional context the predicates of a field are those that the host has for it, or that
of the bundle; the id has none. -/
def Context.predicatesFor (ctx : Context) (keys : EntityKeys) (field : String) : List String :=
  match keys.kind field with
  | .id => []
  | .bundle => [ctx.options.typePredicate]
  | .label | .other => ctx.candidates field

theorem Context.predicates_mappingOf (ctx : Context) (keys : EntityKeys) (field : String) :
    (ctx.mappingOf (keys.kind field) field).predicates = ctx.predicatesFor keys field := by
  unfold mappingOf predicatesFor
  cases keys.kind field with
  | id | bundle => rfl
  | label | other =>
      dsimp only
      rcases ctx.candidates field with _ | ⟨first, _ | ⟨second, others⟩⟩ <;> rfl

namespace Group

/-- A tree of compiled groups in which every plan was made in one functional context. -/
structure CompiledIn (ctx : Context) (keys : EntityKeys) (group : Group) : Prop where
  keys_eq : group.Everywhere fun inner => inner.keys = keys
  planned : group.Everywhere (Planned (· = ctx))
  compiled : group.Everywhere fun inner => inner.phase ≠ .building

/-- The notes of such a tree are about the fields that it mentions. -/
theorem CompiledIn.mem_fields_noted_iff {ctx : Context} {keys : EntityKeys} {group : Group}
    (h : group.CompiledIn ctx keys) {field : String} :
    field ∈ group.noted.map Prod.fst ↔ group.Mentions field := by
  have hfields : ∀ (inner : Group) (plan : Plan), inner.Within group → inner.plan? = some plan →
      (field ∈ plan.mappings.fields ↔ ∃ leaf ∈ inner.ownLeaves, leaf.field = field) := by
    intro inner plan hinner hplan
    obtain ⟨_, rfl, hplanned⟩ := h.planned inner hinner plan hplan
    rw [hplanned.fields, List.mem_eraseDups, List.mem_map]
  rw [List.mem_map]
  constructor
  · rintro ⟨note, hnote, rfl⟩
    obtain ⟨inner, hinner, plan, hplan, hentry⟩ := mem_noted_iff.1 hnote
    exact ⟨inner, hinner, (hfields inner plan hinner hplan).1 (List.mem_map_of_mem hentry)⟩
  · rintro ⟨inner, hinner, hleaf⟩
    obtain ⟨plan, hplan⟩ := exists_plan (h.compiled inner hinner)
    obtain ⟨note, hentry, hfield⟩ := List.mem_map.1 ((hfields inner plan hinner hplan).2 hleaf)
    exact ⟨note, mem_noted_iff.2 ⟨inner, hinner, plan, hplan, hentry⟩, hfield⟩

/-- They say of each field what the host does, and a field that is no key has a predicate. -/
theorem CompiledIn.predicates_eq {ctx : Context} {keys : EntityKeys} {group : Group}
    (h : group.CompiledIn ctx keys) (hctx : ctx.Functional) {note : String × FieldMapping}
    (hnote : note ∈ group.noted) :
    note.2.predicates = ctx.predicatesFor keys note.1 ∧
      ((keys.kind note.1).isKey = false → ctx.candidates note.1 ≠ []) := by
  obtain ⟨inner, hinner, plan, hplan, hentry⟩ := mem_noted_iff.1 hnote
  obtain ⟨_, rfl, hplanned⟩ := h.planned inner hinner plan hplan
  obtain ⟨trace, hfound⟩ := hplanned.found hentry
  rw [h.keys_eq inner hinner] at hfound
  constructor
  · rw [hctx.eq_mappingOf hfound, Context.predicates_mappingOf]
  · intro hkey hnone
    rcases Context.findMapping_ok hfound with ⟨hid, _⟩ | ⟨hbundle, _⟩ | ⟨_, found, hresolver, hlist⟩
    · rw [hid] at hkey
      cases hkey
    · rw [hbundle] at hkey
      cases hkey
    · rw [hctx.candidates_eq hresolver] at hnone
      simp [hnone] at hlist

end Group

/-- Rendering keeps the plans of a tree. -/
theorem Group.CompiledIn.render {ctx : Context} {keys : EntityKeys} {group : Group}
    (h : group.CompiledIn ctx keys) (trace : Trace) :
    (group.render trace).left.CompiledIn ctx keys where
  keys_eq := everywhere_render (fun _ _ hkeys _ => hkeys) (fun _ _ _ hkeys _ _ => hkeys)
    h.keys_eq trace
  planned := everywhere_render (planned_invariant (· = ctx)).fail
    (planned_invariant (· = ctx)).render h.planned trace
  compiled := by
    refine everywhere_render (fun _ _ hphase _ => hphase) ?_ h.compiled trace
    intro inner plan text _ _ _
    rw [phase_ne_building_iff]
    simp [withText]

/-- Compiling a described tree compiles all groups of it. -/
theorem GroupDescription.compiledIn_tree {keys : EntityKeys} {description : GroupDescription}
    {ctx : Context} {trace : Trace}
    (hcompile : ((description.tree keys).compile ctx trace).result = .ok ()) :
    ((description.tree keys).compile ctx trace).left.CompiledIn ctx keys where
  keys_eq := by
    refine Group.everywhere_compile (fun _ _ _ hkeys _ => hkeys) ?_ ?_ trace
    · intro group subject start draft triple? hkeys _ _ _ _ _
      exact hkeys
    · exact (description.everywhere_tree keys).mono fun _ h => h.2
  planned := (Group.planned_invariant (· = ctx)).compile rfl
    ((description.everywhere_tree keys).mono fun inner h =>
      Group.planned_of_building _ inner h.1) trace
  compiled :=
    Group.phase_compile (Group.settled_of_allBuilding (description.allBuilding_tree keys)) hcompile

/-! ## Requests -/

namespace CompileRequest

variable (request : CompileRequest)

/-- The predicates that stand for a field in the output of a request. -/
def listedFor (field : String) : List String :=
  match request.keys.kind field with
  | .id => []
  | .bundle => [request.options.typePredicate]
  | .label | .other => request.predicatesOf field

theorem candidates_context (field : String) :
    request.context.candidates field = request.predicatesOf field := by
  have htable := request.predicates_table field
  have hresolver : request.context.resolver [] request.context.entityType field = _ :=
    request.resolver_context [] field
  rw [Context.candidates, hresolver]
  by_cases hnone : request.predicatesOf field = []
  · rw [if_pos hnone, hnone]
  · rw [if_neg hnone]
    exact htable

theorem predicatesFor_context (field : String) :
    request.context.predicatesFor request.keys field = request.listedFor field := by
  unfold Context.predicatesFor listedFor
  cases request.keys.kind field with
  | id | bundle => rfl
  | label | other => exact request.candidates_context field

/-- A request that succeeds has built, compiled and rendered its conditions. -/
theorem compile_ok {trace later : Trace} {output : CompileOutput}
    (h : request.compile trace = (.ok output, later)) :
    request.conditions.build request.keys = .ok (request.conditions.tree request.keys) ∧
      ∃ start mid, ((request.conditions.tree request.keys).compile request.context start).result =
          .ok () ∧
        output.fieldMappings = (((request.conditions.tree request.keys).compile request.context
          start).left.render mid).left.collect ∅ := by
  unfold compile at h
  rw [GroupDescription.build_eq] at h ⊢
  cases hasking : request.conditions.askingFaults request.keys with
  | cons e faults =>
      rw [hasking] at h
      cases h
  | nil =>
      rw [hasking] at h
      dsimp only [firstFault] at h
      generalize trace ++ [.built (request.conditions.tree request.keys).conjunction
        (request.conditions.tree request.keys).size] = start at h
      refine ⟨rfl, start, ?_⟩
      split at h
      · cases h
      · rename_i hcompile
        refine ⟨((request.conditions.tree request.keys).compile request.context start).trace,
          hcompile, ?_⟩
        split at h
        · cases h
        · cases h
          rfl

variable {request}

/-- The fields of a compiled tree that is about those of a request have the predicates which the
request lists for them, in whatever order the notes of the tree are visited. -/
theorem get?_visited {group : Group} {visited : List (String × FieldMapping)}
    (hgroup : group.CompiledIn request.context request.keys)
    (hmentions : ∀ field, group.Mentions field ↔ field ∈ request.conditions.fields)
    (hvisited : visited.Perm group.noted) (field : String) :
    (collectNotes visited ∅).get? field =
      if field ∈ request.conditions.fields then some (request.listedFor field) else none := by
  have hagree : ∀ note ∈ visited, note.2.predicates = request.listedFor note.1 := by
    intro note hnote
    rw [← predicatesFor_context]
    exact (hgroup.predicates_eq request.functional_context (hvisited.mem_iff.1 hnote)).1
  have hempty : ∀ other known, (∅ : StringMap (List String)).get? other = some known →
      known = request.listedFor other := by
    intro other known hknown
    cases hknown
  have hfields : field ∈ visited.map Prod.fst ↔ field ∈ request.conditions.fields := by
    rw [(hvisited.map Prod.fst).mem_iff, hgroup.mem_fields_noted_iff, hmentions]
  rw [get?_collectNotes hagree hempty field, StringMap.get?_empty]
  by_cases hfield : field ∈ request.conditions.fields
  · rw [if_pos (hfields.2 hfield), if_pos hfield]
  · rw [if_neg (fun h => hfield (hfields.1 h)), if_neg hfield]

/-- A field that is no key has predicates, listed in increasing order, once the tree that mentions
it has been compiled. -/
theorem listedFor_of_mentions {group : Group}
    (hgroup : group.CompiledIn request.context request.keys) {field : String}
    (hmentions : group.Mentions field) (hkey : (request.keys.kind field).isKey = false) :
    request.listedFor field ≠ [] ∧ (request.listedFor field).Pairwise (· < ·) ∧
      ∀ predicate, predicate ∈ request.listedFor field ↔
        predicate ∈ (request.mappings.get? field).getD [] := by
  have hlisted : request.listedFor field = request.predicatesOf field := by
    unfold listedFor
    cases hkind : request.keys.kind field with
    | id | bundle =>
        rw [hkind] at hkey
        cases hkey
    | label | other => rfl
  rw [hlisted]
  refine ⟨?_, StringSet.increasing _, fun predicate => StringSet.mem_ofList⟩
  obtain ⟨note, hnote, rfl⟩ := List.mem_map.1 (hgroup.mem_fields_noted_iff.2 hmentions)
  rw [← candidates_context]
  exact (hgroup.predicates_eq request.functional_context hnote).2 hkey

/-- The field mappings of a request that succeeds.  They are those of the fields which its
conditions mention at whatever depth: none for the id, the predicate of types for the bundle, and
for all other fields the predicates that the request lists, of which there are some, in increasing
order.  Visiting the plans of the groups and the fields of each plan in another order gives the
same. -/
theorem fieldMappings_of_compile {trace later : Trace} {output : CompileOutput}
    (h : request.compile trace = (.ok output, later)) :
    (∀ field, output.fieldMappings.get? field =
      if field ∈ request.conditions.fields then some (request.listedFor field) else none) ∧
    (∀ field ∈ request.conditions.fields, (request.keys.kind field).isKey = false →
      request.listedFor field ≠ [] ∧ (request.listedFor field).Pairwise (· < ·) ∧
        ∀ predicate, predicate ∈ request.listedFor field ↔
          predicate ∈ (request.mappings.get? field).getD []) ∧
    ∃ group, request.conditions.build request.keys = .ok group ∧
      ∀ start mid visited,
        visited.Perm ((group.compile request.context start).left.render mid).left.noted →
          collectNotes visited ∅ = output.fieldMappings := by
  obtain ⟨hbuild, start, mid, hcompile, houtput⟩ := compile_ok request h
  have hcompiled : ∀ start mid, (((request.conditions.tree request.keys).compile request.context
      start).left.render mid).left.CompiledIn request.context request.keys := by
    intro start' mid'
    apply Group.CompiledIn.render
    apply GroupDescription.compiledIn_tree
    rw [(Group.compile_steady request.functional_context _ start' start).1]
    exact hcompile
  have hmentions : ∀ start mid field, (((request.conditions.tree request.keys).compile
      request.context start).left.render mid).left.Mentions field ↔
        field ∈ request.conditions.fields := by
    intro start' mid' field
    rw [← Group.mentions_bare, Group.bare_render, Group.bare_compile, Group.mentions_bare,
      GroupDescription.mentions_tree]
  have hget : ∀ field, output.fieldMappings.get? field =
      if field ∈ request.conditions.fields then some (request.listedFor field) else none := by
    intro field
    rw [houtput, Group.collect_eq]
    exact get?_visited (hcompiled start mid) (hmentions start mid) (.refl _) field
  refine ⟨hget, ?_, _, hbuild, ?_⟩
  · intro field hfield hkey
    exact listedFor_of_mentions (hcompiled start mid) ((hmentions start mid field).2 hfield) hkey
  · intro start' mid' visited hvisited
    apply StringMap.ext
    intro field
    rw [hget]
    exact get?_visited (hcompiled start' mid') (hmentions start' mid') hvisited field

end CompileRequest

/-- Nodes that have the title home, or a tag and one of two ids. -/
def Sample.request : CompileRequest where
  entityType := "node"
  keys := Sample.keys
  mappings := ((StringMap.empty.insert "body" ["<body>"]).insert "tag" ["<topic>", "<tag>",
    "<topic>"]).insert "title" ["<title>"]
  conditions := ⟨.or, [.leaf "title.value" (some (.single "home")) none none,
    .group ⟨.and, [.leaf "tag" none (some "EXISTS") none,
      .leaf "nid" (some (.list ["1", "2"])) (some "IN") none]⟩]⟩

/-- The repeated predicate of tags is listed once, and the body, which no condition mentions, is
left out. -/
theorem CompileRequest.fieldMappings_of_sample :
    ∃ output later, Sample.request.compile [] = (.ok output, later) ∧
      output.fieldMappings.get? "tag" = some ["<tag>", "<topic>"] ∧
      output.fieldMappings.get? "title" = some ["<title>"] ∧
      output.fieldMappings.get? "nid" = some [] ∧ output.fieldMappings.get? "body" = none := by
  obtain ⟨output, hresult⟩ : ∃ output, (Sample.request.compile []).1 = .ok output := ⟨_, rfl⟩
  have hcompile : Sample.request.compile [] = (.ok output, (Sample.request.compile []).2) :=
    Prod.ext hresult rfl
  have hget := (fieldMappings_of_compile hcompile).1
  refine ⟨output, _, hcompile, ?_, ?_, ?_, ?_⟩ <;>
    (rw [hget]
     decide +kernel)

end GraphCriteria
