import GraphCriteria.Proofs.Reading

/-!
# Compiling and rendering give the text of one pass

In a functional context, a tree that is compiled and then rendered gives the text that is read off
the tree directly.

Main results:

- Theorem `Conjunction.join_fragments`: fragments are the given texts without repetitions.
- Theorem `Draft.Reads.texts_finish`: a finished plan writes what the entries of its group write.
- Theorem `Group.render_of_compile`: the text of a compiled group is the text of one pass, if
  this holds of its nested groups.
- Theorem `Group.render_eq_reference`: so the text of a compiled tree is the text of one pass.
-/

namespace GraphCriteria

/-! ## Fragments -/

namespace Conjunction

variable (conjunction : Conjunction)

/-- A text between the opening and the closing of a conjunction. -/
def wrap (text : String) : String :=
  conjunction.rule.opening ++ text ++ conjunction.rule.closing

theorem addFragment_eraseDups (wrapped : List String) (text : String) :
    conjunction.addFragment wrapped.eraseDups text =
      (wrapped ++ ([text].filter (· ≠ "")).map conjunction.wrap).eraseDups := by
  unfold addFragment
  by_cases hempty : text = ""
  · simp [hempty]
  · have hone : ([text].filter (· ≠ "")).map conjunction.wrap = [conjunction.wrap text] := by
      simp [hempty]
    rw [if_neg hempty, hone, eraseDups_concat]
    simp only [List.mem_eraseDups]
    rfl

/-- Fragments are the given texts, wrapped and without repetitions. -/
theorem fragments_eq (texts : List String) :
    conjunction.fragments texts =
      ((texts.filter (· ≠ "")).map conjunction.wrap).eraseDups := by
  have hfold : ∀ wrapped : List String,
      texts.foldl conjunction.addFragment wrapped.eraseDups =
        (wrapped ++ (texts.filter (· ≠ "")).map conjunction.wrap).eraseDups := by
    induction texts with
    | nil =>
        intro wrapped
        simp
    | cons text texts ih =>
        intro wrapped
        rw [List.foldl_cons, addFragment_eraseDups, ih, List.append_assoc, ← List.map_append,
          ← List.filter_append]
        rfl
  exact hfold []

/-- Joined, the fragments of a group are its texts, combined. -/
theorem join_fragments (texts : List String) :
    conjunction.join (conjunction.fragments texts) = conjunction.combine texts := by
  rw [fragments_eq]
  cases conjunction with
  | and =>
      have hwrap : and.wrap = id := by
        funext text
        simp [wrap, rule]
      rw [hwrap, List.map_id]
      rfl
  | or => rfl

end Conjunction

/-! ## Filters -/

/-- Parentheses around all comparisons may be put around each. -/
theorem intercalate_parentheses (first : String) (others : List String) :
    "(" ++ ") && (".intercalate (first :: others) ++ ")" =
      " && ".intercalate ((first :: others).map fun text => "(" ++ text ++ ")") := by
  induction others generalizing first with
  | nil => simp
  | cons second others ih =>
      have hjoin : ") && (" = ")" ++ " && " ++ "(" := by decide
      rw [List.map_cons, List.map_cons, String.intercalate_cons_cons,
        String.intercalate_cons_cons, ← List.map_cons (f := fun text => "(" ++ text ++ ")"), ← ih,
        hjoin]
      simp only [String.append_assoc]

theorem filterTexts_eq (comparisons : List String) :
    filterTexts comparisons = joinedFilter comparisons := by
  match comparisons with
  | [] => rfl
  | [comparison] => rfl
  | first :: second :: others =>
      have hopen : "FILTER ((" = "FILTER (" ++ "(" := by decide
      have hclose : "))" = ")" ++ ")" := by decide
      have hparentheses := intercalate_parentheses first (second :: others)
      unfold joinedFilter
      dsimp only
      rw [← hparentheses, filterTexts, if_neg (by simp), filterText, hopen, hclose]
      · simp only [String.append_assoc]
      · simp

/-! ## Candidates -/

/-- Candidates are listed for a field that has several. -/
theorem Context.Functional.candidateClauses_eq {ctx : Context} (hctx : ctx.Functional)
    {keys : EntityKeys} {field : String} {trace : Trace} {mapping : FieldMapping}
    (h : (ctx.findMapping (keys.kind field) field trace).1 = .ok mapping) :
    mapping.candidateClauses =
      if ctx.several keys field then
        [.values none ⟨Variable.written (field ++ "_predicate"), ctx.candidates field⟩]
      else [] := by
  unfold several
  rcases findMapping_ok h with ⟨hkind, rfl⟩ | ⟨hkind, rfl⟩ | ⟨hkey, found, hfound, hmapping⟩
  · simp [hkind, FieldKind.isKey, FieldMapping.candidateClauses]
  · simp [hkind, FieldKind.isKey, FieldMapping.candidateClauses]
  · rw [hctx.candidates_eq hfound, hkey]
    rcases hmapping with ⟨predicate, hsingle, rfl⟩ | ⟨hseveral, name, hname, rfl⟩
    · simp [hsingle, FieldMapping.candidateClauses]
    · rw [Variable.eq_written hname]
      simp [hseveral, FieldMapping.candidateClauses]

theorem Memo.textsOfAll_candidateClauses {memo : Memo} {ctx : Context} {keys : EntityKeys}
    {nestedText? : Nat → Except ConditionError String} (hctx : ctx.Functional)
    (hfound : ∀ entry ∈ memo.entries,
      ∃ trace, (ctx.findMapping (keys.kind entry.1) entry.1 trace).1 = .ok entry.2) :
    Clause.textsOfAll nestedText? memo.candidateClauses =
      .ok ((memo.fields.filter (ctx.several keys)).map ctx.candidateText) := by
  obtain ⟨entries⟩ := memo
  unfold candidateClauses fields
  induction entries with
  | nil => rfl
  | cons entry entries ih =>
      obtain ⟨trace, hentry⟩ := hfound entry List.mem_cons_self
      have hrest := ih fun other hother => hfound other (List.mem_cons_of_mem _ hother)
      rw [List.flatMap_cons, List.map_cons, hctx.candidateClauses_eq hentry, List.filter_cons]
      cases ctx.several keys entry.1 with
      | false => exact hrest
      | true =>
          have hone : Clause.textsOfAll nestedText?
              [.values none ⟨Variable.written (entry.1 ++ "_predicate"),
                ctx.candidates entry.1⟩] = .ok [ctx.candidateText entry.1] := rfl
          exact Clause.textsOfAll_append hone hrest

/-- The clauses that list candidates write one text for each field that has several. -/
theorem Draft.Reads.textsOfAll_candidates {draft : Draft} {ctx : Context} {keys : EntityKeys}
    {nestedText? : Nat → Except ConditionError String} {nestedText : Group → String}
    {done : List Entry} (hctx : ctx.Functional)
    (h : draft.Reads ctx keys nestedText? nestedText done) :
    Clause.textsOfAll nestedText? draft.candidates =
      .ok (ctx.candidateTexts keys (Entry.leaves done)) := by
  rw [h.sound.listed, Memo.textsOfAll_candidateClauses hctx h.sound.found, h.fields]
  rfl

theorem Memo.comparisons_candidateClauses (memo : Memo) :
    memo.candidateClauses.filterMap Clause.comparison? = [] := by
  rw [List.filterMap_eq_nil_iff]
  intro clause hclause
  obtain ⟨field, name, candidates, _, rfl⟩ := mem_candidateClauses.1 hclause
  rfl

/-! ## Plans -/

/-- A finished plan compares what the leaves of its group compare. -/
theorem Draft.Reads.comparisons_finish {draft : Draft} {ctx : Context} {keys : EntityKeys}
    {nestedText? : Nat → Except ConditionError String} {nestedText : Group → String}
    {entries : List Entry} (h : draft.Reads ctx keys nestedText? nestedText entries)
    (triple? : Option Triple) :
    (draft.finish triple?).clauses.filterMap Clause.comparison? =
      (Entry.leaves entries).flatMap (·.comparisonTexts ctx keys) := by
  rw [← h.comparisons]
  simp only [Plan.clauses, finish, List.filterMap_append, h.sound.listed,
    Memo.comparisons_candidateClauses, List.append_nil]

/-- A finished plan writes what the entries of its group write. -/
theorem Draft.Reads.texts_finish {draft : Draft} {ctx : Context} {keys : EntityKeys}
    {nestedText? : Nat → Except ConditionError String} {nestedText : Group → String}
    {entries : List Entry} (hctx : ctx.Functional)
    (h : draft.Reads ctx keys nestedText? nestedText entries) (triple? : Option Triple) :
    (draft.finish triple?).texts nestedText? =
      .ok ((triple?.map Triple.text).toList ++
        (Entry.leaves entries).flatMap (·.keySetTexts ctx keys) ++
        ctx.candidateTexts keys (Entry.leaves entries) ++
        entries.flatMap (Entry.textsWith nestedText ctx keys) ++
        joinedFilter ((Entry.leaves entries).flatMap (·.comparisonTexts ctx keys))) := by
  have hclauses : Clause.textsOfAll nestedText? (draft.finish triple?).clauses =
      .ok ((Entry.leaves entries).flatMap (·.keySetTexts ctx keys) ++
        ctx.candidateTexts keys (Entry.leaves entries) ++
        entries.flatMap (Entry.textsWith nestedText ctx keys)) :=
    Clause.textsOfAll_append
      (Clause.textsOfAll_append h.values (h.textsOfAll_candidates hctx)) h.conditions
  rw [Plan.texts, hclauses, h.comparisons_finish, filterTexts_eq]
  simp [bind, Except.bind, pure, Except.pure, finish, List.append_assoc]

/-- The triple that links the entity to its bundle is written where no leaf narrows the group to
some bundle. -/
theorem Group.defaultBundle_texts {group : Group} {ctx : Context} {triple? : Option Triple}
    (hmarked : group.Marked)
    (h : group.defaultBundle ctx ctx.subjectText = .ok triple?) :
    (triple?.map Triple.text).toList =
      ctx.bundleTexts group.conjunction group.keys group.ownLeaves := by
  have hneeds := needsDefaultBundle_iff hmarked
  have hnarrows : ∀ kind : FieldKind, kind.narrows = false ↔ kind ≠ .bundle ∧ kind ≠ .other := by
    intro kind
    cases kind <;> decide
  simp only [hnarrows] at hneeds
  unfold Context.bundleTexts
  rcases defaultBundle_ok h with ⟨htrue, target, hname, rfl⟩ | ⟨hfalse, rfl⟩
  · rw [if_pos (hneeds.1 htrue), Variable.eq_written hname]
    rfl
  · rw [if_neg]
    · rfl
    · intro hall
      rw [hneeds.2 hall] at hfalse
      cases hfalse

/-! ## Groups -/

namespace Group

/-- Compiling a group reads the texts of its entries, if its nested groups have the given texts. -/
theorem reads_of_compile {group : Group} {ctx : Context} {nestedText : Group → String}
    (hctx : ctx.Functional) (hbuilding : group.state = .building)
    (hnested : ∀ inner, .nested inner ∈ group.entries → ∀ trace later,
      (inner.compile ctx trace).result = .ok () →
        ((inner.compile ctx trace).left.render later).result = .ok (nestedText inner))
    {trace : Trace} (hcompile : (group.compile ctx trace).result = .ok ()) :
    ∃ (entries : List Entry) (draft : Draft) (triple? : Option Triple),
      (group.compile ctx trace).left = group.withPlan entries (draft.finish triple?) ∧
      draft.Reads ctx group.keys (Entry.textAt entries) nestedText group.entries ∧
      group.defaultBundle ctx ctx.subjectText = .ok triple? := by
  obtain ⟨subject, draft, triple?, hsubject, hwalk, hbundle, hleft⟩ :=
    compile_ok hbuilding hcompile
  obtain rfl : subject = ctx.subjectText := Variable.eq_written hsubject
  have htexts : ∀ place inner, group.entries[place]? = some (.nested inner) →
      Entry.textAt (group.walk ctx ctx.subjectText trace).left (0 + place) =
        .ok (nestedText inner) := by
    intro place inner hplace
    obtain ⟨mid, hinner, hat⟩ := walk_nested_at hwalk hplace
    rw [Nat.zero_add, Entry.textAt_of_nested hat]
    exact hnested inner (List.mem_of_getElem? hplace) mid [] hinner
  exact ⟨_, draft, triple?, hleft,
    Entry.reads_compileAll hctx (Draft.reads_empty ctx group.keys _ _) htexts hwalk, hbundle⟩

/-- The text of a compiled group is the text of one pass, if this holds of its nested groups. -/
theorem render_of_compile {group : Group} {ctx : Context} (hctx : ctx.Functional)
    (hmarked : group.Marked) (hbuilding : group.state = .building)
    (hnested : ∀ inner, .nested inner ∈ group.entries → ∀ trace later,
      (inner.compile ctx trace).result = .ok () →
        ((inner.compile ctx trace).left.render later).result = .ok (inner.reference ctx))
    {trace : Trace} (hcompile : (group.compile ctx trace).result = .ok ()) (later : Trace) :
    ((group.compile ctx trace).left.render later).result = .ok (group.reference ctx) := by
  obtain ⟨entries, draft, triple?, hleft, hreads, hbundle⟩ :=
    reads_of_compile hctx hbuilding hnested hcompile
  rw [hleft, render_withPlan, Plan.text, hreads.texts_finish hctx, ← Entry.otherTexts_eq,
    defaultBundle_texts hmarked hbundle]
  obtain ⟨conjunction, keys, entries, lacksBundle, state⟩ := group
  rw [reference]
  exact congrArg Except.ok (conjunction.join_fragments _)

/-- A tree whose groups are all being built, and that compiles in a functional context, renders to
the text of one pass. -/
theorem render_eq_reference {group : Group} {ctx : Context} {trace : Trace}
    (hreach : group.Reachable) (hbuilding : group.AllBuilding) (hctx : ctx.Functional)
    (hcompile : (group.compile ctx trace).result = .ok ()) (later : Trace) :
    ((group.compile ctx trace).left.render later).result = .ok (group.reference ctx) := by
  obtain ⟨steps, hreach⟩ := hreach
  -- Only the root is known to be reachable; its nested groups inherit the mark.
  have hmarked := (marked_invariant (Workspace.Uses steps)).everywhere hreach
  clear hreach
  induction group using nestedInduction generalizing trace later with
  | step group ih =>
      refine render_of_compile hctx hmarked.self (phase_eq_building_iff.1 hbuilding.self) ?_ hcompile later
      intro inner hinner trace later hcompile
      exact ih inner hinner (hbuilding.nested hinner) hcompile later (hmarked.nested hinner)

/-- The sample group has a triple for its bundle, as the label alone does not narrow it, and a
union of two branches. -/
theorem render_sample_page :
    ((Sample.page.compile Sample.context []).left.render []).result =
        .ok (Sample.page.reference Sample.context) ∧
      Sample.page.reference Sample.context =
        "?entity <http://www.w3.org/1999/02/22-rdf-syntax-ns#type> ?type . " ++
        "?entity <title> 'home' . " ++
        "\x7b VALUES ?tag_predicate \x7b <tag> <topic> \x7d . " ++
        "?entity ?tag_predicate ?tag . EXISTS \x7b ?tag \x7d \x7d UNION " ++
        "\x7b ?entity <http://www.w3.org/1999/02/22-rdf-syntax-ns#type> ?type . " ++
        "VALUES ?entity \x7b 1 2 \x7d \x7d" := by
  have hctx : Sample.context.Functional := Context.functional_of_table "node" Sample.table {}
  refine ⟨?_, by decide +kernel⟩
  exact render_eq_reference ⟨Sample.building, "page", rfl⟩ (bare_eq_self_iff.1 rfl) hctx rfl []

end Group

end GraphCriteria
