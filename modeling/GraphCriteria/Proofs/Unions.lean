import GraphCriteria.Proofs.Building
import GraphCriteria.Proofs.Progress
import GraphCriteria.Proofs.Repetition

/-!
# Conditions that are repeated

A union takes each condition as a branch of its own, and a branch with the text of one that is there
already adds nothing.  So the same condition may be added again, unless the union has been compiled in
another context in between: a compile that fails has compiled some branches, and these stay as they
are.

Main results:

- Theorem `Conjunction.join_fragments_concat_iff`: one more text adds nothing exactly when it is there.
- Theorem `Group.gives_pushBranch_iff`: one more branch adds nothing exactly when its text is there.
- Theorem `Group.Grows.exists_nested`: what is nested stays, compiled or not.
- Theorem `Group.repetition_of_compile`: what repeated entries and repeated conditions come to.
- Theorem `Group.again_after_failure`: a condition that is added again after a failure.
-/

namespace GraphCriteria

/-! ## Branches that are added to a union -/

namespace Conjunction

variable (conjunction : Conjunction)

theorem join_concat_ne (fragments : List String) {fragment : String} (h : fragment ≠ "") :
    conjunction.join (fragments ++ [fragment]) ≠ conjunction.join fragments := by
  have hlength : fragment.length ≠ 0 := fun hzero => h (String.length_eq_zero_iff.1 hzero)
  unfold join
  by_cases hnone : fragments = []
  · rw [hnone, List.nil_append, String.intercalate_singleton]
    simpa using h
  · rw [String.intercalate_append_of_ne_nil hnone (by simp), String.intercalate_singleton]
    intro heq
    have hlengths := congrArg String.length heq
    rw [String.length_append, String.length_append] at hlengths
    omega

theorem wrap_inj {text other : String} : conjunction.wrap text = conjunction.wrap other ↔
    text = other := by
  simp [wrap, String.append_assoc]

/-- One more text adds nothing exactly when it is among the texts already. -/
theorem join_fragments_concat_iff {texts : List String} {text : String} (h : text ≠ "") :
    conjunction.join (conjunction.fragments (texts ++ [text])) =
      conjunction.join (conjunction.fragments texts) ↔ text ∈ texts := by
  have hmem : conjunction.wrap text ∈ (texts.filter (· ≠ "")).map conjunction.wrap ↔
      text ∈ texts := by
    simp [wrap_inj, h]
  have hconcat : conjunction.fragments (texts ++ [text]) =
      if text ∈ texts then conjunction.fragments texts
      else conjunction.fragments texts ++ [conjunction.wrap text] := by
    rw [fragments_eq, fragments_eq, List.filter_append, List.map_append,
      List.filter_cons_of_pos (by simpa using h), List.filter_nil, List.map_cons, List.map_nil,
      eraseDups_concat]
    simp only [hmem]
  have hwrap : conjunction.wrap text ≠ "" := by
    simp [wrap, h]
  rw [hconcat]
  by_cases htext : text ∈ texts
  · simp [htext]
  · rw [if_neg htext]
    exact iff_of_false (conjunction.join_concat_ne _ hwrap) htext

end Conjunction

namespace Group

variable {group inner : Group} {ctx : Context}

/-- A compiled AND group has a text. -/
theorem textIn_ne_empty (hbuilt : group.Built) (hand : group.conjunction = .and)
    (hcompile : (group.compile ctx []).result = .ok ()) : group.textIn ctx ≠ "" := by
  intro hempty
  have hphase := phase_ne_building_iff.2 (state_compile hcompile)
  have hunions := (text_eq_empty_iff (hbuilt.compile ctx []).legible hphase).1 hempty
  have hor : (group.compile ctx []).left.conjunction = .or := hunions.self
  rw [conjunction_compile, hand] at hor
  cases hor

/-- A group with one more nested group compiles exactly when this does. -/
theorem compile_pushNested_iff (hctx : ctx.Functional) (hstate : group.state = .building)
    (hcompile : (group.compile ctx []).result = .ok ()) :
    ((group.pushEntry (.nested inner)).compile ctx []).result = .ok () ↔
      (inner.compile ctx []).result = .ok () := by
  have hstate' : (group.pushEntry (.nested inner)).state = .building := hstate
  obtain ⟨subject, triple?, hsubject, hentries, hbundle⟩ :=
    (compile_ok_iff hctx hstate []).1 hcompile
  rw [compile_ok_iff hctx hstate' []]
  constructor
  · rintro ⟨_, _, _, hall, _⟩
    exact hall (.nested inner) (by simp)
  · intro hinner
    refine ⟨subject, triple?, hsubject, fun entry hentry => ?_, hbundle⟩
    rw [entries_pushEntry, List.mem_append, List.mem_singleton] at hentry
    rcases hentry with hold | rfl
    · exact hentries entry hold
    · exact hinner

theorem bodyTextsWith_pushNested (nestedText : Group → String) (group inner : Group)
    (ctx : Context) :
    bodyTextsWith nestedText (group.pushEntry (.nested inner)) ctx =
      bodyTextsWith nestedText group ctx ++ [nestedText inner] := by
  simp [bodyTextsWith, ownLeaves, pushEntry, Entry.textsWith]

theorem comparisonTexts_pushNested (group inner : Group) (ctx : Context) :
    (group.pushEntry (.nested inner)).comparisonTexts ctx = group.comparisonTexts ctx := by
  simp [comparisonTexts, ownLeaves, pushEntry]

/-- A union writes its branches only. -/
theorem mem_bodyTexts_of_union (hor : group.conjunction = .or) (hleaves : group.ownLeaves = [])
    (nestedText : Group → String) (text : String) :
    text ∈ bodyTextsWith nestedText group ctx ↔
      ∃ inner, .nested inner ∈ group.entries ∧ nestedText inner = text := by
  have hbody : bodyTextsWith nestedText group ctx =
      group.entries.flatMap (Entry.textsWith nestedText ctx group.keys) := by
    simp [bodyTextsWith, hor, hleaves, Context.bundleTexts, Context.candidateTexts]
  rw [hbody, List.mem_flatMap]
  constructor
  · rintro ⟨entry, hentry, htext⟩
    obtain ⟨inner, rfl⟩ := exists_nested_of_ownLeaves hleaves entry hentry
    exact ⟨inner, hentry, (List.mem_singleton.1 htext).symm⟩
  · rintro ⟨inner, hinner, rfl⟩
    exact ⟨_, hinner, List.mem_singleton.2 rfl⟩

/-- A branch that is added to a union adds nothing exactly when it compiles to the text of some branch
that is there already. -/
theorem gives_pushBranch_iff (hctx : ctx.Functional) (hbuilt : group.Built)
    (hinner : inner.Built) (hstate : group.state = .building) (hor : group.conjunction = .or)
    (hand : inner.conjunction = .and) (hcompile : (group.compile ctx []).result = .ok ()) :
    (group.pushEntry (.nested inner)).Gives ctx (group.textIn ctx) ↔
      (inner.compile ctx []).result = .ok () ∧
        ∃ other, .nested other ∈ group.entries ∧ other.textIn ctx = inner.textIn ctx := by
  have hlater := hbuilt.pushNested hinner hstate
  have hleaves : group.ownLeaves = [] := (hbuilt _ (wellStored_invariant _)).self.union hor
  have hnone : filterTexts (group.comparisonTexts ctx) = [] := by
    simp [comparisonTexts, hleaves, filterTexts]
  rw [gives_iff hctx (hlater _ (settled_invariant _)), compile_pushNested_iff hctx hstate hcompile]
  refine and_congr_right fun hok => ?_
  have hok' := (compile_pushNested_iff hctx hstate hcompile).2 hok
  have htext := textIn_eq hctx (hbuilt _ (marked_invariant _)).self
    (hbuilt _ (settled_invariant _)) hstate hcompile
  have htext' := textIn_eq hctx (hlater _ (marked_invariant _)).self
    (hlater _ (settled_invariant _)) hstate hok'
  rw [bodyTextsWith_pushNested, comparisonTexts_pushNested] at htext'
  rw [htext, htext', hnone, List.append_nil, List.append_nil,
    ← mem_bodyTexts_of_union hor hleaves (textIn ctx)]
  exact group.conjunction.join_fragments_concat_iff (textIn_ne_empty hinner hand hok)

/-! ## Conditions that are repeated in a union -/

/-- A group after additions and compiles in a context, in whatever order. -/
inductive Grows (ctx : Context) (group : Group) : Group → Prop where
  | refl : Grows ctx group group
  | add {middle later : Group} {addition : Addition} (h : Grows ctx group middle)
      (hadd : middle.add addition = .ok later) : Grows ctx group later
  | compile {middle : Group} (h : Grows ctx group middle) (trace : Trace) :
      Grows ctx group (middle.compile ctx trace).left

namespace Grows

variable {later : Group}

theorem conjunction_keys (h : group.Grows ctx later) :
    later.conjunction = group.conjunction ∧ later.keys = group.keys := by
  induction h with
  | refl => exact ⟨rfl, rfl⟩
  | add _ hadd ih =>
      obtain ⟨_, _, hconjunction, hkeys, _⟩ := add_ok hadd
      exact ⟨hconjunction.trans ih.1, hkeys.trans ih.2⟩
  | compile _ trace ih =>
      exact ⟨(conjunction_compile ctx _ trace).trans ih.1, (keys_compile ctx _ trace).trans ih.2⟩

/-- A nested group stays, compiled in the context or not. -/
theorem exists_nested (hctx : ctx.Functional) (h : group.Grows ctx later)
    (hinner : .nested inner ∈ group.entries) :
    ∃ kept, .nested kept ∈ later.entries ∧ (kept.compile ctx []).Agrees (inner.compile ctx []) := by
  induction h with
  | refl => exact ⟨inner, hinner, rfl, rfl⟩
  | add _ hadd ih =>
      obtain ⟨kept, hkept, hagrees⟩ := ih
      obtain ⟨_, _, _, _, entry, hentries⟩ := add_ok hadd
      exact ⟨kept, by simp [hentries, hkept], hagrees⟩
  | compile _ trace ih =>
      obtain ⟨kept, hkept, hagrees⟩ := ih
      obtain ⟨place, hplace⟩ := List.mem_iff_getElem?.1 hkept
      rcases compile_nested_at ctx trace hplace with hsame | ⟨mid, hcompiled⟩
      · exact ⟨kept, List.mem_of_getElem? hsame, hagrees⟩
      · obtain ⟨hagain, hleft⟩ := compile_compile hctx kept mid []
        obtain ⟨hsteady, hleft'⟩ := kept.compile_steady hctx mid []
        exact ⟨_, List.mem_of_getElem? hcompiled, (hagain.trans hsteady).trans hagrees.1,
          (hleft.trans hleft').trans hagrees.2⟩

end Grows

variable {later : Group} {name : String} {value : Option Value} {operator : Operator}
  {language : Option String}

/-- An accepted condition adds a branch to a union. -/
theorem addCondition_or_ok (hor : group.conjunction = .or)
    (h : group.addCondition name value operator language = .ok later) :
    group.state = .building ∧ ∃ leaf,
      group.keys.leaf (baseField name) value operator language = .ok leaf ∧
      later = group.pushEntry (.nested ((new .and group.keys).pushLeaf leaf)) := by
  obtain ⟨hstate, _⟩ := addCondition_ok h
  rw [addCondition_of_or hstate hor] at h
  cases hleaf : group.keys.leaf (baseField name) value operator language with
  | error e =>
      rw [hleaf] at h
      cases h
  | ok leaf =>
      rw [hleaf] at h
      exact ⟨hstate, leaf, rfl, (Except.ok.inj h).symm⟩

/-- A condition that is added to a union adds nothing exactly when its branch has the text of some
branch that is there already. -/
theorem gives_addCondition_iff (hctx : ctx.Functional) (hbuilt : group.Built)
    (hor : group.conjunction = .or) (hcompile : (group.compile ctx []).result = .ok ())
    (h : group.addCondition name value operator language = .ok later) :
    ∃ branch, later.entries = group.entries ++ [.nested branch] ∧
      (later.Gives ctx (group.textIn ctx) ↔
        ∃ other text, .nested other ∈ group.entries ∧ other.Gives ctx text ∧
          branch.Gives ctx text) := by
  obtain ⟨hstate, leaf, hleaf, rfl⟩ := addCondition_or_ok hor h
  have hbranch : ((new .and group.keys).pushLeaf leaf).Built :=
    (Built.new .and group.keys).pushLeaf rfl rfl ⟨_, _, _, _, hleaf⟩
  have hbranch' := hbranch _ (settled_invariant _)
  refine ⟨_, entries_pushEntry group _, ?_⟩
  rw [gives_pushBranch_iff hctx hbuilt hbranch hstate hor rfl hcompile]
  obtain ⟨subject, _, _, hentries, _⟩ := (compile_ok_iff hctx hstate []).1 hcompile
  constructor
  · rintro ⟨hok, other, hother, htext⟩
    have hsettled := (hbuilt.nested hother) _ (settled_invariant _)
    exact ⟨other, _, hother, (gives_iff hctx hsettled).2 ⟨hentries _ hother, htext⟩,
      (gives_iff hctx hbranch').2 ⟨hok, rfl⟩⟩
  · rintro ⟨other, text, hother, hgives, hgives'⟩
    have hsettled := (hbuilt.nested hother) _ (settled_invariant _)
    obtain ⟨hok, htext⟩ := (gives_iff hctx hbranch').1 hgives'
    exact ⟨hok, other, hother, ((gives_iff hctx hsettled).1 hgives).2.trans htext.symm⟩

/-- A condition may be added to a union once more, unless the union has been compiled in some other
context since. -/
theorem gives_of_again (hctx : ctx.Functional) (hbuilt : group.Built)
    (hor : group.conjunction = .or) (hcompile : (group.compile ctx []).result = .ok ())
    {earlier grown : Group} (hfirst : earlier.addCondition name value operator language = .ok grown)
    (hgrows : grown.Grows ctx group)
    (hagain : group.addCondition name value operator language = .ok later) :
    later.Gives ctx (group.textIn ctx) := by
  obtain ⟨hconjunction, hkeys⟩ := hgrows.conjunction_keys
  have hfirst' : earlier.add (.condition name value operator language) = .ok grown := hfirst
  obtain ⟨_, _, hconjunction', hkeys', _⟩ := add_ok hfirst'
  have hor' : earlier.conjunction = .or := by rw [← hconjunction', ← hconjunction, hor]
  obtain ⟨_, leaf, hleaf, rfl⟩ := addCondition_or_ok hor' hfirst
  obtain ⟨hstate, leaf', hleaf', rfl⟩ := addCondition_or_ok hor hagain
  -- Both calls make the same branch, as the keys are the same.
  rw [hkeys.trans hkeys'] at hleaf' ⊢
  obtain rfl : leaf = leaf' := Except.ok.inj (hleaf.symm.trans hleaf')
  have hbranch : ((new .and earlier.keys).pushLeaf leaf).Built :=
    (Built.new .and earlier.keys).pushLeaf rfl rfl ⟨_, _, _, _, hleaf⟩
  obtain ⟨kept, hkept, hresult, hleft⟩ := hgrows.exists_nested hctx
    (by rw [entries_pushEntry]; exact List.mem_append_right _ (List.mem_singleton.2 rfl))
  obtain ⟨subject, _, _, hentries, _⟩ := (compile_ok_iff hctx hstate []).1 hcompile
  refine (gives_pushBranch_iff hctx hbuilt hbranch hstate hor rfl hcompile).2
    ⟨hresult.symm.trans (hentries _ hkept), kept, hkept, congrArg text hleft⟩

/-- Let a group that is being built compile in a functional context.  It gives the same text with
copies of entries anywhere behind them, as long as these are nested groups or leaves that are no
comparisons.  A condition that is added to a union adds nothing exactly when its branch has the text
of a branch that is there; so it is if the same condition has been added before, and the union has
since been compiled in no other context.  Copies of a comparison in an AND group add its expression
to the one filter, once for each copy, and change nothing else. -/
theorem repetition_of_compile {trace : Trace} (hreach : group.Reachable) (hctx : ctx.Functional)
    (hphase : group.phase = .building) (hcompile : (group.compile ctx trace).result = .ok ()) :
    ∃ text, group.Gives ctx text ∧
      (∀ entries, Repeated Entry.Collapses group.entries entries →
        (group.withEntries entries).Gives ctx text) ∧
      (group.conjunction = .or → ∀ name value operator language later,
        group.addCondition name value operator language = .ok later →
          (∃ branch, later.entries = group.entries ++ [.nested branch] ∧
            (later.Gives ctx text ↔ ∃ other own, .nested other ∈ group.entries ∧
              other.Gives ctx own ∧ branch.Gives ctx own)) ∧
          ∀ earlier grown : Group,
            earlier.addCondition name value operator language = .ok grown →
              grown.Grows ctx group → later.Gives ctx text) ∧
      (group.conjunction = .and → ∀ own, own.operator.isComparison = true → ∀ entries,
        Repeated (· = .leaf own) group.entries entries →
          ∃ front expression, own.comparisonTexts ctx group.keys = [expression] ∧
            Repeated (· = expression) (group.comparisonTexts ctx)
              ((group.withEntries entries).comparisonTexts ctx) ∧
            ((group.withEntries entries).comparisonTexts ctx).length + group.entries.length =
              (group.comparisonTexts ctx).length + entries.length ∧
            text = " . ".intercalate (front ++ filterTexts (group.comparisonTexts ctx)) ∧
            (group.withEntries entries).Gives ctx (" . ".intercalate
              (front ++ filterTexts ((group.withEntries entries).comparisonTexts ctx)))) := by
  have hbuilt := hreach.built
  have hstate := phase_eq_building_iff.1 hphase
  have hok : (group.compile ctx []).result = .ok () :=
    (group.compile_steady hctx trace []).1 ▸ hcompile
  refine ⟨group.textIn ctx, (gives_iff hctx (hbuilt _ (settled_invariant _))).2 ⟨hok, rfl⟩,
    fun entries h => gives_of_collapses hctx hbuilt hstate hok h, ?_, ?_⟩
  · intro hor name value operator language later hagain
    exact ⟨gives_addCondition_iff hctx hbuilt hor hok hagain,
      fun earlier grown hfirst hgrows => gives_of_again hctx hbuilt hor hok hfirst hgrows hagain⟩
  · exact fun hand own hown entries h => gives_of_comparison hctx hbuilt hstate hand hok hown h

end Group

/-! ## Small cases -/

namespace Sample

/-- Build nodes of a given title whose tag comes after another, and that are tagged or titled. -/
def comparing : List WorkspaceStep :=
  [.make "page" .and keys, .addEqual "page" "title" (.single "'home'"),
    .add "page" "tag" (some (.single "'a'")) ">" none,
    .makeSibling "some" "page" .or, .addPresent "some" "tag", .addPresent "some" "title",
    .copy "union" "some", .nest "page" "some"]

/-- The group that is built. -/
def comparingPage : Group :=
  ((Workspace.run {} comparing).get? "page").getD default

/-- Its union, on its own. -/
def comparingUnion : Group :=
  ((Workspace.run {} comparing).get? "union").getD default

/-- The condition on the title. -/
def homeTitle : Entry :=
  .leaf ⟨"title", some (.single "'home'"), .equal, none⟩

/-- The condition on the tag. -/
def laterTag : Leaf :=
  ⟨"tag", some (.single "'a'"), .greater, none⟩

/-- Build a union that is compiled for nodes in vain, as they have no bodies. -/
def failing : List WorkspaceStep :=
  [.make "some" .or keys, .addPresent "some" "tag", .addPresent "some" "body",
    .compile "some" context]

/-- The union that is built. -/
def failedUnion : Group :=
  ((Workspace.run {} failing).get? "some").getD default

end Sample

namespace Group

/-- The title and the union may be repeated, and so may the conditions of the union.  A second copy
of the comparison stands in the filter. -/
theorem repetition_of_comparing :
    Sample.comparingPage.Reachable ∧ Sample.comparingUnion.Reachable ∧ Sample.context.Functional ∧
      ∃ title tag union, Sample.comparingPage.entries = [title, tag, union] ∧
        (∃ text, Sample.comparingPage.Gives Sample.context text ∧
          (Sample.comparingPage.withEntries [title, tag, union, title, union]).Gives
            Sample.context text) ∧
        (∃ front, Sample.comparingPage.Gives Sample.context
            (" . ".intercalate (front ++ ["FILTER (?tag > 'a')"])) ∧
          (Sample.comparingPage.withEntries [title, tag, union, tag]).Gives Sample.context
            (" . ".intercalate (front ++ ["FILTER ((?tag > 'a') && (?tag > 'a'))"]))) ∧
        ∃ text later, Sample.comparingUnion.addPresent "tag" = .ok later ∧
          Sample.comparingUnion.Gives Sample.context text ∧ later.Gives Sample.context text := by
  have hpage : Sample.comparingPage.Reachable := ⟨Sample.comparing, "page", rfl⟩
  have hunion : Sample.comparingUnion.Reachable := ⟨Sample.comparing, "union", rfl⟩
  have hctx : Sample.context.Functional := Context.functional_of_table "node" Sample.table {}
  have hcompile : (Sample.comparingPage.compile Sample.context []).result = .ok () := rfl
  have hcompile' : (Sample.comparingUnion.compile Sample.context []).result = .ok () := rfl
  obtain ⟨union, hentries⟩ : ∃ union, Sample.comparingPage.entries =
      [Sample.homeTitle, .leaf Sample.laterTag, .nested union] := ⟨_, rfl⟩
  obtain ⟨text, hgives, hcollapse, _, hfilter⟩ := repetition_of_compile hpage hctx rfl hcompile
  rw [hentries] at hcollapse hfilter
  refine ⟨hpage, hunion, hctx, Sample.homeTitle, .leaf Sample.laterTag, .nested union,
    hentries, ⟨text, hgives, hcollapse _ ?_⟩, ?_, ?_⟩
  · have htitle : Repeated Entry.Collapses
        [Sample.homeTitle, .leaf Sample.laterTag, .nested union]
        [Sample.homeTitle, .leaf Sample.laterTag, .nested union, Sample.homeTitle] :=
      Repeated.refl.concat rfl (by simp)
    have hcollapses : Entry.Collapses (.nested union) := trivial
    exact htitle.concat hcollapses (by simp)
  · have hcopy : Repeated (· = .leaf Sample.laterTag)
        [Sample.homeTitle, .leaf Sample.laterTag, .nested union]
        [Sample.homeTitle, .leaf Sample.laterTag, .nested union, .leaf Sample.laterTag] :=
      Repeated.refl.concat rfl (by simp)
    have hone : filterTexts (Sample.comparingPage.comparisonTexts Sample.context) =
        ["FILTER (?tag > 'a')"] := by decide +kernel
    -- Nested groups compare nothing, so the union may be left out.
    have hcomparisons : (Sample.comparingPage.withEntries [Sample.homeTitle,
        .leaf Sample.laterTag, .nested union, .leaf Sample.laterTag]).comparisonTexts
          Sample.context = Entry.comparisonTexts Sample.context Sample.keys
            [Sample.homeTitle, .leaf Sample.laterTag, .leaf Sample.laterTag] := rfl
    have htwo : filterTexts (Entry.comparisonTexts Sample.context Sample.keys
        [Sample.homeTitle, .leaf Sample.laterTag, .leaf Sample.laterTag]) =
        ["FILTER ((?tag > 'a') && (?tag > 'a'))"] := by decide +kernel
    obtain ⟨front, _, _, _, _, rfl, hgives'⟩ := hfilter rfl Sample.laterTag rfl _ hcopy
    rw [hone] at hgives
    rw [hcomparisons, htwo] at hgives'
    exact ⟨front, hgives, hgives'⟩
  · obtain ⟨text, hgives, _, hbranch, _⟩ := repetition_of_compile hunion hctx rfl hcompile'
    obtain ⟨grown, later, hfirst, hsecond, hagain⟩ : ∃ grown later : Group,
        (new .or Sample.keys).addPresent "tag" = .ok grown ∧
        grown.add (.present "title") = .ok Sample.comparingUnion ∧
        Sample.comparingUnion.addPresent "tag" = .ok later := ⟨_, _, rfl, rfl, rfl⟩
    exact ⟨text, later, hagain, hgives,
      (hbranch rfl _ _ _ _ _ hagain).2 _ grown hfirst (.add .refl hsecond)⟩

/-- If the union has been compiled in another context in between, then the branch that is there is
not the one that is added: the text changes, or the union compiles no longer. -/
theorem again_after_failure :
    Sample.failedUnion.Reachable ∧ Sample.failedUnion.phase = .building ∧
      Sample.pages.Functional ∧ Sample.untagged.Functional ∧
      ∃ first grown later : Group, (new .or Sample.keys).addPresent "tag" = .ok first ∧
        first.addPresent "body" = .ok grown ∧
        (grown.compile Sample.context []).result = .error (.unknownFieldMapping "node" "body") ∧
        (grown.compile Sample.context []).left = Sample.failedUnion ∧
        Sample.failedUnion.addPresent "tag" = .ok later ∧
        (Sample.failedUnion.compile Sample.pages []).result = .ok () ∧
        ((Sample.failedUnion.compile Sample.pages []).left.render []).result.toOption =
          some ("\x7b VALUES ?tag_predicate \x7b <tag> <topic> \x7d . " ++
            "?entity ?tag_predicate ?tag . EXISTS \x7b ?tag \x7d \x7d UNION " ++
            "\x7b ?entity <text> ?body . EXISTS \x7b ?body \x7d \x7d") ∧
        (later.compile Sample.pages []).result = .ok () ∧
        ((later.compile Sample.pages []).left.render []).result.toOption =
          some ("\x7b VALUES ?tag_predicate \x7b <tag> <topic> \x7d . " ++
            "?entity ?tag_predicate ?tag . EXISTS \x7b ?tag \x7d \x7d UNION " ++
            "\x7b ?entity <text> ?body . EXISTS \x7b ?body \x7d \x7d UNION " ++
            "\x7b ?entity <keyword> ?tag . EXISTS \x7b ?tag \x7d \x7d") ∧
        (Sample.failedUnion.compile Sample.untagged []).result = .ok () ∧
        (later.compile Sample.untagged []).result =
          .error (.unknownFieldMapping "page" "tag") := by
  have hpages : Sample.pages.Functional := Context.functional_of_table "page" _ {}
  have huntagged : Sample.untagged.Functional := Context.functional_of_table "page" _ {}
  refine ⟨⟨Sample.failing, "some", rfl⟩, rfl, hpages, huntagged, _, _, _, rfl, rfl, rfl, rfl, rfl,
    rfl, ?_, rfl, ?_, rfl, rfl⟩
  · decide +kernel
  · decide +kernel

end Group

end GraphCriteria
