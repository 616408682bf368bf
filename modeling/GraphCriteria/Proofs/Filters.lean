import GraphCriteria.Proofs.Survival

/-!
# Where filters stand

All comparisons of a group share one filter, which comes last.  It cannot be taken for another part of
the text, as no other part begins like a filter: not the triples and clauses of the group itself, and
not the texts of the groups nested in it.

Main results:

- Theorem `Leaf.Becomes.unfiltered`: the clause of a leaf writes no filter on its own.
- Theorem `Group.PlannedIn.unfiltered`: so a plan writes no filter before its own.
- Theorem `Group.unfiltered_text`: the text of a compiled group does not begin like a filter.
- Theorem `Conjunction.fragments_filterTexts`: the filter of an AND group is a fragment of its own, and
  the last one.
-/

namespace GraphCriteria

/-! ## Texts that are no filter -/

/-- A text that does not begin like a filter. -/
def Unfiltered (text : String) : Prop :=
  text.toList.head? ≠ some 'F'

namespace Unfiltered

/-- The first letter decides. -/
theorem of_front {front back : String} {letter : Char} (hfront : front.toList.head? = some letter)
    (hletter : letter ≠ 'F') : Unfiltered (front ++ back) := by
  rw [Unfiltered, String.toList_append, List.head?_append, hfront]
  simpa using hletter

theorem empty : Unfiltered "" := by
  rw [Unfiltered]
  simp

/-- Joined texts begin with the first of them. -/
theorem intercalate {texts : List String}
    (h : ∀ first, texts.head? = some first → first ≠ "" ∧ Unfiltered first) (separator : String) :
    Unfiltered (separator.intercalate texts) := by
  cases texts with
  | nil => exact empty
  | cons first rest =>
      obtain ⟨hfull, hfirst⟩ := h first rfl
      by_cases hrest : rest = []
      · rw [hrest, String.intercalate_singleton]
        exact hfirst
      · rw [String.intercalate_cons_of_ne_nil hrest, String.append_assoc]
        cases hletters : first.toList with
        | nil => exact absurd (String.toList_inj.1 hletters) hfull
        | cons letter letters =>
            have hhead : first.toList.head? = some letter := by rw [hletters]; rfl
            rw [Unfiltered, hhead] at hfirst
            exact of_front hhead fun heq => hfirst (congrArg some heq)

end Unfiltered

/-- Filters begin like filters. -/
theorem not_unfiltered_of_mem_filterTexts {comparisons : List String} {text : String}
    (h : text ∈ filterTexts comparisons) : ¬ Unfiltered text := by
  have hfilter : ∀ back, ¬ Unfiltered ("FILTER (" ++ back) := by
    intro back
    rw [Unfiltered, String.toList_append, List.head?_append]
    simp
  rw [filterTexts_eq] at h
  match comparisons, h with
  | [only], h =>
      rw [List.mem_singleton.1 h, String.append_assoc]
      exact hfilter _
  | first :: second :: others, h =>
      rw [List.mem_singleton.1 h, String.append_assoc]
      exact hfilter _

namespace Conjunction

/-- What AND combines begins with the first text that is not empty. -/
theorem unfiltered_combine_and {texts more : List String} (h : ∀ text ∈ texts, Unfiltered text)
    (hsome : ∃ text ∈ texts, text ≠ "") : Unfiltered (and.combine (texts ++ more)) := by
  refine Unfiltered.intercalate (fun first hfirst => ?_) " . "
  obtain ⟨text, htext, hfull⟩ := hsome
  cases hgiven : texts.filter (· ≠ "") with
  | nil =>
      have hmem : text ∈ texts.filter (· ≠ "") := List.mem_filter.2 ⟨htext, by simpa using hfull⟩
      rw [hgiven] at hmem
      cases hmem
  | cons head rest =>
      have hmem : head ∈ texts.filter (· ≠ "") := by
        rw [hgiven]
        exact List.mem_cons_self
      rw [List.filter_append, hgiven, List.cons_append, List.eraseDups_cons] at hfirst
      obtain rfl : head = first := Option.some.inj hfirst
      obtain ⟨hhead, hne⟩ := List.mem_filter.1 hmem
      exact ⟨by simpa using hne, h head hhead⟩

/-- What OR combines begins with a brace. -/
theorem unfiltered_combine_or (texts : List String) : Unfiltered (or.combine texts) := by
  refine Unfiltered.intercalate (fun first hfirst => ?_) " UNION "
  have hmem := List.mem_of_mem_head? hfirst
  rw [List.mem_eraseDups] at hmem
  obtain ⟨text, _, rfl⟩ := List.mem_map.1 hmem
  refine ⟨fun hempty => ?_, ?_⟩
  · simpa using congrArg String.length hempty
  · have hbrace : "\x7b ".toList.head? = some '\x7b' := rfl
    rw [String.append_assoc]
    exact .of_front hbrace (by decide)

end Conjunction

/-- The filter of an AND group is its last fragment. -/
theorem Conjunction.fragments_filterTexts {texts : List String}
    (h : ∀ text ∈ texts, Unfiltered text) (comparisons : List String) :
    and.fragments (texts ++ filterTexts comparisons) =
      and.fragments texts ++ filterTexts comparisons := by
  by_cases hnone : comparisons = []
  · simp [filterTexts, hnone]
  · have hone : filterTexts comparisons = [filterText comparisons] := if_neg hnone
    have hfilter : ¬ Unfiltered (filterText comparisons) :=
      not_unfiltered_of_mem_filterTexts (by rw [hone]; exact List.mem_singleton.2 rfl)
    have hfull : filterText comparisons ≠ "" := fun hempty => hfilter (hempty ▸ .empty)
    have hwrap : and.wrap = id := by
      funext text
      simp [wrap, rule]
    rw [hone, fragments_eq, fragments_eq, hwrap, List.map_id, List.map_id, List.filter_append,
      List.filter_cons_of_pos (by simpa using hfull), List.filter_nil, eraseDups_concat, if_neg]
    exact fun hmem => hfilter (h _ (List.mem_filter.1 hmem).1)

/-! ## Texts of compiled groups -/

/-- A triple begins with its subject. -/
theorem Triple.unfiltered_text {t : Triple} {name : String}
    (h : Variable.ofName name = .ok t.subject) : Unfiltered t.text := by
  have hquestion : "?".toList.head? = some '?' := rfl
  rw [Triple.text, Variable.eq_written h, Variable.written]
  simp only [String.append_assoc]
  exact .of_front hquestion (by decide)

/-- A clause writes no filter on its own. -/
theorem Leaf.Becomes.unfiltered {leaf : Leaf} {ctx : Context} {name subject : String}
    {kind : FieldKind} {mapping : FieldMapping} {clause : Clause}
    (h : leaf.Becomes ctx subject kind mapping clause)
    (hname : Variable.ofName name = .ok subject) :
    ∀ text ∈ (clause.binding?.map Triple.text).toList ++ clause.ownTexts, Unfiltered text := by
  have hbinding : ∀ {target binding}, leaf.bind subject mapping = .ok (target, binding) →
      ∀ text ∈ (binding.map Triple.text).toList, Unfiltered text := by
    intro target binding hbind text htext
    rcases bind_ok hbind with ⟨_, _, rfl⟩ | ⟨predicate, _, _, rfl⟩
    · cases htext
    · cases List.mem_singleton.1 htext
      exact Triple.unfiltered_text hname
  have hletter : ∀ {front back : String} {letter : Char}, front.toList.head? = some letter →
      letter ≠ 'F' → ∀ text ∈ [front ++ back], Unfiltered text := by
    intro front back letter hfront hne text htext
    rw [List.mem_singleton.1 htext]
    exact .of_front hfront hne
  intro text htext
  rcases List.mem_append.1 htext with hbound | hown
  · cases h with
    | triple => cases hbound
    | values _ hbind => exact hbinding hbind text hbound
    | existence _ hbind => exact hbinding hbind text hbound
    | pattern _ hbind => exact hbinding hbind text hbound
    | filter _ hbind => exact hbinding hbind text hbound
  · cases h with
    | triple =>
        rw [List.mem_singleton.1 hown]
        exact Triple.unfiltered_text hname
    | values =>
        rw [Clause.ownTexts, ValuesClause.text] at hown
        simp only [String.append_assoc] at hown
        exact hletter (rfl : "VALUES ".toList.head? = some 'V') (by decide) text hown
    | existence hoperator =>
        rw [Clause.ownTexts] at hown
        rcases hoperator with hoperator | hoperator <;> rw [hoperator] at hown <;>
          simp only [String.append_assoc] at hown
        · exact hletter (rfl : "EXISTS \x7b ".toList.head? = some 'E') (by decide) text hown
        · exact hletter (rfl : "NOT EXISTS \x7b ".toList.head? = some 'N') (by decide) text hown
    | pattern hoperator =>
        rw [Clause.ownTexts] at hown
        rcases hoperator with hoperator | hoperator <;> rw [hoperator] at hown <;>
          simp only [String.append_assoc] at hown
        · exact hletter (rfl : "regex(".toList.head? = some 'r') (by decide) text hown
        · exact hletter (rfl : "!regex(".toList.head? = some '!') (by decide) text hown
    | filter => cases hown

/-- The parts of the text of a plan before its filter. -/
def Plan.bodyFragments (plan : Plan) : List Fragment :=
  (plan.defaultBundle.map Triple.text).toList.map .own ++ plan.clauses.flatMap Clause.fragments

namespace Group

/-- The texts of a plan before its filter are no filters, if those of its nested groups are none. -/
theorem PlannedIn.unfiltered {group : Group} {ctx : Context} {plan : Plan}
    (h : group.PlannedIn ctx plan) {textAt : Nat → String}
    (hnested : ∀ place, .nested place ∈ plan.clauses → Unfiltered (textAt place)) :
    ∀ text ∈ plan.bodyFragments.map (Fragment.text textAt), Unfiltered text := by
  obtain ⟨subject, draft, triple?, hname, hmade, hbundle, rfl⟩ := h
  intro text htext
  rw [Plan.bodyFragments, List.map_append, List.mem_append] at htext
  rcases htext with htriple | hclauses
  · rcases defaultBundle_ok hbundle with ⟨_, target, _, rfl⟩ | ⟨_, rfl⟩
    · cases List.mem_singleton.1 htriple
      exact Triple.unfiltered_text hname
    · cases htriple
  · obtain ⟨fragment, hfragment, rfl⟩ := List.mem_map.1 hclauses
    obtain ⟨clause, hclause, hpart⟩ := List.mem_flatMap.1 hfragment
    rcases Draft.holds_or_listed hclause with hheld | hlisted
    · rcases hmade.origin clause hheld with ⟨place, rfl⟩ | ⟨leaf, _, mapping, _, hbecomes⟩
      · cases List.mem_singleton.1 hpart
        exact hnested place hclause
      · have hown : ∃ text ∈ (clause.binding?.map Triple.text).toList ++ clause.ownTexts,
            .own text = fragment := by
          cases hbecomes <;> exact List.mem_map.1 hpart
        obtain ⟨text, htext, rfl⟩ := hown
        exact hbecomes.unfiltered hname text htext
    · rw [hmade.sound.listed] at hlisted
      obtain ⟨_, name, candidates, _, rfl⟩ := Memo.mem_candidateClauses.1 hlisted
      cases List.mem_singleton.1 hpart
      have hletter : "VALUES ".toList.head? = some 'V' := rfl
      rw [Fragment.text, ValuesClause.text]
      simp only [String.append_assoc]
      exact .of_front hletter (by decide)

variable {used : Context → Prop} {group : Group}

theorem unfiltered_nestedText (hsettled : group.Settled) {plan : Plan}
    (hplan : group.plan? = some plan)
    (h : ∀ inner, .nested inner ∈ group.entries → Unfiltered inner.text) {place : Nat}
    (hplace : .nested place ∈ plan.clauses) :
    Unfiltered (Entry.nestedText group.entries place) := by
  obtain ⟨inner, hat⟩ := (hsettled.nested_mem_clauses_iff hplan place).1 hplace
  rw [Entry.nestedText_eq hat]
  exact h inner (List.mem_of_getElem? hat)

/-- The text of a compiled group does not begin like a filter. -/
theorem unfiltered_text (h : group.Everywhere (Legible used)) (hphase : group.phase ≠ .building) :
    Unfiltered group.text := by
  induction group using nestedInduction with
  | step group ih =>
      obtain ⟨plan, hplan⟩ := exists_plan hphase
      rw [text_eq h hplan hphase]
      cases hconjunction : group.conjunction with
      | or => exact Conjunction.unfiltered_combine_or _
      | and =>
          have hnested : ∀ place, .nested place ∈ plan.clauses →
              Unfiltered (Entry.nestedText group.entries place) := fun _ =>
            unfiltered_nestedText h.self.settled hplan fun inner hinner =>
              ih inner hinner (h.nested hinner) (h.self.settled.compiled hphase inner hinner)
          obtain ⟨ctx, _, hplanned⟩ := h.self.planned plan hplan
          -- The plan has a triple, which stands before the filter.
          obtain ⟨_, _, _, hname, hself⟩ := h.self.contained.plan hconjunction plan hplan
          obtain ⟨t, ht, hsubject⟩ := hself.anchored.1
          rw [← hsubject] at hname
          have hbody : .own t.text ∈ plan.bodyFragments := by
            rcases List.mem_append.1 (Plan.triple_mem_fragments ht) with hbody | hfilter
            · exact hbody
            · obtain ⟨text, htext, heq⟩ := List.mem_map.1 hfilter
              cases heq
              exact absurd (Triple.unfiltered_text hname)
                (not_unfiltered_of_mem_filterTexts htext)
          rw [Plan.fragments, ← Plan.bodyFragments, List.map_append]
          refine Conjunction.unfiltered_combine_and (hplanned.unfiltered hnested) ?_
          exact ⟨t.text, List.mem_map.2 ⟨_, hbody, rfl⟩, by simp [Triple.text]⟩

end Group

end GraphCriteria
