import GraphCriteria.Proofs.Filters
import GraphCriteria.Proofs.Reordering

/-!
# Entries that are repeated

Fragments are written once, so entries may be repeated: a copy that stands anywhere behind an entry
adds no fragment.  Only comparisons count, since they share one filter: a copy adds its expression to
it once more.

Main results:

- Theorem `Conjunction.fragments_repeated`: repeated texts add no fragment.
- Theorem `Group.textIn_eq`: the text of a group, from the texts of its entries.
- Theorem `Group.gives_withEntries`: the text of a group with repeated entries.
- Theorem `Group.gives_of_collapses`: copies that are no comparisons leave the text as it is.
- Theorem `Group.gives_of_comparison`: copies of a comparison change the filter only.
-/

namespace GraphCriteria

/-! ## Repetitions in lists -/

/-- Copies of members of a list, of some kind, are inserted anywhere behind them. -/
inductive Repeated {α : Type} (P : α → Prop) (list : List α) : List α → Prop where
  | refl : Repeated P list list
  | insert {front back : List α} {a : α} (h : Repeated P list (front ++ back)) (ha : P a)
      (hmem : a ∈ front) : Repeated P list (front ++ a :: back)

namespace Repeated

variable {α β : Type} {P : α → Prop} {Q : β → Prop} {list other : List α}

/-- Repeating members adds none. -/
theorem mem_iff (h : Repeated P list other) (a : α) : a ∈ other ↔ a ∈ list := by
  induction h with
  | refl => rfl
  | @insert front back b _ _ hmem ih =>
      rw [← ih, List.mem_append, List.mem_append, List.mem_cons]
      constructor
      · rintro (hfront | rfl | hback)
        · exact .inl hfront
        · exact .inl hmem
        · exact .inr hback
      · exact Or.imp id .inr

/-- Lists may be repeated in two steps. -/
theorem trans {last : List α} (h : Repeated P list other) (hlast : Repeated P other last) :
    Repeated P list last := by
  induction hlast with
  | refl => exact h
  | insert _ ha hmem ih => exact .insert ih ha hmem

/-- A copy may stand at the end. -/
theorem concat {a : α} (h : Repeated P list other) (ha : P a) (hmem : a ∈ other) :
    Repeated P list (other ++ [a]) := by
  rw [← List.append_nil other] at h
  exact .insert h ha hmem

/-- Several copies may be inserted at one place. -/
theorem insertAll {front copies back : List α} (h : Repeated P list (front ++ back))
    (hcopies : ∀ a ∈ copies, P a ∧ a ∈ front) : Repeated P list (front ++ (copies ++ back)) := by
  induction copies with
  | nil => exact h
  | cons a copies ih =>
      obtain ⟨⟨ha, hmem⟩, hrest⟩ := List.forall_mem_cons.1 hcopies
      exact .insert (ih hrest) ha hmem

/-- Repetitions stay repetitions if each member is computed on its own. -/
theorem image {F : List α → List β} (hF : ∀ xs ys, F (xs ++ ys) = F xs ++ F ys)
    (hQ : ∀ a, P a → ∀ b ∈ F [a], Q b) (h : Repeated P list other) :
    Repeated Q (F list) (F other) := by
  induction h with
  | refl => exact .refl
  | @insert front back a _ ha hmem ih =>
      have hfront : ∀ b ∈ F [a], b ∈ F front := by
        obtain ⟨before, after, rfl⟩ := List.append_of_mem hmem
        intro b hb
        rw [hF, ← List.singleton_append, hF]
        exact List.mem_append_right _ (List.mem_append_left _ hb)
      rw [hF] at ih
      rw [hF, ← List.singleton_append, hF]
      exact ih.insertAll fun b hb => ⟨hQ a ha b hb, hfront b hb⟩

/-- If each copy counts once, then the image grows as the list does. -/
theorem length_image {F : List α → List β} (hF : ∀ xs ys, F (xs ++ ys) = F xs ++ F ys)
    (hone : ∀ a, P a → (F [a]).length = 1) (h : Repeated P list other) :
    (F other).length + list.length = (F list).length + other.length := by
  induction h with
  | refl => rfl
  | @insert front back a _ ha _ ih =>
      rw [hF, ← List.singleton_append, hF]
      rw [hF] at ih
      simp only [List.length_append, hone a ha, List.length_singleton] at ih ⊢
      omega

/-- If no copy counts, then the image stays the same. -/
theorem image_eq {F : List α → List β} (hF : ∀ xs ys, F (xs ++ ys) = F xs ++ F ys)
    (hnone : ∀ a, P a → F [a] = []) (h : Repeated P list other) : F other = F list := by
  induction h with
  | refl => rfl
  | @insert front back a _ ha _ ih =>
      rw [← ih, hF, ← List.singleton_append, hF, hF, hnone a ha, List.nil_append]

/-- What stands in front does not matter. -/
theorem append_left (h : Repeated P list other) (front : List α) :
    Repeated P (front ++ list) (front ++ other) := by
  induction h with
  | refl => exact .refl
  | insert _ ha hmem ih =>
      rw [← List.append_assoc] at ih ⊢
      exact .insert ih ha (List.mem_append_right _ hmem)

/-- Nor does what stands behind. -/
theorem append_right (h : Repeated P list other) (back : List α) :
    Repeated P (list ++ back) (other ++ back) := by
  induction h with
  | refl => exact .refl
  | insert _ ha hmem ih =>
      rw [List.append_assoc] at ih ⊢
      exact .insert ih ha hmem

theorem append {back last : List α} (h : Repeated P list other) (hback : Repeated P back last) :
    Repeated P (list ++ back) (other ++ last) :=
  (h.append_right back).trans (hback.append_left other)

/-- Repetitions are gone once all members are taken once. -/
theorem eraseDups_eq [BEq α] [LawfulBEq α] (h : Repeated P list other) :
    other.eraseDups = list.eraseDups := by
  induction h with
  | refl => rfl
  | @insert front back a _ _ hmem ih =>
      have hremove : (a :: back).removeAll front = back.removeAll front := by
        rw [List.cons_removeAll, if_neg (by simpa using hmem)]
      rw [← ih, List.eraseDups_append, List.eraseDups_append, hremove]

end Repeated

/-- Repeated texts add no fragment. -/
theorem Conjunction.fragments_repeated (conjunction : Conjunction) {P : String → Prop}
    {texts others : List String} (h : Repeated P texts others) :
    conjunction.fragments others = conjunction.fragments texts := by
  have hwrapped : Repeated (fun _ => True) ((texts.filter (· ≠ "")).map conjunction.wrap)
      ((others.filter (· ≠ "")).map conjunction.wrap) :=
    h.image (F := fun texts => (texts.filter (· ≠ "")).map conjunction.wrap)
      (fun _ _ => by simp) fun _ _ _ _ => trivial
  rw [fragments_eq, fragments_eq, hwrapped.eraseDups_eq]

namespace Group

variable {group : Group} {ctx : Context}

/-! ## Texts in a context -/

/-- The text of a group once it is compiled in a context. -/
def textIn (ctx : Context) (group : Group) : String :=
  (group.compile ctx []).left.text

/-- A group compiles in a context, and has this text then. -/
def Gives (group : Group) (ctx : Context) (text : String) : Prop :=
  ∀ trace later, (group.compile ctx trace).result = .ok () ∧
    ((group.compile ctx trace).left.render later).result = .ok text

/-- A group that compiles in the context has its text there. -/
theorem render_compile_eq_textIn (hctx : ctx.Functional) (hsettled : group.Everywhere Settled)
    {trace : Trace} (hcompile : (group.compile ctx trace).result = .ok ()) (later : Trace) :
    ((group.compile ctx trace).left.render later).result = .ok (group.textIn ctx) := by
  obtain ⟨hresult, hleft⟩ := group.compile_steady hctx trace []
  rw [hleft]
  exact render_eq_text (settled_compile hsettled ctx [])
    (phase_ne_building_iff.2 (state_compile (hresult ▸ hcompile))) later

/-- A group gives a text if it compiles and the text is the one of a single pass. -/
theorem gives_iff (hctx : ctx.Functional) (hsettled : group.Everywhere Settled) {text : String} :
    group.Gives ctx text ↔ (group.compile ctx []).result = .ok () ∧ group.textIn ctx = text := by
  constructor
  · intro h
    obtain ⟨hok, htext⟩ := h [] []
    rw [render_compile_eq_textIn hctx hsettled hok] at htext
    exact ⟨hok, Except.ok.inj htext⟩
  · rintro ⟨hok, rfl⟩ trace later
    have hok' := (group.compile_steady hctx trace []).1.trans hok
    exact ⟨hok', render_compile_eq_textIn hctx hsettled hok' later⟩

/-- The text of a group, from the texts of its entries in the context. -/
theorem textIn_eq (hctx : ctx.Functional) (hmarked : group.Marked)
    (hsettled : group.Everywhere Settled) (hstate : group.state = .building)
    (hcompile : (group.compile ctx []).result = .ok ()) :
    group.textIn ctx = group.conjunction.join (group.conjunction.fragments
      (bodyTextsWith (textIn ctx) group ctx ++ filterTexts (group.comparisonTexts ctx))) := by
  obtain ⟨⟨plan, _, _, _, hrender⟩, _⟩ :=
    writes_of_compile hctx hmarked hstate (fun _ hinner _ later hok =>
      render_compile_eq_textIn hctx (hsettled.nested hinner) hok later) hcompile
  have htext := render_compile_eq_textIn hctx hsettled hcompile []
  rw [hrender [], conjunction_compile] at htext
  exact (Except.ok.inj htext).symm

/-! ## Repeated entries -/

section

variable {P : Entry → Prop} {entries : List Entry}

/-- Repeated leaves narrow a group no further, so that its mark stays right. -/
theorem marked_withEntries (hmarked : group.Marked) (h : Repeated P group.entries entries) :
    (group.withEntries entries).Marked := by
  have hleaves : ∀ leaf, leaf ∈ (group.withEntries entries).ownLeaves ↔ leaf ∈ group.ownLeaves := by
    intro leaf
    rw [mem_ownLeaves_iff, mem_ownLeaves_iff]
    exact h.mem_iff _
  have hmark : (group.withEntries entries).lacksBundle = group.lacksBundle := rfl
  unfold Marked at hmarked ⊢
  rw [hmark, hmarked, Bool.eq_iff_iff, List.all_eq_true, List.all_eq_true]
  simp only [hleaves]
  rfl

theorem settled_withEntries (hsettled : group.Everywhere Settled) (hstate : group.state = .building)
    (h : Repeated P group.entries entries) : (group.withEntries entries).Everywhere Settled :=
  everywhere_iff.2 ⟨settled_of_building hstate, fun _ hinner =>
    hsettled.nested ((h.mem_iff _).1 hinner)⟩

/-- Repeated entries compile as the entries do. -/
theorem compile_withEntries (hctx : ctx.Functional) (hstate : group.state = .building)
    (hcompile : (group.compile ctx []).result = .ok ()) (h : Repeated P group.entries entries) :
    ((group.withEntries entries).compile ctx []).result = .ok () := by
  have hstate' : (group.withEntries entries).state = .building := hstate
  obtain ⟨subject, triple?, hsubject, hentries, hbundle⟩ :=
    (compile_ok_iff hctx hstate []).1 hcompile
  refine (compile_ok_iff hctx hstate' []).2 ⟨subject, triple?, hsubject, ?_, hbundle⟩
  exact fun entry hentry => hentries entry ((h.mem_iff entry).1 hentry)

/-- Repeated entries repeat texts. -/
theorem bodyTextsWith_withEntries (nestedText : Group → String) (ctx : Context)
    (h : Repeated P group.entries entries) :
    Repeated (fun _ => True) (bodyTextsWith nestedText group ctx)
      (bodyTextsWith nestedText (group.withEntries entries) ctx) := by
  have hleaves : Repeated (fun _ => True) group.ownLeaves (Entry.leaves entries) :=
    h.image Entry.leaves_append fun _ _ _ _ => trivial
  have hbundle : ctx.bundleTexts group.conjunction group.keys (Entry.leaves entries) =
      ctx.bundleTexts group.conjunction group.keys group.ownLeaves := by
    simp only [Context.bundleTexts, hleaves.mem_iff]
  have hfields : Repeated (fun _ => True) (group.ownLeaves.map Leaf.field)
      ((Entry.leaves entries).map Leaf.field) :=
    hleaves.image (fun _ _ => List.map_append) fun _ _ _ _ => trivial
  have hcandidates : ctx.candidateTexts group.keys (Entry.leaves entries) =
      ctx.candidateTexts group.keys group.ownLeaves := by
    rw [Context.candidateTexts, Context.candidateTexts, hfields.eraseDups_eq]
  have hsets : Repeated (fun _ => True) (group.ownLeaves.flatMap (·.keySetTexts ctx group.keys))
      ((Entry.leaves entries).flatMap (·.keySetTexts ctx group.keys)) :=
    hleaves.image (fun _ _ => List.flatMap_append) fun _ _ _ _ => trivial
  have hothers : Repeated (fun _ => True)
      (group.entries.flatMap (Entry.textsWith nestedText ctx group.keys))
      (entries.flatMap (Entry.textsWith nestedText ctx group.keys)) :=
    h.image (fun _ _ => List.flatMap_append) fun _ _ _ _ => trivial
  unfold bodyTextsWith withEntries ownLeaves
  dsimp only
  rw [hbundle, hcandidates]
  exact ((Repeated.refl.append hsets).append .refl).append hothers

/-- The text of a group with repeated entries: its fragments are those of the group, apart from the
filter. -/
theorem gives_withEntries (hctx : ctx.Functional) (hmarked : group.Marked)
    (hsettled : group.Everywhere Settled) (hstate : group.state = .building)
    (hcompile : (group.compile ctx []).result = .ok ()) (h : Repeated P group.entries entries) :
    (group.withEntries entries).Gives ctx (group.conjunction.join (group.conjunction.fragments
      (bodyTextsWith (textIn ctx) group ctx ++
        filterTexts ((group.withEntries entries).comparisonTexts ctx)))) := by
  have hok := compile_withEntries hctx hstate hcompile h
  have hsettled' := settled_withEntries hsettled hstate h
  have hbody := (bodyTextsWith_withEntries (textIn ctx) ctx h).append_right
    (filterTexts ((group.withEntries entries).comparisonTexts ctx))
  refine (gives_iff hctx hsettled').2 ⟨hok, ?_⟩
  rw [textIn_eq hctx (marked_withEntries hmarked h) hsettled' hstate hok]
  exact congrArg _ (Conjunction.fragments_repeated _ hbody)

end

end Group

/-! ## Copies that collapse -/

/-- A leaf that is no comparison adds nothing to the filter. -/
theorem Leaf.comparisonTexts_eq_nil {leaf : Leaf} (h : leaf.operator.isComparison = false)
    (ctx : Context) (keys : EntityKeys) : leaf.comparisonTexts ctx keys = [] := by
  unfold comparisonTexts
  cases hoperator : leaf.operator <;> simp_all [Operator.isComparison]

/-- A comparison adds one expression. -/
theorem Leaf.exists_comparisonText {leaf : Leaf} (h : leaf.operator.isComparison = true)
    (ctx : Context) (keys : EntityKeys) :
    ∃ expression, leaf.comparisonTexts ctx keys = [expression] := by
  unfold comparisonTexts
  cases hoperator : leaf.operator <;> simp_all [Operator.isComparison]

namespace Entry

/-- The comparisons of the leaves among some entries. -/
def comparisonTexts (ctx : Context) (keys : EntityKeys) (entries : List Entry) : List String :=
  (leaves entries).flatMap (·.comparisonTexts ctx keys)

theorem comparisonTexts_append (ctx : Context) (keys : EntityKeys) (front back : List Entry) :
    comparisonTexts ctx keys (front ++ back) =
      comparisonTexts ctx keys front ++ comparisonTexts ctx keys back := by
  simp [comparisonTexts]

theorem comparisonTexts_leaf (ctx : Context) (keys : EntityKeys) (own : Leaf) :
    comparisonTexts ctx keys [.leaf own] = own.comparisonTexts ctx keys := by
  simp [comparisonTexts]

/-- Copies of an entry add nothing, unless it is a comparison. -/
def Collapses : Entry → Prop
  | .leaf own => own.operator.isComparison = false
  | .nested _ => True

end Entry

namespace Group

variable {group : Group} {ctx : Context} {entries : List Entry}

theorem comparisonTexts_eq (group : Group) (ctx : Context) :
    group.comparisonTexts ctx = Entry.comparisonTexts ctx group.keys group.entries :=
  rfl

/-- Copies that collapse leave the text as it is. -/
theorem gives_of_collapses (hctx : ctx.Functional) (hbuilt : group.Built)
    (hstate : group.state = .building) (hcompile : (group.compile ctx []).result = .ok ())
    (h : Repeated Entry.Collapses group.entries entries) :
    (group.withEntries entries).Gives ctx (group.textIn ctx) := by
  have hmarked := (hbuilt _ (marked_invariant _)).self
  have hsettled := hbuilt _ (settled_invariant _)
  have hnone : ∀ entry : Entry, entry.Collapses →
      Entry.comparisonTexts ctx group.keys [entry] = [] := by
    intro entry hentry
    cases entry with
    | leaf own =>
        rw [Entry.comparisonTexts_leaf]
        exact own.comparisonTexts_eq_nil hentry ctx group.keys
    | nested inner => rfl
  have hcomparisons : (group.withEntries entries).comparisonTexts ctx =
      group.comparisonTexts ctx := by
    rw [comparisonTexts_eq, comparisonTexts_eq]
    exact h.image_eq (Entry.comparisonTexts_append ctx group.keys) hnone
  have hgives := gives_withEntries hctx hmarked hsettled hstate hcompile h
  rwa [hcomparisons, ← textIn_eq hctx hmarked hsettled hstate hcompile] at hgives

/-! ## Comparisons that are repeated -/

/-- What a group writes before its filter is no filter. -/
theorem unfiltered_bodyTexts (hctx : ctx.Functional) (hbuilt : group.Built)
    (hstate : group.state = .building) (hcompile : (group.compile ctx []).result = .ok ()) :
    ∀ text ∈ bodyTextsWith (textIn ctx) group ctx, Unfiltered text := by
  have hmarked := (hbuilt _ (marked_invariant _)).self
  have hsettled := hbuilt _ (settled_invariant _)
  have hlegible := (hbuilt.compile ctx []).legible
  have hphase := phase_ne_building_iff.2 (state_compile hcompile)
  obtain ⟨⟨plan, hplan, hcomparisons, htexts, _⟩, _⟩ :=
    writes_of_compile hctx hmarked hstate (fun _ hinner _ later hok =>
      render_compile_eq_textIn hctx (hsettled.nested hinner) hok later) hcompile
  obtain ⟨other, _, hplanned⟩ := hlegible.self.planned plan hplan
  have hown : ∀ texts : List String, (texts.map Fragment.own).map (Fragment.text
      (Entry.nestedText (group.compile ctx []).left.entries)) = texts := by
    intro texts
    simp [Function.comp_def, Fragment.text]
  rw [texts_eq hlegible hplan hphase, Plan.fragments, ← Plan.bodyFragments, List.map_append, hown,
    hcomparisons] at htexts
  rw [← List.append_cancel_right (Except.ok.inj htexts)]
  refine hplanned.unfiltered fun place => unfiltered_nestedText hlegible.self.settled hplan ?_
  exact fun inner hinner => unfiltered_text (hlegible.nested hinner)
    (hlegible.self.settled.compiled hphase inner hinner)

/-- The texts of an AND group with and without copies of a comparison differ in the filter: it gains
the expression once for each copy. -/
theorem gives_of_comparison (hctx : ctx.Functional) (hbuilt : group.Built)
    (hstate : group.state = .building) (hand : group.conjunction = .and)
    (hcompile : (group.compile ctx []).result = .ok ()) {own : Leaf}
    (hown : own.operator.isComparison = true)
    (h : Repeated (· = .leaf own) group.entries entries) :
    ∃ front expression, own.comparisonTexts ctx group.keys = [expression] ∧
      Repeated (· = expression) (group.comparisonTexts ctx)
        ((group.withEntries entries).comparisonTexts ctx) ∧
      ((group.withEntries entries).comparisonTexts ctx).length + group.entries.length =
        (group.comparisonTexts ctx).length + entries.length ∧
      group.textIn ctx = " . ".intercalate (front ++ filterTexts (group.comparisonTexts ctx)) ∧
      (group.withEntries entries).Gives ctx (" . ".intercalate
        (front ++ filterTexts ((group.withEntries entries).comparisonTexts ctx))) := by
  have hmarked := (hbuilt _ (marked_invariant _)).self
  have hsettled := hbuilt _ (settled_invariant _)
  have hbody := unfiltered_bodyTexts hctx hbuilt hstate hcompile
  obtain ⟨expression, hexpression⟩ := own.exists_comparisonText hown ctx group.keys
  have happend := Entry.comparisonTexts_append ctx group.keys
  have hcomparisons : (group.withEntries entries).comparisonTexts ctx =
      Entry.comparisonTexts ctx group.keys entries := rfl
  refine ⟨Conjunction.and.fragments (bodyTextsWith (textIn ctx) group ctx), expression,
    hexpression, ?_, ?_, ?_, ?_⟩
  · rw [hcomparisons, comparisonTexts_eq]
    refine h.image happend ?_
    rintro _ rfl text htext
    rw [Entry.comparisonTexts_leaf, hexpression] at htext
    exact List.mem_singleton.1 htext
  · rw [hcomparisons, comparisonTexts_eq]
    refine h.length_image happend ?_
    rintro _ rfl
    rw [Entry.comparisonTexts_leaf, hexpression]
    rfl
  · rw [textIn_eq hctx hmarked hsettled hstate hcompile, hand,
      Conjunction.fragments_filterTexts hbody]
    rfl
  · have hgives := gives_withEntries hctx hmarked hsettled hstate hcompile h
    rw [hand, Conjunction.fragments_filterTexts hbody] at hgives
    exact hgives

end Group

end GraphCriteria
