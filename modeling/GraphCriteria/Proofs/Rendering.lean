import GraphCriteria.Group.Render
import GraphCriteria.Proofs.Compiling

/-!
# What rendering a group does

Rendering a group renders its nested groups in place and joins their texts with its own.  What
happened before plays no part in it, so the text at each place can be named without a trace.

Main results:

- Theorem `Group.renders`: the four ways in which rendering a group ends.
- Theorem `Group.bare_render`: rendering changes nothing but the states of groups.
- Theorem `Group.everywhere_render`: what a single step keeps, rendering keeps at every depth.
-/

namespace GraphCriteria

/-! ## Texts at places -/

/-- An entry after rendering. -/
def Entry.rendered (entry : Entry) : Entry :=
  match entry with
  | .leaf own => .leaf own
  | .nested inner => .nested (inner.render []).left

/-- The text of the nested group at a place of the entries. -/
def Entry.textAt (entries : List Entry) (place : Nat) : Except ConditionError String :=
  match entries[place]? with
  | some (.nested inner) => (inner.render []).result
  | _ => .error .notCompiled

/-- The group that rendering leaves when it succeeds. -/
def Group.withText (group : Group) (entries : List Entry) (plan : Plan) (text : String) : Group :=
  { group with entries := entries, state := .rendered plan text }

/-- What happened before plays no part in rendering. -/
theorem Group.render_steady (group : Group) (s t : Trace) :
    (group.render s).Agrees (group.render t) := by
  refine (Group.treeInduction (P := fun group => ∀ s t, (group.render s).Agrees (group.render t))
    (R := fun entries => ∀ s t,
      (Entry.renderAll entries s).entries = (Entry.renderAll entries t).entries ∧
        (Entry.renderAll entries s).texts = (Entry.renderAll entries t).texts) ?_ ?_ ?_ ?_).1
    group s t
  · intro conjunction keys entries lacksBundle state ih s t
    cases state with
    | building => exact ⟨rfl, rfl⟩
    | rendered plan text => exact ⟨rfl, rfl⟩
    | compiled plan =>
        obtain ⟨hentries, htexts⟩ := ih s t
        rw [Group.render, Group.render]
        rw [hentries, htexts]
        split <;> exact ⟨rfl, rfl⟩
  · intro s t
    exact ⟨rfl, rfl⟩
  · intro leaf rest ih s t
    obtain ⟨hentries, htexts⟩ := ih s t
    rw [Entry.renderAll, Entry.renderAll]
    exact ⟨congrArg (Entry.leaf leaf :: ·) hentries, congrArg (none :: ·) htexts⟩
  · intro inner rest hinner ih s t
    obtain ⟨hresult, hleft⟩ := hinner s t
    obtain ⟨hentries, htexts⟩ := ih (inner.render s).trace (inner.render t).trace
    rw [Entry.renderAll, Entry.renderAll]
    dsimp only
    rw [hresult, hleft, hentries, htexts]
    exact ⟨rfl, rfl⟩

namespace Entry

/-- Rendering goes through the entries one by one. -/
theorem entries_renderAll (entries : List Entry) (trace : Trace) :
    (renderAll entries trace).entries = entries.map rendered := by
  induction entries generalizing trace with
  | nil => rfl
  | cons entry rest ih =>
      cases entry with
      | leaf own =>
          rw [renderAll, List.map_cons]
          dsimp only
          rw [ih]
          rfl
      | nested inner =>
          rw [renderAll, List.map_cons, rendered]
          dsimp only
          rw [ih, (inner.render_steady trace []).2]

/-- The text that rendering finds at a place is that of the nested group there. -/
theorem nestedTextAt_renderAll (entries : List Entry) (trace : Trace) :
    nestedTextAt (renderAll entries trace).texts = textAt entries := by
  funext place
  induction entries generalizing trace place with
  | nil => rfl
  | cons entry rest ih =>
      cases entry with
      | leaf own =>
          rw [renderAll]
          cases place with
          | zero => rfl
          | succ place => exact ih trace place
      | nested inner =>
          rw [renderAll]
          cases place with
          | zero => exact (inner.render_steady trace []).1
          | succ place => exact ih (inner.render trace).trace place

theorem textAt_of_nested {entries : List Entry} {place : Nat} {inner : Group}
    (h : entries[place]? = some (.nested inner)) :
    textAt entries place = (inner.render []).result := by
  rw [textAt, h]

end Entry

/-! ## Ways to end -/

/-- The ways in which rendering a group ends. -/
inductive Group.Renders (group : Group) : Except ConditionError String → Group → Prop where
  | notCompiled (hstate : group.state = .building) : Renders group (.error .notCompiled) group
  /-- The group has been rendered before. -/
  | again {plan : Plan} {text : String} (hstate : group.state = .rendered plan text) :
      Renders group (.ok text) group
  | failed {plan : Plan} {e : ConditionError} (hstate : group.state = .compiled plan)
      (htext : plan.text group.conjunction (Entry.textAt group.entries) = .error e) :
      Renders group (.error e) (group.withEntries (group.entries.map Entry.rendered))
  | finished {plan : Plan} {text : String} (hstate : group.state = .compiled plan)
      (htext : plan.text group.conjunction (Entry.textAt group.entries) = .ok text) :
      Renders group (.ok text) (group.withText (group.entries.map Entry.rendered) plan text)

/-- Rendering a group ends in one of these ways. -/
theorem Group.renders (group : Group) (trace : Trace) :
    group.Renders (group.render trace).result (group.render trace).left := by
  obtain ⟨conjunction, keys, entries, lacksBundle, state⟩ := group
  cases state with
  | building => exact .notCompiled rfl
  | rendered plan text => exact .again rfl
  | compiled plan =>
      rw [Group.render]
      rw [Entry.entries_renderAll, Entry.nestedTextAt_renderAll]
      split
      · rename_i e htext
        exact .failed rfl htext
      · rename_i text htext
        exact .finished rfl htext

/-- The text of a group that has just been compiled. -/
theorem Group.render_withPlan (group : Group) (entries : List Entry) (plan : Plan)
    (trace : Trace) :
    ((group.withPlan entries plan).render trace).result =
      plan.text group.conjunction (Entry.textAt entries) := by
  have hways := (group.withPlan entries plan).renders trace
  generalize ((group.withPlan entries plan).render trace).result = result at hways ⊢
  generalize ((group.withPlan entries plan).render trace).left = left at hways ⊢
  cases hways with
  | notCompiled hstate => cases hstate
  | again hstate => cases hstate
  | failed hstate htext =>
      cases hstate
      exact htext.symm
  | finished hstate htext =>
      cases hstate
      exact htext.symm

/-- A group that rendering gives a text is rendered. -/
theorem Group.phase_render {group : Group} {trace : Trace} {text : String}
    (h : (group.render trace).result = .ok text) :
    (group.render trace).left.phase = .rendered := by
  have hways := group.renders trace
  generalize (group.render trace).result = result at h hways ⊢
  generalize (group.render trace).left = left at h hways ⊢
  cases hways with
  | notCompiled => cases h
  | again hstate => rw [phase, hstate, GroupState.phase]
  | failed => cases h
  | finished => rfl

/-- Rendering never takes a group back to building, nor does it finish a build. -/
theorem Group.phase_render_eq_building_iff {group : Group} {trace : Trace} :
    (group.render trace).left.phase = .building ↔ group.phase = .building := by
  have hways := group.renders trace
  generalize (group.render trace).result = result at hways ⊢
  generalize (group.render trace).left = left at hways ⊢
  cases hways with
  | notCompiled | again => rfl
  | failed => rfl
  | finished hstate =>
      rw [phase_eq_building_iff, phase_eq_building_iff, hstate]
      simp [withText]

/-! ## What stays -/

/-- Rendering changes nothing but the states of groups. -/
theorem Group.bare_render (group : Group) (trace : Trace) :
    (group.render trace).left.bare = group.bare := by
  refine (Group.treeInduction (P := fun group => ∀ trace, (group.render trace).left.bare = group.bare)
    (R := fun entries => Entry.bareAll (entries.map Entry.rendered) = Entry.bareAll entries)
    ?_ ?_ ?_ ?_).1 group trace
  · intro conjunction keys entries lacksBundle state ih trace
    have hways := Group.renders ⟨conjunction, keys, entries, lacksBundle, state⟩ trace
    generalize (Group.render _ trace).result = result at hways ⊢
    generalize (Group.render _ trace).left = left at hways ⊢
    cases hways with
    | notCompiled | again => rfl
    | failed | finished => simp only [withEntries, withText, bare, ih]
  · rfl
  · intro leaf rest ih
    rw [List.map_cons, Entry.rendered, Entry.bareAll, Entry.bareAll, ih]
  · intro inner rest hinner ih
    rw [List.map_cons, Entry.rendered, Entry.bareAll, Entry.bareAll, ih, hinner]

theorem Entry.bareAll_rendered (entries : List Entry) :
    bareAll (entries.map rendered) = bareAll entries := by
  induction entries with
  | nil => rfl
  | cons entry rest ih =>
      cases entry with
      | leaf own => rw [List.map_cons, rendered, bareAll, bareAll, ih]
      | nested inner => rw [List.map_cons, rendered, bareAll, bareAll, ih, Group.bare_render]

theorem Entry.leaves_rendered (entries : List Entry) :
    leaves (entries.map rendered) = leaves entries := by
  induction entries with
  | nil => rfl
  | cons entry rest ih => cases entry <;> simp [rendered, ih]

/-! ## What each step keeps -/

theorem Entry.mem_map_rendered {entries : List Entry} {outer : Group}
    (h : .nested outer ∈ entries.map rendered) :
    ∃ inner, .nested inner ∈ entries ∧ outer = (inner.render []).left := by
  obtain ⟨entry, hmem, heq⟩ := List.mem_map.1 h
  cases entry with
  | leaf own => cases heq
  | nested inner =>
      cases heq
      exact ⟨inner, hmem, rfl⟩

/-- A property that is kept when a single group fails or gets its text, whatever its nested
groups have become, is kept at every depth of a tree. -/
theorem Group.everywhere_render {Q : Group → Prop}
    (stop : ∀ (group : Group) (plan : Plan), Q group → group.state = .compiled plan →
      Q (group.withEntries (group.entries.map Entry.rendered)))
    (finish : ∀ (group : Group) (plan : Plan) (text : String), Q group →
      group.state = .compiled plan →
      plan.text group.conjunction (Entry.textAt group.entries) = .ok text →
      Q (group.withText (group.entries.map Entry.rendered) plan text))
    {group : Group} (h : group.Everywhere Q) (trace : Trace) :
    (group.render trace).left.Everywhere Q := by
  induction group using Group.nestedInduction generalizing trace with
  | step group ih =>
      have hnested : ∀ inner, .nested inner ∈ group.entries.map Entry.rendered →
          inner.Everywhere Q := by
        intro outer houter
        obtain ⟨inner, hinner, rfl⟩ := Entry.mem_map_rendered houter
        exact ih inner hinner (h.nested hinner) []
      have hways := group.renders trace
      generalize (group.render trace).result = result at hways ⊢
      generalize (group.render trace).left = left at hways ⊢
      cases hways with
      | notCompiled | again => exact h
      | failed hstate => exact everywhere_iff.2 ⟨stop _ _ h.self hstate, hnested⟩
      | finished hstate htext =>
          exact everywhere_iff.2 ⟨finish _ _ _ h.self hstate htext, hnested⟩

end GraphCriteria
