import GraphCriteria.Proofs.Retry

/-!
# Groups that have been compiled

From the moment it is compiled, a group changes only by being rendered, and rendering shows nothing
new of it.  This holds wherever the steps of a workspace carry the group: into copies, into other
groups, and out of these again.

Main results:

- Theorem `Group.ages_render`: rendering leaves all that can be seen of a tree.
- Theorem `Group.Changes.ages`: a step of building, compiling or rendering does so for the compiled
  groups within a tree.
- Theorem `Workspace.ages_of_carries`: so does a step of a workspace, wherever it carries a group.
- Theorem `Workspace.frozen_of_compiled`: what stays of a compiled group along every run.
-/

namespace GraphCriteria

/-! ## Rendering once more -/

namespace Group

/-- What a compiled group may become: it may be rendered, and nothing else can be seen of it. -/
structure Ages (group later : Group) : Prop where
  bare : later.bare = group.bare
  alike : later.Alike group
  phase : later.phase = group.phase ∨ later.phase = .rendered

theorem Ages.refl (group : Group) : group.Ages group where
  bare := rfl
  alike _ := rfl
  phase := .inl rfl

theorem Ages.trans {a b c : Group} (hab : a.Ages b) (hbc : b.Ages c) : a.Ages c where
  bare := hbc.bare.trans hab.bare
  alike path := (hbc.alike path).trans (hab.alike path)
  phase := by
    rcases hbc.phase with hsame | hrendered
    · rw [hsame]
      exact hab.phase
    · exact .inr hrendered

/-- A compiled group stays compiled. -/
theorem Ages.phase_ne_building {group later : Group} (h : group.Ages later)
    (hphase : group.phase ≠ .building) : later.phase ≠ .building := by
  rcases h.phase with hsame | hrendered
  · rwa [hsame]
  · simp [hrendered]

/-- The text of a group that has been compiled but not rendered. -/
theorem render_of_compiled {group : Group} {plan : Plan} (hstate : group.state = .compiled plan)
    (trace : Trace) :
    (group.render trace).result = plan.text group.conjunction (Entry.textAt group.entries) := by
  obtain ⟨conjunction, keys, entries, lacksBundle, state⟩ := group
  obtain rfl : state = .compiled plan := hstate
  exact render_withPlan ⟨conjunction, keys, entries, lacksBundle, .compiled plan⟩ entries plan trace

/-- A group that has been rendered keeps its text. -/
theorem render_of_rendered {group : Group} {plan : Plan} {text : String}
    (hstate : group.state = .rendered plan text) (trace : Trace) :
    (group.render trace).result = .ok text := by
  obtain ⟨conjunction, keys, entries, lacksBundle, state⟩ := group
  obtain rfl : state = .rendered plan text := hstate
  rw [render]

/-- Rendering leaves all that can be seen of a tree. -/
theorem alike_render (group : Group) (trace : Trace) : (group.render trace).left.Alike group := by
  induction group using nestedInduction generalizing trace with
  | step group ih =>
      have hnested : ∀ later : Group, later.entries = group.entries.map Entry.rendered →
          ∀ place path, (later.at? (place :: path)).map look =
            (group.at? (place :: path)).map look := by
        intro later hentries place path
        rw [at?, at?, hentries, List.getElem?_map]
        cases hplace : group.entries[place]? with
        | none => rfl
        | some entry =>
            cases entry with
            | leaf own => rfl
            | nested inner => exact ih inner (List.mem_of_getElem? hplace) [] path
      have htexts : Entry.textAt (group.entries.map Entry.rendered) =
          Entry.textAt group.entries := by
        funext place
        have hlater := hnested (group.withEntries (group.entries.map Entry.rendered)) rfl place []
        have hseen := textAt_eq_look (group.withEntries (group.entries.map Entry.rendered)) place
        rw [hlater, ← textAt_eq_look group place] at hseen
        exact hseen
      have halike : ∀ later : Group, later.entries = group.entries.map Entry.rendered →
          later.look = group.look → later.Alike group := by
        intro later hentries hlook path
        cases path with
        | nil => exact congrArg some hlook
        | cons place path => exact hnested later hentries place path
      have hways := group.renders trace
      generalize (group.render trace).result = result at hways ⊢
      generalize (group.render trace).left = left at hways ⊢
      cases hways with
      | notCompiled | again => exact fun _ => rfl
      | @failed plan e hstate htext =>
          refine halike _ rfl ?_
          have hlater : (group.withEntries (group.entries.map Entry.rendered)).state =
              .compiled plan := hstate
          unfold look
          rw [render_of_compiled hlater, render_of_compiled hstate]
          dsimp only [withEntries]
          rw [htexts]
          rfl
      | @finished plan text hstate htext =>
          refine halike _ rfl ?_
          have hmapping : (group.withText (group.entries.map Entry.rendered) plan
              text).fieldMapping? = group.fieldMapping? := by
            funext field
            simp [fieldMapping?, plan?, hstate, withText, GroupState.plan?]
          unfold look
          rw [render_of_compiled hstate, htext, hmapping]
          rfl

/-- Rendering leaves the texts of nested groups. -/
theorem textAt_rendered (entries : List Entry) :
    Entry.textAt (entries.map Entry.rendered) = Entry.textAt entries := by
  funext place
  rw [Entry.textAt, Entry.textAt, List.getElem?_map]
  cases hplace : entries[place]? with
  | none => rfl
  | some entry =>
      cases entry with
      | leaf own => rfl
      | nested inner => exact congrArg Prod.fst (Option.some.inj (alike_render inner [] []))

/-- Rendering lets a group age. -/
theorem ages_render (group : Group) (trace : Trace) : group.Ages (group.render trace).left where
  bare := bare_render group trace
  alike := alike_render group trace
  phase := by
    have hways := group.renders trace
    generalize (group.render trace).result = result at hways ⊢
    generalize (group.render trace).left = left at hways ⊢
    cases hways with
    | notCompiled | again => exact .inl rfl
    | failed => exact .inl rfl
    | finished => exact .inr rfl

/-! ## Within a tree -/

/-- What a step may do to a group as a whole. -/
inductive Changes : Group → Group → Prop where
  | keep (group : Group) : Changes group group
  | push {group later : Group} {entry : Entry} (hstate : group.state = .building)
      (hentries : later.entries = group.entries ++ [entry]) : Changes group later
  | compile (group : Group) (ctx : Context) (trace : Trace) :
      Changes group (group.compile ctx trace).left
  | render (group : Group) (trace : Trace) : Changes group (group.render trace).left

/-- Compiling leaves a nested group as it is or compiles it. -/
theorem compile_nested_at {group middle : Group} (ctx : Context) (trace : Trace) {place : Nat}
    (hplace : group.entries[place]? = some (.nested middle)) :
    (group.compile ctx trace).left.entries[place]? = some (.nested middle) ∨
      ∃ mid, (group.compile ctx trace).left.entries[place]? =
        some (.nested (middle.compile ctx mid).left) := by
  have hways := group.compiles ctx trace
  generalize group.compile ctx trace = outcome at hways ⊢
  cases hways with
  | skipped | unnamed => exact .inl hplace
  | stopped | unbound | finished => exact Entry.left_compileAll_at ctx _ _ _ _ _ hplace

/-- Rendering leaves a nested group as it is or renders it. -/
theorem render_nested_at {group middle : Group} (trace : Trace) {place : Nat}
    (hplace : group.entries[place]? = some (.nested middle)) :
    (group.render trace).left.entries[place]? = some (.nested middle) ∨
      (group.render trace).left.entries[place]? = some (.nested (middle.render []).left) := by
  have hrendered : (group.entries.map Entry.rendered)[place]? =
      some (.nested (middle.render []).left) := by
    rw [List.getElem?_map, hplace]
    rfl
  have hways := group.renders trace
  generalize (group.render trace).result = result at hways ⊢
  generalize (group.render trace).left = left at hways ⊢
  cases hways with
  | notCompiled | again => exact .inl hplace
  | failed | finished => exact .inr hrendered

theorem at?_cons_iff {group inner : Group} {place : Nat} {path : List Nat} :
    group.at? (place :: path) = some inner ↔
      ∃ middle, group.entries[place]? = some (.nested middle) ∧ middle.at? path = some inner := by
  constructor
  · intro h
    rw [at?] at h
    split at h
    · rename_i middle hplace
      exact ⟨middle, hplace, h⟩
    · cases h
  · rintro ⟨middle, hplace, hpath⟩
    rw [at?_cons hplace, hpath]

/-- Compiling a tree leaves the groups in it that have been compiled before. -/
theorem at?_compile_of_compiled {group inner : Group} {path : List Nat}
    (hpath : group.at? path = some inner) (hinner : inner.state ≠ .building) (ctx : Context)
    (trace : Trace) : (group.compile ctx trace).left.at? path = some inner := by
  induction path generalizing group trace with
  | nil =>
      cases hpath
      rw [compile_of_compiled hinner]
      rfl
  | cons place path ih =>
      obtain ⟨middle, hplace, hrest⟩ := at?_cons_iff.1 hpath
      rcases compile_nested_at ctx trace hplace with hkept | ⟨mid, hcompiled⟩
      · exact at?_cons_iff.2 ⟨middle, hkept, hrest⟩
      · exact at?_cons_iff.2 ⟨_, hcompiled, ih hrest mid⟩

/-- Rendering a tree lets the groups in it age. -/
theorem at?_render {group inner : Group} {path : List Nat} (hpath : group.at? path = some inner)
    (trace : Trace) :
    ∃ later, (group.render trace).left.at? path = some later ∧ inner.Ages later := by
  induction path generalizing group trace with
  | nil =>
      cases hpath
      exact ⟨_, rfl, ages_render _ trace⟩
  | cons place path ih =>
      obtain ⟨middle, hplace, hrest⟩ := at?_cons_iff.1 hpath
      rcases render_nested_at trace hplace with hkept | hrendered
      · exact ⟨inner, at?_cons_iff.2 ⟨middle, hkept, hrest⟩, .refl inner⟩
      · obtain ⟨later, hlater, hages⟩ := ih hrest []
        exact ⟨later, at?_cons_iff.2 ⟨_, hrendered, hlater⟩, hages⟩

/-- Whatever happens to a group, it lets the compiled groups in it age. -/
theorem Changes.ages {outer outer' group : Group} (h : outer.Changes outer') {path : List Nat}
    (hpath : outer.at? path = some group) (hphase : group.phase ≠ .building) :
    ∃ later, outer'.at? path = some later ∧ group.Ages later := by
  rw [phase_ne_building_iff] at hphase
  cases h with
  | keep => exact ⟨group, hpath, .refl group⟩
  | push hstate hentries =>
      cases path with
      | nil =>
          cases hpath
          exact absurd hstate hphase
      | cons place path =>
          obtain ⟨middle, hplace, hrest⟩ := at?_cons_iff.1 hpath
          obtain ⟨hlt, _⟩ := List.getElem?_eq_some_iff.1 hplace
          refine ⟨group, at?_cons_iff.2 ⟨middle, ?_, hrest⟩, .refl group⟩
          rw [hentries, List.getElem?_append_left hlt, hplace]
  | compile ctx trace =>
      exact ⟨group, at?_compile_of_compiled hpath hphase ctx trace, .refl group⟩
  | render trace => exact at?_render hpath trace

end Group

/-! ## Steps of a workspace -/

/-- Where a group stands in a workspace: the name of a group and the places that lead from it. -/
structure Address where
  name : String
  path : List Nat
deriving DecidableEq, Repr

/-- The name that a step takes away from the group that has it. -/
def WorkspaceStep.rebound : WorkspaceStep → Option String
  | .make name .. | .makeSibling name .. | .copy name .. | .copyNested name .. => some name
  | .nest _ child => some child
  | _ => none

namespace Workspace

/-- The group at an address. -/
def at? (workspace : Workspace) (address : Address) : Option Group :=
  (workspace.get? address.name).bind fun group => group.at? address.path

/-- The workspace after a step.  A step that cannot be taken changes nothing. -/
def after (workspace : Workspace) (step : WorkspaceStep) : Workspace :=
  match workspace.step step with
  | some outcome => outcome.left
  | none => workspace

/-- Where a step carries the group at an address: it stays where it is, is copied, or becomes part
of another group. -/
inductive Carries (workspace : Workspace) : WorkspaceStep → Address → Address → Prop where
  | missed {step : WorkspaceStep} (address : Address) (hstep : workspace.step step = none) :
      Carries workspace step address address
  | stays {step : WorkspaceStep} {address : Address} (hname : step.rebound ≠ some address.name) :
      Carries workspace step address address
  | copied (name source : String) (path : List Nat) :
      Carries workspace (.copy name source) ⟨source, path⟩ ⟨name, path⟩
  | taken (name source : String) (place : Nat) (path : List Nat) :
      Carries workspace (.copyNested name source place) ⟨source, place :: path⟩ ⟨name, path⟩
  | nested {name child : String} {parent : Group} (path : List Nat)
      (hparent : (workspace.remove child).get? name = some parent)
      (hstate : parent.state = .building) :
      Carries workspace (.nest name child) ⟨child, path⟩ ⟨name, parent.size :: path⟩

/-- Where a run carries the group at an address. -/
inductive Leads : Workspace → Address → List WorkspaceStep → Address → Prop where
  | nil (workspace : Workspace) (address : Address) : Leads workspace address [] address
  | cons {workspace : Workspace} {step : WorkspaceStep} {steps : List WorkspaceStep}
      {first next last : Address} (hstep : workspace.Carries step first next)
      (hrest : Leads (workspace.after step) next steps last) :
      Leads workspace first (step :: steps) last

variable {workspace : Workspace}

theorem run_cons (workspace : Workspace) (step : WorkspaceStep) (steps : List WorkspaceStep) :
    workspace.run (step :: steps) = (workspace.after step).run steps := by
  rw [run, after]
  cases workspace.step step <;> rfl

theorem get?_put_of_ne {name other : String} (h : name ≠ other) (group : Group) :
    (workspace.put other group).get? name = workspace.get? name := by
  rw [get?_put, if_neg h, get?_remove, if_neg h]

/-- Putting a changed group under its name changes the groups of the workspace. -/
theorem changes_put {name other : String} {group later top : Group}
    (hgroup : workspace.get? name = some group) (hchanges : group.Changes later)
    (htop : workspace.get? other = some top) :
    ∃ top', (workspace.put name later).get? other = some top' ∧ top.Changes top' := by
  by_cases hname : other = name
  · rw [hname, hgroup] at htop
    cases htop
    exact ⟨later, by rw [get?_put, if_pos hname], hchanges⟩
  · rw [get?_put_of_ne hname]
    exact ⟨top, htop, .keep top⟩

/-- So does building, whether it is accepted or not. -/
theorem changes_settle {name other : String} {group top : Group}
    {built : Except ConditionError Group} (hgroup : workspace.get? name = some group)
    (hchanges : ∀ later, built = .ok later → group.Changes later)
    (htop : workspace.get? other = some top) :
    ∃ top', (workspace.settle name built).left.get? other = some top' ∧ top.Changes top' := by
  cases built with
  | ok later => exact changes_put hgroup (hchanges later rfl) htop
  | error e => exact ⟨top, htop, .keep top⟩

end Workspace

theorem Group.changes_addCondition {group later : Group} {name : String} {value : Option Value}
    {operator : Operator} {language : Option String}
    (h : group.addCondition name value operator language = .ok later) : group.Changes later := by
  obtain ⟨hstate, leaf, _, ⟨_, rfl⟩ | ⟨_, rfl⟩⟩ := addCondition_ok h
  · exact .push hstate (entries_pushLeaf group leaf)
  · exact .push hstate (entries_pushEntry group _)

namespace Workspace

variable {workspace : Workspace}

/-- A step changes every group whose name it does not take away. -/
theorem changes_after {step : WorkspaceStep} {name : String} {top : Group}
    (hname : step.rebound ≠ some name) (htop : workspace.get? name = some top) :
    ∃ top', (workspace.after step).get? name = some top' ∧ top.Changes top' := by
  unfold after
  split
  · rename_i outcome htaken
    have hother : ∀ {other}, step.rebound = some other → ∀ group,
        ∃ top', (workspace.put other group).get? name = some top' ∧ top.Changes top' := by
      intro other hrebound group
      rw [get?_put_of_ne fun h => hname (by rw [hrebound, h])]
      exact ⟨top, htop, .keep top⟩
    cases step with
    | make other conjunction keys =>
        cases htaken
        exact hother rfl _
    | makeSibling other source conjunction =>
        obtain ⟨group, hget, heq⟩ := Option.bind_eq_some_iff.1 htaken
        cases heq
        exact hother rfl _
    | copy other source =>
        obtain ⟨group, hget, heq⟩ := Option.bind_eq_some_iff.1 htaken
        cases heq
        exact hother rfl _
    | copyNested other source place =>
        obtain ⟨group, hget, heq⟩ := Option.bind_eq_some_iff.1 htaken
        obtain ⟨entry, hplace, heq⟩ := Option.bind_eq_some_iff.1 heq
        cases entry with
        | leaf own => cases heq
        | nested inner =>
            cases heq
            exact hother rfl _
    | add other field value operator language =>
        obtain ⟨group, hget, heq⟩ := Option.bind_eq_some_iff.1 htaken
        cases heq
        refine changes_settle hget (fun later hlater => ?_) htop
        cases hoperator : Operator.ofName operator with
        | error e =>
            rw [hoperator] at hlater
            cases hlater
        | ok op =>
            rw [hoperator] at hlater
            exact Group.changes_addCondition hlater
    | addEqual other | addPresent other | addAbsent other =>
        obtain ⟨group, hget, heq⟩ := Option.bind_eq_some_iff.1 htaken
        cases heq
        exact changes_settle hget (fun later hlater => Group.changes_addCondition hlater) htop
    | nest other child =>
        obtain ⟨inner, hinner, heq⟩ := Option.bind_eq_some_iff.1 htaken
        obtain ⟨group, hget, heq⟩ := Option.bind_eq_some_iff.1 heq
        cases heq
        have hchild : name ≠ child := fun h => hname (by rw [h]; rfl)
        refine changes_settle hget (fun later hlater => ?_) ?_
        · obtain ⟨hstate, rfl⟩ := Group.addGroup_ok hlater
          exact .push hstate (Group.entries_pushEntry group _)
        · rw [get?_remove, if_neg hchild, htop]
    | compile other ctx =>
        obtain ⟨group, hget, heq⟩ := Option.bind_eq_some_iff.1 htaken
        cases heq
        exact changes_put hget (.compile group ctx []) htop
    | render other =>
        obtain ⟨group, hget, heq⟩ := Option.bind_eq_some_iff.1 htaken
        cases heq
        exact changes_put hget (.render group []) htop
  · exact ⟨top, htop, .keep top⟩

/-- A step lets a compiled group age, wherever it carries the group. -/
theorem ages_of_carries {step : WorkspaceStep} {first next : Address} {group : Group}
    (hat : workspace.at? first = some group) (hphase : group.phase ≠ .building)
    (hstep : workspace.Carries step first next) :
    ∃ later, (workspace.after step).at? next = some later ∧ group.Ages later := by
  obtain ⟨top, htop, hpath⟩ := Option.bind_eq_some_iff.1 hat
  cases hstep with
  | missed _ hnone =>
      refine ⟨group, ?_, .refl group⟩
      rw [after, hnone]
      exact hat
  | stays hname =>
      obtain ⟨top', htop', hchanges⟩ := changes_after hname htop
      obtain ⟨later, hlater, hages⟩ := hchanges.ages hpath hphase
      exact ⟨later, Option.bind_eq_some_iff.2 ⟨top', htop', hlater⟩, hages⟩
  | copied name source path =>
      have hafter : workspace.after (.copy name source) = workspace.put name top := by
        simp only [after, step, htop, bind, Option.bind, pure]
      refine ⟨group, Option.bind_eq_some_iff.2 ⟨top, ?_, hpath⟩, .refl group⟩
      rw [hafter, get?_put, if_pos rfl]
  | taken name source place path =>
      obtain ⟨middle, hplace, hrest⟩ := Group.at?_cons_iff.1 hpath
      have hafter : workspace.after (.copyNested name source place) =
          workspace.put name middle := by
        simp only [after, step, htop, hplace, bind, Option.bind, pure]
      refine ⟨group, Option.bind_eq_some_iff.2 ⟨middle, ?_, hrest⟩, .refl group⟩
      rw [hafter, get?_put, if_pos rfl]
  | @nested name child parent path hparent hstate =>
      have hafter : workspace.after (.nest name child) =
          (workspace.remove child).put name (parent.pushEntry (.nested top)) := by
        have hadd : parent.addGroup top = .ok (parent.pushEntry (.nested top)) := by
          rw [Group.addGroup, Group.ensureBuilding_eq_ok_iff.2 hstate]
          rfl
        simp only [after, step, htop, hparent, hadd, settle, bind, Option.bind, pure]
      refine ⟨group, Option.bind_eq_some_iff.2 ⟨parent.pushEntry (.nested top), ?_, ?_⟩,
        .refl group⟩
      · rw [hafter, get?_put, if_pos rfl]
      · refine Group.at?_cons_iff.2 ⟨top, ?_, hpath⟩
        rw [Group.entries_pushEntry, Group.size]
        simp

/-- A run lets a compiled group age, wherever it leads. -/
theorem ages_of_leads {steps : List WorkspaceStep} {first last : Address} {group : Group}
    (hat : workspace.at? first = some group) (hphase : group.phase ≠ .building)
    (hleads : workspace.Leads first steps last) :
    ∃ later, (workspace.run steps).at? last = some later ∧ group.Ages later := by
  induction hleads generalizing group with
  | nil => exact ⟨group, hat, .refl group⟩
  | cons hstep _ ih =>
      obtain ⟨middle, hmiddle, hfirst⟩ := ages_of_carries hat hphase hstep
      obtain ⟨later, hlater, hrest⟩ := ih hmiddle (hfirst.phase_ne_building hphase)
      rw [run_cons]
      exact ⟨later, hlater, hfirst.trans hrest⟩

end Workspace

/-! ## What stays -/

/-- What stays of a compiled group that has this text, whatever happens to it. -/
structure Group.FrozenAs (group later : Group) (text : String) : Prop where
  compiled : later.phase ≠ .building
  rendered : group.phase = .rendered → later.phase = .rendered
  /-- The conjunction, the keys and the entries are the same, but for the phases of groups. -/
  bare : later.bare = group.bare
  /-- So are the texts and the mappings of the groups in it. -/
  alike : later.Alike group
  needsDefaultBundle : later.needsDefaultBundle = group.needsDefaultBundle
  fieldMapping? : ∀ field, later.fieldMapping? field = group.fieldMapping? field
  addCondition : ∀ name value operator language,
    later.addCondition name value operator language = .error .alreadyCompiled
  addGroup : ∀ nested, later.addGroup nested = .error .alreadyCompiled
  compile : ∀ ctx trace, later.compile ctx trace = ⟨.ok (), later, trace ++ [.skipped]⟩
  calls : ∀ ctx trace, (later.compile ctx trace).trace.resolverCalls = trace.resolverCalls ∧
    (later.compile ctx trace).trace.escaperCalls = trace.escaperCalls
  render : ∀ trace, (later.render trace).result = .ok text

theorem Group.ensureBuilding_of_compiled {group : Group} (h : group.state ≠ .building) :
    group.ensureBuilding = .error .alreadyCompiled := by
  unfold ensureBuilding
  split
  · exact absurd ‹_› h
  · rfl

/-- A compiled group with a text is frozen while it ages. -/
theorem Group.Ages.frozenAs {group later : Group} (h : group.Ages later)
    (hphase : group.phase ≠ .building) {text : String}
    (htext : (group.render []).result = .ok text) : group.FrozenAs later text := by
  have hlater := h.phase_ne_building hphase
  have hstate := phase_ne_building_iff.1 hlater
  have hlook : later.look = group.look := Option.some.inj (h.alike [])
  have hcompile : ∀ ctx trace, later.compile ctx trace = ⟨.ok (), later, trace ++ [.skipped]⟩ :=
    compile_of_compiled hstate
  refine ⟨hlater, ?_, h.bare, h.alike, ?_, ?_, ?_, ?_, hcompile, ?_, ?_⟩
  · intro hrendered
    rcases h.phase with hsame | hdone
    · rw [hsame, hrendered]
    · exact hdone
  · have hneeds := congrArg Group.needsDefaultBundle h.bare
    simpa [Group.needsDefaultBundle] using hneeds
  · exact fun field => congrFun (congrArg Prod.snd hlook) field
  · intro name value operator language
    rw [Group.addCondition, ensureBuilding_of_compiled hstate]
    rfl
  · intro nested
    rw [Group.addGroup, ensureBuilding_of_compiled hstate]
    rfl
  · intro ctx trace
    rw [hcompile]
    simp [Trace.resolverCalls, Trace.escaperCalls]
  · intro trace
    rw [(later.render_steady trace []).1]
    exact (congrArg Prod.fst hlook).trans htext

/-- Whatever happens after a group has been compiled, the group is frozen wherever a run leads
it: it may only be rendered, it takes no further entries, compiling it asks nothing, and it and all
its copies have one text. -/
theorem Workspace.frozen_of_compiled {steps : List WorkspaceStep} {first : Address}
    {group : Group} (hat : (run {} steps).at? first = some group)
    (hphase : group.phase ≠ .building) :
    ∃ text, ∀ more last, (run {} steps).Leads first more last →
      ∃ later, ((run {} steps).run more).at? last = some later ∧ group.FrozenAs later text := by
  obtain ⟨top, htop, hpath⟩ := Option.bind_eq_some_iff.1 hat
  have hwithin := Group.within_of_at? hpath
  have hsettled : group.Everywhere Group.Settled := fun deep hdeep =>
    (Group.settled_invariant (Uses steps)).everywhere ⟨first.name, htop⟩ deep (hdeep.trans hwithin)
  obtain ⟨text, htext⟩ := Group.render_of_settled hsettled hphase []
  refine ⟨text, fun more last hleads => ?_⟩
  obtain ⟨later, hlater, hages⟩ := ages_of_leads hat hphase hleads
  exact ⟨later, hlater, hages.frozenAs hphase htext⟩

/-- The union of the sample group has been compiled.  A copy of it that is taken after the whole
has been rendered, and is rendered once more, has its text. -/
theorem Workspace.frozen_copy :
    ∃ group text later,
      (run {} (Sample.building ++ [.compile "page" Sample.context])).at? ⟨"page", [1]⟩ =
        some group ∧ group.phase = .compiled ∧
      (run {} (Sample.building ++ [.compile "page" Sample.context])).Leads ⟨"page", [1]⟩
        [.render "page", .copyNested "copy" "page" 1, .render "copy"] ⟨"copy", []⟩ ∧
      ((run {} (Sample.building ++ [.compile "page" Sample.context])).run
        [.render "page", .copyNested "copy" "page" 1, .render "copy"]).at? ⟨"copy", []⟩ =
          some later ∧ group.FrozenAs later text := by
  have hphase : ∃ group,
      (run {} (Sample.building ++ [.compile "page" Sample.context])).at? ⟨"page", [1]⟩ =
        some group ∧ group.phase = .compiled := ⟨_, rfl, rfl⟩
  obtain ⟨group, hat, hgroup⟩ := hphase
  have hleads : (run {} (Sample.building ++ [.compile "page" Sample.context])).Leads
      ⟨"page", [1]⟩ [.render "page", .copyNested "copy" "page" 1, .render "copy"]
      ⟨"copy", []⟩ :=
    .cons (.stays (by decide)) (.cons (.taken "copy" "page" 1 [])
      (.cons (.stays (by decide)) (.nil _ _)))
  obtain ⟨text, hfrozen⟩ := frozen_of_compiled hat (by simp [hgroup])
  obtain ⟨later, hlater, hlast⟩ := hfrozen _ _ hleads
  exact ⟨group, text, later, hat, hgroup, hleads, hlater, hlast⟩

end GraphCriteria
