import GraphCriteria.Proofs.Rendering
import GraphCriteria.Workspace

/-!
# What holds of every group that can be made

Groups are made, copied, built, compiled and rendered by the steps of a workspace, in any order,
and whatever fails.  A property of single groups that each of these operations keeps holds, at
every depth, of every group that any sequence of steps leads to.

Main results:

- Theorem `Workspace.step_keeps`: a step keeps what each operation on groups keeps.
- Theorem `Workspace.run_keeps`: so does every run.
- Theorem `Invariant.everywhere`: an invariant of single groups holds at every depth of every
  group that a run leads to.
-/

namespace GraphCriteria

/-! ## Accepted operations -/

/-- The leaves that building stores under these keys. -/
def EntityKeys.Stores (keys : EntityKeys) (leaf : Leaf) : Prop :=
  ∃ name value operator language,
    keys.leaf (baseField name) value operator language = .ok leaf

namespace Group

/-- An accepted condition becomes a leaf, or in a union a branch that holds this leaf. -/
theorem addCondition_ok {group later : Group} {name : String} {value : Option Value}
    {operator : Operator} {language : Option String}
    (h : group.addCondition name value operator language = .ok later) :
    group.state = .building ∧ ∃ leaf, group.keys.Stores leaf ∧
      (group.conjunction = .and ∧ later = group.pushLeaf leaf ∨
        group.conjunction = .or ∧
          later = group.pushEntry (.nested ((group.sibling .and).pushLeaf leaf))) := by
  unfold addCondition at h
  cases hbuilding : group.ensureBuilding with
  | error e => simp [hbuilding, bind, Except.bind] at h
  | ok _ =>
      cases hleaf : group.keys.leaf (baseField name) value operator language with
      | error e => simp [hbuilding, hleaf, bind, Except.bind] at h
      | ok leaf =>
          simp only [hbuilding, hleaf, bind, Except.bind, pure, Except.pure] at h
          refine ⟨ensureBuilding_eq_ok_iff.1 hbuilding, leaf, ⟨_, _, _, _, hleaf⟩, ?_⟩
          cases hconjunction : group.conjunction with
          | and =>
              rw [hconjunction] at h
              cases h
              exact .inl ⟨rfl, rfl⟩
          | or =>
              rw [hconjunction] at h
              cases h
              exact .inr ⟨rfl, rfl⟩

/-- An accepted group becomes the last entry. -/
theorem addGroup_ok {group inner later : Group} (h : group.addGroup inner = .ok later) :
    group.state = .building ∧ later = group.pushEntry (.nested inner) := by
  unfold addGroup at h
  cases hbuilding : group.ensureBuilding with
  | error e => simp [hbuilding, bind, Except.bind] at h
  | ok _ =>
      simp only [hbuilding, bind, Except.bind, pure, Except.pure, Except.ok.injEq] at h
      exact ⟨ensureBuilding_eq_ok_iff.1 hbuilding, h.symm⟩

end Group

/-! ## Runs of a workspace -/

namespace Workspace

/-- A run of steps from the empty workspace leads to a group. -/
def Reaches (steps : List WorkspaceStep) (group : Group) : Prop :=
  ∃ name, (run {} steps).get? name = some group

/-- A run compiles in a context. -/
def Uses (steps : List WorkspaceStep) (ctx : Context) : Prop :=
  ∃ name, .compile name ctx ∈ steps

/-- A property of all groups of a workspace. -/
def All (P : Group → Prop) (workspace : Workspace) : Prop :=
  ∀ name group, workspace.get? name = some group → P group

/-- A property that the operations of a run on groups keep. -/
structure Keeps (steps : List WorkspaceStep) (P : Group → Prop) : Prop where
  new : ∀ conjunction keys, P (Group.new conjunction keys)
  pushLeaf : ∀ group leaf, P group → group.state = .building → group.conjunction = .and →
    group.keys.Stores leaf → P (group.pushLeaf leaf)
  pushNested : ∀ group inner, P group → P inner → group.state = .building →
    P (group.pushEntry (.nested inner))
  nested : ∀ group inner, P group → .nested inner ∈ group.entries → P inner
  compile : ∀ group ctx, Uses steps ctx → P group → P (group.compile ctx []).left
  render : ∀ group, P group → P (group.render []).left

/-- A group that has been removed is no longer there, and all others are. -/
theorem get?_remove (workspace : Workspace) (removed name : String) :
    (workspace.remove removed).get? name =
      if name = removed then none else workspace.get? name := by
  obtain ⟨groups⟩ := workspace
  simp only [remove, get?]
  induction groups with
  | nil => simp [lookupEntry]
  | cons entry groups ih =>
      by_cases hentry : entry.1 = removed
      · rw [List.filter_cons_of_neg (by simp [hentry]), ih]
        by_cases hname : name = removed
        · rw [if_pos hname, if_pos hname]
        · rw [if_neg hname, if_neg hname, lookupEntry, if_neg (by rw [hentry]; exact hname)]
      · rw [List.filter_cons_of_pos (by simp [hentry]), lookupEntry, lookupEntry, ih]
        by_cases hname : name = entry.1
        · rw [if_pos hname, if_pos hname, if_neg (by rw [hname]; exact hentry)]
        · rw [if_neg hname, if_neg hname]

/-- A group that has been put under a name is found there, and all others are as before. -/
theorem get?_put (workspace : Workspace) (name other : String) (group : Group) :
    (workspace.put name group).get? other =
      if other = name then some group else (workspace.remove name).get? other :=
  rfl

/-- What holds of all groups holds of those that are left. -/
theorem All.remove {P : Group → Prop} {workspace : Workspace} (h : workspace.All P)
    (name : String) : (workspace.remove name).All P := by
  intro other group hget
  rw [get?_remove] at hget
  split at hget
  · cases hget
  · exact h other group hget

/-- It holds of all groups after one more, if it holds of that one. -/
theorem All.put {P : Group → Prop} {workspace : Workspace} (h : workspace.All P) {name : String}
    {group : Group} (hgroup : P group) : (workspace.put name group).All P := by
  intro other found hget
  rw [get?_put] at hget
  split at hget
  · cases hget
    exact hgroup
  · exact h.remove name other found hget

/-- Settling a step that may have failed adds the group that it has built, if there is one. -/
theorem All.settle {P : Group → Prop} {workspace : Workspace} (h : workspace.All P)
    {name : String} {built : Except ConditionError Group}
    (hbuilt : ∀ group, built = .ok group → P group) :
    (workspace.settle name built).left.All P := by
  cases built with
  | ok group => exact h.put (hbuilt group rfl)
  | error e => exact h

/-- Adding a condition keeps what the operations on groups keep. -/
theorem Keeps.addCondition {steps : List WorkspaceStep} {P : Group → Prop} (keeps : Keeps steps P)
    {group later : Group} {name : String} {value : Option Value} {operator : Operator}
    {language : Option String} (hgroup : P group)
    (h : group.addCondition name value operator language = .ok later) : P later := by
  obtain ⟨hstate, leaf, hleaf, ⟨hand, rfl⟩ | ⟨_, rfl⟩⟩ := Group.addCondition_ok h
  · exact keeps.pushLeaf group leaf hgroup hstate hand hleaf
  · refine keeps.pushNested _ _ hgroup ?_ hstate
    exact keeps.pushLeaf _ leaf (keeps.new _ _) rfl rfl hleaf

/-- A step keeps what each operation on groups keeps. -/
theorem step_keeps {steps : List WorkspaceStep} {P : Group → Prop} (keeps : Keeps steps P)
    {workspace : Workspace} (h : workspace.All P) {step : WorkspaceStep} (hstep : step ∈ steps)
    {outcome : Outcome Workspace (Option String)} (htaken : workspace.step step = some outcome) :
    outcome.left.All P := by
  cases step with
  | make name conjunction keys =>
      cases htaken
      exact h.put (keeps.new conjunction keys)
  | makeSibling name source conjunction =>
      obtain ⟨group, hget, heq⟩ := Option.bind_eq_some_iff.1 htaken
      cases heq
      exact h.put (keeps.new conjunction group.keys)
  | copy name source =>
      obtain ⟨group, hget, heq⟩ := Option.bind_eq_some_iff.1 htaken
      cases heq
      exact h.put (h source group hget)
  | copyNested name source place =>
      obtain ⟨group, hget, heq⟩ := Option.bind_eq_some_iff.1 htaken
      obtain ⟨entry, hplace, heq⟩ := Option.bind_eq_some_iff.1 heq
      cases entry with
      | leaf own => cases heq
      | nested inner =>
          cases heq
          exact h.put (keeps.nested group inner (h source group hget)
            (List.mem_of_getElem? hplace))
  | add name field value operator language =>
      obtain ⟨group, hget, heq⟩ := Option.bind_eq_some_iff.1 htaken
      cases heq
      refine h.settle fun later hlater => ?_
      cases hoperator : Operator.ofName operator with
      | error e =>
          rw [hoperator] at hlater
          cases hlater
      | ok op =>
          rw [hoperator] at hlater
          exact keeps.addCondition (h name group hget) hlater
  | addEqual name field value =>
      obtain ⟨group, hget, heq⟩ := Option.bind_eq_some_iff.1 htaken
      cases heq
      exact h.settle fun later hlater => keeps.addCondition (h name group hget) hlater
  | addPresent name field =>
      obtain ⟨group, hget, heq⟩ := Option.bind_eq_some_iff.1 htaken
      cases heq
      exact h.settle fun later hlater => keeps.addCondition (h name group hget) hlater
  | addAbsent name field =>
      obtain ⟨group, hget, heq⟩ := Option.bind_eq_some_iff.1 htaken
      cases heq
      exact h.settle fun later hlater => keeps.addCondition (h name group hget) hlater
  | nest name child =>
      obtain ⟨inner, hinner, heq⟩ := Option.bind_eq_some_iff.1 htaken
      obtain ⟨group, hget, heq⟩ := Option.bind_eq_some_iff.1 heq
      cases heq
      refine (h.remove child).settle fun later hlater => ?_
      obtain ⟨hstate, rfl⟩ := Group.addGroup_ok hlater
      exact keeps.pushNested group inner (h.remove child name group hget) (h child inner hinner)
        hstate
  | compile name ctx =>
      obtain ⟨group, hget, heq⟩ := Option.bind_eq_some_iff.1 htaken
      cases heq
      exact h.put (keeps.compile group ctx ⟨name, hstep⟩ (h name group hget))
  | render name =>
      obtain ⟨group, hget, heq⟩ := Option.bind_eq_some_iff.1 htaken
      cases heq
      exact h.put (keeps.render group (h name group hget))

/-- A run keeps what each operation on groups keeps. -/
theorem run_keeps {steps : List WorkspaceStep} {P : Group → Prop} (keeps : Keeps steps P)
    {group : Group} (h : Reaches steps group) : P group := by
  have hrun : ∀ rest, (∀ step ∈ rest, step ∈ steps) → ∀ workspace : Workspace,
      workspace.All P → (workspace.run rest).All P := by
    intro rest
    induction rest with
    | nil =>
        intro _ workspace hall
        exact hall
    | cons step rest ih =>
        intro hrest workspace hall
        have ihrest := ih fun later hlater => hrest later (by simp [hlater])
        rw [run]
        split
        · rename_i outcome htaken
          exact ihrest _ (step_keeps keeps hall (hrest step (by simp)) htaken)
        · exact ihrest _ hall
  obtain ⟨name, hget⟩ := h
  refine hrun steps (fun step hstep => hstep) {} ?_ name group hget
  intro other found hfound
  cases hfound

end Workspace

/-- A group that some run of steps leads to. -/
def Group.Reachable (group : Group) : Prop :=
  ∃ steps, Workspace.Reaches steps group

/-! ## A small run -/

namespace Sample

/-- Nodes have an id, a bundle and a label. -/
def keys : EntityKeys :=
  ⟨"nid", "type", some "title"⟩

/-- Titles of nodes have one predicate and their tags have two. -/
def table : MappingTable :=
  (MappingTable.empty.insert "node" "title" ["<title>"]).insert "node" "tag" ["<tag>", "<topic>"]

/-- The context of nodes. -/
def context : Context where
  entityType := "node"
  resolver := table.resolver

/-- Nodes with a given title that have a tag or one of two ids. -/
def building : List WorkspaceStep :=
  [.make "page" .and keys,
    .add "page" "title" (some (.single "'home'")) "=" none,
    .makeSibling "some" "page" .or,
    .addPresent "some" "tag",
    .add "some" "nid" (some (.list ["1", "2"])) "IN" none,
    .nest "page" "some"]

/-- Build the group, then compile and render it. -/
def steps : List WorkspaceStep :=
  building ++ [.compile "page" context, .render "page"]

/-- The group when it is built. -/
def page : Group :=
  ((Workspace.run {} building).get? "page").getD default

/-- The group when it is rendered. -/
def renderedPage : Group :=
  ((Workspace.run {} steps).get? "page").getD default

end Sample

/-! ## Invariants of single groups -/

/-- A property of single groups that each operation keeps, where compiling is done in certain
contexts only.  Compiling and rendering may change the nested groups of a group as well. -/
structure Invariant (used : Context → Prop) (Q : Group → Prop) : Prop where
  new : ∀ conjunction keys, Q (Group.new conjunction keys)
  pushLeaf : ∀ group leaf, Q group → group.state = .building → group.conjunction = .and →
    group.keys.Stores leaf → Q (group.pushLeaf leaf)
  pushNested : ∀ group inner, Q group → group.state = .building →
    Q (group.pushEntry (.nested inner))
  stop : ∀ (group : Group) (ctx : Context) (subject : String) (trace : Trace), Q group →
    group.state = .building → Q (group.withEntries (group.walk ctx subject trace).left)
  finish : ∀ (group : Group) (ctx : Context) (subject : String) (trace : Trace) (draft : Draft)
    (triple? : Option Triple), used ctx → Q group → group.state = .building →
    Variable.ofName ctx.options.subjectVariable = .ok subject →
    (group.walk ctx subject trace).result = .ok draft →
    group.defaultBundle ctx subject = .ok triple? →
    (∀ inner, .nested inner ∈ (group.walk ctx subject trace).left → Q inner) →
    Q (group.withPlan (group.walk ctx subject trace).left (draft.finish triple?))
  fail : ∀ (group : Group) (plan : Plan), Q group → group.state = .compiled plan →
    Q (group.withEntries (group.entries.map Entry.rendered))
  render : ∀ (group : Group) (plan : Plan) (text : String), Q group →
    group.state = .compiled plan →
    plan.text group.conjunction (Entry.textAt group.entries) = .ok text →
    Q (group.withText (group.entries.map Entry.rendered) plan text)

/-- Compiling keeps an invariant at every depth. -/
theorem Invariant.compile {used : Context → Prop} {Q : Group → Prop}
    (invariant : Invariant used Q) {ctx : Context} (hused : used ctx) {group : Group}
    (h : group.Everywhere Q) (trace : Trace) : (group.compile ctx trace).left.Everywhere Q :=
  Group.everywhere_compile (fun group => invariant.stop group ctx)
    (fun group subject trace draft triple? => invariant.finish group ctx subject trace draft
      triple? hused) h trace

/-- Appending a leaf keeps an invariant at every depth. -/
theorem Invariant.everywhere_pushLeaf {used : Context → Prop} {Q : Group → Prop}
    (invariant : Invariant used Q) {group : Group} {leaf : Leaf} (h : group.Everywhere Q)
    (hstate : group.state = .building) (hand : group.conjunction = .and)
    (hleaf : group.keys.Stores leaf) : (group.pushLeaf leaf).Everywhere Q := by
  refine Group.everywhere_iff.2 ⟨invariant.pushLeaf group leaf h.self hstate hand hleaf, ?_⟩
  intro inner hinner
  exact h.nested (by simpa using hinner)

/-- So does appending a group. -/
theorem Invariant.everywhere_pushNested {used : Context → Prop} {Q : Group → Prop}
    (invariant : Invariant used Q) {group inner : Group} (h : group.Everywhere Q)
    (hinner : inner.Everywhere Q) (hstate : group.state = .building) :
    (group.pushEntry (.nested inner)).Everywhere Q := by
  refine Group.everywhere_iff.2 ⟨invariant.pushNested group inner h.self hstate, ?_⟩
  intro other hother
  rw [Group.entries_pushEntry, List.mem_append, List.mem_singleton] at hother
  rcases hother with hmem | heq
  · exact h.nested hmem
  · cases heq
    exact hinner

/-- An empty group has an invariant at every depth. -/
theorem Invariant.everywhere_new {used : Context → Prop} {Q : Group → Prop}
    (invariant : Invariant used Q) (conjunction : Conjunction) (keys : EntityKeys) :
    (Group.new conjunction keys).Everywhere Q :=
  Group.everywhere_iff.2 ⟨invariant.new conjunction keys, fun inner hinner => by cases hinner⟩

/-- The operations of a run keep an invariant at every depth. -/
theorem Invariant.keeps {steps : List WorkspaceStep} {Q : Group → Prop}
    (invariant : Invariant (Workspace.Uses steps) Q) :
    Workspace.Keeps steps (Group.Everywhere Q) where
  new := invariant.everywhere_new
  pushLeaf _ _ h := invariant.everywhere_pushLeaf h
  pushNested _ _ h := invariant.everywhere_pushNested h
  nested _ _ h hinner := h.nested hinner
  compile _ _ hused h := invariant.compile hused h []
  render _ h := Group.everywhere_render invariant.fail invariant.render h []

/-- An invariant of single groups holds at every depth of every group that a run leads to. -/
theorem Invariant.everywhere {steps : List WorkspaceStep} {Q : Group → Prop}
    (invariant : Invariant (Workspace.Uses steps) Q) {group : Group}
    (h : Workspace.Reaches steps group) : group.Everywhere Q :=
  Workspace.run_keeps invariant.keeps h

/-! ## Groups that operations make -/

namespace Group

/-- What all operations keep holds at every depth of a tree. -/
def Built (group : Group) : Prop :=
  ∀ Q, Invariant (fun _ => True) Q → group.Everywhere Q

/-- Whatever a run leads to has been built. -/
theorem Reachable.built {group : Group} (h : group.Reachable) : group.Built := by
  obtain ⟨steps, hsteps⟩ := h
  intro Q hQ
  have hused : Invariant (Workspace.Uses steps) Q :=
    { hQ with
      finish := fun group ctx subject trace draft triple? _ =>
        hQ.finish group ctx subject trace draft triple? trivial }
  exact hused.everywhere hsteps

namespace Built

variable {group inner : Group}

/-- An empty group has been built. -/
theorem new (conjunction : Conjunction) (keys : EntityKeys) :
    (Group.new conjunction keys).Built :=
  fun _ hQ => hQ.everywhere_new conjunction keys

/-- A leaf of its own may be added to a group that joins by AND. -/
theorem pushLeaf {leaf : Leaf} (h : group.Built) (hstate : group.state = .building)
    (hand : group.conjunction = .and) (hleaf : group.keys.Stores leaf) :
    (group.pushLeaf leaf).Built :=
  fun Q hQ => hQ.everywhere_pushLeaf (h Q hQ) hstate hand hleaf

/-- A nested group may be added to any group that is being built. -/
theorem pushNested (h : group.Built) (hinner : inner.Built) (hstate : group.state = .building) :
    (group.pushEntry (.nested inner)).Built :=
  fun Q hQ => hQ.everywhere_pushNested (h Q hQ) (hinner Q hQ) hstate

theorem compile (h : group.Built) (ctx : Context) (trace : Trace) :
    (group.compile ctx trace).left.Built :=
  fun Q hQ => hQ.compile trivial (h Q hQ) trace

/-- The nested groups of what has been built have been built as well. -/
theorem nested (h : group.Built) (hinner : .nested inner ∈ group.entries) : inner.Built :=
  fun Q hQ => (h Q hQ).nested hinner

end Built

end Group

end GraphCriteria
