import GraphCriteria.Proofs.Frozen

/-!
# Groups compiled before they are nested

A group may be compiled, and even rendered, before it becomes part of another one.  Where the
context is functional and is the one in which the other group is compiled, this plays no part: the
plan and the text that the group brings along are those that it would get in its place.

Main results:

- Theorem `Group.CompilesLike.nested`: what compiles like a nested group can stand in its place.
- Theorem `Group.EarlyStep.compilesLike`: a group that is compiled or rendered early, at any depth,
  compiles like before.
- Theorem `Group.compile_early`: so does a group of which any part has been compiled or rendered
  early.
-/

namespace GraphCriteria

namespace Group

/-! ## Groups that compile alike -/

/-- Compiling one of two groups gives the result of the other, and on success trees that cannot be
told apart. -/
def CompilesLike (ctx : Context) (a b : Group) : Prop :=
  ∀ s t, (a.compile ctx s).result = (b.compile ctx t).result ∧
    ((b.compile ctx t).result = .ok () → (a.compile ctx s).left.Alike (b.compile ctx t).left)

namespace CompilesLike

variable {ctx : Context} {a b c : Group}

theorem refl (hctx : ctx.Functional) (group : Group) : group.CompilesLike ctx group := by
  intro s t
  obtain ⟨hresult, hleft⟩ := group.compile_steady hctx s t
  refine ⟨hresult, fun _ path => ?_⟩
  rw [hleft]

theorem trans (hab : a.CompilesLike ctx b) (hbc : b.CompilesLike ctx c) : a.CompilesLike ctx c := by
  intro s t
  obtain ⟨hfirst, hlike⟩ := hab s []
  obtain ⟨hsecond, hlike'⟩ := hbc [] t
  refine ⟨hfirst.trans hsecond, fun hok path => ?_⟩
  exact (hlike (hsecond.trans hok) path).trans (hlike' hok path)

/-- What compiles like the nested groups of a group can stand in their places. -/
theorem of_paired (hctx : ctx.Functional) {group : Group} (hstate : group.state = .building)
    {entries : List Entry} (h : Entry.Paired (CompilesLike ctx) group.entries entries) :
    group.CompilesLike ctx (group.withEntries entries) := by
  have hresults : Entry.Paired (fun a b => ∀ s t, AgreeUnless (fun _ => False)
      (a.compile ctx t).result (b.compile ctx s).result) group.entries entries :=
    h.mono fun a b hlike s t => .inl (hlike t s).1
  have hgroups := h.mono fun a b hlike s t => (hlike t s).2
  intro s t
  constructor
  · rcases compile_paired hctx hstate hresults t s with hsame | ⟨_, _, hfalse⟩
    · exact hsame
    · exact hfalse.elim
  · intro hok
    have hstateOther : (group.withEntries entries).state = .building := hstate
    obtain ⟨subject, draft, triple?, hsubject, hother, hbundle, hleftOther⟩ :=
      compile_ok hstateOther hok
    have hwalk : (group.walk ctx subject s).result = .ok draft :=
      (walk_paired hctx hresults subject t s).eq_ok hother
    -- Both walks give the same draft, so the plans are the same.
    rw [compile_eq_of_walk hstate hsubject hwalk hbundle, hleftOther]
    exact alike_walk hwalk hother hgroups _

/-- What compiles like a nested group can stand in its place. -/
theorem nested (hctx : ctx.Functional) {group : Group} (hstate : group.state = .building)
    {place : Nat} (hplace : group.entries[place]? = some (.nested a))
    (h : a.CompilesLike ctx b) :
    group.CompilesLike ctx (group.withEntries (group.entries.set place (.nested b))) :=
  of_paired hctx hstate (Entry.paired_set (refl hctx) hplace h)

end CompilesLike

/-! ## Early steps -/

/-- A group, or some group in it that still stands on its own, is compiled or rendered. -/
inductive EarlyStep (ctx : Context) : Group → Group → Prop where
  | compile (group : Group) (trace : Trace) (hok : (group.compile ctx trace).result = .ok ()) :
      EarlyStep ctx group (group.compile ctx trace).left
  | render (group : Group) (trace : Trace) (hphase : group.phase ≠ .building) :
      EarlyStep ctx group (group.render trace).left
  | nested {group inner later : Group} {place : Nat} (hstate : group.state = .building)
      (hplace : group.entries[place]? = some (.nested inner)) (hstep : EarlyStep ctx inner later) :
      EarlyStep ctx group (group.withEntries (group.entries.set place (.nested later)))

/-- Early steps in a row. -/
inductive Early (ctx : Context) : Group → Group → Prop where
  | refl (group : Group) : Early ctx group group
  | step {group middle later : Group} (hfirst : Early ctx group middle)
      (hstep : EarlyStep ctx middle later) : Early ctx group later

/-- What has been compiled or rendered early may be nested afterwards. -/
theorem Early.pushNested {ctx : Context} {inner later : Group} (h : inner.Early ctx later)
    {group : Group} (hstate : group.state = .building) :
    (group.pushEntry (.nested inner)).Early ctx (group.pushEntry (.nested later)) := by
  induction h with
  | refl => exact .refl _
  | @step middle later _ hstep ih =>
      have hplace : (group.pushEntry (.nested middle)).entries[group.size]? =
          some (.nested middle) := by
        simp [size]
      have hpush : (group.pushEntry (.nested middle)).state = .building := hstate
      have hlast := EarlyStep.nested hpush hplace hstep
      have hset : (group.pushEntry (.nested middle)).entries.set group.size (.nested later) =
          group.entries ++ [.nested later] := by
        simp [size]
      rw [hset] at hlast
      exact .step ih hlast

/-- A group that is compiled or rendered early, at any depth, compiles like before. -/
theorem EarlyStep.compilesLike {ctx : Context} (hctx : ctx.Functional) {group later : Group}
    (h : group.EarlyStep ctx later) : group.CompilesLike ctx later := by
  induction h with
  | compile group trace hok =>
      intro s t
      obtain ⟨hresult, hleft⟩ := group.compile_steady hctx s trace
      rw [compile_of_compiled (state_compile hok), hresult, hok, hleft]
      exact ⟨rfl, fun _ _ => rfl⟩
  | render group trace hphase =>
      intro s t
      have hlater := phase_ne_building_iff.1
        ((ages_render group trace).phase_ne_building hphase)
      rw [compile_of_compiled (phase_ne_building_iff.1 hphase), compile_of_compiled hlater]
      exact ⟨rfl, fun _ path => (alike_render group trace path).symm⟩
  | nested hstate hplace _ ih => exact .nested hctx hstate hplace ih

/-- A group of which any part has been compiled or rendered early in a functional context, in any
order, gives the same result when it is compiled in this context, and on success a tree in which
the texts and the mappings at all depths are the same. -/
theorem compile_early {ctx : Context} (hctx : ctx.Functional) {group early : Group}
    (h : group.Early ctx early) (s t : Trace) :
    (early.compile ctx t).result = (group.compile ctx s).result ∧
      ((group.compile ctx s).result = .ok () →
        (early.compile ctx t).left.Alike (group.compile ctx s).left) := by
  have hlike : group.CompilesLike ctx early := by
    induction h with
    | refl => exact .refl hctx _
    | step _ hstep ih => exact ih.trans (hstep.compilesLike hctx)
  obtain ⟨hresult, halike⟩ := hlike s t
  refine ⟨hresult.symm, fun hok path => ?_⟩
  exact (halike (hresult.symm.trans hok) path).symm

end Group

/-! ## A small case -/

namespace Sample

/-- The union of the sample group is compiled and rendered before it is nested. -/
def earlyPage : Group :=
  ((Workspace.run {}
    [.make "page" .and keys, .add "page" "title" (some (.single "'home'")) "=" none,
      .makeSibling "some" "page" .or, .addPresent "some" "tag",
      .add "some" "nid" (some (.list ["1", "2"])) "IN" none, .compile "some" context,
      .render "some", .nest "page" "some"]).get? "page").getD default

theorem early_earlyPage : page.Early context earlyPage := by
  have hunion : ∃ outer inner : Group, outer.state = .building ∧
      page = outer.pushEntry (.nested inner) ∧ (inner.compile context []).result = .ok () ∧
      earlyPage =
        outer.pushEntry (.nested ((inner.compile context []).left.render []).left) :=
    ⟨((Workspace.run {} (building.take 2)).get? "page").getD default,
      ((Workspace.run {} (building.take 5)).get? "some").getD default, rfl, rfl, rfl, rfl⟩
  obtain ⟨outer, inner, hstate, hpage, hok, hearly⟩ := hunion
  have hcompiled : inner.Early context (inner.compile context []).left :=
    .step (.refl inner) (.compile inner [] hok)
  rw [hpage, hearly]
  refine (hcompiled.step (.render _ [] ?_)).pushNested hstate
  exact Group.phase_ne_building_iff.2 (Group.state_compile hok)

end Sample

/-- The sample group compiles to the same tree whether its union has been rendered before it was
nested or not. -/
theorem Group.compile_earlyPage :
    Sample.context.Functional ∧ Sample.page.Early Sample.context Sample.earlyPage ∧
      (Sample.earlyPage.at? [1]).map phase = some .rendered ∧
      (Sample.page.at? [1]).map phase = some .building ∧
      (Sample.page.compile Sample.context []).result = .ok () ∧
      (Sample.earlyPage.compile Sample.context []).result = .ok () ∧
      (Sample.earlyPage.compile Sample.context []).left.Alike
        (Sample.page.compile Sample.context []).left := by
  have hctx : Sample.context.Functional := Context.functional_of_table "node" Sample.table {}
  have hok : (Sample.page.compile Sample.context []).result = .ok () := rfl
  obtain ⟨hresult, halike⟩ := compile_early hctx Sample.early_earlyPage [] []
  exact ⟨hctx, Sample.early_earlyPage, rfl, rfl, hok, hresult.trans hok, halike hok⟩

end GraphCriteria
