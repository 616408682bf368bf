import GraphCriteria.Proofs.Phases

/-!
# Compiling again after a failure

A compile that fails keeps the plans of the nested groups that it has finished by then.  Later
compiles skip these groups, whatever their own context is.  So a later compile reports nothing
about them, and what it leaves looks like a compiled copy exactly when they look as the new
context has them.

Main results:

- Theorem `Group.result_compile_bare`: a later compile gives the result of a copy, unless the
  copy fails in a group that was kept.
- Theorem `Group.result_compile_hollow`: it gives the result of a copy whose kept groups are empty.
- Theorem `Group.alike_compile_bare`: where the kept groups look as the context has them, the
  whole tree does.
- Theorem `Group.compile_after_failures`: when failures leave no trace on a later compile.
- Theorem `Group.mixed_after_failure`: they leave one in a small tree, which mixes two contexts.
-/

namespace GraphCriteria

/-! ## What can be seen of a tree -/

namespace Group

/-- What can be seen of a group: its text and the mappings of its fields. -/
def look (group : Group) : Except ConditionError String × (String → Option FieldMapping) :=
  ((group.render []).result, group.fieldMapping?)

/-- Two trees that cannot be told apart at any depth. -/
def Alike (a b : Group) : Prop :=
  ∀ path, (a.at? path).map look = (b.at? path).map look

/-- A group within a tree that is no longer being built. -/
def KeptIn (kept group : Group) : Prop :=
  kept.Within group ∧ kept.phase ≠ .building

/-- Compiling a group fails in one context after another and leaves a group. -/
inductive FailsThrough : Group → List Context → Group → Prop where
  | nil (group : Group) : FailsThrough group [] group
  | cons {group later : Group} {ctx : Context} {contexts : List Context} {e : ConditionError}
      {trace : Trace} (hfail : (group.compile ctx trace).result = .error e)
      (hrest : FailsThrough (group.compile ctx trace).left contexts later) :
      FailsThrough group (ctx :: contexts) later

/-- The original of some kept group fails in a context. -/
def KeptFails (group : Group) (ctx : Context) (e : ConditionError) : Prop :=
  ∃ kept : Group, kept.KeptIn group ∧ ∀ trace, (kept.bare.compile ctx trace).result = .error e

/-- What is kept in a nested group is kept in the group around it. -/
theorem KeptIn.nested {kept inner group : Group} (h : kept.KeptIn inner)
    (hinner : .nested inner ∈ group.entries) : kept.KeptIn group :=
  ⟨.nested hinner h.1, h.2⟩

/-- The same for a kept group that fails. -/
theorem KeptFails.nested {inner group : Group} {ctx : Context} {e : ConditionError}
    (h : inner.KeptFails ctx e) (hinner : .nested inner ∈ group.entries) :
    group.KeptFails ctx e := by
  obtain ⟨kept, hkept, hfails⟩ := h
  exact ⟨kept, hkept.nested hinner, hfails⟩

end Group

mutual

/-- A tree in which the groups that are no longer being built have lost their entries. -/
def Group.hollow (group : Group) : Group :=
  match group with
  | ⟨conjunction, keys, entries, lacksBundle, .building⟩ =>
    ⟨conjunction, keys, Entry.hollowAll entries, lacksBundle, .building⟩
  | ⟨_, keys, _, _, _⟩ => Group.new .or keys

/-- Entries in which the groups that are no longer being built have lost their entries. -/
def Entry.hollowAll (entries : List Entry) : List Entry :=
  match entries with
  | [] => []
  | .leaf leaf :: rest => .leaf leaf :: Entry.hollowAll rest
  | .nested group :: rest => .nested group.hollow :: Entry.hollowAll rest

end

/-! ## Nested groups replaced -/

/-- An entry with another group in the place of a nested one. -/
def Entry.replace (f : Group → Group) : Entry → Entry
  | .leaf own => .leaf own
  | .nested inner => .nested (f inner)

/-- Entries are made bare one by one. -/
theorem Entry.bareAll_eq_map (entries : List Entry) :
    bareAll entries = entries.map (replace Group.bare) := by
  induction entries with
  | nil => rfl
  | cons entry rest ih => cases entry <;> rw [bareAll, List.map_cons, replace, ih]

/-- So are they made hollow. -/
theorem Entry.hollowAll_eq_map (entries : List Entry) :
    hollowAll entries = entries.map (replace Group.hollow) := by
  induction entries with
  | nil => rw [hollowAll, List.map_nil]
  | cons entry rest ih => cases entry <;> rw [hollowAll, List.map_cons, replace, ih]

/-- The same outcome, unless the second is one of some errors. -/
def AgreeUnless {α : Type} (excused : ConditionError → Prop)
    (a b : Except ConditionError α) : Prop :=
  a = b ∨ ∃ e, b = .error e ∧ excused e

/-- More excuses leave two outcomes in agreement. -/
theorem AgreeUnless.mono {α : Type} {excused more : ConditionError → Prop}
    {a b : Except ConditionError α} (h : AgreeUnless excused a b)
    (hmore : ∀ e, excused e → more e) : AgreeUnless more a b := by
  rcases h with hsame | ⟨e, hfails, hexcused⟩
  · exact .inl hsame
  · exact .inr ⟨e, hfails, hmore e hexcused⟩

/-- Only failures are excused: if the second outcome is a success, the first is the same. -/
theorem AgreeUnless.eq_ok {α : Type} {excused : ConditionError → Prop}
    {a b : Except ConditionError α} (h : AgreeUnless excused a b) {value : α}
    (hok : b = .ok value) : a = .ok value := by
  rcases h with hsame | ⟨e, hfails, _⟩
  · rw [hsame, hok]
  · rw [hok] at hfails
    cases hfails

/-- Two lists of entries that differ in their nested groups only, and these are related. -/
inductive Entry.Paired (R : Group → Group → Prop) : List Entry → List Entry → Prop where
  | nil : Paired R [] []
  | leaf (own : Leaf) {es fs : List Entry} (hrest : Paired R es fs) :
      Paired R (.leaf own :: es) (.leaf own :: fs)
  | nested {a b : Group} {es fs : List Entry} (hgroup : R a b) (hrest : Paired R es fs) :
      Paired R (.nested a :: es) (.nested b :: fs)

namespace Entry

variable {R : Group → Group → Prop} {es fs : List Entry}

/-- Replacing every nested group pairs the entries with what they are replaced by. -/
theorem paired_replace {f : Group → Group} (h : ∀ inner, .nested inner ∈ es → R inner (f inner)) :
    Paired R es (es.map (replace f)) := by
  induction es with
  | nil => exact .nil
  | cons entry rest ih =>
      have hrest := ih fun inner hinner => h inner (List.mem_cons_of_mem _ hinner)
      cases entry with
      | leaf own => exact .leaf own hrest
      | nested inner => exact .nested (h inner List.mem_cons_self) hrest

/-- Entries pair with themselves. -/
theorem Paired.refl (hR : ∀ group, R group group) (entries : List Entry) :
    Paired R entries entries := by
  induction entries with
  | nil => exact .nil
  | cons entry rest ih =>
      cases entry with
      | leaf own => exact .leaf own ih
      | nested inner => exact .nested (hR inner) ih

/-- They pair with those where one nested group has been exchanged. -/
theorem paired_set (hR : ∀ group, R group group) {place : Nat} {a b : Group}
    (hplace : es[place]? = some (.nested a)) (h : R a b) :
    Paired R es (es.set place (.nested b)) := by
  induction es generalizing place with
  | nil => cases hplace
  | cons entry rest ih =>
      cases place with
      | zero =>
          cases hplace
          exact .nested h (.refl hR rest)
      | succ place =>
          cases entry with
          | leaf own => exact .leaf own (ih hplace)
          | nested inner => exact .nested (hR inner) (ih hplace)

/-- Groups may be related in any way that follows. -/
theorem Paired.mono {S : Group → Group → Prop} (h : Paired R es fs) (hRS : ∀ a b, R a b → S a b) :
    Paired S es fs := by
  induction h with
  | nil => exact .nil
  | leaf own _ ih => exact .leaf own ih
  | nested hgroup _ ih => exact .nested (hRS _ _ hgroup) ih

/-- Paired entries have related groups at the same places. -/
theorem Paired.getElem? (h : Paired R es fs) {place : Nat} {a : Group}
    (hplace : es[place]? = some (.nested a)) : ∃ b, fs[place]? = some (.nested b) ∧ R a b := by
  induction h generalizing place with
  | nil => cases hplace
  | leaf own _ ih =>
      cases place with
      | zero => cases hplace
      | succ place => exact ih hplace
  | nested hgroup _ ih =>
      cases place with
      | zero =>
          cases hplace
          exact ⟨_, rfl, hgroup⟩
      | succ place => exact ih hplace

/-- So they have nested groups at the same places. -/
theorem Paired.isNestedAt_eq (h : Paired R es fs) : isNestedAt es = isNestedAt fs := by
  funext place
  induction h generalizing place with
  | nil => rfl
  | leaf own _ ih | nested _ _ ih =>
      cases place with
      | zero => rfl
      | succ place => exact ih place

/-- A walk gives the same result when nested groups are replaced by others with the same
results. -/
theorem compileAll_paired {ctx : Context} (hctx : ctx.Functional)
    {excused : ConditionError → Prop}
    (h : Paired (fun a b => ∀ s t,
      AgreeUnless excused (a.compile ctx t).result (b.compile ctx s).result) es fs)
    (keys : EntityKeys) (subject : String) (index : Nat) (draft : Draft) (s t : Trace) :
    AgreeUnless excused (compileAll ctx keys subject es index draft t).result
      (compileAll ctx keys subject fs index draft s).result := by
  induction h generalizing index draft s t with
  | nil =>
      left
      rw [compileAll, compileAll]
  | leaf own _ ih =>
      rw [compileAll, compileAll]
      rcases (Leaf.compile_steady hctx own keys subject draft).cases s t with
        ⟨e, s', t', hs, ht⟩ | ⟨next, s', t', hs, ht⟩
      · rw [hs, ht]
        exact .inl rfl
      · rw [hs, ht]
        exact ih (index + 1) next s' t'
  | @nested a b _ _ hgroup _ ih =>
      rw [compileAll, compileAll]
      dsimp only
      rcases hgroup s t with hsame | ⟨e, hfails, hexcused⟩
      · rw [hsame]
        cases hresult : (b.compile ctx s).result with
        | error e => exact .inl rfl
        | ok _ => exact ih (index + 1) (draft.addNested index) _ _
      · rw [hfails]
        exact .inr ⟨e, rfl, hexcused⟩

end Entry

namespace Group

/-- The same holds of the walk over a group. -/
theorem walk_paired {ctx : Context} (hctx : ctx.Functional) {excused : ConditionError → Prop}
    {group : Group} {entries : List Entry}
    (h : Entry.Paired (fun a b => ∀ s t,
      AgreeUnless excused (a.compile ctx t).result (b.compile ctx s).result) group.entries entries)
    (subject : String) (s t : Trace) :
    AgreeUnless excused (group.walk ctx subject t).result
      ((group.withEntries entries).walk ctx subject s).result :=
  Entry.compileAll_paired hctx h group.keys subject 0 {} _ _

/-- The same holds of a group that is being built. -/
theorem compile_paired {ctx : Context} (hctx : ctx.Functional) {excused : ConditionError → Prop}
    {group : Group} (hstate : group.state = .building) {entries : List Entry}
    (h : Entry.Paired (fun a b => ∀ s t,
      AgreeUnless excused (a.compile ctx t).result (b.compile ctx s).result) group.entries entries)
    (s t : Trace) :
    AgreeUnless excused (group.compile ctx t).result
      ((group.withEntries entries).compile ctx s).result := by
  have hstate' : (group.withEntries entries).state = .building := hstate
  rw [result_compile hstate, result_compile hstate']
  cases hsubject : Variable.ofName ctx.options.subjectVariable with
  | error e => exact .inl rfl
  | ok subject =>
      rcases walk_paired hctx h subject s t with hsame | ⟨e, hfails, hexcused⟩
      · left
        simp only [bind, Except.bind, hsame]
        rfl
      · right
        refine ⟨e, ?_, hexcused⟩
        simp [hfails, bind, Except.bind]

/-! ## Results -/

/-- A group that is being built is made bare by making its nested groups bare. -/
theorem bare_of_building {group : Group} (hstate : group.state = .building) :
    group.bare = group.withEntries (group.entries.map (Entry.replace bare)) := by
  obtain ⟨conjunction, keys, entries, lacksBundle, state⟩ := group
  obtain rfl : state = .building := hstate
  rw [bare, Entry.bareAll_eq_map]
  rfl

/-- In the same way it is made hollow. -/
theorem hollow_of_building {group : Group} (hstate : group.state = .building) :
    group.hollow = group.withEntries (group.entries.map (Entry.replace hollow)) := by
  obtain ⟨conjunction, keys, entries, lacksBundle, state⟩ := group
  obtain rfl : state = .building := hstate
  rw [hollow, Entry.hollowAll_eq_map]
  rfl

/-- A group that has been compiled is hollow as an empty union, which writes nothing. -/
theorem hollow_of_compiled {group : Group} (hstate : group.state ≠ .building) :
    group.hollow = new .or group.keys := by
  obtain ⟨conjunction, keys, entries, lacksBundle, state⟩ := group
  rw [hollow]
  exact hstate

/-- A later compile gives the result of a copy, unless the copy fails in a group that was kept. -/
theorem result_compile_bare {ctx : Context} (hctx : ctx.Functional) (group : Group)
    (s t : Trace) :
    AgreeUnless (group.KeptFails ctx) (group.compile ctx t).result
      (group.bare.compile ctx s).result := by
  induction group using nestedInduction generalizing s t with
  | step group ih =>
      by_cases hstate : group.state = .building
      · rw [bare_of_building hstate]
        refine compile_paired hctx hstate (Entry.paired_replace fun inner hinner s t => ?_) s t
        exact (ih inner hinner s t).mono fun e hkept => hkept.nested hinner
      · rw [compile_of_compiled hstate]
        cases hbare : (group.bare.compile ctx s).result with
        | ok _ => exact .inl rfl
        | error e =>
            have hkept : group.KeptIn group := ⟨.self group, phase_ne_building_iff.2 hstate⟩
            refine .inr ⟨e, rfl, group, hkept, fun trace => ?_⟩
            rw [(group.bare.compile_steady hctx trace s).1, hbare]

/-- A walk over a group and over its bare form agree, unless a kept group fails in the context. -/
theorem result_walk_bare {ctx : Context} (hctx : ctx.Functional) {group : Group}
    (hstate : group.state = .building) (subject : String) (s t : Trace) :
    AgreeUnless (group.KeptFails ctx) (group.walk ctx subject t).result
      (group.bare.walk ctx subject s).result := by
  rw [bare_of_building hstate]
  refine walk_paired hctx (Entry.paired_replace fun inner hinner s t => ?_) subject s t
  exact (inner.result_compile_bare hctx s t).mono fun e hkept => hkept.nested hinner

/-- The bare form of a group is linked to its bundle as the group is. -/
theorem defaultBundle_bare (group : Group) (ctx : Context) (subject : String) :
    group.bare.defaultBundle ctx subject = group.defaultBundle ctx subject := by
  simp [defaultBundle, needsDefaultBundle]

/-- A group without entries that joins them by OR compiles under every subject. -/
theorem compile_new_or {ctx : Context} {subject : String}
    (hsubject : Variable.ofName ctx.options.subjectVariable = .ok subject) (keys : EntityKeys)
    (trace : Trace) : ((new .or keys).compile ctx trace).result = .ok () := by
  rw [result_compile rfl, hsubject]
  simp only [walk, new, Entry.compileAll]
  rfl

/-- A later compile gives the result of a copy whose kept groups are empty. -/
theorem result_compile_hollow {ctx : Context} (hctx : ctx.Functional) {group : Group}
    (hstate : group.state = .building) (s t : Trace) :
    (group.compile ctx t).result = (group.hollow.compile ctx s).result := by
  cases hsubject : Variable.ofName ctx.options.subjectVariable with
  | error e =>
      have hhollow : group.hollow.state = .building := by
        rw [hollow_of_building hstate]
        exact hstate
      rw [result_compile hstate, result_compile hhollow, hsubject]
      rfl
  | ok subject =>
      clear hstate
      induction group using nestedInduction generalizing s t with
      | step group ih =>
          by_cases hstate : group.state = .building
          · -- With the subject a variable, an empty group never fails, so nothing is excused.
            rw [hollow_of_building hstate]
            have hagree : AgreeUnless (fun _ => False) _ _ :=
              compile_paired hctx hstate
                (Entry.paired_replace fun inner hinner s t => .inl (ih inner hinner s t)) s t
            rcases hagree with hsame | ⟨_, _, hfalse⟩
            · exact hsame
            · exact hfalse.elim
          · rw [compile_of_compiled hstate, hollow_of_compiled hstate,
              compile_new_or hsubject]

/-! ## Texts and mappings -/

/-- The text at a place is that of the group to which the place leads. -/
theorem textAt_eq_look (group : Group) (place : Nat) :
    Entry.textAt group.entries place =
      match (group.at? [place]).map look with
      | some seen => seen.1
      | none => .error .notCompiled := by
  rw [Entry.textAt, at?]
  cases hplace : group.entries[place]? with
  | none => rfl
  | some entry => cases entry <;> rfl

/-- Two groups with the same plan are alike if the groups nested in them are. -/
theorem alike_withPlan {a b : Group} {es fs : List Entry} {plan : Plan}
    (hconjunction : a.conjunction = b.conjunction)
    (hnested : ∀ place path, ((a.withPlan es plan).at? (place :: path)).map look =
      ((b.withPlan fs plan).at? (place :: path)).map look) :
    (a.withPlan es plan).Alike (b.withPlan fs plan) := by
  have htexts : Entry.textAt es = Entry.textAt fs := by
    funext place
    have ha := (a.withPlan es plan).textAt_eq_look place
    have hb := (b.withPlan fs plan).textAt_eq_look place
    rw [hnested place [], ← hb] at ha
    exact ha
  intro path
  cases path with
  | nil =>
      have hlook : (a.withPlan es plan).look = (b.withPlan fs plan).look := by
        unfold look
        rw [render_withPlan, render_withPlan, hconjunction, htexts]
        rfl
      exact congrArg some hlook
  | cons place path => exact hnested place path

/-- No path leads through a place without a nested group. -/
theorem at?_eq_none {group : Group} {place : Nat}
    (h : Entry.isNestedAt group.entries place = false) (path : List Nat) :
    group.at? (place :: path) = none := by
  rw [at?]
  split
  · rename_i inner hplace
    rw [Entry.isNestedAt_iff.2 ⟨inner, hplace⟩] at h
    cases h
  · rfl

/-- Two walks over a group leave trees that are alike, if they do so for each nested group. -/
theorem alike_walk {group : Group} {entries : List Entry} {ctx : Context} {subject : String}
    {s t : Trace} {draft draft' : Draft}
    (hwalk : (group.walk ctx subject t).result = .ok draft)
    (hother : ((group.withEntries entries).walk ctx subject s).result = .ok draft')
    (hnested : Entry.Paired (fun a b => ∀ s t, (b.compile ctx s).result = .ok () →
      (a.compile ctx t).left.Alike (b.compile ctx s).left) group.entries entries) (plan : Plan) :
    (group.withPlan (group.walk ctx subject t).left plan).Alike
      ((group.withEntries entries).withPlan
        ((group.withEntries entries).walk ctx subject s).left plan) := by
  refine alike_withPlan rfl fun place path => ?_
  cases hplace : Entry.isNestedAt group.entries place with
  | false =>
      rw [at?_eq_none, at?_eq_none]
      · rw [withPlan, Entry.isNestedAt_walk, withEntries, ← hnested.isNestedAt_eq, hplace]
      · rw [withPlan, Entry.isNestedAt_walk, hplace]
  | true =>
      obtain ⟨a, ha⟩ := Entry.isNestedAt_iff.1 hplace
      obtain ⟨b, hb, hgroups⟩ := hnested.getElem? ha
      obtain ⟨mid, _, hat⟩ := walk_nested_at hwalk ha
      obtain ⟨mid', hok, hatOther⟩ := walk_nested_at hother hb
      rw [at?_cons hat, at?_cons hatOther]
      exact hgroups mid' mid hok path

/-- Where the kept groups look as the context has them, the whole tree does. -/
theorem alike_compile_bare {ctx : Context} (hctx : ctx.Functional) {group : Group} {s : Trace}
    (hok : (group.bare.compile ctx s).result = .ok ())
    (hkept : ∀ kept : Group, kept.KeptIn group →
      ∀ trace, kept.Alike (kept.bare.compile ctx trace).left) (t : Trace) :
    (group.compile ctx t).left.Alike (group.bare.compile ctx s).left := by
  induction group using nestedInduction generalizing s t with
  | step group ih =>
      by_cases hstate : group.state = .building
      · obtain ⟨subject, draft, triple?, hsubject, hbare, hbundle, hleftBare⟩ :=
          compile_ok (bare_state group) hok
        -- The copy succeeds, so both walks give the same draft, and the plans are the same.
        have hwalk : (group.walk ctx subject t).result = .ok draft :=
          (result_walk_bare hctx hstate subject s t).eq_ok hbare
        rw [defaultBundle_bare] at hbundle
        have hleft := compile_eq_of_walk hstate hsubject hwalk hbundle
        rw [hleft, hleftBare]
        rw [bare_of_building hstate] at hbare ⊢
        refine alike_walk hwalk hbare (Entry.paired_replace ?_) _
        intro inner hinner s t hinnerOk
        exact ih inner hinner hinnerOk (fun kept hin => hkept kept (hin.nested hinner)) t
      · rw [compile_of_compiled hstate]
        exact hkept group ⟨.self group, phase_ne_building_iff.2 hstate⟩ s

/-- A compile that succeeds has compiled the group at each path. -/
theorem at?_compile {ctx : Context} {group inner : Group} {t : Trace}
    (hsettled : group.Everywhere Settled) (hok : (group.compile ctx t).result = .ok ())
    {path : List Nat} (hpath : group.at? path = some inner) :
    ∃ mid, (inner.compile ctx mid).result = .ok () ∧
      (group.compile ctx t).left.at? path = some (inner.compile ctx mid).left := by
  induction path generalizing group t with
  | nil =>
      cases hpath
      exact ⟨t, hok, rfl⟩
  | cons place path ih =>
      by_cases hstate : group.state = .building
      · -- The walk compiles the next group on the path; below it the path goes on.
        obtain ⟨subject, draft, triple?, hsubject, hwalk, hbundle, hleft⟩ := compile_ok hstate hok
        rw [at?] at hpath
        split at hpath
        · rename_i middle hplace
          obtain ⟨mid, hmiddle, hat⟩ := walk_nested_at hwalk hplace
          rw [hleft, at?_cons hat]
          exact ih (hsettled.nested (List.mem_of_getElem? hplace)) hmiddle hpath
        · cases hpath
      · -- Below a group that is compiled already nothing is left to do.
        have hphase := phase_ne_building_iff.2 hstate
        have hinner := phase_ne_building_iff.1
          (hsettled.descend (fun g hg => hg.compiled) hphase inner (within_of_at? hpath))
        refine ⟨t, ?_, ?_⟩
        · rw [compile_of_compiled hinner]
        · rw [compile_of_compiled hinner, compile_of_compiled hstate, hpath]

/-! ## Failures in a row -/

/-- Failures change nothing but the states of groups. -/
theorem FailsThrough.bare_eq {group later : Group} {failed : List Context}
    (h : group.FailsThrough failed later) : later.bare = group.bare := by
  induction h with
  | nil => rfl
  | cons _ _ ih => rw [ih, bare_compile]

/-- After failures a group is still being built. -/
theorem FailsThrough.state_eq {group later : Group} {failed : List Context}
    (h : group.FailsThrough failed later) (hgroup : group.state = .building) :
    later.state = .building := by
  induction h with
  | nil => exact hgroup
  | cons hfail _ ih => exact ih (state_compile_of_error hfail)

/-- Phases and places fit together after failures. -/
theorem FailsThrough.settled {group later : Group} {failed : List Context}
    (h : group.FailsThrough failed later) (hgroup : group.Everywhere Settled) :
    later.Everywhere Settled := by
  have hinvariant := settled_invariant fun _ => True
  induction h with
  | nil => exact hgroup
  | cons _ _ ih =>
      refine ih (everywhere_compile ?_ ?_ hgroup _)
      · exact fun group subject trace => hinvariant.stop group _ subject trace
      · exact fun group subject trace draft triple? =>
          hinvariant.finish group _ subject trace draft triple? trivial

/-- A tree that compiles like its bare form keeps groups that look as the context has them. -/
theorem alike_of_alike_compile {ctx : Context} (hctx : ctx.Functional) {group kept : Group}
    {s t : Trace} (hsettled : group.Everywhere Settled)
    (hok : (group.compile ctx t).result = .ok ())
    (hbare : (group.bare.compile ctx s).result = .ok ())
    (halike : (group.compile ctx t).left.Alike (group.bare.compile ctx s).left)
    (hkept : kept.KeptIn group) : kept.Alike (kept.bare.compile ctx s).left := by
  obtain ⟨path, hpath⟩ := exists_at?_of_within hkept.1
  have hpathBare : group.bare.at? path = some kept.bare := by rw [at?_bare, hpath, Option.map_some]
  have hbareSettled := settled_of_allBuilding (allBuilding_bare group)
  obtain ⟨mid, _, hat⟩ := at?_compile hsettled hok hpath
  obtain ⟨mid', _, hatBare⟩ := at?_compile hbareSettled hbare hpathBare
  have hstays : (kept.compile ctx mid).left = kept := by
    rw [compile_of_compiled (phase_ne_building_iff.1 hkept.2)]
  -- Paths within the kept group go on from the path to it.
  intro rest
  have hrest := halike (path ++ rest)
  rw [at?_append hat, at?_append hatBare, hstays] at hrest
  rw [hrest, (kept.bare.compile_steady hctx mid' s).2]

end Group

/-! ## A trace that is left -/

namespace Sample

/-- Pages may have a body with one predicate. -/
def bodies : MappingTable :=
  MappingTable.empty.insert "page" "body" ["<text>"]

/-- The context of pages without tags. -/
def untagged : Context where
  entityType := "page"
  resolver := bodies.resolver

/-- The context of pages whose tags have one predicate. -/
def pages : Context where
  entityType := "page"
  resolver := (bodies.insert "page" "tag" ["<keyword>"]).resolver

/-- Something with a tag and a body, the tag in a nested group.  Nodes have no body. -/
def note : Group :=
  ((Workspace.run {}
    [.make "note" .and keys, .makeSibling "tagged" "note" .and, .addPresent "tagged" "tag",
      .nest "note" "tagged", .addPresent "note" "body"]).get? "note").getD default

/-- The group that is left when it is compiled for nodes. -/
def failedNote : Group :=
  (note.compile context []).left

/-- In the first context the body is unknown, so the note fails after its nested group is compiled.
-/
theorem note_failsThrough : note.FailsThrough [context] failedNote := by
  have hfail : (note.compile context []).result =
      .error (.unknownFieldMapping "node" "body") := rfl
  exact .cons hfail (.nil _)

/-- Compiled again in the second context, the note has the tags of the first one. -/
theorem text_failedNote :
    ((failedNote.compile pages []).left.render []).result.toOption =
      some ("VALUES ?tag_predicate \x7b <tag> <topic> \x7d . ?entity ?tag_predicate ?tag . " ++
        "EXISTS \x7b ?tag \x7d . ?entity <text> ?body . EXISTS \x7b ?body \x7d") := by
  decide +kernel

/-- Compiled in the second context at once, it has the tags of that one. -/
theorem text_note :
    ((note.compile pages []).left.render []).result.toOption =
      some ("?entity <keyword> ?tag . EXISTS \x7b ?tag \x7d . " ++
        "?entity <text> ?body . EXISTS \x7b ?body \x7d") := by
  decide +kernel

theorem not_alike_note :
    ¬ (failedNote.compile pages []).left.Alike (note.compile pages []).left := by
  intro halike
  have hlook := Option.some.inj (halike [])
  have htexts : ((failedNote.compile pages []).left.render []).result.toOption =
      ((note.compile pages []).left.render []).result.toOption :=
    congrArg (fun seen => seen.1.toOption) hlook
  rw [text_failedNote, text_note] at htexts
  exact absurd (Option.some.inj htexts) (by decide +kernel)

end Sample

namespace Group

/-- Failures leave no trace on a later compile exactly when a copy gives the same result with and
without the entries of the kept groups, and, where that is a success, the kept groups look as the
context has them. -/
theorem compile_after_failures {group later : Group} {failed : List Context} {ctx : Context}
    (hbuilding : group.AllBuilding) (hfailed : group.FailsThrough failed later)
    (hctx : ctx.Functional) (s t : Trace) :
    ((later.compile ctx t).result = (group.compile ctx s).result ∧
      ((group.compile ctx s).result = .ok () →
        (later.compile ctx t).left.Alike (group.compile ctx s).left)) ↔
    ((later.hollow.compile ctx s).result = (group.compile ctx s).result ∧
      ((group.compile ctx s).result = .ok () →
        ∀ kept : Group, kept.KeptIn later → kept.Alike (kept.bare.compile ctx s).left)) := by
  have hsettled := hfailed.settled (settled_of_allBuilding hbuilding)
  have hlater := hfailed.state_eq (phase_eq_building_iff.1 hbuilding.self)
  have hbare : later.bare = group := by
    rw [hfailed.bare_eq]
    exact bare_eq_self_iff.2 hbuilding
  rw [← hbare, ← result_compile_hollow hctx hlater s t]
  constructor
  · rintro ⟨hresult, halike⟩
    refine ⟨hresult, fun hok kept hkept => ?_⟩
    exact alike_of_alike_compile hctx hsettled (hresult.trans hok) hok (halike hok) hkept
  · rintro ⟨hresult, hkept⟩
    refine ⟨hresult, fun hok => alike_compile_bare hctx hok (fun kept hin trace => ?_) t⟩
    rw [(kept.bare.compile_steady hctx trace s).2]
    exact hkept hok kept hin

/-- In the sample, the group that was kept does not look as pages have it. -/
theorem keptIn_failedNote :
    Sample.note.AllBuilding ∧ Sample.note.FailsThrough [Sample.context] Sample.failedNote ∧
      Sample.pages.Functional ∧ (Sample.note.compile Sample.pages []).result = .ok () ∧
      ¬ ∀ kept : Group, kept.KeptIn Sample.failedNote →
        kept.Alike (kept.bare.compile Sample.pages []).left := by
  have hbuilding : Sample.note.AllBuilding := bare_eq_self_iff.1 rfl
  have hctx : Sample.pages.Functional := Context.functional_of_table "page" _ {}
  have hok : (Sample.note.compile Sample.pages []).result = .ok () := rfl
  have hexact := compile_after_failures hbuilding Sample.note_failsThrough hctx [] []
  refine ⟨hbuilding, Sample.note_failsThrough, hctx, hok, fun hkept => ?_⟩
  exact Sample.not_alike_note ((hexact.2 ⟨rfl, fun _ => hkept⟩).2 hok)

/-- A failure leaves a trace: the text for pages lists the predicates of nodes, and pages without
tags pass although a copy fails. -/
theorem mixed_after_failure :
    Sample.note.AllBuilding ∧ Sample.note.FailsThrough [Sample.context] Sample.failedNote ∧
      Sample.pages.Functional ∧ Sample.untagged.Functional ∧
      (Sample.failedNote.compile Sample.pages []).result = .ok () ∧
      (Sample.note.compile Sample.pages []).result = .ok () ∧
      ((Sample.failedNote.compile Sample.pages []).left.render []).result.toOption =
        some ("VALUES ?tag_predicate \x7b <tag> <topic> \x7d . ?entity ?tag_predicate ?tag . " ++
          "EXISTS \x7b ?tag \x7d . ?entity <text> ?body . EXISTS \x7b ?body \x7d") ∧
      ((Sample.note.compile Sample.pages []).left.render []).result.toOption =
        some ("?entity <keyword> ?tag . EXISTS \x7b ?tag \x7d . " ++
          "?entity <text> ?body . EXISTS \x7b ?body \x7d") ∧
      (Sample.failedNote.compile Sample.untagged []).result = .ok () ∧
      (Sample.note.compile Sample.untagged []).result =
        .error (.unknownFieldMapping "page" "tag") := by
  have hpages : Sample.pages.Functional := Context.functional_of_table "page" _ {}
  have huntagged : Sample.untagged.Functional := Context.functional_of_table "page" _ {}
  exact ⟨bare_eq_self_iff.1 rfl, Sample.note_failsThrough, hpages, huntagged, rfl, rfl,
    Sample.text_failedNote, Sample.text_note, rfl, rfl⟩

end Group

end GraphCriteria
