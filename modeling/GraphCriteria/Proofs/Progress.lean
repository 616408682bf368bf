import GraphCriteria.Proofs.Frozen
import GraphCriteria.Proofs.Reordering

/-!
# How far compiling comes

Compiling walks a tree in document order and stops at the first place that is not accepted.  What
it leaves then is told by that place alone: the groups that end before it are compiled, the groups
around it and after it are still being built, and compiling once more stops at the same place.

Main results:

- Theorem `Draft.Sound.fst_compile`: a leaf compiles in a draft as it does on its own.
- Theorem `Entry.compileAll_error`: a walk that fails has compiled the entries before one that fails
  on its own.
- Theorem `Group.exists_stopsAt`: what a failure leaves, group by group.
- Theorem `Group.compile_compile`: compiling what a compile leaves changes nothing.
- Theorem `Group.progress_of_compile`: what compiling changes and how far it comes.
-/

namespace GraphCriteria

/-! ## Entries that fail -/

/-- The mapping and the clause of a leaf, where nothing is known already. -/
def Leaf.alone (leaf : Leaf) (ctx : Context) (keys : EntityKeys) (subject : String) :
    Except ConditionError (FieldMapping × Clause) := do
  let mapping ← (ctx.findMapping (keys.kind leaf.field) leaf.field []).1
  let clause ← (leaf.clause ctx subject (keys.kind leaf.field) mapping []).1
  pure (mapping, clause)

/-- An entry fails on its own. -/
def Entry.Fails (entry : Entry) (ctx : Context) (keys : EntityKeys) (subject : String)
    (e : ConditionError) : Prop :=
  match entry with
  | .leaf own => own.alone ctx keys subject = .error e
  | .nested inner => (inner.compile ctx []).result = .error e

/-- An entry with what compiling leaves of a nested group. -/
def Entry.compiled (ctx : Context) : Entry → Entry :=
  Entry.replace fun inner => (inner.compile ctx []).left

namespace Draft

variable {draft : Draft} {ctx : Context} {keys : EntityKeys} {subject : String} {done : List Leaf}

/-- Fetching the mapping of a field notes the one that the host has for it, or fails as the host
does. -/
theorem Sound.fst_fetch (hctx : ctx.Functional) (h : draft.Sound ctx keys subject done)
    (field : String) (trace : Trace) :
    (draft.fetch ctx (keys.kind field) field trace).1 =
      (ctx.findMapping (keys.kind field) field []).1.map fun mapping =>
        (mapping, draft.note field mapping) := by
  cases hfound : (ctx.findMapping (keys.kind field) field []).1 with
  | ok mapping =>
      obtain ⟨next, hfetch⟩ := (h.fetch_iff hctx trace).2 hfound
      rw [hfetch, (fetch_ok (Prod.ext hfetch rfl)).2]
      rfl
  | error e =>
      -- The field is new, since the host has found what is remembered.
      have hnew : draft.mappings.get? field = none := by
        cases hknown : draft.mappings.get? field with
        | none => rfl
        | some known =>
            obtain ⟨start, hstart⟩ := h.found _ (Memo.mem_entries_of_get? hknown)
            rw [hctx.findMapping _ _ start [], hfound] at hstart
            cases hstart
      refine Pass.fst_bind_eq_error.2 (.inl ?_)
      rw [Memo.fetch, hnew]
      exact Pass.fst_bind_eq_error.2 (.inl ((hctx.findMapping _ _ trace []).trans hfound))

/-- A leaf compiles in a draft as it does on its own. -/
theorem Sound.fst_compile (hctx : ctx.Functional) (h : draft.Sound ctx keys subject done)
    (leaf : Leaf) (trace : Trace) :
    (leaf.compile ctx keys subject draft trace).1 =
      (leaf.alone ctx keys subject).map fun made =>
        (draft.note leaf.field made.1).add (keys.kind leaf.field) leaf.operator made.2 := by
  have hfetch := h.fst_fetch hctx leaf.field trace
  unfold Leaf.alone
  cases hfound : (ctx.findMapping (keys.kind leaf.field) leaf.field []).1 with
  | error e =>
      rw [hfound] at hfetch
      exact Pass.fst_bind_eq_error.2 (.inl hfetch)
  | ok mapping =>
      rw [hfound] at hfetch
      have hclause := hctx.clause leaf subject (keys.kind leaf.field) mapping
        (draft.fetch ctx (keys.kind leaf.field) leaf.field trace).2 []
      cases hmade : (leaf.clause ctx subject (keys.kind leaf.field) mapping []).1 with
      | error e =>
          rw [hmade] at hclause
          have hfails : (leaf.compile ctx keys subject draft trace).1 = .error e :=
            Pass.fst_bind_eq_error.2 (.inr ⟨_, _, Prod.ext hfetch rfl,
              Pass.fst_bind_eq_error.2 (.inl hclause)⟩)
          simp only [bind, Except.bind, hmade]
          exact hfails
      | ok clause =>
          rw [hmade] at hclause
          have hok : (leaf.compile ctx keys subject draft trace).1 =
              .ok ((draft.note leaf.field mapping).add (keys.kind leaf.field) leaf.operator clause) :=
            Pass.fst_bind_eq_ok.2 ⟨_, _, Prod.ext hfetch rfl,
              Pass.fst_bind_eq_ok.2 ⟨clause, _, Prod.ext hclause rfl, rfl⟩⟩
          simp only [bind, Except.bind, hmade]
          exact hok

/-- A leaf fails in a draft exactly when it does on its own, and with the same error. -/
theorem Sound.compile_fails_iff (hctx : ctx.Functional) (h : draft.Sound ctx keys subject done)
    (leaf : Leaf) (trace : Trace) (e : ConditionError) :
    (leaf.compile ctx keys subject draft trace).1 = .error e ↔
      leaf.alone ctx keys subject = .error e := by
  rw [h.fst_compile hctx]
  cases leaf.alone ctx keys subject <;> simp [Except.map]

end Draft

/-! ## Walks -/

namespace Entry

variable {ctx : Context} {keys : EntityKeys} {subject : String} {entries : List Entry} {index : Nat}
  {draft : Draft} {trace : Trace}

/-- A walk stops at its first entry, or it compiles this entry and goes on from there. -/
theorem compileAll_cons (hctx : ctx.Functional) {done : List Leaf}
    (hdraft : draft.Sound ctx keys subject done) (entry : Entry) (rest : List Entry) :
    (∃ e, entry.Fails ctx keys subject e ∧
      (compileAll ctx keys subject (entry :: rest) index draft trace).result = .error e ∧
      (compileAll ctx keys subject (entry :: rest) index draft trace).left =
        entry.compiled ctx :: rest) ∨
    (entry.Compilable ctx keys subject ∧ ∃ next mid,
      next.Sound ctx keys subject (done ++ leaves [entry]) ∧
      (compileAll ctx keys subject (entry :: rest) index draft trace).result =
        (compileAll ctx keys subject rest (index + 1) next mid).result ∧
      (compileAll ctx keys subject (entry :: rest) index draft trace).left =
        entry.compiled ctx :: (compileAll ctx keys subject rest (index + 1) next mid).left) := by
  cases entry with
  | leaf own =>
      rw [compileAll]
      cases hown : own.compile ctx keys subject draft trace with
      | mk result mid =>
          cases result with
          | error e =>
              refine .inl ⟨e, ?_, rfl, rfl⟩
              exact (hdraft.compile_fails_iff hctx own trace e).1 (congrArg Prod.fst hown)
          | ok next =>
              refine .inr ⟨?_, next, mid, hdraft.compileLeaf hown, rfl, rfl⟩
              exact (hdraft.exists_compile_iff hctx own trace).1 ⟨next, congrArg Prod.fst hown⟩
  | nested inner =>
      obtain ⟨hresult, hleft⟩ := inner.compile_steady hctx trace []
      have hcompiled : Entry.nested (inner.compile ctx trace).left = (nested inner).compiled ctx :=
        congrArg Entry.nested hleft
      rw [compileAll]
      dsimp only
      rw [hcompiled]
      cases hinner : (inner.compile ctx trace).result with
      | error e => exact .inl ⟨e, hresult.symm.trans hinner, rfl, rfl⟩
      | ok _ =>
          refine .inr ⟨hresult.symm.trans hinner, draft.addNested index,
            (inner.compile ctx trace).trace, ?_, rfl, rfl⟩
          simpa using hdraft.addNested index

/-- A walk that succeeds has compiled all entries. -/
theorem left_compileAll_of_ok (hctx : ctx.Functional) {final : Draft} {done : List Leaf}
    (hdraft : draft.Sound ctx keys subject done)
    (h : (compileAll ctx keys subject entries index draft trace).result = .ok final) :
    (compileAll ctx keys subject entries index draft trace).left = entries.map (compiled ctx) := by
  induction entries generalizing index draft trace done with
  | nil => rw [compileAll, List.map_nil]
  | cons entry rest ih =>
      rcases compileAll_cons hctx hdraft entry rest with
        ⟨e, _, hresult, _⟩ | ⟨_, next, mid, hnext, hresult, hleft⟩
      · rw [hresult] at h
        cases h
      · rw [hresult] at h
        rw [hleft, ih hnext h, List.map_cons]

/-- A walk that fails has compiled the entries before one that fails on its own, and has not come
to the entries after it. -/
theorem compileAll_error (hctx : ctx.Functional) {done : List Leaf}
    (hdraft : draft.Sound ctx keys subject done) {e : ConditionError}
    (h : (compileAll ctx keys subject entries index draft trace).result = .error e) :
    ∃ front entry back, entries = front ++ entry :: back ∧
      (∀ earlier ∈ front, earlier.Compilable ctx keys subject) ∧
      entry.Fails ctx keys subject e ∧
      (compileAll ctx keys subject entries index draft trace).left =
        front.map (compiled ctx) ++ entry.compiled ctx :: back := by
  induction entries generalizing index draft trace done with
  | nil =>
      rw [compileAll] at h
      cases h
  | cons entry rest ih =>
      rcases compileAll_cons hctx hdraft entry rest with
        ⟨e', hfails, hresult, hleft⟩ | ⟨hentry, next, mid, hnext, hresult, hleft⟩
      · rw [hresult] at h
        cases h
        exact ⟨[], entry, rest, rfl, by simp, hfails, hleft⟩
      · rw [hresult] at h
        obtain ⟨front, failing, back, rfl, hfront, hfails, hwalk⟩ := ih hnext h
        refine ⟨entry :: front, failing, back, rfl, List.forall_mem_cons.2 ⟨hentry, hfront⟩,
          hfails, ?_⟩
        rw [hleft, hwalk]
        rfl

end Entry

/-! ## Groups that are compiled already -/

namespace Group

/-- Compiling a tree leaves the groups in it that are compiled already. -/
theorem at?_compile_of_phase {group inner : Group} (ctx : Context) (trace : Trace)
    {path : List Nat} (hpath : group.at? path = some inner) (hphase : inner.phase ≠ .building) :
    (group.compile ctx trace).left.at? path = some inner := by
  induction path generalizing group trace with
  | nil =>
      cases hpath
      rw [compile_of_compiled (phase_ne_building_iff.1 hphase)]
      rfl
  | cons place path ih =>
      obtain ⟨middle, hplace, hpath⟩ := at?_cons_iff.1 hpath
      rcases compile_nested_at ctx trace hplace with hsame | ⟨mid, hcompiled⟩
      · exact at?_cons_iff.2 ⟨middle, hsame, hpath⟩
      · exact at?_cons_iff.2 ⟨_, hcompiled, ih mid hpath⟩

/-- A group that was being built and is compiled has a plan and no text. -/
theorem phase_compile_of_ok {group : Group} {ctx : Context} {trace : Trace}
    (hphase : group.phase = .building) (h : (group.compile ctx trace).result = .ok ()) :
    (group.compile ctx trace).left.phase = .compiled := by
  obtain ⟨subject, draft, triple?, _, _, _, hleft⟩ := compile_ok (phase_eq_building_iff.1 hphase) h
  rw [hleft]
  rfl

/-! ## Compiling again -/

section

variable {group : Group} {ctx : Context} {subject : String} {e : ConditionError} {trace : Trace}

/-- Compiling a group fails where the walk over its entries does. -/
theorem compile_eq_of_walk_error (hstate : group.state = .building)
    (hsubject : Variable.ofName ctx.options.subjectVariable = .ok subject)
    (hwalk : (group.walk ctx subject trace).result = .error e) :
    group.compile ctx trace = ⟨.error e, group.withEntries (group.walk ctx subject trace).left,
      (group.walk ctx subject trace).trace⟩ := by
  obtain ⟨conjunction, keys, entries, lacksBundle, state⟩ := group
  obtain rfl : state = .building := hstate
  unfold walk at hwalk
  rw [compile, hsubject]
  dsimp only at hwalk ⊢
  rw [hwalk]
  rfl

/-- Compiling a group fails at its end where its bundle is no variable. -/
theorem compile_eq_of_bundle_error {draft : Draft} (hstate : group.state = .building)
    (hsubject : Variable.ofName ctx.options.subjectVariable = .ok subject)
    (hwalk : (group.walk ctx subject trace).result = .ok draft)
    (hbundle : group.defaultBundle ctx subject = .error e) :
    group.compile ctx trace = ⟨.error e, group.withEntries (group.walk ctx subject trace).left,
      (group.walk ctx subject trace).trace⟩ := by
  obtain ⟨conjunction, keys, entries, lacksBundle, state⟩ := group
  obtain rfl : state = .building := hstate
  unfold walk at hwalk
  rw [compile, hsubject]
  dsimp only at hwalk ⊢
  rw [hwalk]
  dsimp only
  rw [hbundle]
  rfl

/-- Compiling a group again changes nothing if walking over its entries again does not. -/
theorem compile_compile_of_walk (hctx : ctx.Functional) (group : Group)
    (hwalk : ∀ subject s t,
      ((group.withEntries (group.walk ctx subject s).left).walk ctx subject t).Agrees
        (group.walk ctx subject s)) (s t : Trace) :
    ((group.compile ctx s).left.compile ctx t).Agrees (group.compile ctx s) := by
  have hways := group.compiles ctx s
  have hsteady := group.compile_steady hctx t s
  generalize group.compile ctx s = outcome at hways hsteady ⊢
  cases hways with
  | skipped hstate =>
      rw [compile_of_compiled hstate]
      exact ⟨rfl, rfl⟩
  | finished =>
      rw [compile_of_compiled (by simp [withPlan])]
      exact ⟨rfl, rfl⟩
  | unnamed => exact hsteady
  | @stopped subject e hstate hsubject hfails =>
      obtain ⟨hresult, hleft⟩ := hwalk subject s t
      have hstate' : (group.withEntries (group.walk ctx subject s).left).state = .building := hstate
      rw [compile_eq_of_walk_error hstate' hsubject (hresult.trans hfails)]
      exact ⟨rfl, congrArg group.withEntries hleft⟩
  | @unbound subject draft e hstate hsubject hok hbundle =>
      obtain ⟨hresult, hleft⟩ := hwalk subject s t
      have hstate' : (group.withEntries (group.walk ctx subject s).left).state = .building := hstate
      rw [compile_eq_of_bundle_error hstate' hsubject (hresult.trans hok) hbundle]
      exact ⟨rfl, congrArg group.withEntries hleft⟩

end

/-- Compiling what a compile leaves, whether that succeeded or failed, gives the same result and
changes nothing. -/
theorem compile_compile {ctx : Context} (hctx : ctx.Functional) (group : Group) (s t : Trace) :
    ((group.compile ctx s).left.compile ctx t).Agrees (group.compile ctx s) := by
  refine (treeInduction
    (P := fun group => ∀ s t,
      ((group.compile ctx s).left.compile ctx t).Agrees (group.compile ctx s))
    (R := fun entries => ∀ keys subject index draft s t,
      (Entry.compileAll ctx keys subject
        (Entry.compileAll ctx keys subject entries index draft s).left index draft t).Agrees
        (Entry.compileAll ctx keys subject entries index draft s)) ?_ ?_ ?_ ?_).1 group s t
  · intro conjunction keys entries lacksBundle state ih s t
    refine compile_compile_of_walk hctx ⟨conjunction, keys, entries, lacksBundle, state⟩ ?_ s t
    exact fun subject s t => ih keys subject 0 {} _ _
  · intro keys subject index draft s t
    rw [Entry.compileAll, Entry.compileAll]
    exact ⟨rfl, rfl⟩
  · intro leaf rest ih keys subject index draft s t
    rcases (Leaf.compile_steady hctx leaf keys subject draft).cases s t with
      ⟨e, s', t', hs, ht⟩ | ⟨next, s', t', hs, ht⟩
    · simp only [Entry.compileAll, hs, ht]
      exact ⟨rfl, rfl⟩
    · obtain ⟨hresult, hleft⟩ := ih keys subject (index + 1) next s' t'
      simp only [Entry.compileAll, hs, ht]
      exact ⟨hresult, congrArg (Entry.leaf leaf :: ·) hleft⟩
  · intro inner rest hinner ih keys subject index draft s t
    obtain ⟨hres, hlft⟩ := hinner s t
    cases hok : (inner.compile ctx s).result with
    | error e =>
        rw [hok] at hres
        simp only [Entry.compileAll, hok, hres, hlft]
        exact ⟨rfl, rfl⟩
    | ok _ =>
        rw [hok] at hres
        simp only [Entry.compileAll, hok, hres, hlft]
        obtain ⟨hresult, hleft⟩ := ih keys subject (index + 1) (draft.addNested index)
          (inner.compile ctx s).trace ((inner.compile ctx s).left.compile ctx t).trace
        exact ⟨hresult, congrArg (Entry.nested (inner.compile ctx s).left :: ·) hleft⟩

/-! ## Where compiling stops -/

/-- Compiling a group stops with an error at a point, given by the places that lead to it.  The
last of them is that of a leaf, or the end of the entries where the bundle is no variable. -/
inductive StopsAt (ctx : Context) (e : ConditionError) : Group → List Nat → Prop where
  /-- The subject is no variable. -/
  | unnamed {group : Group} (hstate : group.state = .building)
      (hsubject : Variable.ofName ctx.options.subjectVariable = .error e) :
      StopsAt ctx e group [0]
  /-- A leaf fails on its own, and the entries before it compile. -/
  | leaf {group : Group} {subject : String} {front back : List Entry} {own : Leaf}
      (hstate : group.state = .building)
      (hsubject : Variable.ofName ctx.options.subjectVariable = .ok subject)
      (hentries : group.entries = front ++ .leaf own :: back)
      (hfront : ∀ entry ∈ front, entry.Compilable ctx group.keys subject)
      (hown : own.alone ctx group.keys subject = .error e) :
      StopsAt ctx e group [front.length]
  /-- Compiling a nested group stops, and the entries before it compile. -/
  | nested {group inner : Group} {subject : String} {front back : List Entry} {point : List Nat}
      (hstate : group.state = .building)
      (hsubject : Variable.ofName ctx.options.subjectVariable = .ok subject)
      (hentries : group.entries = front ++ .nested inner :: back)
      (hfront : ∀ entry ∈ front, entry.Compilable ctx group.keys subject)
      (hinner : StopsAt ctx e inner point) :
      StopsAt ctx e group (front.length :: point)
  /-- All entries compile, but the bundle is no variable. -/
  | unbound {group : Group} {subject : String} (hstate : group.state = .building)
      (hsubject : Variable.ofName ctx.options.subjectVariable = .ok subject)
      (hentries : ∀ entry ∈ group.entries, entry.Compilable ctx group.keys subject)
      (hbundle : group.defaultBundle ctx subject = .error e) :
      StopsAt ctx e group [group.size]

/-- What is left of the groups that were being built when compiling stops at a point.  A group ends
after its last entry, and what ends comes before a point in document order. -/
structure Halts (group : Group) (ctx : Context) (point : List Nat) (left : Group) : Prop where
  ended : ∀ path inner, group.at? path = some inner → inner.phase = .building →
    path ++ [inner.size] < point →
      left.at? path = some (inner.compile ctx []).left ∧
        (inner.compile ctx []).left.phase = .compiled
  unfinished : ∀ path inner, group.at? path = some inner → inner.phase = .building →
    ¬ path ++ [inner.size] < point → ∃ later, left.at? path = some later ∧ later.phase = .building
  untouched : ∀ path inner, group.at? path = some inner → point < path →
    left.at? path = some inner

/-- Nothing ends before the start. -/
theorem halts_nil (group : Group) (ctx : Context) : group.Halts ctx [] group where
  ended _ _ _ _ hlt := absurd hlt (List.not_lt_nil _)
  unfinished _ inner hpath hphase _ := ⟨inner, hpath, hphase⟩
  untouched _ _ hpath _ := hpath

/-- What is left of a group, told by what is left of each nested group. -/
theorem halts_cons {group left : Group} {ctx : Context} {place : Nat} {point : List Nat}
    (hctx : ctx.Functional) (hsettled : group.Everywhere Settled) (hleft : left.phase = .building)
    (hroot : ¬ [group.size] < place :: point)
    (hbefore : ∀ other middle, group.entries[other]? = some (.nested middle) → other < place →
      (middle.compile ctx []).result = .ok () ∧
        left.entries[other]? = some (.nested (middle.compile ctx []).left))
    (hat : ∀ middle, group.entries[place]? = some (.nested middle) →
      ∃ later, left.entries[place]? = some (.nested later) ∧ middle.Halts ctx point later)
    (hafter : ∀ other middle, group.entries[other]? = some (.nested middle) → place < other →
      left.entries[other]? = some (.nested middle)) :
    group.Halts ctx (place :: point) left := by
  refine ⟨?_, ?_, ?_⟩
  · intro path inner hpath hphase hlt
    cases path with
    | nil =>
        cases hpath
        exact absurd hlt hroot
    | cons first path =>
        obtain ⟨middle, hfirst, hbelow⟩ := at?_cons_iff.1 hpath
        rcases List.cons_lt_cons_iff.1 hlt with hless | ⟨rfl, hrest⟩
        · obtain ⟨hok, hcompiled⟩ := hbefore first middle hfirst hless
          have hmiddle := hsettled.nested (List.mem_of_getElem? hfirst)
          obtain ⟨mid, hinner, hleft⟩ := at?_compile hmiddle hok hbelow
          obtain ⟨hresult, hsame⟩ := inner.compile_steady hctx mid []
          rw [hsame] at hleft
          rw [hresult] at hinner
          exact ⟨at?_cons_iff.2 ⟨_, hcompiled, hleft⟩, phase_compile_of_ok hphase hinner⟩
        · obtain ⟨later, hlater, hhalts⟩ := hat middle hfirst
          obtain ⟨hended, hcompiled⟩ := hhalts.ended path inner hbelow hphase hrest
          exact ⟨at?_cons_iff.2 ⟨later, hlater, hended⟩, hcompiled⟩
  · intro path inner hpath hphase hlt
    cases path with
    | nil =>
        cases hpath
        exact ⟨left, rfl, hleft⟩
    | cons first path =>
        obtain ⟨middle, hfirst, hbelow⟩ := at?_cons_iff.1 hpath
        have hnot : ¬ first < place ∧ ¬ (first = place ∧ path ++ [inner.size] < point) := by
          rwa [List.cons_append, List.cons_lt_cons_iff, not_or] at hlt
        by_cases heq : first = place
        · subst heq
          obtain ⟨later, hlater, hhalts⟩ := hat middle hfirst
          obtain ⟨last, hlast, hbuilding⟩ :=
            hhalts.unfinished path inner hbelow hphase fun hrest => hnot.2 ⟨rfl, hrest⟩
          exact ⟨last, at?_cons_iff.2 ⟨later, hlater, hlast⟩, hbuilding⟩
        · have hless : place < first := by omega
          exact ⟨inner, at?_cons_iff.2 ⟨middle, hafter first middle hfirst hless, hbelow⟩, hphase⟩
  · intro path inner hpath hlt
    cases path with
    | nil => exact absurd hlt (List.not_lt_nil _)
    | cons first path =>
        obtain ⟨middle, hfirst, hbelow⟩ := at?_cons_iff.1 hpath
        rcases List.cons_lt_cons_iff.1 hlt with hless | ⟨rfl, hrest⟩
        · exact at?_cons_iff.2 ⟨middle, hafter first middle hfirst hless, hbelow⟩
        · obtain ⟨later, hlater, hhalts⟩ := hat middle hfirst
          exact at?_cons_iff.2 ⟨later, hlater, hhalts.untouched path inner hbelow hrest⟩

/-- What is left of a group when the walk over its entries stops after some of them. -/
theorem halts_of_split {group : Group} {ctx : Context} {subject : String} {front back : List Entry}
    {entry : Entry} {point : List Nat} (hctx : ctx.Functional)
    (hsettled : group.Everywhere Settled) (hstate : group.state = .building)
    (hentries : group.entries = front ++ entry :: back)
    (hfront : ∀ earlier ∈ front, earlier.Compilable ctx group.keys subject)
    (hentry : ∀ middle, entry = .nested middle →
      middle.Halts ctx point (middle.compile ctx []).left) :
    group.Halts ctx (front.length :: point)
      (group.withEntries (front.map (Entry.compiled ctx) ++ entry.compiled ctx :: back)) := by
  have hsize : group.size = front.length + (back.length + 1) := by simp [size, hentries]
  refine halts_cons hctx hsettled (phase_eq_building_iff.2 hstate) ?_ ?_ ?_ ?_
  · rw [List.cons_lt_cons_iff]
    omega
  · intro other middle hother hless
    rw [hentries, List.getElem?_append_left hless] at hother
    refine ⟨hfront _ (List.mem_of_getElem? hother), ?_⟩
    rw [withEntries, List.getElem?_append_left (by simpa using hless), List.getElem?_map, hother]
    rfl
  · intro middle hplace
    rw [hentries, List.getElem?_append_right (Nat.le_refl _), Nat.sub_self] at hplace
    obtain rfl : entry = .nested middle := by simpa using hplace
    refine ⟨_, ?_, hentry middle rfl⟩
    rw [withEntries, List.getElem?_append_right (by simp)]
    simp [Entry.compiled, Entry.replace]
  · intro other middle hother hless
    rw [hentries, List.getElem?_append_right (by omega)] at hother
    rw [withEntries, List.getElem?_append_right (by simp; omega), List.length_map]
    obtain ⟨past, hpast⟩ : ∃ past, other - front.length = past + 1 :=
      ⟨other - front.length - 1, by omega⟩
    rw [hpast] at hother ⊢
    exact hother

/-- Where compiling a tree fails it stops at a point, and this point tells what is left of each
group that was being built. -/
theorem exists_stopsAt {group : Group} {ctx : Context} {e : ConditionError} {trace : Trace}
    (hctx : ctx.Functional) (hsettled : group.Everywhere Settled)
    (h : (group.compile ctx trace).result = .error e) :
    ∃ point, group.StopsAt ctx e point ∧ group.Halts ctx point (group.compile ctx trace).left := by
  induction group using nestedInduction generalizing e trace with
  | step group ih =>
      have hways := group.compiles ctx trace
      generalize group.compile ctx trace = outcome at h hways ⊢
      cases hways with
      | skipped | finished => cases h
      | unnamed hstate hsubject =>
          cases h
          refine ⟨[0], .unnamed hstate hsubject, ?_⟩
          refine halts_cons hctx hsettled (phase_eq_building_iff.2 hstate) ?_ ?_ ?_ ?_
          · simp [List.cons_lt_cons_iff]
          · exact fun _ _ _ hless => absurd hless (Nat.not_lt_zero _)
          · exact fun middle hplace => ⟨middle, hplace, halts_nil middle ctx⟩
          · exact fun _ _ hother _ => hother
      | @stopped subject e' hstate hsubject hwalk =>
          cases h
          obtain ⟨front, entry, back, hentries, hfront, hfails, hleft⟩ :=
            Entry.compileAll_error hctx (Draft.sound_empty ctx group.keys subject) hwalk
          unfold walk
          rw [hleft]
          cases entry with
          | leaf own =>
              refine ⟨_, .leaf hstate hsubject hentries hfront hfails, ?_⟩
              refine halts_of_split hctx hsettled hstate hentries hfront fun middle heq => ?_
              cases heq
          | nested inner =>
              have hmem : Entry.nested inner ∈ group.entries := by simp [hentries]
              obtain ⟨point, hstops, hhalts⟩ := ih inner hmem (hsettled.nested hmem) hfails
              refine ⟨_, .nested hstate hsubject hentries hfront hstops, ?_⟩
              refine halts_of_split hctx hsettled hstate hentries hfront fun middle heq => ?_
              cases heq
              exact hhalts
      | @unbound subject draft e' hstate hsubject hwalk hbundle =>
          cases h
          have hsound := Draft.sound_empty ctx group.keys subject
          have hentries := (Entry.exists_compileAll_iff hctx hsound).1 ⟨draft, hwalk⟩
          have hleft : (group.walk ctx subject trace).left =
              group.entries.map (Entry.compiled ctx) :=
            Entry.left_compileAll_of_ok hctx hsound hwalk
          rw [hleft]
          refine ⟨[group.size], .unbound hstate hsubject hentries hbundle, ?_⟩
          -- Every entry comes before the end.
          have hnone : ∀ other, ¬ other < group.size → group.entries[other]? = none :=
            fun other hother => List.getElem?_eq_none (Nat.le_of_not_lt hother)
          refine halts_cons hctx hsettled (phase_eq_building_iff.2 hstate) ?_ ?_ ?_ ?_
          · simp
          · intro other middle hother _
            refine ⟨hentries _ (List.mem_of_getElem? hother), ?_⟩
            rw [withEntries, List.getElem?_map, hother]
            rfl
          · intro middle hplace
            rw [hnone _ (Nat.lt_irrefl _)] at hplace
            cases hplace
          · intro other middle hother hless
            rw [hnone other (Nat.lt_asymm hless)] at hother
            cases hother

/-- Compiling a tree in a functional context changes nothing but the states of groups, and leaves
the groups that are compiled already as they are.  If it succeeds, no group of the tree is being
built.  If it fails, then at a point of the tree: the groups that were being built and end before it
are compiled as on their own, the others, the root among them, are still being built, those after
the point untouched, and compiling again fails with the same error and changes nothing. -/
theorem progress_of_compile {group : Group} {ctx : Context} (hreach : group.Reachable)
    (hctx : ctx.Functional) (trace : Trace) :
    (group.compile ctx trace).left.bare = group.bare ∧
      (∀ path inner, group.at? path = some inner → inner.phase ≠ .building →
        (group.compile ctx trace).left.at? path = some inner) ∧
      ((group.compile ctx trace).result = .ok () →
        (group.compile ctx trace).left.Everywhere fun inner => inner.phase ≠ .building) ∧
      ∀ e, (group.compile ctx trace).result = .error e →
        (group.compile ctx trace).left.phase = .building ∧
          (∃ point, group.StopsAt ctx e point ∧
            group.Halts ctx point (group.compile ctx trace).left) ∧
          ∀ later, ((group.compile ctx trace).left.compile ctx later).result = .error e ∧
            ((group.compile ctx trace).left.compile ctx later).left =
              (group.compile ctx trace).left := by
  obtain ⟨steps, hsteps⟩ := hreach
  have hsettled := (settled_invariant (Workspace.Uses steps)).everywhere hsteps
  refine ⟨bare_compile ctx group trace, fun path inner => at?_compile_of_phase ctx trace,
    phase_compile hsettled, fun e h => ⟨?_, exists_stopsAt hctx hsettled h, fun later => ?_⟩⟩
  · exact phase_eq_building_iff.2 (state_compile_of_error h)
  · obtain ⟨hresult, hleft⟩ := compile_compile hctx group trace later
    exact ⟨hresult.trans h, hleft⟩

end Group

/-- Build a group that holds one that has been compiled before, a union with a branch on a field
that nodes do not have, and one more group. -/
def Sample.halting : List WorkspaceStep :=
  [.make "page" .and keys,
    .makeSibling "titled" "page" .and, .addPresent "titled" "title",
    .compile "titled" context, .nest "page" "titled",
    .addPresent "page" "tag",
    .makeSibling "some" "page" .or, .addPresent "some" "tag", .addPresent "some" "body",
    .addPresent "some" "title", .nest "page" "some",
    .makeSibling "last" "page" .and, .nest "page" "last"]

/-- The group that is built. -/
def Sample.haltingPage : Group :=
  ((Workspace.run {} halting).get? "page").getD default

/-- Compiling that group stops in the second branch of the union.  The first branch is compiled by
then; the union, its last branch and the last group are not. -/
theorem Group.progress_of_halting :
    Sample.haltingPage.Reachable ∧ Sample.context.Functional ∧
      (Sample.haltingPage.compile Sample.context []).result =
        .error (.unknownFieldMapping "node" "body") ∧
      [[], [0], [2], [2, 0], [2, 1], [2, 2], [3]].map (fun path =>
          ((Sample.haltingPage.compile Sample.context []).left.at? path).map phase) =
        [some .building, some .compiled, some .building, some .compiled, some .building,
          some .building, some .building] ∧
      (∃ point, Sample.haltingPage.StopsAt Sample.context (.unknownFieldMapping "node" "body")
          point ∧
        Sample.haltingPage.Halts Sample.context point
          (Sample.haltingPage.compile Sample.context []).left) ∧
      ∀ later, ((Sample.haltingPage.compile Sample.context []).left.compile Sample.context
        later).result = .error (.unknownFieldMapping "node" "body") := by
  have hreach : Sample.haltingPage.Reachable := ⟨Sample.halting, "page", rfl⟩
  have hctx : Sample.context.Functional := Context.functional_of_table "node" Sample.table {}
  have hfails : (Sample.haltingPage.compile Sample.context []).result =
      .error (.unknownFieldMapping "node" "body") := rfl
  obtain ⟨_, _, _, hstops⟩ := progress_of_compile hreach hctx []
  obtain ⟨_, hhalts, hagain⟩ := hstops _ hfails
  exact ⟨hreach, hctx, hfails, rfl, hhalts, fun later => (hagain later).1⟩

end GraphCriteria
