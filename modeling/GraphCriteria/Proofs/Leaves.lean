import GraphCriteria.Proofs.Described
import GraphCriteria.Proofs.Reachable

/-!
# What the own leaves of a group say

The mark of a group that says whether it lacks a bundle is kept beside its entries.  Whatever
happens to the group, it says that no own leaf narrows the group to some bundle.  The leaves
themselves stay as building stores them, and a union has none of its own.

Main results:

- Theorem `Group.marked_invariant`: the mark fits the own leaves after every operation.
- Theorem `Group.needsDefaultBundle_iff`: a group is linked to its bundle by a triple of its own
  exactly when it joins its conditions by AND and no own leaf narrows it to some bundle.
- Theorem `Group.wellStored_invariant`: own leaves are stored leaves after every operation.
-/

namespace GraphCriteria

namespace Group

/-- The mark says that no own leaf narrows the group to some bundle. -/
def Marked (group : Group) : Prop :=
  group.lacksBundle = group.ownLeaves.all fun leaf => !(group.keys.kind leaf.field).narrows

/-- The mark fits the own leaves after every operation. -/
theorem marked_invariant (used : Context → Prop) : Invariant used Marked where
  new conjunction keys := rfl
  pushLeaf group leaf h _ _ _ := by
    have h' : group.lacksBundle =
        (Entry.leaves group.entries).all fun leaf => !(group.keys.kind leaf.field).narrows := h
    simp [Marked, ownLeaves, pushLeaf, pushEntry, h']
  pushNested group inner h _ := by
    simpa [Marked, ownLeaves, pushEntry] using h
  stop group ctx subject trace h _ := by
    rw [Marked, ownLeaves, withEntries, leaves_walk]
    exact h
  finish group ctx subject trace draft triple? _ h _ _ _ _ _ := by
    rw [Marked, ownLeaves, withPlan, leaves_walk]
    exact h
  fail group plan h _ := by
    rw [Marked, ownLeaves, withEntries, Entry.leaves_rendered]
    exact h
  render group plan text h _ _ := by
    rw [Marked, ownLeaves, withText, Entry.leaves_rendered]
    exact h

/-- A group is linked to its bundle by a triple of its own exactly when it joins its conditions
by AND and no own leaf narrows it to some bundle. -/
theorem needsDefaultBundle_iff {group : Group} (h : group.Marked) :
    group.needsDefaultBundle = true ↔ group.conjunction = .and ∧
      ∀ leaf ∈ group.ownLeaves, (group.keys.kind leaf.field).narrows = false := by
  unfold Marked at h
  simp [needsDefaultBundle, h]

/-- An AND group that needs no triple of its own has a leaf that narrows it to some bundle. -/
theorem exists_narrowing_leaf {group : Group} (h : group.Marked)
    (hand : group.conjunction = .and) (hneeds : group.needsDefaultBundle = false) :
    ∃ leaf ∈ group.ownLeaves, (group.keys.kind leaf.field).narrows = true := by
  unfold Marked at h
  simpa [needsDefaultBundle, hand, h] using hneeds

end Group

/-! ## Stored leaves -/

namespace EntityKeys.Stores

variable {keys : EntityKeys} {leaf : Leaf}

/-- A stored leaf is that of a condition without faults. -/
theorem exists_asked (h : keys.Stores leaf) :
    ∃ asked, keys.askingFaults asked = [] ∧ leaf = keys.stored asked := by
  obtain ⟨name, value, operator, language, hleaf⟩ := h
  have heq := keys.leaf_eq ⟨baseField name, value, operator, language⟩
  dsimp only at heq
  rw [hleaf] at heq
  cases hfaults : keys.askingFaults ⟨baseField name, value, operator, language⟩ with
  | nil =>
      rw [hfaults] at heq
      cases heq
      exact ⟨_, hfaults, rfl⟩
  | cons e faults =>
      rw [hfaults] at heq
      cases heq

/-- On a key a set of members is stored, without a language. -/
theorem of_isKey (h : keys.Stores leaf) (hkey : (keys.kind leaf.field).isKey = true) :
    (∃ texts, leaf.value = some (.list texts)) ∧ leaf.language = none ∧
      (leaf.operator = .isIn ∨ leaf.operator = .notIn) := by
  obtain ⟨asked, hfaults, rfl⟩ := h.exists_asked
  rw [field_stored] at hkey
  obtain ⟨value, _, hvalue, hlanguage, hoperator⟩ := stored_of_isKey hkey hfaults
  exact ⟨⟨_, hvalue⟩, hlanguage, hoperator⟩

/-- What is excluded is a set of members, on every field. -/
theorem of_notIn (h : keys.Stores leaf) (hoperator : leaf.operator = .notIn) :
    ∃ texts, leaf.value = some (.list texts) := by
  by_cases hkey : (keys.kind leaf.field).isKey = true
  · exact (h.of_isKey hkey).1
  · obtain ⟨asked, hfaults, rfl⟩ := h.exists_asked
    rw [field_stored] at hkey
    obtain ⟨field, value, operator, language⟩ := asked
    unfold askingFaults at hfaults
    unfold stored at hoperator ⊢
    rw [if_neg hkey] at hfaults hoperator ⊢
    cases operator <;> cases value <;> simp_all [Operator.usesValue, Operator.rule]

end EntityKeys.Stores

namespace Group

/-- The own leaves of a group are stored under its keys, and a union has none. -/
structure WellStored (group : Group) : Prop where
  stored : ∀ leaf ∈ group.ownLeaves, group.keys.Stores leaf
  union : group.conjunction = .or → group.ownLeaves = []

/-- A group in which only the states of nested groups differ has the same own leaves. -/
theorem WellStored.congr {group other : Group} (h : group.WellStored)
    (hconjunction : other.conjunction = group.conjunction) (hkeys : other.keys = group.keys)
    (hleaves : other.ownLeaves = group.ownLeaves) : other.WellStored where
  stored := by
    rw [hkeys, hleaves]
    exact h.stored
  union hor := by
    rw [hleaves]
    exact h.union (hconjunction ▸ hor)

/-- Own leaves are stored leaves after every operation. -/
theorem wellStored_invariant (used : Context → Prop) : Invariant used WellStored where
  new conjunction keys := by
    refine ⟨fun leaf hleaf => ?_, fun _ => rfl⟩
    cases hleaf
  pushLeaf group leaf h _ hand hleaf := by
    have hleaves : (group.pushLeaf leaf).ownLeaves = group.ownLeaves ++ [leaf] :=
      Entry.leaves_append group.entries [.leaf leaf]
    refine ⟨fun own hown => ?_, fun hor => ?_⟩
    · rw [hleaves, List.mem_append, List.mem_singleton] at hown
      rcases hown with hold | rfl
      · exact h.stored own hold
      · exact hleaf
    · have hor' : group.conjunction = .or := hor
      rw [hand] at hor'
      cases hor'
  pushNested group inner h _ := by
    have hleaves : (group.pushEntry (.nested inner)).ownLeaves = group.ownLeaves ++ [] :=
      Entry.leaves_append group.entries [.nested inner]
    exact h.congr rfl rfl (hleaves.trans (List.append_nil _))
  stop group ctx subject trace h _ := h.congr rfl rfl (leaves_walk group ctx subject trace)
  finish group ctx subject trace draft triple? _ h _ _ _ _ _ :=
    h.congr rfl rfl (leaves_walk group ctx subject trace)
  fail group plan h _ := h.congr rfl rfl (Entry.leaves_rendered group.entries)
  render group plan text h _ _ := h.congr rfl rfl (Entry.leaves_rendered group.entries)

end Group

end GraphCriteria
