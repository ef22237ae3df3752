/-
This file says what the editing functions of the vendored JSON library do to a
forest: each of them exchanges the children of one item for an edited list.

Adding appends a root, inserting puts it before another child, detaching makes a
child a root, and replacing puts a root in the place of a child, which is deleted.
None of them meets a fault on a memory that holds a forest and nothing else, and
each leaves such a memory.
-/

import DiffServSimulation.CjsonFilling

namespace DiffServSimulation

open Faulting LinkedRing Layout Memory

/-- An item stands in a forest and owns a list of children. -/
structure Container (forest : List Branch) (target : Address) (fields : Fields)
    (children : List Branch) : Prop where
  has : (link forest).Has target fields (link children)
  owner : fields.isReference = false

/-- A forest with other children for one item. -/
def withChildren (forest : List Branch) (target : Address) (children : List Branch) : List Branch :=
  ((link forest).edit target (link children)).branches

section Containers

variable {memory : Memory} {borrowed : List Address} {rest : List Branch} {branch : Branch}
  {target : Address} {fields : Fields} {children before behind : List Branch}

theorem Container.cell (container : Container rest target fields children)
    (consistent : Consistent memory borrowed rest) :
    (∃ next prev, memory.items target = some ⟨next, prev, fields⟩) ∧
      fields.child = (link children).first ∧ Ringed memory.items (link children).entries := by
  obtain ⟨cell, owns, ring, -⟩ := consistent.shaped.holds container.has
  rw [Owns, if_neg (by simp [container.owner])] at owns
  exact ⟨cell, owns, ring⟩

/-- The children of an item are a list in the memory. -/
theorem Container.lists (container : Container rest target fields children)
    (consistent : Consistent memory borrowed rest) :
    Lists memory.items target (link children).entries := by
  obtain ⟨⟨next, prev, present⟩, child, ring⟩ := container.cell consistent
  obtain ⟨outside, distinct⟩ := container.has.distinct consistent.shaped.distinct
  exact ⟨⟨_, present, child.trans (first_eq_front _)⟩, ring,
    (addresses_entries_sublist _).nodup distinct,
    fun member => outside (addresses_entries_subset _ member)⟩

/-- A container among some roots is one among more of them. -/
theorem Container.cons (container : Container rest target fields children) (branch : Branch) :
    Container (branch :: rest) target fields children :=
  ⟨.inr (.inr container.has), container.owner⟩

/-- The order of the roots makes no difference to a container. -/
theorem Container.perm {others : List Branch} (container : Container rest target fields children)
    (perm : rest.Perm others) : Container others target fields children := by
  obtain ⟨branch, member, isHere⟩ := has_link_iff.mp container.has
  exact ⟨has_link_iff.mpr ⟨branch, perm.subset member, isHere⟩, container.owner⟩

/-- A root is apart from a container among the other roots and from its children. -/
theorem Container.apart (container : Container rest target fields children)
    (consistent : Consistent memory borrowed (branch :: rest)) :
    branch.address ≠ target ∧ branch.address ∉ addresses (link children).entries := by
  have behind : ([branch] ++ rest).Perm (rest ++ [branch]) := List.perm_append_comm
  have shaped := consistent.shaped.perm behind
  obtain ⟨distinct, outside⟩ := shaped.distinct_with container.has
  rw [branches_link, footprint_append, List.nodup_append'] at distinct
  rw [branches_link, footprint_append, List.mem_append, not_or] at outside
  have member : branch.address ∈ (link [branch]).footprint := List.mem_cons_self
  exact ⟨ne_of_mem_of_not_mem member outside.2,
    fun among => distinct.2.2 (addresses_entries_subset _ among) member⟩

/-- What an edit of the children of a container leaves. -/
theorem Consistent.relinked {after : Heap Address Fields} {others : List Branch}
    {touched : List Address} (given freed : List Branch)
    (consistent : Consistent memory borrowed (given ++ rest))
    (container : Container rest target fields children)
    (edited : Edited memory.items after target touched (link others).entries)
    (perm : (given ++ children).Perm (freed ++ others))
    (within : touched ⊆ (given ++ children).map Branch.address)
    (loose : ∀ branch ∈ freed, after branch.address = some ⟨none, none, branch.fields⟩) :
    Consistent (memory.withItems after) borrowed
      (freed ++ withChildren rest target others) := by
  refine ((consistent.perm List.perm_append_comm).edited container.has container.owner ?_ edited ?_
    loose).perm List.perm_append_comm
  · rw [branches_link, branches_link]
    exact List.perm_append_comm.trans (perm.trans List.perm_append_comm)
  · rw [addresses_entries, branches_link, branches_link]
    exact fun address member =>
      (List.perm_append_comm.map Branch.address).mem_iff.mp (within member)

/-- An edit of the children of a container keeps the items, and what they have. -/
theorem Container.collect_perm {Value : Type} (each : Address → Fields → List Value)
    (blind : ∀ address fields child,
      each address { fields with child := child } = each address fields)
    {given freed others : List Branch} (container : Container rest target fields children)
    (distinct : (link rest).footprint.Nodup) (perm : (given ++ children).Perm (freed ++ others)) :
    ((link (freed ++ withChildren rest target others)).collect each).Perm
      ((link (given ++ rest)).collect each) := by
  have exchanged : ((link children).branches ++ given).Perm ((link others).branches ++ freed) := by
    rw [branches_link, branches_link]
    exact List.perm_append_comm.trans (perm.trans List.perm_append_comm)
  have edited := collect_edited_perm each blind container.has distinct exchanged
  exact (collect_link_perm each List.perm_append_comm).trans
    (edited.trans (collect_link_perm each List.perm_append_comm))

/-- A child has no more items than the forest. -/
theorem Container.size_le {branch : Branch}
    (container : Container rest target fields (before ++ branch :: behind))
    (consistent : Consistent memory borrowed rest) :
    (link [branch]).footprint.length ≤ (link rest).footprint.length := by
  have distinct := (container.has.distinct consistent.shaped.distinct).2
  have within := (distinct.subperm container.has.footprint_subset).length_le
  rw [footprint_append, footprint_cons branch behind, List.length_append,
    List.length_append] at within
  omega

/-- There are no more children than items in the forest. -/
theorem Container.length_le (container : Container rest target fields children)
    (consistent : Consistent memory borrowed rest) :
    children.length ≤ (link rest).footprint.length := by
  have distinct := (container.has.distinct consistent.shaped.distinct).2
  have within := (distinct.subperm container.has.footprint_subset).length_le
  have below := (addresses_entries_sublist (link children)).length_le
  rw [addresses_entries, List.length_map, branches_link] at below
  exact below.trans within

end Containers

/-! ### Single edits -/

section Edits

variable {memory : Memory} {borrowed : List Address} {rest : List Branch} {branch other : Branch}
  {target : Address} {fields : Fields} {children before behind : List Branch}

/-- A root is appended to the children of an item. -/
theorem Consistent.addItemToArray_run (consistent : Consistent memory borrowed (branch :: rest))
    (container : Container rest target fields children) :
    ∃ after, (addItemToArray (some target) (some branch.address)).run memory =
        .ok (true, memory.withItems after) ∧
      Consistent (memory.withItems after) borrowed
        (withChildren rest target (children ++ [branch])) := by
  obtain ⟨apart, outside⟩ := container.apart consistent
  have loose := consistent.shaped.loose branch List.mem_cons_self
  have lists := (container.cons branch).lists consistent
  obtain ⟨after, ran, edited⟩ := Memory.addItemToArray_run lists loose apart outside
  have entries : (link children).entries ++ [(branch.address, branch.fields)] =
      (link (children ++ [branch])).entries := by simp [entries_link]
  rw [entries] at edited
  refine ⟨after, ran, consistent.relinked [branch] [] container edited
    List.perm_append_comm ?_ fun _ absent => nomatch absent⟩
  simp [addresses_entries]

/-- A child of an item becomes a root. -/
theorem Consistent.cJSONDetachItemViaPointer_run (consistent : Consistent memory borrowed rest)
    (container : Container rest target fields (before ++ branch :: behind)) :
    ∃ after, (cJSONDetachItemViaPointer (some target) (some branch.address)).run memory =
        .ok (some branch.address, memory.withItems after) ∧
      Consistent (memory.withItems after) borrowed
        (branch :: withChildren rest target (before ++ behind)) := by
  have lists := container.lists consistent
  have entries : (link (before ++ branch :: behind)).entries =
      (link before).entries ++ (branch.address, branch.fields) :: (link behind).entries := by
    simp [entries_link]
  rw [entries] at lists
  obtain ⟨after, ran, edited, loose⟩ := Memory.cJSONDetachItemViaPointer_run lists
  rw [← entries_link_append] at edited
  refine ⟨after, ran, consistent.relinked [] [branch] container edited
    List.perm_middle ?_ fun _ member => ?_⟩
  · rw [addresses_entries, branches_link, ← List.map_cons, List.nil_append]
    exact (List.perm_middle.map Branch.address).symm.subset
  · rw [List.mem_singleton.mp member, loose]

/-- A root is put before a child of an item. -/
theorem Consistent.linkBefore_run (consistent : Consistent memory borrowed (branch :: rest))
    (container : Container rest target fields (before ++ other :: behind)) :
    ∃ after, (linkBefore (some target) (some other.address) (some branch.address)).run memory =
        .ok (⟨⟩, memory.withItems after) ∧
      Consistent (memory.withItems after) borrowed
        (withChildren rest target (before ++ branch :: other :: behind)) := by
  obtain ⟨apart, outside⟩ := container.apart consistent
  have loose := consistent.shaped.loose branch List.mem_cons_self
  have lists := (container.cons branch).lists consistent
  have entries : (link (before ++ other :: behind)).entries =
      (link before).entries ++ (other.address, other.fields) :: (link behind).entries := by
    simp [entries_link]
  have edits : (link before).entries ++ (branch.address, branch.fields) ::
      (other.address, other.fields) :: (link behind).entries =
        (link (before ++ branch :: other :: behind)).entries := by simp [entries_link]
  rw [entries] at lists outside
  obtain ⟨after, ran, edited⟩ := Memory.linkBefore_run lists loose apart outside
  rw [edits] at edited
  have perm : (branch :: (before ++ other :: behind)).Perm
      (before ++ branch :: other :: behind) := List.perm_middle.symm
  refine ⟨after, ran, consistent.relinked [branch] [] container edited perm ?_
    fun _ absent => nomatch absent⟩
  rw [← entries, addresses_entries, branches_link]
  exact List.Subset.refl _

/-- A root takes the place of a child of an item, which is deleted. -/
theorem Consistent.cJSONReplaceItemViaPointer_run {fuel : Nat}
    (consistent : Consistent memory borrowed (branch :: rest))
    (container : Container rest target fields (before ++ other :: behind))
    (enough : (link [other]).footprint.length ≤ fuel) :
    ∃ after, (cJSONReplaceItemViaPointer fuel (some target) (some other.address)
        (some branch.address)).run memory = .ok (true, after) ∧
      Consistent after borrowed (withChildren rest target (before ++ branch :: behind)) := by
  obtain ⟨apart, outside⟩ := container.apart consistent
  have loose := consistent.shaped.loose branch List.mem_cons_self
  have lists := (container.cons branch).lists consistent
  have entries : (link (before ++ other :: behind)).entries =
      (link before).entries ++ (other.address, other.fields) :: (link behind).entries := by
    simp [entries_link]
  have edits : (link before).entries ++ (branch.address, branch.fields) ::
      (link behind).entries = (link (before ++ branch :: behind)).entries := by simp [entries_link]
  rw [entries] at lists outside
  obtain ⟨items, ran, edited, kept⟩ := relink_run lists loose apart outside
  obtain ⟨-, without, -, ne⟩ := lists.without
  have cell := kept.trans lists.middle
  have present : items other.address ≠ none := by simp [cell]
  have different : other.address ≠ branch.address := fun same => outside (by simp [addresses, same])
  have gone : other.address ∉ addresses ((link before).entries ++
      (branch.address, branch.fields) :: (link behind).entries) := by
    simp only [addresses, List.map_append, List.map_cons, List.mem_append, List.mem_cons,
      not_or] at without ⊢
    exact ⟨without.1, different, without.2⟩
  have unlinked := (edited.alter ne gone fun item => { item with next := none }).alter ne gone
    fun item => { item with prev := none }
  rw [edits] at unlinked
  have perm : (branch :: (before ++ other :: behind)).Perm
      (other :: (before ++ branch :: behind)) :=
    (List.perm_middle.cons branch).trans ((List.Perm.swap _ _ _).trans
      (List.perm_middle.symm.cons other))
  have relinked := consistent.relinked [branch] [other] container unlinked perm ?_
    fun _ member => ?_
  · have enabled : ¬ (some target = none ∨ some branch.address = none ∨
        some other.address = none) := by simp
    refine ⟨_, ?_, relinked.erase⟩
    rw [cJSONReplaceItemViaPointer, if_neg enabled,
      if_neg fun same => different (Option.some.inj same).symm, run_bind_ok _ _ _ _ _ ran, setNext,
      setPrev, run_assign_bind _ _ present, run_assign_bind _ _ (Heap.alter_ne_none _ _ present)]
    exact run_bind_ok _ _ _ _ _ (relinked.cJSONDelete_run enough)
  · intro address member
    simp [addresses, entries_link, Function.comp_def] at member ⊢
    grind
  · rw [List.mem_singleton.mp member]
    exact setNext_setPrev_self cell

end Edits

end DiffServSimulation
