/-
This file says when a memory holds a forest and nothing else, and why relinking
keeps it so.

The items that are allocated are the items of the forest, each once, and the texts
that are allocated are the ones the items own and the ones the caller lent, each
once. So nothing is lost, nothing dangles and nothing has two owners. Every edit of
one item's list of children exchanges items between that list and the roots, and
one lemma covers all of them.
-/

import DiffServSimulation.CjsonForest

namespace DiffServSimulation

open Faulting LinkedRing Layout Memory

namespace Memory

/-- A memory without some items and some texts. -/
def erase (memory : Memory) (items texts : List Address) : Memory :=
  { memory with
    items := fun address => if address ∈ items then none else memory.items address
    texts := fun address => if address ∈ texts then none else memory.texts address }

theorem erase_items_of_not_mem (memory : Memory) {items : List Address} (texts : List Address)
    {address : Address} (outside : address ∉ items) :
    (memory.erase items texts).items address = memory.items address := if_neg outside

theorem erase_texts_of_not_mem (memory : Memory) (items : List Address) {texts : List Address}
    {address : Address} (outside : address ∉ texts) :
    (memory.erase items texts).texts address = memory.texts address := if_neg outside

theorem erase_nil (memory : Memory) : memory.erase [] [] = memory := by
  simp [erase]

theorem erase_erase (memory : Memory) (items texts more moreTexts : List Address) :
    (memory.erase items texts).erase more moreTexts =
      memory.erase (items ++ more) (texts ++ moreTexts) := by
  simp only [erase, mk.injEq, and_true, List.mem_append]
  constructor
  all_goals
    funext address
    split_ifs <;> simp_all

/-- What is erased matters, and not the order. -/
theorem erase_perm (memory : Memory) {items others texts otherTexts : List Address}
    (perm : items.Perm others) (permTexts : texts.Perm otherTexts) :
    memory.erase items texts = memory.erase others otherTexts := by
  simp only [erase, perm.mem_iff, permTexts.mem_iff]

end Memory

/-- The items that are allocated are the ones of a forest, the roots without siblings. -/
structure Shaped (items : Heap Address Fields) (forest : List Branch) : Prop where
  loose : ∀ branch ∈ forest, items branch.address = some ⟨none, none, branch.fields⟩
  stored : (link forest).Stored items
  distinct : (link forest).footprint.Nodup
  allocated : ∀ address, items address ≠ none ↔ address ∈ (link forest).footprint

/-- The texts that are allocated are the ones the items of a forest own and the ones the caller
lent. Constant names are the caller's. -/
structure Owned (texts : Address → Option CString) (borrowed : List Address)
    (forest : List Branch) : Prop where
  distinct : ((link forest).texts ++ borrowed).Nodup
  allocated : ∀ address, texts address ≠ none ↔ address ∈ (link forest).texts ++ borrowed
  constant : (link forest).constants ⊆ borrowed

/-- A memory holds a forest, texts of the caller, and nothing else. -/
structure Consistent (memory : Memory) (borrowed : List Address) (forest : List Branch) : Prop where
  shaped : Shaped memory.items forest
  owned : Owned memory.texts borrowed forest

/-! ### Roots in another order -/

section Order

variable {items : Heap Address Fields} {texts : Address → Option CString} {memory : Memory}
  {borrowed : List Address} {forest others : List Branch}

theorem Shaped.perm (shaped : Shaped items forest) (perm : forest.Perm others) :
    Shaped items others where
  loose branch member := shaped.loose branch (perm.mem_iff.mpr member)
  stored := (stored_link others).mpr fun branch member =>
    (stored_link forest).mp shaped.stored branch (perm.mem_iff.mpr member)
  distinct := (collect_link_perm _ perm).nodup_iff.mp shaped.distinct
  allocated address := (shaped.allocated address).trans (collect_link_perm _ perm).mem_iff

/-- Ownership is about the texts and the constant names of a forest alone. -/
theorem Owned.exchange (owned : Owned texts borrowed forest)
    (same : (link forest).texts.Perm (link others).texts)
    (constant : (link forest).constants.Perm (link others).constants) :
    Owned texts borrowed others where
  distinct := (same.append_right borrowed).nodup_iff.mp owned.distinct
  allocated address := (owned.allocated address).trans (same.append_right borrowed).mem_iff
  constant := List.Subset.trans constant.symm.subset owned.constant

theorem Owned.perm (owned : Owned texts borrowed forest) (perm : forest.Perm others) :
    Owned texts borrowed others :=
  owned.exchange (collect_link_perm _ perm) (collect_link_perm _ perm)

theorem Consistent.perm (consistent : Consistent memory borrowed forest)
    (perm : forest.Perm others) : Consistent memory borrowed others :=
  ⟨consistent.shaped.perm perm, consistent.owned.perm perm⟩

/-- The cell of an item of a forest, and what is below it. -/
theorem Shaped.holds (shaped : Shaped items forest) {target : Address} {fields : Fields}
    {children : Layout} (has : (link forest).Has target fields children) :
    (∃ next prev, items target = some ⟨next, prev, fields⟩) ∧ Owns fields children ∧
      Ringed items children.entries ∧ children.Stored items := by
  refine has.holds shaped.stored fun entry member => ?_
  rw [entries_link] at member
  obtain ⟨branch, isBranch, rfl⟩ := List.mem_map.mp member
  exact ⟨none, none, shaped.loose branch isBranch⟩

end Order

/-! ### Edits -/

namespace Layout

theorem addresses_entries (chain : Layout) :
    addresses chain.entries = chain.branches.map Branch.address := by
  simp [addresses, entries]

/-- Items that pass between a list of children and the roots keep what they have. -/
theorem collect_edited_perm {Value : Type} (each : Address → Fields → List Value)
    (blind : ∀ address fields child, each address { fields with child := child } =
      each address fields)
    {rest given freed : List Branch} {target : Address} {fields : Fields} {children others : Layout}
    (has : (link rest).Has target fields children) (distinct : (link rest).footprint.Nodup)
    (perm : (children.branches ++ given).Perm (others.branches ++ freed)) :
    ((link (((link rest).edit target others).branches ++ freed)).collect each).Perm
      ((link (rest ++ given)).collect each) := by
  have exchanged := edit_collect_perm each blind others has distinct
  have passed := collect_link_perm each perm
  simp only [collect_link_append, link_branches, ← Multiset.coe_eq_coe, ← Multiset.coe_add]
    at exchanged passed ⊢
  refine add_right_cancel (b := (others.collect each : Multiset Value) + children.collect each) ?_
  calc _ = ((((link rest).edit target others).collect each : Multiset Value) +
          children.collect each) + (others.collect each + (link freed).collect each) := by abel
    _ = ((link rest).collect each + others.collect each) +
          (children.collect each + (link given).collect each) := by rw [exchanged, passed]
    _ = _ := by abel

end Layout

section Edits

variable {items after : Heap Address Fields} {memory : Memory} {borrowed touched : List Address}
  {rest given freed : List Branch} {target : Address} {fields : Fields} {children others : Layout}

/-- The children of an item and further roots are apart from one another. -/
theorem Shaped.distinct_with (shaped : Shaped items (rest ++ given))
    (has : (link rest).Has target fields children) :
    (link (children.branches ++ given)).footprint.Nodup ∧
      target ∉ (link (children.branches ++ given)).footprint := by
  have distinct := shaped.distinct
  rw [footprint_append, List.nodup_append'] at distinct
  obtain ⟨distinctRest, distinctGiven, disjoint⟩ := distinct
  obtain ⟨outside, distinctChildren⟩ := has.distinct distinctRest
  rw [footprint_append, link_branches, List.nodup_append', List.mem_append, not_or]
  exact ⟨⟨distinctChildren, distinctGiven, fun _ below among =>
      disjoint (has.footprint_subset below) among⟩,
    outside, fun among => disjoint has.mem_footprint among⟩

/-- An item outside the edited list and the further roots is not touched. -/
theorem Shaped.frame (shaped : Shaped items (rest ++ given))
    (edited : Edited items after target touched others.entries)
    (within : touched ⊆ addresses (link (children.branches ++ given)).entries) {address : Address}
    (inside : address ∈ (link rest).footprint) (apart : address ≠ target)
    (outside : address ∉ children.footprint) : after address = items address := by
  refine edited.frame address (List.not_mem_cons_of_ne_of_not_mem apart fun isTouched => ?_)
  have member := within isTouched
  rw [entries_link_append, addresses_append, link_branches, List.mem_append] at member
  have distinct := shaped.distinct
  rw [footprint_append] at distinct
  rcases member with below | among
  · exact outside (addresses_entries_subset children below)
  · exact List.disjoint_of_nodup_append distinct inside (addresses_entries_subset _ among)

/-- What is below the edited list and below the further roots is not touched. -/
theorem Shaped.stored_after (shaped : Shaped items (rest ++ given))
    (has : (link rest).Has target fields children)
    (edited : Edited items after target touched others.entries)
    (within : touched ⊆ addresses (link (children.branches ++ given)).entries)
    (perm : (children.branches ++ given).Perm (others.branches ++ freed)) :
    others.Stored after ∧ (link freed).Stored after := by
  obtain ⟨distinct, outside⟩ := shaped.distinct_with has
  have stored := (stored_link _).mp shaped.stored
  have below : children.Stored items := (shaped.holds (has_append has)).2.2.2
  have all : (link (children.branches ++ given)).Stored items := by
    refine (stored_link _).mpr fun branch member => ?_
    rcases List.mem_append.mp member with among | among
    · rw [← link_branches children] at below
      exact (stored_link _).mp below branch among
    · exact stored branch (List.mem_append_right _ among)
  have same : ∀ address ∈ (link (children.branches ++ given)).inner,
      after address = items address := fun address inside =>
    edited.frame address (List.not_mem_cons_of_ne_of_not_mem
      (ne_of_mem_of_not_mem (inner_subset _ inside) outside)
      fun isTouched => not_mem_inner distinct (within isTouched) inside)
  have kept := (stored_link _).mp (all.congr same)
  constructor
  · rw [← link_branches others]
    exact (stored_link _).mpr fun branch member =>
      kept branch (perm.mem_iff.mpr (List.mem_append_left _ member))
  · exact (stored_link _).mpr fun branch member =>
      kept branch (perm.mem_iff.mpr (List.mem_append_right _ member))

/-- An edit allocates nothing and frees nothing. -/
theorem Shaped.allocated_after (shaped : Shaped items (rest ++ given))
    (has : (link rest).Has target fields children)
    (edited : Edited items after target touched others.entries)
    (within : touched ⊆ addresses (link (children.branches ++ given)).entries)
    (perm : (children.branches ++ given).Perm (others.branches ++ freed))
    (loose : ∀ branch ∈ freed, after branch.address = some ⟨none, none, branch.fields⟩)
    (address : Address) : after address ≠ none ↔ items address ≠ none := by
  by_cases here : address = target
  · rw [here, edited.parent, ne_eq, ne_eq, Option.map_eq_none_iff]
  by_cases isTouched : address ∈ touched
  · refine iff_of_true ?_ ((shaped.allocated address).mpr ?_)
    · have member := within isTouched
      rw [addresses_entries, branches_link, (perm.map _).mem_iff, List.map_append,
        List.mem_append] at member
      rcases member with among | among
      · rw [← addresses_entries] at among
        exact edited.lists.mem_ne_none among
      · obtain ⟨branch, isBranch, rfl⟩ := List.mem_map.mp among
        simp [loose branch isBranch]
    · have member := addresses_entries_subset _ (within isTouched)
      rw [footprint_append, link_branches, List.mem_append] at member
      rw [footprint_append, List.mem_append]
      exact member.imp_left fun below => has.footprint_subset below
  · rw [edited.frame address (List.not_mem_cons_of_ne_of_not_mem here isTouched)]

/-- An edit of the list of children of one item: `given` roots go in, and `freed` ones come out. -/
theorem Shaped.edited (shaped : Shaped items (rest ++ given))
    (has : (link rest).Has target fields children) (owner : fields.isReference = false)
    (perm : (children.branches ++ given).Perm (others.branches ++ freed))
    (edited : Edited items after target touched others.entries)
    (within : touched ⊆ addresses (link (children.branches ++ given)).entries)
    (loose : ∀ branch ∈ freed, after branch.address = some ⟨none, none, branch.fields⟩) :
    Shaped after (((link rest).edit target others).branches ++ freed) := by
  have distinct := shaped.distinct
  rw [footprint_append, List.nodup_append'] at distinct
  have frame : ∀ address ∈ (link rest).footprint, address ≠ target →
      address ∉ children.footprint → after address = items address :=
    fun _ inside apart outside => shaped.frame edited within inside apart outside
  have same := collect_edited_perm (fun address _ => [address]) (fun _ _ _ => rfl) has distinct.1
    perm
  obtain ⟨below, freedStored⟩ := shaped.stored_after has edited within perm
  have parent : after target = (items target).map fun item =>
      { item with value := { item.value with child := others.first } } := by
    rw [first_eq_front]
    exact edited.parent
  refine ⟨fun branch member => ?_, ?_, same.nodup_iff.mpr shaped.distinct, fun address => ?_⟩
  · rcases List.mem_append.mp member with among | among
    · have isEntry : (branch.address, branch.fields) ∈ ((link rest).edit target others).entries :=
        List.mem_map_of_mem among
      rw [entries_edit] at isEntry
      obtain ⟨_, isOld, isNew⟩ := List.mem_map.mp isEntry
      obtain ⟨old, isBranch, rfl⟩ := List.mem_map.mp isOld
      rw [branches_link] at isBranch
      obtain ⟨address : old.address = branch.address,
        fieldsEq : editFields target others old.address old.fields = branch.fields⟩ :=
          Prod.mk.inj isNew
      have cell := shaped.loose old (List.mem_append_left _ isBranch)
      rw [← address, ← fieldsEq]
      by_cases here : old.address = target
      · subst here
        simp [parent, cell, editFields]
      · have inside : old.address ∈ addresses (link rest).entries := by
          rw [addresses_entries, branches_link]
          exact List.mem_map_of_mem isBranch
        rw [frame _ (addresses_entries_subset _ inside) here (has.apart distinct.1 inside), cell]
        simp [editFields, here]
    · exact loose branch among
  · have stored : (link rest).Stored items := (stored_link rest).mpr fun branch member =>
      (stored_link _).mp shaped.stored branch (List.mem_append_left _ member)
    have edits := stored.edit has owner distinct.1 edited.lists.ring below parent frame
    rw [← link_branches ((link rest).edit target others)] at edits
    refine (stored_link _).mpr fun branch member => ?_
    rcases List.mem_append.mp member with among | among
    · exact (stored_link _).mp edits branch among
    · exact (stored_link _).mp freedStored branch among
  · rw [shaped.allocated_after has edited within perm loose, shaped.allocated]
    exact same.mem_iff.symm

theorem Consistent.edited (consistent : Consistent memory borrowed (rest ++ given))
    (has : (link rest).Has target fields children) (owner : fields.isReference = false)
    (perm : (children.branches ++ given).Perm (others.branches ++ freed))
    (edited : Edited memory.items after target touched others.entries)
    (within : touched ⊆ addresses (link (children.branches ++ given)).entries)
    (loose : ∀ branch ∈ freed, after branch.address = some ⟨none, none, branch.fields⟩) :
    Consistent (memory.withItems after) borrowed
      (((link rest).edit target others).branches ++ freed) := by
  have distinct := consistent.shaped.distinct
  rw [footprint_append, List.nodup_append'] at distinct
  exact ⟨consistent.shaped.edited has owner perm edited within loose, consistent.owned.exchange
    (collect_edited_perm _ (fun _ _ _ => rfl) has distinct.1 perm).symm
    (collect_edited_perm _ (fun _ _ _ => rfl) has distinct.1 perm).symm⟩

end Edits

/-! ### Items that come and go -/

section Roots

variable {memory : Memory} {borrowed : List Address} {branch : Branch} {forest rest : List Branch}

theorem Shaped.erase (shaped : Shaped memory.items (branch :: rest)) (texts : List Address) :
    Shaped (memory.erase (link [branch]).footprint texts).items rest := by
  have distinct := shaped.distinct
  rw [footprint_cons, List.nodup_append'] at distinct
  obtain ⟨-, distinctRest, disjoint⟩ := distinct
  have kept : ∀ address ∈ (link rest).footprint,
      (memory.erase (link [branch]).footprint texts).items address = memory.items address :=
    fun address member => memory.erase_items_of_not_mem texts fun gone => disjoint gone member
  refine ⟨fun other member => ?_, ?_, distinctRest, fun address => ?_⟩
  · rw [kept]
    · exact shaped.loose other (List.mem_cons_of_mem _ member)
    · refine addresses_entries_subset _ ?_
      rw [addresses_entries, branches_link]
      exact List.mem_map_of_mem member
  · have stored : (link rest).Stored memory.items := (stored_link rest).mpr fun other member =>
      (stored_link _).mp shaped.stored other (List.mem_cons_of_mem _ member)
    exact stored.congr fun address inside => kept address (inner_subset _ inside)
  · by_cases gone : address ∈ (link [branch]).footprint
    · exact iff_of_false (fun present => present (if_pos gone)) fun inside => disjoint gone inside
    · rw [memory.erase_items_of_not_mem texts gone, shaped.allocated, footprint_cons,
        List.mem_append]
      exact or_iff_right gone

/-- What an exchange of owned and lent texts leaves over may be freed. -/
theorem Owned.erase {lent gone : List Address} {others : List Branch}
    (owned : Owned memory.texts lent forest)
    (whole : ((link forest).texts ++ lent).Perm (gone ++ ((link others).texts ++ borrowed)))
    (constant : (link others).constants ⊆ borrowed) (items : List Address) :
    Owned (memory.erase items gone).texts borrowed others := by
  obtain ⟨-, distinct, disjoint⟩ := List.nodup_append'.mp (whole.nodup_iff.mp owned.distinct)
  refine ⟨distinct, fun address => ?_, constant⟩
  by_cases isGone : address ∈ gone
  · exact iff_of_false (fun present => present (if_pos isGone)) fun inside => disjoint isGone inside
  · rw [memory.erase_texts_of_not_mem items isGone, owned.allocated, whole.mem_iff, List.mem_append]
    exact or_iff_right isGone

/-- A forest without one of its roots, and without what is below it. -/
theorem Consistent.erase (consistent : Consistent memory borrowed (branch :: rest)) :
    Consistent (memory.erase (link [branch]).footprint (link [branch]).texts) borrowed rest := by
  have constant := consistent.owned.constant
  rw [constants_cons] at constant
  refine ⟨consistent.shaped.erase _, consistent.owned.erase ?_
    (List.Subset.trans (List.subset_append_right _ _) constant) _⟩
  rw [texts_cons, List.append_assoc]

end Roots

end DiffServSimulation
