/-
This file says what a heap of JSON items stands for: a forest of trees whose nodes
have addresses.

A `Layout` is a pointer with the items reached from it and their addresses, the
way `CJSON` is one without. A root of the forest stands alone, and the children of
every item form a ring. Items that are references, and names that are constants,
do not own what they lead to. A heap is `Consistent` with a forest if nothing is
allocated but the items of the forest, the texts they own, and the texts of the
caller.
-/

import DiffServSimulation.CjsonRelink
import Mathlib.Algebra.Order.Group.Multiset

namespace DiffServSimulation

open Faulting LinkedRing

/-! ### Layouts -/

/-- A pointer, with the items it leads to and their addresses. -/
inductive Layout where
  | null
  | node (address : Address) (fields : Fields) (child next : Layout)
deriving DecidableEq

/-- An item with its children, apart from its siblings. -/
structure Branch where
  address : Address
  fields : Fields
  child : Layout
deriving DecidableEq

/-- The texts an item owns. -/
def ownedTexts (fields : Fields) : List Address :=
  (if fields.isReference then [] else fields.valuestring.toList) ++
    if fields.stringIsConst then [] else fields.string.toList

/-- The name of an item, if it is a constant. -/
def constantNames (fields : Fields) : List Address :=
  if fields.stringIsConst then fields.string.toList else []

namespace Layout

def first : Layout → Option Address
  | null => none
  | node address _ _ _ => some address

def branches : Layout → List Branch
  | null => []
  | node address fields child next => ⟨address, fields, child⟩ :: next.branches

/-- Branches linked by `next`, in order. -/
def link : List Branch → Layout
  | [] => .null
  | branch :: rest => .node branch.address branch.fields branch.child (link rest)

/-- The items of a chain, without their children. -/
def entries (chain : Layout) : List (Address × Fields) :=
  chain.branches.map fun branch => (branch.address, branch.fields)

/-- What the items of a layout have, one behind the other. -/
def collect {Value : Type} (each : Address → Fields → List Value) : Layout → List Value
  | null => []
  | node address fields child next =>
    each address fields ++ child.collect each ++ next.collect each

/-- The addresses of the items. -/
def footprint (chain : Layout) : List Address := chain.collect fun address _ => [address]

/-- The texts the items own. -/
def texts (chain : Layout) : List Address := chain.collect fun _ fields => ownedTexts fields

/-- The constant names of the items. -/
def constants (chain : Layout) : List Address := chain.collect fun _ fields => constantNames fields

/-- The child pointer of an item leads to its children, unless it is somebody else's. -/
def Owns (fields : Fields) (child : Layout) : Prop :=
  if fields.isReference then child = .null else fields.child = child.first

/-- The children of every item form a ring, down from the ones in the chain. -/
def Stored (heap : Heap Address Fields) : Layout → Prop
  | null => True
  | node _ fields child next =>
    Owns fields child ∧ Ringed heap child.entries ∧ child.Stored heap ∧ next.Stored heap

/-- The children of one item are replaced by others. -/
def edit : Layout → Address → Layout → Layout
  | null, _, _ => .null
  | node address fields child next, target, children =>
    if address = target then
      .node address { fields with child := children.first } children (next.edit target children)
    else .node address fields (child.edit target children) (next.edit target children)

/-- An item stands somewhere in a layout, with its fields and children. -/
def Has : Layout → Address → Fields → Layout → Prop
  | null, _, _, _ => False
  | node address given child next, target, fields, children =>
    (address = target ∧ given = fields ∧ child = children) ∨ child.Has target fields children ∨
      next.Has target fields children

@[simp] theorem branches_link (list : List Branch) : (link list).branches = list := by
  induction list with
  | nil => rfl
  | cons branch rest inductionHypothesis => rw [link, branches, inductionHypothesis]

@[simp] theorem link_branches (chain : Layout) : link chain.branches = chain := by
  induction chain with
  | null => rfl
  | node address fields child next _ nextHypothesis => rw [branches, link, nextHypothesis]

/-- An item among some roots is one of them or stands below one of them. -/
theorem has_link_iff {list : List Branch} {target : Address} {fields : Fields} {children : Layout} :
    (link list).Has target fields children ↔ ∃ branch ∈ list,
      (branch.address = target ∧ branch.fields = fields ∧ branch.child = children) ∨
        branch.child.Has target fields children := by
  induction list with
  | nil => simp [link, Has]
  | cons branch rest inductionHypothesis =>
    rw [link, Has, inductionHypothesis, List.exists_mem_cons_iff, or_assoc]

theorem entries_link (list : List Branch) :
    (link list).entries = list.map fun branch => (branch.address, branch.fields) := by
  rw [entries, branches_link]

theorem entries_link_append (first second : List Branch) :
    (link (first ++ second)).entries = (link first).entries ++ (link second).entries := by
  simp [entries]

theorem first_eq_front (chain : Layout) : chain.first = front chain.entries none := by
  cases chain <;> rfl

/-! ### What a layout has -/

section Collect

variable {Value : Type} (each : Address → Fields → List Value)

theorem collect_link (list : List Branch) :
    (link list).collect each =
      list.flatMap fun branch =>
        each branch.address branch.fields ++ branch.child.collect each := by
  induction list with
  | nil => rfl
  | cons branch rest inductionHypothesis =>
    rw [link, collect, List.flatMap_cons, inductionHypothesis]

theorem collect_link_append (first second : List Branch) :
    (link (first ++ second)).collect each =
      (link first).collect each ++ (link second).collect each := by
  rw [collect_link, List.flatMap_append, ← collect_link, ← collect_link]

theorem collect_link_perm {first second : List Branch} (perm : first.Perm second) :
    ((link first).collect each).Perm ((link second).collect each) := by
  rw [collect_link, collect_link]
  exact perm.flatMap_right _

/-- What the children of an item have is had by the layout. -/
theorem Has.collect_subset {chain children : Layout} {target : Address} {fields : Fields}
    (has : chain.Has target fields children) :
    each target fields ++ children.collect each ⊆ chain.collect each := by
  induction chain with
  | null => cases has
  | node address given child next childHypothesis nextHypothesis =>
    rcases has with ⟨rfl, rfl, rfl⟩ | below | behind
    · exact List.subset_append_left _ _
    · exact List.Subset.trans (childHypothesis below)
        (List.Subset.trans (List.subset_append_right _ _) (List.subset_append_left _ _))
    · exact List.Subset.trans (nextHypothesis behind) (List.subset_append_right _ _)

theorem Has.mem_footprint {chain children : Layout} {target : Address} {fields : Fields}
    (has : chain.Has target fields children) : target ∈ chain.footprint :=
  has.collect_subset _ List.mem_cons_self

theorem Has.footprint_subset {chain children : Layout} {target : Address} {fields : Fields}
    (has : chain.Has target fields children) : children.footprint ⊆ chain.footprint :=
  List.Subset.trans (List.subset_append_right _ _) (has.collect_subset fun address _ => [address])

theorem footprint_node (address : Address) (fields : Fields) (child next : Layout) :
    (node address fields child next).footprint = address :: (child.footprint ++ next.footprint) :=
  rfl

theorem footprint_append (first second : List Branch) :
    (link (first ++ second)).footprint = (link first).footprint ++ (link second).footprint :=
  collect_link_append _ first second

theorem footprint_cons (branch : Branch) (rest : List Branch) :
    (link (branch :: rest)).footprint = (link [branch]).footprint ++ (link rest).footprint :=
  collect_link_append _ [branch] rest

theorem texts_append (first second : List Branch) :
    (link (first ++ second)).texts = (link first).texts ++ (link second).texts :=
  collect_link_append _ first second

theorem texts_cons (branch : Branch) (rest : List Branch) :
    (link (branch :: rest)).texts = (link [branch]).texts ++ (link rest).texts :=
  collect_link_append _ [branch] rest

theorem constants_cons (branch : Branch) (rest : List Branch) :
    (link (branch :: rest)).constants =
      constantNames branch.fields ++ branch.child.constants ++ (link rest).constants := rfl

/-- The addresses of an item, of its children and of its siblings are apart. -/
theorem nodup_node {address : Address} {fields : Fields} {child next : Layout}
    (distinct : (node address fields child next).footprint.Nodup) :
    address ∉ child.footprint ∧ address ∉ next.footprint ∧ child.footprint.Nodup ∧
      next.footprint.Nodup ∧ List.Disjoint child.footprint next.footprint := by
  obtain ⟨outside, both⟩ := List.nodup_cons.mp distinct
  obtain ⟨left, right, disjoint⟩ := List.nodup_append'.mp both
  exact ⟨fun member => outside (List.mem_append_left _ member),
    fun member => outside (List.mem_append_right _ member), left, right, disjoint⟩

theorem edit_of_not_mem {chain : Layout} {target : Address} (others : Layout)
    (outside : target ∉ chain.footprint) : chain.edit target others = chain := by
  induction chain with
  | null => rfl
  | node address fields child next childHypothesis nextHypothesis =>
    rw [footprint_node, List.mem_cons, List.mem_append] at outside
    push Not at outside
    rw [edit, if_neg outside.1.symm, childHypothesis outside.2.1, nextHypothesis outside.2.2]

/-- An edit exchanges what the children have, if what is collected does not depend on them. -/
theorem edit_collect_perm (blind : ∀ address fields child,
    each address { fields with child := child } = each address fields)
    {chain children : Layout} {target : Address} {fields : Fields} (others : Layout)
    (has : chain.Has target fields children) (distinct : chain.footprint.Nodup) :
    ((chain.edit target others).collect each ++ children.collect each).Perm
      (chain.collect each ++ others.collect each) := by
  rw [← Multiset.coe_eq_coe]
  simp only [← Multiset.coe_add]
  induction chain with
  | null => cases has
  | node address given child next childHypothesis nextHypothesis =>
    obtain ⟨notChild, notNext, distinctChild, distinctNext, disjoint⟩ := nodup_node distinct
    rcases has with ⟨rfl, rfl, rfl⟩ | below | behind
    · rw [edit, if_pos rfl, edit_of_not_mem others notNext, collect, collect, blind]
      simp only [← Multiset.coe_add]
      abel
    · have member := below.mem_footprint
      have apart : address ≠ target := fun same => notChild (same ▸ member)
      rw [edit, if_neg apart, edit_of_not_mem others fun behind => disjoint member behind, collect,
        collect]
      have exchanged := childHypothesis below distinctChild
      simp only [← Multiset.coe_add]
      rw [add_right_comm, add_assoc (each address given : Multiset Value), exchanged]
      abel
    · have member := behind.mem_footprint
      have apart : address ≠ target := fun same => notNext (same ▸ member)
      rw [edit, if_neg apart, edit_of_not_mem others fun below => disjoint below member, collect,
        collect]
      have exchanged := nextHypothesis behind distinctNext
      simp only [← Multiset.coe_add]
      rw [add_assoc, exchanged]
      abel

end Collect

/-! ### Heaps that hold a layout -/

section Stored

variable {heap other : Heap Address Fields} {chain children others : Layout} {target : Address}
  {fields : Fields}

theorem addresses_entries_sublist (chain : Layout) :
    (addresses chain.entries).Sublist chain.footprint := by
  induction chain with
  | null => exact List.Sublist.refl _
  | node address fields child next _ nextHypothesis =>
    rw [footprint_node]
    exact (nextHypothesis.trans (List.sublist_append_right _ _)).cons_cons address

theorem addresses_entries_subset (chain : Layout) : addresses chain.entries ⊆ chain.footprint :=
  chain.addresses_entries_sublist.subset

/-- The addresses of the items below the ones in a chain. -/
def inner : Layout → List Address
  | null => []
  | node _ _ child next => child.footprint ++ next.inner

theorem inner_subset (chain : Layout) : chain.inner ⊆ chain.footprint := by
  induction chain with
  | null => exact List.Subset.refl _
  | node address fields child next _ nextHypothesis =>
    rw [footprint_node, inner]
    refine List.subset_cons_of_subset _ (List.append_subset.mpr ⟨List.subset_append_left _ _, ?_⟩)
    exact List.Subset.trans nextHypothesis (List.subset_append_right _ _)

/-- An item of a layout stands in its chain or below. -/
theorem mem_footprint_iff {address : Address} : address ∈ chain.footprint ↔
    address ∈ addresses chain.entries ∨ address ∈ chain.inner := by
  induction chain with
  | null => simp [footprint, collect, entries, addresses, inner, branches]
  | node head given child next _ nextHypothesis =>
    rw [footprint_node, List.mem_cons, List.mem_append, nextHypothesis, inner, List.mem_append]
    have isEntry : address ∈ addresses (node head given child next).entries ↔
        address = head ∨ address ∈ addresses next.entries := List.mem_cons
    tauto

/-- An item below a chain stands in a ring. -/
theorem Stored.ringed (stored : chain.Stored heap) {address : Address}
    (below : address ∈ chain.inner) :
    ∃ entries, Ringed heap entries ∧ address ∈ addresses entries := by
  induction chain with
  | null => cases below
  | node head given child next childHypothesis nextHypothesis =>
    obtain ⟨-, ring, storedChild, storedNext⟩ := stored
    rcases List.mem_append.mp below with inChild | inNext
    · rcases mem_footprint_iff.mp inChild with isEntry | inside
      · exact ⟨_, ring, isEntry⟩
      · exact childHypothesis storedChild inside
    · exact nextHypothesis storedNext inNext

/-- An item with an address of a layout has fields and children there. -/
theorem exists_has {address : Address} (member : address ∈ chain.footprint) :
    ∃ fields children, chain.Has address fields children := by
  induction chain with
  | null => cases member
  | node head given child next childHypothesis nextHypothesis =>
    rw [footprint_node, List.mem_cons, List.mem_append] at member
    rcases member with rfl | below | behind
    · exact ⟨given, child, .inl ⟨rfl, rfl, rfl⟩⟩
    · obtain ⟨fields, children, has⟩ := childHypothesis below
      exact ⟨fields, children, .inr (.inl has)⟩
    · obtain ⟨fields, children, has⟩ := nextHypothesis behind
      exact ⟨fields, children, .inr (.inr has)⟩

/-- The items in a chain are apart from the ones below. -/
theorem not_mem_inner (distinct : chain.footprint.Nodup) {address : Address}
    (member : address ∈ addresses chain.entries) : address ∉ chain.inner := by
  induction chain with
  | null => cases member
  | node head given child next _ nextHypothesis =>
    obtain ⟨notChild, notNext, -, distinctNext, disjoint⟩ := nodup_node distinct
    rw [inner, List.mem_append, not_or]
    rcases List.mem_cons.mp member with rfl | behind
    · exact ⟨notChild, fun below => notNext (inner_subset next below)⟩
    · exact ⟨fun below => disjoint below (addresses_entries_subset next behind),
        nextHypothesis distinctNext behind⟩

/-- Only the items below the ones in the chain matter. -/
theorem Stored.congr (stored : chain.Stored heap)
    (same : ∀ address ∈ chain.inner, other address = heap address) : chain.Stored other := by
  induction chain with
  | null => trivial
  | node address fields child next childHypothesis nextHypothesis =>
    obtain ⟨owns, ring, below, behind⟩ := stored
    have child' : ∀ address ∈ child.footprint, other address = heap address :=
      fun address member => same address (List.mem_append_left _ member)
    exact ⟨owns, ring.congr fun address member => child' address
        (addresses_entries_subset child member),
      childHypothesis below fun address member => child' address (inner_subset child member),
      nextHypothesis behind fun address member => same address (List.mem_append_right _ member)⟩

/-- An item of a layout, with what the heap holds for it. -/
theorem Has.holds (has : chain.Has target fields children) (stored : chain.Stored heap)
    (cells : ∀ entry ∈ chain.entries, ∃ next prev, heap entry.1 = some ⟨next, prev, entry.2⟩) :
    (∃ next prev, heap target = some ⟨next, prev, fields⟩) ∧ Owns fields children ∧
      Ringed heap children.entries ∧ children.Stored heap := by
  induction chain with
  | null => cases has
  | node address given child next childHypothesis nextHypothesis =>
    obtain ⟨owns, ring, below, behind⟩ := stored
    rcases has with ⟨rfl, rfl, rfl⟩ | hasBelow | hasBehind
    · exact ⟨cells _ List.mem_cons_self, owns, ring, below⟩
    · exact childHypothesis hasBelow below fun entry member => Segment.present ring member
    · exact nextHypothesis hasBehind behind fun entry member =>
        cells entry (List.mem_cons_of_mem _ member)

/-- The children of an item are apart from it and from one another. -/
theorem Has.distinct (has : chain.Has target fields children) (distinct : chain.footprint.Nodup) :
    target ∉ children.footprint ∧ children.footprint.Nodup := by
  induction chain with
  | null => cases has
  | node address given child next childHypothesis nextHypothesis =>
    obtain ⟨notChild, -, distinctChild, distinctNext, -⟩ := nodup_node distinct
    rcases has with ⟨rfl, rfl, rfl⟩ | below | behind
    · exact ⟨notChild, distinctChild⟩
    · exact childHypothesis below distinctChild
    · exact nextHypothesis behind distinctNext

/-- What an edit makes of the fields of an item. -/
def editFields (target : Address) (others : Layout) (address : Address) (fields : Fields) :
    Fields :=
  if address = target then { fields with child := others.first } else fields

theorem entries_edit (chain : Layout) (target : Address) (others : Layout) :
    (chain.edit target others).entries =
      chain.entries.map fun entry => (entry.1, editFields target others entry.1 entry.2) := by
  induction chain with
  | null => rfl
  | node address fields child next _ nextHypothesis =>
    unfold entries at nextHypothesis ⊢
    rw [edit]
    split_ifs with here
    · simp [branches, editFields, here, nextHypothesis]
    · simp [branches, editFields, here, nextHypothesis]

theorem first_edit (chain : Layout) (target : Address) (others : Layout) :
    (chain.edit target others).first = chain.first := by
  cases chain with
  | null => rfl
  | node address fields child next =>
    rw [edit]
    split_ifs <;> rfl

/-- What is below an item of a chain is apart from the chain. -/
theorem Has.apart (has : chain.Has target fields children) (distinct : chain.footprint.Nodup)
    {address : Address} (member : address ∈ addresses chain.entries) :
    address ∉ children.footprint := by
  have outside := not_mem_inner distinct member
  induction chain with
  | null => cases has
  | node head given child next childHypothesis nextHypothesis =>
    rw [inner, List.mem_append, not_or] at outside
    rcases has with ⟨rfl, rfl, rfl⟩ | below | behind
    · exact outside.1
    · exact fun inside => outside.1 (below.footprint_subset inside)
    · obtain ⟨-, notNext, -, distinctNext, disjoint⟩ := nodup_node distinct
      rcases List.mem_cons.mp member with rfl | later
      · exact fun inside => notNext (behind.footprint_subset inside)
      · exact nextHypothesis behind distinctNext later outside.2

/-- A heap that agrees with another but for the child pointer of one item, and for what is below it,
holds the layout with the item's children replaced. -/
theorem Stored.edit (stored : chain.Stored heap) (has : chain.Has target fields children)
    (owner : fields.isReference = false) (distinct : chain.footprint.Nodup)
    (ring : Ringed other others.entries) (below : others.Stored other)
    (parent : other target = (heap target).map fun item =>
      { item with value := { item.value with child := others.first } })
    (frame : ∀ address ∈ chain.footprint, address ≠ target → address ∉ children.footprint →
      other address = heap address) : (chain.edit target others).Stored other := by
  induction chain with
  | null => cases has
  | node address given child next childHypothesis nextHypothesis =>
    obtain ⟨owns, isRing, storedChild, storedNext⟩ := stored
    obtain ⟨notChild, notNext, distinctChild, distinctNext, disjoint⟩ := nodup_node distinct
    rw [footprint_node] at frame
    rcases has with ⟨rfl, rfl, rfl⟩ | hasBelow | hasBehind
    · rw [Layout.edit, if_pos rfl, edit_of_not_mem others notNext]
      refine ⟨?_, ring, below, storedNext.congr fun address member => ?_⟩
      · simp [Owns, owner]
      · have inNext := inner_subset next member
        exact frame address (List.mem_cons_of_mem _ (List.mem_append_right _ inNext))
          (ne_of_mem_of_not_mem inNext notNext) fun inChild => disjoint inChild inNext
    · have member := hasBelow.mem_footprint
      have apart : address ≠ target := fun same => notChild (same ▸ member)
      rw [Layout.edit, if_neg apart, edit_of_not_mem others fun behind => disjoint member behind]
      have same : ∀ address ∈ addresses child.entries, other address = (heap address).map
          fun item => { item with value := editFields target others address item.value } := by
        intro address inside
        by_cases here : address = target
        · simp [here, editFields, parent]
        · rw [frame address (List.mem_cons_of_mem _ (List.mem_append_left _
            (addresses_entries_subset child inside))) here (hasBelow.apart distinctChild inside)]
          simp [editFields, here]
      refine ⟨?_, ?_, childHypothesis storedChild hasBelow distinctChild ?_, ?_⟩
      · unfold Owns at owns ⊢
        split_ifs at owns ⊢
        · rw [owns] at hasBelow
          cases hasBelow
        · rw [owns, first_edit]
      · rw [entries_edit]
        exact isRing.revalue _ same
      · exact fun address inside =>
          frame address (List.mem_cons_of_mem _ (List.mem_append_left _ inside))
      · refine storedNext.congr fun address inside => ?_
        have inNext := inner_subset next inside
        exact frame address (List.mem_cons_of_mem _ (List.mem_append_right _ inNext))
          (fun here => disjoint member (here ▸ inNext))
          fun inChildren => disjoint (hasBelow.footprint_subset inChildren) inNext
    · have member := hasBehind.mem_footprint
      have apart : address ≠ target := fun same => notNext (same ▸ member)
      have unchanged : ∀ address ∈ child.footprint, other address = heap address :=
        fun address inside =>
          frame address (List.mem_cons_of_mem _ (List.mem_append_left _ inside))
            (fun here => disjoint (here ▸ inside) member)
            fun inChildren => disjoint inside (hasBehind.footprint_subset inChildren)
      rw [Layout.edit, if_neg apart, edit_of_not_mem others fun below => disjoint below member]
      exact ⟨owns, isRing.congr fun address inside =>
          unchanged address (addresses_entries_subset child inside),
        storedChild.congr fun address inside => unchanged address (inner_subset child inside),
        nextHypothesis storedNext hasBehind distinctNext fun address inside =>
          frame address (List.mem_cons_of_mem _ (List.mem_append_right _ inside))⟩

/-- The children of every item form a chain, down from the ones in the chain, whatever its first
item has for a predecessor. -/
def Hung (heap : Heap Address Fields) : Layout → Prop
  | null => True
  | node _ fields child next =>
    Owns fields child ∧ (∃ before, Segment heap before child.entries none) ∧ child.Hung heap ∧
      next.Hung heap

theorem Stored.hung (stored : chain.Stored heap) : chain.Hung heap := by
  induction chain with
  | null => trivial
  | node address fields child next childHypothesis nextHypothesis =>
    obtain ⟨owns, ring, below, behind⟩ := stored
    exact ⟨owns, ⟨_, ring⟩, childHypothesis below, nextHypothesis behind⟩

/-- Only the items below the ones in the chain matter. -/
theorem Hung.congr (hung : chain.Hung heap)
    (same : ∀ address ∈ chain.inner, other address = heap address) : chain.Hung other := by
  induction chain with
  | null => trivial
  | node address fields child next childHypothesis nextHypothesis =>
    obtain ⟨owns, ⟨before, segment⟩, below, behind⟩ := hung
    have child' : ∀ address ∈ child.footprint, other address = heap address :=
      fun address member => same address (List.mem_append_left _ member)
    exact ⟨owns, ⟨before, segment.congr fun address member => child' address
        (addresses_entries_subset child member)⟩,
      childHypothesis below fun address member => child' address (inner_subset child member),
      nextHypothesis behind fun address member => same address (List.mem_append_right _ member)⟩

/-! ### Branches of a layout -/

theorem stored_link (list : List Branch) : (link list).Stored heap ↔ ∀ branch ∈ list,
    Owns branch.fields branch.child ∧ Ringed heap branch.child.entries ∧
      branch.child.Stored heap := by
  induction list with
  | nil => simp [link, Stored]
  | cons branch rest inductionHypothesis =>
    rw [link, Stored, List.forall_mem_cons, inductionHypothesis, and_assoc, and_assoc]

/-- What stands among some roots stands among more of them. -/
theorem has_append {first second : List Branch} (has : (link first).Has target fields children) :
    (link (first ++ second)).Has target fields children := by
  induction first with
  | nil => cases has
  | cons branch rest inductionHypothesis =>
    exact has.imp_right (Or.imp_right inductionHypothesis)

end Stored

end Layout

end DiffServSimulation
