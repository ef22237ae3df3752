/-
This file says what creating an item, copying a string, and filling or naming an
item do to what a memory holds.

A new item is a new root, and a copied string is lent until an item takes it over.
The fields of an item may change wherever it stands, as long as its children stay
its own. When a name goes, the text behind it is freed.
-/

import DiffServSimulation.CjsonRelease

namespace DiffServSimulation

open Faulting LinkedRing Layout Memory DecimalNumber

namespace Memory

/-- A memory in which the fields of an item were changed. -/
def refill (memory : Memory) (address : Address) (change : Fields → Fields) : Memory :=
  memory.withItems (memory.items.alter address fun item => { item with value := change item.value })

/-- A memory of which a block was asked for. -/
def asked (memory : Memory) : Memory := { memory with requests := memory.requests + 1 }

/-- A memory of which a block was asked for in vain. -/
def refused (memory : Memory) : Memory := { memory.asked with refusals := memory.refusals + 1 }

/-- A memory with a new item. -/
def place (memory : Memory) (address : Address) (fields : Fields) : Memory :=
  { memory.asked with
    items := fun other =>
      if other = address then some ⟨none, none, fields⟩ else memory.items other }

/-- A memory with a new text. -/
def lend (memory : Memory) (address : Address) (text : CString) : Memory :=
  { memory.asked with
    texts := fun other => if other = address then some text else memory.texts other }

@[simp] theorem refill_items (memory : Memory) (address : Address) (change : Fields → Fields) :
    (memory.refill address change).items =
      memory.items.alter address fun item => { item with value := change item.value } := rfl

@[simp] theorem refill_texts (memory : Memory) (address : Address) (change : Fields → Fields) :
    (memory.refill address change).texts = memory.texts := rfl

@[simp] theorem refill_refusals (memory : Memory) (address : Address) (change : Fields → Fields) :
    (memory.refill address change).refusals = memory.refusals := rfl

theorem place_items_self (memory : Memory) (address : Address) (fields : Fields) :
    (memory.place address fields).items address = some ⟨none, none, fields⟩ := if_pos rfl

theorem place_refill (memory : Memory) (address : Address) (fields : Fields)
    (change : Fields → Fields) :
    (memory.place address fields).refill address change = memory.place address (change fields) := by
  simp only [refill, place, withItems, mk.injEq, and_true]
  funext other
  unfold Heap.alter
  split_ifs with here <;> simp [here]

theorem refill_refill (memory : Memory) (address : Address) (first second : Fields → Fields) :
    (memory.refill address first).refill address second =
      memory.refill address (second ∘ first) := by
  simp only [refill, withItems, mk.injEq, and_true]
  funext other
  simp only [Heap.alter]
  split_ifs
  · rw [Option.map_map]
    rfl
  · rfl

variable {memory : Memory}

theorem setFields_run {address : Address} (present : memory.items address ≠ none)
    (change : Fields → Fields) :
    (setFields (some address) change).run memory = .ok (⟨⟩, memory.refill address change) :=
  run_assign present _

/-! ### Requests for memory -/

section Allocation

variable {allocator : Allocator}

theorem cJSONNewItem_run {address : Address} (given : allocator.item memory = some address) :
    (cJSONNewItem allocator).run memory = .ok (some address, memory.place address {}) := by
  rw [cJSONNewItem, run_get_bind, given]
  rfl

theorem cJSONNewItem_refused (refused : allocator.item memory = none) :
    (cJSONNewItem allocator).run memory = .ok (none, memory.refused) := by
  rw [cJSONNewItem, run_get_bind, refused]
  rfl

theorem readText_run {address : Address} {text : CString}
    (present : memory.texts address = some text) :
    (readText (some address)).run memory = .ok (text, memory) := by
  rw [readText, run_get_bind]
  simp only [present]
  rfl

theorem cJSONStrdup_run {string address : Address} {text : CString}
    (present : memory.texts string = some text) (given : allocator.text memory = some address) :
    (cJSONStrdup allocator (some string)).run memory =
      .ok (some address, memory.lend address text) := by
  rw [cJSONStrdup, if_neg (Option.some_ne_none _), run_bind_ok _ _ _ _ _ (readText_run present),
    run_get_bind, given]
  rfl

theorem cJSONStrdup_refused {string : Address} {text : CString}
    (present : memory.texts string = some text) (refused : allocator.text memory = none) :
    (cJSONStrdup allocator (some string)).run memory = .ok (none, memory.refused) := by
  rw [cJSONStrdup, if_neg (Option.some_ne_none _), run_bind_ok _ _ _ _ _ (readText_run present),
    run_get_bind, refused]
  rfl

theorem createWith_run {address : Address} (change : Fields → Fields)
    (asked : allocator.item memory = some address) :
    (createWith allocator change).run memory =
      .ok (some address, memory.place address (change {})) := by
  have present : (memory.place address {}).items address ≠ none := by simp [place_items_self]
  rw [createWith, run_bind_ok _ _ _ _ _ (cJSONNewItem_run asked), onlyIf,
    if_pos (Option.some_ne_none _), run_bind_ok _ _ _ _ _ (setFields_run present change),
    place_refill]
  rfl

theorem createWith_refused (change : Fields → Fields) (refused : allocator.item memory = none) :
    (createWith allocator change).run memory = .ok (none, memory.refused) :=
  run_bind_ok _ _ _ _ _ (cJSONNewItem_refused refused)

/-- A number that is defined is created like the other items. -/
theorem cJSONCreateNumber_eq {num : Double} {valueint : Int32}
    (defined : intOfDouble num = .ok valueint) :
    cJSONCreateNumber allocator num = createWith allocator fun fields =>
      { fields with type := .number, valuedouble := num, valueint } := by
  rw [cJSONCreateNumber, defined]
  rfl

theorem intOfDouble_ok {num : Double} (number : num ≠ .nan) :
    ∃ valueint, intOfDouble num = .ok valueint := by
  cases num with
  | nan => exact absurd rfl number
  | infinity negative => exact ⟨_, rfl⟩
  | finite value _ _ => exact ⟨_, rfl⟩

end Allocation

end Memory

namespace Layout

/-- The fields of one item are changed. -/
def adjust (target : Address) (change : Fields → Fields) : Layout → Layout
  | null => .null
  | node address fields child next =>
    .node address (if address = target then change fields else fields) (child.adjust target change)
      (next.adjust target change)

variable {target : Address} {change : Fields → Fields} {chain : Layout}

theorem adjust_of_not_mem (outside : target ∉ chain.footprint) :
    chain.adjust target change = chain := by
  induction chain with
  | null => rfl
  | node address fields child next childHypothesis nextHypothesis =>
    rw [footprint_node, List.mem_cons, List.mem_append] at outside
    push Not at outside
    rw [adjust, if_neg outside.1.symm, childHypothesis outside.2.1, nextHypothesis outside.2.2]

theorem first_adjust (chain : Layout) : (chain.adjust target change).first = chain.first := by
  cases chain <;> rfl

theorem footprint_adjust (chain : Layout) :
    (chain.adjust target change).footprint = chain.footprint := by
  induction chain with
  | null => rfl
  | node address fields child next childHypothesis nextHypothesis =>
    rw [adjust, footprint_node, footprint_node, childHypothesis, nextHypothesis]

/-- What an item has is the same before and after a change that keeps it. -/
theorem collect_adjust {Value : Type} (each : Address → Fields → List Value)
    (same : ∀ address fields, each address (change fields) = each address fields)
    (chain : Layout) : (chain.adjust target change).collect each = chain.collect each := by
  induction chain with
  | null => rfl
  | node address fields child next childHypothesis nextHypothesis =>
    rw [adjust, collect, collect, childHypothesis, nextHypothesis]
    split_ifs
    · rw [same]
    · rfl

theorem branches_adjust (chain : Layout) : (chain.adjust target change).branches =
    chain.branches.map fun branch => ⟨branch.address,
      if branch.address = target then change branch.fields else branch.fields,
      branch.child.adjust target change⟩ := by
  induction chain with
  | null => rfl
  | node address fields child next _ nextHypothesis =>
    rw [adjust, branches, nextHypothesis]
    rfl

theorem entries_adjust (chain : Layout) : (chain.adjust target change).entries =
    chain.entries.map fun entry =>
      (entry.1, if entry.1 = target then change entry.2 else entry.2) := by
  simp [entries, branches_adjust, Function.comp_def]

/-- The fields of an item that stands first change. -/
theorem adjust_link_cons {branch : Branch} {rest : List Branch}
    (distinct : (link (branch :: rest)).footprint.Nodup) :
    (link (branch :: rest)).adjust branch.address change =
      link ({ branch with fields := change branch.fields } :: rest) := by
  obtain ⟨notChild, notNext, -⟩ := nodup_node distinct
  rw [link, adjust, if_pos rfl, adjust_of_not_mem notChild, adjust_of_not_mem notNext]
  rfl

/-- A heap in which the fields of one item were changed holds the layout so changed. -/
theorem Stored.adjust {heap : Heap Address Fields} (stored : chain.Stored heap)
    (keeps : ∀ fields, (change fields).child = fields.child ∧
      (change fields).isReference = fields.isReference) (target : Address) :
    (chain.adjust target change).Stored
      (heap.alter target fun item => { item with value := change item.value }) := by
  induction chain with
  | null => trivial
  | node address fields child next childHypothesis nextHypothesis =>
    obtain ⟨owns, ring, below, behind⟩ := stored
    refine ⟨?_, ?_, childHypothesis below, nextHypothesis behind⟩
    · unfold Owns at *
      split_ifs with here <;> simp_all [first_adjust, Layout.adjust]
    · rw [entries_adjust]
      refine ring.revalue (fun address fields => if address = target then change fields else fields)
        fun other _ => ?_
      unfold Heap.alter
      split_ifs <;> simp

end Layout

/-! ### Forests whose fields change -/

section Filling

variable {memory : Memory} {borrowed : List Address} {branch : Branch}
  {forest rest : List Branch} {change : Fields → Fields}

/-- The fields of an item change, and its children stay its own. -/
theorem Shaped.refill (shaped : Shaped memory.items forest)
    (keeps : ∀ fields, (change fields).child = fields.child ∧
      (change fields).isReference = fields.isReference) (target : Address) :
    Shaped (memory.refill target change).items ((link forest).adjust target change).branches := by
  have stored := shaped.stored.adjust keeps target
  rw [← link_branches ((link forest).adjust target change)] at stored
  have same : (link ((link forest).adjust target change).branches).footprint =
      (link forest).footprint := by rw [link_branches, footprint_adjust]
  refine ⟨fun other member => ?_, stored, same ▸ shaped.distinct, fun address => ?_⟩
  · rw [branches_adjust, branches_link] at member
    obtain ⟨old, isOld, rfl⟩ := List.mem_map.mp member
    have cell := shaped.loose old isOld
    simp only [refill_items, Heap.alter, cell]
    split_ifs <;> rfl
  · rw [same, ← shaped.allocated]
    simp only [refill_items, Heap.alter]
    split_ifs <;> simp

theorem Consistent.refill (consistent : Consistent memory borrowed forest)
    (keeps : ∀ fields, (change fields).child = fields.child ∧
      (change fields).isReference = fields.isReference)
    (texts : ∀ fields, ownedTexts (change fields) = ownedTexts fields)
    (constants : ∀ fields, constantNames (change fields) = constantNames fields)
    (target : Address) :
    Consistent (memory.refill target change) borrowed
      ((link forest).adjust target change).branches := by
  refine ⟨consistent.shaped.refill keeps target, consistent.owned.exchange ?_ ?_⟩
  · rw [link_branches]
    exact .of_eq (collect_adjust _ (fun _ => texts) _).symm
  · rw [link_branches]
    exact .of_eq (collect_adjust _ (fun _ => constants) _).symm

/-- A new item is a new root. -/
theorem Consistent.place (consistent : Consistent memory borrowed forest) {address : Address}
    {fields : Fields} (fresh : memory.items address = none) (owns : Owns fields .null)
    (texts : ownedTexts fields = []) (constants : constantNames fields = []) :
    Consistent (memory.place address fields) borrowed (⟨address, fields, .null⟩ :: forest) := by
  obtain ⟨⟨loose, stored, distinct, allocated⟩, owned⟩ := consistent
  have outside : address ∉ (link forest).footprint := fun member =>
    (allocated address).mpr member fresh
  have kept : ∀ other ∈ (link forest).footprint,
      (memory.place address fields).items other = memory.items other :=
    fun other member => if_neg (ne_of_mem_of_not_mem member outside)
  refine ⟨⟨fun branch member => ?_, ?_, ?_, fun other => ?_⟩, owned.exchange ?_ ?_⟩
  · rcases List.mem_cons.mp member with rfl | old
    · exact memory.place_items_self address fields
    · rw [kept, loose branch old]
      refine addresses_entries_subset _ ?_
      rw [addresses_entries, branches_link]
      exact List.mem_map_of_mem old
  · exact ⟨owns, trivial, trivial, stored.congr fun other member =>
      kept other (inner_subset _ member)⟩
  · exact List.nodup_cons.mpr ⟨outside, distinct⟩
  · by_cases here : other = address
    · subst here
      exact iff_of_true (by simp [place_items_self]) List.mem_cons_self
    · rw [show (memory.place address fields).items other = memory.items other from if_neg here,
        allocated]
      exact (List.mem_cons.trans (or_iff_right here)).symm
  · exact .of_eq (by simp [Layout.texts, link, collect, texts])
  · exact .of_eq (by simp [Layout.constants, link, collect, constants])

/-- A request in vain changes nothing. -/
theorem Consistent.refused (consistent : Consistent memory borrowed forest) :
    Consistent memory.refused borrowed forest := ⟨consistent.shaped, consistent.owned⟩

/-- A new text is lent until an item takes it over. -/
theorem Consistent.lend (consistent : Consistent memory borrowed forest) {address : Address}
    (fresh : memory.texts address = none) (text : CString) :
    Consistent (memory.lend address text) (address :: borrowed) forest := by
  obtain ⟨shaped, distinct, allocated, constant⟩ := consistent
  have outside : address ∉ (link forest).texts ++ borrowed := fun member =>
    (allocated address).mpr member fresh
  refine ⟨shaped, List.perm_middle.nodup_iff.mpr (List.nodup_cons.mpr ⟨outside, distinct⟩),
    fun other => ?_, List.Subset.trans constant (List.subset_cons_self _ _)⟩
  rw [List.perm_middle.mem_iff, List.mem_cons, ← allocated]
  simp only [Memory.lend]
  split_ifs with here <;> simp [here]

/-- A root whose fields are changed takes lent texts over and leaves texts of its own over, which
are freed. -/
theorem Consistent.exchange (lent gone : List Address) (change : Fields → Fields)
    (consistent : Consistent memory (lent ++ borrowed) (branch :: rest))
    (keeps : ∀ fields, (change fields).child = fields.child ∧
      (change fields).isReference = fields.isReference)
    (takes : (ownedTexts branch.fields ++ lent).Perm (gone ++ ownedTexts (change branch.fields)))
    (constant : (link (branch :: rest)).constants ⊆ borrowed)
    (constants : constantNames (change branch.fields) ⊆ borrowed) :
    Consistent ((memory.erase [] gone).refill branch.address change) borrowed
      ({ branch with fields := change branch.fields } :: rest) := by
  constructor
  · have shaped := consistent.shaped.refill keeps branch.address
    rw [adjust_link_cons consistent.shaped.distinct, branches_link] at shaped
    have same : (memory.erase [] gone).items = memory.items := by simp [Memory.erase]
    simpa only [refill_items, same] using shaped
  · refine consistent.owned.erase ?_ ?_ []
    · rw [← Multiset.coe_eq_coe] at takes ⊢
      simp only [Layout.texts, link, collect, ← Multiset.coe_add] at takes ⊢
      rw [add_assoc (ownedTexts branch.fields : Multiset Address), add_assoc, add_left_comm _
        (lent : Multiset Address), ← add_assoc, takes]
      abel
    · rw [constants_cons, List.append_subset, List.append_subset] at constant ⊢
      exact ⟨⟨constants, constant.1.2⟩, constant.2⟩

end Filling

end DiffServSimulation
