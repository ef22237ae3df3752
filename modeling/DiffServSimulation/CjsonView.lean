/-
This file says which tree a memory shows behind a pointer.

A memory `Shows` a tree if its items can be followed along `next` and `child` and
its strings can be read, whoever owns them. References may lead into the middle of
other trees, so an item can be shown more than once. A layout `Mirrors` a tree if
none of its items is a reference. Then what its items show is their own, and a
memory that holds the layout shows the tree.
-/

import DiffServSimulation.CjsonOwnership

namespace DiffServSimulation

open LinkedRing Layout

/-- What an item says, apart from its children. -/
def Fields.data (texts : Address → Option CString) (fields : Fields) : ItemData where
  type := fields.type
  valuestring := fields.valuestring.bind texts
  valueint := fields.valueint
  string := fields.string.bind texts
  valuedouble := fields.valuedouble

/-- The strings of an item can be read, and a constant name is the caller's. -/
structure Legible (borrowed : List Address) (texts : Address → Option CString)
    (fields : Fields) : Prop where
  valuestring : ∀ text, fields.valuestring = some text → texts text ≠ none
  string : ∀ text, fields.string = some text → texts text ≠ none
  constant : constantNames fields ⊆ borrowed

/-- A pointer leads to a tree, whoever owns its items. -/
def Shows (borrowed : List Address) (memory : Memory) : Option Address → CJSON → Prop
  | pointer, .null => pointer = none
  | pointer, .node next child data => ∃ address cell, pointer = some address ∧
    memory.items address = some cell ∧ Legible borrowed memory.texts cell.value ∧
    cell.value.data memory.texts = data ∧ Shows borrowed memory cell.value.child child ∧
    Shows borrowed memory cell.next next

/-- The items that are references. -/
def Layout.references (chain : Layout) : List Address :=
  chain.collect fun address fields => if fields.isReference then [address] else []

/-- A layout in which no item is a reference, with the tree it stands for. -/
inductive Layout.Mirrors (borrowed : List Address) (texts : Address → Option CString) :
    Layout → CJSON → Prop
  | null : Mirrors borrowed texts .null .null
  | node {address : Address} {fields : Fields} {child next : Layout} {childTree nextTree : CJSON}
    (owner : fields.isReference = false) (legible : Legible borrowed texts fields)
    (below : Mirrors borrowed texts child childTree)
    (behind : Mirrors borrowed texts next nextTree) :
    Mirrors borrowed texts (.node address fields child next)
      (.node nextTree childTree (fields.data texts))

/-! ### What is shown, when memory changes -/

section View

variable {borrowed : List Address} {before after memory : Memory}
  {texts others : Address → Option CString} {fields : Fields} {chain other : Layout}
  {tree otherTree : CJSON}

/-- What was allocated stays as it was. -/
structure Extends (before after : Memory) : Prop where
  items : ∀ address, before.items address ≠ none → after.items address = before.items address
  texts : ∀ text, before.texts text ≠ none → after.texts text = before.texts text

theorem Legible.keep (legible : Legible borrowed texts fields)
    (kept : ∀ text, texts text ≠ none → others text = texts text) :
    Legible borrowed others fields where
  valuestring text same := kept text (legible.valuestring text same) ▸ legible.valuestring text same
  string text same := kept text (legible.string text same) ▸ legible.string text same
  constant := legible.constant

theorem Legible.data_eq (legible : Legible borrowed texts fields)
    (kept : ∀ text, texts text ≠ none → others text = texts text) :
    fields.data others = fields.data texts := by
  have value : fields.valuestring.bind others = fields.valuestring.bind texts := by
    cases same : fields.valuestring with
    | none => rfl
    | some text => exact kept text (legible.valuestring text same)
  have name : fields.string.bind others = fields.string.bind texts := by
    cases same : fields.string with
    | none => rfl
    | some text => exact kept text (legible.string text same)
  rw [Fields.data, Fields.data, value, name]

theorem legible_of_silent (valuestring : fields.valuestring = none)
    (string : fields.string = none) : Legible borrowed texts fields := by
  refine ⟨?_, ?_, ?_⟩ <;> simp [valuestring, string, constantNames]

theorem Legible.withChild (legible : Legible borrowed texts fields) (child : Option Address) :
    Legible borrowed texts { fields with child := child } :=
  ⟨legible.valuestring, legible.string, legible.constant⟩

/-- More memory shows the same trees. -/
theorem Shows.extend {pointer : Option Address} (shows : Shows borrowed before pointer tree)
    (grows : Extends before after) : Shows borrowed after pointer tree := by
  induction tree generalizing pointer with
  | null => exact shows
  | node next child data nextHypothesis childHypothesis =>
    obtain ⟨address, cell, rfl, present, legible, rfl, below, behind⟩ := shows
    exact ⟨address, cell, rfl,
      (grows.items address (present.trans_ne (Option.some_ne_none _))).trans present,
      legible.keep grows.texts, legible.data_eq grows.texts, childHypothesis below,
      nextHypothesis behind⟩

namespace Layout

theorem Mirrors.keep (mirrors : chain.Mirrors borrowed texts tree)
    (kept : ∀ text, texts text ≠ none → others text = texts text) :
    chain.Mirrors borrowed others tree := by
  induction mirrors with
  | null => exact .null
  | node owner legible _ _ below behind =>
    rw [← legible.data_eq kept]
    exact .node owner (legible.keep kept) below behind

theorem Mirrors.append (mirrors : chain.Mirrors borrowed texts tree)
    (more : other.Mirrors borrowed texts otherTree) :
    (link (chain.branches ++ other.branches)).Mirrors borrowed texts
      (CJSON.link (tree.chain ++ otherTree.chain)) := by
  induction mirrors with
  | null =>
    rw [branches, CJSON.chain, List.nil_append, List.nil_append, link_branches, CJSON.link_chain]
    exact more
  | node owner legible below _ _ behind => exact .node owner legible below behind

theorem Mirrors.length_footprint (mirrors : chain.Mirrors borrowed texts tree) :
    chain.footprint.length = tree.nodes := by
  induction mirrors with
  | null => rfl
  | node owner legible _ _ below behind =>
    rw [footprint_node, List.length_cons, List.length_append, below, behind, CJSON.nodes,
      Nat.add_comm (CJSON.nodes _)]

theorem Mirrors.constants_subset (mirrors : chain.Mirrors borrowed texts tree) :
    chain.constants ⊆ borrowed := by
  induction mirrors with
  | null => exact List.nil_subset _
  | node owner legible _ _ below behind =>
    exact List.append_subset.mpr ⟨List.append_subset.mpr ⟨legible.constant, below⟩, behind⟩

/-- An item that owns its strings, with names that the caller lent, can be read. -/
theorem legible_of_owned (owner : fields.isReference = false)
    (live : ∀ text ∈ ownedTexts fields, texts text ≠ none)
    (constant : constantNames fields ⊆ borrowed)
    (lent : ∀ text ∈ borrowed, texts text ≠ none) : Legible borrowed texts fields := by
  refine ⟨fun text same => live text ?_, fun text same => ?_, constant⟩
  · simp [ownedTexts, owner, same]
  · cases isConst : fields.stringIsConst with
    | false => exact live text (by simp [ownedTexts, isConst, same])
    | true => exact lent text (constant (by simp [constantNames, isConst, same]))

/-- A layout without references stands for a tree, if its strings can be read. -/
theorem exists_mirrors (whole : chain.references = [])
    (live : ∀ text ∈ chain.texts, texts text ≠ none) (constant : chain.constants ⊆ borrowed)
    (lent : ∀ text ∈ borrowed, texts text ≠ none) :
    ∃ tree, chain.Mirrors borrowed texts tree := by
  induction chain with
  | null => exact ⟨.null, .null⟩
  | node address fields child next childHypothesis nextHypothesis =>
    simp only [references, Layout.texts, Layout.constants, collect, List.append_eq_nil_iff,
      List.append_subset, List.forall_mem_append] at whole live constant
    obtain ⟨⟨here, wholeChild⟩, wholeNext⟩ := whole
    obtain ⟨childTree, below⟩ := childHypothesis wholeChild live.1.2 constant.1.2
    obtain ⟨nextTree, behind⟩ := nextHypothesis wholeNext live.2 constant.2
    have owner : fields.isReference = false := by simpa using here
    exact ⟨_, .node owner (legible_of_owned owner live.1.1 constant.1.1 lent) below behind⟩

/-- A memory that holds a layout shows the tree it stands for. -/
theorem Mirrors.shows {start : Option Address} (mirrors : chain.Mirrors borrowed memory.texts tree)
    (segment : Segment memory.items start chain.entries none) (hung : chain.Hung memory.items) :
    Shows borrowed memory chain.first tree := by
  induction mirrors generalizing start with
  | null => rfl
  | node owner legible _ _ childHypothesis nextHypothesis =>
    obtain ⟨cell, rest⟩ := segment
    obtain ⟨owns, ⟨_, below⟩, hungChild, hungNext⟩ := hung
    rw [Owns, if_neg (by simp [owner])] at owns
    refine ⟨_, _, rfl, cell, legible, rfl, ?_, ?_⟩
    · rw [owns]
      exact childHypothesis below hungChild
    · have shown := nextHypothesis rest hungNext
      rwa [first_eq_front] at shown

end Layout

end View

end DiffServSimulation
