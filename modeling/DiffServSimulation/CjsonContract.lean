/-
This file says what a caller of the editing functions has to see to.

The functions check null pointers, negative indexes and an item that is added to
itself. What they do not check is a precondition: that a pointer leads where it has
to, that an item to be added or inserted is a root, that a new item is not null where
it is linked in front of another. What a caller sees to has an outcome.
-/

import DiffServSimulation.CjsonMachine

namespace DiffServSimulation

open Faulting LinkedRing Layout Memory DecimalNumber

/-! ### Preconditions -/

section Allowed

variable (texts : Address → Option CString) (forest : List Branch) (borrowed : List Address)

/-- A pointer leads to an item of the forest that owns its children. -/
def Opens (pointer : Option Address) : Prop :=
  ∃ target fields children, pointer = some target ∧ Container forest target fields children

/-- A pointer leads to an item of the forest. -/
def Reaches (pointer : Option Address) : Prop :=
  ∃ target fields children, pointer = some target ∧ (link forest).Has target fields children

/-- A pointer leads to a text. -/
def Live (pointer : Option Address) : Prop :=
  ∃ text, pointer = some text ∧ text ∈ (link forest).texts ++ borrowed

/-- The first pointer leads to an item of the forest, the second to a root, and the item does not
stand below the root. -/
def Apart (array item : Option Address) : Prop :=
  ∃ rest branch, forest.Perm (branch :: rest) ∧ item = some branch.address ∧ Opens rest array

/-- The first pointer leads to an item of the forest, the second to a child of it. -/
def IsChild (parent item : Option Address) : Prop :=
  ∃ target fields children, parent = some target ∧ Container forest target fields children ∧
    ∃ branch ∈ children, item = some branch.address

/-- The first pointer leads to an item of the forest, the second to what it has at an index. -/
def StandsAt (array : Option Address) (index : Nat) (item : Option Address) : Prop :=
  ∃ target fields children, array = some target ∧ Container forest target fields children ∧
    item = children[index]?.map Branch.address

/-- What the search for a name needs. -/
def Searchable (object string : Option Address) : Prop :=
  object = none ∨ string = none ∨ (Opens forest object ∧ Live forest borrowed string)

/-- What a root that is to be named and added needs. A constant name is the caller's. -/
def Nameable (constantKey : Bool) (object string item : Option Address) : Prop :=
  object = none ∨ string = none ∨ item = none ∨ object = item ∨
    (Apart forest object item ∧ Live forest borrowed string ∧
      (constantKey = true → ∃ key ∈ borrowed, string = some key))

/-- What the creation of an item needs: a text to copy, or a number. -/
def Maker.Ready : Maker → Prop
  | .string text => text = none ∨ Live forest borrowed text
  | .raw text => text = none ∨ Live forest borrowed text
  | .number num => num ≠ .nan
  | _ => True

/-- What a call needs. The functions check null pointers, negative indexes and an item that is added
to itself; the rest is up to the caller. -/
def Call.Allowed : Call → Prop
  | .create maker => maker.Ready forest borrowed
  | .delete item => item = none ∨ ∃ branch ∈ forest, item = some branch.address
  | .setNumber object number => Reaches forest object ∧ number ≠ .nan
  | .addItemToArray array item =>
    item = none ∨ array = none ∨ array = item ∨ Apart forest array item
  | .addItemToObject object string item constantKey =>
    Nameable forest borrowed constantKey object string item
  | .addItemReferenceToArray array item =>
    array = none ∨ item = none ∨ (Opens forest array ∧ Reaches forest item)
  | .addItemReferenceToObject object string item =>
    object = none ∨ string = none ∨ item = none ∨
      (Opens forest object ∧ Live forest borrowed string ∧ Reaches forest item)
  | .addToObject object name maker =>
    maker.Ready forest borrowed ∧
      (object = none ∨ name = none ∨ (Opens forest object ∧ Live forest borrowed name))
  | .detachItemViaPointer parent item => parent = none ∨ item = none ∨ IsChild forest parent item
  | .detachItemFromArray array which => which < 0 ∨ array = none ∨ Opens forest array
  | .detachItemFromObject object string _ => Searchable forest borrowed object string
  | .deleteItemFromArray array which => which < 0 ∨ array = none ∨ Opens forest array
  | .deleteItemFromObject object string _ => Searchable forest borrowed object string
  -- With a child at the index, a null pointer for the new item is not checked.
  | .insertItemInArray array which newitem =>
    which < 0 ∨ array = none ∨ Apart forest array newitem ∨
      (StandsAt forest array which.toNatClampNeg none ∧ (newitem = none ∨ newitem = array))
  | .replaceItemViaPointer parent item replacement =>
    parent = none ∨ replacement = none ∨ item = none ∨ replacement = item ∨
      ∃ rest branch, forest.Perm (branch :: rest) ∧ replacement = some branch.address ∧
        IsChild rest parent item
  | .replaceItemInArray array which newitem =>
    which < 0 ∨ array = none ∨ Apart forest array newitem ∨
      (Opens forest array ∧ newitem = none) ∨ StandsAt forest array which.toNatClampNeg none ∨
        StandsAt forest array which.toNatClampNeg newitem
  -- The old name of the new item is freed before the name is read.
  | .replaceItemInObject object string newitem _ =>
    newitem = none ∨ string = none ∨ ∃ rest branch, forest.Perm (branch :: rest) ∧
      newitem = some branch.address ∧ Live forest borrowed string ∧
      (branch.fields.stringIsConst = false → string ≠ branch.fields.string) ∧
      (object = none ∨ Opens rest object)
  | .createArray listing count =>
    count < 0 ∨ listing.Null ∨ ∃ nodes, Enumerates texts count.toNatClampNeg listing nodes
  | .duplicate item recurse =>
    item = none ∨ ∃ target fields children, item = some target ∧
      (link forest).Has target fields children ∧ fields.isReference = false ∧
      (recurse = true → children.references = [])


end Allowed

/-! ### What meets its precondition has an outcome -/

section Outcomes

variable {memory : Memory} {borrowed : List Address} {forest : List Branch}
  {array item newitem object string : Option Address} {which : Int32}

theorem exists_deletes (allowed : item = none ∨ ∃ branch ∈ forest, item = some branch.address) :
    ∃ next, Deletes forest item next := by
  obtain rfl | ⟨branch, member, rfl⟩ := allowed
  · exact ⟨_, .null⟩
  · obtain ⟨before, behind, rfl⟩ := List.append_of_mem member
    exact ⟨_, .root List.perm_middle⟩

theorem exists_sets {number : Double} (reaches : Reaches forest object) (isNumber : number ≠ .nan) :
    ∃ next, Sets forest number object next := by
  obtain ⟨target, fields, children, rfl, has⟩ := reaches
  obtain ⟨valueint, defined⟩ := intOfDouble_ok isNumber
  exact ⟨_, .set has defined⟩

theorem exists_adds
    (allowed : item = none ∨ array = none ∨ array = item ∨ Apart forest array item) :
    ∃ done next, Adds forest array item done next := by
  obtain null | null | same | ⟨rest, branch, root, rfl, target, fields, children, rfl, container⟩ :=
    allowed
  · exact ⟨false, _, .refused (.inl null)⟩
  · exact ⟨false, _, .refused (.inr (.inl null))⟩
  · exact ⟨false, _, .refused (.inr (.inr same))⟩
  · exact ⟨true, _, .appended root container⟩

theorem exists_detaches (allowed : array = none ∨ item = none ∨ IsChild forest array item) :
    ∃ reply next, Detaches forest array item reply next := by
  obtain null | null | ⟨target, fields, children, rfl, container, branch, member, rfl⟩ := allowed
  · exact ⟨none, _, .refused (.inl null)⟩
  · exact ⟨none, _, .refused (.inr null)⟩
  · obtain ⟨before, behind, rfl⟩ := List.append_of_mem member
    exact ⟨_, _, .taken container⟩

/-- What comes of detaching can be deleted. -/
theorem Detaches.exists_deletes {reply : Option Address} {next : List Branch}
    (detaches : Detaches forest array item reply next) : ∃ last, Deletes next reply last := by
  cases detaches with
  | refused => exact ⟨_, .null⟩
  | taken => exact ⟨_, .root (.refl _)⟩

/-- What stands at an index is null or a child. -/
theorem exists_itemAt (index : Nat) (allowed : array = none ∨ Opens forest array) :
    ∃ item, ItemAt forest index array item ∧ (item = none ∨ IsChild forest array item) := by
  obtain rfl | ⟨target, fields, children, rfl, container⟩ := allowed
  · exact ⟨none, .null, .inl rfl⟩
  · refine ⟨_, .child container, ?_⟩
    cases found : children[index]? with
    | none => exact .inl rfl
    | some branch =>
      exact .inr ⟨target, fields, children, rfl, container, branch, List.mem_of_getElem? found, rfl⟩

theorem exists_detachesAt (allowed : which < 0 ∨ array = none ∨ Opens forest array) :
    ∃ reply next, DetachesAt forest array which reply next := by
  unfold DetachesAt
  split_ifs with negative
  · exact ⟨none, _, rfl, rfl⟩
  · obtain ⟨item, itemAt, isChild⟩ :=
      exists_itemAt which.toNatClampNeg (allowed.resolve_left negative)
    obtain ⟨reply, next, detaches⟩ := exists_detaches (.inr isChild)
    exact ⟨reply, next, item, itemAt, detaches⟩

/-- What was live can be read. -/
theorem Live.text {string : Address} (live : Live forest borrowed (some string))
    (consistent : Consistent memory borrowed forest) :
    ∃ text, memory.texts string = some text := by
  obtain ⟨_, isString, member⟩ := live
  rw [← Option.some.inj isString] at member
  exact Option.ne_none_iff_exists'.mp ((consistent.owned.allocated string).mpr member)

/-- What is found by its name is null or a child. -/
theorem exists_itemNamed (consistent : Consistent memory borrowed forest) (caseSensitive : Bool)
    (allowed : Searchable forest borrowed object string) :
    ∃ item, ItemNamed memory.texts forest caseSensitive object string item ∧
      (item = none ∨ IsChild forest object item) := by
  obtain null | null | ⟨⟨target, fields, children, rfl, container⟩, live⟩ := allowed
  · exact ⟨none, .null (.inl null), .inl rfl⟩
  · exact ⟨none, .null (.inr null), .inl rfl⟩
  · obtain ⟨key, rfl⟩ : ∃ key, string = some key := ⟨_, live.choose_spec.1⟩
    obtain ⟨text, isText⟩ := live.text consistent
    refine ⟨_, .child container isText, ?_⟩
    cases found : memberNamed memory.texts caseSensitive text children with
    | none => exact .inl rfl
    | some branch =>
      exact .inr ⟨target, fields, children, rfl, container, branch, memberNamed_mem found, rfl⟩

theorem exists_detachesNamed (consistent : Consistent memory borrowed forest)
    (caseSensitive : Bool) (allowed : Searchable forest borrowed object string) :
    ∃ reply next, DetachesNamed memory.texts forest object string caseSensitive reply next := by
  obtain ⟨item, itemNamed, isChild⟩ := exists_itemNamed consistent caseSensitive allowed
  obtain ⟨reply, next, detaches⟩ := exists_detaches (.inr isChild)
  exact ⟨reply, next, item, itemNamed, detaches⟩

theorem exists_replaces (allowed : array = none ∨ newitem = none ∨ item = none ∨ newitem = item ∨
      ∃ rest branch, forest.Perm (branch :: rest) ∧ newitem = some branch.address ∧
        IsChild rest array item) :
    ∃ done next, Replaces forest array item newitem done next := by
  by_cases void : array = none ∨ newitem = none ∨ item = none
  · exact ⟨false, _, .refused void⟩
  obtain ⟨isArray, isNew, isItem⟩ := not_or.mp void |>.imp_right not_or.mp
  obtain ⟨target, rfl⟩ := Option.ne_none_iff_exists'.mp isArray
  obtain ⟨other, rfl⟩ := Option.ne_none_iff_exists'.mp isItem
  obtain same | ⟨rest, branch, root, rfl, _, fields, children, isTarget, container, old, member,
      isOld⟩ := ((allowed.resolve_left isArray).resolve_left isNew).resolve_left isItem
  · subst same
    exact ⟨true, _, .same target other⟩
  · obtain rfl := Option.some.inj isTarget
    obtain rfl := Option.some.inj isOld
    obtain ⟨before, behind, rfl⟩ := List.append_of_mem member
    exact ⟨true, _, .replaced root container⟩

theorem exists_inserts (allowed : which < 0 ∨ array = none ∨ Apart forest array newitem ∨
      (StandsAt forest array which.toNatClampNeg none ∧ (newitem = none ∨ newitem = array))) :
    ∃ done next, Inserts forest array which newitem done next := by
  unfold Inserts
  split_ifs with negative
  · exact ⟨false, _, rfl, rfl⟩
  obtain rfl | ⟨rest, branch, root, rfl, target, fields, children, rfl, container⟩ |
    ⟨⟨target, fields, children, rfl, container, absent⟩, void⟩ := allowed.resolve_left negative
  · exact ⟨false, _, none, .null, .refused (.inr (.inl rfl))⟩
  · have itemAt : ItemAt forest which.toNatClampNeg (some target) _ :=
      .child ((container.cons branch).perm root.symm)
    cases found : children[which.toNatClampNeg]? with
    | none =>
      rw [found] at itemAt
      exact ⟨true, _, none, itemAt, .appended root container⟩
    | some other =>
      rw [found] at itemAt
      obtain ⟨before, behind, rfl⟩ := List.append_of_mem (List.mem_of_getElem? found)
      exact ⟨true, _, _, itemAt, rfl, .inserted root container⟩
  · exact ⟨false, _, none, absent ▸ .child container,
      .refused (void.imp_right fun same => .inr same.symm)⟩

theorem exists_replacesAt (allowed : which < 0 ∨ array = none ∨ Apart forest array newitem ∨
      (Opens forest array ∧ newitem = none) ∨ StandsAt forest array which.toNatClampNeg none ∨
        StandsAt forest array which.toNatClampNeg newitem) :
    ∃ done next, ReplacesAt forest array which newitem done next := by
  unfold ReplacesAt
  split_ifs with negative
  · exact ⟨false, _, rfl, rfl⟩
  obtain rfl | ⟨rest, branch, root, rfl, target, fields, children, rfl, container⟩ |
    ⟨⟨target, fields, children, rfl, container⟩, rfl⟩ |
    ⟨target, fields, children, rfl, container, absent⟩ |
    ⟨target, fields, children, rfl, container, same⟩ := allowed.resolve_left negative
  · exact ⟨false, _, none, .null, .refused (.inl rfl)⟩
  · have itemAt : ItemAt forest which.toNatClampNeg (some target) _ :=
      .child ((container.cons branch).perm root.symm)
    cases found : children[which.toNatClampNeg]? with
    | none =>
      rw [found] at itemAt
      exact ⟨false, _, none, itemAt, .refused (.inr (.inr rfl))⟩
    | some other =>
      rw [found] at itemAt
      obtain ⟨before, behind, rfl⟩ := List.append_of_mem (List.mem_of_getElem? found)
      exact ⟨true, _, _, itemAt, .replaced root container⟩
  · exact ⟨false, _, _, .child container, .refused (.inr (.inl rfl))⟩
  · exact ⟨false, _, none, absent ▸ .child container, .refused (.inr (.inr rfl))⟩
  · have replaces : ∃ done next, Replaces forest (some target) newitem newitem done next :=
      exists_replaces (.inr (.inr (.inr (.inl rfl))))
    obtain ⟨done, next, replaces⟩ := replaces
    exact ⟨done, next, newitem, same ▸ .child container, replaces⟩

end Outcomes

end DiffServSimulation
