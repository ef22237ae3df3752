/-
This file proves what the list operations of the JSON library do to the list of
children they work on.

An item at some address lists its children if its `child` leads to the first of
them and they form a ring. Adding, inserting, detaching and replacing then run
without a fault, leave a ring of the children as the operation on lists has them,
and change no other item.
-/

import DiffServSimulation.CjsonMemory

namespace DiffServSimulation

open Faulting LinkedRing

namespace Memory

variable {memory : Memory} {Value : Type}

/-! ### Runs -/

/-- The memory with other items. -/
def withItems (memory : Memory) (items : Heap Address Fields) : Memory :=
  { memory with items := items }

@[simp] theorem items_withItems (memory : Memory) (items : Heap Address Fields) :
    (memory.withItems items).items = items := rfl

@[simp] theorem withItems_withItems (memory : Memory) (items others : Heap Address Fields) :
    (memory.withItems items).withItems others = memory.withItems others := rfl

theorem run_follow {address : Address} {item : Cell Address Fields}
    (present : memory.items address = some item) :
    (follow (some address)).run memory = .ok (item, memory) := by
  rw [follow, run_get_bind]
  simp only [present]
  rfl

theorem run_assign {address : Address} (present : memory.items address ≠ none)
    (change : Cell Address Fields → Cell Address Fields) :
    (assign (some address) change).run memory =
      .ok (⟨⟩, memory.withItems (memory.items.alter address change)) := by
  obtain ⟨item, isItem⟩ := Option.ne_none_iff_exists'.mp present
  rw [assign, run_get_bind]
  simp only [isItem]
  rfl

theorem run_follow_bind {address : Address} {item : Cell Address Fields}
    (rest : Cell Address Fields → Heaped Value) (present : memory.items address = some item) :
    (follow (some address) >>= rest).run memory = (rest item).run memory :=
  run_bind_ok _ _ _ _ _ (run_follow present)

theorem run_assign_bind {address : Address} (rest : PUnit → Heaped Value)
    (change : Cell Address Fields → Cell Address Fields)
    (present : memory.items address ≠ none) :
    (assign (some address) change >>= rest).run memory =
      (rest ⟨⟩).run (memory.withItems (memory.items.alter address change)) :=
  run_bind_ok _ _ _ _ _ (run_assign present change)

theorem run_onlyIf_pos_bind {condition : Prop} [Decidable condition] (action : Heaped PUnit)
    (rest : PUnit → Heaped Value) (holds : condition) :
    (onlyIf condition action >>= rest).run memory = (action >>= rest).run memory := by
  rw [onlyIf, if_pos holds]

theorem run_onlyIf_neg_bind {condition : Prop} [Decidable condition] (action : Heaped PUnit)
    (rest : PUnit → Heaped Value) (fails : ¬ condition) :
    (onlyIf condition action >>= rest).run memory = (rest ⟨⟩).run memory := by
  rw [onlyIf, if_neg fails]
  rfl

/-! ### Lists of children -/

/-- The item at an address has a list of children. -/
structure Lists (items : Heap Address Fields) (array : Address)
    (entries : List (Address × Fields)) : Prop where
  parent : ∃ item, items array = some item ∧ item.value.child = front entries none
  ring : Ringed items entries
  distinct : (addresses entries).Nodup
  apart : array ∉ addresses entries

/-- The list of children of an item was edited: it is another list now, with some items touched on
the way, and nothing else was changed. -/
structure Edited (items after : Heap Address Fields) (array : Address) (touched : List Address)
    (entries : List (Address × Fields)) : Prop where
  lists : Lists after array entries
  parent : after array = (items array).map fun item =>
    { item with value := { item.value with child := front entries none } }
  frame : AgreeOutside (array :: touched) items after

section Lists

variable {items : Heap Address Fields} {array : Address} {entries : List (Address × Fields)}

theorem Lists.ne_none (lists : Lists items array entries) : items array ≠ none := by
  obtain ⟨item, present, -⟩ := lists.parent
  rw [present]
  exact Option.some_ne_none item

/-- The cell of an item that stands between others. -/
theorem Lists.middle {before behind : List (Address × Fields)} {address : Address} {fields : Fields}
    (lists : Lists items array (before ++ (address, fields) :: behind)) :
    items address =
      some ⟨front behind none, back (back (some address) behind) before, fields⟩ :=
  lists.ring.split.2.1

/-- The cell of the first item. -/
theorem Lists.first {behind : List (Address × Fields)} {address : Address} {fields : Fields}
    (lists : Lists items array ((address, fields) :: behind)) :
    items address = some ⟨front behind none, back (some address) behind, fields⟩ :=
  lists.ring.1

theorem Lists.mem_ne_none (lists : Lists items array entries) {address : Address}
    (member : address ∈ addresses entries) : items address ≠ none := by
  obtain ⟨⟨_, fields⟩, isEntry, rfl⟩ := List.mem_map.mp member
  obtain ⟨next, prev, present⟩ := Segment.present lists.ring isEntry
  simp [present]

/-- The item that has the list, when its list is changed without a change of its head. -/
theorem Lists.same_parent (lists : Lists items array entries) (others : List (Address × Fields))
    (same : front others none = front entries none) :
    items array = (items array).map fun item =>
      { item with value := { item.value with child := front others none } } := by
  obtain ⟨item, present, child⟩ := lists.parent
  rw [present, Option.map_some, same, ← child]

/-- What is left to show of an edit. -/
theorem edited_of {after : Heap Address Fields} {touched : List Address}
    (lists : Lists items array entries) {others : List (Address × Fields)}
    (ring : Ringed after others) (distinct : (addresses others).Nodup)
    (apart : array ∉ addresses others)
    (parent : after array = (items array).map fun item =>
      { item with value := { item.value with child := front others none } })
    (frame : AgreeOutside (array :: touched) items after) :
    Edited items after array touched others := by
  obtain ⟨item, present, -⟩ := lists.parent
  rw [present, Option.map_some] at parent
  exact ⟨⟨⟨_, parent, rfl⟩, ring, distinct, apart⟩, by rw [parent, present, Option.map_some], frame⟩

/-- What is left to show of an edit that keeps the first item. -/
theorem edited_of_agree {after : Heap Address Fields} {touched : List Address}
    (lists : Lists items array entries) {others : List (Address × Fields)}
    (ring : Ringed after others) (distinct : (addresses others).Nodup)
    (apart : array ∉ addresses others) (same : front others none = front entries none)
    (outside : array ∉ touched) (agree : AgreeOutside touched items after) :
    Edited items after array touched others :=
  edited_of lists ring distinct apart ((agree array outside).trans (lists.same_parent others same))
    fun _ absent => agree _ (mt (List.mem_cons_of_mem _) absent)

/-- A change of an item that is no part of the list. -/
theorem Edited.alter {after : Heap Address Fields} {touched : List Address} {address : Address}
    (edited : Edited items after array touched entries) (apart : address ≠ array)
    (outside : address ∉ addresses entries)
    (change : Cell Address Fields → Cell Address Fields) :
    Edited items (after.alter address change) array (address :: touched) entries := by
  obtain ⟨⟨⟨item, present, child⟩, ring, distinct, away⟩, parent, frame⟩ := edited
  have kept := after.alter_of_ne change apart.symm
  refine ⟨⟨⟨item, kept.trans present, child⟩, ring.congr fun other member =>
    after.alter_of_ne change (ne_of_mem_of_not_mem member outside), distinct, away⟩,
    kept.trans parent, fun other absent => ?_⟩
  rw [List.mem_cons, List.mem_cons, not_or, not_or] at absent
  rw [after.alter_of_ne change absent.2.1]
  exact frame other (List.not_mem_cons_of_ne_of_not_mem absent.1 absent.2.2)

end Lists

/-! ### Adding -/

section Add

variable {array item : Address} {entries : List (Address × Fields)} {prev : Option Address}
  {fields : Fields}

theorem suffixObject_run {last : Address} (presentLast : memory.items last ≠ none)
    (present : memory.items item ≠ none) :
    (suffixObject (some last) (some item)).run memory = .ok (⟨⟩, memory.withItems
      ((memory.items.setNext last (some item)).setPrev item (some last))) := by
  unfold suffixObject setNext setPrev
  rw [run_assign_bind _ _ presentLast, run_assign (Heap.alter_ne_none _ _ present)]
  rfl

/-- The first branch of `add_item_to_array`. -/
theorem startList_run (lists : Lists memory.items array [])
    (loose : memory.items item = some ⟨none, prev, fields⟩) (apart : item ≠ array) :
    ∃ items, (startList (some array) (some item)).run memory = .ok (⟨⟩, memory.withItems items) ∧
      Edited memory.items items array [item] [(item, fields)] := by
  have present : memory.items item ≠ none := by simp [loose]
  unfold startList setChild setFields setPrev setNext
  rw [run_assign_bind _ _ lists.ne_none, run_assign_bind _ _ (Heap.alter_ne_none _ _ present),
    run_assign (Heap.alter_ne_none _ _ (Heap.alter_ne_none _ _ present))]
  refine ⟨_, rfl, edited_of lists ⟨?_, trivial⟩ (by simp [addresses]) ?_ ?_ ?_⟩
  · simp [withItems, Heap.alter, apart, loose, front, back]
  · simp [addresses, apart.symm]
  · simp [withItems, Heap.alter, apart.symm, front]
  · exact (((AgreeOutside.refl _ _).alter List.mem_cons_self _).alter (by simp) _).alter (by simp) _

/-- The second branch of `add_item_to_array`. -/
theorem appendToEnd_run {first last : Address} (lists : Lists memory.items array entries)
    (isFirst : front entries none = some first) (isLast : back none entries = some last)
    (loose : memory.items item = some ⟨none, prev, fields⟩) (apart : item ≠ array)
    (outside : item ∉ addresses entries) :
    ∃ items, (appendToEnd (some array) (some first) (some item)).run memory =
        .ok (⟨⟩, memory.withItems items) ∧
      Edited memory.items items array (item :: addresses entries)
        (entries ++ [(item, fields)]) := by
  obtain ⟨container, present, child⟩ := lists.parent
  have head : ∃ next value, memory.items first = some ⟨next, some last, value⟩ := by
    obtain ⟨value, behind, rfl⟩ := exists_cons_of_front isFirst
    exact ⟨_, _, isLast ▸ lists.first⟩
  obtain ⟨next, value, head⟩ := head
  have presentItem : memory.items item ≠ none := by simp [loose]
  have presentFirst := lists.mem_ne_none (mem_of_front isFirst)
  have presentLast := lists.mem_ne_none (mem_of_back isLast)
  have apartLast : array ≠ last := fun same => lists.apart (same ▸ mem_of_back isLast)
  have apartFirst : array ≠ first := fun same => lists.apart (same ▸ mem_of_front isFirst)
  have distinct : (addresses (entries ++ [(item, fields)])).Nodup := by
    rw [addresses_append]
    exact List.nodup_append.mpr ⟨lists.distinct, List.nodup_singleton _, by
      simpa [addresses] using fun address member => ne_of_mem_of_not_mem member outside⟩
  have kept : ((memory.items.setNext last (some item)).setPrev item (some last)) array =
      some container := by
    simp [Heap.setNext, Heap.setPrev, Heap.alter, apart.symm, apartLast, present]
  unfold appendToEnd
  rw [run_follow_bind _ head, onlyIf, if_pos (Option.some_ne_none last),
    run_bind_ok _ _ _ _ _ (suffixObject_run presentLast presentItem), pointBack,
    run_follow_bind _ kept, child, isFirst, setPrev,
    run_assign (Heap.alter_ne_none _ _ (Heap.alter_ne_none _ _ presentFirst))]
  have notLast : array ∉ addresses (entries ++ [(item, fields)]) := by
    simpa [addresses_append, addresses, apart.symm] using lists.apart
  refine ⟨_, rfl, edited_of_agree lists (Ringed.append lists.ring isFirst isLast loose distinct)
    distinct notLast (by rw [front_append, front_of_front isFirst, isFirst]) ?_ ?_⟩
  · exact fun member => (List.mem_cons.mp member).elim apart.symm lists.apart
  · exact (((AgreeOutside.refl _ _).setNext (List.mem_cons_of_mem _ (mem_of_back isLast)) _).setPrev
      List.mem_cons_self _).setPrev (List.mem_cons_of_mem _ (mem_of_front isFirst)) _

/-- `add_item_to_array` appends a detached item. -/
theorem addItemToArray_run (lists : Lists memory.items array entries)
    (loose : memory.items item = some ⟨none, prev, fields⟩) (apart : item ≠ array)
    (outside : item ∉ addresses entries) :
    ∃ items, (addItemToArray (some array) (some item)).run memory =
        .ok (true, memory.withItems items) ∧
      Edited memory.items items array (item :: addresses entries)
        (entries ++ [(item, fields)]) := by
  obtain ⟨container, present, child⟩ := lists.parent
  have given : ¬ (some item = none ∨ some array = none ∨ some array = some item) := by
    simp [apart.symm]
  rw [addItemToArray, if_neg given, run_follow_bind _ present, child]
  cases entries with
  | nil =>
    obtain ⟨items, ran, edited⟩ := startList_run lists loose apart
    refine ⟨items, ?_, edited⟩
    rw [front, linkLast, if_pos rfl, run_bind_ok _ _ _ _ _ ran]
    rfl
  | cons first behind =>
    obtain ⟨last, isLast⟩ := exists_back_cons none first behind
    obtain ⟨items, ran, edited⟩ := appendToEnd_run lists rfl isLast loose apart outside
    refine ⟨items, ?_, edited⟩
    rw [front, linkLast, if_neg (Option.some_ne_none _), run_bind_ok _ _ _ _ _ ran]
    rfl

end Add

/-! ### Detaching -/

/-- An item was taken out of the list of children, without touching the item itself. -/
structure Unlinked (items after : Heap Address Fields) (array item : Address)
    (entries : List (Address × Fields)) : Prop where
  ring : Ringed after entries
  parent : after array = (items array).map fun item =>
    { item with value := { item.value with child := front entries none } }
  kept : after item = items item
  frame : AgreeOutside (array :: addresses entries) items after

section Detach

variable {array item : Address} {before behind : List (Address × Fields)} {fields : Fields}

theorem bypass_run {last : Address} {next : Option Address}
    (cell : memory.items item = some ⟨next, some last, fields⟩)
    (present : memory.items last ≠ none) :
    (bypass (some item)).run memory =
      .ok (⟨⟩, memory.withItems (memory.items.setNext last next)) := by
  rw [bypass, run_follow_bind _ cell, setNext, run_assign present]
  rfl

/-- An only child. -/
theorem unlink_only (lists : Lists memory.items array [(item, fields)]) :
    ∃ items, (unlink (some array) (some item)).run memory = .ok (⟨⟩, memory.withItems items) ∧
      Unlinked memory.items items array item [] := by
  obtain ⟨container, present, child⟩ := lists.parent
  have apart : item ≠ array := fun same => lists.apart (by simp [addresses, same])
  have cell := lists.first
  unfold unlink
  rw [run_follow_bind _ present, run_onlyIf_neg_bind _ _ (by simp [child, front]),
    run_follow_bind _ cell, run_onlyIf_neg_bind _ _ (by simp [front]), run_follow_bind _ present,
    run_follow_bind _ cell, if_pos (by simp [child, front]), setChild, setFields,
    run_assign lists.ne_none]
  refine ⟨_, rfl, trivial, Heap.alter_self _ _ _, Heap.alter_of_ne _ _ apart, ?_⟩
  exact (AgreeOutside.refl _ _).alter List.mem_cons_self _

/-- The first of several children. -/
theorem unlink_first {first : Address} (lists : Lists memory.items array ((item, fields) :: behind))
    (isFirst : front behind none = some first) :
    ∃ items, (unlink (some array) (some item)).run memory = .ok (⟨⟩, memory.withItems items) ∧
      Unlinked memory.items items array item behind := by
  obtain ⟨container, present, child⟩ := lists.parent
  obtain ⟨last, isLast⟩ : ∃ last, back none behind = some last := by
    obtain ⟨value, rest, rfl⟩ := exists_cons_of_front isFirst
    exact exists_back_cons none _ _
  have cell := lists.first
  rw [isFirst, back_of_front isFirst, isLast] at cell
  have distinct := lists.distinct
  have outside := not_mem_of_nodup_cons distinct
  have apart : item ≠ array := fun same => lists.apart (by simp [addresses, same])
  have apartFirst : first ≠ item := ne_of_mem_of_not_mem (mem_of_front isFirst) outside
  have notFirst : first ≠ array := fun same =>
    lists.apart (List.mem_cons_of_mem _ (same ▸ mem_of_front isFirst))
  have presentFirst : memory.items first ≠ none :=
    lists.mem_ne_none (List.mem_cons_of_mem _ (mem_of_front isFirst))
  have ring := ringed_of_segment lists.ring.2 isFirst isLast (List.nodup_cons.mp distinct).2
  have container' : (memory.items.setPrev first (some last)) array = some container :=
    (Heap.alter_of_ne _ _ notFirst.symm).trans present
  have cell' : (memory.items.setPrev first (some last)) item = _ :=
    (Heap.alter_of_ne _ _ apartFirst.symm).trans cell
  unfold unlink
  rw [run_follow_bind _ present, run_onlyIf_neg_bind _ _ (by simp [child, front]),
    run_follow_bind _ cell, run_onlyIf_pos_bind _ _ (by simp), setPrev,
    run_assign_bind _ _ presentFirst, run_follow_bind _ container', run_follow_bind _ cell',
    if_pos (by simp [child, front]), setChild, setFields,
    run_assign (Heap.alter_ne_none _ _ lists.ne_none)]
  refine ⟨_, rfl, Segment.alter ring _ ?_, ?_, ?_, ?_⟩
  · exact fun member => lists.apart (List.mem_cons_of_mem _ member)
  · rw [isFirst]
    exact (Heap.alter_self _ _ _).trans (congrArg _ (Heap.alter_of_ne _ _ notFirst.symm))
  · exact (Heap.alter_of_ne _ _ apart).trans (Heap.alter_of_ne _ _ apartFirst.symm)
  · exact ((AgreeOutside.refl _ _).alter (List.mem_cons_of_mem _ (mem_of_front isFirst)) _).alter
      List.mem_cons_self _

section Behind

variable {last first : Address} (isLast : back none before = some last)
  (isFirst : front before none = some first)

include isLast isFirst

/-- The last of several children. -/
theorem unlink_last (lists : Lists memory.items array (before ++ [(item, fields)])) :
    ∃ items, (unlink (some array) (some item)).run memory = .ok (⟨⟩, memory.withItems items) ∧
      Unlinked memory.items items array item before := by
  obtain ⟨container, present, child⟩ := lists.parent
  have cell := lists.middle
  rw [front, back, back_of_front isFirst, isLast] at cell
  have distinct := lists.distinct
  have outside := not_mem_of_nodup_append_singleton distinct
  have apart : item ≠ array := fun same => lists.apart (by simp [addresses, same])
  have notMember : array ∉ addresses before := fun member =>
    lists.apart (by rw [addresses_append]; exact List.mem_append_left _ member)
  have apartLast : item ≠ last := (ne_of_mem_of_not_mem (mem_of_back isLast) outside).symm
  have apartFirst : item ≠ first := (ne_of_mem_of_not_mem (mem_of_front isFirst) outside).symm
  have notLast : array ≠ last := (ne_of_mem_of_not_mem (mem_of_back isLast) notMember).symm
  have notFirst : array ≠ first := (ne_of_mem_of_not_mem (mem_of_front isFirst) notMember).symm
  have head : container.value.child = some first := by
    rw [child, front_append, front_of_front isFirst]
  rw [addresses_append] at distinct
  have presentBefore : ∀ address ∈ addresses before, memory.items address ≠ none :=
    fun address member => lists.mem_ne_none (by
      rw [addresses_append]
      exact List.mem_append_left _ member)
  have ring := ringed_cut lists.ring.split.1 isFirst isLast
    (List.nodup_append.mp distinct).1
  have cell' : (memory.items.setNext last none) item = _ :=
    (Heap.alter_of_ne _ _ apartLast).trans cell
  have container' : (memory.items.setNext last none) array = _ :=
    (Heap.alter_of_ne _ _ notLast).trans present
  unfold unlink
  rw [run_follow_bind _ present, run_onlyIf_pos_bind _ _ (by simpa [head] using apartFirst),
    run_bind_ok _ _ _ _ _ (bypass_run cell (presentBefore _ (mem_of_back isLast))),
    run_follow_bind _ cell', run_onlyIf_neg_bind _ _ (by simp), run_follow_bind _ container',
    run_follow_bind _ cell', head, if_neg (by simpa using apartFirst), onlyIf, if_pos rfl, setPrev,
    run_assign (Heap.alter_ne_none _ _ (presentBefore _ (mem_of_front isFirst)))]
  refine ⟨_, rfl, ring, ?_, ?_, ?_⟩
  · refine Eq.trans ?_ (lists.same_parent before (by
      rw [front_append, isFirst, front_of_front isFirst]))
    exact (Heap.alter_of_ne _ _ notFirst).trans (Heap.alter_of_ne _ _ notLast)
  · exact (Heap.alter_of_ne _ _ apartFirst).trans (Heap.alter_of_ne _ _ apartLast)
  · exact ((AgreeOutside.refl _ _).setNext (List.mem_cons_of_mem _ (mem_of_back isLast)) _).setPrev
      (List.mem_cons_of_mem _ (mem_of_front isFirst)) _

end Behind

/-- A child between others. -/
theorem unlink_middle {last first : Address} (isLast : back none before = some last)
    (isFirst : front behind none = some first)
    (lists : Lists memory.items array (before ++ (item, fields) :: behind)) :
    ∃ items, (unlink (some array) (some item)).run memory = .ok (⟨⟩, memory.withItems items) ∧
      Unlinked memory.items items array item (before ++ behind) := by
  obtain ⟨container, present, child⟩ := lists.parent
  have cell := lists.middle
  have back' : back (back (some item) behind) before = some last := by
    obtain ⟨rest, value, rfl⟩ := exists_append_of_back isLast
    exact back_singleton _ _ _ _
  rw [isFirst, back'] at cell
  have distinct := lists.distinct
  rw [addresses_append] at distinct
  obtain ⟨distinctBefore, distinctBehind, disjoint⟩ := List.nodup_append'.mp distinct
  have outside := not_mem_of_nodup_cons distinctBehind
  have apart : item ≠ array := fun same => lists.apart (by simp [addresses, same])
  have memBefore : ∀ address ∈ addresses before,
      address ∈ addresses (before ++ (item, fields) :: behind) := fun address member => by
    rw [addresses_append]
    exact List.mem_append_left _ member
  have memBehind : ∀ address ∈ addresses behind,
      address ∈ addresses (before ++ (item, fields) :: behind) := fun address member => by
    rw [addresses_append]
    exact List.mem_append_right _ (List.mem_cons_of_mem _ member)
  have member := memBefore _ (mem_of_back isLast)
  have member' := memBehind _ (mem_of_front isFirst)
  have notLast : array ≠ last := (ne_of_mem_of_not_mem member lists.apart).symm
  have notFirst : array ≠ first := (ne_of_mem_of_not_mem member' lists.apart).symm
  have apartLast : item ≠ last := fun same =>
    disjoint (mem_of_back isLast) (same ▸ List.mem_cons_self)
  have apartFirst : item ≠ first := (ne_of_mem_of_not_mem (mem_of_front isFirst) outside).symm
  obtain ⟨start, isStart⟩ : ∃ start, front before none = some start := by
    cases before with
    | nil => cases isLast
    | cons entry rest => exact ⟨_, rfl⟩
  have head : container.value.child = some start := by
    rw [child, front_append, front_of_front isStart]
  have apartStart : item ≠ start := fun same =>
    disjoint (mem_of_front isStart) (same ▸ List.mem_cons_self)
  have left := lists.ring.split.1
  rw [back_of_front isFirst] at left
  have ring := ringed_join left lists.ring.split.2.2 isLast isFirst (by
    rw [addresses_append]
    exact List.nodup_append'.mpr ⟨distinctBefore, (List.nodup_cons.mp distinctBehind).2,
      fun _ before behind => disjoint before (List.mem_cons_of_mem _ behind)⟩)
  have cell' : (memory.items.setNext last (some first)) item = _ :=
    (Heap.alter_of_ne _ _ apartLast).trans cell
  have cell'' : ((memory.items.setNext last (some first)).setPrev first (some last)) item = _ :=
    (Heap.alter_of_ne _ _ apartFirst).trans cell'
  have container' :
      ((memory.items.setNext last (some first)).setPrev first (some last)) array = _ :=
    (Heap.alter_of_ne _ _ notFirst).trans ((Heap.alter_of_ne _ _ notLast).trans present)
  unfold unlink
  rw [run_follow_bind _ present, run_onlyIf_pos_bind _ _ (by simpa [head] using apartStart),
    run_bind_ok _ _ _ _ _ (bypass_run cell (lists.mem_ne_none member)),
    run_follow_bind _ cell', run_onlyIf_pos_bind _ _ (by simp), setPrev,
    run_assign_bind _ _ (Heap.alter_ne_none _ _ (lists.mem_ne_none member')),
    run_follow_bind _ container', run_follow_bind _ cell'', head,
    if_neg (by simpa using apartStart), onlyIf, if_neg (by simp)]
  refine ⟨_, rfl, ring, ?_, cell''.trans cell.symm, ?_⟩
  · refine container'.trans (present.symm.trans (lists.same_parent _ ?_))
    rw [front_append, front_of_front isStart, front_append, front_of_front isStart]
  · refine ((AgreeOutside.refl _ _).setNext (List.mem_cons_of_mem _ ?_) _).setPrev
      (List.mem_cons_of_mem _ ?_) _
    · rw [addresses_append]
      exact List.mem_append_left _ (mem_of_back isLast)
    · rw [addresses_append]
      exact List.mem_append_right _ (mem_of_front isFirst)

/-- Any child. -/
theorem unlink_run (lists : Lists memory.items array (before ++ (item, fields) :: behind)) :
    ∃ items, (unlink (some array) (some item)).run memory = .ok (⟨⟩, memory.withItems items) ∧
      Unlinked memory.items items array item (before ++ behind) := by
  rcases before with - | ⟨first, rest⟩
  · rcases behind with - | ⟨next, rest⟩
    · exact unlink_only lists
    · exact unlink_first lists rfl
  · obtain ⟨last, isLast⟩ := exists_back_cons none first rest
    rcases behind with - | ⟨next, others⟩
    · rw [List.append_nil]
      exact unlink_last isLast rfl lists
    · exact unlink_middle isLast rfl lists

/-- The addresses around an item, and the item apart from them. -/
theorem Lists.without (lists : Lists memory.items array (before ++ (item, fields) :: behind)) :
    (addresses (before ++ behind)).Nodup ∧ item ∉ addresses (before ++ behind) ∧
      array ∉ addresses (before ++ behind) ∧ item ≠ array := by
  have distinct := lists.distinct
  have apart := lists.apart
  simp only [addresses, List.map_append, List.map_cons] at distinct apart ⊢
  grind

/-- `cJSON_DetachItemViaPointer` takes a child out of the list, with links that lead nowhere. -/
theorem cJSONDetachItemViaPointer_run
    (lists : Lists memory.items array (before ++ (item, fields) :: behind)) :
    ∃ items, (cJSONDetachItemViaPointer (some array) (some item)).run memory =
        .ok (some item, memory.withItems items) ∧
      Edited memory.items items array (item :: addresses (before ++ behind)) (before ++ behind) ∧
      items item = some ⟨none, none, fields⟩ := by
  obtain ⟨items, ran, unlinked⟩ := unlink_run lists
  obtain ⟨distinct, outside, apart, ne⟩ := lists.without
  have cell := unlinked.kept.trans lists.middle
  have present : items item ≠ none := by simp [cell]
  have given : ¬ (some array = none ∨ some item = none) := by simp
  rw [cJSONDetachItemViaPointer, if_neg given, run_bind_ok _ _ _ _ _ ran, setPrev, setNext,
    run_assign_bind _ _ present, run_assign_bind _ _ (Heap.alter_ne_none _ _ present)]
  refine ⟨_, rfl, edited_of lists ((unlinked.ring.alter _ outside).alter _ outside) distinct apart
    ?_ ?_, ?_⟩
  · exact (Heap.alter_of_ne _ _ ne.symm).trans ((Heap.alter_of_ne _ _ ne.symm).trans
      unlinked.parent)
  · refine ((unlinked.frame.mono ?_).alter ?_ _).alter ?_ _
    · exact List.cons_subset_cons _ (List.subset_cons_self _ _)
    all_goals exact List.mem_cons_of_mem _ List.mem_cons_self
  · simp [Heap.alter, cell]

end Detach

/-! ### Inserting -/

section Insert

variable {array item newitem : Address} {before behind : List (Address × Fields)}
  {next prev : Option Address} {fields given : Fields}

/-- The addresses around a new item. -/
theorem Lists.with (before behind : List (Address × Fields)) (given : Fields)
    (lists : Lists memory.items array (before ++ behind))
    (apart : newitem ≠ array) (outside : newitem ∉ addresses (before ++ behind)) :
    (addresses (before ++ (newitem, given) :: behind)).Nodup ∧
      array ∉ addresses (before ++ (newitem, given) :: behind) := by
  have distinct := lists.distinct
  have absent := lists.apart
  simp only [addresses, List.map_append, List.map_cons] at distinct absent outside ⊢
  grind

/-- A new item in front of the first child. -/
theorem linkBefore_first (lists : Lists memory.items array ((item, fields) :: behind))
    (cell : memory.items newitem = some ⟨next, prev, given⟩) (apart : newitem ≠ array)
    (outside : newitem ∉ addresses ((item, fields) :: behind)) :
    ∃ items, (linkBefore (some array) (some item) (some newitem)).run memory =
        .ok (⟨⟩, memory.withItems items) ∧
      Edited memory.items items array (newitem :: addresses ((item, fields) :: behind))
        ((newitem, given) :: (item, fields) :: behind) := by
  obtain ⟨container, present, child⟩ := lists.parent
  obtain ⟨last, isLast⟩ := exists_back_cons none (item, fields) behind
  obtain ⟨distinct, absent⟩ := Lists.with [] ((item, fields) :: behind) given lists apart outside
  have first := lists.first
  rw [show back (some item) behind = some last from isLast] at first
  have ne : item ≠ newitem := fun same => outside (same ▸ List.mem_cons_self)
  have ne' : item ≠ array := fun same => lists.apart (same ▸ List.mem_cons_self)
  have presentNew : memory.items newitem ≠ none := by simp [cell]
  have presentFirst : memory.items item ≠ none := by simp [first]
  have first' : (memory.items.setNext newitem (some item)) item = _ :=
    (Heap.alter_of_ne _ _ ne).trans first
  have ring := ringed_cons lists.ring rfl isLast cell distinct
  have container' : (((memory.items.setNext newitem (some item)).setPrev newitem
      (some last)).setPrev item (some newitem)) array = _ :=
    (Heap.alter_of_ne _ _ ne'.symm).trans ((Heap.alter_of_ne _ _ apart.symm).trans
      ((Heap.alter_of_ne _ _ apart.symm).trans present))
  unfold linkBefore
  rw [setNext, run_assign_bind _ _ presentNew, run_follow_bind _ first', setPrev,
    run_assign_bind _ _ (Heap.alter_ne_none _ _ presentNew), setPrev,
    run_assign_bind _ _ (Heap.alter_ne_none _ _ (Heap.alter_ne_none _ _ presentFirst)),
    run_follow_bind _ container', if_pos (by simp [child, front]), setChild, setFields,
    run_assign (ne_of_eq_of_ne container' (Option.some_ne_none _))]
  refine ⟨_, rfl, edited_of lists (Segment.alter ring _ absent) distinct absent ?_ ?_⟩
  · exact (Heap.alter_self _ _ _).trans (congrArg _ (container'.trans present.symm))
  · refine ((((AgreeOutside.refl _ _).alter ?_ _).alter ?_ _).alter ?_ _).alter List.mem_cons_self _
    all_goals simp [addresses]

/-- A new item between two children. -/
theorem linkBefore_middle {last : Address} (isLast : back none before = some last)
    (lists : Lists memory.items array (before ++ (item, fields) :: behind))
    (cell : memory.items newitem = some ⟨next, prev, given⟩) (apart : newitem ≠ array)
    (outside : newitem ∉ addresses (before ++ (item, fields) :: behind)) :
    ∃ items, (linkBefore (some array) (some item) (some newitem)).run memory =
        .ok (⟨⟩, memory.withItems items) ∧
      Edited memory.items items array (newitem :: addresses (before ++ (item, fields) :: behind))
        (before ++ (newitem, given) :: (item, fields) :: behind) := by
  obtain ⟨container, present, child⟩ := lists.parent
  obtain ⟨distinct, absent⟩ :=
    Lists.with before ((item, fields) :: behind) given lists apart outside
  obtain ⟨start, isStart⟩ : ∃ start, front before none = some start := by
    cases before with
    | nil => cases isLast
    | cons entry rest => exact ⟨_, rfl⟩
  have middle := lists.middle
  rw [back_of_back isLast] at middle
  have memItem : item ∈ addresses (before ++ (item, fields) :: behind) := by simp [addresses]
  have memLast : last ∈ addresses (before ++ (item, fields) :: behind) := by
    rw [addresses_append]
    exact List.mem_append_left _ (mem_of_back isLast)
  have ne : item ≠ newitem := ne_of_mem_of_not_mem memItem outside
  have ne' : array ≠ item := (ne_of_mem_of_not_mem memItem lists.apart).symm
  have notLast : array ≠ last := (ne_of_mem_of_not_mem memLast lists.apart).symm
  have presentNew : memory.items newitem ≠ none := by simp [cell]
  have middle' : (memory.items.setNext newitem (some item)) item = _ :=
    (Heap.alter_of_ne _ _ ne).trans middle
  have right : Segment memory.items (back (back (some item) behind) before)
      ((item, fields) :: behind) none := lists.ring.split.2
  have ring := ringed_between lists.ring.split.1 right isLast rfl cell distinct
  have container' : (((memory.items.setNext newitem (some item)).setPrev newitem
      (some last)).setPrev item (some newitem)) array = _ :=
    (Heap.alter_of_ne _ _ ne').trans ((Heap.alter_of_ne _ _ apart.symm).trans
      ((Heap.alter_of_ne _ _ apart.symm).trans present))
  have cell' : (((memory.items.setNext newitem (some item)).setPrev newitem
      (some last)).setPrev item (some newitem)) newitem = _ :=
    (Heap.alter_of_ne _ _ ne.symm).trans (setNext_setPrev_self cell)
  have apartStart : item ≠ start := by
    have disjoint := lists.distinct
    rw [addresses_append] at disjoint
    exact fun same => (List.nodup_append'.mp disjoint).2.2 (mem_of_front isStart)
      (same ▸ List.mem_cons_self)
  unfold linkBefore
  rw [setNext, run_assign_bind _ _ presentNew, run_follow_bind _ middle', setPrev,
    run_assign_bind _ _ (Heap.alter_ne_none _ _ presentNew), setPrev,
    run_assign_bind _ _
      (Heap.alter_ne_none _ _ (Heap.alter_ne_none _ _ (lists.mem_ne_none memItem))),
    run_follow_bind _ container', child, front_append, front_of_front isStart,
    if_neg (by simpa using apartStart), run_follow_bind _ cell', setNext,
    run_assign (Heap.alter_ne_none _ _ (Heap.alter_ne_none _ _ (Heap.alter_ne_none _ _
      (lists.mem_ne_none memLast))))]
  refine ⟨_, rfl, edited_of lists ring distinct absent ?_ ?_⟩
  · refine ((Heap.alter_of_ne _ _ notLast).trans (container'.trans present.symm)).trans
      (lists.same_parent _ ?_)
    rw [front_append, front_append, front_of_front isStart, front_of_front isStart]
  · refine ((((AgreeOutside.refl _ _).alter ?_ _).alter ?_ _).alter ?_ _).alter ?_ _
    · exact List.mem_cons_of_mem _ List.mem_cons_self
    · exact List.mem_cons_of_mem _ List.mem_cons_self
    · exact List.mem_cons_of_mem _ (List.mem_cons_of_mem _ memItem)
    · exact List.mem_cons_of_mem _ (List.mem_cons_of_mem _ memLast)

/-- A new item in front of any child. -/
theorem linkBefore_run (lists : Lists memory.items array (before ++ (item, fields) :: behind))
    (cell : memory.items newitem = some ⟨next, prev, given⟩) (apart : newitem ≠ array)
    (outside : newitem ∉ addresses (before ++ (item, fields) :: behind)) :
    ∃ items, (linkBefore (some array) (some item) (some newitem)).run memory =
        .ok (⟨⟩, memory.withItems items) ∧
      Edited memory.items items array (newitem :: addresses (before ++ (item, fields) :: behind))
        (before ++ (newitem, given) :: (item, fields) :: behind) := by
  rcases before with - | ⟨first, rest⟩
  · exact linkBefore_first lists cell apart outside
  · obtain ⟨last, isLast⟩ := exists_back_cons none first rest
    exact linkBefore_middle isLast lists cell apart outside

end Insert

/-! ### Replacing -/

section Replace

variable {array item replacement : Address} {before behind : List (Address × Fields)}
  {next prev : Option Address} {fields given : Fields}

/-- Taking the links of an item with nothing behind it. -/
theorem takeLinks_last {prev' next' : Option Address}
    (replaced : memory.items item = some ⟨none, prev, fields⟩)
    (cell : memory.items replacement = some ⟨next', prev', given⟩) (apart : item ≠ replacement) :
    (takeLinks (some item) (some replacement)).run memory = .ok (⟨⟩, memory.withItems
      ((memory.items.setNext replacement none).setPrev replacement prev)) := by
  have present : memory.items replacement ≠ none := by simp [cell]
  have replaced' : (memory.items.setNext replacement none) item = _ :=
    (Heap.alter_of_ne _ _ apart).trans replaced
  have cell' : ((memory.items.setNext replacement none).setPrev replacement prev) replacement = _ :=
    setNext_setPrev_self cell
  unfold takeLinks
  rw [run_follow_bind _ replaced, setNext, run_assign_bind _ _ present, run_follow_bind _ replaced',
    setPrev, run_assign_bind _ _ (Heap.alter_ne_none _ _ present), run_follow_bind _ cell', onlyIf,
    if_neg (by simp)]
  rfl

/-- Taking the links of an item with another one behind it. -/
theorem takeLinks_before {prev' next' : Option Address} {first : Address}
    (replaced : memory.items item = some ⟨some first, prev, fields⟩)
    (cell : memory.items replacement = some ⟨next', prev', given⟩) (apart : item ≠ replacement)
    (present : memory.items first ≠ none) :
    (takeLinks (some item) (some replacement)).run memory = .ok (⟨⟩, memory.withItems
      (((memory.items.setNext replacement (some first)).setPrev replacement prev).setPrev first
        (some replacement))) := by
  have presentNew : memory.items replacement ≠ none := by simp [cell]
  have replaced' : (memory.items.setNext replacement (some first)) item = _ :=
    (Heap.alter_of_ne _ _ apart).trans replaced
  have cell' : ((memory.items.setNext replacement (some first)).setPrev replacement prev)
      replacement = _ := setNext_setPrev_self cell
  unfold takeLinks
  rw [run_follow_bind _ replaced, setNext, run_assign_bind _ _ presentNew,
    run_follow_bind _ replaced', setPrev, run_assign_bind _ _ (Heap.alter_ne_none _ _ presentNew),
    run_follow_bind _ cell', onlyIf, if_pos (by simp), setPrev,
    run_assign (Heap.alter_ne_none _ _ (Heap.alter_ne_none _ _ present))]
  rfl

/-- The addresses around a replacement. -/
theorem Lists.instead (before behind : List (Address × Fields)) (given : Fields)
    (lists : Lists memory.items array (before ++ (item, fields) :: behind))
    (apart : replacement ≠ array)
    (outside : replacement ∉ addresses (before ++ (item, fields) :: behind)) :
    (addresses (before ++ (replacement, given) :: behind)).Nodup ∧
      array ∉ addresses (before ++ (replacement, given) :: behind) ∧ item ≠ replacement := by
  have distinct := lists.distinct
  have absent := lists.apart
  simp only [addresses, List.map_append, List.map_cons] at distinct absent outside ⊢
  grind

/-- A replacement for an only child. -/
theorem relink_only (lists : Lists memory.items array [(item, fields)])
    (cell : memory.items replacement = some ⟨next, prev, given⟩) (apart : replacement ≠ array)
    (outside : replacement ∉ addresses [(item, fields)]) :
    ∃ items, (relink (some array) (some item) (some replacement)).run memory =
        .ok (⟨⟩, memory.withItems items) ∧
      Edited memory.items items array [replacement] [(replacement, given)] ∧
      items item = memory.items item := by
  obtain ⟨container, present, child⟩ := lists.parent
  have ne : item ≠ replacement := fun same => outside (by simp [addresses, same])
  have ne' : item ≠ array := fun same => lists.apart (by simp [addresses, same])
  have replaced : memory.items item = some ⟨none, some item, fields⟩ := lists.first
  have kept : ∀ address, address ≠ replacement →
      ((memory.items.setNext replacement none).setPrev replacement (some item)) address =
        memory.items address := fun address other =>
    (Heap.alter_of_ne _ _ other).trans (Heap.alter_of_ne _ _ other)
  have taken : ((memory.items.setNext replacement none).setPrev replacement (some item))
      replacement = some ⟨none, some item, given⟩ := setNext_setPrev_self cell
  unfold relink relinkFirst
  rw [run_bind_ok _ _ _ _ _ (takeLinks_last replaced cell ne),
    run_follow_bind _ ((kept _ apart.symm).trans present), if_pos (by simp [child, front]), child,
    front, run_follow_bind _ ((kept _ ne).trans replaced), run_onlyIf_pos_bind _ _ rfl, setPrev,
    run_assign_bind _ _ (ne_of_eq_of_ne taken (Option.some_ne_none _)), setChild, setFields,
    run_assign (Heap.alter_ne_none _ _ (ne_of_eq_of_ne (kept _ apart.symm) lists.ne_none))]
  refine ⟨_, rfl, edited_of lists ⟨?_, trivial⟩ (by simp [addresses]) ?_ ?_ ?_, ?_⟩
  · exact (Heap.alter_of_ne _ _ apart).trans (Heap.alter_of_eq_some _ taken)
  · simpa [addresses] using apart.symm
  · exact (Heap.alter_self _ _ _).trans
      (congrArg _ ((Heap.alter_of_ne _ _ apart.symm).trans (kept _ apart.symm)))
  · refine ((((AgreeOutside.refl _ _).alter ?_ _).alter ?_ _).alter ?_ _).alter List.mem_cons_self _
    all_goals exact List.mem_cons_of_mem _ List.mem_cons_self
  · exact (Heap.alter_of_ne _ _ ne').trans ((Heap.alter_of_ne _ _ ne).trans (kept _ ne))

/-- A replacement for the first of several children. -/
theorem relink_first {first : Address} (isFirst : front behind none = some first)
    (lists : Lists memory.items array ((item, fields) :: behind))
    (cell : memory.items replacement = some ⟨next, prev, given⟩) (apart : replacement ≠ array)
    (outside : replacement ∉ addresses ((item, fields) :: behind)) :
    ∃ items, (relink (some array) (some item) (some replacement)).run memory =
        .ok (⟨⟩, memory.withItems items) ∧
      Edited memory.items items array (replacement :: addresses behind)
        ((replacement, given) :: behind) ∧
      items item = memory.items item := by
  obtain ⟨container, present, child⟩ := lists.parent
  obtain ⟨last, isLast⟩ : ∃ last, back none behind = some last := by
    obtain ⟨value, rest, rfl⟩ := exists_cons_of_front isFirst
    exact exists_back_cons none _ _
  obtain ⟨distinct, absent, ne⟩ := Lists.instead [] behind given lists apart outside
  have replaced := lists.first
  rw [isFirst, back_of_front isFirst, isLast] at replaced
  have notMember := not_mem_of_nodup_cons lists.distinct
  have memFirst := List.mem_cons_of_mem item (mem_of_front isFirst)
  have ne' : item ≠ array := fun same => lists.apart (same ▸ List.mem_cons_self)
  have apartFirst : item ≠ first := (ne_of_mem_of_not_mem (mem_of_front isFirst) notMember).symm
  have apartLast : last ≠ item := ne_of_mem_of_not_mem (mem_of_back isLast) notMember
  have notFirst : array ≠ first := (ne_of_mem_of_not_mem memFirst lists.apart).symm
  have ring := ringed_cons lists.ring.2 isFirst isLast cell distinct
  have kept : ∀ address, address ≠ replacement → address ≠ first →
      (((memory.items.setNext replacement (some first)).setPrev replacement (some last)).setPrev
        first (some replacement)) address = memory.items address := fun address other other' =>
    (Heap.alter_of_ne _ _ other').trans
      ((Heap.alter_of_ne _ _ other).trans (Heap.alter_of_ne _ _ other))
  unfold relink relinkFirst
  rw [run_bind_ok _ _ _ _ _ (takeLinks_before replaced cell ne (lists.mem_ne_none memFirst)),
    run_follow_bind _ ((kept _ apart.symm notFirst).trans present),
    if_pos (by simp [child, front]), child, front,
    run_follow_bind _ ((kept _ ne apartFirst).trans replaced),
    run_onlyIf_neg_bind _ _ (by simpa using apartLast), setChild, setFields,
    run_assign (ne_of_eq_of_ne (kept _ apart.symm notFirst) lists.ne_none)]
  refine ⟨_, rfl, edited_of lists (Segment.alter ring _ absent) distinct absent ?_ ?_, ?_⟩
  · exact (Heap.alter_self _ _ _).trans (congrArg _ (kept _ apart.symm notFirst))
  · refine ((((AgreeOutside.refl _ _).alter ?_ _).alter ?_ _).alter ?_ _).alter List.mem_cons_self _
    · exact List.mem_cons_of_mem _ List.mem_cons_self
    · exact List.mem_cons_of_mem _ List.mem_cons_self
    · exact List.mem_cons_of_mem _ (List.mem_cons_of_mem _ (mem_of_front isFirst))
  · exact (Heap.alter_of_ne _ _ ne').trans (kept _ ne apartFirst)

/-- A replacement for the last of several children. -/
theorem relink_last {last start : Address} (isLast : back none before = some last)
    (isStart : front before none = some start)
    (lists : Lists memory.items array (before ++ [(item, fields)]))
    (cell : memory.items replacement = some ⟨next, prev, given⟩) (apart : replacement ≠ array)
    (outside : replacement ∉ addresses (before ++ [(item, fields)])) :
    ∃ items, (relink (some array) (some item) (some replacement)).run memory =
        .ok (⟨⟩, memory.withItems items) ∧
      Edited memory.items items array (replacement :: addresses before)
        (before ++ [(replacement, given)]) ∧
      items item = memory.items item := by
  obtain ⟨container, present, child⟩ := lists.parent
  obtain ⟨distinct, absent, ne⟩ := Lists.instead before [] given lists apart outside
  have replaced := lists.middle
  rw [front, back_of_back isLast] at replaced
  have notMember := not_mem_of_nodup_append_singleton lists.distinct
  have memBefore : ∀ address ∈ addresses before, address ∈ addresses (before ++ [(item, fields)]) :=
    fun address member => by
      rw [addresses_append]
      exact List.mem_append_left _ member
  have memLast := memBefore _ (mem_of_back isLast)
  have memStart := memBefore _ (mem_of_front isStart)
  have apartStart : item ≠ start := (ne_of_mem_of_not_mem (mem_of_front isStart) notMember).symm
  have apartLast : item ≠ last := (ne_of_mem_of_not_mem (mem_of_back isLast) notMember).symm
  have notLast : array ≠ last := (ne_of_mem_of_not_mem memLast lists.apart).symm
  have notStart : array ≠ start := (ne_of_mem_of_not_mem memStart lists.apart).symm
  have newLast : replacement ≠ last := (ne_of_mem_of_not_mem memLast outside).symm
  have ring := ringed_snoc lists.ring.split.1 isStart isLast cell distinct
  have kept : ∀ address, address ≠ replacement →
      ((memory.items.setNext replacement none).setPrev replacement (some last)) address =
        memory.items address := fun address other =>
    (Heap.alter_of_ne _ _ other).trans (Heap.alter_of_ne _ _ other)
  have taken : ((memory.items.setNext replacement none).setPrev replacement (some last))
      replacement = some ⟨none, some last, given⟩ := setNext_setPrev_self cell
  have presentLast := ne_of_eq_of_ne (kept _ newLast.symm) (lists.mem_ne_none memLast)
  have container' := (kept _ apart.symm).trans present
  have head : container.value.child = some start := by
    rw [child, front_append, front_of_front isStart]
  unfold relink relinkLater pointBack
  rw [run_bind_ok _ _ _ _ _ (takeLinks_last replaced cell ne), run_follow_bind _ container', head,
    if_neg (by simpa using apartStart.symm), run_follow_bind _ taken,
    run_onlyIf_pos_bind _ _ (by simp), setNext, run_assign_bind _ _ presentLast,
    run_follow_bind _ ((Heap.alter_of_ne _ _ newLast).trans taken), onlyIf, if_pos rfl,
    run_follow_bind _ ((Heap.alter_of_ne _ _ notLast).trans container'), head, setPrev,
    run_assign (Heap.alter_ne_none _ _ (Heap.alter_ne_none _ _ (Heap.alter_ne_none _ _
      (lists.mem_ne_none memStart))))]
  refine ⟨_, rfl, edited_of lists ring distinct absent ?_ ?_, ?_⟩
  · refine ((Heap.alter_of_ne _ _ notStart).trans ((Heap.alter_of_ne _ _ notLast).trans
      (kept _ apart.symm))).trans (lists.same_parent _ ?_)
    rw [front_append, front_append, front_of_front isStart, front_of_front isStart]
  · refine ((((AgreeOutside.refl _ _).alter ?_ _).alter ?_ _).alter ?_ _).alter ?_ _
    · exact List.mem_cons_of_mem _ List.mem_cons_self
    · exact List.mem_cons_of_mem _ List.mem_cons_self
    · exact List.mem_cons_of_mem _ (List.mem_cons_of_mem _ (mem_of_back isLast))
    · exact List.mem_cons_of_mem _ (List.mem_cons_of_mem _ (mem_of_front isStart))
  · exact (Heap.alter_of_ne _ _ apartStart).trans
      ((Heap.alter_of_ne _ _ apartLast).trans (kept _ ne))

/-- A replacement for a child between others. -/
theorem relink_middle {last first : Address} (isLast : back none before = some last)
    (isFirst : front behind none = some first)
    (lists : Lists memory.items array (before ++ (item, fields) :: behind))
    (cell : memory.items replacement = some ⟨next, prev, given⟩) (apart : replacement ≠ array)
    (outside : replacement ∉ addresses (before ++ (item, fields) :: behind)) :
    ∃ items, (relink (some array) (some item) (some replacement)).run memory =
        .ok (⟨⟩, memory.withItems items) ∧
      Edited memory.items items array (replacement :: addresses (before ++ behind))
        (before ++ (replacement, given) :: behind) ∧
      items item = memory.items item := by
  obtain ⟨container, present, child⟩ := lists.parent
  obtain ⟨distinct, absent, ne⟩ := Lists.instead before behind given lists apart outside
  obtain ⟨start, isStart⟩ : ∃ start, front before none = some start := by
    cases before with
    | nil => cases isLast
    | cons entry rest => exact ⟨_, rfl⟩
  have replaced := lists.middle
  rw [isFirst, back_of_back isLast] at replaced
  have split := lists.distinct
  rw [addresses_append] at split
  obtain ⟨-, distinctBehind, disjoint⟩ := List.nodup_append'.mp split
  have memBefore : ∀ address ∈ addresses before,
      address ∈ addresses (before ++ (item, fields) :: behind) := fun address member => by
    rw [addresses_append]
    exact List.mem_append_left _ member
  have memFirst : first ∈ addresses (before ++ (item, fields) :: behind) := by
    rw [addresses_append]
    exact List.mem_append_right _ (List.mem_cons_of_mem _ (mem_of_front isFirst))
  have memLast := memBefore _ (mem_of_back isLast)
  have apartStart : item ≠ start := fun same =>
    disjoint (mem_of_front isStart) (same ▸ List.mem_cons_self)
  have apartLast : item ≠ last := fun same =>
    disjoint (mem_of_back isLast) (same ▸ List.mem_cons_self)
  have apartFirst : item ≠ first :=
    (ne_of_mem_of_not_mem (mem_of_front isFirst) (not_mem_of_nodup_cons distinctBehind)).symm
  have notLast : array ≠ last := (ne_of_mem_of_not_mem memLast lists.apart).symm
  have notFirst : array ≠ first := (ne_of_mem_of_not_mem memFirst lists.apart).symm
  have newLast : replacement ≠ last := (ne_of_mem_of_not_mem memLast outside).symm
  have newFirst : replacement ≠ first := (ne_of_mem_of_not_mem memFirst outside).symm
  have left := lists.ring.split.1
  rw [back_of_front isFirst] at left
  have ring := ringed_between left lists.ring.split.2.2 isLast isFirst cell distinct
  have kept : ∀ address, address ≠ replacement → address ≠ first →
      (((memory.items.setNext replacement (some first)).setPrev replacement (some last)).setPrev
        first (some replacement)) address = memory.items address := fun address other other' =>
    (Heap.alter_of_ne _ _ other').trans
      ((Heap.alter_of_ne _ _ other).trans (Heap.alter_of_ne _ _ other))
  have taken : (((memory.items.setNext replacement (some first)).setPrev replacement
      (some last)).setPrev first (some replacement)) replacement =
      some ⟨some first, some last, given⟩ :=
    (Heap.alter_of_ne _ _ newFirst).trans (setNext_setPrev_self cell)
  have container' := (kept _ apart.symm notFirst).trans present
  have head : container.value.child = some start := by
    rw [child, front_append, front_of_front isStart]
  unfold relink relinkLater
  rw [run_bind_ok _ _ _ _ _ (takeLinks_before replaced cell ne (lists.mem_ne_none memFirst)),
    run_follow_bind _ container', head, if_neg (by simpa using apartStart.symm),
    run_follow_bind _ taken, run_onlyIf_pos_bind _ _ (by simp), setNext,
    run_assign_bind _ _ (Heap.alter_ne_none _ _ (Heap.alter_ne_none _ _ (Heap.alter_ne_none _ _
      (lists.mem_ne_none memLast)))),
    run_follow_bind _ ((Heap.alter_of_ne _ _ newLast).trans taken), onlyIf, if_neg (by simp)]
  refine ⟨_, rfl, edited_of lists ring distinct absent ?_ ?_, ?_⟩
  · refine ((Heap.alter_of_ne _ _ notLast).trans (kept _ apart.symm notFirst)).trans
      (lists.same_parent _ ?_)
    rw [front_append, front_append, front_of_front isStart, front_of_front isStart]
  · refine ((((AgreeOutside.refl _ _).alter ?_ _).alter ?_ _).alter ?_ _).alter ?_ _
    · exact List.mem_cons_of_mem _ List.mem_cons_self
    · exact List.mem_cons_of_mem _ List.mem_cons_self
    · refine List.mem_cons_of_mem _ (List.mem_cons_of_mem _ ?_)
      rw [addresses_append]
      exact List.mem_append_right _ (mem_of_front isFirst)
    · refine List.mem_cons_of_mem _ (List.mem_cons_of_mem _ ?_)
      rw [addresses_append]
      exact List.mem_append_left _ (mem_of_back isLast)
  · exact (Heap.alter_of_ne _ _ apartLast).trans (kept _ ne apartFirst)

/-- A replacement for any child. -/
theorem relink_run (lists : Lists memory.items array (before ++ (item, fields) :: behind))
    (cell : memory.items replacement = some ⟨next, prev, given⟩) (apart : replacement ≠ array)
    (outside : replacement ∉ addresses (before ++ (item, fields) :: behind)) :
    ∃ items, (relink (some array) (some item) (some replacement)).run memory =
        .ok (⟨⟩, memory.withItems items) ∧
      Edited memory.items items array (replacement :: addresses (before ++ behind))
        (before ++ (replacement, given) :: behind) ∧
      items item = memory.items item := by
  rcases before with - | ⟨start, rest⟩
  · rcases behind with - | ⟨next, others⟩
    · exact relink_only lists cell apart outside
    · exact relink_first rfl lists cell apart outside
  · obtain ⟨last, isLast⟩ := exists_back_cons none start rest
    rcases behind with - | ⟨next, others⟩
    · rw [List.append_nil]
      exact relink_last isLast rfl lists cell apart outside
    · exact relink_middle isLast rfl lists cell apart outside

end Replace

end Memory

end DiffServSimulation
