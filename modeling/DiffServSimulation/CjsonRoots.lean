/-
This file says where the roots of a forest come from.

A call adds a root only by returning it, with one exception: a reference that could
not be named for want of memory stays a root, and the call only says that it failed.
Every other function deletes what it could not hand over. Roots are counted, so the
statements are permutations.
-/

import DiffServSimulation.CjsonCalls

namespace DiffServSimulation

open LinkedRing Layout Memory DecimalNumber

/-- The addresses of the roots. -/
def roots (forest : List Branch) : List Address := forest.map Branch.address

theorem roots_withChildren (forest : List Branch) (target : Address) (children : List Branch) :
    roots (withChildren forest target children) = roots forest := by
  rw [roots, withChildren, ← addresses_entries, entries_edit, roots]
  simp only [addresses, entries_link, List.map_map]
  rfl

/-! ### Functions that ask for no memory -/

section Plain

variable {texts : Address → Option CString} {forest next : List Branch}
  {array object item string newitem reply : Option Address} {done caseSensitive : Bool}
  {which : Int32}

theorem perm_roots {branch : Branch} {rest : List Branch} (root : forest.Perm (branch :: rest)) :
    (roots forest).Perm (branch.address :: roots rest) := root.map Branch.address

theorem Adds.roots_perm (adds : Adds forest array item done next) :
    (roots forest).Perm ((if done then item.toList else []) ++ roots next) := by
  cases adds with
  | refused => exact .refl _
  | appended root =>
    rw [roots_withChildren]
    exact perm_roots root

theorem Deletes.roots_perm (deletes : Deletes forest item next) :
    (roots forest).Perm (item.toList ++ roots next) := by
  cases deletes with
  | null => exact .refl _
  | root root => exact perm_roots root

theorem Sets.roots_eq {number : Double} (sets : Sets forest number item next) :
    roots next = roots forest := by
  cases sets with
  | set =>
    rw [roots, roots, branches_adjust, branches_link, List.map_map]
    rfl

theorem Detaches.roots_eq (detaches : Detaches forest array item reply next) :
    roots next = reply.toList ++ roots forest := by
  cases detaches with
  | refused => rfl
  | taken =>
    rw [roots, List.map_cons, ← roots, roots_withChildren]
    rfl

theorem DetachesAt.roots_eq (detaches : DetachesAt forest array which reply next) :
    roots next = reply.toList ++ roots forest := by
  rw [DetachesAt] at detaches
  split_ifs at detaches
  · obtain ⟨rfl, rfl⟩ := detaches
    rfl
  · obtain ⟨item, -, detaches⟩ := detaches
    exact detaches.roots_eq

/-- What is detached and deleted leaves the roots. -/
theorem Deletes.roots_perm_of_eq {middle : List Branch} (deletes : Deletes middle reply next)
    (detached : roots middle = reply.toList ++ roots forest) : (roots next).Perm (roots forest) :=
  (List.perm_append_left_iff _).mp (detached ▸ deletes.roots_perm).symm

theorem Inserts.roots_subset (inserts : Inserts forest array which newitem done next) :
    roots next ⊆ roots forest := by
  rw [Inserts] at inserts
  split_ifs at inserts
  · rw [inserts.2]
    exact List.Subset.refl _
  · obtain ⟨after, -, inserts⟩ := inserts
    split_ifs at inserts
    · exact List.Subset.trans (List.subset_append_right _ _) inserts.roots_perm.symm.subset
    · cases inserts.2 with
      | inserted root =>
        rw [roots_withChildren]
        exact List.Subset.trans (List.subset_cons_self _ _) (perm_roots root).symm.subset

theorem Replaces.roots_subset (replaces : Replaces forest array item newitem done next) :
    roots next ⊆ roots forest := by
  cases replaces with
  | refused => exact List.Subset.refl _
  | same => exact List.Subset.refl _
  | replaced root =>
    rw [roots_withChildren]
    exact List.Subset.trans (List.subset_cons_self _ _) (perm_roots root).symm.subset

theorem ReplacesAt.roots_subset (replaces : ReplacesAt forest array which newitem done next) :
    roots next ⊆ roots forest := by
  rw [ReplacesAt] at replaces
  split_ifs at replaces
  · rw [replaces.2]
    exact List.Subset.refl _
  · obtain ⟨item, -, replaces⟩ := replaces
    exact replaces.roots_subset

end Plain

/-! ### Functions that ask for memory -/

section Allocating

variable {before after : Holding} {array object item string newitem reply : Option Address}
  {done caseSensitive : Bool}

theorem Refers.roots_eq {reference : Option Address} (refers : Refers before item reference after) :
    roots after.forest = reference.toList ++ roots before.forest := by
  rcases refers.places with ⟨rfl, same⟩ | ⟨address, fields, rfl, -, placed⟩
  · rw [same]
    rfl
  · rw [placed]
    rfl

theorem Makes.roots_eq {maker : Maker} (makes : Makes before maker item after) :
    roots after.forest = item.toList ++ roots before.forest := by
  rcases makes.places with ⟨rfl, same⟩ | ⟨address, fields, rfl, placed⟩
  · rw [same]
    rfl
  · rw [placed]
    rfl

theorem Gains.roots_eq {node : Item} (gains : Gains before node reply after) :
    roots after.forest = reply.toList ++ roots before.forest := by
  cases gains with
  | starved starves =>
    rw [starves.forest]
    rfl
  | gained placed =>
    rw [placed]
    rfl

theorem CreatesArray.roots_eq {listing : Listing} {count : Int32}
    (creates : CreatesArray before listing count reply after) :
    roots after.forest = reply.toList ++ roots before.forest := by
  cases creates with
  | refused => rfl
  | listed _ _ gains => exact gains.roots_eq

theorem Copies.roots_eq {recurse : Bool} (copies : Copies before recurse item reply after) :
    roots after.forest = reply.toList ++ roots before.forest := by
  cases copies with
  | null => rfl
  | copied _ _ gains => exact gains.roots_eq

theorem AddsNamed.roots_perm {constantKey : Bool}
    (adds : AddsNamed before constantKey object string item done after) :
    (roots before.forest).Perm ((if done then item.toList else []) ++ roots after.forest) := by
  cases adds with
  | refused => exact .refl _
  | starved _ _ _ _ starves =>
    rw [starves.forest]
    exact .refl _
  | appended key root container placed =>
    rw [placed, roots_withChildren]
    exact perm_roots root

theorem Renames.roots_perm {renamed : Bool}
    (renames : Renames before string newitem renamed after) :
    (roots after.forest).Perm (roots before.forest) := by
  cases renames with
  | starved _ root placed =>
    rw [placed]
    exact (perm_roots root).symm
  | renamed _ root placed =>
    rw [placed]
    exact (perm_roots root).symm

theorem ReplacesNamed.roots_subset
    (replaces : ReplacesNamed before object string newitem caseSensitive done after) :
    roots after.forest ⊆ roots before.forest := by
  rw [ReplacesNamed] at replaces
  split_ifs at replaces
  · rw [replaces.2]
    exact List.Subset.refl _
  · obtain ⟨renamed, middle, renames, replaces⟩ := replaces
    split_ifs at replaces
    · obtain ⟨item, -, replaces, -⟩ := replaces
      exact List.Subset.trans replaces.roots_subset renames.roots_perm.subset
    · rw [replaces.2]
      exact renames.roots_perm.subset

/-- A new item is added or deleted again. -/
theorem AddsNew.roots_perm {maker : Maker} (adds : AddsNew before object string maker reply after) :
    (roots after.forest).Perm (roots before.forest) := by
  obtain ⟨item, middle, done, last, makes, adds, ending⟩ := adds
  have placed := makes.roots_eq
  cases done with
  | true =>
    rw [if_pos rfl] at ending
    rw [ending.2]
    exact (List.perm_append_left_iff _).mp (placed ▸ adds.roots_perm).symm
  | false =>
    rw [if_neg Bool.false_ne_true] at ending
    exact ending.2.1.roots_perm_of_eq (adds.forest_eq ▸ placed)

end Allocating

/-! ### Refused requests -/

section Refusals

variable {before after : Holding} {array object item string newitem reply : Option Address}
  {done caseSensitive : Bool}

theorem Refers.refusals_le {reference : Option Address}
    (refers : Refers before item reference after) : before.refusals ≤ after.refusals := by
  cases refers with
  | null => exact le_rfl
  | starved _ starves => exact starves.refusals.le
  | made _ _ _ keeps => exact keeps.refusals.ge

theorem Makes.refusals_le {maker : Maker} (makes : Makes before maker item after) :
    before.refusals ≤ after.refusals := by
  cases makes with
  | starved starves => exact starves.refusals.le
  | textless => exact le_rfl
  | made _ _ _ keeps => exact keeps.refusals.ge
  | copied _ _ _ _ copies => exact copies.refusals.ge

theorem Gains.refusals_le {node : Item} (gains : Gains before node reply after) :
    before.refusals ≤ after.refusals := by
  cases gains with
  | starved starves => exact starves.refusals.le
  | gained _ _ _ refusals => exact refusals.ge

theorem AddsNamed.refusals_le {constantKey : Bool}
    (adds : AddsNamed before constantKey object string item done after) :
    before.refusals ≤ after.refusals := by
  cases adds with
  | refused => exact le_rfl
  | starved _ _ _ _ starves => exact starves.refusals.le
  | appended key root container placed names =>
    obtain ⟨source, -, names⟩ := names
    split_ifs at names
    · exact names.2.refusals.ge
    · exact names.refusals.ge

theorem Renames.refusals_le {renamed : Bool}
    (renames : Renames before string newitem renamed after) : before.refusals ≤ after.refusals := by
  cases renames with
  | starved _ _ _ _ refusals => exact refusals.le
  | renamed _ _ _ copies => exact copies.refusals.ge

theorem ReplacesNamed.refusals_le
    (replaces : ReplacesNamed before object string newitem caseSensitive done after) :
    before.refusals ≤ after.refusals := by
  rw [ReplacesNamed] at replaces
  split_ifs at replaces
  · exact replaces.2 ▸ le_rfl
  · obtain ⟨renamed, middle, renames, replaces⟩ := replaces
    refine renames.refusals_le.trans ?_
    split_ifs at replaces
    · obtain ⟨item, -, -, keeps⟩ := replaces
      exact keeps.refusals.ge
    · exact replaces.2 ▸ le_rfl

theorem AddsReference.refusals_le (adds : AddsReference before array item done after) :
    before.refusals ≤ after.refusals := by
  rw [AddsReference] at adds
  split_ifs at adds
  · exact adds.2 ▸ le_rfl
  · obtain ⟨reference, middle, refers, -, keeps⟩ := adds
    exact refers.refusals_le.trans keeps.refusals.ge

theorem AddsNamedReference.refusals_le
    (adds : AddsNamedReference before object string item done after) :
    before.refusals ≤ after.refusals := by
  rw [AddsNamedReference] at adds
  split_ifs at adds
  · exact adds.2 ▸ le_rfl
  · obtain ⟨reference, middle, refers, adds⟩ := adds
    exact refers.refusals_le.trans adds.refusals_le

theorem AddsNew.refusals_le {maker : Maker}
    (adds : AddsNew before object string maker reply after) :
    before.refusals ≤ after.refusals := by
  obtain ⟨item, middle, done, last, makes, adds, ending⟩ := adds
  refine makes.refusals_le.trans (adds.refusals_le.trans ?_)
  split_ifs at ending
  · exact ending.2 ▸ le_rfl
  · exact ending.2.2.refusals.ge

/-- A call only ever adds to the refused requests. -/
theorem Call.refusals_le {call : Call} {reply : Reply} (outcome : call.Outcome before reply after) :
    before.refusals ≤ after.refusals := by
  cases call with
  | create =>
    obtain ⟨_, -, makes⟩ := outcome
    exact makes.refusals_le
  | addItemToObject =>
    obtain ⟨_, -, adds⟩ := outcome
    exact adds.refusals_le
  | addItemReferenceToArray =>
    obtain ⟨_, -, adds⟩ := outcome
    exact adds.refusals_le
  | addItemReferenceToObject =>
    obtain ⟨_, -, adds⟩ := outcome
    exact adds.refusals_le
  | addToObject =>
    obtain ⟨_, -, adds⟩ := outcome
    exact adds.refusals_le
  | replaceItemInObject =>
    obtain ⟨_, -, replaces⟩ := outcome
    exact replaces.refusals_le
  | createArray =>
    obtain ⟨_, -, creates⟩ := outcome
    cases creates with
    | refused => exact le_rfl
    | listed _ _ gains => exact gains.refusals_le
  | duplicate =>
    obtain ⟨_, -, copies⟩ := outcome
    cases copies with
    | null => exact le_rfl
    | copied _ _ gains => exact gains.refusals_le
  | delete => exact outcome.2.2.refusals.ge
  | setNumber => exact outcome.2.2.refusals.ge
  | deleteItemFromArray => exact outcome.2.2.refusals.ge
  | deleteItemFromObject => exact outcome.2.2.refusals.ge
  | _ =>
    obtain ⟨_, -, -, keeps⟩ := outcome
    exact keeps.refusals.ge

end Refusals

/-! ### Every call -/

section Calls

variable {before after : Holding} {array object item string reply : Option Address} {done : Bool}

/-- An item that is opened is no new root. -/
theorem Opens.ne_new {forest : List Branch} {address : Address} {fields : Fields}
    (opens : Opens forest array)
    (distinct : (link (⟨address, fields, .null⟩ :: forest)).footprint.Nodup) :
    array ≠ some address := by
  obtain ⟨target, _, _, rfl, container⟩ := opens
  rintro same
  obtain rfl := Option.some.inj same
  exact (List.nodup_cons.mp distinct).1 container.has.mem_footprint

/-- A reference is added to an array, or there is none. -/
theorem AddsReference.roots_perm (adds : AddsReference before array item done after)
    (allowed : array = none ∨ item = none ∨
      (Opens before.forest array ∧ Reaches before.forest item))
    (distinct : (link after.forest).footprint.Nodup) :
    (roots after.forest).Perm (roots before.forest) := by
  rw [AddsReference] at adds
  split_ifs at adds with null
  · rw [adds.2]
  obtain ⟨reference, middle, refers, adds, -⟩ := adds
  have moved := adds.roots_perm
  rcases refers.places with ⟨rfl, same⟩ | ⟨address, fields, rfl, there, placed⟩
  · rw [same] at moved
    simpa using moved.symm
  · have opens := ((allowed.resolve_left null).resolve_left there).1
    cases done with
    | true =>
      rw [placed] at moved
      exact (List.perm_cons _).mp moved.symm
    | false =>
      -- The new reference is there, and it is not the array, so it is added.
      generalize next : after.forest = last at adds distinct
      cases adds with
      | refused void =>
        rw [placed] at distinct
        exact absurd (void.resolve_left (Option.some_ne_none _) |>.resolve_left null)
          (opens.ne_new distinct)

/-- A reference is named and added to an object, or there is none, or it is left over when the
request for its name was refused. -/
theorem AddsNamedReference.roots_perm_or
    (adds : AddsNamedReference before object string item done after)
    (allowed : object = none ∨ string = none ∨ item = none ∨
      (Opens before.forest object ∧ ∃ borrowed, Live before.forest borrowed string ∧
        Reaches before.forest item))
    (distinct : (link after.forest).footprint.Nodup) :
    (roots after.forest).Perm (roots before.forest) ∨
      (done = false ∧ before.refusals < after.refusals ∧
        ∃ address fields, after.forest = ⟨address, fields, .null⟩ :: before.forest) := by
  rw [AddsNamedReference] at adds
  split_ifs at adds with null
  · exact .inl (adds.2 ▸ .refl _)
  obtain ⟨reference, middle, refers, adds⟩ := adds
  have moved := adds.roots_perm
  rcases refers.places with ⟨rfl, same⟩ | ⟨address, fields, rfl, there, placed⟩
  · rw [same] at moved
    exact .inl (by simpa using moved.symm)
  · have opens : Opens before.forest object := by tauto
    cases adds with
    | refused void =>
      rw [placed] at distinct
      have isNew : object = some address := by
        rw [not_or] at null
        simpa [null.1, null.2] using void
      exact absurd isNew (opens.ne_new distinct)
    | starved _ _ _ _ starves =>
      refine .inr ⟨rfl, lt_of_le_of_lt refers.refusals_le starves.refusals, address, fields, ?_⟩
      rw [starves.forest, placed]
    | appended =>
      rw [placed] at moved
      exact .inl ((List.perm_cons _).mp moved.symm)

variable {borrowed : List Address} {call : Call} {reply : Reply}

/-- What a call leaves as a root was a root before or is returned, or it is a reference that could
not be named because a request was refused. -/
theorem Call.roots_of_outcome (outcome : call.Outcome before reply after)
    (allowed : call.Allowed before.texts before.forest borrowed)
    (distinct : (link after.forest).footprint.Nodup) :
    (∀ root ∈ roots after.forest, root ∈ roots before.forest ∨ reply = .pointer (some root)) ∨
      (reply = .flag false ∧ before.refusals < after.refusals ∧
        ∃ address fields, after.forest = ⟨address, fields, .null⟩ :: before.forest) := by
  have returned : ∀ item : Option Address, reply = .pointer item →
      roots after.forest = item.toList ++ roots before.forest → ∀ root ∈ roots after.forest,
        root ∈ roots before.forest ∨ reply = .pointer (some root) := by
    rintro item rfl placed root member
    rw [placed, List.mem_append] at member
    exact member.symm.imp_right fun isItem => by rw [Option.mem_toList.mp isItem]
  cases call with
  | create =>
    obtain ⟨item, isReply, makes⟩ := outcome
    exact .inl (returned item isReply makes.roots_eq)
  | delete =>
    obtain ⟨-, deletes, -⟩ := outcome
    exact .inl fun root member => .inl (deletes.roots_perm.symm.subset
      (List.mem_append_right _ member))
  | setNumber =>
    obtain ⟨-, sets, -⟩ := outcome
    exact .inl fun root member => .inl (sets.roots_eq ▸ member)
  | addItemToArray =>
    obtain ⟨done, -, adds, -⟩ := outcome
    exact .inl fun root member => .inl (adds.roots_perm.symm.subset
      (List.mem_append_right _ member))
  | addItemToObject =>
    obtain ⟨done, -, adds⟩ := outcome
    exact .inl fun root member => .inl (adds.roots_perm.symm.subset
      (List.mem_append_right _ member))
  | addItemReferenceToArray =>
    obtain ⟨done, -, adds⟩ := outcome
    exact .inl fun root member => .inl ((adds.roots_perm allowed distinct).subset member)
  | addItemReferenceToObject =>
    obtain ⟨done, rfl, adds⟩ := outcome
    refine (adds.roots_perm_or (allowed.imp_right (Or.imp_right (Or.imp_right fun ready =>
      ⟨ready.1, borrowed, ready.2⟩))) distinct).imp (fun perm root member =>
        .inl (perm.subset member)) fun lost => ⟨?_, lost.2⟩
    rw [lost.1]
  | addToObject =>
    obtain ⟨item, -, adds⟩ := outcome
    exact .inl fun root member => .inl (adds.roots_perm.subset member)
  | detachItemViaPointer =>
    obtain ⟨item, isReply, detaches, -⟩ := outcome
    exact .inl (returned item isReply detaches.roots_eq)
  | detachItemFromArray =>
    obtain ⟨item, isReply, detaches, -⟩ := outcome
    exact .inl (returned item isReply detaches.roots_eq)
  | detachItemFromObject =>
    obtain ⟨item, isReply, ⟨child, -, detaches⟩, -⟩ := outcome
    exact .inl (returned item isReply detaches.roots_eq)
  | deleteItemFromArray =>
    obtain ⟨-, ⟨detached, middle, detaches, deletes⟩, -⟩ := outcome
    exact .inl fun root member => .inl ((deletes.roots_perm_of_eq detaches.roots_eq).subset member)
  | deleteItemFromObject =>
    obtain ⟨-, ⟨detached, middle, ⟨child, -, detaches⟩, deletes⟩, -⟩ := outcome
    exact .inl fun root member => .inl ((deletes.roots_perm_of_eq detaches.roots_eq).subset member)
  | insertItemInArray =>
    obtain ⟨done, -, inserts, -⟩ := outcome
    exact .inl fun root member => .inl (inserts.roots_subset member)
  | replaceItemViaPointer =>
    obtain ⟨done, -, replaces, -⟩ := outcome
    exact .inl fun root member => .inl (replaces.roots_subset member)
  | replaceItemInArray =>
    obtain ⟨done, -, replaces, -⟩ := outcome
    exact .inl fun root member => .inl (replaces.roots_subset member)
  | replaceItemInObject =>
    obtain ⟨done, -, replaces⟩ := outcome
    exact .inl fun root member => .inl (replaces.roots_subset member)
  | createArray =>
    obtain ⟨item, isReply, creates⟩ := outcome
    exact .inl (returned item isReply creates.roots_eq)
  | duplicate =>
    obtain ⟨item, isReply, copies⟩ := outcome
    exact .inl (returned item isReply copies.roots_eq)

end Calls

end DiffServSimulation
