/-
This file says what the lookups of the vendored JSON library find on the heap: the
child at an index, and the first child with a name.

A lookup follows the `next` links of a list that is stored as a ring, so it ends at
its last item, and it reads the names of children, which the items own or the
caller lent. The case-sensitive lookup gives up at the first child without a name;
the other one passes it by.
-/

import DiffServSimulation.CjsonEditing

namespace DiffServSimulation

open Faulting LinkedRing Layout Memory

/-! ### The child with a name -/

/-- The child at which the loops of `get_object_item` stop. -/
def stopAt (texts : Address → Option CString) (caseSensitive : Bool) (name : CString) :
    List Branch → Option Branch
  | [] => none
  | branch :: rest =>
    match branch.fields.string.bind texts with
    | none => if caseSensitive then some branch else stopAt texts caseSensitive name rest
    | some string =>
      if namesDiffer caseSensitive name string then stopAt texts caseSensitive name rest
      else some branch

/-- The child that `get_object_item` finds. -/
def memberNamed (texts : Address → Option CString) (caseSensitive : Bool) (name : CString)
    (children : List Branch) : Option Branch :=
  (stopAt texts caseSensitive name children).filter fun branch => branch.fields.string.isSome

theorem stopAt_mem {texts : Address → Option CString} {caseSensitive : Bool} {name : CString}
    {children : List Branch} {branch : Branch}
    (stop : stopAt texts caseSensitive name children = some branch) : branch ∈ children := by
  induction children with
  | nil => cases stop
  | cons first rest inductionHypothesis =>
    rw [stopAt] at stop
    split at stop
    · split_ifs at stop
      · exact Option.some.inj stop ▸ List.mem_cons_self
      · exact List.mem_cons_of_mem _ (inductionHypothesis stop)
    · split_ifs at stop
      · exact List.mem_cons_of_mem _ (inductionHypothesis stop)
      · exact Option.some.inj stop ▸ List.mem_cons_self

theorem memberNamed_mem {texts : Address → Option CString} {caseSensitive : Bool} {name : CString}
    {children : List Branch} {branch : Branch}
    (found : memberNamed texts caseSensitive name children = some branch) : branch ∈ children :=
  stopAt_mem (Option.filter_eq_some_iff.mp found).1

/-! ### The search through the children -/

section Search

variable {memory : Memory} {borrowed : List Address} {forest : List Branch} {target : Address}
  {fields : Fields} {children : List Branch}

theorem arrayItemLoop_run {before : Option Address} {entries : List (Address × Fields)}
    (segment : Segment memory.items before entries none) (index : Nat) :
    (arrayItemLoop index (front entries none)).run memory =
      .ok (entries[index]?.map Prod.fst, memory) := by
  induction entries generalizing before index with
  | nil => cases index <;> rfl
  | cons entry rest inductionHypothesis =>
    obtain ⟨cell, behind⟩ := segment
    cases index with
    | zero => rfl
    | succ index =>
      rw [front, arrayItemLoop, run_follow_bind _ cell, inductionHypothesis behind index,
        List.getElem?_cons_succ]

/-- `get_array_item` leads to the child at the index. -/
theorem Container.getArrayItem_run (container : Container forest target fields children)
    (consistent : Consistent memory borrowed forest) (index : Nat) :
    (Memory.getArrayItem (some target) index).run memory =
      .ok (children[index]?.map Branch.address, memory) := by
  obtain ⟨⟨next, prev, present⟩, child, ring⟩ := container.cell consistent
  rw [Memory.getArrayItem, if_neg (Option.some_ne_none _), run_follow_bind _ present, child,
    first_eq_front, arrayItemLoop_run ring index, entries_link, List.getElem?_map, Option.map_map]
  rfl

/-- The name of a child is a text of the forest or of the caller. -/
theorem Container.name_mem (container : Container forest target fields children)
    (constant : (link forest).constants ⊆ borrowed) {branch : Branch} (member : branch ∈ children)
    {name : Address} (isName : branch.fields.string = some name) :
    name ∈ (link forest).texts ++ borrowed := by
  have below (each : Address → Fields → List Address) :
      each branch.address branch.fields ⊆ (link forest).collect each := by
    refine List.Subset.trans ?_ (List.Subset.trans (List.subset_append_right _ _)
      (container.has.collect_subset each))
    rw [collect_link]
    exact fun text isText =>
      List.mem_flatMap.mpr ⟨branch, member, List.mem_append_left _ isText⟩
  cases isConst : branch.fields.stringIsConst with
  | true =>
    refine List.mem_append_right _ (constant ?_)
    exact below (fun _ fields => constantNames fields) (by simp [constantNames, isConst, isName])
  | false =>
    refine List.mem_append_left _ ?_
    exact below (fun _ fields => ownedTexts fields) (by simp [ownedTexts, isConst, isName])

theorem objectItemLoop_run {before : Option Address} {name : Address} {text : CString} {fuel : Nat}
    (caseSensitive : Bool) (segment : Segment memory.items before (link children).entries none)
    (isName : memory.texts name = some text)
    (live : ∀ branch ∈ children, ∀ string, branch.fields.string = some string →
      ∃ text, memory.texts string = some text) (enough : children.length ≤ fuel) :
    (objectItemLoop caseSensitive (some name) fuel (link children).first).run memory =
      .ok ((stopAt memory.texts caseSensitive text children).map Branch.address, memory) := by
  induction children generalizing before fuel with
  | nil => cases fuel <;> rfl
  | cons branch rest inductionHypothesis =>
    rw [List.length_cons] at enough
    obtain ⟨fuel, rfl⟩ : ∃ less, fuel = less + 1 := ⟨fuel - 1, by omega⟩
    obtain ⟨cell, behind⟩ : memory.items branch.address =
        some ⟨front (link rest).entries none, before, branch.fields⟩ ∧
          Segment memory.items (some branch.address) (link rest).entries none := segment
    have ran := inductionHypothesis behind
      (fun branch member => live branch (List.mem_cons_of_mem _ member))
      (Nat.le_of_succ_le_succ enough)
    rw [first_eq_front] at ran
    rw [link, first, objectItemLoop, run_follow_bind _ cell, stopAt]
    cases named : branch.fields.string with
    | none =>
      cases caseSensitive with
      | true => rfl
      | false => exact ran
    | some string =>
      obtain ⟨other, isOther⟩ := live branch List.mem_cons_self string named
      simp only [Option.bind_some, isOther]
      rw [run_bind_ok _ _ _ _ _ (readText_run isName), run_bind_ok _ _ _ _ _ (readText_run isOther)]
      split_ifs
      · exact ran
      · rfl

theorem getObjectItem_null {fuel : Nat} {object name : Option Address}
    (null : object = none ∨ name = none) (caseSensitive : Bool) :
    (Memory.getObjectItem fuel object name caseSensitive).run memory = .ok (none, memory) := by
  rw [Memory.getObjectItem, if_pos null]
  rfl

/-- `get_object_item` leads to the child that `memberNamed` is. -/
theorem Container.getObjectItem_run {name : Address} {text : CString} {fuel : Nat}
    (container : Container forest target fields children)
    (consistent : Consistent memory borrowed forest) (isName : memory.texts name = some text)
    (caseSensitive : Bool) (enough : children.length ≤ fuel) :
    (Memory.getObjectItem fuel (some target) (some name) caseSensitive).run memory =
      .ok ((memberNamed memory.texts caseSensitive text children).map Branch.address, memory) := by
  obtain ⟨⟨next, prev, present⟩, child, ring⟩ := container.cell consistent
  have looped := objectItemLoop_run caseSensitive ring isName
    (fun branch member _ isName => Option.ne_none_iff_exists'.mp ((consistent.owned.allocated _).mpr
      (container.name_mem consistent.owned.constant member isName))) enough
  rw [Memory.getObjectItem, if_neg (by simp), run_follow_bind _ present, child,
    run_bind_ok _ _ _ _ _ looped, memberNamed]
  cases stop : stopAt memory.texts caseSensitive text children with
  | none => rfl
  | some branch =>
    have isEntry : (branch.address, branch.fields) ∈ (link children).entries := by
      rw [entries_link]
      exact List.mem_map_of_mem (stopAt_mem stop)
    obtain ⟨next, prev, cell⟩ := Segment.present ring isEntry
    rw [Option.map_some, if_neg (Option.some_ne_none _), run_follow_bind _ cell, Option.filter_some]
    cases named : branch.fields.string <;> rfl

end Search

end DiffServSimulation
