/-
This file says what `cJSON_Delete` frees: the items reached from its argument and
the texts they own, each of them once, and nothing else.

The deletion descends before it frees, and an item it has freed is not looked at
again. So a run on items that are stored as a layout meets no freed block, and the
bound on its recursion is the number of the items.
-/

import DiffServSimulation.CjsonOwnership

namespace DiffServSimulation

open Faulting LinkedRing Layout

/-! ### Blocks -/

namespace Memory

variable {memory : Memory}

theorem deallocateItem_run {address : Address} (present : memory.items address ≠ none) :
    (deallocateItem address).run memory = .ok (⟨⟩, memory.erase [address] []) := by
  obtain ⟨item, isItem⟩ := Option.ne_none_iff_exists'.mp present
  rw [deallocateItem, run_get_bind, isItem]
  simp [erase, StateT.run_set, pure, Except.pure]

theorem deallocateText_run {address : Address} (present : memory.texts address ≠ none) :
    (deallocateText address).run memory = .ok (⟨⟩, memory.erase [] [address]) := by
  obtain ⟨text, isText⟩ := Option.ne_none_iff_exists'.mp present
  rw [deallocateText, run_get_bind, isText]
  simp [erase, StateT.run_set, pure, Except.pure]

theorem releaseText_run (constant : Bool) {pointer : Option Address}
    (live : ∀ text ∈ if constant then [] else pointer.toList, memory.texts text ≠ none) :
    (releaseText (!constant) pointer).run memory =
      .ok (⟨⟩, memory.erase [] (if constant then [] else pointer.toList)) := by
  cases constant with
  | true =>
    rw [if_pos rfl, erase_nil]
    rfl
  | false =>
    cases pointer with
    | none =>
      rw [if_neg Bool.false_ne_true, Option.toList, erase_nil]
      rfl
    | some text => exact deallocateText_run (live text List.mem_cons_self)

end Memory

namespace Layout

theorem texts_node (address : Address) (fields : Fields) (child next : Layout) :
    (node address fields child next).texts = ownedTexts fields ++ child.texts ++ next.texts := rfl

theorem first_eq_none {chain : Layout} (absent : chain.first = none) : chain = .null := by
  cases chain with
  | null => rfl
  | node address fields child next => cases absent

end Layout

open Memory

/-! ### Items with what they own -/

/-- The recursive call of `cJSON_Delete` deletes the children of an item that owns them. -/
theorem deleteChild_run {memory : Memory} {fields : Fields} {child : Layout} {fuel : Nat}
    (owns : Owns fields child)
    (deletes : (cJSONDelete fuel child.first).run memory =
      .ok (⟨⟩, memory.erase child.footprint child.texts)) :
    (onlyIf (fields.isReference = false ∧ fields.child ≠ none)
        (cJSONDelete fuel fields.child)).run memory =
      .ok (⟨⟩, memory.erase child.footprint child.texts) := by
  unfold onlyIf Owns at *
  split_ifs with condition
  · rw [if_neg (by simp [condition.1])] at owns
    rw [owns, deletes]
  · have null : child = .null := by
      split_ifs at owns with isReference
      · exact owns
      · have absent : fields.child = none := by simpa [isReference] using condition
        exact first_eq_none (owns.symm.trans absent)
    rw [null]
    exact congrArg (fun state => Except.ok (PUnit.unit, state)) (erase_nil memory).symm

/-- An item is freed behind the texts it owns. -/
theorem releaseItem_run {memory : Memory} {address : Address} {fields : Fields}
    (rest : Heaped PUnit) (present : memory.items address ≠ none)
    (distinct : (ownedTexts fields).Nodup)
    (live : ∀ text ∈ ownedTexts fields, memory.texts text ≠ none) :
    (do
      releaseText (!fields.isReference) fields.valuestring
      releaseText (!fields.stringIsConst) fields.string
      deallocateItem address
      rest).run memory = rest.run (memory.erase [address] (ownedTexts fields)) := by
  obtain ⟨-, -, disjoint⟩ := List.nodup_append'.mp distinct
  rw [run_bind_ok _ _ _ _ _ (releaseText_run fields.isReference fun text member =>
    live text (List.mem_append_left _ member))]
  have named : (releaseText (!fields.stringIsConst) fields.string).run (memory.erase []
      (if fields.isReference then [] else fields.valuestring.toList)) =
        .ok (⟨⟩, memory.erase [] (ownedTexts fields)) := by
    rw [releaseText_run fields.stringIsConst fun text member => ?_, erase_erase]
    · rfl
    · rw [erase_texts_of_not_mem _ _ fun before => disjoint before member]
      exact live text (List.mem_append_right _ member)
  rw [run_bind_ok _ _ _ _ _ named, run_bind_ok _ _ _ _ _ (deallocateItem_run (by simpa [erase])),
    erase_erase, List.nil_append, List.append_nil]

/-- `cJSON_Delete` frees the items of a chain, the ones below them and the texts they own. -/
theorem cJSONDelete_run (chain : Layout) {memory : Memory} {before : Option Address} {fuel : Nat}
    (segment : Segment memory.items before chain.entries none) (hung : chain.Hung memory.items)
    (distinct : chain.footprint.Nodup) (distinctTexts : chain.texts.Nodup)
    (live : ∀ text ∈ chain.texts, memory.texts text ≠ none)
    (enough : chain.footprint.length ≤ fuel) :
    (cJSONDelete fuel chain.first).run memory =
      .ok (⟨⟩, memory.erase chain.footprint chain.texts) := by
  induction chain generalizing memory before fuel with
  | null =>
    cases fuel <;>
      exact congrArg (fun state => Except.ok (PUnit.unit, state)) (erase_nil memory).symm
  | node address fields child next childHypothesis nextHypothesis =>
    obtain ⟨cell, rest⟩ : memory.items address =
        some ⟨front next.entries none, before, fields⟩ ∧
          Segment memory.items (some address) next.entries none := segment
    obtain ⟨owns, ⟨_, below⟩, hungChild, hungNext⟩ := hung
    obtain ⟨notChild, notNext, distinctChild, distinctNext, disjoint⟩ := nodup_node distinct
    rw [texts_node, List.append_assoc] at distinctTexts live
    obtain ⟨distinctOwned, distinctBelow, ownedDisjoint⟩ := List.nodup_append'.mp distinctTexts
    obtain ⟨distinctChildTexts, distinctNextTexts, textsDisjoint⟩ :=
      List.nodup_append'.mp distinctBelow
    rw [footprint_node, List.length_cons, List.length_append] at enough
    obtain ⟨fuel, rfl⟩ : ∃ less, fuel = less + 1 := ⟨fuel - 1, by omega⟩
    have liveBelow : ∀ text ∈ child.texts ++ next.texts, memory.texts text ≠ none :=
      fun text member => live text (List.mem_append_right _ member)
    have deletes : (cJSONDelete fuel child.first).run memory =
        .ok (⟨⟩, memory.erase child.footprint child.texts) :=
      childHypothesis below hungChild distinctChild distinctChildTexts
        (fun text member => liveBelow text (List.mem_append_left _ member)) (by omega)
    have deleted := deleteChild_run owns deletes
    have same := (memory.erase_items_of_not_mem child.texts notChild).trans cell
    have liveOwned : ∀ text ∈ ownedTexts fields,
        (memory.erase child.footprint child.texts).texts text ≠ none := fun text member => by
      rw [erase_texts_of_not_mem _ _ fun below =>
        ownedDisjoint member (List.mem_append_left _ below)]
      exact live text (List.mem_append_left _ member)
    have released := releaseItem_run (cJSONDelete fuel (front next.entries none))
      (same.trans_ne (Option.some_ne_none _)) distinctOwned liveOwned
    rw [erase_erase, ← first_eq_front] at released
    have untouched : ∀ other ∈ next.footprint,
        (memory.erase (child.footprint ++ [address]) (child.texts ++ ownedTexts fields)).items
          other = memory.items other := fun other member => by
      refine erase_items_of_not_mem _ _ fun erased => ?_
      rcases List.mem_append.mp erased with below | here
      · exact disjoint below member
      · exact notNext (List.mem_singleton.mp here ▸ member)
    have liveNext : ∀ text ∈ next.texts, (memory.erase (child.footprint ++ [address])
        (child.texts ++ ownedTexts fields)).texts text ≠ none := fun text member => by
      rw [erase_texts_of_not_mem _ _ fun erased => ?_]
      · exact liveBelow text (List.mem_append_right _ member)
      · rcases List.mem_append.mp erased with below | here
        · exact textsDisjoint below member
        · exact ownedDisjoint here (List.mem_append_right _ member)
    have small : next.footprint.length ≤ fuel := by omega
    have finished := nextHypothesis
      (rest.congr fun other member => untouched other (addresses_entries_subset next member))
      (hungNext.congr fun other member => untouched other (inner_subset next member))
      distinctNext distinctNextTexts liveNext small
    have items : (child.footprint ++ [address] ++ next.footprint).Perm
        (node address fields child next).footprint := by
      rw [footprint_node, List.append_assoc]
      exact List.perm_middle
    have texts : (child.texts ++ ownedTexts fields ++ next.texts).Perm
        (node address fields child next).texts := by
      rw [texts_node]
      exact List.perm_append_comm.append_right _
    rw [erase_erase, erase_perm memory items texts] at finished
    rw [first, cJSONDelete, run_follow_bind _ cell, run_bind_ok _ _ _ _ _ deleted,
      run_follow_bind _ same]
    refine Eq.trans ?_ (released.trans finished)
    rw [← first_eq_front]

/-- Deleting a root frees it, what is below it, and the texts they own. -/
theorem Consistent.cJSONDelete_run {memory : Memory} {borrowed : List Address} {branch : Branch}
    {rest : List Branch} {fuel : Nat} (consistent : Consistent memory borrowed (branch :: rest))
    (enough : (link [branch]).footprint.length ≤ fuel) :
    (cJSONDelete fuel (some branch.address)).run memory =
      .ok (⟨⟩, memory.erase (link [branch]).footprint (link [branch]).texts) := by
  have items := consistent.shaped.distinct
  have texts := consistent.owned.distinct
  have live := consistent.owned.allocated
  rw [footprint_cons, List.nodup_append'] at items
  rw [texts_cons, List.append_assoc] at texts live
  have loose := consistent.shaped.loose branch List.mem_cons_self
  have stored := (stored_link _).mp consistent.shaped.stored branch List.mem_cons_self
  have segment : Segment memory.items none (link [branch]).entries none := ⟨loose, trivial⟩
  exact DiffServSimulation.cJSONDelete_run (link [branch]) segment
    ⟨stored.1, ⟨_, stored.2.1⟩, stored.2.2.hung, trivial⟩ items.1 (List.nodup_append'.mp texts).1
    (fun text member => (live text).mpr (List.mem_append_left _ member)) enough

end DiffServSimulation
