/-
This file says which programs on the heap keep the texts they do not free, and which
tell their caller that memory was refused.

Both are properties of runs that end, whatever the memory looks like, so they are
proved along the shape of the programs alone. A program that asks for no memory is
sparing. A program that asks for memory tells if its reply is a failure exactly when
one of its requests was refused.
-/

import DiffServSimulation.CjsonMemory

namespace DiffServSimulation

open Faulting DecimalNumber Memory

/-! ### Programs that ask for no memory -/

/-- The texts that are left are as they were, and no request was refused. -/
structure Spares (before after : Memory) : Prop where
  texts : ∀ address, after.texts address = before.texts address ∨ after.texts address = none
  refusals : after.refusals = before.refusals

/-- A program that keeps the texts it does not free, and is refused nothing. -/
def Sparing {Value : Type} (program : Heaped Value) : Prop :=
  Relates program fun before _ after => Spares before after

section Sparing

variable {Value Other : Type} {program : Heaped Value} {condition : Prop} [Decidable condition]

theorem spares_refl (memory : Memory) : Spares memory memory := ⟨fun _ => .inl rfl, rfl⟩

theorem Spares.trans {before middle after : Memory} (first : Spares before middle)
    (second : Spares middle after) : Spares before after := by
  refine ⟨fun address => ?_, second.refusals.trans first.refusals⟩
  rcases second.texts address with same | gone
  · rw [same]
    exact first.texts address
  · exact .inr gone

theorem sparing_pure (value : Value) : Sparing (pure value) := relates_pure spares_refl

theorem sparing_lift (outcome : Except MemoryFault Value) : Sparing (lift outcome) :=
  relates_lift fun memory _ _ => spares_refl memory

theorem Sparing.bind {rest : Value → Heaped Other} (begins : Sparing program)
    (continues : ∀ value, Sparing (rest value)) : Sparing (program >>= rest) :=
  Relates.bind begins continues fun _ _ _ _ _ => Spares.trans

theorem Sparing.ite {other : Heaped Value} (yes : Sparing program) (no : Sparing other) :
    Sparing (if condition then program else other) := by
  split_ifs
  · exact yes
  · exact no

theorem Sparing.onlyIf {action : Heaped PUnit} (sparing : Sparing action) :
    Sparing (Memory.onlyIf condition action) := sparing.ite (sparing_pure _)

end Sparing

theorem follow_sparing (pointer : Option Address) : Sparing (follow pointer) := by
  intro memory value after ran
  rw [follow, run_get_bind] at ran
  cases pointer with
  | none => cases ran
  | some address =>
    cases found : memory.items address with
    | none =>
      simp only [found] at ran
      cases ran
    | some item =>
      simp only [found] at ran
      cases ran
      exact spares_refl _

theorem readText_sparing (pointer : Option Address) : Sparing (readText pointer) := by
  intro memory value after ran
  rw [readText, run_get_bind] at ran
  cases pointer with
  | none => cases ran
  | some address =>
    cases found : memory.texts address with
    | none =>
      simp only [found] at ran
      cases ran
    | some item =>
      simp only [found] at ran
      cases ran
      exact spares_refl _

theorem assign_sparing (pointer : Option Address)
    (change : LinkedRing.Cell Address Fields → LinkedRing.Cell Address Fields) :
    Sparing (assign pointer change) := by
  intro memory value after ran
  rw [assign, run_get_bind] at ran
  cases pointer with
  | none => cases ran
  | some address =>
    cases found : memory.items address with
    | none =>
      simp only [found] at ran
      cases ran
    | some item =>
      simp only [found] at ran
      cases ran
      exact ⟨fun _ => .inl rfl, rfl⟩

theorem setFields_sparing (pointer : Option Address) (change : Fields → Fields) :
    Sparing (setFields pointer change) := assign_sparing pointer _

theorem deallocateItem_sparing (address : Address) : Sparing (deallocateItem address) := by
  intro memory value after ran
  rw [deallocateItem, run_get_bind] at ran
  cases found : memory.items address with
  | none =>
    simp only [found] at ran
    cases ran
  | some item =>
    simp only [found] at ran
    cases ran
    exact ⟨fun _ => .inl rfl, rfl⟩

theorem deallocateText_sparing (address : Address) : Sparing (deallocateText address) := by
  intro memory value after ran
  rw [deallocateText, run_get_bind] at ran
  cases found : memory.texts address with
  | none =>
    simp only [found] at ran
    cases ran
  | some text =>
    simp only [found] at ran
    cases ran
    refine ⟨fun other => ?_, rfl⟩
    by_cases here : other = address
    · exact .inr (if_pos here)
    · exact .inl (if_neg here)

theorem releaseText_sparing (owned : Bool) (pointer : Option Address) :
    Sparing (releaseText owned pointer) := by
  cases owned with
  | false => exact sparing_pure _
  | true =>
    cases pointer with
    | none => exact sparing_pure _
    | some address => exact deallocateText_sparing address

theorem cJSONDelete_sparing (fuel : Nat) (item : Option Address) :
    Sparing (cJSONDelete fuel item) := by
  induction fuel generalizing item with
  | zero =>
    cases item with
    | none => exact sparing_pure _
    | some address => exact sparing_lift _
  | succ fuel inductionHypothesis =>
    cases item with
    | none => exact sparing_pure _
    | some address =>
      refine (follow_sparing _).bind fun item => ?_
      refine (inductionHypothesis _).onlyIf.bind fun _ => ?_
      refine (follow_sparing _).bind fun emptied => ?_
      refine (releaseText_sparing _ _).bind fun _ => ?_
      refine (releaseText_sparing _ _).bind fun _ => ?_
      exact (deallocateItem_sparing _).bind fun _ => inductionHypothesis _

theorem arrayItemLoop_sparing (index : Nat) (current : Option Address) :
    Sparing (arrayItemLoop index current) := by
  induction index generalizing current with
  | zero => exact sparing_pure _
  | succ index inductionHypothesis =>
    cases current with
    | none => exact sparing_pure _
    | some address => exact (follow_sparing _).bind fun item => inductionHypothesis _

theorem getArrayItem_sparing (array : Option Address) (index : Nat) :
    Sparing (Memory.getArrayItem array index) :=
  (sparing_pure _).ite ((follow_sparing _).bind fun _ => arrayItemLoop_sparing _ _)

theorem objectItemLoop_sparing (caseSensitive : Bool) (name : Option Address) (fuel : Nat)
    (current : Option Address) : Sparing (objectItemLoop caseSensitive name fuel current) := by
  induction fuel generalizing current with
  | zero =>
    cases current with
    | none => exact sparing_pure _
    | some address => exact sparing_lift _
  | succ fuel inductionHypothesis =>
    cases current with
    | none => exact sparing_pure _
    | some address =>
      refine (follow_sparing _).bind fun item => ?_
      cases item.value.string with
      | none => exact (sparing_pure _).ite (inductionHypothesis _)
      | some string =>
        refine (readText_sparing _).bind fun first => (readText_sparing _).bind fun second => ?_
        exact (inductionHypothesis _).ite (sparing_pure _)

theorem getObjectItem_sparing (fuel : Nat) (object name : Option Address) (caseSensitive : Bool) :
    Sparing (Memory.getObjectItem fuel object name caseSensitive) := by
  refine (sparing_pure _).ite ((follow_sparing _).bind fun item => ?_)
  refine (objectItemLoop_sparing _ _ _ _).bind fun currentElement => ?_
  exact (sparing_pure _).ite ((follow_sparing _).bind fun found => (sparing_pure _).ite
    (sparing_pure _))

theorem suffixObject_sparing (prev item : Option Address) : Sparing (suffixObject prev item) :=
  (assign_sparing _ _).bind fun _ => assign_sparing _ _

theorem pointBack_sparing (parent item : Option Address) : Sparing (pointBack parent item) :=
  (follow_sparing _).bind fun _ => assign_sparing _ _

theorem addItemToArray_sparing (array item : Option Address) :
    Sparing (addItemToArray array item) := by
  refine (sparing_pure _).ite ((follow_sparing _).bind fun parent => ?_)
  refine Sparing.bind ?_ fun _ => sparing_pure _
  refine Sparing.ite ?_ ?_
  · refine (setFields_sparing _ _).bind fun _ => ?_
    exact (assign_sparing _ _).bind fun _ => assign_sparing _ _
  · refine (follow_sparing _).bind fun first => Sparing.onlyIf ?_
    exact (suffixObject_sparing _ _).bind fun _ => pointBack_sparing _ _

theorem addNamed_sparing (object item newKey : Option Address) (constantKey : Bool) :
    Sparing (addNamed object item newKey constantKey) := by
  refine (follow_sparing _).bind fun named => (releaseText_sparing _ _).bind fun _ => ?_
  exact (setFields_sparing _ _).bind fun _ => addItemToArray_sparing _ _

theorem cJSONSetNumberHelper_sparing (object : Option Address) (number : Double) :
    Sparing (cJSONSetNumberHelper object number) :=
  (sparing_lift _).bind fun _ => (setFields_sparing _ _).bind fun _ => sparing_pure _

theorem unlink_sparing (parent item : Option Address) : Sparing (unlink parent item) := by
  refine (follow_sparing _).bind fun container => ?_
  refine Sparing.bind ((follow_sparing _).bind fun _ => assign_sparing _ _).onlyIf fun _ => ?_
  refine (follow_sparing _).bind fun links => ?_
  refine (assign_sparing _ _).onlyIf.bind fun _ => ?_
  refine (follow_sparing _).bind fun container => (follow_sparing _).bind fun links => ?_
  exact (setFields_sparing _ _).ite (assign_sparing _ _).onlyIf

theorem cJSONDetachItemViaPointer_sparing (parent item : Option Address) :
    Sparing (cJSONDetachItemViaPointer parent item) := by
  refine (sparing_pure _).ite ((unlink_sparing _ _).bind fun _ => ?_)
  exact (assign_sparing _ _).bind fun _ => (assign_sparing _ _).bind fun _ => sparing_pure _

theorem cJSONDetachItemFromArray_sparing (array : Option Address) (which : Int32) :
    Sparing (cJSONDetachItemFromArray array which) :=
  (sparing_pure _).ite
    ((getArrayItem_sparing _ _).bind fun _ => cJSONDetachItemViaPointer_sparing _ _)

theorem detachItemFromObject_sparing (fuel : Nat) (object string : Option Address)
    (caseSensitive : Bool) :
    Sparing (Memory.detachItemFromObject fuel object string caseSensitive) :=
  (getObjectItem_sparing _ _ _ _).bind fun _ => cJSONDetachItemViaPointer_sparing _ _

theorem linkBefore_sparing (array afterInserted newitem : Option Address) :
    Sparing (linkBefore array afterInserted newitem) := by
  refine (assign_sparing _ _).bind fun _ => (follow_sparing _).bind fun links => ?_
  refine (assign_sparing _ _).bind fun _ => (assign_sparing _ _).bind fun _ => ?_
  refine (follow_sparing _).bind fun container => ?_
  exact (setFields_sparing _ _).ite ((follow_sparing _).bind fun _ => assign_sparing _ _)

theorem cJSONInsertItemInArray_sparing (array : Option Address) (which : Int32)
    (newitem : Option Address) : Sparing (cJSONInsertItemInArray array which newitem) := by
  refine (sparing_pure _).ite ((getArrayItem_sparing _ _).bind fun after => ?_)
  exact (addItemToArray_sparing _ _).ite ((linkBefore_sparing _ _ _).bind fun _ => sparing_pure _)

theorem relink_sparing (parent item replacement : Option Address) :
    Sparing (relink parent item replacement) := by
  refine Sparing.bind ?_ fun _ => (follow_sparing _).bind fun container => Sparing.ite ?_ ?_
  · refine (follow_sparing _).bind fun replaced => (assign_sparing _ _).bind fun _ => ?_
    refine (follow_sparing _).bind fun replaced => (assign_sparing _ _).bind fun _ => ?_
    exact (follow_sparing _).bind fun links => (assign_sparing _ _).onlyIf
  · refine (follow_sparing _).bind fun first => ?_
    exact (assign_sparing _ _).onlyIf.bind fun _ => setFields_sparing _ _
  · refine (follow_sparing _).bind fun links => (assign_sparing _ _).onlyIf.bind fun _ => ?_
    exact (follow_sparing _).bind fun links => (pointBack_sparing _ _).onlyIf

theorem cJSONReplaceItemViaPointer_sparing (fuel : Nat)
    (parent item replacement : Option Address) :
    Sparing (cJSONReplaceItemViaPointer fuel parent item replacement) := by
  refine (sparing_pure _).ite ((sparing_pure _).ite ((relink_sparing _ _ _).bind fun _ => ?_))
  refine (assign_sparing _ _).bind fun _ => (assign_sparing _ _).bind fun _ => ?_
  exact (cJSONDelete_sparing _ _).bind fun _ => sparing_pure _

theorem cJSONReplaceItemInArray_sparing (fuel : Nat) (array : Option Address) (which : Int32)
    (newitem : Option Address) : Sparing (cJSONReplaceItemInArray fuel array which newitem) :=
  (sparing_pure _).ite
    ((getArrayItem_sparing _ _).bind fun _ => cJSONReplaceItemViaPointer_sparing _ _ _ _)

/-! ### Programs that ask for memory -/

/-- The value of a program is a failure exactly if one of its requests was refused. -/
def Tells {Value : Type} (failed : Value → Prop) (program : Heaped Value) : Prop :=
  Relates program fun before value after =>
    before.refusals ≤ after.refusals ∧ (failed value ↔ before.refusals < after.refusals)

/-- A program that asks for no memory and ends in a failure. -/
def Fails {Value : Type} (failed : Value → Prop) (program : Heaped Value) : Prop :=
  Sparing program ∧ Relates program fun _ value _ => failed value

section Tells

variable {Value Other : Type} {program : Heaped Value} {rest : Value → Heaped Other}
  {failed : Other → Prop} {stopped : Value → Prop}

theorem fails_pure {value : Value} (holds : stopped value) : Fails stopped (pure value) :=
  ⟨sparing_pure value, relates_pure fun _ => holds⟩

theorem tells_pure {value : Value} (holds : ¬ stopped value) : Tells stopped (pure value) :=
  relates_pure fun _ => ⟨le_rfl, iff_of_false holds (lt_irrefl _)⟩

theorem Sparing.bind_tells (sparing : Sparing program)
    (continues : ∀ value, Tells failed (rest value)) : Tells failed (program >>= rest) :=
  Relates.bind sparing continues fun _ _ _ _ _ spares tells => spares.refusals ▸ tells

theorem Sparing.bind_fails (sparing : Sparing program)
    (continues : ∀ value, Fails failed (rest value)) : Fails failed (program >>= rest) :=
  ⟨sparing.bind fun value => (continues value).1,
    Relates.bind sparing (fun value => (continues value).2) fun _ _ _ _ _ _ fails => fails⟩

/-- The rule of sequencing: a failure is passed on, and otherwise the rest tells. -/
theorem Tells.bind (begins : Tells stopped program)
    (stops : ∀ value, stopped value → Fails failed (rest value))
    (continues : ∀ value, ¬ stopped value → Tells failed (rest value)) :
    Tells failed (program >>= rest) := by
  intro memory result last ran
  obtain ⟨value, next, begun, finished⟩ := run_bind_inv ran
  obtain ⟨more, told⟩ := begins _ _ _ begun
  by_cases isStopped : stopped value
  · obtain ⟨sparing, fails⟩ := stops value isStopped
    rw [(sparing _ _ _ finished).refusals]
    exact ⟨more, iff_of_true (fails _ _ _ finished) (told.mp isStopped)⟩
  · have same : next.refusals = memory.refusals :=
      le_antisymm (not_lt.mp fun refused => isStopped (told.mpr refused)) more
    exact same ▸ continues value isStopped _ _ _ finished

/-- The rule of sequencing after a part that gives a pointer, or null. -/
theorem Tells.bind_pointer {program : Heaped (Option Value)} {rest : Option Value → Heaped Other}
    (begins : Tells (· = none) program) (stops : Fails failed (rest none))
    (continues : ∀ value, Tells failed (rest (some value))) : Tells failed (program >>= rest) := by
  refine begins.bind (fun value isNone => isNone ▸ stops) fun value isSome => ?_
  obtain ⟨value, rfl⟩ := Option.ne_none_iff_exists'.mp isSome
  exact continues value

end Tells

section Allocation

variable (allocator : Allocator)

theorem cJSONNewItem_tells : Tells (· = none) (cJSONNewItem allocator) := by
  intro memory value after ran
  rw [cJSONNewItem, run_get_bind] at ran
  cases given : allocator.item memory with
  | none =>
    simp only [given] at ran
    cases ran
    exact ⟨Nat.le_succ _, iff_of_true rfl (Nat.lt_succ_self _)⟩
  | some address =>
    simp only [given] at ran
    cases ran
    exact ⟨le_rfl, iff_of_false (Option.some_ne_none _) (lt_irrefl _)⟩

theorem cJSONStrdup_tells (string : Address) :
    Tells (· = none) (cJSONStrdup allocator (some string)) := by
  rw [cJSONStrdup, if_neg (Option.some_ne_none _)]
  refine (readText_sparing _).bind_tells fun text memory value after ran => ?_
  rw [run_get_bind] at ran
  cases given : allocator.text memory with
  | none =>
    simp only [given] at ran
    cases ran
    exact ⟨Nat.le_succ _, iff_of_true rfl (Nat.lt_succ_self _)⟩
  | some address =>
    simp only [given] at ran
    cases ran
    exact ⟨le_rfl, iff_of_false (Option.some_ne_none _) (lt_irrefl _)⟩

theorem abandon_fails (fuel : Nat) (item : Option Address) :
    Fails (· = none) (abandon fuel item) :=
  (cJSONDelete_sparing _ _).bind_fails fun _ => fails_pure rfl

theorem chainChild_sparing (parent last child : Option Address) :
    Sparing (chainChild parent last child) :=
  (setFields_sparing _ _).ite (suffixObject_sparing _ _)

theorem closeChain_sparing (parent last : Option Address) : Sparing (closeChain parent last) :=
  (follow_sparing _).bind fun _ => (pointBack_sparing _ _).onlyIf

/-! ### Arrays of numbers and strings -/

theorem createWith_tells (change : Fields → Fields) :
    Tells (· = none) (createWith allocator change) := by
  refine (cJSONNewItem_tells allocator).bind_pointer ?_ fun address => ?_
  · exact Sparing.bind_fails (setFields_sparing _ _).onlyIf fun _ => fails_pure rfl
  · exact Sparing.bind_tells (setFields_sparing _ _).onlyIf fun _ =>
      tells_pure (Option.some_ne_none _)

theorem cJSONCreateNumber_tells (num : Double) :
    Tells (· = none) (cJSONCreateNumber allocator num) := by
  have filling (item : Option Address) : Sparing (do
      let valueint ← lift (intOfDouble num)
      setFields item fun fields => { fields with type := .number, valuedouble := num, valueint }) :=
    (sparing_lift _).bind fun _ => setFields_sparing _ _
  refine (cJSONNewItem_tells allocator).bind_pointer ?_ fun address => ?_
  · exact Sparing.bind_fails (filling _).onlyIf fun _ => fails_pure rfl
  · exact Sparing.bind_tells (filling _).onlyIf fun _ => tells_pure (Option.some_ne_none _)

theorem cJSONCreateString_tells (string : Address) :
    Tells (· = none) (cJSONCreateString allocator (some string)) := by
  refine (cJSONNewItem_tells allocator).bind_pointer (fails_pure rfl) fun address => ?_
  rw [if_neg (Option.some_ne_none _)]
  refine (setFields_sparing _ _).bind_tells fun _ => ?_
  refine (cJSONStrdup_tells allocator string).bind_pointer ?_ fun copy => ?_
  · exact (setFields_sparing _ _).bind_fails fun _ => abandon_fails 1 (some address)
  · refine (setFields_sparing _ _).bind_tells fun _ => ?_
    rw [if_neg (Option.some_ne_none _)]
    exact tells_pure (Option.some_ne_none _)

theorem fillLoop_tells {elements : List (Heaped (Option Address))}
    (each : ∀ create ∈ elements, Tells (· = none) create) (array last : Option Address) :
    Tells (· = none) (fillLoop array elements last) := by
  induction elements generalizing last with
  | nil => exact tells_pure (Option.some_ne_none _)
  | cons create rest inductionHypothesis =>
    refine (each create List.mem_cons_self).bind_pointer (fails_pure rfl) fun element => ?_
    rw [if_neg (Option.some_ne_none _)]
    exact (chainChild_sparing _ _ _).bind_tells fun _ =>
      inductionHypothesis (fun other member => each other (List.mem_cons_of_mem _ member)) _

/-- Behind a loop over children the ring is closed, or the item is given up. -/
theorem Tells.finishChain {loop : Heaped (Option (Option Address))} (tells : Tells (· = none) loop)
    (fuel : Nat) (parent : Address) :
    Tells (· = none) (loop >>= Memory.finishChain fuel (some parent)) :=
  tells.bind_pointer (abandon_fails _ _) fun _ =>
    (closeChain_sparing _ _).bind_tells fun _ => tells_pure (Option.some_ne_none _)

theorem createFrom_tells {Value : Type} {create : Value → Heaped (Option Address)}
    {values : List Value} {count : Int32} (fuel : Nat) (nonnegative : ¬ count < 0)
    (each : ∀ value ∈ values.take count.toNatClampNeg, Tells (· = none) (create value)) :
    Tells (· = none) (createFrom allocator create fuel (some values) count) := by
  rw [createFrom, if_neg nonnegative]
  refine (createWith_tells allocator _).bind_pointer (fails_pure rfl) fun array => ?_
  rw [if_neg (Option.some_ne_none _)]
  refine (fillLoop_tells (fun element member => ?_) _ _).finishChain fuel array
  obtain ⟨index, isIndex, rfl⟩ := List.mem_map.mp member
  rw [createElement]
  cases found : values[index]? with
  | none => exact relates_lift fun _ _ failed => (by cases failed)
  | some value =>
    refine each value (List.mem_take_iff_getElem.mpr ?_)
    obtain ⟨inside, isValue⟩ := List.getElem?_eq_some_iff.mp found
    exact ⟨index, lt_min (List.mem_range.mp isIndex) inside, isValue⟩

/-! ### Duplicates -/

/-- The shape of the two functions that duplicate a string of an item. -/
theorem copyField_tells (string : Option Address) (present : string ≠ none)
    (newitem : Option Address) (change : Option Address → Fields → Fields) :
    Tells (· = false) (do
      let copy ← cJSONStrdup allocator string
      setFields newitem (change copy)
      pure (decide (copy ≠ none))) := by
  obtain ⟨string, rfl⟩ := Option.ne_none_iff_exists'.mp present
  refine (cJSONStrdup_tells allocator string).bind_pointer ?_ fun copy => ?_
  · exact (setFields_sparing _ _).bind_fails fun _ => fails_pure rfl
  · exact (setFields_sparing _ _).bind_tells fun _ => tells_pure (by simp)

theorem duplicateValuestring_tells (item newitem : Option Address) :
    Tells (· = false) (duplicateValuestring allocator item newitem) := by
  refine (follow_sparing _).bind_tells fun original => ?_
  split_ifs with silent
  · exact tells_pure (by simp)
  · exact copyField_tells allocator _ silent newitem
      fun copy fields => { fields with valuestring := copy }

theorem duplicateString_tells (item newitem : Option Address) :
    Tells (· = false) (duplicateString allocator item newitem) := by
  refine (follow_sparing _).bind_tells fun original => ?_
  split_ifs with silent constant
  · exact tells_pure (by simp)
  · exact (setFields_sparing _ _).bind_tells fun _ => tells_pure (by simp)
  · exact copyField_tells allocator _ silent newitem
      fun copy fields => { fields with string := copy }

theorem duplicateLoop_tells {duplicate : Option Address → Heaped (Option Address)}
    (each : ∀ child : Address, Tells (· = none) (duplicate (some child)))
    (newitem : Option Address) (fuel : Nat) (child next : Option Address) :
    Tells (· = none) (duplicateLoop duplicate newitem fuel child next) := by
  induction fuel generalizing child next with
  | zero =>
    cases child with
    | none => exact tells_pure (Option.some_ne_none _)
    | some child => exact relates_lift fun _ _ failed => (by cases failed)
  | succ fuel inductionHypothesis =>
    cases child with
    | none => exact tells_pure (Option.some_ne_none _)
    | some child =>
      refine (each child).bind_pointer (fails_pure rfl) fun newchild => ?_
      rw [if_neg (Option.some_ne_none _)]
      exact (chainChild_sparing _ _ _).bind_tells fun _ =>
        (follow_sparing _).bind_tells fun _ => inductionHypothesis _ _

theorem duplicateFields_tells {duplicate : Option Address → Heaped (Option Address)}
    (each : ∀ child : Address, Tells (· = none) (duplicate (some child))) (fuel : Nat)
    (recurse : Bool) (item : Option Address) (newitem : Address) :
    Tells (· = none) (duplicateFields allocator duplicate fuel recurse item (some newitem)) := by
  refine (follow_sparing _).bind_tells fun original =>
    (setFields_sparing _ _).bind_tells fun _ => ?_
  refine (duplicateValuestring_tells allocator _ _).bind (fun _ failed => ?_) fun _ succeeded => ?_
  · rw [failed]
    exact abandon_fails _ _
  rw [Bool.not_eq_false] at succeeded
  rw [succeeded, if_pos rfl]
  refine (duplicateString_tells allocator _ _).bind (fun _ failed => ?_) fun _ succeeded => ?_
  · rw [failed]
    exact abandon_fails _ _
  rw [Bool.not_eq_false] at succeeded
  rw [succeeded, if_pos rfl]
  cases recurse with
  | false => exact tells_pure (Option.some_ne_none _)
  | true =>
    exact (follow_sparing _).bind_tells fun _ =>
      (duplicateLoop_tells each _ _ _ _).finishChain _ _

/-- `cJSON_Duplicate` of an item gives null exactly if one of its requests was refused. -/
theorem cJSONDuplicate_tells (fuel : Nat) (item : Address) (recurse : Bool) :
    Tells (· = none) (cJSONDuplicate allocator fuel (some item) recurse) := by
  induction fuel generalizing item recurse with
  | zero => exact relates_lift fun _ _ failed => (by cases failed)
  | succ fuel inductionHypothesis =>
    refine (cJSONNewItem_tells allocator).bind_pointer (fails_pure rfl) fun newitem => ?_
    rw [if_neg (Option.some_ne_none _)]
    exact duplicateFields_tells allocator (fun child => inductionHypothesis child true) _ _ _ _

end Allocation

end DiffServSimulation
