/-
This file puts the calls of the editing functions of the vendored JSON library
together from their parts.

On a memory that holds a forest and nothing else, a call that meets its precondition
ends without a fault, on such a memory again, and its reply and what it leaves are
an outcome of the call.
-/

import DiffServSimulation.CjsonDuplicate
import DiffServSimulation.CjsonOutcomes

namespace DiffServSimulation

open Faulting LinkedRing Layout Memory

/-! ### Calls that are put together from others -/

section Composite

variable {allocator : Allocator} {memory : Memory} {borrowed : List Address}
  {forest next : List Branch} {array object item string newitem reply : Option Address}
  {which : Int32} {caseSensitive done : Bool} {fuel : Nat}

theorem DetachesAt.yields (detaches : DetachesAt forest array which reply next)
    (consistent : Consistent memory borrowed forest) :
    Yields borrowed (cJSONDetachItemFromArray array which) memory reply next := by
  rw [DetachesAt] at detaches
  rw [cJSONDetachItemFromArray]
  split_ifs at detaches ⊢
  · obtain ⟨rfl, rfl⟩ := detaches
    exact yields_pure consistent none
  · obtain ⟨item, itemAt, detaches⟩ := detaches
    exact yields_run_bind (itemAt.run consistent) (detaches.yields consistent)

theorem DetachesAt.size_eq (detaches : DetachesAt forest array which reply next)
    (consistent : Consistent memory borrowed forest) :
    (link next).footprint.length = (link forest).footprint.length := by
  rw [DetachesAt] at detaches
  split_ifs at detaches
  · rw [detaches.2]
  · obtain ⟨item, -, detaches⟩ := detaches
    exact detaches.size_eq consistent

theorem DetachesAt.exists_deletes (detaches : DetachesAt forest array which reply next) :
    ∃ last, Deletes next reply last := by
  rw [DetachesAt] at detaches
  split_ifs at detaches
  · obtain ⟨rfl, rfl⟩ := detaches
    exact ⟨_, .null⟩
  · obtain ⟨item, -, detaches⟩ := detaches
    exact detaches.exists_deletes

theorem DetachesNamed.yields
    (detaches : DetachesNamed memory.texts forest object string caseSensitive reply next)
    (consistent : Consistent memory borrowed forest)
    (enough : (link forest).footprint.length ≤ fuel) :
    Yields borrowed (Memory.detachItemFromObject fuel object string caseSensitive) memory reply
      next := by
  obtain ⟨item, itemNamed, detaches⟩ := detaches
  exact yields_run_bind (itemNamed.run consistent enough) (detaches.yields consistent)

theorem DetachesNamed.size_eq {texts : Address → Option CString}
    (detaches : DetachesNamed texts forest object string caseSensitive reply next)
    (consistent : Consistent memory borrowed forest) :
    (link next).footprint.length = (link forest).footprint.length := by
  obtain ⟨item, -, detaches⟩ := detaches
  exact detaches.size_eq consistent

theorem DetachesNamed.exists_deletes {texts : Address → Option CString}
    (detaches : DetachesNamed texts forest object string caseSensitive reply next) :
    ∃ last, Deletes next reply last := by
  obtain ⟨item, -, detaches⟩ := detaches
  exact detaches.exists_deletes

theorem Inserts.yields (inserts : Inserts forest array which newitem done next)
    (consistent : Consistent memory borrowed forest) :
    Yields borrowed (cJSONInsertItemInArray array which newitem) memory done next := by
  rw [Inserts] at inserts
  rw [cJSONInsertItemInArray]
  split_ifs at inserts ⊢
  · obtain ⟨rfl, rfl⟩ := inserts
    exact yields_pure consistent false
  · obtain ⟨after, itemAt, inserts⟩ := inserts
    refine yields_run_bind (itemAt.run consistent) ?_
    split_ifs at inserts ⊢
    · exact inserts.yields consistent
    · obtain ⟨rfl, precedes⟩ := inserts
      exact (precedes.yields consistent).bind fun _ kept => yields_pure kept true

theorem ReplacesAt.yields (replaces : ReplacesAt forest array which newitem done next)
    (consistent : Consistent memory borrowed forest)
    (enough : (link forest).footprint.length ≤ fuel) :
    Yields borrowed (cJSONReplaceItemInArray fuel array which newitem) memory done next := by
  rw [ReplacesAt] at replaces
  rw [cJSONReplaceItemInArray]
  split_ifs at replaces ⊢
  · obtain ⟨rfl, rfl⟩ := replaces
    exact yields_pure consistent false
  · obtain ⟨item, itemAt, replaces⟩ := replaces
    exact yields_run_bind (itemAt.run consistent) (replaces.yields consistent enough)

/-- What creating a reference leaves in front of the forest. -/
theorem Refers.places {before after : Holding} {reference : Option Address}
    (refers : Refers before item reference after) :
    (reference = none ∧ after.forest = before.forest) ∨ ∃ address fields, reference = some address ∧
      item ≠ none ∧ after.forest = ⟨address, fields, .null⟩ :: before.forest := by
  cases refers with
  | null => exact .inl ⟨rfl, rfl⟩
  | starved _ starves => exact .inl ⟨rfl, starves.forest⟩
  | made address _ placed => exact .inr ⟨address, _, rfl, Option.some_ne_none _, placed⟩

/-- What creating an item leaves in front of the forest. -/
theorem Makes.places {before after : Holding} {maker : Maker}
    (makes : Makes before maker item after) :
    (item = none ∧ after.forest = before.forest) ∨ ∃ address fields, item = some address ∧
      after.forest = ⟨address, fields, .null⟩ :: before.forest := by
  cases makes with
  | starved starves => exact .inl ⟨rfl, starves.forest⟩
  | textless => exact .inl ⟨rfl, rfl⟩
  | made address _ placed => exact .inr ⟨address, _, rfl, placed⟩
  | copied address _ _ placed => exact .inr ⟨address, _, rfl, placed⟩

/-- A root that is not added stays where it was. -/
theorem AddsNamed.forest_eq {before after : Holding} {constantKey : Bool}
    (adds : AddsNamed before constantKey object string item false after) :
    after.forest = before.forest := by
  cases adds with
  | refused => rfl
  | starved _ _ _ _ starves => exact starves.forest

theorem cJSONAddItemReferenceToArray_refines (consistent : Consistent memory borrowed forest)
    (allowed : array = none ∨ item = none ∨ (Opens forest array ∧ Reaches forest item)) :
    Refines borrowed (cJSONAddItemReferenceToArray allocator array item) memory
      (AddsReference (memory.holding forest) array item) := by
  unfold AddsReference
  rw [cJSONAddItemReferenceToArray]
  split_ifs with null
  · exact refines_pure consistent ⟨rfl, rfl⟩
  have allowed := allowed.resolve_left null
  refine (createReference_refines consistent (allowed.imp_right And.right)).bind
    fun reference middle after refers kept => ?_
  have adds : ∃ done next, Adds middle array reference done next := by
    rcases refers.places with ⟨rfl, -⟩ | ⟨address, fields, rfl, there, rfl⟩
    · exact ⟨false, _, .refused (.inl rfl)⟩
    · obtain ⟨⟨target, fields, children, rfl, container⟩, -⟩ := allowed.resolve_left there
      exact ⟨true, _, .appended (.refl _) container⟩
  obtain ⟨done, next, adds⟩ := adds
  exact (adds.yields kept).refines middle (addItemToArray_sparing _ _) fun last isNext keeps =>
    ⟨reference, _, refers, isNext ▸ adds, keeps⟩

theorem cJSONAddItemReferenceToObject_refines (consistent : Consistent memory borrowed forest)
    (allowed : object = none ∨ string = none ∨ item = none ∨
      (Opens forest object ∧ Live forest borrowed string ∧ Reaches forest item)) :
    Refines borrowed (cJSONAddItemReferenceToObject allocator object string item) memory
      (AddsNamedReference (memory.holding forest) object string item) := by
  unfold AddsNamedReference
  rw [cJSONAddItemReferenceToObject]
  split_ifs with null
  · exact refines_pure consistent ⟨rfl, rfl⟩
  have allowed : item = none ∨
      (Opens forest object ∧ Live forest borrowed string ∧ Reaches forest item) := by tauto
  refine (createReference_refines consistent (allowed.imp_right fun ready => ready.2.2)).bind
    fun reference middle after refers kept => ?_
  have nameable : Nameable middle borrowed false object string reference := by
    rcases refers.places with ⟨rfl, -⟩ | ⟨address, fields, rfl, there, rfl⟩
    · exact .inr (.inr (.inl rfl))
    · obtain ⟨opens, live, -⟩ := allowed.resolve_left there
      exact .inr (.inr (.inr (.inr ⟨⟨forest, _, .refl _, rfl, opens⟩, live.cons _, nofun⟩)))
  obtain ⟨done, next, last, ran, held, adds⟩ := addItemToObject_refines allocator kept nameable
  exact ⟨done, next, last, ran, held, reference, _, refers, adds⟩

/-- A new item that could not be added is deleted. -/
theorem addCreated_refines {maker : Maker} (consistent : Consistent memory borrowed forest)
    (ready : maker.Ready forest borrowed)
    (allowed : object = none ∨ string = none ∨
      (Opens forest object ∧ Live forest borrowed string)) :
    Refines borrowed (addCreated allocator object string (maker.create allocator)) memory
      (AddsNew (memory.holding forest) object string maker) := by
  refine (maker.create_refines consistent ready).bind fun item middle after makes kept => ?_
  have nameable : Nameable middle borrowed false object string item := by
    rcases makes.places with ⟨rfl, -⟩ | ⟨address, fields, rfl, rfl⟩
    · exact .inr (.inr (.inl rfl))
    · refine allowed.imp_right (Or.imp_right fun ⟨opens, live⟩ => .inr (.inr ?_))
      exact ⟨⟨forest, _, .refl _, rfl, opens⟩, live.cons _, nofun⟩
  refine (addItemToObject_refines allocator kept nameable).bind fun done last later adds held => ?_
  cases done with
  | true =>
    rw [if_pos rfl]
    exact refines_pure held ⟨item, _, true, _, makes, adds, rfl, rfl⟩
  | false =>
    have same : last = middle := adds.forest_eq
    subst same
    rw [if_neg Bool.false_ne_true]
    have deletes : ∃ next, Deletes last item next ∧ Yields borrowed (cJSONDelete 1 item) later ⟨⟩
        next := by
      rcases makes.places with ⟨rfl, -⟩ | ⟨address, fields, rfl, rfl⟩
      · exact ⟨_, .null, later, rfl, held⟩
      · exact ⟨_, .root (.refl _), _, held.cJSONDelete_run (by simp [footprint, link, collect]),
          held.erase⟩
    obtain ⟨next, deletes, yields⟩ := deletes
    refine (yields.bind fun _ final => yields_pure final none).refines last
      ((cJSONDelete_sparing _ _).bind fun _ => sparing_pure _) fun final isNext keeps => ?_
    exact ⟨item, _, false, _, makes, adds, rfl, isNext ▸ deletes, keeps⟩

end Composite

/-! ### Creating arrays and duplicates -/

section Building

variable {allocator : Allocator} {memory : Memory} {borrowed : List Address} {forest : List Branch}
  {fuel : Nat} {count : Int32}

theorem refines_of_joined {program : Heaped (Option Address)} {node : Item}
    (completes : Completes program memory (Joined borrowed forest memory fuel node)) :
    Refines borrowed program memory (Gains (memory.holding forest) node) := by
  obtain ⟨reply, after, ran, ⟨rfl, refused, same, kept⟩ |
    ⟨root, rfl, granted, grows, kept, mirrors, -⟩⟩ := completes
  · exact ⟨none, forest, after, ran, kept, .starved ⟨rfl, same.2, refused⟩⟩
  · exact ⟨_, _, after, ran, kept, .gained rfl mirrors grows.texts granted⟩

theorem createFrom_refused {Value : Type} {create : Value → Heaped (Option Address)}
    {values : Option (List Value)} (void : count < 0 ∨ values = none) :
    createFrom allocator create fuel values count = pure none := by
  cases values with
  | none => rfl
  | some values => exact if_pos (void.resolve_right (Option.some_ne_none values))

theorem Listing.create_refused (listing : Listing) (void : count < 0 ∨ listing.Null) :
    listing.create allocator count = pure none := by
  cases listing <;> exact createFrom_refused void

theorem Listing.create_refines {listing : Listing} (consistent : Consistent memory borrowed forest)
    (allowed : count < 0 ∨ listing.Null ∨
      ∃ nodes, Enumerates memory.texts count.toNatClampNeg listing nodes) :
    Refines borrowed (listing.create allocator count) memory
      (CreatesArray (memory.holding forest) listing count) := by
  by_cases void : count < 0 ∨ listing.Null
  · rw [listing.create_refused void]
    exact refines_pure consistent (.refused void)
  · rw [not_or] at void
    obtain ⟨nodes, enumerates⟩ := (allowed.resolve_left void.1).resolve_left void.2
    have joins : Completes (listing.create allocator count) memory (Joined borrowed forest memory
        (count.toNatClampNeg + 1) { type := .array, child := CJSON.link nodes }) := by
      cases enumerates with
      | ints inside => exact cJSONCreateIntArray_joins consistent void.1 inside le_rfl
      | doubles inside defined =>
        exact cJSONCreateDoubleArray_joins consistent void.1 inside defined le_rfl
      | strings inside readable =>
        exact cJSONCreateStringArray_joins consistent void.1 inside readable le_rfl
    obtain ⟨array, next, after, ran, kept, gains⟩ := refines_of_joined joins
    exact ⟨array, next, after, ran, kept, .listed void.1 enumerates gains⟩

/-- An item of a forest that owns what it shows is duplicated. -/
theorem cJSONDuplicate_refines {item : Option Address} {recurse : Bool}
    (consistent : Consistent memory borrowed forest)
    (allowed : item = none ∨ ∃ target fields children, item = some target ∧
      (link forest).Has target fields children ∧ fields.isReference = false ∧
      (recurse = true → children.references = []))
    (enough : (link forest).footprint.length ≤ fuel) :
    Refines borrowed (cJSONDuplicate allocator fuel item recurse) memory
      (Copies (memory.holding forest) recurse item) := by
  obtain rfl | ⟨target, fields, children, rfl, has, owner, whole⟩ := allowed
  · cases fuel <;> exact refines_pure consistent .null
  · obtain ⟨⟨next, prev, cell⟩, owns, ring, stored⟩ := consistent.shaped.holds has
    rw [Owns, if_neg (by simp [owner])] at owns
    have live : ∀ text ∈ ownedTexts fields ++ children.texts, memory.texts text ≠ none :=
      fun text member => (consistent.owned.allocated text).mpr
        (List.mem_append_left _ (has.collect_subset _ member))
    have lent : ∀ text ∈ borrowed, memory.texts text ≠ none := fun text member =>
      (consistent.owned.allocated text).mpr (List.mem_append_right _ member)
    obtain ⟨constant, below⟩ := List.append_subset.mp
      (List.Subset.trans (has.collect_subset fun _ => constantNames) consistent.owned.constant)
    have legible : Legible borrowed memory.texts fields := legible_of_owned owner
      (fun text member => live text (List.mem_append_left _ member)) constant lent
    have size : children.footprint.length + 1 ≤ fuel := by
      obtain ⟨outside, distinct⟩ := has.distinct consistent.shaped.distinct
      have inside : target :: children.footprint ⊆ (link forest).footprint :=
        has.collect_subset fun address _ => [address]
      have subperm := List.subperm_of_subset (List.nodup_cons.mpr ⟨outside, distinct⟩) inside
      exact subperm.length_le.trans enough
    have copies : ∀ tree : CJSON, (if recurse then children.Mirrors borrowed memory.texts tree
        else tree = .null) → (if recurse then Shows borrowed memory fields.child tree
        else tree = .null) → tree.nodes + 1 ≤ fuel →
        Refines borrowed (cJSONDuplicate allocator fuel (some target) recurse) memory
          (Copies (memory.holding forest) recurse (some target)) := fun tree shown shows bound => by
      obtain ⟨copy, next, after, ran, kept, gains⟩ :=
        refines_of_joined (cJSONDuplicate_joins consistent cell legible shows bound)
      exact ⟨copy, next, after, ran, kept, .copied has shown gains⟩
    cases recurse with
    | false => exact copies .null rfl rfl ((Nat.succ_le_succ (Nat.zero_le _)).trans size)
    | true =>
      obtain ⟨tree, mirrors⟩ := exists_mirrors (whole rfl)
        (fun text member => live text (List.mem_append_right _ member)) below lent
      refine copies tree mirrors ?_ (mirrors.length_footprint ▸ size)
      exact owns ▸ mirrors.shows ring stored.hung

end Building

/-! ### Calls -/

section Calls

variable {allocator : Allocator} {memory : Memory} {borrowed : List Address} {forest : List Branch}
  {fuel : Nat}

/-- The reply of a call is the value of the function it calls. -/
theorem Refines.reply {Value : Type} {program : Heaped Value} {outcome : Value → Holding → Prop}
    {last : Reply → Holding → Prop} (refines : Refines borrowed program memory outcome)
    (reply : Value → Reply)
    (isLast : ∀ value after, outcome value after → last (reply value) after) :
    Refines borrowed (do return reply (← program)) memory last :=
  refines.bind fun value _ _ isOutcome kept => refines_pure kept (isLast value _ isOutcome)

variable (forest) in
theorem Yields.reply {Value : Type} {program : Heaped Value} {value : Value} {next : List Branch}
    {last : Reply → Holding → Prop} (yields : Yields borrowed program memory value next)
    (sparing : Sparing program) (reply : Value → Reply)
    (isLast : ∀ after : Holding, after.forest = next → Keeps (memory.holding forest) after →
      last (reply value) after) :
    Refines borrowed (do return reply (← program)) memory last :=
  (yields.bind fun _ kept => yields_pure kept (reply value)).refines forest
    (sparing.bind fun _ => sparing_pure _) isLast

variable (allocator) in
/-- A call that is allowed has an outcome, on a memory that holds its forest and nothing else. -/
theorem Call.run_refines (call : Call) (consistent : Consistent memory borrowed forest)
    (allowed : call.Allowed memory.texts forest borrowed)
    (enough : (link forest).footprint.length ≤ fuel) :
    Refines borrowed (call.run allocator fuel) memory (call.Outcome (memory.holding forest)) := by
  cases call with
  | create maker =>
    exact (maker.create_refines consistent allowed).reply .pointer fun item _ makes =>
      ⟨item, rfl, makes⟩
  | delete item =>
    obtain ⟨next, deletes⟩ := exists_deletes allowed
    exact ((deletes.yields consistent enough).bind fun _ kept =>
      yields_pure kept Reply.nothing).refines forest
        ((cJSONDelete_sparing _ _).bind fun _ => sparing_pure _)
        fun _ isNext keeps => ⟨rfl, isNext ▸ deletes, keeps⟩
  | setNumber object number =>
    obtain ⟨next, sets⟩ := exists_sets allowed.1 allowed.2
    exact (sets.yields consistent).reply forest (cJSONSetNumberHelper_sparing _ _) .number
      fun _ isNext keeps => ⟨rfl, isNext ▸ sets, keeps⟩
  | addItemToArray array item =>
    obtain ⟨done, next, adds⟩ := exists_adds allowed
    exact (adds.yields consistent).reply forest (addItemToArray_sparing _ _) .flag
      fun _ isNext keeps => ⟨done, rfl, isNext ▸ adds, keeps⟩
  | addItemToObject object string item constantKey =>
    exact (addItemToObject_refines allocator consistent allowed).reply .flag fun done _ adds =>
      ⟨done, rfl, adds⟩
  | addItemReferenceToArray array item =>
    exact (cJSONAddItemReferenceToArray_refines consistent allowed).reply .flag fun done _ adds =>
      ⟨done, rfl, adds⟩
  | addItemReferenceToObject object string item =>
    exact (cJSONAddItemReferenceToObject_refines consistent allowed).reply .flag fun done _ adds =>
      ⟨done, rfl, adds⟩
  | addToObject object name maker =>
    exact (addCreated_refines consistent allowed.1 allowed.2).reply .pointer fun item _ adds =>
      ⟨item, rfl, adds⟩
  | detachItemViaPointer parent item =>
    obtain ⟨detached, next, detaches⟩ := exists_detaches allowed
    exact (detaches.yields consistent).reply forest (cJSONDetachItemViaPointer_sparing _ _) .pointer
      fun _ isNext keeps => ⟨detached, rfl, isNext ▸ detaches, keeps⟩
  | detachItemFromArray array which =>
    obtain ⟨detached, next, detaches⟩ := exists_detachesAt allowed
    exact (detaches.yields consistent).reply forest (cJSONDetachItemFromArray_sparing _ _) .pointer
      fun _ isNext keeps => ⟨detached, rfl, isNext ▸ detaches, keeps⟩
  | detachItemFromObject object string caseSensitive =>
    obtain ⟨detached, next, detaches⟩ := exists_detachesNamed consistent caseSensitive allowed
    exact (detaches.yields consistent enough).reply forest (detachItemFromObject_sparing _ _ _ _)
      .pointer fun _ isNext keeps => ⟨detached, rfl, isNext ▸ detaches, keeps⟩
  | deleteItemFromArray array which =>
    obtain ⟨detached, middle, detaches⟩ := exists_detachesAt allowed
    obtain ⟨next, deletes⟩ := detaches.exists_deletes
    have small := (detaches.size_eq consistent).trans_le enough
    exact (((detaches.yields consistent).bind fun _ kept => deletes.yields kept small).bind
      fun _ kept => yields_pure kept Reply.nothing).refines forest
        (((cJSONDetachItemFromArray_sparing _ _).bind fun _ => cJSONDelete_sparing _ _).bind
          fun _ => sparing_pure _)
        fun _ isNext keeps => ⟨rfl, ⟨detached, middle, detaches, isNext ▸ deletes⟩, keeps⟩
  | deleteItemFromObject object string caseSensitive =>
    obtain ⟨detached, middle, detaches⟩ := exists_detachesNamed consistent caseSensitive allowed
    obtain ⟨next, deletes⟩ := detaches.exists_deletes
    have small := (detaches.size_eq consistent).trans_le enough
    exact (((detaches.yields consistent enough).bind fun _ kept => deletes.yields kept small).bind
      fun _ kept => yields_pure kept Reply.nothing).refines forest
        (((detachItemFromObject_sparing _ _ _ _).bind fun _ => cJSONDelete_sparing _ _).bind
          fun _ => sparing_pure _)
        fun _ isNext keeps => ⟨rfl, ⟨detached, middle, detaches, isNext ▸ deletes⟩, keeps⟩
  | insertItemInArray array which newitem =>
    obtain ⟨done, next, inserts⟩ := exists_inserts allowed
    exact (inserts.yields consistent).reply forest (cJSONInsertItemInArray_sparing _ _ _) .flag
      fun _ isNext keeps => ⟨done, rfl, isNext ▸ inserts, keeps⟩
  | replaceItemViaPointer parent item replacement =>
    obtain ⟨done, next, replaces⟩ := exists_replaces allowed
    exact (replaces.yields consistent enough).reply forest
      (cJSONReplaceItemViaPointer_sparing _ _ _ _) .flag
      fun _ isNext keeps => ⟨done, rfl, isNext ▸ replaces, keeps⟩
  | replaceItemInArray array which newitem =>
    obtain ⟨done, next, replaces⟩ := exists_replacesAt allowed
    exact (replaces.yields consistent enough).reply forest
      (cJSONReplaceItemInArray_sparing _ _ _ _) .flag
      fun _ isNext keeps => ⟨done, rfl, isNext ▸ replaces, keeps⟩
  | replaceItemInObject object string newitem caseSensitive =>
    exact (replaceItemInObject_refines consistent enough allowed).reply .flag
      fun done _ replaces => ⟨done, rfl, replaces⟩
  | createArray listing count =>
    exact (Listing.create_refines consistent allowed).reply .pointer fun array _ creates =>
      ⟨array, rfl, creates⟩
  | duplicate item recurse =>
    exact (cJSONDuplicate_refines consistent allowed enough).reply .pointer fun copy _ copies =>
      ⟨copy, rfl, copies⟩

end Calls

/-! ### What the functions do not check -/

section Unguarded

variable {memory : Memory} {borrowed : List Address} {forest : List Branch}

variable (allocator : Allocator) in
/-- Two calls that the functions do not guard against. Inserting a null pointer in front of a child
follows it, and replacing by an item under the item's own name reads the name behind freeing it. -/
theorem unguarded_calls_fault (consistent : Consistent memory borrowed forest) :
    (∀ target fields children which, Container forest target fields children → ¬ which < 0 →
      which.toNatClampNeg < children.length →
        (cJSONInsertItemInArray (some target) which none).run memory = .error .nullDereference) ∧
    ∀ branch ∈ forest, ∀ name object caseSensitive fuel, branch.fields.string = some name →
      branch.fields.stringIsConst = false →
        (Memory.replaceItemInObject allocator fuel object (some name) (some branch.address)
          caseSensitive).run memory = .error .danglingPointer := by
  constructor
  · intro target fields children which container nonnegative inside
    have found := container.getArrayItem_run consistent which.toNatClampNeg
    rw [List.getElem?_eq_getElem inside, Option.map_some] at found
    rw [cJSONInsertItemInArray, if_neg nonnegative, run_bind_ok _ _ _ _ _ found,
      if_neg (Option.some_ne_none _)]
    exact run_bind_error _ _ _ _ (run_bind_error _ _ _ _ rfl)
  · intro branch member name object caseSensitive fuel isName owned
    have cell := consistent.shaped.loose branch member
    obtain ⟨before, behind, rfl⟩ := List.append_of_mem member
    have live := (consistent.perm List.perm_middle).lostName_live
    have lost : lostName branch.fields = [name] := by
      rw [lostName, owned, if_neg Bool.false_ne_true, isName]
      rfl
    have gone : (memory.erase [] (lostName branch.fields)).texts name = none := by
      rw [lost]
      exact if_pos List.mem_cons_self
    have unread : (cJSONStrdup allocator (some name)).run
        (memory.erase [] (lostName branch.fields)) = .error .danglingPointer := by
      rw [cJSONStrdup, if_neg (Option.some_ne_none _)]
      refine run_bind_error _ _ _ _ ?_
      rw [readText, run_get_bind]
      simp only [gone]
      rfl
    rw [Memory.replaceItemInObject, if_neg (by simp), run_bind_ok _ _ _ _ _ (run_follow cell),
      run_bind_ok _ _ _ _ _ (releaseText_run _ live)]
    exact run_bind_error _ _ _ _ unread

/-- The array `[true, false]`, once as it is and once with a name. -/
theorem unguarded_calls_fault_pair :
    (cJSONInsertItemInArray (some 0) 1 none).run pairMemory = .error .nullDereference ∧
      (Memory.replaceItemInObject countingAllocator 3 none (some 3) (some 0) false).run
        (((pairMemory.erase [] []).lend 3 (.literal "pair")).refill 0 (named 3 false)) =
          .error .danglingPointer := by
  have isNamed : Consistent
      (((pairMemory.erase [] []).lend 3 (.literal "pair")).refill 0 (named 3 false)) [] _ :=
    pairMemory_consistent.rename (.literal "pair") rfl
  exact ⟨(unguarded_calls_fault countingAllocator pairMemory_consistent).1 0 _
      [⟨1, { type := .true }, .null⟩, ⟨2, { type := .false }, .null⟩] 1
      ⟨.inl ⟨rfl, rfl, rfl⟩, rfl⟩ (by decide) (by decide),
    (unguarded_calls_fault countingAllocator isNamed).2 _ List.mem_cons_self 3 none false 3 rfl rfl⟩

end Unguarded

end DiffServSimulation
