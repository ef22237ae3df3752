/-
This file says what holds after any number of calls of the editing functions of the
vendored JSON library.

In every state that calls can reach no pointer of a tree dangles, every list of
children is a ring, and nothing is allocated but what the roots own. A root is one
the caller began with, was handed, or lost: `cJSON_AddItemReferenceToObject` drops
the only pointer to a reference it could not name. Deleting the roots that are not
lost frees everything else.
-/

import DiffServSimulation.CjsonRoots
import Mathlib.Data.Set.Basic

namespace DiffServSimulation

open Faulting LinkedRing Layout Memory

/-! ### Every state that calls reach -/

/-- What a call hands to its caller. -/
def Reply.handed (reply : Reply) : Set Address := {address | reply = .pointer (some address)}

/-- The new roots that a call which says it failed leaves behind. -/
def Reply.lost (reply : Reply) (memory after : Memory) : Set Address :=
  {address | reply = .flag false ∧ memory.items address = none ∧
    ∃ item, after.items address = some item ∧ item.prev = none}

/-- The memories that allowed calls reach, with the pointers the calls returned and the roots they
left behind. -/
inductive Reachable (allocator : Allocator) (borrowed : List Address) (start : Memory) :
    Memory → Set Address → Set Address → Prop where
  | start : Reachable allocator borrowed start start ∅ ∅
  | call {memory after : Memory} {handed lost : Set Address} {forest : List Branch} {call : Call}
    {reply : Reply} {fuel : Nat} (reached : Reachable allocator borrowed start memory handed lost)
    (consistent : Consistent memory borrowed forest)
    (allowed : call.Allowed memory.texts forest borrowed)
    (enough : (link forest).footprint.length ≤ fuel)
    (ran : (call.run allocator fuel).run memory = .ok (reply, after)) :
    Reachable allocator borrowed start after (handed ∪ reply.handed)
      (lost ∪ reply.lost memory after)

/-- An object is created beside the array. -/
theorem pairMemory_reaches : Reachable countingAllocator [] pairMemory
    (pairMemory.place 3 { type := .object }) (∅ ∪ (Reply.pointer (some 3)).handed)
      (∅ ∪ (Reply.pointer (some 3)).lost pairMemory (pairMemory.place 3 { type := .object })) := by
  have asked : countingAllocator.item pairMemory = some 3 := rfl
  have ran : ((Call.create .object).run countingAllocator 3).run pairMemory =
      .ok (.pointer (some 3), pairMemory.place 3 { type := .object }) :=
    run_bind_ok _ _ _ _ _ (createWith_run _ asked)
  have allowed : (Call.create .object).Allowed pairMemory.texts pairForest [] := trivial
  exact .call .start pairMemory_consistent allowed (by decide) ran

section Reachable

variable {allocator : Allocator} {start memory : Memory} {borrowed : List Address}
  {forest : List Branch} {handed lost : Set Address}

theorem Reachable.consistent (reachable : Reachable allocator borrowed start memory handed lost)
    (begins : Consistent start borrowed forest) : ∃ forest, Consistent memory borrowed forest := by
  induction reachable with
  | start => exact ⟨forest, begins⟩
  | @call memory after _ _ forest call reply fuel _ consistent allowed enough ran _ =>
    obtain ⟨_, next, after, isRun, kept, -⟩ :=
      call.run_refines allocator consistent allowed enough
    obtain ⟨rfl, rfl⟩ := Prod.mk.inj (Except.ok.inj (isRun.symm.trans ran))
    exact ⟨next, kept⟩

/-- In every state that calls reach, every call that is allowed ends without a fault, with one of
its outcomes. -/
theorem reachable_safe (begins : Consistent start borrowed forest)
    (reachable : Reachable allocator borrowed start memory handed lost) :
    ∃ forest, Consistent memory borrowed forest ∧ ∀ (call : Call) (fuel : Nat),
      call.Allowed memory.texts forest borrowed → (link forest).footprint.length ≤ fuel →
        ∃ reply next after, (call.run allocator fuel).run memory = .ok (reply, after) ∧
          Consistent after borrowed next ∧
            call.Outcome (memory.holding forest) reply (after.holding next) := by
  obtain ⟨forest, consistent⟩ := reachable.consistent begins
  exact ⟨forest, consistent, fun call fuel allowed enough =>
    call.run_refines allocator consistent allowed enough⟩

theorem reachable_safe_pair : ∃ forest,
    Consistent (pairMemory.place 3 { type := .object }) [] forest ∧
      ∀ (call : Call) (fuel : Nat),
        call.Allowed (pairMemory.place 3 { type := .object }).texts forest [] →
          (link forest).footprint.length ≤ fuel → ∃ reply next after,
            (call.run countingAllocator fuel).run (pairMemory.place 3 { type := .object }) =
              .ok (reply, after) ∧ Consistent after [] next ∧
            call.Outcome ((pairMemory.place 3 { type := .object }).holding forest) reply
              (after.holding next) :=
  reachable_safe pairMemory_consistent pairMemory_reaches

/-- In every state that calls reach, the links of the items agree: a successor leads back, and the
first child of an item that owns its children has for its predecessor the last child, the one at the
end of the chain that starts with the first. -/
theorem reachable_linked (begins : Consistent start borrowed forest)
    (reachable : Reachable allocator borrowed start memory handed lost) {address : Address}
    {item : Cell Address Fields} (present : memory.items address = some item) :
    (∀ next, item.next = some next →
      ∃ other, memory.items next = some other ∧ other.prev = some address) ∧
    (item.value.isReference = false → ∀ child, item.value.child = some child →
      ∃ first last final, memory.items child = some first ∧ first.prev = some last ∧
        Leads memory.items child last ∧ memory.items last = some final ∧ final.next = none) := by
  obtain ⟨forest, ⟨shaped, -⟩⟩ := reachable.consistent begins
  have member := (shaped.allocated address).mp (present.trans_ne (Option.some_ne_none item))
  constructor
  · intro next isNext
    rcases mem_footprint_iff.mp member with isRoot | below
    · rw [addresses_entries, branches_link] at isRoot
      obtain ⟨branch, isBranch, rfl⟩ := List.mem_map.mp isRoot
      obtain rfl := Option.some.inj ((shaped.loose branch isBranch).symm.trans present)
      cases isNext
    · obtain ⟨entries, ring, isEntry⟩ := shaped.stored.ringed below
      exact Segment.next_prev ring isEntry present isNext
  · intro owner child isChild
    obtain ⟨fields, children, has⟩ := exists_has member
    obtain ⟨⟨next, prev, cell⟩, owns, ring, -⟩ := shaped.holds has
    obtain rfl := Option.some.inj (cell.symm.trans present)
    rw [Owns, if_neg (Bool.eq_false_iff.mp owner)] at owns
    exact ring.first_prev ((first_eq_front children).symm.trans (owns.symm.trans isChild))

theorem reachable_linked_pair : ∃ first last final,
    (pairMemory.place 3 { type := .object }).items 1 = some first ∧ first.prev = some last ∧
      Leads (pairMemory.place 3 { type := .object }).items 1 last ∧
      (pairMemory.place 3 { type := .object }).items last = some final ∧ final.next = none :=
  (reachable_linked pairMemory_consistent pairMemory_reaches
    (rfl : (pairMemory.place 3 { type := .object }).items 0 =
      some ⟨none, none, { type := .array, child := some 1 }⟩)).2 rfl 1 rfl

/-! ### Nothing else is left -/

/-- The roots are the items without a predecessor. -/
theorem Consistent.mem_roots_iff (consistent : Consistent memory borrowed forest)
    (address : Address) : address ∈ roots forest ↔
      ∃ item, memory.items address = some item ∧ item.prev = none := by
  obtain ⟨loose, stored, -, allocated⟩ := consistent.shaped
  constructor
  · rintro member
    obtain ⟨branch, isBranch, rfl⟩ := List.mem_map.mp member
    exact ⟨_, loose branch isBranch, rfl⟩
  · rintro ⟨item, present, isLoose⟩
    rcases mem_footprint_iff.mp ((allocated address).mp (present.trans_ne (by simp))) with
      isEntry | below
    · rwa [addresses_entries, branches_link] at isEntry
    · obtain ⟨entries, ring, isEntry⟩ := stored.ringed below
      exact absurd isLoose (ring.prev_ne_none isEntry present)

theorem Consistent.nodup_roots (consistent : Consistent memory borrowed forest) :
    (roots forest).Nodup := by
  have sublist := addresses_entries_sublist (link forest)
  rw [addresses_entries, branches_link] at sublist
  exact sublist.nodup consistent.shaped.distinct

/-- Every root is one of the first, was handed to the caller, or was lost. Nothing is lost unless a
request was refused. -/
theorem Reachable.accounted (reachable : Reachable allocator borrowed start memory handed lost)
    (begins : Consistent start borrowed forest) : ∃ next, Consistent memory borrowed next ∧
      (∀ root ∈ roots next, root ∈ roots forest ∨ root ∈ handed ∨ root ∈ lost) ∧
      start.refusals ≤ memory.refusals ∧ (lost.Nonempty → start.refusals < memory.refusals) := by
  induction reachable with
  | start => exact ⟨forest, begins, fun _ => .inl, le_rfl, fun absent => absurd absent (by simp)⟩
  | @call memory after handed lost held call reply fuel _ consistent allowed enough ran
      inductionHypothesis =>
    obtain ⟨_, next, after, isRun, kept, outcome⟩ :=
      call.run_refines allocator consistent allowed enough
    obtain ⟨rfl, rfl⟩ := Prod.mk.inj (Except.ok.inj (isRun.symm.trans ran))
    obtain ⟨before, same, accounted, more, refused⟩ := inductionHypothesis
    have later : memory.refusals ≤ after.refusals := Call.refusals_le outcome
    have old : ∀ root ∈ roots held, root ∈ roots forest ∨ root ∈ handed ∨ root ∈ lost :=
      fun root member => accounted root
        ((same.mem_roots_iff root).mpr ((consistent.mem_roots_iff root).mp member))
    have came := Call.roots_of_outcome outcome allowed kept.shaped.distinct
    have fresh : ∀ root, memory.items root = none → root ∉ roots held := by
      intro root absent member
      obtain ⟨item, present, -⟩ := (consistent.mem_roots_iff root).mp member
      rw [absent] at present
      cases present
    refine ⟨next, kept, fun root member => ?_, more.trans later, fun someLost => ?_⟩
    · rcases came with handedOver | ⟨rfl, -, address, fields, placed⟩
      · rcases handedOver root member with isOld | rfl
        · exact (old root isOld).imp_right (Or.imp .inl .inl)
        · exact .inr (.inl (.inr rfl))
      · have isNext : next = ⟨address, fields, .null⟩ :: held := placed
        subst isNext
        rcases List.mem_cons.mp member with rfl | isOld
        · refine .inr (.inr (.inr ⟨rfl, ?_, (kept.mem_roots_iff _).mp member⟩))
          have outside := (List.nodup_cons.mp kept.shaped.distinct).1
          exact not_not.mp fun present => outside ((consistent.shaped.allocated _).mp present)
        · exact (old root isOld).imp_right (Or.imp .inl .inl)
    · obtain ⟨root, isOld | ⟨rfl, absent, isLoose⟩⟩ := someLost
      · exact (refused ⟨root, isOld⟩).trans_le later
      · refine more.trans_lt ?_
        rcases came with handedOver | ⟨-, refusedNow, -⟩
        · rcases handedOver root ((kept.mem_roots_iff root).mpr isLoose) with isOld | isReply
          · exact absurd isOld (fresh root absent)
          · cases isReply
        · exact refusedNow

/-- Deleting some roots of a forest leaves the others. -/
theorem deleteRoots_run {fuel : Nat} {gone : List Address}
    (consistent : Consistent memory borrowed forest) (distinct : gone.Nodup)
    (within : gone ⊆ roots forest) (enough : (link forest).footprint.length ≤ fuel) :
    ∃ after left,
      (gone.forM fun root => cJSONDelete fuel (some root)).run memory = .ok (⟨⟩, after) ∧
      Consistent after borrowed left ∧ ∀ root ∈ roots left, root ∈ roots forest ∧ root ∉ gone := by
  induction gone generalizing memory forest with
  | nil => exact ⟨memory, forest, rfl, consistent, fun root member => ⟨member, List.not_mem_nil⟩⟩
  | cons root rest inductionHypothesis =>
    obtain ⟨branch, member, rfl⟩ := List.mem_map.mp (within List.mem_cons_self)
    obtain ⟨before, behind, rfl⟩ := List.append_of_mem member
    have perm : (before ++ branch :: behind).Perm (branch :: (before ++ behind)) := List.perm_middle
    have ordered := consistent.perm perm
    have items : (link (before ++ branch :: behind)).footprint.Perm
        (link (branch :: (before ++ behind))).footprint := collect_link_perm _ perm
    have length := items.length_eq
    rw [footprint_cons branch (before ++ behind), List.length_append] at length
    obtain ⟨outside, distinctRest⟩ := List.nodup_cons.mp distinct
    have others : rest ⊆ roots (before ++ behind) := fun other isOther => by
      have among := (perm_roots perm).subset (within (List.mem_cons_of_mem _ isOther))
      exact (List.mem_cons.mp among).resolve_left (ne_of_mem_of_not_mem isOther outside)
    obtain ⟨after, left, ran, freed, remain⟩ :=
      inductionHypothesis ordered.erase distinctRest others (by omega)
    refine ⟨after, left, (run_bind_ok _ _ _ _ _ (ordered.cJSONDelete_run (by omega))).trans ran,
      freed, fun other isLeft => ?_⟩
    obtain ⟨isOther, notRest⟩ := remain other isLeft
    have notRoot := (List.nodup_cons.mp ordered.nodup_roots).1
    exact ⟨(perm_roots perm).symm.subset (List.mem_cons_of_mem _ isOther),
      List.not_mem_cons_of_ne_of_not_mem (ne_of_mem_of_not_mem isOther notRoot) notRest⟩

/-- In every state that calls reach, every item without a predecessor is one of the first, was
handed to the caller, or was lost, and nothing is lost unless a request was refused. Deleting those
that were not lost, in any order, leaves the lost ones with what they own, and the texts of the
caller. -/
theorem reachable_frees (begins : Consistent start borrowed forest)
    (reachable : Reachable allocator borrowed start memory handed lost) :
    (∀ address item, memory.items address = some item → item.prev = none →
      (∃ first, start.items address = some first ∧ first.prev = none) ∨ address ∈ handed ∨
        address ∈ lost) ∧
    (lost.Nonempty → start.refusals < memory.refusals) ∧
    ∃ bound, ∀ fuel ≥ bound, ∀ held : List Address, held.Nodup →
      (∀ address, address ∈ held ↔
        (∃ item, memory.items address = some item ∧ item.prev = none) ∧ address ∉ lost) →
        ∃ after left, (held.forM fun root => cJSONDelete fuel (some root)).run memory =
            .ok (⟨⟩, after) ∧
          Consistent after borrowed left ∧ (∀ branch ∈ left, branch.address ∈ lost) ∧
          (lost = ∅ → ∀ address, after.items address = none ∧
            (after.texts address ≠ none ↔ address ∈ borrowed)) := by
  obtain ⟨next, consistent, accounted, -, refused⟩ := reachable.accounted begins
  refine ⟨fun address item present isLoose => ?_, refused, (link next).footprint.length,
    fun fuel enough held nodup isHeld => ?_⟩
  · refine (accounted address ((consistent.mem_roots_iff address).mpr
      ⟨item, present, isLoose⟩)).imp_left fun isFirst => ?_
    exact (begins.mem_roots_iff address).mp isFirst
  · have within : held ⊆ roots next := fun address member =>
      (consistent.mem_roots_iff address).mpr ((isHeld address).mp member).1
    obtain ⟨after, left, ran, freed, remain⟩ := deleteRoots_run consistent nodup within enough
    have stays : ∀ branch ∈ left, branch.address ∈ lost := fun branch member => by
      obtain ⟨isRoot, notHeld⟩ := remain branch.address (List.mem_map_of_mem member)
      by_contra notLost
      exact notHeld ((isHeld _).mpr ⟨(consistent.mem_roots_iff _).mp isRoot, notLost⟩)
    refine ⟨after, left, ran, freed, stays, fun noneLost address => ?_⟩
    obtain rfl : left = [] := List.eq_nil_iff_forall_not_mem.mpr fun branch member => by
      simpa [noneLost] using stays branch member
    refine ⟨?_, freed.owned.allocated address⟩
    exact not_not.mp (mt (freed.shaped.allocated address).mp List.not_mem_nil)

/-- An allocator that gives out the number of the request for an item, and no texts. -/
def textlessAllocator : Allocator where
  item := countingAllocator.item
  text _ := none
  itemFresh := countingAllocator.itemFresh
  textFresh _ _ given := nomatch given

/-- The array, an empty object beside it, and a text of the caller. -/
def namedMemory : Memory :=
  (pairMemory.place 3 { type := .object }).lend 4 (.literal "pair")

theorem namedMemory_consistent :
    Consistent namedMemory [4] (⟨3, { type := .object }, .null⟩ :: pairForest) := by
  have placed : Consistent (pairMemory.place 3 { type := .object }) []
      (⟨3, { type := .object }, .null⟩ :: pairForest) :=
    pairMemory_consistent.place rfl rfl rfl rfl
  exact placed.lend rfl _

/-- What is left when a reference to the array could not be named. -/
def orphanMemory : Memory :=
  (namedMemory.place 5 (referenceTo { type := .array, child := some 1 })).refused

theorem orphanMemory_reached : Reachable textlessAllocator [4] namedMemory orphanMemory
    (∅ ∪ (Reply.flag false).handed)
    (∅ ∪ (Reply.flag false).lost namedMemory orphanMemory) := by
  have opens : Opens (⟨3, { type := .object }, .null⟩ :: pairForest) (some 3) :=
    ⟨3, { type := .object }, [], rfl, .inl ⟨rfl, rfl, rfl⟩, rfl⟩
  have live : Live (⟨3, { type := .object }, .null⟩ :: pairForest) [4] (some 4) :=
    ⟨4, rfl, List.mem_append_right _ List.mem_cons_self⟩
  have reaches : Reaches (⟨3, { type := .object }, .null⟩ :: pairForest) (some 0) :=
    ⟨0, _, _, rfl, .inr (.inr (.inl ⟨rfl, rfl, rfl⟩))⟩
  have present : namedMemory.items 0 = some ⟨none, none, { type := .array, child := some 1 }⟩ := rfl
  have asked : textlessAllocator.item namedMemory = some 5 := rfl
  have allowed : (Call.addItemReferenceToObject (some 3) (some 4) (some 0)).Allowed
      namedMemory.texts (⟨3, { type := .object }, .null⟩ :: pairForest) [4] :=
    .inr (.inr (.inr ⟨opens, live, reaches⟩))
  have ran : ((Call.addItemReferenceToObject (some 3) (some 4) (some 0)).run textlessAllocator
      4).run namedMemory = .ok (.flag false, orphanMemory) := by
    refine run_bind_ok _ _ _ _ _
      ((run_bind_ok _ _ _ _ _ (createReference_run present asked)).trans ?_)
    exact run_bind_ok _ _ _ _ _ (cJSONStrdup_refused rfl rfl)
  exact .call .start namedMemory_consistent allowed (by decide) ran

theorem reachable_frees_orphan : ∃ fuel after left,
    ([0, 3].forM fun root => cJSONDelete fuel (some root)).run orphanMemory = .ok (⟨⟩, after) ∧
      Consistent after [4] left ∧ ∀ branch ∈ left, branch.address = 5 := by
  have isLost : ∀ address, address ∈ ∅ ∪ (Reply.flag false).lost namedMemory orphanMemory ↔
      address = 5 := by
    intro address
    constructor
    · rintro (absent | ⟨-, absent, item, present, -⟩)
      · cases absent
      · by_contra other
        have same : orphanMemory.items address = namedMemory.items address := if_neg other
        rw [same, absent] at present
        cases present
    · rintro rfl
      exact .inr ⟨rfl, rfl, _, rfl, rfl⟩
  have isHeld : ∀ address, address ∈ [0, 3] ↔
      (∃ item, orphanMemory.items address = some item ∧ item.prev = none) ∧
        address ∉ ∅ ∪ (Reply.flag false).lost namedMemory orphanMemory := by
    intro address
    rw [isLost]
    constructor
    · intro member
      rcases List.mem_cons.mp member with rfl | member
      · exact ⟨⟨_, rfl, rfl⟩, by decide⟩
      · obtain rfl := List.mem_singleton.mp member
        exact ⟨⟨_, rfl, rfl⟩, by decide⟩
    · rintro ⟨⟨item, present, isLoose⟩, other⟩
      have same : orphanMemory.items address = namedMemory.items address := if_neg other
      have isRoot : address ∈ [3, 0] :=
        (namedMemory_consistent.mem_roots_iff address).mpr ⟨item, same ▸ present, isLoose⟩
      exact (List.Perm.swap 3 0 []).mem_iff.mpr isRoot
  obtain ⟨-, -, bound, frees⟩ := reachable_frees namedMemory_consistent orphanMemory_reached
  obtain ⟨after, left, ran, freed, stays, -⟩ := frees bound le_rfl [0, 3] (by decide) isHeld
  exact ⟨bound, after, left, ran, freed, fun branch member => (isLost _).mp (stays branch member)⟩

end Reachable

end DiffServSimulation
