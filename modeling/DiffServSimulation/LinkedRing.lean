/-
This file is a small library for doubly linked lists in a heap whose first cell
points back at the last one. It names nothing of the simulator.

A heap maps addresses to cells, and a cell has two links and a value. `Segment`
describes cells in a row between a predecessor and a successor, and `Ringed` a whole
list, whose first cell has the last one for its predecessor. The rules say what
appending, inserting, detaching and replacing a cell does to a ring, each of them
as the few assignments to links that do it, and that no other cell is changed.
-/

import Mathlib.Data.List.Nodup
import Mathlib.Logic.Relation
import Mathlib.Tactic.Common

namespace LinkedRing

variable {Address Value : Type}

/-! ### Heaps -/

structure Cell (Address Value : Type) where
  next : Option Address
  prev : Option Address
  value : Value

abbrev Heap (Address Value : Type) := Address → Option (Cell Address Value)

/-- The address of the first entry, or the one behind if there are none. -/
def front : List (Address × Value) → Option Address → Option Address
  | [], behind => behind
  | (address, _) :: _, _ => some address

/-- The address of the last entry, or the one before if there are none. -/
def back (before : Option Address) : List (Address × Value) → Option Address
  | [] => before
  | (address, _) :: rest => back (some address) rest

/-- The addresses of some entries. -/
def addresses (entries : List (Address × Value)) : List Address := entries.map Prod.fst

/-- Cells in a row, between a predecessor and a successor. -/
def Segment (heap : Heap Address Value) :
    Option Address → List (Address × Value) → Option Address → Prop
  | _, [], _ => True
  | before, (address, value) :: rest, behind =>
    heap address = some ⟨front rest behind, before, value⟩ ∧
      Segment heap (some address) rest behind

/-- Cells in a row, of which the first has the last for its predecessor. -/
def Ringed (heap : Heap Address Value) (entries : List (Address × Value)) : Prop :=
  Segment heap (back none entries) entries none

/-- From one cell to another along the successors. -/
def Leads (heap : Heap Address Value) : Address → Address → Prop :=
  Relation.ReflTransGen fun address next => ∃ cell, heap address = some cell ∧ cell.next = some next

/-- Two heaps have the same cells but for some addresses. -/
def AgreeOutside (touched : List Address) (heap other : Heap Address Value) : Prop :=
  ∀ address, address ∉ touched → other address = heap address

theorem AgreeOutside.refl (touched : List Address) (heap : Heap Address Value) :
    AgreeOutside touched heap heap := fun _ _ => rfl

theorem AgreeOutside.mono {touched more : List Address} {heap other : Heap Address Value}
    (agree : AgreeOutside touched heap other) (subset : touched ⊆ more) :
    AgreeOutside more heap other := fun address outside =>
  agree address fun member => outside (subset member)

/-! ### Segments -/

section Segments

variable {heap other : Heap Address Value} {before behind : Option Address}
  {first second entries : List (Address × Value)}

theorem front_append (first second : List (Address × Value)) (behind : Option Address) :
    front (first ++ second) behind = front first (front second behind) := by
  cases first <;> rfl

theorem back_append (before : Option Address) (first second : List (Address × Value)) :
    back before (first ++ second) = back (back before first) second := by
  induction first generalizing before with
  | nil => rfl
  | cons entry rest inductionHypothesis => exact inductionHypothesis (some entry.1)

theorem addresses_append (first second : List (Address × Value)) :
    addresses (first ++ second) = addresses first ++ addresses second := List.map_append

theorem back_singleton (before : Option Address) (entries : List (Address × Value))
    (address : Address) (value : Value) :
    back before (entries ++ [(address, value)]) = some address := by
  rw [back_append]
  rfl

theorem exists_cons_of_front {first : Address} (isFirst : front entries none = some first) :
    ∃ value rest, entries = (first, value) :: rest := by
  cases entries with
  | nil => cases isFirst
  | cons entry rest =>
    obtain rfl := Option.some.inj isFirst
    exact ⟨entry.2, rest, rfl⟩

theorem exists_append_of_back {last : Address} (isLast : back none entries = some last) :
    ∃ rest value, entries = rest ++ [(last, value)] := by
  rcases List.eq_nil_or_concat' entries with rfl | ⟨rest, entry, rfl⟩
  · cases isLast
  · rw [back_singleton] at isLast
    obtain rfl := Option.some.inj isLast
    exact ⟨rest, entry.2, rfl⟩

theorem exists_back_cons (before : Option Address) (entry : Address × Value)
    (rest : List (Address × Value)) : ∃ last, back before (entry :: rest) = some last := by
  induction rest generalizing before entry with
  | nil => exact ⟨entry.1, rfl⟩
  | cons next rest inductionHypothesis => exact inductionHypothesis (some entry.1) next

theorem segment_append :
    Segment heap before (first ++ second) behind ↔
      Segment heap before first (front second behind) ∧
        Segment heap (back before first) second behind := by
  induction first generalizing before with
  | nil => exact (and_iff_right trivial).symm
  | cons entry rest inductionHypothesis =>
    rw [List.cons_append, Segment, Segment, front_append, inductionHypothesis, and_assoc]
    rfl

/-- A segment only depends on its own cells. -/
theorem Segment.congr (segment : Segment heap before entries behind)
    (same : ∀ address ∈ addresses entries, other address = heap address) :
    Segment other before entries behind := by
  induction entries generalizing before with
  | nil => trivial
  | cons entry rest inductionHypothesis =>
    obtain ⟨here, there⟩ := segment
    exact ⟨(same _ List.mem_cons_self).trans here,
      inductionHypothesis there fun address member => same address (List.mem_cons_of_mem _ member)⟩

/-- The cell behind another leads back to it. -/
theorem Segment.next_prev (segment : Segment heap before entries none) {address next : Address}
    {cell : Cell Address Value} (member : address ∈ addresses entries)
    (present : heap address = some cell) (isNext : cell.next = some next) :
    ∃ other, heap next = some other ∧ other.prev = some address := by
  induction entries generalizing before with
  | nil => cases member
  | cons entry rest inductionHypothesis =>
    obtain ⟨here, there⟩ := segment
    rcases List.mem_cons.mp member with rfl | behind
    · obtain rfl := Option.some.inj (here.symm.trans present)
      obtain ⟨value, others, rfl⟩ := exists_cons_of_front isNext
      exact ⟨_, there.1, rfl⟩
    · exact inductionHypothesis there behind

/-- The cells of a segment keep their links under a change of their values. -/
theorem Segment.revalue (segment : Segment heap before entries behind)
    (change : Address → Value → Value) (same : ∀ address ∈ addresses entries, other address =
      (heap address).map fun cell => { cell with value := change address cell.value }) :
    Segment other before (entries.map fun entry => (entry.1, change entry.1 entry.2)) behind := by
  induction entries generalizing before with
  | nil => trivial
  | cons entry rest inductionHypothesis =>
    obtain ⟨here, there⟩ := segment
    refine ⟨?_, inductionHypothesis there fun address member =>
      same address (List.mem_cons_of_mem _ member)⟩
    rw [same _ List.mem_cons_self, here, Option.map_some]
    cases rest <;> rfl

theorem back_map (before : Option Address) (change : Address → Value → Value)
    (entries : List (Address × Value)) :
    back before (entries.map fun entry => (entry.1, change entry.1 entry.2)) =
      back before entries := by
  induction entries generalizing before with
  | nil => rfl
  | cons entry rest inductionHypothesis => exact inductionHypothesis (some entry.1)

theorem Ringed.revalue (ring : Ringed heap entries) (change : Address → Value → Value)
    (same : ∀ address ∈ addresses entries, other address =
      (heap address).map fun cell => { cell with value := change address cell.value }) :
    Ringed other (entries.map fun entry => (entry.1, change entry.1 entry.2)) := by
  rw [Ringed, back_map]
  exact Segment.revalue ring change same

/-- Every entry of a segment has a cell with its value. -/
theorem Segment.present (segment : Segment heap before entries behind) {address : Address}
    {value : Value} (member : (address, value) ∈ entries) :
    ∃ next prev, heap address = some ⟨next, prev, value⟩ := by
  induction entries generalizing before with
  | nil => cases member
  | cons entry rest inductionHypothesis =>
    obtain ⟨here, there⟩ := segment
    rcases List.mem_cons.mp member with rfl | below
    · exact ⟨_, _, here⟩
    · exact inductionHypothesis there below

/-- A ring taken apart around one of its cells. -/
theorem Ringed.split {address : Address} {value : Value}
    (ring : Ringed heap (first ++ (address, value) :: second)) :
    Segment heap (back (some address) second) first (some address) ∧
      heap address = some ⟨front second none, back (back (some address) second) first, value⟩ ∧
      Segment heap (some address) second none := by
  rw [Ringed, back_append, back] at ring
  exact segment_append.mp ring

/-- Every cell of a ring has a predecessor. -/
theorem Ringed.prev_ne_none (ring : Ringed heap entries) {address : Address}
    {cell : Cell Address Value} (member : address ∈ addresses entries)
    (present : heap address = some cell) : cell.prev ≠ none := by
  obtain ⟨⟨_, value⟩, isEntry, rfl⟩ := List.mem_map.mp member
  obtain ⟨first, second, rfl⟩ := List.append_of_mem isEntry
  obtain rfl := Option.some.inj (ring.split.2.1.symm.trans present)
  rcases List.eq_nil_or_concat' first with rfl | ⟨rest, last, rfl⟩
  · cases second with
    | nil => exact Option.some_ne_none _
    | cons next others =>
      obtain ⟨last, isLast⟩ := exists_back_cons none next others
      exact isLast.trans_ne (Option.some_ne_none last)
  · exact (back_singleton _ rest last.1 last.2).trans_ne (Option.some_ne_none _)

/-- The first cell of a segment leads to the last. -/
theorem Segment.leads (segment : Segment heap before entries behind) {first last : Address}
    (isFirst : front entries none = some first) (isLast : back none entries = some last) :
    Leads heap first last := by
  induction entries generalizing before first with
  | nil => cases isFirst
  | cons entry rest inductionHypothesis =>
    obtain rfl := Option.some.inj isFirst
    cases rest with
    | nil =>
      obtain rfl := Option.some.inj isLast
      exact .refl
    | cons next others =>
      exact .head ⟨_, segment.1, rfl⟩ (inductionHypothesis segment.2 rfl isLast)

/-- The predecessor of the first cell of a ring is its last cell. -/
theorem Ringed.first_prev (ring : Ringed heap entries) {first : Address}
    (isFirst : front entries none = some first) :
    ∃ cell last final, heap first = some cell ∧ cell.prev = some last ∧ Leads heap first last ∧
      heap last = some final ∧ final.next = none := by
  obtain ⟨value, rest, rfl⟩ := exists_cons_of_front isFirst
  obtain ⟨last, isLast⟩ := exists_back_cons none (first, value) rest
  obtain ⟨others, lastValue, split⟩ := exists_append_of_back isLast
  have final := ring
  rw [split] at final
  exact ⟨_, last, _, ring.1, isLast, Segment.leads ring isFirst isLast, final.split.2.1, rfl⟩

theorem Ringed.congr (ring : Ringed heap entries)
    (same : ∀ address ∈ addresses entries, other address = heap address) : Ringed other entries :=
  Segment.congr ring same

end Segments

/-! ### Assignments -/

variable [DecidableEq Address]

namespace Heap

/-- Change the cell at an address. -/
def alter (heap : Heap Address Value) (address : Address)
    (change : Cell Address Value → Cell Address Value) : Heap Address Value :=
  fun other => if other = address then (heap other).map change else heap other

def setNext (heap : Heap Address Value) (address : Address) (next : Option Address) :
    Heap Address Value := heap.alter address fun cell => { cell with next := next }

def setPrev (heap : Heap Address Value) (address : Address) (prev : Option Address) :
    Heap Address Value := heap.alter address fun cell => { cell with prev := prev }

theorem alter_of_ne (heap : Heap Address Value) {address other : Address}
    (change : Cell Address Value → Cell Address Value) (ne : other ≠ address) :
    heap.alter address change other = heap other := if_neg ne

theorem alter_self (heap : Heap Address Value) (address : Address)
    (change : Cell Address Value → Cell Address Value) :
    heap.alter address change address = (heap address).map change := if_pos rfl

theorem alter_of_eq_some {heap : Heap Address Value} {address : Address} {cell : Cell Address Value}
    (change : Cell Address Value → Cell Address Value) (present : heap address = some cell) :
    heap.alter address change address = some (change cell) := by
  rw [alter_self, present, Option.map_some]

theorem alter_ne_none {heap : Heap Address Value} {other : Address} (address : Address)
    (change : Cell Address Value → Cell Address Value) (present : heap other ≠ none) :
    heap.alter address change other ≠ none := by
  unfold alter
  split_ifs
  · exact fun absent => present (Option.map_eq_none_iff.mp absent)
  · exact present

end Heap

section Assignments

variable {heap other : Heap Address Value} {before behind : Option Address}
  {entries : List (Address × Value)} {address : Address} {value : Value} {touched : List Address}

theorem AgreeOutside.alter (agree : AgreeOutside touched heap other) (member : address ∈ touched)
    (change : Cell Address Value → Cell Address Value) :
    AgreeOutside touched heap (other.alter address change) := fun _ outside =>
  (other.alter_of_ne change (ne_of_mem_of_not_mem member outside).symm).trans (agree _ outside)

theorem AgreeOutside.setNext (agree : AgreeOutside touched heap other) (member : address ∈ touched)
    (next : Option Address) : AgreeOutside touched heap (other.setNext address next) :=
  agree.alter member _

theorem AgreeOutside.setPrev (agree : AgreeOutside touched heap other) (member : address ∈ touched)
    (prev : Option Address) : AgreeOutside touched heap (other.setPrev address prev) :=
  agree.alter member _

/-- Changing a cell outside a segment. -/
theorem Segment.alter (segment : Segment heap before entries behind)
    (change : Cell Address Value → Cell Address Value) (outside : address ∉ addresses entries) :
    Segment (heap.alter address change) before entries behind :=
  segment.congr fun _ member => heap.alter_of_ne change (ne_of_mem_of_not_mem member outside)

/-- Giving a segment another predecessor. -/
theorem Segment.setPrev (segment : Segment heap before ((address, value) :: entries) behind)
    (prev : Option Address) (outside : address ∉ addresses entries) :
    Segment (heap.setPrev address prev) prev ((address, value) :: entries) behind :=
  ⟨Heap.alter_of_eq_some _ segment.1, segment.2.alter _ outside⟩

/-- Giving a segment another successor. -/
theorem Segment.setNext (segment : Segment heap before (entries ++ [(address, value)]) behind)
    (next : Option Address) (outside : address ∉ addresses entries) :
    Segment (heap.setNext address next) before (entries ++ [(address, value)]) next := by
  obtain ⟨here, last, -⟩ := segment_append.mp segment
  exact segment_append.mpr ⟨here.alter _ outside, Heap.alter_of_eq_some _ last, trivial⟩

end Assignments

/-! ### Rings -/

section Rings

variable {heap : Heap Address Value} {entries before behind : List (Address × Value)}
  {address first last fresh : Address} {value other : Value} {prev : Option Address}

omit [DecidableEq Address] in
theorem not_mem_of_nodup_cons {entry : Address × Value}
    (distinct : (addresses (entry :: entries)).Nodup) : entry.1 ∉ addresses entries :=
  (List.nodup_cons.mp distinct).1

omit [DecidableEq Address] in
theorem not_mem_of_nodup_append_singleton
    (distinct : (addresses (entries ++ [(address, value)])).Nodup) :
    address ∉ addresses entries := by
  rw [addresses_append] at distinct
  exact fun member => List.disjoint_of_nodup_append distinct member List.mem_cons_self

/-- A segment that ends in the predecessor of its first cell is a ring. -/
theorem ringed_of_segment {start : Option Address} (segment : Segment heap start entries none)
    (isFirst : front entries none = some first) (isLast : back none entries = some last)
    (distinct : (addresses entries).Nodup) :
    Ringed (heap.setPrev first (some last)) entries := by
  obtain ⟨value, rest, rfl⟩ := exists_cons_of_front isFirst
  rw [Ringed, isLast]
  exact segment.setPrev _ (not_mem_of_nodup_cons distinct)

omit [DecidableEq Address] in
theorem back_of_front {isBefore : Option Address} (isFirst : front entries none = some first) :
    back isBefore entries = back none entries := by
  obtain ⟨value, rest, rfl⟩ := exists_cons_of_front isFirst
  rfl

omit [DecidableEq Address] in
theorem back_of_back {isBefore : Option Address} (isLast : back none entries = some last) :
    back isBefore entries = some last := by
  obtain ⟨rest, value, rfl⟩ := exists_append_of_back isLast
  rw [back_singleton]

omit [DecidableEq Address] in
theorem front_of_front {isBehind : Option Address} (isFirst : front entries none = some first) :
    front entries isBehind = some first := by
  obtain ⟨value, rest, rfl⟩ := exists_cons_of_front isFirst
  exact isFirst

omit [DecidableEq Address] in
theorem mem_of_back (isLast : back none entries = some last) : last ∈ addresses entries := by
  obtain ⟨rest, value, rfl⟩ := exists_append_of_back isLast
  simp [addresses]

omit [DecidableEq Address] in
theorem mem_of_front (isFirst : front entries none = some first) : first ∈ addresses entries := by
  obtain ⟨value, rest, rfl⟩ := exists_cons_of_front isFirst
  simp [addresses]

/-- Ending a segment in another successor. -/
theorem Segment.setNext_of_back {start isBehind : Option Address}
    (segment : Segment heap start entries isBehind) (isLast : back none entries = some last)
    (distinct : (addresses entries).Nodup) (next : Option Address) :
    Segment (heap.setNext last next) start entries next := by
  obtain ⟨rest, value, rfl⟩ := exists_append_of_back isLast
  exact segment.setNext next (not_mem_of_nodup_append_singleton distinct)

/-- Beginning a segment in another predecessor. -/
theorem Segment.setPrev_of_front {start isBehind : Option Address}
    (segment : Segment heap start entries isBehind) (isFirst : front entries none = some first)
    (distinct : (addresses entries).Nodup) (isPrev : Option Address) :
    Segment (heap.setPrev first isPrev) isPrev entries isBehind := by
  obtain ⟨value, rest, rfl⟩ := exists_cons_of_front isFirst
  exact segment.setPrev isPrev (not_mem_of_nodup_cons distinct)

/-- Both links of a cell. -/
theorem setNext_setPrev_self {next isNext isPrev : Option Address}
    (loose : heap fresh = some ⟨next, prev, value⟩) :
    ((heap.setNext fresh isNext).setPrev fresh isPrev) fresh = some ⟨isNext, isPrev, value⟩ := by
  rw [Heap.setPrev, Heap.alter_self, Heap.setNext, Heap.alter_of_eq_some _ loose]
  rfl

/-- Appending a cell with nothing behind it. -/
theorem Ringed.append (ring : Ringed heap entries) (isFirst : front entries none = some first)
    (isLast : back none entries = some last) (loose : heap fresh = some ⟨none, prev, value⟩)
    (distinct : (addresses (entries ++ [(fresh, value)])).Nodup) :
    Ringed (((heap.setNext last (some fresh)).setPrev fresh (some last)).setPrev first (some fresh))
      (entries ++ [(fresh, value)]) := by
  have outside := not_mem_of_nodup_append_singleton distinct
  have apart : fresh ≠ last := (ne_of_mem_of_not_mem (mem_of_back isLast) outside).symm
  have present : (heap.setNext last (some fresh)) fresh = some ⟨none, prev, value⟩ :=
    (heap.alter_of_ne _ apart).trans loose
  have distinct' := distinct
  rw [addresses_append] at distinct'
  rw [Ringed, isLast] at ring
  have old := (ring.setNext_of_back isLast (List.nodup_append.mp distinct').1 (some fresh)).alter
    (fun cell => { cell with prev := some last }) outside
  have new : ((heap.setNext last (some fresh)).setPrev fresh (some last)) fresh =
      some ⟨none, back (some last) entries, value⟩ := by
    rw [back_of_front isFirst, isLast]
    exact Heap.alter_of_eq_some _ present
  exact ringed_of_segment (segment_append.mpr ⟨old, new, trivial⟩)
    (by rw [front_append, front_of_front isFirst]) (back_singleton none entries fresh value)
    distinct

/-- A cell in front of a segment whose last cell is known, which makes it a ring. -/
theorem ringed_cons {start next : Option Address} (segment : Segment heap start behind none)
    (isFirst : front behind none = some first) (isLast : back none behind = some last)
    (present : heap fresh = some ⟨next, prev, value⟩)
    (distinct : (addresses ((fresh, value) :: behind)).Nodup) :
    Ringed
      (((heap.setNext fresh (some first)).setPrev fresh (some last)).setPrev first (some fresh))
      ((fresh, value) :: behind) := by
  have outside := not_mem_of_nodup_cons distinct
  have apart : fresh ≠ first := (ne_of_mem_of_not_mem (mem_of_front isFirst) outside).symm
  rw [Ringed, back, back_of_front isFirst, isLast]
  refine ⟨?_, Segment.setPrev_of_front ((segment.alter _ outside).alter _ outside) isFirst
    (List.nodup_cons.mp distinct).2 _⟩
  rw [front_of_front isFirst]
  exact (Heap.alter_of_ne _ _ apart).trans (setNext_setPrev_self present)

/-- A cell behind a segment, whose first cell then points back at it. -/
theorem ringed_snoc {start isBehind next : Option Address}
    (segment : Segment heap start before isBehind)
    (isFirst : front before none = some first) (isLast : back none before = some last)
    (present : heap fresh = some ⟨next, prev, value⟩)
    (distinct : (addresses (before ++ [(fresh, value)])).Nodup) :
    Ringed
      ((((heap.setNext fresh none).setPrev fresh (some last)).setNext last (some fresh)).setPrev
        first (some fresh)) (before ++ [(fresh, value)]) := by
  have outside := not_mem_of_nodup_append_singleton distinct
  have apart : fresh ≠ last := (ne_of_mem_of_not_mem (mem_of_back isLast) outside).symm
  have distinct' := distinct
  rw [addresses_append] at distinct'
  have linked := (segment.alter (fun cell => { cell with next := none }) outside).alter
    (fun cell => { cell with prev := some last }) outside
  have old := linked.setNext_of_back isLast (List.nodup_append.mp distinct').1 (some fresh)
  have new : (((heap.setNext fresh none).setPrev fresh (some last)).setNext last (some fresh))
      fresh = some ⟨none, back start before, value⟩ := by
    rw [back_of_front isFirst, isLast]
    exact (Heap.alter_of_ne _ _ apart).trans (setNext_setPrev_self present)
  exact ringed_of_segment (segment_append.mpr ⟨old, new, trivial⟩)
    (by rw [front_append, front_of_front isFirst]) (back_singleton none before fresh value) distinct

/-- Two segments linked together. -/
theorem ringed_join {isBefore isBehind : Option Address}
    (left : Segment heap (back none behind) before isBehind)
    (right : Segment heap isBefore behind none) (isLast : back none before = some last)
    (isFirst : front behind none = some first) (distinct : (addresses (before ++ behind)).Nodup) :
    Ringed ((heap.setNext last (some first)).setPrev first (some last)) (before ++ behind) := by
  rw [addresses_append] at distinct
  have apart := List.disjoint_of_nodup_append distinct
  rw [Ringed, back_append, isLast, back_of_front isFirst]
  refine segment_append.mpr ⟨?_, ?_⟩
  · rw [isFirst]
    exact (left.setNext_of_back isLast (List.nodup_append.mp distinct).1 _).alter _
      fun member => apart member (mem_of_front isFirst)
  · obtain ⟨value, rest, rfl⟩ := exists_append_of_back isLast
    rw [back_singleton]
    exact (right.alter _ fun member => apart (mem_of_back isLast) member).setPrev_of_front isFirst
      (List.nodup_append.mp distinct).2.1 _

/-- A cell between two segments. -/
theorem ringed_between {isBefore isBehind next : Option Address}
    (left : Segment heap (back none behind) before isBehind)
    (right : Segment heap isBefore behind none) (isLast : back none before = some last)
    (isFirst : front behind none = some first) (present : heap fresh = some ⟨next, prev, value⟩)
    (distinct : (addresses (before ++ (fresh, value) :: behind)).Nodup) :
    Ringed ((((heap.setNext fresh (some first)).setPrev fresh (some last)).setPrev first
      (some fresh)).setNext last (some fresh)) (before ++ (fresh, value) :: behind) := by
  rw [addresses_append] at distinct
  have apart := List.disjoint_of_nodup_append distinct
  obtain ⟨distinctLeft, distinctRight, -⟩ := List.nodup_append.mp distinct
  have outside := not_mem_of_nodup_cons distinctRight
  have outside' : fresh ∉ addresses before := fun member => apart member List.mem_cons_self
  have apartFirst : fresh ≠ first := (ne_of_mem_of_not_mem (mem_of_front isFirst) outside).symm
  have apartLast : fresh ≠ last := (ne_of_mem_of_not_mem (mem_of_back isLast) outside').symm
  rw [Ringed, back_append, isLast, back, back_of_front isFirst]
  refine segment_append.mpr ⟨?_, ?_, ?_⟩
  · refine Segment.setNext_of_back (((left.alter _ outside').alter _ outside').alter _ ?_) isLast
      distinctLeft _
    exact fun member => apart member (List.mem_cons_of_mem _ (mem_of_front isFirst))
  · obtain ⟨other, rest, rfl⟩ := exists_append_of_back isLast
    rw [back_singleton, front_of_front isFirst]
    exact (Heap.alter_of_ne _ _ apartLast).trans
      ((Heap.alter_of_ne _ _ apartFirst).trans (setNext_setPrev_self present))
  · refine Segment.alter (Segment.setPrev_of_front ((right.alter _ outside).alter _ outside)
      isFirst (List.nodup_cons.mp distinctRight).2 _) _ ?_
    exact fun member => apart (mem_of_back isLast) (List.mem_cons_of_mem _ member)

/-- A segment that is closed behind its last cell. -/
theorem ringed_cut {start isBehind : Option Address} (segment : Segment heap start before isBehind)
    (isFirst : front before none = some first) (isLast : back none before = some last)
    (distinct : (addresses before).Nodup) :
    Ringed ((heap.setNext last none).setPrev first (some last)) before :=
  ringed_of_segment (segment.setNext_of_back isLast distinct none) isFirst isLast distinct

end Rings

end LinkedRing
