/-
This file says how the vendored JSON library builds a new root with a list of
children, and that it can give the root up at any point.

While the list is built its first item has no predecessor, so the children form a
chain and no ring; the ring is closed at the end. Everything that was allocated
before stays as it was, and what was allocated on the way is what the root owns.
Deleting an unfinished root therefore restores the memory.
-/

import DiffServSimulation.CjsonFilling

namespace DiffServSimulation

open Faulting LinkedRing Layout Memory

/-- A memory with a new root, and with nothing else changed. The first child of the root has the
predecessor `start`. -/
structure Grown (before after : Memory) (root : Branch) (start : Option Address) : Prop where
  fresh : ∀ address ∈ (link [root]).footprint, before.items address = none
  freshTexts : ∀ text ∈ (link [root]).texts, before.texts text = none
  distinct : (link [root]).footprint.Nodup
  distinctTexts : (link [root]).texts.Nodup
  items : ∀ address ∉ (link [root]).footprint, after.items address = before.items address
  texts : ∀ text ∉ (link [root]).texts, after.texts text = before.texts text
  live : ∀ text ∈ (link [root]).texts, after.texts text ≠ none
  loose : after.items root.address = some ⟨none, none, root.fields⟩
  owns : Owns root.fields root.child
  chained : Segment after.items start root.child.entries none
  stored : root.child.Stored after.items

/-- Two memories with the same blocks. -/
def SameBlocks (before after : Memory) : Prop :=
  after.items = before.items ∧ after.texts = before.texts

/-! ### Roots that have grown -/

section Growth

variable {before middle after : Memory} {root child : Branch} {start : Option Address} {fuel : Nat}

theorem footprint_singleton (root : Branch) :
    (link [root]).footprint = root.address :: root.child.footprint := by
  show root.address :: (root.child.footprint ++ []) = _
  rw [List.append_nil]

theorem texts_singleton (root : Branch) :
    (link [root]).texts = ownedTexts root.fields ++ root.child.texts := by
  show ownedTexts root.fields ++ root.child.texts ++ [] = _
  rw [List.append_nil]

theorem Grown.same (grown : Grown before middle root start) (same : SameBlocks middle after) :
    Grown before after root start := by
  obtain ⟨fresh, freshTexts, distinct, distinctTexts, items, texts, live, loose, owns, chained,
    stored⟩ := grown
  obtain ⟨sameItems, sameTexts⟩ := same
  rw [← sameItems] at items loose chained stored
  rw [← sameTexts] at texts live
  exact ⟨fresh, freshTexts, distinct, distinctTexts, items, texts, live, loose, owns, chained,
    stored⟩

/-- The items of the new root are allocated. -/
theorem Grown.present (grown : Grown before after root start) {address : Address}
    (member : address ∈ (link [root]).footprint) : after.items address ≠ none := by
  rw [footprint_singleton, List.mem_cons, mem_footprint_iff] at member
  rcases member with rfl | isEntry | below
  · exact grown.loose.trans_ne (Option.some_ne_none _)
  · obtain ⟨⟨_, fields⟩, inList, rfl⟩ := List.mem_map.mp isEntry
    obtain ⟨next, prev, present⟩ := Segment.present grown.chained inList
    exact present.trans_ne (Option.some_ne_none _)
  · obtain ⟨entries, ring, isEntry⟩ := grown.stored.ringed below
    obtain ⟨⟨_, fields⟩, inList, rfl⟩ := List.mem_map.mp isEntry
    obtain ⟨next, prev, present⟩ := Segment.present ring inList
    exact present.trans_ne (Option.some_ne_none _)

/-- What was allocated before stays as it was. -/
theorem Grown.kept (grown : Grown before after root start) {address : Address}
    (present : before.items address ≠ none) : after.items address = before.items address :=
  grown.items address fun member => present (grown.fresh address member)

theorem Grown.keptTexts (grown : Grown before after root start) {text : Address}
    (present : before.texts text ≠ none) : after.texts text = before.texts text :=
  grown.texts text fun member => present (grown.freshTexts text member)

/-- A new root without children. -/
theorem grown_place {address : Address} {fields : Fields} (fresh : before.items address = none)
    (owns : Owns fields .null) (texts : ownedTexts fields = []) :
    Grown before (before.place address fields) ⟨address, fields, .null⟩ none := by
  have noTexts : (link [⟨address, fields, .null⟩]).texts = [] := by
    rw [texts_singleton, texts]
    rfl
  have only : (link [⟨address, fields, .null⟩]).footprint = [address] := footprint_singleton _
  refine ⟨?_, ?_, ?_, ?_, ?_, ?_, ?_, place_items_self _ _ _, owns, trivial, trivial⟩
  · intro other member
    rw [only, List.mem_singleton] at member
    rwa [member]
  · exact fun text member => absurd (noTexts ▸ member) List.not_mem_nil
  · exact only ▸ List.nodup_singleton address
  · exact noTexts ▸ List.nodup_nil
  · exact fun other outside => if_neg fun same => outside (only ▸ List.mem_singleton.mpr same)
  · exact fun _ _ => rfl
  · exact fun text member => absurd (noTexts ▸ member) List.not_mem_nil

/-- The fields of the new root change, and it takes new texts over. -/
theorem Grown.refill (grown : Grown before middle root start) (change : Fields → Fields)
    (new : List Address) (keeps : (change root.fields).child = root.fields.child ∧
      (change root.fields).isReference = root.fields.isReference)
    (takes : (ownedTexts (change root.fields)).Perm (new ++ ownedTexts root.fields))
    (items : after.items = (middle.refill root.address change).items)
    (unused : ∀ text ∈ new, middle.texts text = none) (distinct : new.Nodup)
    (given : ∀ text ∈ new, after.texts text ≠ none)
    (texts : ∀ text ∉ new, after.texts text = middle.texts text) :
    Grown before after { root with fields := change root.fields } start := by
  have owned : (link [{ root with fields := change root.fields }]).texts.Perm
      (new ++ (link [root]).texts) := by
    rw [texts_singleton, texts_singleton, ← List.append_assoc]
    exact takes.append_right _
  have apart : List.Disjoint new (link [root]).texts := fun text isNew isOld =>
    grown.live text isOld (unused text isNew)
  have footprint : (link [{ root with fields := change root.fields }]).footprint =
      (link [root]).footprint := by rw [footprint_singleton, footprint_singleton]
  have outside : root.address ∉ root.child.footprint := by
    have distinct := grown.distinct
    rw [footprint_singleton] at distinct
    exact (List.nodup_cons.mp distinct).1
  have cells : ∀ address, address ≠ root.address → after.items address = middle.items address :=
    fun address other => by rw [items, refill_items, Heap.alter_of_ne _ _ other]
  have below : ∀ address ∈ root.child.footprint, after.items address = middle.items address :=
    fun address member => cells address (ne_of_mem_of_not_mem member outside)
  refine ⟨footprint ▸ grown.fresh, fun text member => ?_, footprint ▸ grown.distinct,
    owned.nodup_iff.mpr (List.nodup_append'.mpr ⟨distinct, grown.distinctTexts, apart⟩),
    fun address absent => ?_, fun text absent => ?_, fun text member => ?_, ?_, ?_,
    grown.chained.congr fun address member => below address (addresses_entries_subset _ member),
    grown.stored.congr fun address member => below address (inner_subset _ member)⟩
  · rcases List.mem_append.mp (owned.mem_iff.mp member) with isNew | isOld
    · exact (grown.texts text fun isOld => apart isNew isOld).symm.trans (unused text isNew)
    · exact grown.freshTexts text isOld
  · rw [footprint] at absent
    have other : address ≠ root.address := fun same =>
      absent (same ▸ footprint_singleton root ▸ List.mem_cons_self)
    exact (cells address other).trans (grown.items address absent)
  · rw [owned.mem_iff, List.mem_append, not_or] at absent
    exact (texts text absent.1).trans (grown.texts text absent.2)
  · rcases List.mem_append.mp (owned.mem_iff.mp member) with isNew | isOld
    · exact given text isNew
    · rw [texts text fun isNew => apart isNew isOld]
      exact grown.live text isOld
  · rw [items, refill_items, Heap.alter_of_eq_some _ grown.loose]
  · have owns := grown.owns
    unfold Owns at owns ⊢
    rwa [keeps.1, keeps.2]

theorem Grown.segment (grown : Grown before after root start) :
    Segment after.items none (link [root]).entries none := ⟨grown.loose, trivial⟩

theorem Grown.hung (grown : Grown before after root start) : (link [root]).Hung after.items :=
  ⟨grown.owns, ⟨start, grown.chained⟩, grown.stored.hung, trivial⟩

/-- Deleting the new root restores the memory. -/
theorem Grown.delete_run (grown : Grown before after root start)
    (enough : (link [root]).footprint.length ≤ fuel) :
    ∃ last, (cJSONDelete fuel (some root.address)).run after = .ok (⟨⟩, last) ∧
      SameBlocks before last := by
  refine ⟨_, cJSONDelete_run (link [root]) grown.segment grown.hung grown.distinct
    grown.distinctTexts grown.live enough, funext fun address => ?_, funext fun text => ?_⟩
  · by_cases member : address ∈ (link [root]).footprint
    · exact (if_pos member).trans (grown.fresh address member).symm
    · exact (if_neg member).trans (grown.items address member)
  · by_cases member : text ∈ (link [root]).texts
    · exact (if_pos member).trans (grown.freshTexts text member).symm
    · exact (if_neg member).trans (grown.texts text member)

theorem Grown.abandon_run (grown : Grown before after root start)
    (enough : (link [root]).footprint.length ≤ fuel) :
    ∃ last, (abandon fuel (some root.address)).run after = .ok (none, last) ∧
      SameBlocks before last := by
  obtain ⟨last, deleted, restored⟩ := grown.delete_run enough
  exact ⟨last, run_bind_ok _ _ _ _ _ deleted, restored⟩

/-! ### Children that are linked to a root -/

/-- A root with one more child. -/
def Branch.with (root child : Branch) : Branch :=
  ⟨root.address, { root.fields with child := (link (root.child.branches ++ [child])).first },
    link (root.child.branches ++ [child])⟩

theorem footprint_with (root child : Branch) :
    (link [root.with child]).footprint = (link [root]).footprint ++ (link [child]).footprint := by
  rw [footprint_singleton, footprint_singleton root, Branch.with, footprint_append, link_branches]
  rfl

theorem texts_with (root child : Branch) :
    (link [root.with child]).texts = (link [root]).texts ++ (link [child]).texts := by
  rw [texts_singleton, texts_singleton root, Branch.with, texts_append, link_branches,
    List.append_assoc]
  rfl

/-- A child that grew behind an unfinished root is joined to it, when the links in between are
set. -/
theorem Grown.join {last : Memory} (outer : Grown before middle root none)
    (inner : Grown middle after child (back none child.child.entries))
    (owner : root.fields.isReference = false) (texts : last.texts = after.texts)
    (outside : ∀ address, address ∉ (link [root]).footprint → address ∉ (link [child]).footprint →
      last.items address = after.items address)
    (below : ∀ address, address ∈ root.child.inner ∨ address ∈ child.child.footprint →
      last.items address = after.items address)
    (loose : last.items root.address = some ⟨none, none, (root.with child).fields⟩)
    (chained : Segment last.items none (link (root.child.branches ++ [child])).entries none) :
    Grown before last (root.with child) none := by
  have apart : List.Disjoint (link [root]).footprint (link [child]).footprint :=
    fun address isRoot isChild => outer.present isRoot (inner.fresh address isChild)
  have apartTexts : List.Disjoint (link [root]).texts (link [child]).texts :=
    fun text isRoot isChild => outer.live text isRoot (inner.freshTexts text isChild)
  refine ⟨fun address member => ?_, fun text member => ?_, ?_, ?_, fun address absent => ?_,
    fun text absent => ?_, fun text member => ?_, loose, ?_, chained, ?_⟩
  · rcases List.mem_append.mp (footprint_with root child ▸ member) with isRoot | isChild
    · exact outer.fresh address isRoot
    · exact (outer.items address fun isRoot => apart isRoot isChild).symm.trans
        (inner.fresh address isChild)
  · rcases List.mem_append.mp (texts_with root child ▸ member) with isRoot | isChild
    · exact outer.freshTexts text isRoot
    · exact (outer.texts text fun isRoot => apartTexts isRoot isChild).symm.trans
        (inner.freshTexts text isChild)
  · rw [footprint_with]
    exact List.nodup_append'.mpr ⟨outer.distinct, inner.distinct, apart⟩
  · rw [texts_with]
    exact List.nodup_append'.mpr ⟨outer.distinctTexts, inner.distinctTexts, apartTexts⟩
  · rw [footprint_with, List.mem_append, not_or] at absent
    rw [outside address absent.1 absent.2, inner.items address absent.2,
      outer.items address absent.1]
  · rw [texts_with, List.mem_append, not_or] at absent
    rw [texts, inner.texts text absent.2, outer.texts text absent.1]
  · rw [texts]
    rcases List.mem_append.mp (texts_with root child ▸ member) with isRoot | isChild
    · rw [inner.keptTexts (outer.live text isRoot)]
      exact outer.live text isRoot
    · exact inner.live text isChild
  · simp [Owns, Branch.with, owner]
  · have old : root.child.Stored last.items := outer.stored.congr fun address inside => by
      rw [below address (.inl inside), inner.kept]
      exact outer.present (footprint_singleton root ▸
        List.mem_cons_of_mem _ (inner_subset _ inside))
    rw [← link_branches root.child] at old
    refine (stored_link _).mpr fun branch member => ?_
    rcases List.mem_append.mp member with isOld | isNew
    · exact (stored_link _).mp old branch isOld
    · obtain rfl := List.mem_singleton.mp isNew
      exact ⟨inner.owns, Ringed.congr inner.chained fun address member =>
          below address (.inr (addresses_entries_subset _ member)),
        inner.stored.congr fun address inside => below address (.inr (inner_subset _ inside))⟩

/-- The first child is put below an unfinished root. -/
theorem Grown.chainFirst_run (outer : Grown before middle root none)
    (inner : Grown middle after child (back none child.child.entries))
    (owner : root.fields.isReference = false) (empty : root.child = .null) :
    ∃ last, (setChild (some root.address) (some child.address)).run after = .ok (⟨⟩, last) ∧
      last.texts = after.texts ∧ Grown before last (root.with child) none := by
  have loose := (inner.kept (outer.present List.mem_cons_self)).trans outer.loose
  have isChild : child.address ∈ (link [child]).footprint := List.mem_cons_self
  have apart : root.address ∉ (link [child]).footprint := fun isChild =>
    outer.present List.mem_cons_self (inner.fresh _ isChild)
  have fields : (root.with child).fields = { root.fields with child := some child.address } := by
    rw [Branch.with, empty]
    rfl
  have cells : ∀ address, address ≠ root.address →
      (after.refill root.address fun fields => { fields with child := some child.address }).items
        address = after.items address := fun address other => Heap.alter_of_ne _ _ other
  refine ⟨_, setFields_run (loose.trans_ne (Option.some_ne_none _)) _, rfl,
    outer.join inner owner rfl (fun address absent _ => cells address fun same =>
      absent (same ▸ List.mem_cons_self)) (fun address below => cells address fun same => ?_) ?_ ?_⟩
  · rcases below with inRoot | inChild
    · rw [empty] at inRoot
      cases inRoot
    · exact apart (footprint_singleton child ▸ same ▸ List.mem_cons_of_mem _ inChild)
  · rw [fields]
    exact Heap.alter_of_eq_some _ loose
  · rw [empty]
    exact ⟨(cells _ (ne_of_mem_of_not_mem isChild apart)).trans inner.loose, trivial⟩

/-- A further child is put behind the last one of an unfinished root. -/
theorem Grown.chainLater_run {last : Address} (outer : Grown before middle root none)
    (inner : Grown middle after child (back none child.child.entries))
    (owner : root.fields.isReference = false)
    (isLast : back none root.child.entries = some last) :
    ∃ final, (suffixObject (some last) (some child.address)).run after = .ok (⟨⟩, final) ∧
      final.texts = after.texts ∧ Grown before final (root.with child) none := by
  have distinct := outer.distinct
  rw [footprint_singleton, List.nodup_cons] at distinct
  have lastEntry := mem_of_back isLast
  have inRoot : ∀ address ∈ root.child.footprint, address ∈ (link [root]).footprint :=
    fun address member => footprint_singleton root ▸ List.mem_cons_of_mem _ member
  have apart : ∀ address ∈ (link [root]).footprint, address ∉ (link [child]).footprint :=
    fun address isRoot isChild => outer.present isRoot (inner.fresh address isChild)
  have isChild : child.address ∈ (link [child]).footprint := List.mem_cons_self
  have lastRoot := inRoot last (addresses_entries_subset _ lastEntry)
  have presentLast : after.items last ≠ none := (inner.kept (outer.present lastRoot)) ▸
    outer.present lastRoot
  have cells : ∀ address, address ≠ last → address ≠ child.address →
      ((after.items.setNext last (some child.address)).setPrev child.address (some last)) address =
        after.items address := fun address notLast notChild => by
    rw [Heap.setPrev, Heap.alter_of_ne _ _ notChild, Heap.setNext, Heap.alter_of_ne _ _ notLast]
  have childNotLast : child.address ≠ last := fun same => apart last lastRoot (same ▸ isChild)
  have present : after.items child.address ≠ none := inner.present isChild
  have entries : (link (root.child.branches ++ [child])).entries =
      root.child.entries ++ [(child.address, child.fields)] := by
    rw [entries_link_append, link_branches]
    rfl
  have outsideChild : child.address ∉ addresses root.child.entries := fun member =>
    apart _ (inRoot _ (addresses_entries_subset _ member)) isChild
  refine ⟨_, suffixObject_run presentLast present, rfl, outer.join inner owner rfl
    (fun address notRoot notChild => cells address (fun same => notRoot (same ▸ lastRoot))
      fun same => notChild (same ▸ isChild)) (fun address below => ?_) ?_ ?_⟩
  · rcases below with below | below
    · exact cells address (fun same => not_mem_inner distinct.2 lastEntry (same ▸ below))
        fun same => apart _ (inRoot _ (inner_subset _ below)) (same ▸ isChild)
    · have whole : address ∈ (link [child]).footprint :=
        footprint_singleton child ▸ List.mem_cons_of_mem _ below
      have distinctChild := inner.distinct
      rw [footprint_singleton, List.nodup_cons] at distinctChild
      exact cells address (fun same => apart last lastRoot (same ▸ whole))
        fun same => distinctChild.1 (same ▸ below)
  · have loose := (inner.kept (outer.present List.mem_cons_self)).trans outer.loose
    have first : (link (root.child.branches ++ [child])).first = root.fields.child := by
      have owns := outer.owns
      rw [Owns, if_neg (by simp [owner])] at owns
      obtain ⟨others, value, split⟩ := exists_append_of_back isLast
      rw [owns, first_eq_front, first_eq_front, entries, split, List.append_assoc]
      cases others <;> rfl
    refine (cells _ (fun same => ?_) fun same => ?_).trans (loose.trans ?_)
    · exact distinct.1 (same ▸ addresses_entries_subset _ lastEntry)
    · exact apart _ List.mem_cons_self (same ▸ isChild)
    · rw [Branch.with, first]
  · rw [entries]
    have old : Segment after.items none root.child.entries none :=
      outer.chained.congr fun address member =>
        inner.kept (outer.present (inRoot _ (addresses_entries_subset _ member)))
    have distinctEntries := distinct.2.sublist (addresses_entries_sublist root.child)
    refine segment_append.mpr ⟨(old.setNext_of_back isLast distinctEntries _).alter _ outsideChild,
      ?_, trivial⟩
    rw [isLast]
    exact Heap.alter_of_eq_some _ ((Heap.alter_of_ne _ _ childNotLast).trans inner.loose)

/-- The next child is put behind the ones an unfinished root has so far. -/
theorem Grown.chainChild_run (outer : Grown before middle root none)
    (inner : Grown middle after child (back none child.child.entries))
    (owner : root.fields.isReference = false) :
    ∃ last, (chainChild (some root.address) (back none root.child.entries)
        (some child.address)).run after = .ok (⟨⟩, last) ∧ last.texts = after.texts ∧
      Grown before last (root.with child) none := by
  cases isEmpty : root.child with
  | null => exact outer.chainFirst_run inner owner isEmpty
  | node address fields below next =>
    obtain ⟨last, isLast⟩ := exists_back_cons none (address, fields) next.entries
    have isBack : back none root.child.entries = some last := by
      rw [isEmpty]
      exact isLast
    rw [← isEmpty, isBack, chainChild, if_neg (Option.some_ne_none _)]
    exact outer.chainLater_run inner owner isBack

/-- The ring of the children is closed. -/
theorem Grown.closeChain_run (grown : Grown before middle root none)
    (owner : root.fields.isReference = false) :
    ∃ last, (closeChain (some root.address) (back none root.child.entries)).run middle =
        .ok (⟨⟩, last) ∧ last.texts = middle.texts ∧
      Grown before last root (back none root.child.entries) := by
  have owns : root.fields.child = front root.child.entries none := by
    have owns := grown.owns
    rwa [Owns, if_neg (by simp [owner]), first_eq_front] at owns
  have distinct := grown.distinct
  rw [footprint_singleton, List.nodup_cons] at distinct
  rw [closeChain, run_follow_bind _ grown.loose, onlyIf]
  split_ifs with condition
  · obtain ⟨first, isFirst⟩ := Option.ne_none_iff_exists'.mp (owns ▸ condition)
    obtain ⟨fields, rest, entries⟩ := exists_cons_of_front isFirst
    obtain ⟨last, isLast⟩ := exists_back_cons none (first, fields) rest
    rw [← entries] at isLast
    have isEntry := mem_of_front isFirst
    have inRoot := addresses_entries_subset root.child isEntry
    have present : middle.items first ≠ none :=
      grown.present (footprint_singleton root ▸ List.mem_cons_of_mem _ inRoot)
    have cells : ∀ address, address ≠ first →
        (middle.items.setPrev first (some last)) address = middle.items address :=
      fun address other => Heap.alter_of_ne _ _ other
    rw [pointBack, run_follow_bind _ grown.loose, owns, isFirst, isLast, setPrev,
      run_assign present]
    have closed := ringed_of_segment grown.chained isFirst isLast
      (distinct.2.sublist (addresses_entries_sublist root.child))
    refine ⟨_, rfl, rfl, ⟨grown.fresh, grown.freshTexts, grown.distinct, grown.distinctTexts,
      fun address absent => ?_, grown.texts, grown.live, ?_, grown.owns, isLast ▸ closed,
      grown.stored.congr fun address inside => ?_⟩⟩
    · refine (cells address fun same => absent ?_).trans (grown.items address absent)
      exact footprint_singleton root ▸ List.mem_cons_of_mem _ (same ▸ inRoot)
    · exact (cells _ (ne_of_mem_of_not_mem inRoot distinct.1).symm).trans grown.loose
    · exact cells address fun same => not_mem_inner distinct.2 isEntry (same ▸ inside)
  · have empty : root.child.entries = [] := by
      have none : front root.child.entries none = none := by
        rw [← owns]
        simpa using condition
      cases entries : root.child.entries with
      | nil => rfl
      | cons entry rest =>
        rw [entries] at none
        cases none
    exact ⟨middle, rfl, rfl, by rw [empty]; exact grown⟩

/-- The end of building a list of children. -/
theorem Grown.finishChain_run (grown : Grown before middle root none)
    (owner : root.fields.isReference = false) :
    ∃ last, (finishChain fuel (some root.address) (some (back none root.child.entries))).run
        middle = .ok (some root.address, last) ∧ last.texts = middle.texts ∧
      Grown before last root (back none root.child.entries) := by
  obtain ⟨last, closed, texts, final⟩ := grown.closeChain_run owner
  exact ⟨last, run_bind_ok _ _ _ _ _ closed, texts, final⟩

theorem Consistent.same {borrowed : List Address} {forest : List Branch}
    (consistent : Consistent before borrowed forest) (same : SameBlocks before after) :
    Consistent after borrowed forest :=
  ⟨same.1 ▸ consistent.shaped, same.2 ▸ consistent.owned⟩

/-- A new root with a ring of children joins a forest. -/
theorem Grown.consistent {borrowed : List Address} {forest : List Branch}
    (grown : Grown before after root (back none root.child.entries))
    (consistent : Consistent before borrowed forest)
    (constant : (link [root]).constants ⊆ borrowed) :
    Consistent after borrowed (root :: forest) := by
  obtain ⟨⟨loose, stored, distinct, allocated⟩, distinctTexts, allocatedTexts, constants⟩ :=
    consistent
  have old : ∀ address ∈ (link forest).footprint, after.items address = before.items address :=
    fun address member => grown.kept ((allocated address).mpr member)
  refine ⟨⟨fun branch member => ?_, ⟨grown.owns, grown.chained, grown.stored,
    stored.congr fun address inside => old address (inner_subset _ inside)⟩, ?_, fun address => ?_⟩,
    ?_, fun text => ?_, ?_⟩
  · rcases List.mem_cons.mp member with rfl | isOld
    · exact grown.loose
    · refine (old _ (addresses_entries_subset _ ?_)).trans (loose branch isOld)
      rw [addresses_entries, branches_link]
      exact List.mem_map_of_mem isOld
  · rw [footprint_cons]
    exact List.nodup_append'.mpr ⟨grown.distinct, distinct, fun address isNew isOld =>
      (allocated address).mpr isOld (grown.fresh address isNew)⟩
  · rw [footprint_cons, List.mem_append]
    by_cases isNew : address ∈ (link [root]).footprint
    · exact iff_of_true (grown.present isNew) (.inl isNew)
    · rw [grown.items address isNew, allocated, or_iff_right isNew]
  · rw [texts_cons, List.append_assoc]
    exact List.nodup_append'.mpr ⟨grown.distinctTexts, distinctTexts, fun text isNew isOld =>
      (allocatedTexts text).mpr isOld (grown.freshTexts text isNew)⟩
  · rw [texts_cons, List.append_assoc, List.mem_append]
    by_cases isNew : text ∈ (link [root]).texts
    · exact iff_of_true (grown.live text isNew) (.inl isNew)
    · rw [grown.texts text isNew, allocatedTexts, or_iff_right isNew]
  · rw [constants_cons]
    refine List.append_subset.mpr ⟨?_, constants⟩
    exact List.Subset.trans (List.subset_append_left _ _) constant

end Growth

end DiffServSimulation
