/-
This file says exactly which trees `cJSON_Compare` takes for equal.

`Alike` is the meaning of the comparison without its loops: elements in order,
members matched by name in both directions. For trees whose objects hold no two
members of one name the comparison decides it. The induction is on the nesting.
-/

import DiffServSimulation.CjsonCompare

namespace DiffServSimulation

/-! ### The meaning of the comparison -/

/-- Items of one value. Members of objects are matched by name, whatever their order. -/
inductive Alike (caseSensitive : Bool) : Item → Item → Prop where
  | word {a b : Item} (same : a.type = b.type)
      (isWord : a.type = .false ∨ a.type = .true ∨ a.type = .null) : Alike caseSensitive a b
  | number {a b : Item} (same : a.type = b.type) (isNumber : a.type = .number)
      (close : compareDouble a.valuedouble b.valuedouble = true) : Alike caseSensitive a b
  | text {a b : Item} (same : a.type = b.type) (isText : a.type = .string ∨ a.type = .raw)
      (present : a.valuestring ≠ none) (equal : a.valuestring = b.valuestring) :
      Alike caseSensitive a b
  | array {a b : Item} (same : a.type = b.type) (isArray : a.type = .array)
      (elements : List.Forall₂ (Alike caseSensitive) a.child.chain b.child.chain) :
      Alike caseSensitive a b
  | object {a b : Item} (same : a.type = b.type) (isObject : a.type = .object)
      (partner mate : Item → Item)
      (partners : ∀ member ∈ a.child.chain, partner member ∈ b.child.chain ∧
        SameName caseSensitive member (partner member))
      (there : ∀ member ∈ a.child.chain, Alike caseSensitive member (partner member))
      (mates : ∀ member ∈ b.child.chain, mate member ∈ a.child.chain ∧
        SameName caseSensitive member (mate member))
      (back : ∀ member ∈ b.child.chain, Alike caseSensitive member (mate member)) :
      Alike caseSensitive a b

/-- What makes two items of one type alike, given what makes their children alike. -/
def AlikeAs (caseSensitive : Bool) (alike : Item → Item → Prop) (a b : Item) : ItemType → Prop
  | .invalid => False
  | .false | .true | .null => True
  | .number => compareDouble a.valuedouble b.valuedouble = true
  | .string | .raw => a.valuestring ≠ none ∧ a.valuestring = b.valuestring
  | .array => List.Forall₂ alike a.child.chain b.child.chain
  | .object =>
    (∀ member ∈ a.child.chain, ∃ other ∈ b.child.chain, SameName caseSensitive member other ∧
      alike member other) ∧
    (∀ member ∈ b.child.chain, ∃ other ∈ a.child.chain, SameName caseSensitive member other ∧
      alike member other)

theorem alike_iff (caseSensitive : Bool) (a b : Item) :
    Alike caseSensitive a b ↔
      a.type = b.type ∧ AlikeAs caseSensitive (Alike caseSensitive) a b a.type := by
  constructor
  · intro alike
    cases alike with
    | word same isWord =>
      rcases isWord with type | type | type <;> exact ⟨same, by rw [type]; trivial⟩
    | number same isNumber close => exact ⟨same, by rw [isNumber]; exact close⟩
    | text same isText present equal =>
      rcases isText with type | type <;> exact ⟨same, by rw [type]; exact ⟨present, equal⟩⟩
    | array same isArray elements => exact ⟨same, by rw [isArray]; exact elements⟩
    | object same isObject partner mate partners there mates back =>
      refine ⟨same, ?_⟩
      rw [isObject]
      exact ⟨fun member isMember => ⟨partner member, (partners member isMember).1,
          (partners member isMember).2, there member isMember⟩,
        fun member isMember => ⟨mate member, (mates member isMember).1,
          (mates member isMember).2, back member isMember⟩⟩
  · rintro ⟨same, alike⟩
    cases type : a.type with
    | invalid =>
      rw [type] at alike
      exact alike.elim
    | «false» => exact .word same (.inl type)
    | «true» => exact .word same (.inr (.inl type))
    | null => exact .word same (.inr (.inr type))
    | number =>
      rw [type] at alike
      exact .number same type alike
    | string =>
      rw [type] at alike
      exact .text same (.inl type) alike.1 alike.2
    | raw =>
      rw [type] at alike
      exact .text same (.inr type) alike.1 alike.2
    | array =>
      rw [type] at alike
      exact .array same type alike
    | object =>
      rw [type] at alike
      obtain ⟨there, back⟩ := alike
      have : Nonempty Item := ⟨a⟩
      choose! partner partners using there
      choose! mate mates using back
      exact .object same type partner mate
        (fun member isMember => ⟨(partners member isMember).1, (partners member isMember).2.1⟩)
        (fun member isMember => (partners member isMember).2.2)
        (fun member isMember => ⟨(mates member isMember).1, (mates member isMember).2.1⟩)
        (fun member isMember => (mates member isMember).2.2)

/-- A tree in whose objects every member has a name of its own. -/
def CJSON.Named (caseSensitive : Bool) : CJSON → Prop
  | .null => True
  | .node next child data => next.Named caseSensitive ∧ child.Named caseSensitive ∧
    (data.type = .object → DistinctNames caseSensitive child.chain)

/-- An item whose children are named, with what the recursion needs of it. -/
structure Item.Named (caseSensitive : Bool) (node : Item) (fuel : Nat) : Prop where
  below : node.child.Named caseSensitive
  names : node.type = .object → DistinctNames caseSensitive node.child.chain
  enough : node.child.height < fuel

section Decides

variable {caseSensitive : Bool} {fuel : Nat} {child : CJSON}

theorem CJSON.Named.node (named : child.Named caseSensitive) (small : child.height ≤ fuel)
    {node : Item} (isChild : node ∈ child.chain) : node.Named caseSensitive fuel := by
  induction child with
  | null => cases isChild
  | node next below data nextHypothesis _ =>
    obtain ⟨namedNext, namedBelow, names⟩ := named
    rw [CJSON.chain] at isChild
    rcases List.mem_cons.mp isChild with rfl | behind
    · exact ⟨namedBelow, names, (le_max_right _ _).trans small⟩
    · exact nextHypothesis namedNext ((le_max_left _ _).trans small) behind

/-! ### The whole comparison -/

theorem forall₂_congr_of_mem {first second : Item → Item → Prop} (nodes others : List Item)
    (iff : ∀ node ∈ nodes, ∀ other ∈ others, (first node other ↔ second node other)) :
    List.Forall₂ first nodes others ↔ List.Forall₂ second nodes others := by
  induction nodes generalizing others with
  | nil => cases others <;> simp
  | cons node nodes inductionHypothesis =>
    cases others with
    | nil => simp
    | cons other others =>
      rw [List.forall₂_cons, List.forall₂_cons,
        iff node List.mem_cons_self other List.mem_cons_self,
        inductionHypothesis others fun node isNode other isOther =>
          iff node (List.mem_cons_of_mem _ isNode) other (List.mem_cons_of_mem _ isOther)]

theorem sameText_iff (a b : Option CString) : sameText a b = true ↔ a ≠ none ∧ a = b := by
  cases a with
  | none => simp [sameText]
  | some first =>
    cases b with
    | none => simp [sameText]
    | some second => simp [sameText, strcmp_eq_zero_iff]

theorem cJSONCompare_root_iff (a b : Item) (aNamed : a.Named caseSensitive fuel)
    (bNamed : b.Named caseSensitive fuel) :
    cJSONCompare caseSensitive fuel (.root a) (.root b) = .ok true ↔ Alike caseSensitive a b := by
  induction fuel generalizing a b with
  | zero => exact absurd aNamed.enough (Nat.not_lt_zero _)
  | succ fuel inductionHypothesis =>
    have items := cJSONCompare_looksAtItems caseSensitive fuel
    have aSmall := Nat.le_of_lt_succ aNamed.enough
    have bSmall := Nat.le_of_lt_succ bNamed.enough
    have step : cJSONCompare caseSensitive (fuel + 1) (.root a) (.root b) =
        if a.type ≠ b.type then .ok false
        else compareAs (cJSONCompare caseSensitive fuel) caseSensitive a.toItemData b.toItemData
          a.child b.child a.type := rfl
    -- What the loops ask of the children is what the relation says of them.
    have childIff (member other : Item) (isMember : member ∈ a.child.chain)
        (isOther : other ∈ b.child.chain) :
        cJSONCompare caseSensitive fuel (.root member) (.root other) = .ok true ↔
          Alike caseSensitive member other :=
      inductionHypothesis member other (aNamed.below.node aSmall isMember)
        (bNamed.below.node bSmall isOther)
    have backIff (member other : Item) (isMember : member ∈ b.child.chain)
        (isOther : other ∈ a.child.chain) :
        cJSONCompare caseSensitive fuel (.root member) (.root other) = .ok true ↔
          Alike caseSensitive member other :=
      inductionHypothesis member other (bNamed.below.node bSmall isMember)
        (aNamed.below.node aSmall isOther)
    rw [step, alike_iff]
    by_cases same : a.type = b.type
    · rw [if_neg (not_not.mpr same)]
      refine Iff.trans ?_ (and_iff_right same).symm
      cases type : a.type with
      | invalid => exact ⟨fun failed => (by cases failed), False.elim⟩
      | number => exact ⟨Except.ok.inj, congrArg Except.ok⟩
      | string => exact ⟨fun equal => (sameText_iff _ _).mp (Except.ok.inj equal),
          fun equal => congrArg Except.ok ((sameText_iff _ _).mpr equal)⟩
      | raw => exact ⟨fun equal => (sameText_iff _ _).mp (Except.ok.inj equal),
          fun equal => congrArg Except.ok ((sameText_iff _ _).mpr equal)⟩
      | array => exact (sameElements_iff items _ _).trans (forall₂_congr_of_mem _ _
          fun member isMember other isOther => childIff member other isMember isOther)
      | object =>
        have there := foundMembers_iff items (bNamed.names (same.symm.trans type)) a.child
        have back := foundMembers_iff items (aNamed.names type) b.child
        rw [compareAs, goesOn_iff, there, back, AlikeAs]
        refine and_congr (forall₂_congr fun member isMember => exists_congr fun other => ?_)
          (forall₂_congr fun member isMember => exists_congr fun other => ?_)
        · exact and_congr_right fun isOther => and_congr_right fun _ =>
            childIff member other isMember isOther
        · exact and_congr_right fun isOther => and_congr_right fun _ =>
            backIff member other isMember isOther
      | _ => exact ⟨fun _ => trivial, fun _ => rfl⟩
    · rw [if_pos same]
      exact ⟨fun failed => (by cases failed), fun alike => absurd alike.1 same⟩

variable (caseSensitive) in
/-- Between trees without a common item, in whose objects every member has a name of its own,
`cJSON_Compare` decides whether they are alike. -/
theorem cJSONCompare_decides (fuel : Nat) (a b : Item)
    (aNamed : (CJSON.root a).Named caseSensitive) (bNamed : (CJSON.root b).Named caseSensitive)
    (aSmall : (CJSON.root a).height ≤ fuel) (bSmall : (CJSON.root b).height ≤ fuel) :
    (cJSONCompare caseSensitive fuel (.root a) (.root b) = .ok true ↔ Alike caseSensitive a b) ∧
      (cJSONCompare caseSensitive fuel (.root a) (.root b) = .ok false ↔
        ¬ Alike caseSensitive a b) := by
  have iff := cJSONCompare_root_iff a b
    (Item.Named.mk aNamed.2.1 aNamed.2.2 ((le_max_right _ _).trans aSmall))
    (Item.Named.mk bNamed.2.1 bNamed.2.2 ((le_max_right _ _).trans bSmall))
  refine ⟨iff, ?_⟩
  obtain ⟨same, result⟩ := cJSONCompare_ends caseSensitive fuel _ _ aSmall bSmall
  rw [result] at iff ⊢
  rw [← iff]
  cases same <;> simp

end Decides

/-- An object with the members `true` and `false` under two names. -/
def answers (yes no : String) : Item :=
  { type := .object
    child := .link [{ type := .true, string := some (.literal yes) },
      { type := .false, string := some (.literal no) }] }

theorem answers_named (yes no : String)
    (differ : lowered (.literal yes) ≠ lowered (.literal no)) :
    (CJSON.root (answers yes no)).Named false := by
  refine ⟨trivial, ⟨⟨trivial, trivial, fun isObject => (by cases isObject)⟩, trivial,
    fun isObject => (by cases isObject)⟩, fun _ => ⟨?_, ?_⟩⟩
  · simp [answers]
  · simpa [answers, nameKey] using differ

/-- Names that differ in the case of their letters, and one that has another name. -/
theorem cJSONCompare_decides_answers :
    Alike false (answers "yes" "No") (answers "YES" "no") ∧
      ¬ Alike false (answers "yes" "No") (answers "yes" "none") := by
  have first := answers_named "yes" "No" (by decide)
  have second := answers_named "YES" "no" (by decide)
  have third := answers_named "yes" "none" (by decide)
  exact ⟨(cJSONCompare_decides false 2 _ _ first second (by decide) (by decide)).1.mp (by decide),
    (cJSONCompare_decides false 2 _ _ first third (by decide) (by decide)).2.mp (by decide)⟩

end DiffServSimulation
