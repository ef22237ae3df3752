/-
This file models how the vendored JSON library compares two trees, and says when it
takes them for equal.

The elements of arrays are compared in order. The members of two objects are looked
up in each other by name, in both directions, so that their order does not matter.
The bound is on the nesting; the loops over the children are read as statements about
all children, whatever the comparison that they call. Comparing a tree with a copy of
itself succeeds if the tree is `Comparable`: an infinite number, a string that is
missing or two members of one name would prevent it.
-/

import DiffServSimulation.CjsonLookup
import DiffServSimulation.CjsonRoundTrip

namespace DiffServSimulation

open DecimalNumber

/-! ### The comparison -/

/-- `get_object_item` of an object with some children. -/
def memberOf (caseSensitive : Bool) (child : CJSON) (name : Option CString) : CJSON :=
  getObjectItem (.node .null child {}) name caseSensitive

/-- The loop along the elements of two arrays. -/
def sameElements (compare : CJSON → CJSON → Except Fault Bool) : CJSON → CJSON → Except Fault Bool
  | .null, .null => .ok true
  | .null, .node _ _ _ => .ok false
  | .node _ _ _, .null => .ok false
  | .node next child data, .node otherNext otherChild otherData => do
    let same ← compare (.node next child data) (.node otherNext otherChild otherData)
    if same then sameElements compare next otherNext else pure false

/-- The loop that looks the members of one object up in the other. -/
def foundMembers (compare : CJSON → CJSON → Except Fault Bool) (caseSensitive : Bool)
    (others : CJSON) : CJSON → Except Fault Bool
  | .null => .ok true
  | .node next child data =>
    if memberOf caseSensitive others data.string = .null then .ok false
    else do
      let same ← compare (.node next child data) (memberOf caseSensitive others data.string)
      if same then foundMembers compare caseSensitive others next else pure false

/-- The comparison of two strings that may be missing. -/
def sameText : Option CString → Option CString → Bool
  | some first, some second => decide (strcmp first second = 0)
  | _, _ => false

/-- The second `switch` of `cJSON_Compare`, on items of one type. -/
def compareAs (compare : CJSON → CJSON → Except Fault Bool) (caseSensitive : Bool)
    (a b : ItemData) (aChild bChild : CJSON) : ItemType → Except Fault Bool
  | .invalid => .ok false
  | .false | .true | .null => .ok true
  | .number => .ok (compareDouble a.valuedouble b.valuedouble)
  | .string | .raw => .ok (sameText a.valuestring b.valuestring)
  | .array => sameElements compare aChild bChild
  | .object => do
    let found ← foundMembers compare caseSensitive bChild aChild
    if found then foundMembers compare caseSensitive aChild bChild else pure false

/-- `cJSON_Compare`, of trees that have no item in common. -/
def cJSONCompare (caseSensitive : Bool) : Nat → CJSON → CJSON → Except Fault Bool
  | _, .null, _ => .ok false
  | _, .node _ _ _, .null => .ok false
  | 0, .node _ _ _, .node _ _ _ => .error .outOfFuel
  | fuel + 1, .node _ aChild a, .node _ bChild b =>
    if a.type ≠ b.type then .ok false
    else compareAs (cJSONCompare caseSensitive fuel) caseSensitive a b aChild bChild a.type

/-! ### The search -/

/-- The search loops of `get_object_item`. -/
def memberLoop (caseSensitive : Bool) (name : CString) (child : CJSON) : CJSON :=
  if caseSensitive then caseSensitiveLoop name child else caseInsensitiveLoop name child

theorem memberOf_some (caseSensitive : Bool) (child : CJSON) (name : CString) :
    memberOf caseSensitive child (some name) =
      match memberLoop caseSensitive name child with
      | .null => .null
      | .node next below data =>
        if data.string = none then .null else .node next below data := by
  rw [memberOf, getObjectItem, memberLoop]
  generalize (if caseSensitive then caseSensitiveLoop name child
    else caseInsensitiveLoop name child) = found
  cases found with
  | null => rfl
  | node next below data =>
    dsimp only
    cases data.string <;> rfl

/-- A child is passed by, or the search stops at it. -/
theorem memberLoop_cons (caseSensitive : Bool) (name : CString) (next below : CJSON)
    (data : ItemData) :
    memberLoop caseSensitive name (.node next below data) =
        memberLoop caseSensitive name next ∨
      memberLoop caseSensitive name (.node next below data) = .node next below data := by
  unfold memberLoop
  cases caseSensitive with
  | true =>
    rw [if_pos rfl, if_pos rfl, caseSensitiveLoop]
    cases data.string with
    | none => exact Or.inr rfl
    | some string =>
      dsimp only
      split_ifs
      · exact Or.inl rfl
      · exact Or.inr rfl
  | false =>
    rw [if_neg Bool.false_ne_true, if_neg Bool.false_ne_true, caseInsensitiveLoop]
    split_ifs
    · exact Or.inl rfl
    · exact Or.inr rfl

/-! ### The comparison ends -/

section Ends

variable {compare : CJSON → CJSON → Except Fault Bool} {caseSensitive : Bool} {bound : Nat}

variable (caseSensitive) in
theorem height_memberLoop_le (name : CString) (child : CJSON) :
    (memberLoop caseSensitive name child).height ≤ child.height := by
  induction child with
  | null => cases caseSensitive <;> exact le_rfl
  | node next below data nextHypothesis _ =>
    rcases memberLoop_cons caseSensitive name next below data with passed | stopped
    · rw [passed]
      exact nextHypothesis.trans (le_max_left next.height (below.height + 1))
    · rw [stopped]

theorem height_memberOf_le (child : CJSON) (name : Option CString) :
    (memberOf caseSensitive child name).height ≤ child.height := by
  cases name with
  | none => exact Nat.zero_le _
  | some name =>
    have smaller := height_memberLoop_le caseSensitive name child
    rw [memberOf_some]
    cases found : memberLoop caseSensitive name child with
    | null => exact Nat.zero_le _
    | node next below data =>
      rw [found] at smaller
      dsimp only
      split_ifs
      · exact Nat.zero_le _
      · exact smaller

/-- A comparison of the trees up to a height ends. -/
def EndsBelow (compare : CJSON → CJSON → Except Fault Bool) (bound : Nat) : Prop :=
  ∀ a b : CJSON, a.height ≤ bound → b.height ≤ bound → ∃ same, compare a b = .ok same

theorem sameElements_ok (ends : EndsBelow compare bound) (a b : CJSON) (aSmall : a.height ≤ bound)
    (bSmall : b.height ≤ bound) : ∃ same, sameElements compare a b = .ok same := by
  induction a generalizing b with
  | null => cases b <;> exact ⟨_, rfl⟩
  | node next child data nextHypothesis _ =>
    cases b with
    | null => exact ⟨_, rfl⟩
    | node otherNext otherChild otherData =>
      obtain ⟨same, compared⟩ := ends _ _ aSmall bSmall
      rw [sameElements, compared]
      cases same with
      | false => exact ⟨false, rfl⟩
      | true =>
        exact nextHypothesis otherNext ((le_max_left _ _).trans aSmall)
          ((le_max_left _ _).trans bSmall)

variable (caseSensitive) in
theorem foundMembers_ok (ends : EndsBelow compare bound) (others child : CJSON)
    (othersSmall : others.height ≤ bound) (small : child.height ≤ bound) :
    ∃ found, foundMembers compare caseSensitive others child = .ok found := by
  induction child with
  | null => exact ⟨_, rfl⟩
  | node next below data nextHypothesis _ =>
    rw [foundMembers]
    split_ifs
    · exact ⟨false, rfl⟩
    · obtain ⟨same, compared⟩ := ends (.node next below data)
        (memberOf caseSensitive others data.string) small
        ((height_memberOf_le others _).trans othersSmall)
      rw [compared]
      cases same with
      | false => exact ⟨false, rfl⟩
      | true => exact nextHypothesis ((le_max_left _ _).trans small)

theorem compareAs_ok (ends : EndsBelow compare bound) (a b : ItemData) {aChild bChild : CJSON}
    (aSmall : aChild.height ≤ bound) (bSmall : bChild.height ≤ bound) (type : ItemType) :
    ∃ same, compareAs compare caseSensitive a b aChild bChild type = .ok same := by
  cases type with
  | array => exact sameElements_ok ends _ _ aSmall bSmall
  | object =>
    obtain ⟨found, first⟩ := foundMembers_ok caseSensitive ends bChild aChild bSmall aSmall
    rw [compareAs, first]
    cases found with
    | false => exact ⟨false, rfl⟩
    | true => exact foundMembers_ok caseSensitive ends aChild bChild aSmall bSmall
  | _ => exact ⟨_, rfl⟩

variable (caseSensitive) in
theorem cJSONCompare_ends (fuel : Nat) : EndsBelow (cJSONCompare caseSensitive fuel) fuel := by
  induction fuel with
  | zero =>
    intro a b aSmall _
    cases a with
    | null => exact ⟨false, rfl⟩
    | node next child data => exact absurd ((le_max_right _ _).trans aSmall) (by simp)
  | succ fuel inductionHypothesis =>
    intro a b aSmall bSmall
    cases a with
    | null => exact ⟨false, rfl⟩
    | node next child data =>
      cases b with
      | null => exact ⟨false, rfl⟩
      | node otherNext otherChild otherData =>
        rw [cJSONCompare]
        split_ifs
        · exact ⟨false, rfl⟩
        · exact compareAs_ok inductionHypothesis _ _
            (Nat.le_of_succ_le_succ ((le_max_right _ _).trans aSmall))
            (Nat.le_of_succ_le_succ ((le_max_right _ _).trans bSmall)) _

end Ends

/-! ### The comparison is symmetric -/

section Symmetry

variable {compare : CJSON → CJSON → Except Fault Bool} {caseSensitive : Bool} {bound : Nat}

theorem fabs_ofRat_neg (value : ℚ) : (Double.ofRat (-value)).fabs = (Double.ofRat value).fabs := by
  unfold Double.ofRat
  simp only [roundToDouble_neg, abs_neg]
  split_ifs with inRange
  · simp [Double.fabs, abs_neg]
  · rfl

/-- `compare_double` does not depend on the order of its arguments. -/
theorem compareDouble_comm (a b : Double) : compareDouble a b = compareDouble b a := by
  cases a with
  | nan => cases b <;> rfl
  | infinity negative =>
    cases b with
    | nan => rfl
    | infinity other => cases negative <;> cases other <;> rfl
    | finite value isDouble inRange => cases negative <;> rfl
  | finite value isDouble inRange =>
    cases b with
    | nan => rfl
    | infinity negative => cases negative <;> rfl
    | finite other otherIsDouble otherInRange =>
      have difference := fabs_ofRat_neg (value - other)
      rw [neg_sub] at difference
      unfold compareDouble
      simp only [Double.sub, difference]
      rcases lt_trichotomy |value| |other| with less | same | more
      · simp [Double.fabs, Double.gt, less, less.not_gt]
      · simp [Double.fabs, Double.gt, same]
      · simp [Double.fabs, Double.gt, more, more.not_gt]

theorem sameText_comm (a b : Option CString) : sameText a b = sameText b a := by
  cases a with
  | none => cases b <;> rfl
  | some first =>
    cases b with
    | none => rfl
    | some second =>
      rw [sameText, sameText, decide_eq_decide, strcmp_eq_zero_iff, strcmp_eq_zero_iff]
      exact eq_comm

theorem sameText_self {text : Option CString} (present : text ≠ none) :
    sameText text text = true := by
  obtain ⟨text, rfl⟩ := Option.ne_none_iff_exists'.mp present
  exact decide_eq_true ((strcmp_eq_zero_iff text text).mpr rfl)

theorem sameElements_comm (a b : CJSON) (aSmall : a.height ≤ bound) (bSmall : b.height ≤ bound)
    (comm : ∀ a b : CJSON, a.height ≤ bound → b.height ≤ bound → compare a b = compare b a) :
    sameElements compare a b = sameElements compare b a := by
  induction a generalizing b with
  | null => cases b <;> rfl
  | node next child data nextHypothesis _ =>
    cases b with
    | null => rfl
    | node otherNext otherChild otherData =>
      rw [sameElements, sameElements, comm _ _ aSmall bSmall,
        nextHypothesis otherNext ((le_max_left _ _).trans aSmall) ((le_max_left _ _).trans bSmall)]

theorem cJSONCompare_comm (fuel : Nat) (a b : CJSON) (aSmall : a.height ≤ fuel)
    (bSmall : b.height ≤ fuel) :
    cJSONCompare caseSensitive fuel a b = cJSONCompare caseSensitive fuel b a := by
  induction fuel generalizing a b with
  | zero => cases a <;> cases b <;> rfl
  | succ fuel inductionHypothesis =>
    cases a with
    | null => cases b <;> rfl
    | node next child data =>
      cases b with
      | null => rfl
      | node otherNext otherChild otherData =>
        have small := Nat.le_of_succ_le_succ ((le_max_right _ _).trans aSmall)
        have otherSmall := Nat.le_of_succ_le_succ ((le_max_right _ _).trans bSmall)
        rw [cJSONCompare, cJSONCompare]
        by_cases same : data.type = otherData.type
        · rw [if_neg (not_not.mpr same), if_neg (not_not.mpr same.symm), ← same]
          cases data.type with
          | number => exact congrArg Except.ok (compareDouble_comm _ _)
          | string => exact congrArg Except.ok (sameText_comm _ _)
          | raw => exact congrArg Except.ok (sameText_comm _ _)
          | array => exact sameElements_comm _ _ small otherSmall inductionHypothesis
          | object =>
            -- Both orders look all members of either object up in the other.
            have ends := cJSONCompare_ends caseSensitive fuel
            obtain ⟨there, first⟩ := foundMembers_ok caseSensitive ends otherChild child otherSmall
              small
            obtain ⟨back, second⟩ := foundMembers_ok caseSensitive ends child otherChild small
              otherSmall
            rw [compareAs, compareAs, first, second]
            cases there <;> cases back <;> rfl
          | _ => rfl
        · rw [if_pos same, if_pos fun equal => same equal.symm]

variable (caseSensitive) in
/-- `cJSON_Compare` returns on all trees, and does not depend on the order of its arguments. -/
theorem cJSONCompare_either_way (fuel : Nat) (a b : CJSON) (aSmall : a.height ≤ fuel)
    (bSmall : b.height ≤ fuel) :
    ∃ same, cJSONCompare caseSensitive fuel a b = .ok same ∧
      cJSONCompare caseSensitive fuel b a = .ok same := by
  obtain ⟨same, result⟩ := cJSONCompare_ends caseSensitive fuel a b aSmall bSmall
  exact ⟨same, result, (cJSONCompare_comm fuel b a bSmall aSmall).trans result⟩

/-- A number under a name. -/
def scoreOf (name : String) (score : Double) : Item :=
  { type := .number, valuedouble := score, string := some (.literal name) }

/-- An object of two scores. -/
def scores (first second : Item) : CJSON :=
  .root { type := .object, child := .link [first, second] }

/-- The scores in another order, with other cases of the letters and one of another value. -/
theorem cJSONCompare_either_way_scores :
    ∃ same, cJSONCompare false 2
        (scores (scoreOf "low" (.ofInt 1)) (scoreOf "high" (.infinity false)))
        (scores (scoreOf "High" (.ofInt 7)) (scoreOf "LOW" (.ofInt 1))) = .ok same ∧
      cJSONCompare false 2 (scores (scoreOf "High" (.ofInt 7)) (scoreOf "LOW" (.ofInt 1)))
        (scores (scoreOf "low" (.ofInt 1)) (scoreOf "high" (.infinity false))) = .ok same :=
  cJSONCompare_either_way false 2 _ _ (by decide) (by decide)

end Symmetry

/-! ### What the loops find -/

/-- What of a name the comparison looks at. -/
def nameKey (caseSensitive : Bool) (name : CString) : List UInt8 :=
  if caseSensitive then name.bytes else lowered name

/-- The names of the members of an object, each there and no two alike. -/
structure DistinctNames (caseSensitive : Bool) (members : List Item) : Prop where
  named : ∀ member ∈ members, member.string ≠ none
  distinct : (members.map fun member => member.string.map (nameKey caseSensitive)).Nodup

/-- Two members of one name. -/
def SameName (caseSensitive : Bool) (a b : Item) : Prop :=
  a.string ≠ none ∧ a.string.map (nameKey caseSensitive) = b.string.map (nameKey caseSensitive)

section Loops

variable {compare : CJSON → CJSON → Except Fault Bool} {caseSensitive : Bool} {child : CJSON}

/-- A round of the search, in terms of the names. With regard to case it stops at a child without
a name. -/
theorem memberLoop_node (name : CString) (next below : CJSON) (data : ItemData) :
    memberLoop caseSensitive name (.node next below data) =
      if (caseSensitive = true ∧ data.string = none) ∨
          data.string.map (nameKey caseSensitive) = some (nameKey caseSensitive name) then
        .node next below data
      else memberLoop caseSensitive name next := by
  unfold memberLoop
  cases caseSensitive with
  | true =>
    rw [if_pos rfl, if_pos rfl, caseSensitiveLoop]
    cases data.string with
    | none => rfl
    | some string =>
      have iff : strcmp name string = 0 ↔ string.bytes = name.bytes := by
        rw [strcmp_eq_zero_iff, eq_comm]
        exact ⟨congrArg CString.bytes, fun equal => by cases string; cases name; congr⟩
      simp [nameKey, iff]
  | false =>
    have iff : caseInsensitiveStrcmp (some name) data.string = 0 ↔
        data.string.map (nameKey false) = some (nameKey false name) :=
      caseInsensitiveStrcmp_eq_zero_iff name data.string
    rw [if_neg Bool.false_ne_true, if_neg Bool.false_ne_true, caseInsensitiveLoop]
    by_cases equal : data.string.map (nameKey false) = some (nameKey false name)
    · rw [if_neg (not_not.mpr (iff.mpr equal)), if_pos (Or.inr equal)]
    · rw [if_pos (mt iff.mp equal),
        if_neg (not_or.mpr ⟨fun both => Bool.false_ne_true both.1, equal⟩)]

/-- What is found is a child of the name that was looked for. -/
theorem memberLoop_sound {name : CString} {next below : CJSON} {data : ItemData}
    (found : memberLoop caseSensitive name child = .node next below data)
    (present : data.string ≠ none) :
    { data with child := below } ∈ child.chain ∧
      data.string.map (nameKey caseSensitive) = some (nameKey caseSensitive name) := by
  induction child with
  | null => cases caseSensitive <;> cases found
  | node behind inner here nextHypothesis _ =>
    rw [memberLoop_node] at found
    split_ifs at found with stops
    · cases found
      exact ⟨List.mem_cons_self, stops.resolve_left fun absent => present absent.2⟩
    · exact (nextHypothesis found).imp_left (List.mem_cons_of_mem _)

/-- A child is found by its name. -/
theorem memberLoop_complete (names : DistinctNames caseSensitive child.chain) {member : Item}
    (isChild : member ∈ child.chain) {name : CString}
    (same : member.string.map (nameKey caseSensitive) = some (nameKey caseSensitive name)) :
    ∃ next, memberLoop caseSensitive name child = .node next member.child member.toItemData := by
  induction child with
  | null => cases isChild
  | node next below data nextHypothesis _ =>
    obtain ⟨named, distinct⟩ := names
    rw [CJSON.chain, List.map_cons, List.nodup_cons] at distinct
    rw [CJSON.chain] at named isChild
    rw [memberLoop_node]
    rcases List.mem_cons.mp isChild with rfl | inRest
    · exact ⟨next, if_pos (Or.inr same)⟩
    · have namedRest := fun other behind => named other (List.mem_cons_of_mem _ behind)
      rw [if_neg]
      · exact nextHypothesis ⟨namedRest, distinct.2⟩ inRest
      · rintro (absent | equal)
        · exact named _ List.mem_cons_self absent.2
        · exact distinct.1 (List.mem_map.mpr ⟨member, inRest, same.trans equal.symm⟩)

theorem memberOf_sound (member : Item) {next below : CJSON} {data : ItemData}
    (found : memberOf caseSensitive child member.string = .node next below data) :
    { data with child := below } ∈ child.chain ∧
      SameName caseSensitive member { data with child := below } := by
  cases isString : member.string with
  | none =>
    rw [isString] at found
    cases found
  | some name =>
    rw [isString, memberOf_some] at found
    cases reached : memberLoop caseSensitive name child with
    | null =>
      rw [reached] at found
      cases found
    | node behind inner here =>
      rw [reached] at found
      dsimp only at found
      split_ifs at found with absent
      cases found
      obtain ⟨isChild, same⟩ := memberLoop_sound reached absent
      refine ⟨isChild, isString.trans_ne (Option.some_ne_none name), ?_⟩
      rw [isString]
      exact same.symm

theorem memberOf_complete (names : DistinctNames caseSensitive child.chain) {member other : Item}
    (isChild : other ∈ child.chain) (same : SameName caseSensitive member other) :
    ∃ next, memberOf caseSensitive child member.string =
      .node next other.child other.toItemData := by
  obtain ⟨present, equal⟩ := same
  obtain ⟨name, isName⟩ := Option.ne_none_iff_exists'.mp present
  rw [isName] at equal
  obtain ⟨next, found⟩ := memberLoop_complete names isChild equal.symm
  refine ⟨next, ?_⟩
  rw [isName, memberOf_some, found]
  exact if_neg (names.named other isChild)

/-- A comparison that does not look behind the two items. -/
def LooksAtItems (compare : CJSON → CJSON → Except Fault Bool) : Prop :=
  ∀ next otherNext child otherChild data otherData,
    compare (.node next child data) (.node otherNext otherChild otherData) =
      compare (.node .null child data) (.node .null otherChild otherData)

/-- A loop goes on while the items are alike. -/
theorem goesOn_iff (first rest : Except Fault Bool) :
    (first >>= fun same => if same then rest else pure false) = .ok true ↔
      first = .ok true ∧ rest = .ok true := by
  cases first with
  | error fault => exact ⟨fun failed => (by cases failed), fun both => (by cases both.1)⟩
  | ok same =>
    cases same with
    | false => exact ⟨fun failed => (by cases failed), fun both => (by cases both.1)⟩
    | true => exact ⟨fun goes => ⟨rfl, goes⟩, fun both => both.2⟩

theorem sameElements_iff (items : LooksAtItems compare) (a b : CJSON) :
    sameElements compare a b = .ok true ↔
      List.Forall₂ (fun first second => compare (.root first) (.root second) = .ok true)
        a.chain b.chain := by
  induction a generalizing b with
  | null =>
    cases b with
    | null => exact ⟨fun _ => .nil, fun _ => rfl⟩
    | node next below data => exact ⟨fun same => (by cases same), fun pairs => (by cases pairs)⟩
  | node next below data nextHypothesis _ =>
    cases b with
    | null => exact ⟨fun same => (by cases same), fun pairs => (by cases pairs)⟩
    | node otherNext otherBelow otherData =>
      rw [CJSON.chain, CJSON.chain, List.forall₂_cons, ← nextHypothesis, sameElements, goesOn_iff,
        items]
      rfl

theorem foundMembers_iff (items : LooksAtItems compare) {others : CJSON}
    (names : DistinctNames caseSensitive others.chain) (members : CJSON) :
    foundMembers compare caseSensitive others members = .ok true ↔
      ∀ member ∈ members.chain, ∃ other ∈ others.chain, SameName caseSensitive member other ∧
        compare (.root member) (.root other) = .ok true := by
  induction members with
  | null => exact ⟨fun _ _ absent => absurd absent List.not_mem_nil, fun _ => rfl⟩
  | node next below data nextHypothesis _ =>
    rw [CJSON.chain, List.forall_mem_cons, ← nextHypothesis, foundMembers]
    cases found : memberOf caseSensitive others data.string with
    | null =>
      refine ⟨fun failed => (by cases failed), fun both => ?_⟩
      obtain ⟨other, isOther, same, -⟩ := both.1
      obtain ⟨behind, reached⟩ := memberOf_complete names isOther same
      cases found.symm.trans reached
    | node behind inner here =>
      rw [if_neg (by simp), goesOn_iff, items]
      refine and_congr_left fun _ => ⟨fun equal => ?_, fun matched => ?_⟩
      · obtain ⟨isOther, same⟩ := memberOf_sound { data with child := below } found
        exact ⟨_, isOther, same, equal⟩
      · obtain ⟨other, isOther, same, equal⟩ := matched
        obtain ⟨another, reached⟩ := memberOf_complete names isOther same
        cases found.symm.trans reached
        exact equal

variable (caseSensitive) in
theorem cJSONCompare_looksAtItems (fuel : Nat) :
    LooksAtItems (cJSONCompare caseSensitive fuel) := by
  intro next otherNext child otherChild data otherData
  cases fuel <;> rfl

end Loops

/-! ### Members in another order -/

/-- What of an item itself would make it differ from a copy. -/
def ItemData.Comparable (caseSensitive : Bool) (data : ItemData) (child : CJSON) : Prop :=
  match data.type with
  | .invalid => False
  | .number => ∃ value isDouble inRange, data.valuedouble = .finite value isDouble inRange
  | .string | .raw => data.valuestring ≠ none
  | .object => DistinctNames caseSensitive child.chain
  | _ => True

/-- A tree that is taken for equal to its copies. -/
def CJSON.Comparable (caseSensitive : Bool) : CJSON → Prop
  | .null => True
  | .node next child data => next.Comparable caseSensitive ∧ child.Comparable caseSensitive ∧
    data.Comparable caseSensitive child

/-- Trees that differ in the order of the members of their objects, at any depth. -/
inductive Shuffled : CJSON → CJSON → Prop where
  | null : Shuffled .null .null
  | node {next otherNext child mixed otherChild : CJSON} {data : ItemData}
    (behind : Shuffled next otherNext) (below : Shuffled child mixed)
    (order : mixed = otherChild ∨ (data.type = .object ∧ mixed.chain.Perm otherChild.chain)) :
    Shuffled (.node next child data) (.node otherNext otherChild data)

theorem Shuffled.refl (tree : CJSON) : Shuffled tree tree := by
  induction tree with
  | null => exact .null
  | node next child data behind below => exact .node behind below (.inl rfl)

section Shuffle

variable {compare : CJSON → CJSON → Except Fault Bool} {caseSensitive : Bool} {fuel : Nat}
  {child otherChild : CJSON}

/-- Two items that a comparison takes for equal. -/
def TakenForEqual (compare : CJSON → CJSON → Except Fault Bool) (a b : Item) : Prop :=
  a.toItemData = b.toItemData ∧ compare (.root a) (.root b) = .ok true

theorem DistinctNames.perm {members others : List Item}
    (names : DistinctNames caseSensitive members) (perm : members.Perm others) :
    DistinctNames caseSensitive others where
  named member isMember := names.named member (perm.mem_iff.mpr isMember)
  distinct := (perm.map _).nodup_iff.mp names.distinct

theorem DistinctNames.of_pairs {members others : List Item}
    (names : DistinctNames caseSensitive members)
    (pairs : List.Forall₂ (fun a b : Item => a.toItemData = b.toItemData) members others) :
    DistinctNames caseSensitive others := by
  have strings : members.map (fun member => member.string) =
      others.map fun member => member.string := by
    induction pairs with
    | nil => rfl
    | cons same _ inductionHypothesis =>
      have rest := inductionHypothesis ⟨fun member isMember => names.named member
        (List.mem_cons_of_mem _ isMember), (List.nodup_cons.mp names.distinct).2⟩
      rw [List.map_cons, List.map_cons, rest, same]
  refine ⟨fun other isOther absent => ?_, ?_⟩
  · have isNone : none ∈ members.map fun member => member.string :=
      strings ▸ List.mem_map.mpr ⟨other, isOther, absent⟩
    obtain ⟨member, isMember, isAbsent⟩ := List.mem_map.mp isNone
    exact names.named member isMember isAbsent
  · have keys := congrArg (List.map fun string => string.map (nameKey caseSensitive)) strings
    rw [List.map_map, List.map_map] at keys
    exact keys ▸ names.distinct

/-- What a comparison takes for equal in both directions. -/
def TakenBothWays (compare : CJSON → CJSON → Except Fault Bool) (a b : Item) : Prop :=
  TakenForEqual compare a b ∧ TakenForEqual compare b a

theorem exists_right_of_pairs {Value : Type} {relation : Value → Value → Prop}
    {list others : List Value} (pairs : List.Forall₂ relation list others) {value : Value}
    (isValue : value ∈ list) : ∃ other ∈ others, relation value other := by
  induction pairs with
  | nil => cases isValue
  | cons here _ inductionHypothesis =>
    rcases List.mem_cons.mp isValue with rfl | behind
    · exact ⟨_, List.mem_cons_self, here⟩
    · obtain ⟨other, isOther, related⟩ := inductionHypothesis behind
      exact ⟨other, List.mem_cons_of_mem _ isOther, related⟩

/-- The second `switch` on children that are taken for equal one by one, but for their order. -/
theorem compareAs_of_pairs (items : LooksAtItems compare) {data : ItemData} {mixed : CJSON}
    (comparable : data.Comparable caseSensitive child)
    (order : mixed = otherChild ∨ (data.type = .object ∧ mixed.chain.Perm otherChild.chain))
    (pairs : List.Forall₂ (TakenBothWays compare) child.chain mixed.chain) :
    compareAs compare caseSensitive data data child otherChild data.type = .ok true ∧
      compareAs compare caseSensitive data data otherChild child data.type = .ok true := by
  unfold ItemData.Comparable at comparable
  have flipped : List.Forall₂ (TakenBothWays compare) mixed.chain child.chain :=
    pairs.flip.imp fun _ _ both => both.symm
  cases type : data.type with
  | invalid => simp [type] at comparable
  | number =>
    obtain ⟨value, isDouble, inRange, isFinite⟩ : ∃ value isDouble inRange,
        data.valuedouble = .finite value isDouble inRange := by simpa [type] using comparable
    have same := compareDouble_self value isDouble inRange
    rw [← isFinite] at same
    exact ⟨congrArg Except.ok same, congrArg Except.ok same⟩
  | string =>
    have present : data.valuestring ≠ none := by simpa [type] using comparable
    exact ⟨congrArg Except.ok (sameText_self present), congrArg Except.ok (sameText_self present)⟩
  | raw =>
    have present : data.valuestring ≠ none := by simpa [type] using comparable
    exact ⟨congrArg Except.ok (sameText_self present), congrArg Except.ok (sameText_self present)⟩
  | array =>
    rcases order with rfl | ⟨isObject, -⟩
    · exact ⟨(sameElements_iff items _ _).mpr (pairs.imp fun _ _ both => both.1.2),
        (sameElements_iff items _ _).mpr (flipped.imp fun _ _ both => both.1.2)⟩
    · cases type.symm.trans isObject
  | object =>
    have names : DistinctNames caseSensitive child.chain := by simpa [type] using comparable
    have perm : mixed.chain.Perm otherChild.chain := by
      rcases order with rfl | ⟨-, perm⟩
      · exact .refl _
      · exact perm
    have otherNames := (names.of_pairs (pairs.imp fun _ _ both => both.1.1)).perm perm
    have sameName {member other : Item} (present : member.string ≠ none)
        (same : member.toItemData = other.toItemData) : SameName caseSensitive member other :=
      ⟨present, congrArg (fun data => data.string.map (nameKey caseSensitive)) same⟩
    have there : foundMembers compare caseSensitive otherChild child = .ok true :=
      (foundMembers_iff items otherNames child).mpr fun member isMember => by
        obtain ⟨other, isOther, both⟩ := exists_right_of_pairs pairs isMember
        exact ⟨other, perm.mem_iff.mp isOther, sameName (names.named member isMember) both.1.1,
          both.1.2⟩
    have back : foundMembers compare caseSensitive child otherChild = .ok true :=
      (foundMembers_iff items names otherChild).mpr fun member isMember => by
        obtain ⟨other, isOther, both⟩ := exists_right_of_pairs flipped (perm.mem_iff.mpr isMember)
        exact ⟨other, isOther, sameName (otherNames.named member isMember) both.1.1, both.1.2⟩
    rw [compareAs, compareAs, there, back]
    exact ⟨rfl, rfl⟩
  | _ => exact ⟨rfl, rfl⟩

/-- The comparison of a tree with a shuffled copy, at an item, in both directions. -/
theorem cJSONCompare_shuffled_item {next otherNext mixed : CJSON} {data : ItemData}
    (below : Shuffled child mixed)
    (order : mixed = otherChild ∨ (data.type = .object ∧ mixed.chain.Perm otherChild.chain))
    (comparable : child.Comparable caseSensitive)
    (item : data.Comparable caseSensitive child) (enough : child.height + 1 ≤ fuel) :
    cJSONCompare caseSensitive fuel (.node next child data) (.node otherNext otherChild data) =
        .ok true ∧
      cJSONCompare caseSensitive fuel (.node otherNext otherChild data) (.node next child data) =
        .ok true := by
  induction fuel generalizing child mixed otherChild data next otherNext with
  | zero => exact absurd enough (Nat.not_succ_le_zero _)
  | succ fuel inductionHypothesis =>
    have small := Nat.le_of_succ_le_succ enough
    have pairs : List.Forall₂ (TakenBothWays (cJSONCompare caseSensitive fuel)) child.chain
        mixed.chain := by
      clear order item enough
      induction below with
      | null => exact .nil
      | node behind below order behindHypothesis _ =>
        obtain ⟨comparableNext, comparableChild, item⟩ := comparable
        refine .cons ⟨⟨rfl, ?_⟩, ⟨rfl, ?_⟩⟩
          (behindHypothesis comparableNext ((le_max_left _ _).trans small))
        · exact (inductionHypothesis below order comparableChild item
            ((le_max_right _ _).trans small)).1
        · exact (inductionHypothesis below order comparableChild item
            ((le_max_right _ _).trans small)).2
    rw [cJSONCompare, cJSONCompare, if_neg (not_not.mpr rfl), if_neg (not_not.mpr rfl)]
    exact compareAs_of_pairs (cJSONCompare_looksAtItems caseSensitive fuel) item order pairs

/-- The object `{"a": 1, "B": [true]}`, and the same with its members exchanged. -/
def sampleMembers : List Item :=
  [{ type := .number, valuedouble := Double.ofInt 1, string := some (.literal "a") },
    { type := .array, string := some (.literal "B"), child := .root { type := .true } }]

/-- `cJSON_Compare` takes a comparable tree for equal to every tree that differs from it in the
order of the members of its objects, at any depth. -/
theorem cJSONCompare_shuffled {a b : CJSON} (shuffled : Shuffled a b) (present : a ≠ .null)
    (comparable : a.Comparable caseSensitive) (enough : a.height ≤ fuel) :
    cJSONCompare caseSensitive fuel a b = .ok true ∧
      cJSONCompare caseSensitive fuel b a = .ok true := by
  cases shuffled with
  | null => exact absurd rfl present
  | node _ below order =>
    exact cJSONCompare_shuffled_item below order comparable.2.1 comparable.2.2
      ((le_max_right _ _).trans enough)

theorem cJSONCompare_shuffled_sample :
    cJSONCompare false 3 (.root { type := .object, child := .link sampleMembers })
        (.root { type := .object, child := .link sampleMembers.reverse }) = .ok true ∧
      cJSONCompare false 3 (.root { type := .object, child := .link sampleMembers.reverse })
        (.root { type := .object, child := .link sampleMembers }) = .ok true := by
  refine cJSONCompare_shuffled (.node .null (Shuffled.refl (.link sampleMembers))
    (.inr ⟨rfl, ?_⟩)) (by simp [CJSON.root, CJSON.link]) ⟨trivial, ⟨?_, ?_, ?_⟩, ?_⟩ ?_
  · rw [CJSON.chain_link, CJSON.chain_link]
    exact (List.reverse_perm _).symm
  · simp [CJSON.link, CJSON.root, CJSON.Comparable, ItemData.Comparable]
  · trivial
  · exact ⟨_, _, _, Double.ofInt_eq 1⟩
  · rw [ItemData.Comparable, CJSON.chain_link]
    exact ⟨by simp [sampleMembers], by decide⟩
  · decide

end Shuffle

end DiffServSimulation
