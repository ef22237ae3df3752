/-
This file models `cJSON_Minify`, which takes blanks and comments out of a text in
place, and says what it leaves.

The positions that are read and written move along one buffer. What is behind the
written part is still the original text, and the written position never overtakes
the one that is read; the induction along the text carries this invariant. It
gives that no byte outside the text is touched, and reduces the run to the
relation `Minified` between two texts. On JSON texts that relation keeps the
document, if no string ends in a backslash.
-/

import DiffServSimulation.CjsonAcceptsJson
import DiffServSimulation.JsonRender

namespace DiffServSimulation

open DecimalNumber JsonGrammar

/-! ### The edit in place -/

/-- The buffer that is edited, with the positions of the two pointers. -/
structure Minifier where
  buffer : List UInt8
  json : Nat := 0
  into : Nat := 0
deriving DecidableEq

namespace Minifier

/-- A byte at an offset from `json`. -/
def read (state : Minifier) (offset : Nat) : Except Fault UInt8 :=
  match state.buffer[state.json + offset]? with
  | some byte => .ok byte
  | none => .error .outOfBounds

/-- A byte is written at an offset from `into`. -/
def write (state : Minifier) (offset : Nat) (byte : UInt8) : Except Fault Minifier :=
  if state.into + offset < state.buffer.length then
    .ok { state with buffer := state.buffer.set (state.into + offset) byte }
  else .error .outOfBounds

def skip (state : Minifier) (count : Nat) : Minifier := { state with json := state.json + count }

/-- Both pointers move on. -/
def advance (state : Minifier) : Minifier :=
  { state with json := state.json + 1, into := state.into + 1 }

end Minifier

/-- The loop of `skip_oneline_comment`. -/
def onelineLoop : Nat → Minifier → Except Fault Minifier
  | 0, _ => .error .outOfFuel
  | fuel + 1, state => do
    let byte ← state.read 0
    if byte = 0 then pure state
    else if byte = '\n'.toUInt8 then pure (state.skip 1)
    else onelineLoop fuel (state.skip 1)

def skipOnelineComment (fuel : Nat) (state : Minifier) : Except Fault Minifier :=
  onelineLoop fuel (state.skip 2)

/-- The loop of `skip_multiline_comment`. -/
def multilineLoop : Nat → Minifier → Except Fault Minifier
  | 0, _ => .error .outOfFuel
  | fuel + 1, state => do
    let byte ← state.read 0
    if byte = 0 then pure state
    else if byte = '*'.toUInt8 then do
      let next ← state.read 1
      if next = '/'.toUInt8 then pure (state.skip 2) else multilineLoop fuel (state.skip 1)
    else multilineLoop fuel (state.skip 1)

def skipMultilineComment (fuel : Nat) (state : Minifier) : Except Fault Minifier :=
  multilineLoop fuel (state.skip 2)

/-- The loop of `minify_string`. A byte is read again after it was copied, from the buffer that
was written to. -/
def minifyStringLoop : Nat → Minifier → Except Fault Minifier
  | 0, _ => .error .outOfFuel
  | fuel + 1, state => do
    let byte ← state.read 0
    if byte = 0 then pure state
    else do
      let state ← state.write 0 byte
      let byte ← state.read 0
      if byte = '"'.toUInt8 then do
        let state ← state.write 0 '"'.toUInt8
        pure state.advance
      else if byte = '\\'.toUInt8 then do
        let next ← state.read 1
        if next = '"'.toUInt8 then do
          let state ← state.write 1 next
          minifyStringLoop fuel state.advance.advance
        else minifyStringLoop fuel state.advance
      else minifyStringLoop fuel state.advance

def minifyString (fuel : Nat) (state : Minifier) : Except Fault Minifier := do
  let byte ← state.read 0
  let state ← state.write 0 byte
  minifyStringLoop fuel state.advance

/-- The loop of `cJSON_Minify`. -/
def minifyLoop : Nat → Minifier → Except Fault Minifier
  | 0, _ => .error .outOfFuel
  | fuel + 1, state => do
    let byte ← state.read 0
    if byte = 0 then pure state
    else if byte = ' '.toUInt8 ∨ byte = '\t'.toUInt8 ∨ byte = '\r'.toUInt8 ∨
        byte = '\n'.toUInt8 then
      minifyLoop fuel (state.skip 1)
    else if byte = '/'.toUInt8 then do
      let next ← state.read 1
      if next = '/'.toUInt8 then do
        let state ← skipOnelineComment fuel state
        minifyLoop fuel state
      else if next = '*'.toUInt8 then do
        let state ← skipMultilineComment fuel state
        minifyLoop fuel state
      else minifyLoop fuel (state.skip 1)
    else if byte = '"'.toUInt8 then do
      let state ← minifyString fuel state
      minifyLoop fuel state
    else do
      let state ← state.write 0 byte
      minifyLoop fuel state.advance

/-- `cJSON_Minify`, of a pointer to the start of a buffer. -/
def cJSONMinify : Option (List UInt8) → Except Fault (Option (List UInt8))
  | none => .ok none
  | some buffer => do
    let state ← minifyLoop buffer.length { buffer := buffer }
    let state ← state.write 0 0
    pure (some state.buffer)

/-! ### What is left of a text -/

/-- What a comment to the end of the line leaves. -/
inductive AfterLine : List UInt8 → List UInt8 → Prop where
  | ended : AfterLine [] []
  | newline (rest : List UInt8) : AfterLine ('\n'.toUInt8 :: rest) rest
  | other {byte : UInt8} {text rest : List UInt8} (goesOn : byte ≠ '\n'.toUInt8)
      (behind : AfterLine text rest) : AfterLine (byte :: text) rest

/-- What a comment between `/*` and `*/` leaves. -/
inductive AfterBlock : List UInt8 → List UInt8 → Prop where
  | ended : AfterBlock [] []
  | closed (rest : List UInt8) : AfterBlock ('*'.toUInt8 :: '/'.toUInt8 :: rest) rest
  | other {byte : UInt8} {text rest : List UInt8}
      (goesOn : byte = '*'.toUInt8 → text.head? ≠ some '/'.toUInt8)
      (behind : AfterBlock text rest) : AfterBlock (byte :: text) rest

/-- What is copied of a text behind an opening quote, and what is left. A backslash hides a quote
behind it even where the backslash itself is escaped. -/
inductive Copied : List UInt8 → List UInt8 → List UInt8 → Prop where
  | ended : Copied [] [] []
  | closed (rest : List UInt8) : Copied ('"'.toUInt8 :: rest) ['"'.toUInt8] rest
  | escaped {text copied rest : List UInt8} (behind : Copied text copied rest) :
      Copied ('\\'.toUInt8 :: '"'.toUInt8 :: text) ('\\'.toUInt8 :: '"'.toUInt8 :: copied) rest
  | other {byte : UInt8} {text copied rest : List UInt8} (noQuote : byte ≠ '"'.toUInt8)
      (noEscape : byte = '\\'.toUInt8 → text.head? ≠ some '"'.toUInt8)
      (behind : Copied text copied rest) : Copied (byte :: text) (byte :: copied) rest

/-- A byte that stands for itself outside strings. -/
structure Ordinary (byte : UInt8) : Prop where
  notBlank : byte ≠ ' '.toUInt8 ∧ byte ≠ '\t'.toUInt8 ∧ byte ≠ '\r'.toUInt8 ∧
    byte ≠ '\n'.toUInt8
  notSlash : byte ≠ '/'.toUInt8
  notQuote : byte ≠ '"'.toUInt8

/-- A text and what `cJSON_Minify` leaves of it. -/
inductive Minified : List UInt8 → List UInt8 → Prop where
  | nil : Minified [] []
  | blank {byte : UInt8} {text result : List UInt8}
      (isBlank : byte = ' '.toUInt8 ∨ byte = '\t'.toUInt8 ∨ byte = '\r'.toUInt8 ∨
        byte = '\n'.toUInt8) (behind : Minified text result) : Minified (byte :: text) result
  | line {text rest result : List UInt8} (skipped : AfterLine text rest)
      (behind : Minified rest result) : Minified ('/'.toUInt8 :: '/'.toUInt8 :: text) result
  | block {text rest result : List UInt8} (skipped : AfterBlock text rest)
      (behind : Minified rest result) : Minified ('/'.toUInt8 :: '*'.toUInt8 :: text) result
  | slash {text result : List UInt8}
      (alone : text.head? ≠ some '/'.toUInt8 ∧ text.head? ≠ some '*'.toUInt8)
      (behind : Minified text result) : Minified ('/'.toUInt8 :: text) result
  | string {text copied rest result : List UInt8} (copies : Copied text copied rest)
      (behind : Minified rest result) :
      Minified ('"'.toUInt8 :: text) ('"'.toUInt8 :: (copied ++ result))
  | other {byte : UInt8} {text result : List UInt8} (ordinary : Ordinary byte)
      (behind : Minified text result) : Minified (byte :: text) (byte :: result)

/-! ### The two positions -/

/-- An edit that has written some bytes: behind them the buffer is as it was, and `json` stands in
front of some bytes that are still to be read. -/
structure Editing (original written unread : List UInt8) (state : Minifier) : Prop where
  buffer : state.buffer = written ++ original.drop written.length
  ahead : state.buffer.drop state.json = unread
  into : state.into = written.length
  behind : state.into ≤ state.json

section Edit

variable {original written unread : List UInt8} {state : Minifier} {byte next : UInt8} {fuel : Nat}

theorem Editing.read (editing : Editing original written unread state) (offset : Nat) :
    state.read offset = match unread[offset]? with
      | some byte => .ok byte
      | none => .error .outOfBounds := by
  rw [Minifier.read, ← editing.ahead, List.getElem?_drop]

theorem Editing.skip (editing : Editing original written unread state) (count : Nat) :
    Editing original written (unread.drop count) (state.skip count) where
  buffer := editing.buffer
  ahead := by rw [← editing.ahead, List.drop_drop]; rfl
  into := editing.into
  behind := editing.behind.trans (Nat.le_add_right _ _)

theorem Editing.inside (editing : Editing original written (byte :: unread) state) :
    state.json < state.buffer.length := by
  by_contra outside
  have empty := editing.ahead
  rw [List.drop_eq_nil_of_le (not_lt.mp outside)] at empty
  cases empty

/-- The state after a byte was written where `into` points to. -/
def Minifier.set (state : Minifier) (byte : UInt8) : Minifier :=
  { state with buffer := state.buffer.set state.into byte }

theorem Editing.write (editing : Editing original written (byte :: unread) state)
    (other : UInt8) : state.write 0 other = .ok (state.set other) :=
  if_pos (editing.behind.trans_lt editing.inside)

/-- A byte that was copied is read again as it was, and so is what stands behind it. -/
theorem Editing.ahead_set (editing : Editing original written (byte :: unread) state) :
    (state.set byte).buffer.drop (state.set byte).json = byte :: unread := by
  have ahead := editing.ahead
  show (state.buffer.set state.into byte).drop state.json = _
  rcases editing.behind.lt_or_eq with less | same
  · rw [List.drop_set_of_lt less, ahead]
  · rw [List.drop_set, if_neg (by omega), ahead, same, Nat.sub_self, List.set_cons_zero]

theorem Editing.read_set (editing : Editing original written (byte :: unread) state)
    (offset : Nat) : (state.set byte).read offset = state.read offset := by
  rw [editing.read, Minifier.read, ← editing.ahead_set, List.getElem?_drop]

/-- A copied byte, with the pointers behind it. -/
theorem Editing.copy (editing : Editing original written (byte :: unread) state) :
    Editing original (written ++ [byte]) unread (state.set byte).advance where
  buffer := by
    have inside : written.length < (written ++ original.drop written.length).length := by
      rw [← editing.buffer, ← editing.into]
      exact editing.behind.trans_lt editing.inside
    rw [List.length_append, List.length_drop] at inside
    show state.buffer.set state.into byte = _
    rw [editing.buffer, editing.into, List.set_append_right _ _ le_rfl, Nat.sub_self,
      List.drop_eq_getElem_cons (by omega), List.set_cons_zero, List.length_append,
      List.length_singleton, List.append_assoc]
    rfl
  ahead := by
    show (state.set byte).buffer.drop ((state.set byte).json + 1) = unread
    rw [← List.drop_drop, editing.ahead_set]
    rfl
  into := by
    rw [List.length_append, ← editing.into]
    rfl
  behind := Nat.succ_le_succ editing.behind

/-- Two bytes can be copied before the pointers move. -/
theorem Editing.write_next (editing : Editing original written (byte :: next :: unread) state) :
    ∃ both, (state.set byte).write 1 next = .ok both ∧
      Editing original (written ++ [byte, next]) unread both.advance.advance := by
  have first := editing.copy
  refine ⟨{ state.set byte with buffer := (state.set byte).buffer.set (state.into + 1) next },
    if_pos (first.behind.trans_lt first.inside), ?_⟩
  have second := first.copy
  rw [List.append_assoc] at second
  exact second

theorem Editing.read_first (editing : Editing original written (byte :: unread) state) :
    state.read 0 = .ok byte := editing.read 0

/-- The byte behind the first one; behind the last byte of the text this is the terminator. -/
theorem Editing.read_second {text tail : List UInt8}
    (editing : Editing original written (byte :: (text ++ 0 :: tail)) state) :
    state.read 1 = .ok (text.head?.getD 0) := by
  cases text <;> exact editing.read 1

theorem head_ne {text : List UInt8} (differs : text.head? ≠ some byte) (present : byte ≠ 0) :
    text.head?.getD 0 ≠ byte := by
  cases text with
  | nil => exact present.symm
  | cons first rest => exact fun same => differs (congrArg some same)

/-! ### The run follows the relation -/

theorem free_behind_two {first second : UInt8} {text : List UInt8}
    (free : 0 ∉ first :: second :: text) : 0 ∉ text :=
  fun inText => free (List.mem_cons_of_mem _ (List.mem_cons_of_mem _ inText))

theorem short_behind_two {first second : UInt8} {text : List UInt8}
    (enough : (first :: second :: text).length < fuel + 1) : text.length < fuel := by
  rw [List.length_cons, List.length_cons] at enough
  omega

theorem AfterLine.suffix {text rest : List UInt8} (skipped : AfterLine text rest) :
    rest <:+ text := by
  induction skipped with
  | ended => exact List.suffix_rfl
  | newline rest => exact List.suffix_cons _ _
  | other _ _ inductionHypothesis => exact inductionHypothesis.trans (List.suffix_cons _ _)

theorem AfterBlock.suffix {text rest : List UInt8} (skipped : AfterBlock text rest) :
    rest <:+ text := by
  induction skipped with
  | ended => exact List.suffix_rfl
  | closed rest => exact (List.suffix_cons _ _).trans (List.suffix_cons _ _)
  | other _ _ inductionHypothesis => exact inductionHypothesis.trans (List.suffix_cons _ _)

theorem Copied.eq_append {text copied rest : List UInt8} (copies : Copied text copied rest) :
    text = copied ++ rest := by
  induction copies with
  | ended => rfl
  | closed rest => rfl
  | escaped _ inductionHypothesis => rw [inductionHypothesis]; rfl
  | other _ _ _ inductionHypothesis => rw [inductionHypothesis]; rfl

theorem AfterLine.run {text rest tail : List UInt8} (skipped : AfterLine text rest)
    (editing : Editing original written (text ++ 0 :: tail) state) (free : 0 ∉ text)
    (enough : text.length < fuel) :
    ∃ after, onelineLoop fuel state = .ok after ∧
      Editing original written (rest ++ 0 :: tail) after := by
  induction skipped generalizing state fuel with
  | ended =>
    obtain ⟨fuel, rfl⟩ := Nat.exists_eq_add_one_of_ne_zero enough.ne_bot
    refine ⟨state, ?_, editing⟩
    rw [onelineLoop, editing.read_first]
    rfl
  | newline rest =>
    obtain ⟨fuel, rfl⟩ := Nat.exists_eq_add_one_of_ne_zero enough.ne_bot
    refine ⟨state.skip 1, ?_, editing.skip 1⟩
    rw [onelineLoop, editing.read_first]
    rfl
  | @other byte text rest goesOn behind inductionHypothesis =>
    obtain ⟨fuel, rfl⟩ := Nat.exists_eq_add_one_of_ne_zero enough.ne_bot
    rw [List.mem_cons, not_or] at free
    obtain ⟨after, ran, placed⟩ := inductionHypothesis (editing.skip 1) free.2
      (Nat.lt_of_succ_lt_succ enough)
    refine ⟨after, ?_, placed⟩
    rw [onelineLoop, editing.read_first]
    show (if byte = 0 then _ else _) = _
    rw [if_neg (Ne.symm free.1), if_neg goesOn, ran]

theorem AfterBlock.run {text rest tail : List UInt8} (skipped : AfterBlock text rest)
    (editing : Editing original written (text ++ 0 :: tail) state) (free : 0 ∉ text)
    (enough : text.length < fuel) :
    ∃ after, multilineLoop fuel state = .ok after ∧
      Editing original written (rest ++ 0 :: tail) after := by
  induction skipped generalizing state fuel with
  | ended =>
    obtain ⟨fuel, rfl⟩ := Nat.exists_eq_add_one_of_ne_zero enough.ne_bot
    refine ⟨state, ?_, editing⟩
    rw [multilineLoop, editing.read_first]
    rfl
  | closed rest =>
    obtain ⟨fuel, rfl⟩ := Nat.exists_eq_add_one_of_ne_zero enough.ne_bot
    refine ⟨state.skip 2, ?_, editing.skip 2⟩
    have second : state.read 1 = .ok '/'.toUInt8 := editing.read 1
    rw [multilineLoop, editing.read_first]
    show (state.read 1 >>= fun next => _) = _
    rw [second]
    rfl
  | @other byte text rest goesOn behind inductionHypothesis =>
    obtain ⟨fuel, rfl⟩ := Nat.exists_eq_add_one_of_ne_zero enough.ne_bot
    rw [List.mem_cons, not_or] at free
    obtain ⟨after, ran, placed⟩ := inductionHypothesis (editing.skip 1) free.2
      (Nat.lt_of_succ_lt_succ enough)
    refine ⟨after, ?_, placed⟩
    rw [multilineLoop, editing.read_first]
    show (if byte = 0 then _ else _) = _
    rw [if_neg (Ne.symm free.1)]
    by_cases star : byte = '*'.toUInt8
    · have second := Editing.read_second editing
      rw [if_pos star, second]
      show (if text.head?.getD 0 = '/'.toUInt8 then _ else _) = _
      rw [if_neg (head_ne (goesOn star) (by decide)), ran]
    · rw [if_neg star, ran]

/-- A byte that is written twice. -/
theorem Editing.write_set (editing : Editing original written (byte :: unread) state) :
    (state.set byte).write 0 byte = .ok (state.set byte) := by
  have inside : state.into + 0 < (state.buffer.set state.into byte).length := by
    rw [List.length_set]
    exact editing.behind.trans_lt editing.inside
  refine (if_pos inside).trans (congrArg Except.ok ?_)
  simp only [Minifier.set, Nat.add_zero, List.set_set]

/-- A round of `minify_string` that does not end it at the terminator. -/
theorem Editing.minifyStringLoop_succ
    (editing : Editing original written (byte :: unread) state) (present : byte ≠ 0) :
    minifyStringLoop (fuel + 1) state =
      if byte = '"'.toUInt8 then (do
        let state ← (state.set byte).write 0 '"'.toUInt8
        pure state.advance)
      else if byte = '\\'.toUInt8 then (do
        let next ← state.read 1
        if next = '"'.toUInt8 then do
          let state ← (state.set byte).write 1 next
          minifyStringLoop fuel state.advance.advance
        else minifyStringLoop fuel (state.set byte).advance)
      else minifyStringLoop fuel (state.set byte).advance := by
  rw [minifyStringLoop, editing.read_first]
  show (if byte = 0 then _ else _) = _
  rw [if_neg present, editing.write]
  show ((state.set byte).read 0 >>= fun byte => _) = _
  rw [editing.read_set, editing.read_first, ← editing.read_set 1]
  rfl

theorem Copied.run {text copied rest tail : List UInt8} (copies : Copied text copied rest)
    (editing : Editing original written (text ++ 0 :: tail) state) (free : 0 ∉ text)
    (enough : text.length < fuel) :
    ∃ after, minifyStringLoop fuel state = .ok after ∧
      Editing original (written ++ copied) (rest ++ 0 :: tail) after := by
  induction copies generalizing state fuel written with
  | ended =>
    obtain ⟨fuel, rfl⟩ := Nat.exists_eq_add_one_of_ne_zero enough.ne_bot
    refine ⟨state, ?_, (List.append_nil written).symm ▸ editing⟩
    rw [minifyStringLoop, editing.read_first]
    rfl
  | closed rest =>
    obtain ⟨fuel, rfl⟩ := Nat.exists_eq_add_one_of_ne_zero enough.ne_bot
    refine ⟨_, ?_, editing.copy⟩
    rw [editing.minifyStringLoop_succ (by decide), if_pos rfl, editing.write_set]
    rfl
  | @escaped text copied rest behind inductionHypothesis =>
    obtain ⟨fuel, rfl⟩ := Nat.exists_eq_add_one_of_ne_zero enough.ne_bot
    obtain ⟨both, wrote, editingBoth⟩ := Editing.write_next editing
    obtain ⟨after, ran, placed⟩ := inductionHypothesis editingBoth (free_behind_two free)
      (short_behind_two enough)
    refine ⟨after, ?_, ?_⟩
    · have second : state.read 1 = .ok '"'.toUInt8 := editing.read 1
      rw [Editing.minifyStringLoop_succ editing (by decide), if_neg (by decide), if_pos rfl,
        second]
      show ((state.set '\\'.toUInt8).write 1 '"'.toUInt8 >>= fun state =>
        minifyStringLoop fuel state.advance.advance) = _
      rw [wrote]
      exact ran
    · rw [List.append_assoc] at placed
      exact placed
  | @other byte text copied rest noQuote noEscape behind inductionHypothesis =>
    obtain ⟨fuel, rfl⟩ := Nat.exists_eq_add_one_of_ne_zero enough.ne_bot
    rw [List.mem_cons, not_or] at free
    obtain ⟨after, ran, placed⟩ := inductionHypothesis (Editing.copy editing) free.2
      (Nat.lt_of_succ_lt_succ enough)
    refine ⟨after, ?_, ?_⟩
    · rw [Editing.minifyStringLoop_succ editing (Ne.symm free.1), if_neg noQuote]
      by_cases escape : byte = '\\'.toUInt8
      · rw [if_pos escape, Editing.read_second editing]
        show (if text.head?.getD 0 = '"'.toUInt8 then _ else _) = _
        rw [if_neg (head_ne (noEscape escape) (by decide)), ran]
      · rw [if_neg escape, ran]
    · rw [List.append_assoc] at placed
      exact placed

theorem Minified.run {text result tail : List UInt8} (minified : Minified text result)
    (editing : Editing original written (text ++ 0 :: tail) state) (free : 0 ∉ text)
    (enough : text.length < fuel) :
    ∃ after, minifyLoop fuel state = .ok after ∧
      Editing original (written ++ result) (0 :: tail) after := by
  induction minified generalizing state fuel written with
  | nil =>
    obtain ⟨fuel, rfl⟩ := Nat.exists_eq_add_one_of_ne_zero enough.ne_bot
    refine ⟨state, ?_, (List.append_nil written).symm ▸ editing⟩
    rw [minifyLoop, editing.read_first]
    rfl
  | @blank byte text result isBlank behind inductionHypothesis =>
    obtain ⟨fuel, rfl⟩ := Nat.exists_eq_add_one_of_ne_zero enough.ne_bot
    rw [List.mem_cons, not_or] at free
    obtain ⟨after, ran, placed⟩ := inductionHypothesis (editing.skip 1) free.2
      (Nat.lt_of_succ_lt_succ enough)
    refine ⟨after, ?_, placed⟩
    rw [minifyLoop, editing.read_first]
    show (if byte = 0 then _ else _) = _
    rw [if_neg (Ne.symm free.1), if_pos isBlank, ran]
  | @line text rest result skipped behind inductionHypothesis =>
    obtain ⟨fuel, rfl⟩ := Nat.exists_eq_add_one_of_ne_zero enough.ne_bot
    have freeText := free_behind_two free
    have short := short_behind_two enough
    obtain ⟨middle, jumped, placed⟩ := skipped.run (editing.skip 2) freeText short
    obtain ⟨after, ran, last⟩ := inductionHypothesis placed
      (fun inRest => freeText (skipped.suffix.subset inRest))
      (skipped.suffix.length_le.trans_lt short)
    refine ⟨after, ?_, last⟩
    have second : state.read 1 = .ok '/'.toUInt8 := editing.read 1
    rw [minifyLoop, editing.read_first]
    show (state.read 1 >>= fun next => _) = _
    rw [second]
    show (skipOnelineComment fuel state >>= fun state => _) = _
    rw [skipOnelineComment, jumped]
    exact ran
  | @block text rest result skipped behind inductionHypothesis =>
    obtain ⟨fuel, rfl⟩ := Nat.exists_eq_add_one_of_ne_zero enough.ne_bot
    have freeText := free_behind_two free
    have short := short_behind_two enough
    obtain ⟨middle, jumped, placed⟩ := skipped.run (editing.skip 2) freeText short
    obtain ⟨after, ran, last⟩ := inductionHypothesis placed
      (fun inRest => freeText (skipped.suffix.subset inRest))
      (skipped.suffix.length_le.trans_lt short)
    refine ⟨after, ?_, last⟩
    have second : state.read 1 = .ok '*'.toUInt8 := editing.read 1
    rw [minifyLoop, editing.read_first]
    show (state.read 1 >>= fun next => _) = _
    rw [second]
    show (skipMultilineComment fuel state >>= fun state => _) = _
    rw [skipMultilineComment, jumped]
    exact ran
  | @slash text result alone behind inductionHypothesis =>
    obtain ⟨fuel, rfl⟩ := Nat.exists_eq_add_one_of_ne_zero enough.ne_bot
    rw [List.mem_cons, not_or] at free
    obtain ⟨after, ran, placed⟩ := inductionHypothesis (editing.skip 1) free.2
      (Nat.lt_of_succ_lt_succ enough)
    refine ⟨after, ?_, placed⟩
    rw [minifyLoop, editing.read_first]
    show (state.read 1 >>= fun next => _) = _
    rw [Editing.read_second editing]
    show (if text.head?.getD 0 = '/'.toUInt8 then _ else _) = _
    rw [if_neg (head_ne alone.1 (by decide)), if_neg (head_ne alone.2 (by decide)), ran]
  | @string text copied rest result copies behind inductionHypothesis =>
    obtain ⟨fuel, rfl⟩ := Nat.exists_eq_add_one_of_ne_zero enough.ne_bot
    rw [List.mem_cons, not_or] at free
    have short := Nat.lt_of_succ_lt_succ enough
    have suffix : rest <:+ text := copies.eq_append ▸ List.suffix_append copied rest
    obtain ⟨middle, jumped, placed⟩ := copies.run (Editing.copy editing) free.2 short
    obtain ⟨after, ran, last⟩ := inductionHypothesis placed
      (fun inRest => free.2 (suffix.subset inRest)) (suffix.length_le.trans_lt short)
    refine ⟨after, ?_, ?_⟩
    · rw [minifyLoop, editing.read_first]
      show (minifyString fuel state >>= fun state => _) = _
      rw [minifyString, editing.read_first]
      show ((state.write 0 '"'.toUInt8 >>= fun state => _) >>= fun state => _) = _
      rw [Editing.write editing]
      show (minifyStringLoop fuel (state.set '"'.toUInt8).advance >>= fun state => _) = _
      rw [jumped]
      exact ran
    · rw [List.append_assoc, List.append_assoc] at last
      exact last
  | @other byte text result ordinary behind inductionHypothesis =>
    obtain ⟨fuel, rfl⟩ := Nat.exists_eq_add_one_of_ne_zero enough.ne_bot
    rw [List.mem_cons, not_or] at free
    obtain ⟨after, ran, placed⟩ := inductionHypothesis (Editing.copy editing) free.2
      (Nat.lt_of_succ_lt_succ enough)
    refine ⟨after, ?_, ?_⟩
    · obtain ⟨noSpace, noTab, noReturn, noFeed⟩ := ordinary.notBlank
      rw [minifyLoop, editing.read_first]
      show (if byte = 0 then _ else _) = _
      rw [if_neg (Ne.symm free.1), if_neg (by simp [noSpace, noTab, noReturn, noFeed]),
        if_neg ordinary.notSlash, if_neg ordinary.notQuote, Editing.write editing]
      exact ran
    · rw [List.append_assoc] at placed
      exact placed

end Edit

/-! ### Every text -/

theorem exists_afterLine (text : List UInt8) : ∃ rest, AfterLine text rest := by
  induction text with
  | nil => exact ⟨[], .ended⟩
  | cons byte text inductionHypothesis =>
    obtain ⟨rest, behind⟩ := inductionHypothesis
    by_cases newline : byte = '\n'.toUInt8
    · exact ⟨text, newline ▸ .newline text⟩
    · exact ⟨rest, .other newline behind⟩

/-- A text that begins with a byte. -/
theorem eq_cons_of_head {text : List UInt8} {byte : UInt8} (begins : text.head? = some byte) :
    text = byte :: text.tail :=
  (List.cons_head?_tail begins).symm

theorem exists_afterBlock (text : List UInt8) : ∃ rest, AfterBlock text rest := by
  induction text with
  | nil => exact ⟨[], .ended⟩
  | cons byte text inductionHypothesis =>
    obtain ⟨rest, behind⟩ := inductionHypothesis
    by_cases closes : byte = '*'.toUInt8 ∧ text.head? = some '/'.toUInt8
    · rw [closes.1, eq_cons_of_head closes.2]
      exact ⟨text.tail, .closed text.tail⟩
    · exact ⟨rest, .other (fun star slash => closes ⟨star, slash⟩) behind⟩

theorem exists_copied (text : List UInt8) : ∃ copied rest, Copied text copied rest := by
  induction length : text.length using Nat.strong_induction_on generalizing text with
  | _ size inductionHypothesis =>
    subst length
    cases text with
    | nil => exact ⟨[], [], .ended⟩
    | cons byte text =>
      by_cases quote : byte = '"'.toUInt8
      · rw [quote]
        exact ⟨_, text, .closed text⟩
      by_cases escape : byte = '\\'.toUInt8 ∧ text.head? = some '"'.toUInt8
      · have shape := eq_cons_of_head escape.2
        have shorter : text.tail.length < (byte :: text).length := by
          rw [List.length_tail, List.length_cons]
          omega
        obtain ⟨copied, rest, copies⟩ := inductionHypothesis _ shorter text.tail rfl
        rw [shape, escape.1]
        exact ⟨_, rest, copies.escaped⟩
      · obtain ⟨copied, rest, copies⟩ := inductionHypothesis _ (Nat.lt_succ_self _) text rfl
        exact ⟨_, rest, copies.other quote fun backslash hidden => escape ⟨backslash, hidden⟩⟩

theorem exists_minified (text : List UInt8) : ∃ result, Minified text result := by
  induction length : text.length using Nat.strong_induction_on generalizing text with
  | _ size inductionHypothesis =>
    subst length
    cases text with
    | nil => exact ⟨[], .nil⟩
    | cons byte text =>
      have shorter {rest : List UInt8} (suffix : rest <:+ text) :
          ∃ result, Minified rest result :=
        inductionHypothesis _ (Nat.lt_succ_of_le suffix.length_le) rest rfl
      obtain ⟨result, behind⟩ := shorter List.suffix_rfl
      by_cases isBlank : byte = ' '.toUInt8 ∨ byte = '\t'.toUInt8 ∨ byte = '\r'.toUInt8 ∨
          byte = '\n'.toUInt8
      · exact ⟨result, .blank isBlank behind⟩
      by_cases slash : byte = '/'.toUInt8
      · subst slash
        by_cases line : text.head? = some '/'.toUInt8
        · obtain ⟨rest, skipped⟩ := exists_afterLine text.tail
          obtain ⟨result, behind⟩ := shorter (skipped.suffix.trans (List.tail_suffix text))
          rw [eq_cons_of_head line]
          exact ⟨result, .line skipped behind⟩
        by_cases block : text.head? = some '*'.toUInt8
        · obtain ⟨rest, skipped⟩ := exists_afterBlock text.tail
          obtain ⟨result, behind⟩ := shorter (skipped.suffix.trans (List.tail_suffix text))
          rw [eq_cons_of_head block]
          exact ⟨result, .block skipped behind⟩
        · exact ⟨result, .slash ⟨line, block⟩ behind⟩
      by_cases quote : byte = '"'.toUInt8
      · subst quote
        obtain ⟨copied, rest, copies⟩ := exists_copied text
        obtain ⟨result, behind⟩ := shorter (copies.eq_append ▸ List.suffix_append copied rest)
        exact ⟨_, .string copies behind⟩
      · simp only [not_or] at isBlank
        exact ⟨_, .other ⟨isBlank, slash, quote⟩ behind⟩

theorem minified_run {text result : List UInt8} (minified : Minified text result)
    (free : 0 ∉ text) (tail : List UInt8) :
    cJSONMinify (some (text ++ 0 :: tail)) =
      .ok (some (result ++ 0 :: (text ++ 0 :: tail).drop (result.length + 1))) := by
  have start : Editing (text ++ 0 :: tail) [] (text ++ 0 :: tail)
      { buffer := text ++ 0 :: tail } := ⟨rfl, rfl, rfl, le_rfl⟩
  have enough : text.length < (text ++ 0 :: tail).length := by
    rw [List.length_append, List.length_cons]
    omega
  obtain ⟨after, ran, placed⟩ := minified.run start free enough
  have buffer := placed.copy.buffer
  rw [List.nil_append, List.append_assoc, List.length_append] at buffer
  rw [cJSONMinify, ran]
  show (after.write 0 0 >>= fun state => _) = _
  rw [placed.write]
  exact congrArg (fun buffer => Except.ok (some buffer)) buffer

/-! ### A second run -/

/-- What is left is part of the text, in order. -/
theorem Minified.sublist {text result : List UInt8} (minified : Minified text result) :
    result.Sublist text := by
  induction minified with
  | nil => exact .slnil
  | blank _ _ inductionHypothesis => exact inductionHypothesis.cons _
  | line skipped _ inductionHypothesis =>
    exact ((inductionHypothesis.trans skipped.suffix.sublist).cons _).cons _
  | block skipped _ inductionHypothesis =>
    exact ((inductionHypothesis.trans skipped.suffix.sublist).cons _).cons _
  | slash _ _ inductionHypothesis => exact inductionHypothesis.cons _
  | string copies _ inductionHypothesis =>
    rw [copies.eq_append]
    exact ((List.Sublist.refl _).append inductionHypothesis).cons_cons _
  | other _ _ inductionHypothesis => exact inductionHypothesis.cons_cons _

/-- A string is copied the same way if another text follows it. One that is not closed has nothing
behind it. -/
theorem Copied.again {text copied rest result : List UInt8} (copies : Copied text copied rest)
    (ends : rest = [] → result = []) : Copied (copied ++ result) copied result := by
  induction copies with
  | ended =>
    rw [ends rfl]
    exact .ended
  | closed rest => exact .closed result
  | escaped _ inductionHypothesis => exact (inductionHypothesis ends).escaped
  | other noQuote noEscape behind inductionHypothesis =>
    refine .other noQuote (fun escape => ?_) (inductionHypothesis ends)
    have shown := noEscape escape
    cases behind with
    | ended =>
      rw [ends rfl]
      exact shown
    | closed => exact shown
    | escaped => exact shown
    | other => exact shown

theorem Minified.stays {text result : List UInt8} (minified : Minified text result) :
    Minified result result := by
  induction minified with
  | nil => exact .nil
  | blank _ _ inductionHypothesis => exact inductionHypothesis
  | line _ _ inductionHypothesis => exact inductionHypothesis
  | block _ _ inductionHypothesis => exact inductionHypothesis
  | slash _ _ inductionHypothesis => exact inductionHypothesis
  | string copies behind inductionHypothesis =>
    refine .string (copies.again fun empty => ?_) inductionHypothesis
    exact List.sublist_nil.mp (empty ▸ behind.sublist)
  | other ordinary _ inductionHypothesis => exact .other ordinary inductionHypothesis

theorem minified_run_twice {text result : List UInt8} (minified : Minified text result)
    (free : 0 ∉ text) (tail : List UInt8) :
    ∃ edited, edited = result ++ 0 :: (text ++ 0 :: tail).drop (result.length + 1) ∧
      cJSONMinify (some (text ++ 0 :: tail)) = .ok (some edited) ∧
      cJSONMinify (some edited) = .ok (some edited) := by
  refine ⟨_, rfl, minified_run minified free tail, ?_⟩
  have resultFree : 0 ∉ result := fun inResult => free (minified.sublist.subset inResult)
  rw [minified_run minified.stays resultFree]
  congr 4
  rw [← List.drop_drop, List.drop_left]
  rfl

/-- `cJSON_Minify` touches nothing but the text and its terminator, and leaves in place what the
relation says. The bytes behind the new terminator are those of the old text. A second run changes
nothing. -/
theorem cJSONMinify_minifies (text tail : List UInt8) (free : 0 ∉ text) :
    ∃ result edited, Minified text result ∧
      edited = result ++ 0 :: (text ++ 0 :: tail).drop (result.length + 1) ∧
      cJSONMinify (some (text ++ 0 :: tail)) = .ok (some edited) ∧
      cJSONMinify (some edited) = .ok (some edited) := by
  obtain ⟨result, minified⟩ := exists_minified text
  obtain ⟨edited, ran⟩ := minified_run_twice minified free tail
  exact ⟨result, edited, minified, ran⟩

theorem cJSONMinify_minifies_comment :
    ∃ result edited, Minified (ascii "[1, /* one */ 2]") result ∧
      edited = result ++ 0 :: (ascii "[1, /* one */ 2]" ++ 0 :: []).drop (result.length + 1) ∧
      cJSONMinify (some (ascii "[1, /* one */ 2]" ++ 0 :: [])) = .ok (some edited) ∧
      cJSONMinify (some edited) = .ok (some edited) :=
  cJSONMinify_minifies (ascii "[1, /* one */ 2]") [] (by decide)

/-! ### JSON texts -/

/-- A part of a text that becomes another part, whatever follows it. -/
def Shrinks (part result : List UInt8) : Prop :=
  ∀ behind rest, Minified behind rest → Minified (part ++ behind) (result ++ rest)

theorem Shrinks.append {part result other otherResult : List UInt8} (first : Shrinks part result)
    (second : Shrinks other otherResult) : Shrinks (part ++ other) (result ++ otherResult) := by
  intro behind rest minified
  rw [List.append_assoc, List.append_assoc]
  exact first _ _ (second _ _ minified)

theorem shrinks_of_blank {text : List UInt8} (isBlank : Blank text) : Shrinks text [] := by
  intro behind rest minified
  induction text with
  | nil => exact minified
  | cons byte text inductionHypothesis =>
    have here := isBlank byte List.mem_cons_self
    have bytes : ' '.toUInt8 = 0x20 ∧ '\t'.toUInt8 = 0x09 ∧ '\n'.toUInt8 = 0x0A ∧
        '\r'.toUInt8 = 0x0D := by decide
    refine .blank ?_ (inductionHypothesis fun other inText =>
      isBlank other (List.mem_cons_of_mem _ inText))
    rw [bytes.1, bytes.2.1, bytes.2.2.1, bytes.2.2.2]
    simpa [or_comm, or_left_comm] using here

theorem shrinks_of_ordinary {text : List UInt8} (ordinary : ∀ byte ∈ text, Ordinary byte) :
    Shrinks text text := by
  intro behind rest minified
  induction text with
  | nil => exact minified
  | cons byte text inductionHypothesis =>
    exact .other (ordinary byte List.mem_cons_self) (inductionHypothesis fun other inText =>
      ordinary other (List.mem_cons_of_mem _ inText))

instance (byte : UInt8) : Decidable (Ordinary byte) :=
  decidable_of_iff ((byte ≠ ' '.toUInt8 ∧ byte ≠ '\t'.toUInt8 ∧ byte ≠ '\r'.toUInt8 ∧
    byte ≠ '\n'.toUInt8) ∧ byte ≠ '/'.toUInt8 ∧ byte ≠ '"'.toUInt8)
    ⟨fun holds => ⟨holds.1, holds.2.1, holds.2.2⟩, fun holds => ⟨holds.1, holds.2, holds.3⟩⟩

theorem shrinks_of_all {text : List UInt8}
    (ordinary : (text.all fun byte => decide (Ordinary byte)) = true) : Shrinks text text :=
  shrinks_of_ordinary fun byte member =>
    of_decide_eq_true (List.all_eq_true.mp ordinary byte member)

/-- Brackets, commas and colons. -/
theorem shrinks_mark {byte : UInt8} (ordinary : Ordinary byte) {part result : List UInt8}
    (inner : Shrinks part result) : Shrinks (byte :: part) (byte :: result) :=
  (shrinks_of_ordinary (List.forall_mem_singleton.mpr ordinary)).append inner

/-- A content that does not end in a backslash. -/
def Unslashed (content : List UInt8) : Prop := content.getLast? ≠ some '\\'.toUInt8

theorem Unslashed.right {content more : List UInt8} (unslashed : Unslashed (content ++ more)) :
    Unslashed more := by
  intro slashed
  refine unslashed ?_
  rw [List.getLast?_append, slashed]
  rfl

/-- Bytes that are copied one by one. -/
theorem copied_plain {bytes text copied rest : List UInt8}
    (plain : ∀ byte ∈ bytes, byte ≠ '"'.toUInt8 ∧ byte ≠ '\\'.toUInt8)
    (behind : Copied text copied rest) : Copied (bytes ++ text) (bytes ++ copied) rest := by
  induction bytes with
  | nil => exact behind
  | cons byte bytes inductionHypothesis =>
    have here := plain byte List.mem_cons_self
    exact .other here.1 (fun escape => absurd escape here.2) (inductionHypothesis
      fun other inBytes => plain other (List.mem_cons_of_mem _ inBytes))

/-- A backslash in front of another byte than a quote. -/
theorem copied_backslash {letter : UInt8} {text copied rest : List UInt8}
    (noQuote : letter ≠ '"'.toUInt8) (behind : Copied (letter :: text) copied rest) :
    Copied ('\\'.toUInt8 :: letter :: text) ('\\'.toUInt8 :: copied) rest :=
  .other (by decide) (fun _ quote => noQuote (Option.some.inj quote)) behind

/-- An escaped code unit. -/
theorem copied_unit {digits text copied rest : List UInt8} {value : Nat}
    (quad : HexQuad digits value) (behind : Copied text copied rest) :
    Copied ('\\'.toUInt8 :: 'u'.toUInt8 :: (digits ++ text))
      ('\\'.toUInt8 :: 'u'.toUInt8 :: (digits ++ copied)) rest := by
  have plain : ∀ byte ∈ 'u'.toUInt8 :: digits, byte ≠ '"'.toUInt8 ∧ byte ≠ '\\'.toUInt8 := by
    rw [List.forall_mem_cons]
    exact ⟨by decide, fun byte inDigits => (quad.plain byte inDigits).2⟩
  exact copied_backslash (by decide) (copied_plain plain behind)

/-- The part of a string does not begin with a quote. -/
theorem head_charText {text content : List UInt8} (char : CharText text content) :
    ∃ byte rest, text = byte :: rest ∧ byte ≠ '"'.toUInt8 := by
  cases char with
  | plain byte visible noQuote noEscape => exact ⟨byte, [], rfl, noQuote⟩
  | short letter byte escape => exact ⟨_, _, rfl, by decide⟩
  | unit digits char hex => exact ⟨_, _, rfl, by decide⟩
  | pair high low char above highHex lowHex => exact ⟨_, _, rfl, by decide⟩

/-- A part of a string is copied as it is. An escaped backslash must not stand in front of the
closing quote. -/
theorem copied_charText {text content more copied rest : List UInt8} (char : CharText text content)
    (unhidden : content = ['\\'.toUInt8] → more.head? ≠ some '"'.toUInt8)
    (behind : Copied more copied rest) : Copied (text ++ more) (text ++ copied) rest := by
  cases char with
  | plain byte visible noQuote noEscape =>
    exact copied_plain (by simp [noQuote, noEscape]) behind
  | short letter byte escape =>
    by_cases quote : letter = '"'.toUInt8
    · subst quote
      exact behind.escaped
    · refine copied_backslash quote (.other quote (fun isBackslash => ?_) behind)
      subst isBackslash
      refine unhidden ?_
      simpa [shortEscapes, grammar_bytes] using escape
  | unit digits char hex => exact copied_unit hex behind
  | pair high low char above highHex lowHex =>
    have both := copied_unit highHex (copied_unit lowHex behind)
    simpa using both

theorem copied_body {body content : List UInt8} (string : StringBody body content)
    (unslashed : Unslashed content) (rest : List UInt8) :
    Copied (body ++ '"'.toUInt8 :: rest) (body ++ ['"'.toUInt8]) rest := by
  induction string with
  | nil => exact .closed rest
  | @cons text others content more first string inductionHypothesis =>
    rw [List.append_assoc, List.append_assoc]
    refine copied_charText first (fun isBackslash => ?_) (inductionHypothesis unslashed.right)
    cases string with
    | nil =>
      rw [isBackslash] at unslashed
      exact absurd rfl unslashed
    | cons second string =>
      obtain ⟨byte, part, begins, noQuote⟩ := head_charText second
      rw [begins]
      exact fun isQuote => noQuote (Option.some.inj isQuote)

theorem shrinks_of_stringText {text content : List UInt8} (writes : StringText text content)
    (unslashed : Unslashed content) : Shrinks text text := by
  obtain ⟨body, string, rfl⟩ := writes
  intro behind rest minified
  have whole := Minified.string (copied_body string unslashed behind) minified
  simpa using whole

theorem shrinks_of_numeral (numeral : Numeral) : Shrinks numeral.text numeral.text := by
  refine shrinks_of_ordinary fun byte member => ?_
  rcases numeral.mem_text member with digit | sign
  · simp only [isDigit, Bool.and_eq_true, decide_eq_true_eq] at digit
    obtain ⟨low, high⟩ := digit
    refine ⟨⟨?_, ?_, ?_, ?_⟩, ?_, ?_⟩ <;> (rintro rfl; revert low; decide)
  · simp only [List.mem_cons, List.not_mem_nil, or_false] at sign
    rcases sign with rfl | rfl | rfl | rfl | rfl <;> decide

mutual

/-- A document none of whose strings and names ends in a backslash. -/
def JsonUnslashed : Json → Prop
  | .null => True
  | .bool _ => True
  | .number _ => True
  | .string content => Unslashed content
  | .array elements => ElementsUnslashed elements
  | .object members => MembersUnslashed members

def ElementsUnslashed : List Json → Prop
  | [] => True
  | json :: others => JsonUnslashed json ∧ ElementsUnslashed others

def MembersUnslashed : List (List UInt8 × Json) → Prop
  | [] => True
  | (name, json) :: others => Unslashed name ∧ JsonUnslashed json ∧ MembersUnslashed others

end

section Grammar

variable {numberLength : Nat}

/-- Brackets, commas and colons stand for themselves. -/
theorem ordinary_marks : Ordinary '['.toUInt8 ∧ Ordinary ']'.toUInt8 ∧ Ordinary '\x7b'.toUInt8 ∧
    Ordinary '\x7d'.toUInt8 ∧ Ordinary ','.toUInt8 ∧ Ordinary ':'.toUInt8 := by
  decide

theorem shrinks_words : Shrinks (ascii "null") (ascii "null") ∧
    Shrinks (ascii "false") (ascii "false") ∧ Shrinks (ascii "true") (ascii "true") :=
  ⟨shrinks_of_all (by decide), shrinks_of_all (by decide), shrinks_of_all (by decide)⟩

theorem shrinks_empty {blank : List UInt8} {opening closing : UInt8} (opens : Ordinary opening)
    (isBlank : Blank blank) (closes : Ordinary closing) :
    Shrinks (opening :: (blank ++ [closing])) (opening :: ([] ++ [closing])) :=
  shrinks_mark opens ((shrinks_of_blank isBlank).append
    (shrinks_of_ordinary (List.forall_mem_singleton.mpr closes)))

theorem shrinks_enclosed {blank text result : List UInt8} {opening closing : UInt8}
    (opens : Ordinary opening) (isBlank : Blank blank) (inner : Shrinks text result)
    (closes : Ordinary closing) :
    Shrinks (opening :: (blank ++ text ++ [closing])) (opening :: ([] ++ result ++ [closing])) :=
  shrinks_mark opens (((shrinks_of_blank isBlank).append inner).append
    (shrinks_of_ordinary (List.forall_mem_singleton.mpr closes)))

theorem shrinks_separated {text result before after rest otherResult : List UInt8} {mark : UInt8}
    (first : Shrinks text result) (isBefore : Blank before) (isAfter : Blank after)
    (second : Shrinks rest otherResult) (ordinary : Ordinary mark) :
    Shrinks (text ++ before ++ mark :: (after ++ rest))
      (result ++ [] ++ mark :: ([] ++ otherResult)) :=
  (first.append (shrinks_of_blank isBefore)).append
    (shrinks_mark ordinary ((shrinks_of_blank isAfter).append second))

mutual

theorem shrinks_of_value {depth : Nat} {text : List UInt8} {json : Json} :
    Value numberLength depth text json → JsonUnslashed json →
      ∃ result, Shrinks text result ∧ Value numberLength depth result json
  | .null depth, _ => ⟨_, shrinks_words.1, .null depth⟩
  | .false depth, _ => ⟨_, shrinks_words.2.1, .false depth⟩
  | .true depth, _ => ⟨_, shrinks_words.2.2, .true depth⟩
  | .number depth numeral short, _ => ⟨_, shrinks_of_numeral numeral, .number depth numeral short⟩
  | .string depth writes, unslashed =>
    ⟨_, shrinks_of_stringText writes unslashed, .string depth writes⟩
  | .emptyArray depth isBlank, _ =>
    ⟨_, shrinks_empty ordinary_marks.1 isBlank ordinary_marks.2.1, .emptyArray depth blank_nil⟩
  | .array isBlank writes, unslashed => by
    obtain ⟨result, shrinks, wrote⟩ := shrinks_of_elements writes unslashed
    exact ⟨_, shrinks_enclosed ordinary_marks.1 isBlank shrinks ordinary_marks.2.1,
      .array blank_nil wrote⟩
  | .emptyObject depth isBlank, _ =>
    ⟨_, shrinks_empty ordinary_marks.2.2.1 isBlank ordinary_marks.2.2.2.1,
      .emptyObject depth blank_nil⟩
  | .object isBlank writes, unslashed => by
    obtain ⟨result, shrinks, wrote⟩ := shrinks_of_members writes unslashed
    exact ⟨_, shrinks_enclosed ordinary_marks.2.2.1 isBlank shrinks ordinary_marks.2.2.2.1,
      .object blank_nil wrote⟩

theorem shrinks_of_elements {depth : Nat} {text : List UInt8} {elements : List Json} :
    Elements numberLength depth text elements → ElementsUnslashed elements →
      ∃ result, Shrinks text result ∧ Elements numberLength depth result elements
  | .last writes isBlank, unslashed => by
    obtain ⟨result, shrinks, wrote⟩ := shrinks_of_value writes unslashed.1
    exact ⟨_, shrinks.append (shrinks_of_blank isBlank), .last wrote blank_nil⟩
  | .cons writes isBefore isAfter writesRest, unslashed => by
    obtain ⟨result, shrinks, wrote⟩ := shrinks_of_value writes unslashed.1
    obtain ⟨others, shrinksRest, wroteRest⟩ := shrinks_of_elements writesRest unslashed.2
    exact ⟨_, shrinks_separated shrinks isBefore isAfter shrinksRest ordinary_marks.2.2.2.2.1,
      .cons wrote blank_nil blank_nil wroteRest⟩

theorem shrinks_of_members {depth : Nat} {text : List UInt8}
    {members : List (List UInt8 × Json)} :
    Members numberLength depth text members → MembersUnslashed members →
      ∃ result, Shrinks text result ∧ Members numberLength depth result members
  | .last writes isBlank, unslashed => by
    obtain ⟨result, shrinks, wrote⟩ := shrinks_of_member writes unslashed.1 unslashed.2.1
    exact ⟨_, shrinks.append (shrinks_of_blank isBlank), .last wrote blank_nil⟩
  | .cons writes isBefore isAfter writesRest, unslashed => by
    obtain ⟨result, shrinks, wrote⟩ := shrinks_of_member writes unslashed.1 unslashed.2.1
    obtain ⟨others, shrinksRest, wroteRest⟩ := shrinks_of_members writesRest unslashed.2.2
    exact ⟨_, shrinks_separated shrinks isBefore isAfter shrinksRest ordinary_marks.2.2.2.2.1,
      .cons wrote blank_nil blank_nil wroteRest⟩

theorem shrinks_of_member {depth : Nat} {text name : List UInt8} {json : Json} :
    Member numberLength depth text name json → Unslashed name → JsonUnslashed json →
      ∃ result, Shrinks text result ∧ Member numberLength depth result name json
  | .intro named isBefore isAfter writes, unslashedName, unslashed => by
    obtain ⟨result, shrinks, wrote⟩ := shrinks_of_value writes unslashed
    exact ⟨_, shrinks_separated (shrinks_of_stringText named unslashedName) isBefore isAfter
      shrinks ordinary_marks.2.2.2.2.2, .intro named blank_nil blank_nil wrote⟩

end

theorem shrinks_of_jsonText {depth : Nat} {text : List UInt8} {json : Json}
    (writes : JsonText numberLength depth text json) (unslashed : JsonUnslashed json) :
    ∃ result, Shrinks text result ∧ JsonText numberLength depth result json := by
  obtain ⟨lead, body, trail, isLead, isTrail, value, rfl⟩ := writes
  obtain ⟨result, shrinks, wrote⟩ := shrinks_of_value value unslashed
  exact ⟨[] ++ (result ++ []), (shrinks_of_blank isLead).append
    (shrinks.append (shrinks_of_blank isTrail)), [], result, [], blank_nil, blank_nil, wrote, rfl⟩

end Grammar

theorem ofBuffer_terminated {text : List UInt8} (free : 0 ∉ text) (tail : List UInt8) :
    (CString.ofBuffer (text ++ 0 :: tail)).bytes = text := by
  show (text ++ 0 :: tail).takeWhile (fun byte => decide (byte ≠ 0)) = text
  rw [List.takeWhile_append_of_pos]
  · simp
  · intro byte member
    exact decide_eq_true fun zero => free (zero ▸ member)

/-- A JSON text none of whose strings ends in a backslash is minified to another text of the same
document, which is parsed as the same tree and which `cJSON_Minify` leaves as it is. -/
theorem cJSONMinify_keeps_json (marked : Bool) {text : List UInt8} (tail : List UInt8) {json : Json}
    (writes : JsonText 63 cJSONNestingLimit text json) (unslashed : JsonUnslashed json) :
    ∃ edited, cJSONMinify (some (utf8Bom marked ++ text ++ 0 :: tail)) = .ok (some edited) ∧
      cJSONMinify (some edited) = .ok (some edited) ∧
      (∃ result, JsonText 63 cJSONNestingLimit result json ∧
        (CString.ofBuffer edited).bytes = utf8Bom marked ++ result) ∧
      ∀ requireNullTerminated,
        cJSONParseWithOpts (CString.ofBuffer (utf8Bom marked ++ text ++ 0 :: tail))
            requireNullTerminated = .ok (CJSON.link [itemOf none json]) ∧
          cJSONParseWithOpts (CString.ofBuffer edited) requireNullTerminated =
            .ok (CJSON.link [itemOf none json]) := by
  obtain ⟨result, shrinks, wrote⟩ := shrinks_of_jsonText writes unslashed
  have mark : Shrinks (utf8Bom marked) (utf8Bom marked) :=
    shrinks_of_all (by cases marked <;> decide)
  have markFree : 0 ∉ utf8Bom marked := by cases marked <;> decide
  have free : 0 ∉ utf8Bom marked ++ text := by simp [markFree, writes.terminatorFree]
  have resultFree : 0 ∉ utf8Bom marked ++ result := by simp [markFree, wrote.terminatorFree]
  have minified := (mark.append shrinks) [] [] .nil
  rw [List.append_nil, List.append_nil] at minified
  obtain ⟨edited, rfl, first, second⟩ := minified_run_twice minified free tail
  have bytes := ofBuffer_terminated resultFree
    ((utf8Bom marked ++ text ++ 0 :: tail).drop ((utf8Bom marked ++ result).length + 1))
  exact ⟨_, first, second, ⟨result, wrote, bytes⟩, fun requireNullTerminated =>
    ⟨cJSONParseWithOpts_accepts _ marked requireNullTerminated writes
        (ofBuffer_terminated free tail),
      cJSONParseWithOpts_accepts _ marked requireNullTerminated wrote bytes⟩⟩

/-- The document `["a", " b"]`. -/
theorem cJSONMinify_keeps_json_strings :
    ∃ edited, cJSONMinify (some (utf8Bom false ++ ascii "[\"a\", \" b\"]" ++ 0 :: [])) =
        .ok (some edited) ∧
      cJSONMinify (some edited) = .ok (some edited) ∧
      (∃ result, JsonText 63 cJSONNestingLimit result
          (.array [.string (ascii "a"), .string (ascii " b")]) ∧
        (CString.ofBuffer edited).bytes = utf8Bom false ++ result) ∧
      ∀ requireNullTerminated,
        cJSONParseWithOpts (CString.ofBuffer (utf8Bom false ++ ascii "[\"a\", \" b\"]" ++ 0 :: []))
            requireNullTerminated = .ok (CJSON.link
              [itemOf none (.array [.string (ascii "a"), .string (ascii " b")])]) ∧
          cJSONParseWithOpts (CString.ofBuffer edited) requireNullTerminated = .ok (CJSON.link
            [itemOf none (.array [.string (ascii "a"), .string (ascii " b")])]) := by
  have plain (byte : UInt8) (visible : 0x20 ≤ byte ∧ byte ≠ '"'.toUInt8 ∧ byte ≠ '\\'.toUInt8) :
      CharText [byte] [byte] := .plain byte visible.1 visible.2.1 visible.2.2
  have first : StringText (ascii "\"a\"") (ascii "a") :=
    ⟨ascii "a", .cons (plain _ (by decide)) .nil, rfl⟩
  have second : StringText (ascii "\" b\"") (ascii " b") :=
    ⟨ascii " b", .cons (plain _ (by decide)) (.cons (plain _ (by decide)) .nil), rfl⟩
  have isBlank : Blank (ascii " ") := List.forall_mem_singleton.mpr (by decide)
  have elements : Elements 63 999
      (ascii "\"a\"" ++ [] ++ ','.toUInt8 :: (ascii " " ++ (ascii "\" b\"" ++ [])))
      [.string (ascii "a"), .string (ascii " b")] :=
    .cons (.string 999 first) blank_nil isBlank (.last (.string 999 second) blank_nil)
  refine cJSONMinify_keeps_json false [] ⟨[], _, [], blank_nil, blank_nil,
    .array blank_nil elements, rfl⟩ ⟨?_, ?_, trivial⟩
  · show (ascii "a").getLast? ≠ some '\\'.toUInt8
    decide
  · show (ascii " b").getLast? ≠ some '\\'.toUInt8
    decide

/-- The second string of `["\\", " x"]` loses its blank: its opening quote is taken for the end of
the first string. -/
example : cJSONMinify (some (ascii "[\"\\\\\", \" x\"]" ++ [0])) =
    .ok (some (ascii "[\"\\\\\", \"x\"]" ++ [0, 0])) := by
  decide

end DiffServSimulation
