import Mathlib.Data.List.TakeWhile
import Proofline.Proofs.Lines

/-!
# Coordinates

Offsets and positions of a text go over into one another and keep their order. Only a carriage
return at the end of a line stands in the way, since it has an offset but is no part of the line:
whoever stands behind it is put in front of it.
-/

namespace Proofline

open Bytes (newline carriageReturn)

namespace Position

/-- The same column one line further down. -/
def down (position : Position) : Position :=
  { position with line := position.line + 1 }

theorem down_lt_down_iff {former latter : Position} :
    former.down < latter.down ↔ former < latter := by
  simp [lt_iff, down]

/-- A position stands on no line, on the first one, or below another position. -/
theorem line_cases (position : Position) :
    position.line = 0 ∨ position.line = 1 ∨ ∃ upper : Position, 1 ≤ upper.line ∧
      position = upper.down := by
  obtain ⟨line, col⟩ := position
  match line with
  | 0 => exact Or.inl rfl
  | 1 => exact Or.inr (Or.inl rfl)
  | line + 2 => exact Or.inr (Or.inr ⟨{ line := line + 1, col }, Nat.le_add_left 1 line, rfl⟩)

/-- Of two positions in order, either the first is on no line, or both are on the first line, or
only the first one is, or both are below others in the same order. -/
theorem lt_cases {former latter : Position} (before : former < latter) :
    former.line = 0 ∨ (former.line = 1 ∧ latter.line = 1 ∧ former.col ≤ latter.col) ∨
      (former.line = 1 ∧ ∃ lower : Position, 1 ≤ lower.line ∧ latter = lower.down) ∨
      ∃ upper lower : Position, 1 ≤ upper.line ∧ 1 ≤ lower.line ∧ former = upper.down ∧
        latter = lower.down ∧ upper < lower := by
  have inOrder := (lt_iff former latter).mp before
  rcases former.line_cases with isZero | first | ⟨upper, upperIsLine, rfl⟩
  · exact Or.inl isZero
  · rcases latter.line_cases with isZero | second | ⟨lower, isLine, rfl⟩
    · omega
    · exact Or.inr (Or.inl ⟨first, second, by omega⟩)
    · exact Or.inr (Or.inr (Or.inl ⟨first, lower, isLine, rfl⟩))
  · have notFirst : upper.down.line = upper.line + 1 := rfl
    rcases latter.line_cases with isZero | second | ⟨lower, isLine, rfl⟩
    · omega
    · omega
    · exact Or.inr (Or.inr (Or.inr ⟨upper, lower, upperIsLine, isLine, rfl, rfl,
        down_lt_down_iff.mp before⟩))

theorem eq_of_first {position : Position} (isFirst : position.line = 1)
    (isCol : 1 ≤ position.col) : { line := 1, col := 1 + (position.col - 1) } = position := by
  obtain ⟨line, col⟩ := position
  simp only [mk.injEq]
  exact ⟨isFirst.symm, Nat.add_sub_cancel' isCol⟩

end Position

namespace LineMap

variable {line rest : Bytes} {offset : Nat} {position : Position}

section Positions

variable {text : Bytes} {reached : List Nat}

theorem starts_eq (text : Bytes) : (ofText text).starts = 0 :: offsetsAfterNewline 0 text := rfl

/-- The position of an offset counts the lines that start up to there. -/
theorem positionOf_eq (within : offset ≤ text.length)
    (isReached : (ofText text).starts.takeWhile (· ≤ offset) = reached) :
    (ofText text).positionOf offset =
      { line := reached.length, col := 1 + (offset - reached.getLast?.getD 0) } := by
  have clamped : min offset (ofText text).text.length = offset := Nat.min_eq_left within
  rw [positionOf, clamped, isReached]

theorem positionOf_one_last (plain : newline ∉ line) (within : offset ≤ line.length) :
    (ofText line).positionOf offset = { line := 1, col := 1 + offset } := by
  have reached : (ofText line).starts.takeWhile (· ≤ offset) = [0] := by simp [starts_last plain]
  simp [positionOf_eq within reached]

/-- All other lines start behind the line feed of the first one. -/
theorem positionOf_one_feed (plain : newline ∉ line) (within : offset ≤ line.length) :
    (ofText (line ++ newline :: rest)).positionOf offset = { line := 1, col := 1 + offset } := by
  have reached :
      (ofText (line ++ newline :: rest)).starts.takeWhile (· ≤ offset) = [0] := by
    have beyond : ¬line.length + 1 ≤ offset := by omega
    rw [starts_feed plain, starts_eq]
    simp [beyond]
  rw [positionOf_eq _ reached]
  · simp
  · rw [List.length_append]
    omega

/-- Offsets behind the first line have the positions they have in the rest, one line further
down. -/
theorem positionOf_feed (plain : newline ∉ line) (within : offset ≤ rest.length) :
    (ofText (line ++ newline :: rest)).positionOf (line.length + 1 + offset) =
      ((ofText rest).positionOf offset).down := by
  obtain ⟨others, isReached⟩ :
      ∃ others, (ofText rest).starts.takeWhile (· ≤ offset) = 0 :: others := by
    rw [starts_eq]
    exact ⟨_, List.takeWhile_cons_of_pos (by simp)⟩
  have sameOrder : (fun start => decide (start ≤ line.length + 1 + offset)) ∘
      (· + (line.length + 1)) = fun start => decide (start ≤ offset) := by
    funext start
    simp only [Function.comp_apply, decide_eq_decide]
    omega
  have reached : (ofText (line ++ newline :: rest)).starts.takeWhile
      (· ≤ line.length + 1 + offset) = 0 :: (0 :: others).map (· + (line.length + 1)) := by
    rw [starts_feed plain, List.takeWhile_cons_of_pos (by simp), List.takeWhile_map, sameOrder,
      isReached]
  rw [positionOf_eq within isReached, positionOf_eq _ reached]
  · obtain ⟨last, isLast⟩ : ∃ last, (0 :: others).getLast? = some last :=
      ⟨_, List.getLast?_eq_some_getLast (List.cons_ne_nil 0 others)⟩
    have isShifted : (0 :: (0 :: others).map (· + (line.length + 1))).getLast? =
        some (last + (line.length + 1)) := by
      rw [List.map_cons, List.getLast?_cons_cons, ← List.map_cons (f := (· + (line.length + 1))),
        List.getLast?_map, isLast, Option.map_some]
    rw [isShifted, isLast]
    simp only [Position.down, List.length_cons, List.length_map, Option.getD_some,
      Position.mk.injEq, true_and]
    omega
  · rw [List.length_append, List.length_cons]
    omega

/-- Offsets beyond a text stand for its end. -/
theorem positionOf_of_length_le (beyond : text.length ≤ offset) :
    (ofText text).positionOf offset = (ofText text).positionOf text.length := by
  have clamped : min offset (ofText text).text.length =
      min text.length (ofText text).text.length := by
    rw [show (ofText text).text = text from rfl]
    omega
  simp only [positionOf, clamped]

/-- Every offset has a line. -/
theorem one_le_line_positionOf (text : Bytes) (offset : Nat) :
    1 ≤ ((ofText text).positionOf offset).line := by
  rw [positionOf, starts_eq, List.takeWhile_cons_of_pos (by simp)]
  exact Nat.le_add_left 1 _

/-- An offset of a text with several lines is in the first one, or behind it in the rest. -/
theorem offset_cases (within : offset ≤ (line ++ newline :: rest).length) :
    offset ≤ line.length ∨
      ∃ further, further ≤ rest.length ∧ offset = line.length + 1 + further := by
  rw [List.length_append, List.length_cons] at within
  by_cases first : offset ≤ line.length
  · exact Or.inl first
  · exact Or.inr ⟨offset - (line.length + 1), by omega, by omega⟩

end Positions

section Offsets

theorem offsetOf_of_line_eq_zero {map : LineMap} (isZero : position.line = 0) :
    map.offsetOf position = 0 :=
  if_pos isZero

theorem offsetOf_one_last (plain : newline ∉ line) (isFirst : position.line = 1) :
    (ofText line).offsetOf position = min (position.col - 1) (dropCarriageReturn line).length := by
  rw [← lineText_one_last plain, offsetOf, isFirst]
  exact Nat.zero_add _

theorem offsetOf_one_feed (plain : newline ∉ line) (isFirst : position.line = 1) :
    (ofText (line ++ newline :: rest)).offsetOf position =
      min (position.col - 1) (dropCarriageReturn line).length := by
  have isText : (ofText (line ++ newline :: rest)).lineText 1 = dropCarriageReturn line :=
    lineText_one_feed plain
  rw [← isText, offsetOf, isFirst]
  exact Nat.zero_add _

/-- Below the last line is the end of the text. -/
theorem offsetOf_last (plain : newline ∉ line) (isLine : 1 ≤ position.line) :
    (ofText line).offsetOf position.down = line.length := by
  have below : position.down.line ≠ 0 := Nat.succ_ne_zero position.line
  have missing : (ofText line).lineStart? position.down.line = none := by
    rw [lineStart?_eq_none_iff, lineCount_last plain]
    exact Or.inr (Nat.lt_succ_of_le isLine)
  rw [offsetOf, if_neg below, missing]
  rfl

/-- Positions below the first line have the offsets they have in the rest, one line higher. -/
theorem offsetOf_feed (plain : newline ∉ line) (isLine : 1 ≤ position.line) :
    (ofText (line ++ newline :: rest)).offsetOf position.down =
      line.length + 1 + (ofText rest).offsetOf position := by
  simp only [offsetOf, Position.down, if_neg (Nat.succ_ne_zero _), if_neg (Nat.ne_of_gt isLine),
    lineStart?_feed plain isLine, lineText_feed plain isLine]
  cases (ofText rest).lineStart? position.line with
  | none =>
      simp only [ofText, Option.map_none, List.length_append, List.length_cons]
      omega
  | some start =>
      simp only [Option.map_some]
      omega

end Offsets

section CarriageReturns

variable {first : Bytes}

/-- Whether an offset is behind a carriage return that ends a line: the line ends there, at the
end of the text or at a line feed, and the byte before is a carriage return. -/
def FollowsReturn (text : Bytes) (offset : Nat) : Prop :=
  1 ≤ offset ∧ text[offset - 1]? = some carriageReturn ∧
    (offset = text.length ∨ text[offset]? = some newline)

instance (text : Bytes) (offset : Nat) : Decidable (FollowsReturn text offset) :=
  inferInstanceAs (Decidable (_ ∧ _ ∧ _))

/-- In a text that begins like its first line, and where this line ends at its length alone, a
carriage return is followed in the first line only at its end. -/
theorem followsReturn_iff_of_ends {text : Bytes} (within : offset ≤ first.length)
    (same : ∀ place, place < first.length → text[place]? = first[place]?)
    (ends : (offset = text.length ∨ text[offset]? = some newline) ↔ offset = first.length) :
    FollowsReturn text offset ↔ offset = first.length ∧ first.getLast? = some carriageReturn := by
  rw [FollowsReturn, ends, List.getLast?_eq_getElem?]
  constructor
  · rintro ⟨positive, returns, rfl⟩
    rw [same _ (by omega)] at returns
    exact ⟨rfl, returns⟩
  · rintro ⟨rfl, returns⟩
    have nonempty : 1 ≤ first.length := by
      by_contra empty
      rw [List.getElem?_eq_none (by omega)] at returns
      contradiction
    exact ⟨nonempty, (same _ (by omega)).trans returns, rfl⟩

theorem followsReturn_one_last (plain : newline ∉ first) (within : offset ≤ first.length) :
    FollowsReturn first offset ↔
      offset = first.length ∧ first.getLast? = some carriageReturn := by
  refine followsReturn_iff_of_ends within (fun _ _ => rfl) ?_
  have noFeed : first[offset]? ≠ some newline := fun found => plain (List.mem_of_getElem? found)
  simp [noFeed]

theorem followsReturn_one_feed (plain : newline ∉ first) (within : offset ≤ first.length) :
    FollowsReturn (first ++ newline :: rest) offset ↔
      offset = first.length ∧ first.getLast? = some carriageReturn := by
  refine followsReturn_iff_of_ends within (fun _ before => List.getElem?_append_left before) ?_
  constructor
  · rintro (atEnd | feeds)
    · rw [List.length_append, List.length_cons] at atEnd
      omega
    · by_contra inside
      rw [List.getElem?_append_left (by omega)] at feeds
      exact plain (List.mem_of_getElem? feeds)
  · rintro rfl
    simp

/-- Behind the first line, carriage returns are followed where they are in the rest. -/
theorem followsReturn_feed :
    FollowsReturn (first ++ newline :: rest) (first.length + 1 + offset) ↔
      FollowsReturn rest offset := by
  cases offset with
  | zero =>
      have different : newline ≠ carriageReturn := by decide
      simp [FollowsReturn, different]
  | succ offset =>
      have shifted (place : Nat) :
          (first ++ newline :: rest)[first.length + 1 + place]? = rest[place]? := by
        have behind : first.length + 1 + place - first.length = place + 1 := by omega
        rw [List.getElem?_append_right (by omega), behind, List.getElem?_cons_succ]
      have before : first.length + 1 + (offset + 1) - 1 = first.length + 1 + offset := by omega
      have atEnd : first.length + 1 + (offset + 1) = (first ++ newline :: rest).length ↔
          offset + 1 = rest.length := by
        rw [List.length_append, List.length_cons]
        omega
      have positive : 1 ≤ first.length + 1 + (offset + 1) := by omega
      simp only [FollowsReturn, before, shifted, atEnd, Nat.add_sub_cancel]
      simp [positive]

/-- Within a line only the offset behind its carriage return is cut. -/
theorem min_length_dropCarriageReturn (within : offset ≤ line.length) :
    min offset (dropCarriageReturn line).length =
      if offset = line.length ∧ line.getLast? = some carriageReturn then offset - 1
      else offset := by
  rw [length_dropCarriageReturn]
  by_cases returns : line.getLast? = some carriageReturn
  · simp only [returns, and_true, if_true]
    split
    · omega
    · omega
  · simp only [returns, and_false, if_false]
    omega

end CarriageReturns

section Laws

variable {text : Bytes}

/-- No position has an offset beyond the text. -/
theorem offsetOf_le_length (text : Bytes) (position : Position) :
    (ofText text).offsetOf position ≤ text.length := by
  induction text using Bytes.lineInduction generalizing position with
  | last line plain =>
      rcases position.line_cases with isZero | isFirst | ⟨upper, isLine, rfl⟩
      · rw [offsetOf_of_line_eq_zero isZero]
        exact Nat.zero_le _
      · rw [offsetOf_one_last plain isFirst]
        exact (Nat.min_le_right _ _).trans (length_dropCarriageReturn_le line)
      · rw [offsetOf_last plain isLine]
  | feed line rest plain ih =>
      rw [List.length_append, List.length_cons]
      rcases position.line_cases with isZero | isFirst | ⟨upper, isLine, rfl⟩
      · rw [offsetOf_of_line_eq_zero isZero]
        exact Nat.zero_le _
      · have shorter := length_dropCarriageReturn_le line
        rw [offsetOf_one_feed plain isFirst]
        omega
      · have inRest := ih upper
        rw [offsetOf_feed plain isLine]
        omega

/-- The position of an offset has this offset, unless a carriage return that ends a line stands
right before it. -/
theorem offsetOf_positionOf (within : offset ≤ text.length) :
    (ofText text).offsetOf ((ofText text).positionOf offset) =
      if FollowsReturn text offset then offset - 1 else offset := by
  induction text using Bytes.lineInduction generalizing offset with
  | last line plain =>
      rw [positionOf_one_last plain within, offsetOf_one_last plain rfl, Nat.add_sub_cancel_left,
        min_length_dropCarriageReturn within]
      simp only [followsReturn_one_last plain within]
  | feed line rest plain ih =>
      rcases offset_cases within with first | ⟨further, inRest, rfl⟩
      · rw [positionOf_one_feed plain first, offsetOf_one_feed plain rfl, Nat.add_sub_cancel_left,
          min_length_dropCarriageReturn first]
        simp only [followsReturn_one_feed plain first]
      · rw [positionOf_feed plain inRest, offsetOf_feed plain (one_le_line_positionOf rest further),
          ih inRest]
        simp only [followsReturn_feed]
        split
        · rename_i follows
          have positive := follows.1
          omega
        · rfl

/-- A position within the lines of a text, with a column up to the end of its line, is that of its
offset. -/
theorem positionOf_offsetOf (isLine : 1 ≤ position.line)
    (notBelow : position.line ≤ (ofText text).lineCount) (isCol : 1 ≤ position.col)
    (within : position.col ≤ ((ofText text).lineText position.line).length + 1) :
    (ofText text).positionOf ((ofText text).offsetOf position) = position := by
  induction text using Bytes.lineInduction generalizing position with
  | last line plain =>
      rw [lineCount_last plain] at notBelow
      have isFirst := Nat.le_antisymm notBelow isLine
      rw [isFirst, lineText_one_last plain] at within
      have shorter := length_dropCarriageReturn_le line
      have inside : position.col - 1 ≤ (dropCarriageReturn line).length := by omega
      rw [offsetOf_one_last plain isFirst, Nat.min_eq_left inside,
        positionOf_one_last plain (inside.trans shorter)]
      exact Position.eq_of_first isFirst isCol
  | feed line rest plain ih =>
      rcases position.line_cases with isZero | isFirst | ⟨upper, upperIsLine, rfl⟩
      · omega
      · rw [isFirst, lineText_one_feed plain] at within
        have shorter := length_dropCarriageReturn_le line
        have inside : position.col - 1 ≤ (dropCarriageReturn line).length := by omega
        rw [offsetOf_one_feed plain isFirst, Nat.min_eq_left inside,
          positionOf_one_feed plain (inside.trans shorter)]
        exact Position.eq_of_first isFirst isCol
      · rw [lineCount_feed plain] at notBelow
        have sameText : (ofText (line ++ newline :: rest)).lineText upper.down.line =
            (ofText rest).lineText upper.line := lineText_feed plain upperIsLine
        have upperWithin : upper.col ≤ ((ofText rest).lineText upper.line).length + 1 :=
          sameText ▸ within
        rw [offsetOf_feed plain upperIsLine, positionOf_feed plain (offsetOf_le_length rest upper),
          ih upperIsLine (Nat.le_of_succ_le_succ notBelow) isCol upperWithin]

/-- Of two offsets of a text the first has the first position. -/
theorem positionOf_lt_positionOf {former latter : Nat} (before : former < latter)
    (within : latter ≤ text.length) :
    (ofText text).positionOf former < (ofText text).positionOf latter := by
  induction text using Bytes.lineInduction generalizing former latter with
  | last line plain =>
      rw [positionOf_one_last plain (before.le.trans within), positionOf_one_last plain within,
        Position.lt_iff]
      exact Or.inr ⟨rfl, Nat.add_lt_add_left before 1⟩
  | feed line rest plain ih =>
      rcases offset_cases within with latterFirst | ⟨further, inRest, rfl⟩
      · rw [positionOf_one_feed plain (before.le.trans latterFirst),
          positionOf_one_feed plain latterFirst, Position.lt_iff]
        exact Or.inr ⟨rfl, Nat.add_lt_add_left before 1⟩
      rcases offset_cases (before.le.trans within) with first | ⟨nearer, nearerInRest, rfl⟩
      · rw [positionOf_one_feed plain first, positionOf_feed plain inRest, Position.lt_iff]
        exact Or.inl (Nat.lt_succ_of_le (one_le_line_positionOf rest further))
      · rw [positionOf_feed plain nearerInRest, positionOf_feed plain inRest,
          Position.down_lt_down_iff]
        exact ih (by omega) inRest

/-- Of two positions the first has no greater offset. -/
theorem offsetOf_le_offsetOf {former latter : Position} (before : former < latter) :
    (ofText text).offsetOf former ≤ (ofText text).offsetOf latter := by
  induction text using Bytes.lineInduction generalizing former latter with
  | last line plain =>
      have shorter := length_dropCarriageReturn_le line
      rcases Position.lt_cases before with isZero | ⟨first, second, cols⟩ |
        ⟨first, lower, isLine, rfl⟩ | ⟨upper, lower, upperIsLine, isLine, rfl, rfl, _⟩
      · rw [offsetOf_of_line_eq_zero isZero]
        exact Nat.zero_le _
      · rw [offsetOf_one_last plain first, offsetOf_one_last plain second]
        omega
      · rw [offsetOf_one_last plain first, offsetOf_last plain isLine]
        omega
      · rw [offsetOf_last plain upperIsLine, offsetOf_last plain isLine]
  | feed line rest plain ih =>
      have shorter := length_dropCarriageReturn_le line
      rcases Position.lt_cases before with isZero | ⟨first, second, cols⟩ |
        ⟨first, lower, isLine, rfl⟩ | ⟨upper, lower, upperIsLine, isLine, rfl, rfl, beforeToo⟩
      · rw [offsetOf_of_line_eq_zero isZero]
        exact Nat.zero_le _
      · rw [offsetOf_one_feed plain first, offsetOf_one_feed plain second]
        omega
      · rw [offsetOf_one_feed plain first, offsetOf_feed plain isLine]
        omega
      · rw [offsetOf_feed plain upperIsLine, offsetOf_feed plain isLine]
        exact Nat.add_le_add_left (ih beforeToo) _

end Laws

/-- Offsets within a text and their positions go over into one another: from an offset to its
position and back, except that a carriage return at the end of a line is stepped over backwards,
and from any position within the lines to its offset and back. Both ways the order is kept,
strictly so for offsets; beyond the text there are no further positions, and no position has an
offset there. -/
theorem mapsCoordinates (text : Bytes) :
    let map := ofText text
    (∀ offset, offset ≤ text.length →
      map.offsetOf (map.positionOf offset) =
        if FollowsReturn text offset then offset - 1 else offset) ∧
    (∀ offset, text.length ≤ offset → map.positionOf offset = map.positionOf text.length) ∧
    (∀ position : Position, 1 ≤ position.line → position.line ≤ map.lineCount →
      1 ≤ position.col → position.col ≤ (map.lineText position.line).length + 1 →
      map.positionOf (map.offsetOf position) = position) ∧
    (∀ former latter, former < latter → latter ≤ text.length →
      map.positionOf former < map.positionOf latter) ∧
    (∀ former latter : Position, former < latter →
      map.offsetOf former ≤ map.offsetOf latter) ∧
    ∀ position, map.offsetOf position ≤ text.length :=
  ⟨fun _ => offsetOf_positionOf, fun _ => positionOf_of_length_le,
    fun _ => positionOf_offsetOf, fun _ _ => positionOf_lt_positionOf,
    fun _ _ => offsetOf_le_offsetOf, offsetOf_le_length text⟩

/-- In the text of a first line that ends in a carriage return and a line feed, and a second line
of a carriage return alone, the offset of the line feed goes over into that of the carriage
return, and so does the end of the text; the end of the first line does not change. -/
theorem mapsCoordinates_sample :
    let text : Bytes := [97, 13, 10, 13]
    let map := ofText text
    map.offsetOf (map.positionOf 2) = 1 ∧ map.offsetOf (map.positionOf 4) = 3 ∧
      map.positionOf 9 = map.positionOf 4 ∧
      map.positionOf (map.offsetOf { line := 1, col := 2 }) = { line := 1, col := 2 } ∧
      map.positionOf 2 < map.positionOf 3 ∧
      map.offsetOf { line := 2, col := 7 } ≤ map.offsetOf { line := 9, col := 0 } := by
  intro text map
  have maps := mapsCoordinates text
  refine ⟨?_, ?_, maps.2.1 9 (by decide), maps.2.2.1 _ (by decide) (by decide) (by decide)
    (by decide), maps.2.2.2.1 2 3 (by decide) (by decide), maps.2.2.2.2.1 _ _ (by decide)⟩
  · exact (maps.1 2 (by decide)).trans (if_pos (by decide))
  · exact (maps.1 4 (by decide)).trans (if_pos (by decide))

end LineMap

end Proofline
