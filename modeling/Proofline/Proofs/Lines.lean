import Mathlib.Data.List.Basic
import Proofline.Text.LineMap

/-!
# The lines of a text

A text is one line without a line feed, or such a line with a line feed and another text behind
it. A line map numbers the lines of the other text one higher and finds them further behind;
everything else it says of a text follows from that by induction on the lines.
-/

namespace Proofline

open Bytes (newline carriageReturn)

/-- Induction on the lines of a text, from the last one to the first. -/
@[elab_as_elim]
theorem Bytes.lineInduction {motive : Bytes → Prop}
    (last : ∀ line, newline ∉ line → motive line)
    (feed : ∀ line rest, newline ∉ line → motive rest → motive (line ++ newline :: rest))
    (text : Bytes) : motive text := by
  induction bound : text.length using Nat.strongRecOn generalizing text with
  | _ length ih =>
      by_cases holds : newline ∈ text
      · obtain ⟨line, rest, rfl, plain⟩ := List.eq_append_cons_of_mem holds
        have shorter : rest.length < length := by
          rw [← bound, List.length_append, List.length_cons]
          omega
        exact feed line rest plain (ih rest.length shorter rest rfl)
      · exact last text holds

section Offsets

variable {line : Bytes} {offset : Nat}

theorem offsetsAfterNewline_of_notMem (plain : newline ∉ line) :
    offsetsAfterNewline offset line = [] := by
  rw [← List.length_eq_zero_iff, length_offsetsAfterNewline, List.count_eq_zero]
  exact plain

theorem offsetsAfterNewline_append (offset : Nat) (line rest : Bytes) :
    offsetsAfterNewline offset (line ++ rest) =
      offsetsAfterNewline offset line ++ offsetsAfterNewline (offset + line.length) rest := by
  induction line generalizing offset with
  | nil => rfl
  | cons byte line ih =>
      have further : offset + 1 + line.length = offset + (line.length + 1) := by omega
      by_cases isFeed : byte = newline
      · simp [offsetsAfterNewline, isFeed, ih, further]
      · simp [offsetsAfterNewline, isFeed, ih, further]

theorem offsetsAfterNewline_add (offset further : Nat) (text : Bytes) :
    offsetsAfterNewline (offset + further) text =
      (offsetsAfterNewline offset text).map (· + further) := by
  induction text generalizing offset with
  | nil => rfl
  | cons byte rest ih =>
      have next : offset + further + 1 = offset + 1 + further := by omega
      by_cases isFeed : byte = newline
      · simp [offsetsAfterNewline, isFeed, next, ih]
      · simp [offsetsAfterNewline, isFeed, next, ih]

end Offsets

namespace LineMap

variable {line rest : Bytes} {number : Nat}

theorem starts_last (plain : newline ∉ line) : (ofText line).starts = [0] := by
  rw [ofText, offsetsAfterNewline_of_notMem plain]

/-- The lines behind the first one start where they start in the rest, behind the first line and
its line feed. -/
theorem starts_feed (plain : newline ∉ line) :
    (ofText (line ++ newline :: rest)).starts =
      0 :: (ofText rest).starts.map (· + (line.length + 1)) := by
  have behind : offsetsAfterNewline (line.length + 1) rest =
      (offsetsAfterNewline 0 rest).map (· + (line.length + 1)) := by
    rw [← offsetsAfterNewline_add, Nat.zero_add]
  simp [ofText, offsetsAfterNewline_append, offsetsAfterNewline_of_notMem plain,
    offsetsAfterNewline, behind]

theorem lineStart?_feed (plain : newline ∉ line) (isLine : 1 ≤ number) :
    (ofText (line ++ newline :: rest)).lineStart? (number + 1) =
      ((ofText rest).lineStart? number).map (· + (line.length + 1)) := by
  obtain ⟨before, rfl⟩ := Nat.exists_eq_add_of_le' isLine
  simp [lineStart?, starts_feed plain]

/-- The lines of the map are those up to the number of lines. -/
theorem lineStart?_eq_none_iff {map : LineMap} :
    map.lineStart? number = none ↔ number = 0 ∨ map.lineCount < number := by
  unfold lineStart? lineCount
  split
  · simp [*]
  · rw [List.getElem?_eq_none_iff]
    omega

/-- Outside of the lines of the map there is no text. -/
theorem lineText_eq_nil {map : LineMap} (outside : number = 0 ∨ map.lineCount < number) :
    map.lineText number = [] := by
  rw [lineText, lineStart?_eq_none_iff.mpr outside]

theorem lineCount_last (plain : newline ∉ line) : (ofText line).lineCount = 1 := by
  rw [lineCount, starts_last plain, List.length_singleton]

theorem lineCount_feed (plain : newline ∉ line) :
    (ofText (line ++ newline :: rest)).lineCount = (ofText rest).lineCount + 1 := by
  rw [lineCount, starts_feed plain, List.length_cons, List.length_map, lineCount]

/-- A line is not cut anywhere within. -/
theorem takeWhile_line_append (plain : newline ∉ line) (tail : Bytes) :
    (line ++ tail).takeWhile (fun byte => byte ≠ newline) =
      line ++ tail.takeWhile fun byte => byte ≠ newline :=
  List.takeWhile_append_of_pos fun _ mem => decide_eq_true (ne_of_mem_of_not_mem mem plain)

theorem lineText_one_last (plain : newline ∉ line) :
    (ofText line).lineText 1 = dropCarriageReturn line := by
  have whole := takeWhile_line_append plain []
  rw [List.takeWhile_nil, List.append_nil] at whole
  exact congrArg dropCarriageReturn whole

theorem lineText_one_feed (plain : newline ∉ line) :
    (ofText (line ++ newline :: rest)).lineText 1 = dropCarriageReturn line := by
  have upToFeed := takeWhile_line_append plain (newline :: rest)
  rw [List.takeWhile_cons_of_neg (by simp), List.append_nil] at upToFeed
  exact congrArg dropCarriageReturn upToFeed

theorem lineText_feed (plain : newline ∉ line) (isLine : 1 ≤ number) :
    (ofText (line ++ newline :: rest)).lineText (number + 1) = (ofText rest).lineText number := by
  rw [lineText, lineText, lineStart?_feed plain isLine]
  cases (ofText rest).lineStart? number with
  | none => rfl
  | some start =>
      have behindFeed : start + (line.length + 1) = line.length + (start + 1) := by omega
      have behind :
          (line ++ newline :: rest).drop (start + (line.length + 1)) = rest.drop start := by
        rw [behindFeed, List.drop_length_add_append, List.drop_succ_cons]
      simp [ofText, behind]

section CarriageReturns

theorem length_dropCarriageReturn (line : Bytes) :
    (dropCarriageReturn line).length =
      if line.getLast? = some carriageReturn then line.length - 1 else line.length := by
  unfold dropCarriageReturn
  split
  · exact List.length_dropLast
  · rfl

theorem length_dropCarriageReturn_le (line : Bytes) :
    (dropCarriageReturn line).length ≤ line.length := by
  rw [length_dropCarriageReturn]
  split
  · exact Nat.sub_le _ _
  · exact Nat.le_refl _

/-- At most a carriage return is dropped from a line. -/
theorem dropCarriageReturn_append (line : Bytes) :
    ∃ returned, (returned = [] ∨ returned = [carriageReturn]) ∧
      dropCarriageReturn line ++ returned = line := by
  unfold dropCarriageReturn
  split
  · rename_i returns
    exact ⟨[carriageReturn], Or.inr rfl, List.dropLast_append_getLast? _ returns⟩
  · exact ⟨[], Or.inl rfl, List.append_nil line⟩

end CarriageReturns

section Partition

theorem pairwise_starts (text : Bytes) : (ofText text).starts.Pairwise (· < ·) := by
  induction text using Bytes.lineInduction with
  | last line plain => simp [starts_last plain]
  | feed line rest plain ih =>
      rw [starts_feed plain, List.pairwise_cons, List.pairwise_map]
      constructor
      · intro start mem
        obtain ⟨former, _, rfl⟩ := List.mem_map.mp mem
        omega
      · exact ih.imp fun before => Nat.add_lt_add_right before _

/-- No line starts beyond the text. -/
theorem start_le_length (text : Bytes) : ∀ start ∈ (ofText text).starts, start ≤ text.length := by
  induction text using Bytes.lineInduction with
  | last line plain => simp [starts_last plain]
  | feed line rest plain ih =>
      intro start mem
      rw [starts_feed plain, List.mem_cons, List.mem_map] at mem
      rw [List.length_append, List.length_cons]
      rcases mem with rfl | ⟨former, isStart, rfl⟩
      · exact Nat.zero_le _
      · have within := ih former isStart
        omega

/-- Whether byte strings stand behind the texts of the lines of a map so that with them the lines
make up the text: a line feed, possibly behind a carriage return, and behind the last line at
most a carriage return. -/
structure Terminates (map : LineMap) (terminator : Nat → Bytes) : Prop where
  ends : ∀ line, 1 ≤ line → line < map.lineCount →
    terminator line = [newline] ∨ terminator line = [carriageReturn, newline]
  endsLast : terminator map.lineCount = [] ∨ terminator map.lineCount = [carriageReturn]
  parts : map.text =
    (List.range' 1 map.lineCount).flatMap fun line => map.lineText line ++ terminator line

/-- The lines of a text, each with what ends it, make up the text. -/
theorem exists_terminates (text : Bytes) : ∃ terminator, (ofText text).Terminates terminator := by
  induction text using Bytes.lineInduction with
  | last line plain =>
      obtain ⟨returned, isReturned, parts⟩ := dropCarriageReturn_append line
      refine ⟨fun _ => returned, ?_, isReturned, ?_⟩
      · rw [lineCount_last plain]
        intros
        omega
      · rw [lineCount_last plain, List.range'_one, List.flatMap_singleton, lineText_one_last plain,
          parts]
        rfl
  | feed line rest plain ih =>
      obtain ⟨terminator, ends, endsLast, parts⟩ := ih
      obtain ⟨returned, isReturned, parted⟩ := dropCarriageReturn_append line
      -- The lines of the rest are numbered one higher, and so is what ends them.
      refine ⟨fun number => if number = 1 then returned ++ [newline] else terminator (number - 1),
        ?_, ?_, ?_⟩
      · intro number positive before
        rw [lineCount_feed plain] at before
        by_cases first : number = 1
        · rcases isReturned with rfl | rfl
          · simp [first]
          · simp [first]
        · simpa only [if_neg first] using ends (number - 1) (by omega) (by omega)
      · have counted := lineCount_ofText rest
        rw [lineCount_feed plain, if_neg (by omega), Nat.add_sub_cancel]
        exact endsLast
      · have others : ∀ number ∈ List.range' 1 (ofText rest).lineCount,
            (ofText (line ++ newline :: rest)).lineText (1 + number) ++
                (if 1 + number = 1 then returned ++ [newline] else terminator (1 + number - 1)) =
              (ofText rest).lineText number ++ terminator number := by
          intro number mem
          have isLine : 1 ≤ number := (List.mem_range'_1.mp mem).1
          rw [if_neg (by omega), Nat.add_sub_cancel_left, Nat.add_comm, lineText_feed plain isLine]
        rw [lineCount_feed plain, List.range'_succ, List.flatMap_cons, lineText_one_feed plain,
          ← List.map_add_range', List.flatMap_map, List.flatMap_congr others, ← parts, if_pos rfl,
          ← List.append_assoc, parted]
        simp [ofText]

end Partition

end LineMap

end Proofline
