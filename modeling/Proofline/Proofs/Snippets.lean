import Proofline.Diagnostic.Rendering
import Proofline.Proofs.Lines

/-!
# Snippets

A snippet shows a line of a document and a caret below it. Since no line has a line feed, a
snippet has three lines, and the caret stands below the byte that has the position of the
snippet; or behind the line, if the line is shorter.
-/

namespace Proofline

open Bytes (newline blank ofText)

namespace LineMap

variable {line : Nat}

/-- The columns of a line are counted from its start, up to its end. -/
theorem offsetOf_sub_offsetOf_start {map : LineMap} (isLine : 1 ≤ line)
    (notBelow : line ≤ map.lineCount) (col : Nat) :
    map.offsetOf { line, col } - map.offsetOf { line, col := 1 } =
      min (col - 1) (map.lineText line).length := by
  obtain ⟨start, found⟩ : ∃ start, map.lineStart? line = some start := by
    rw [← Option.ne_none_iff_exists', ne_eq, lineStart?_eq_none_iff]
    omega
  simp only [offsetOf, if_neg (Nat.ne_of_gt isLine), found]
  omega

end LineMap

section Snippets

variable {document : Document} {line : Nat}

/-- The lines of a snippet: one to set it off, the line that is shown, and the caret. -/
def snippetLines (text : Bytes) (indent : Nat) : List Bytes :=
  [ofText "  |", ofText "  | " ++ text, ofText "  | " ++ List.replicate indent blank ++ ofText "^"]

/-- The lines of a snippet are lines. -/
theorem newline_notMem_of_mem_snippetLines {text : Bytes} (plain : newline ∉ text) (indent : Nat) :
    ∀ shown ∈ snippetLines text indent, newline ∉ shown := by
  have margin : newline ∉ ofText "  | " := by decide
  have caret : newline ∉ ofText "^" := by decide
  have notBlank : newline ≠ blank := by decide
  intro shown mem
  simp only [snippetLines, List.mem_cons, List.not_mem_nil, or_false] at mem
  rcases mem with rfl | rfl | rfl
  · decide
  · simp [margin, plain]
  · simp [margin, caret, notBlank, List.mem_replicate]

/-- A snippet is its lines, each with a line feed. -/
theorem renderSnippet_eq (isLine : 1 ≤ line)
    (notBelow : line ≤ (LineMap.ofText document.contents).lineCount) (col : Nat) :
    renderSnippet document line col =
      (snippetLines ((LineMap.ofText document.contents).lineText line)
        (min (col - 1) ((LineMap.ofText document.contents).lineText line).length)).flatMap
          (· ++ [newline]) := by
  have shown : ¬(line = 0 ∨ (LineMap.ofText document.contents).lineCount < line) := by omega
  have opening : ofText "  |\n" = ofText "  |" ++ [newline] := by decide
  have closing : ofText "^\n" = ofText "^" ++ [newline] := by decide
  simp only [renderSnippet, if_neg shown, opening, closing, snippetLines]
  simp

end Snippets

/-- The lines of a text partition it: there is one more than there are line feeds, they start one
after the other within the text and hold no line feed, and with what ends them they make up the
text; no other number has a line. So a snippet of any of them has three lines, of which the
second shows the line behind a margin, and the third has the caret, as far from the margin as
the column is from the start of the line. -/
theorem LineMap.partitionsText (text : Bytes) :
    let map := LineMap.ofText text
    map.lineCount = text.count newline + 1 ∧
    (map.starts.head? = some 0 ∧ map.starts.Pairwise (· < ·) ∧
      ∀ start ∈ map.starts, start ≤ text.length) ∧
    (∀ line, newline ∉ map.lineText line) ∧
    (∃ terminator, map.Terminates terminator) ∧
    (∀ line, line = 0 ∨ map.lineCount < line → map.lineText line = []) ∧
    ∀ (uri : String) (line col : Nat), 1 ≤ line → line ≤ map.lineCount →
      ∃ first second third : Bytes,
        renderSnippet { uri, contents := text } line col =
          [first, second, third].flatMap (· ++ [newline]) ∧
        (newline ∉ first ∧ newline ∉ second ∧ newline ∉ third) ∧
        second = Bytes.ofText "  | " ++ map.lineText line ∧
        third = Bytes.ofText "  | " ++
          List.replicate (map.offsetOf { line, col } - map.offsetOf { line, col := 1 }) blank ++
            Bytes.ofText "^" := by
  intro map
  refine ⟨lineCount_ofText text, ⟨rfl, pairwise_starts text, start_le_length text⟩,
    newline_notMem_lineText map, exists_terminates text, fun _ => lineText_eq_nil, ?_⟩
  intro uri line col isLine notBelow
  have plain := newline_notMem_of_mem_snippetLines (newline_notMem_lineText map line)
    (min (col - 1) (map.lineText line).length)
  simp only [snippetLines, List.forall_mem_cons] at plain
  rw [offsetOf_sub_offsetOf_start isLine notBelow]
  exact ⟨_, _, _, renderSnippet_eq isLine notBelow col, ⟨plain.1, plain.2.1, plain.2.2.1⟩, rfl, rfl⟩

/-- A carriage return before a line feed is no part of the first line, there is no third one, and a
column beyond the second line puts the caret behind it. -/
theorem LineMap.partitionsText_sample :
    let text : Bytes := [97, 13, 10, 98, 99]
    (ofText text).lineText 3 = [] ∧
      ∃ first second third : Bytes,
        renderSnippet { uri := "a", contents := text } 2 9 =
          [first, second, third].flatMap (· ++ [newline]) ∧
        second = Bytes.ofText "  | bc" ∧ third = Bytes.ofText "  |   ^" := by
  intro text
  have partitions := partitionsText text
  have missing := partitions.2.2.2.2.1 3 (Or.inr (by decide))
  obtain ⟨first, second, third, renders, _, isSecond, isThird⟩ :=
    partitions.2.2.2.2.2 "a" 2 9 (by decide) (by decide)
  exact ⟨missing, first, second, third, renders, isSecond.trans (by decide),
    isThird.trans (by decide)⟩

end Proofline
