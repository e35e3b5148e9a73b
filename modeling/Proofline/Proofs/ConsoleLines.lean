import Mathlib.Data.List.Induction
import Proofline.Diagnostic.Network
import Proofline.Proofs.Lines

/-!
# Lines on the console

What is printed of a diagnostic is one line and, for each line feed in it, one more, which is
indented if a blank follows the line feed. In messages a blank follows every line feed, but the
relations between the places of a location are printed as they are. So the lines that are not
indented are the first lines of the diagnostics exactly if the relations that are shown are indented
already.
-/

namespace Proofline

open Bytes (newline blank ofText)

namespace Bytes

/-- The lines of a text, without their line feeds. Behind the last line feed there is a line only if
there are bytes. -/
def lines : Bytes → List Bytes
  | [] => []
  | byte :: rest =>
      if byte = newline then
        [] :: lines rest
      else
        match lines rest with
        | [] => [[byte]]
        | line :: others => (byte :: line) :: others

/-- The bytes before the first line feed. -/
def firstLine (text : Bytes) : Bytes :=
  text.takeWhile fun byte => byte ≠ newline

/-- Whether a blank follows each line feed. -/
def IsIndented : Bytes → Prop
  | [] => True
  | byte :: rest => (byte = newline → rest.head? = some blank) ∧ IsIndented rest

/-- The lines of a text that do not start with a blank. -/
def heads (text : Bytes) : List Bytes :=
  text.lines.filter fun line => line.head? ≠ some blank

variable {line rest text first : Bytes}

theorem lines_feed (plain : newline ∉ line) :
    lines (line ++ newline :: rest) = line :: lines rest := by
  induction line with
  | nil => simp [lines]
  | cons byte line ih =>
      rw [List.mem_cons, not_or] at plain
      rw [List.cons_append, lines, if_neg (Ne.symm plain.1), ih plain.2]

/-- The lines of two texts one behind the other, where the first one ends with a line feed. -/
theorem lines_append_feed (text rest : Bytes) :
    lines (text ++ newline :: rest) = lines (text ++ [newline]) ++ lines rest := by
  induction text using lineInduction with
  | last line plain => rw [lines_feed plain, lines_feed plain, lines, List.singleton_append]
  | feed line text plain ih =>
      rw [List.append_assoc, List.cons_append, lines_feed plain, ih, List.append_assoc,
        List.cons_append, lines_feed plain, List.cons_append]

theorem firstLine_append (plain : newline ∉ line) (rest : Bytes) :
    firstLine (line ++ rest) = line ++ firstLine rest :=
  LineMap.takeWhile_line_append plain rest

theorem firstLine_feed (plain : newline ∉ line) : firstLine (line ++ newline :: rest) = line := by
  rw [firstLine_append plain, firstLine, List.takeWhile_cons_of_neg (by simp), List.append_nil]

theorem firstLine_last (plain : newline ∉ line) : firstLine line = line := by
  have whole := firstLine_append plain []
  rwa [firstLine, List.append_nil, firstLine, List.takeWhile_nil, List.append_nil] at whole

/-- A text starts with a blank exactly if its first line does. -/
theorem head?_firstLine_eq_blank_iff :
    (firstLine text).head? = some blank ↔ text.head? = some blank := by
  cases text with
  | nil => rfl
  | cons byte rest =>
      by_cases isFeed : byte = newline
      · rw [firstLine, List.takeWhile_cons_of_neg (by simp [isFeed]), isFeed]
        simp [newline, blank]
      · rw [firstLine, List.takeWhile_cons_of_pos (by simp [isFeed])]
        rfl

theorem isIndented_of_notMem (plain : newline ∉ line) : IsIndented line := by
  induction line with
  | nil => trivial
  | cons byte line ih =>
      rw [List.mem_cons, not_or] at plain
      exact ⟨fun isFeed => absurd isFeed.symm plain.1, ih plain.2⟩

/-- A text that does not end with a line feed is indented whatever stands behind it. -/
theorem isIndented_append (unended : first.getLast? ≠ some newline) (text : Bytes) :
    IsIndented (first ++ text) ↔ IsIndented first ∧ IsIndented text := by
  induction first with
  | nil => simp [IsIndented]
  | cons byte first ih =>
      cases first with
      | nil =>
          have notFeed : byte ≠ newline := by simpa using unended
          simp [IsIndented, notFeed]
      | cons next first =>
          rw [List.getLast?_cons_cons] at unended
          rw [List.cons_append, IsIndented, ih unended, ← and_assoc]
          rfl

theorem isIndented_feed (plain : newline ∉ line) :
    IsIndented (line ++ newline :: rest) ↔ rest.head? = some blank ∧ IsIndented rest := by
  have unended : line.getLast? ≠ some newline := fun ends =>
    plain (List.mem_of_getLast? ends)
  rw [isIndented_append unended, IsIndented]
  simp [isIndented_of_notMem plain]

theorem firstLine_append_newline (text : Bytes) :
    firstLine (text ++ [newline]) = text.firstLine := by
  induction text using lineInduction with
  | last line plain => rw [firstLine_feed plain, firstLine_last plain]
  | feed line rest plain _ =>
      rw [List.append_assoc, List.cons_append, firstLine_feed plain, firstLine_feed plain]

/-- The lines behind the first one of a text that a line feed ends. -/
def continuations (text : Bytes) : List Bytes :=
  (lines (text ++ [newline])).tail

theorem lines_append_newline (text : Bytes) :
    lines (text ++ [newline]) = text.firstLine :: text.continuations := by
  rw [continuations]
  induction text using lineInduction with
  | last line plain => rw [lines_feed plain, firstLine_last plain, List.tail_cons]
  | feed line rest plain _ =>
      rw [List.append_assoc, List.cons_append, lines_feed plain, firstLine_feed plain,
        List.tail_cons]

theorem continuations_feed (plain : newline ∉ line) :
    continuations (line ++ newline :: rest) = rest.firstLine :: rest.continuations := by
  rw [continuations, List.append_assoc, List.cons_append, lines_feed plain, List.tail_cons,
    lines_append_newline]

/-- A blank follows each line feed exactly if all lines behind the first one start with a blank. -/
theorem isIndented_iff (text : Bytes) :
    IsIndented text ↔ ∀ line ∈ text.continuations, line.head? = some blank := by
  induction text using lineInduction with
  | last line plain =>
      simp [continuations, lines_feed plain, isIndented_of_notMem plain, lines]
  | feed line rest plain ih =>
      rw [isIndented_feed plain, ih, continuations_feed plain, List.forall_mem_cons,
        head?_firstLine_eq_blank_iff]

/-- The lines behind the first one that do not start with a blank. -/
def strays (text : Bytes) : List Bytes :=
  text.continuations.filter fun line => line.head? ≠ some blank

theorem strays_eq_nil_iff : text.strays = [] ↔ IsIndented text := by
  rw [isIndented_iff, strays, List.filter_eq_nil_iff]
  simp

instance (text : Bytes) : Decidable (IsIndented text) :=
  decidable_of_iff _ strays_eq_nil_iff

theorem heads_append_newline (unindented : text.head? ≠ some blank) :
    heads (text ++ [newline]) = text.firstLine :: text.strays := by
  have isHead := head?_firstLine_eq_blank_iff.not.mpr unindented
  rw [heads, lines_append_newline, List.filter_cons_of_pos (by simpa using isHead), strays]

/-- The lines that do not start with a blank, of texts that are ended by line feeds, are those of
each of them. -/
theorem heads_flatMap {α : Type} (elements : List α) (text : α → Bytes) :
    heads (elements.flatMap fun element => text element ++ [newline]) =
      elements.flatMap fun element => heads (text element ++ [newline]) := by
  induction elements with
  | nil => rfl
  | cons element rest ih =>
      rw [List.flatMap_cons, List.append_assoc, List.singleton_append, heads, lines_append_feed,
        List.filter_append, ← heads, ← heads, ih, List.flatMap_cons]

end Bytes

open Bytes (IsIndented heads firstLine isIndented_append isIndented_of_notMem)

section Rendering

/-- A blank follows each line feed of a message. -/
theorem isIndented_indentContinuations (message : Bytes) :
    IsIndented (indentContinuations message) := by
  induction message with
  | nil => trivial
  | cons byte message ih =>
      rw [indentContinuations, List.flatMap_cons, ← indentContinuations]
      by_cases isFeed : byte = newline
      · rw [if_pos isFeed]
        exact ⟨fun _ => rfl, fun isFeed => absurd isFeed (by decide), ih⟩
      · rw [if_neg isFeed]
        exact ⟨fun feed => absurd feed isFeed, ih⟩

theorem getLast?_indentContinuations (message : Bytes) :
    (indentContinuations message).getLast? ≠ some newline := by
  induction message using List.reverseRecOn with
  | nil => simp [indentContinuations]
  | append_singleton message byte _ =>
      rw [indentContinuations, List.flatMap_append, List.flatMap_singleton]
      by_cases isFeed : byte = newline
      · simp [isFeed, newline, blank]
      · simp [isFeed]

theorem newline_notMem_ofText_repr (number : Nat) : newline ∉ ofText (Nat.repr number) := by
  rw [ofText, Nat.toList_repr, List.mem_flatMap]
  rintro ⟨digit, mem, isFeed⟩
  have isDigit := Nat.isDigit_of_mem_toDigits (by decide) (by decide) mem
  rw [Char.isDigit, Bool.and_eq_true, decide_eq_true_eq, decide_eq_true_eq] at isDigit
  have notBelow : 48 ≤ digit.val.toNat := UInt32.le_iff_toNat_le.mp isDigit.1
  have notAbove : digit.val.toNat ≤ 57 := UInt32.le_iff_toNat_le.mp isDigit.2
  have isSmall : digit.utf8Size = 1 :=
    Char.utf8Size_eq_one_iff.mpr (UInt32.le_trans isDigit.2 (by decide))
  rw [String.utf8EncodeChar_eq_singleton isSmall, List.mem_singleton] at isFeed
  have same : 10 = digit.val.toNat % 256 := by
    rw [← UInt32.toNat_toUInt8, ← isFeed]
    rfl
  omega

/-- The text of a place has no line feed when the name of its document has none. -/
theorem newline_notMem_text {frame : Frame} (plain : newline ∉ ofText frame.uri) :
    newline ∉ ofText frame.text := by
  have colon : newline ∉ ofText ":" := by decide
  unfold Frame.text
  split
  · exact plain
  · simp [plain, colon, newline_notMem_ofText_repr]

/-- A text without a line feed is indented with what stands behind it exactly if that is. -/
theorem isIndented_plain_append {line : Bytes} (plain : newline ∉ line) (text : Bytes) :
    IsIndented (line ++ text) ↔ IsIndented text := by
  rw [isIndented_append fun ends => plain (List.mem_of_getLast? ends)]
  exact and_iff_right (isIndented_of_notMem plain)

/-- The relations between places that are shown: those that lead to another place. -/
def shownRelations (outer : Frame) : List Frame → List String
  | [] => []
  | inner :: rest =>
      (if inner.samePlace outer then [] else [outer.relation.getD unnamedRelation]) ++
        shownRelations inner rest

/-- What is printed of the inner places is indented exactly if the relations that are shown are. -/
theorem isIndented_renderInner {outer : Frame} {inner : List Frame}
    (plain : ∀ frame ∈ inner, newline ∉ ofText frame.uri) :
    IsIndented (renderInner outer inner) ↔
      ∀ relation ∈ shownRelations outer inner, IsIndented (ofText relation ++ [blank]) := by
  induction inner generalizing outer with
  | nil => simp [renderInner, shownRelations, IsIndented]
  | cons frame rest ih =>
      rw [List.forall_mem_cons] at plain
      have others := @ih frame plain.2
      rw [renderInner, shownRelations]
      split
      · rw [List.nil_append, List.nil_append, others]
      · have unended : (ofText (outer.relation.getD unnamedRelation) ++ [blank]).getLast? ≠
            some newline := by simp [newline, blank]
        have apart : newline ∉ [blank] := by decide
        rw [List.append_assoc, List.append_assoc, List.append_assoc,
          isIndented_plain_append apart, ← List.append_assoc, isIndented_append unended,
          isIndented_plain_append (newline_notMem_text plain.1), others, List.singleton_append,
          List.forall_mem_cons]

variable {diagnostic : Diagnostic} {options : Options}

/-- The console text of a diagnostic without the line feed at its end, when no id is shown. -/
def Diagnostic.body (diagnostic : Diagnostic) : Bytes :=
  renderHeader diagnostic.severity diagnostic.location
      (indentContinuations (ofText diagnostic.message)) ++
    renderInner diagnostic.location.outer diagnostic.location.inner

theorem Diagnostic.render_eq (terse : options.verbose = false) (texts : HelpTexts) :
    diagnostic.render options texts = diagnostic.body ++ [newline] := by
  rw [render, body, renderEnding, terse]
  rfl

/-- Whether the names of the documents of a location have no line feeds and do not start with a
blank. -/
def Location.HasPlainUris (location : Location) : Prop :=
  ∀ frame ∈ location.frames, newline ∉ ofText frame.uri ∧ (ofText frame.uri).head? ≠ some blank

/-- What is printed in front of the message has no line feed. -/
theorem newline_notMem_renderHeader (plain : diagnostic.location.HasPlainUris) :
    newline ∉ renderHeader diagnostic.severity diagnostic.location [] := by
  have colon : newline ∉ ofText ": " := by decide
  have place : newline ∉ ofText diagnostic.location.text :=
    newline_notMem_text (plain _ List.mem_cons_self).1
  have severity : newline ∉ ofText diagnostic.severity.name := by
    cases diagnostic.severity <;> decide
  simp [renderHeader, colon, place, severity]

theorem Diagnostic.body_eq (diagnostic : Diagnostic) :
    diagnostic.body = renderHeader diagnostic.severity diagnostic.location [] ++
      (indentContinuations (ofText diagnostic.message) ++
        renderInner diagnostic.location.outer diagnostic.location.inner) := by
  simp [body, renderHeader]

/-- What is printed of a diagnostic is indented exactly if the relations that are shown are. -/
theorem Diagnostic.isIndented_body (plain : diagnostic.location.HasPlainUris) :
    IsIndented diagnostic.body ↔
      ∀ relation ∈ shownRelations diagnostic.location.outer diagnostic.location.inner,
        IsIndented (ofText relation ++ [blank]) := by
  have inner : ∀ frame ∈ diagnostic.location.inner, newline ∉ ofText frame.uri :=
    fun frame mem => (plain frame (List.mem_cons_of_mem _ mem)).1
  rw [body_eq, isIndented_plain_append (newline_notMem_renderHeader plain),
    isIndented_append (getLast?_indentContinuations _), isIndented_renderInner inner]
  exact and_iff_right (isIndented_indentContinuations _)

/-- What is printed of a diagnostic does not start with a blank. -/
theorem Diagnostic.head?_body (plain : diagnostic.location.HasPlainUris) :
    diagnostic.body.head? ≠ some blank := by
  have unindented := (plain _ List.mem_cons_self).2
  -- The name of the document may be empty, but a colon stands behind it in any case.
  have starts : ∃ rest, ofText diagnostic.location.text ++ ofText ": " =
      ofText diagnostic.location.outer.uri ++ 58 :: rest := by
    have colon : ofText ":" = [58] := by decide
    have colonBlank : ofText ": " = [58, 32] := by decide
    unfold Location.text Frame.text
    split
    · exact ⟨[32], by rw [colonBlank]⟩
    · simp [colon, colonBlank]
  rcases starts with ⟨rest, starts⟩
  rw [body, renderHeader, starts]
  cases isUri : ofText diagnostic.location.outer.uri with
  | nil => simp [blank]
  | cons byte others => simpa [isUri] using unindented

end Rendering

section Console

/-- A reporter after it was given some diagnostics, and those of them to which it answered that they
were recorded. -/
def Reporter.acceptAll (reporter : Reporter) (texts : HelpTexts) :
    List Diagnostic → Reporter × List Diagnostic
  | [] => (reporter, [])
  | diagnostic :: rest =>
      let answer := reporter.accept texts diagnostic
      let others := answer.1.acceptAll texts rest
      (others.1, if answer.2 then diagnostic :: others.2 else others.2)

theorem Reporter.accept_console (texts : HelpTexts) (tally : Tally)
    (sources : Table String Document) (before : Bytes) (diagnostic : Diagnostic) :
    (Reporter.console tally sources before).accept texts diagnostic =
      if tally.admits diagnostic && printsOnConsole tally.options diagnostic then
        (.console (tally.accept diagnostic).1 sources
          (before ++ consoleText tally.options texts sources diagnostic), true)
      else
        (.console (tally.accept diagnostic).1 sources before, false) := by
  simp only [Reporter.accept, Tally.snd_accept, Tally.options_accept]

/-- A console writes the texts of the diagnostics that it keeps and prints, and answers so. -/
theorem Reporter.acceptAll_console (texts : HelpTexts) (tally : Tally)
    (sources : Table String Document) (before : Bytes) (diagnostics : List Diagnostic) :
    ∃ after : Tally, (Reporter.console tally sources before).acceptAll texts diagnostics =
      let printed := diagnostics.filter fun diagnostic =>
        tally.admits diagnostic && printsOnConsole tally.options diagnostic
      (.console after sources (before ++ printed.flatMap (consoleText tally.options texts sources)),
        printed) := by
  induction diagnostics generalizing tally before with
  | nil => exact ⟨tally, by simp [Reporter.acceptAll]⟩
  | cons diagnostic rest ih =>
      have others := ih (tally.accept diagnostic).1
      simp only [Tally.options_accept, Tally.admits_accept] at others
      rw [Reporter.acceptAll, Reporter.accept_console]
      cases isPrinted : tally.admits diagnostic && printsOnConsole tally.options diagnostic with
      | true =>
          rcases others (before ++ consoleText tally.options texts sources diagnostic) with
            ⟨after, run⟩
          exact ⟨after, by simp [run, isPrinted]⟩
      | false =>
          rcases others before with ⟨after, run⟩
          exact ⟨after, by simp [run, isPrinted]⟩

section Pieces

variable {α β : Type} {list : List α} {head : α → β} {others : α → List β}

theorem length_le_length_pieces :
    list.length ≤ (list.flatMap fun element => head element :: others element).length := by
  induction list with
  | nil => exact Nat.le_refl _
  | cons element rest ih =>
      rw [List.flatMap_cons, List.length_append, List.length_cons, List.length_cons]
      omega

/-- Pieces with one element each at their heads make up the list of these elements exactly if they
have no others. -/
theorem pieces_eq_map_iff :
    (list.flatMap fun element => head element :: others element) = list.map head ↔
      ∀ element ∈ list, others element = [] := by
  induction list with
  | nil => simp
  | cons element rest ih =>
      rw [List.flatMap_cons, List.map_cons, List.cons_append, List.cons.injEq, List.forall_mem_cons,
        ← ih]
      constructor
      · rintro ⟨_, same⟩
        have lengths := congrArg List.length same
        have least := @length_le_length_pieces _ _ rest head others
        rw [List.length_append, List.length_map] at lengths
        have none : others element = [] := List.eq_nil_of_length_eq_zero (by omega)
        rw [none, List.nil_append] at same
        exact ⟨none, same⟩
      · rintro ⟨none, same⟩
        rw [none, List.nil_append]
        exact ⟨rfl, same⟩

end Pieces

/-- The lines that are printed of diagnostics and do not start with a blank are their first lines
exactly if the relations that are shown are indented. -/
theorem heads_flatMap_body_eq_iff {diagnostics : List Diagnostic}
    (plain : ∀ diagnostic ∈ diagnostics, diagnostic.location.HasPlainUris) :
    heads (diagnostics.flatMap fun diagnostic => diagnostic.body ++ [newline]) =
        diagnostics.map (fun diagnostic => diagnostic.body.firstLine) ↔
      ∀ diagnostic ∈ diagnostics,
        ∀ relation ∈ shownRelations diagnostic.location.outer diagnostic.location.inner,
          IsIndented (ofText relation ++ [blank]) := by
  have each : ∀ diagnostic ∈ diagnostics, heads (diagnostic.body ++ [newline]) =
      diagnostic.body.firstLine :: diagnostic.body.strays :=
    fun diagnostic mem => Bytes.heads_append_newline (diagnostic.head?_body (plain diagnostic mem))
  rw [Bytes.heads_flatMap, List.flatMap_congr each, pieces_eq_map_iff]
  refine forall₂_congr fun diagnostic mem => ?_
  rw [Bytes.strays_eq_nil_iff, diagnostic.isIndented_body (plain diagnostic mem)]

end Console

/-- A console that shows no ids, snippets or colours writes the texts of the diagnostics that it
prints one after the other, and each of them is ended by a line feed and starts with a line that
begins with the place and the severity. These lines are the only ones that do not start with a blank
exactly if in the relations that are shown a blank follows each line feed that is not at the end. -/
theorem Reporter.writesHeads {tally : Tally} (terse : tally.options.verbose = false)
    (bare : tally.options.showSnippets = false) (colorless : tally.options.useColor = false)
    (texts : HelpTexts) (sources : Table String Document) (before : Bytes)
    {diagnostics : List Diagnostic}
    (plain : ∀ diagnostic ∈ diagnostics, diagnostic.location.HasPlainUris) :
    let run := (console tally sources before).acceptAll texts diagnostics
    let text := fun diagnostic : Diagnostic => diagnostic.render tally.options texts
    run.2 = diagnostics.filter (fun diagnostic =>
        tally.admits diagnostic && printsOnConsole tally.options diagnostic) ∧
      run.1.written = before ++ run.2.flatMap text ∧
      (∀ diagnostic ∈ run.2, (text diagnostic).getLast? = some newline ∧
        renderHeader diagnostic.severity diagnostic.location [] <+: (text diagnostic).firstLine) ∧
      (heads (run.2.flatMap text) = run.2.map (fun diagnostic => (text diagnostic).firstLine) ↔
        ∀ diagnostic ∈ run.2,
          ∀ relation ∈ shownRelations diagnostic.location.outer diagnostic.location.inner,
            IsIndented (ofText relation ++ [blank])) := by
  intro run text
  rcases acceptAll_console texts tally sources before diagnostics with ⟨after, isRun⟩
  have render : text = fun diagnostic => diagnostic.body ++ [newline] :=
    funext fun diagnostic => diagnostic.render_eq terse texts
  have isText : consoleText tally.options texts sources = text := by
    funext diagnostic
    simp [consoleText, bare, colorless, text]
  have printed : run.2 = diagnostics.filter fun diagnostic =>
      tally.admits diagnostic && printsOnConsole tally.options diagnostic := congrArg Prod.snd isRun
  have plainPrinted : ∀ diagnostic ∈ run.2, diagnostic.location.HasPlainUris := by
    rw [printed]
    exact fun diagnostic mem => plain diagnostic (List.mem_filter.mp mem).1
  refine ⟨printed, ?_, ?_, ?_⟩
  · rw [printed, ← isText]
    exact congrArg (fun run => run.1.written) isRun
  · intro diagnostic mem
    rw [render]
    constructor
    · simp
    · rw [Bytes.firstLine_append_newline, Diagnostic.body_eq,
        Bytes.firstLine_append (newline_notMem_renderHeader (plainPrinted diagnostic mem))]
      exact List.prefix_append _ _
  · simp only [render, Bytes.firstLine_append_newline]
    exact heads_flatMap_body_eq_iff plainPrinted

/-- An error with a message of two lines, at a place that leads to another one. -/
def Reporter.nestedError (relation : String) : Diagnostic where
  severity := .error
  location := {
    outer := { uri := "a", line := 1, col := 1, relation := some relation }
    inner := [{ uri := "b", line := 2, col := 1 }] }
  message := "m\nn"

theorem Reporter.nestedError_plain (relation : String) :
    (nestedError relation).location.HasPlainUris := by
  unfold Location.HasPlainUris
  simp only [nestedError, Location.frames, List.forall_mem_cons]
  decide

theorem Reporter.writesHeads_sample :
    let sample := nestedError "x\n y"
    let run := (console {} ∅ []).acceptAll ∅ [sample]
    run.2 = [sample] ∧ heads run.1.written = [ofText "a:1:1: error: m"] := by
  intro sample run
  have plain : ∀ diagnostic ∈ [sample], diagnostic.location.HasPlainUris :=
    List.forall_mem_singleton.mpr (nestedError_plain _)
  have terse : ({} : Tally).options.verbose = false := rfl
  rcases writesHeads terse rfl rfl ∅ ∅ [] plain with ⟨printed, written, _, same⟩
  have all : run.2 = [sample] := printed.trans (by decide)
  have isHead : (sample.render {} ∅).firstLine = ofText "a:1:1: error: m" := by decide +kernel
  refine ⟨all, ?_⟩
  rw [show run.1.written = _ from written, List.nil_append, same.mpr, show run.2 = _ from all,
    List.map_singleton, isHead]
  rw [show run.2 = _ from all, List.forall_mem_singleton]
  decide

/-- A relation with a line feed gives a line that is not indented and is none of the first lines. -/
theorem Reporter.stray_line_sample :
    let sample := nestedError "x\ny"
    let run := (console {} ∅ []).acceptAll ∅ [sample]
    sample.location.HasPlainUris ∧ run.2 = [sample] ∧
      heads run.1.written = [ofText "a:1:1: error: m", ofText "y b:2:1"] :=
  ⟨nestedError_plain _, by decide +kernel, by decide +kernel⟩

end Proofline
