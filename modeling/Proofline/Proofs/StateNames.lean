import Mathlib.Algebra.Group.Nat.Defs
import Mathlib.Data.Nat.Find
import Proofline.Counterexample.Model

/-!
# What state names carry

A name carries the leftmost pair of digit runs that stands in it in parentheses, with a comma
between them and nothing else. A name made for a position therefore carries that position
unless the document it is made with has such a pair itself; what the description says does not
matter, since it stands behind.
-/

namespace Proofline

namespace StateName

open Decimal (IsNumeral)

/-- The position that two runs of digits stand for. -/
def readPosition (line col : List Char) : Position where
  line := Decimal.value line % modulus
  col := Decimal.value col % modulus

/-- Whether a text begins with two runs of digits, with a comma between them and a closing
parenthesis behind. -/
def BeginsWithPair (line col text : List Char) : Prop :=
  IsNumeral line ∧ IsNumeral col ∧ ∃ after, text = line ++ ',' :: (col ++ ')' :: after)

/-- Whether a pair of digit runs stands in a text in parentheses, right behind `before`. -/
def HasPairBehind (before line col text : List Char) : Prop :=
  ∃ after, text = before ++ '(' :: after ∧ BeginsWithPair line col after

/-- Whether some pair of digit runs stands in a text in parentheses. -/
def HasPair (text : List Char) : Prop :=
  ∃ before line col, HasPairBehind before line col text

/-- Whether a pair of digit runs is the leftmost one that stands in a text in parentheses. -/
def IsFirstPair (line col text : List Char) : Prop :=
  ∃ before, HasPairBehind before line col text ∧
    ∀ other otherLine otherCol, HasPairBehind other otherLine otherCol text →
      before.length ≤ other.length

section Reading

variable {line col text rest : List Char}

/-- A run of digits is read up to the first character that is no digit. -/
theorem readNumber?_append {digits : List Char} (numeral : IsNumeral digits) {c : Char}
    (ends : c.isDigit = false) :
    readNumber? (digits ++ c :: rest) = some (Decimal.value digits % modulus, c :: rest) := by
  have taken : (digits ++ c :: rest).takeWhile Char.isDigit = digits := by
    rw [List.takeWhile_append_of_pos numeral.2, List.takeWhile_cons_of_neg (by simp [ends]),
      List.append_nil]
  have dropped : (digits ++ c :: rest).dropWhile Char.isDigit = c :: rest := by
    rw [List.dropWhile_append_of_pos numeral.2, List.dropWhile_cons_of_neg (by simp [ends])]
  rw [readNumber?, taken, dropped, if_neg numeral.1]

theorem eq_of_readNumber?_eq_some {number : Nat} (read : readNumber? text = some (number, rest)) :
    ∃ digits, IsNumeral digits ∧ text = digits ++ rest ∧
      number = Decimal.value digits % modulus := by
  obtain ⟨nonempty, isRead⟩ := Option.ite_none_left_eq_some.mp read
  obtain ⟨rfl, rfl⟩ := Prod.mk.inj (Option.some.inj isRead)
  exact ⟨text.takeWhile Char.isDigit, ⟨nonempty, List.all_eq_true.mp List.all_takeWhile⟩,
    List.takeWhile_append_dropWhile.symm, rfl⟩

theorem readChar?_eq_some_iff {c : Char} : readChar? c text = some rest ↔ text = c :: rest := by
  cases text <;> simp [readChar?]

/-- A pair is read exactly where one begins, and stands for what is read. -/
theorem readPair?_eq_some_iff {position : Position} :
    readPair? text = some position ↔
      ∃ line col, BeginsWithPair line col text ∧ position = readPosition line col := by
  constructor
  · intro read
    simp only [readPair?, bind, Option.bind_eq_some_iff, Prod.exists] at read
    obtain ⟨lineNumber, behindLine, readLine, behindComma, comma, colNumber, behindCol, readCol,
      _, closing, isPosition⟩ := read
    obtain ⟨line, lineNumeral, rfl, rfl⟩ := eq_of_readNumber?_eq_some readLine
    obtain rfl := readChar?_eq_some_iff.mp comma
    obtain ⟨col, colNumeral, rfl, rfl⟩ := eq_of_readNumber?_eq_some readCol
    obtain rfl := readChar?_eq_some_iff.mp closing
    exact ⟨line, col, ⟨lineNumeral, colNumeral, _, rfl⟩, (Option.some.inj isPosition).symm⟩
  · rintro ⟨line, col, ⟨lineNumeral, colNumeral, after, rfl⟩, rfl⟩
    simp [readPair?, readNumber?_append lineNumeral, readNumber?_append colNumeral, readChar?,
      readPosition]

end Reading

section Searching

variable {line col text : List Char}

/-- A pair in a nonempty text stands at its start or further on. -/
theorem hasPairBehind_cons_iff {c : Char} {before : List Char} :
    HasPairBehind before line col (c :: text) ↔
      before = [] ∧ c = '(' ∧ BeginsWithPair line col text ∨
        ∃ shorter, before = c :: shorter ∧ HasPairBehind shorter line col text := by
  cases before with
  | nil => simp [HasPairBehind, and_assoc]
  | cons first shorter => simp [HasPairBehind, eq_comm, and_assoc]

theorem not_hasPairBehind_nil {before : List Char} : ¬HasPairBehind before line col [] := by
  simp [HasPairBehind]

/-- Where a pair stands at the start, it is the leftmost one. -/
theorem isFirstPair_cons_iff_begins (opens : ∃ line col, BeginsWithPair line col text) :
    IsFirstPair line col ('(' :: text) ↔ BeginsWithPair line col text := by
  constructor
  · rintro ⟨before, ⟨after, parts, begins⟩, first⟩
    obtain ⟨firstLine, firstCol, atStart⟩ := opens
    have nothing : before.length ≤ 0 := first [] firstLine firstCol ⟨text, rfl, atStart⟩
    obtain rfl := List.eq_nil_of_length_eq_zero (Nat.le_zero.mp nothing)
    obtain rfl := (List.cons.inj parts).2
    exact begins
  · exact fun begins => ⟨[], ⟨text, rfl, begins⟩, fun _ _ _ _ => Nat.zero_le _⟩

/-- Where no pair stands at the start, the leftmost one is that of the rest. -/
theorem isFirstPair_cons_iff {c : Char}
    (misses : c = '(' → ¬∃ line col, BeginsWithPair line col text) :
    IsFirstPair line col (c :: text) ↔ IsFirstPair line col text := by
  have further {before line col : List Char} :
      HasPairBehind before line col (c :: text) ↔
        ∃ shorter, before = c :: shorter ∧ HasPairBehind shorter line col text := by
    rw [hasPairBehind_cons_iff, or_iff_right]
    rintro ⟨_, opens, begins⟩
    exact misses opens ⟨_, _, begins⟩
  constructor
  · rintro ⟨before, has, first⟩
    obtain ⟨shorter, rfl, hasShorter⟩ := further.mp has
    refine ⟨shorter, hasShorter, fun other otherLine otherCol hasOther => ?_⟩
    have := first (c :: other) otherLine otherCol (further.mpr ⟨other, rfl, hasOther⟩)
    simpa using this
  · rintro ⟨before, has, first⟩
    refine ⟨c :: before, further.mpr ⟨before, rfl, has⟩, ?_⟩
    intro other otherLine otherCol hasOther
    obtain ⟨shorter, rfl, hasShorter⟩ := further.mp hasOther
    simpa using first shorter otherLine otherCol hasShorter

/-- The search finds the leftmost pair. -/
theorem findPair?_eq_some_iff {position : Position} :
    findPair? text = some position ↔
      ∃ line col, IsFirstPair line col text ∧ position = readPosition line col := by
  induction text with
  | nil => simp [findPair?, IsFirstPair, not_hasPairBehind_nil]
  | cons c text ih =>
      by_cases opens : c = '(' ∧ ∃ line col, BeginsWithPair line col text
      · -- A pair stands right here, and the search ends.
        obtain ⟨rfl, begins⟩ := opens
        obtain ⟨line, col, atStart⟩ := id begins
        have read := readPair?_eq_some_iff.mpr ⟨line, col, atStart, rfl⟩
        simp only [isFirstPair_cons_iff_begins begins, ← readPair?_eq_some_iff]
        rw [findPair?, if_pos rfl, read]
      · have misses : c = '(' → ¬∃ line col, BeginsWithPair line col text :=
          fun isOpen begins => opens ⟨isOpen, begins⟩
        have goesOn : findPair? (c :: text) = findPair? text := by
          have unread : (if c = '(' then readPair? text else none) = none := by
            by_contra read
            obtain ⟨found, isRead⟩ := Option.ne_none_iff_exists'.mp read
            obtain ⟨isOpen, isRead⟩ := Option.ite_none_right_eq_some.mp isRead
            obtain ⟨line, col, begins, _⟩ := readPair?_eq_some_iff.mp isRead
            exact misses isOpen ⟨line, col, begins⟩
          rw [findPair?, unread]
        simp only [goesOn, isFirstPair_cons_iff misses, ih]

/-- Where some pair stands, one of them is the leftmost. -/
theorem HasPair.exists_isFirstPair (has : HasPair text) :
    ∃ line col, IsFirstPair line col text := by
  classical
  have somewhere : ∃ length, ∃ before line col,
      HasPairBehind before line col text ∧ before.length = length := by
    obtain ⟨before, line, col, stands⟩ := has
    exact ⟨_, before, line, col, stands, rfl⟩
  obtain ⟨before, line, col, stands, least⟩ := Nat.find_spec somewhere
  refine ⟨line, col, before, stands, fun other otherLine otherCol standsToo => ?_⟩
  rw [least]
  exact Nat.find_min' somewhere ⟨other, otherLine, otherCol, standsToo, rfl⟩

theorem findPair?_eq_none_iff : findPair? text = none ↔ ¬HasPair text := by
  constructor
  · intro missing has
    obtain ⟨line, col, isFirst⟩ := has.exists_isFirstPair
    have found := findPair?_eq_some_iff.mpr ⟨line, col, isFirst, rfl⟩
    rw [missing] at found
    contradiction
  · intro lacks
    by_contra found
    obtain ⟨position, isFound⟩ := Option.ne_none_iff_exists'.mp found
    obtain ⟨line, col, ⟨before, stands, _⟩, _⟩ := findPair?_eq_some_iff.mp isFound
    exact lacks ⟨before, line, col, stands⟩

instance (text : List Char) : Decidable (HasPair text) :=
  decidable_of_iff (findPair? text ≠ none) (by rw [ne_eq, findPair?_eq_none_iff, not_not])

end Searching

section Encoding

variable {line col uri after : List Char}

/-- No parenthesis opens within a pair. -/
theorem open_notMem_pair (lineNumeral : IsNumeral line) (colNumeral : IsNumeral col) :
    '(' ∉ line ++ ',' :: (col ++ [')']) := by
  have notDigit {digits : List Char} (numeral : IsNumeral digits) : '(' ∉ digits :=
    fun mem => absurd (numeral.2 _ mem) (by decide)
  simp [notDigit lineNumeral, notDigit colNumeral]

/-- A pair that begins in front of an opening parenthesis ends in front of it as well. -/
theorem beginsWithPair_of_append {inner : List Char}
    (begins : BeginsWithPair line col (inner ++ '(' :: after)) : BeginsWithPair line col inner := by
  obtain ⟨lineNumeral, colNumeral, behind, parts⟩ := begins
  have pair : inner ++ '(' :: after = (line ++ ',' :: (col ++ [')'])) ++ behind := by
    simpa using parts
  refine ⟨lineNumeral, colNumeral, ?_⟩
  rcases List.append_eq_append_iff.mp pair with ⟨rest, isPair, opens⟩ | ⟨rest, isInner, _⟩
  · cases rest with
    | nil => exact ⟨[], by simpa using isPair.symm⟩
    | cons first rest =>
        obtain rfl := (List.cons.inj opens).1
        have notMem := open_notMem_pair lineNumeral colNumeral
        rw [isPair] at notMem
        exact absurd (List.mem_append_right inner List.mem_cons_self) notMem
  · exact ⟨rest, by simpa using isInner⟩

/-- In a text that is followed by a parenthesis, pairs stand where they stand in the text. -/
theorem hasPair_of_stands_before {before : List Char}
    (stands : HasPairBehind before line col (uri ++ '(' :: after))
    (shorter : before.length < uri.length) : HasPair uri := by
  obtain ⟨rest, parts, begins⟩ := stands
  rcases List.append_eq_append_iff.mp parts with ⟨between, isBefore, _⟩ | ⟨inner, isUri, isRest⟩
  · have longer := congrArg List.length isBefore
    rw [List.length_append] at longer
    omega
  · cases inner with
    | nil => simp [isUri] at shorter
    | cons first inner =>
        obtain ⟨rfl, rfl⟩ := List.cons.inj isRest
        exact ⟨before, line, col, inner, isUri, beginsWithPair_of_append begins⟩

/-- The pair behind a text without one is the leftmost one. -/
theorem isFirstPair_append (lacks : ¬HasPair uri) (begins : BeginsWithPair line col after) :
    IsFirstPair line col (uri ++ '(' :: after) := by
  refine ⟨uri, ⟨after, rfl, begins⟩, fun other otherLine otherCol stands => ?_⟩
  by_contra shorter
  exact lacks (hasPair_of_stands_before stands (Nat.lt_of_not_le shorter))

/-- The text of a name behind the document. -/
theorem toList_encode (document : String) (position : Position) (description : String) :
    ∃ after, (encode document position description).toList =
        document.toList ++ '(' :: after ∧
      BeginsWithPair (Nat.repr position.line).toList (Nat.repr position.col).toList after := by
  refine ⟨_, ?_, Decimal.isNumeral_repr _, Decimal.isNumeral_repr _,
    (if description = "" then "" else ": " ++ description).toList, rfl⟩
  simp [encode]

end Encoding

/-- The numerals of a position stand for it, up to multiples of `modulus`. -/
theorem readPosition_repr (position : Position) :
    readPosition (Nat.repr position.line).toList (Nat.repr position.col).toList =
      { line := position.line % modulus, col := position.col % modulus } := by
  rw [readPosition, Decimal.value_repr, Decimal.value_repr]

section Decoding

variable {name : String}

/-- A name carries the position that its leftmost pair stands for. -/
theorem decode?_eq_some_iff {position : Position} :
    decode? name = some position ↔
      ∃ line col, IsFirstPair line col name.toList ∧ position = readPosition line col ∧
        position.line ≠ 0 := by
  rw [decode?, Option.filter_eq_some_iff, findPair?_eq_some_iff]
  simp [← and_assoc]

/-- A name carries no position when it has no pair, or its leftmost one reads as line zero. -/
theorem decode?_eq_none_iff :
    decode? name = none ↔
      ¬HasPair name.toList ∨
        ∃ line col, IsFirstPair line col name.toList ∧ (readPosition line col).line = 0 := by
  rw [decode?, Option.filter_eq_none_iff, ← findPair?_eq_none_iff]
  cases found : findPair? name.toList with
  | none => simp
  | some position =>
      simp only [Option.some.injEq, forall_eq', reduceCtorEq, false_or, ne_eq, decide_not,
        Bool.not_eq_true', decide_eq_false_iff_not, not_not]
      constructor
      · obtain ⟨line, col, isFirst, rfl⟩ := findPair?_eq_some_iff.mp found
        exact fun isZero => ⟨line, col, isFirst, isZero⟩
      · rintro ⟨line, col, isFirst, isZero⟩
        rw [findPair?_eq_some_iff.mpr ⟨line, col, isFirst, rfl⟩] at found
        exact Option.some.inj found ▸ isZero

/-- A name made with a document without a pair carries the position it was made for. -/
theorem decode?_encode {document : String} (lacks : ¬HasPair document.toList)
    {position : Position} (placed : 1 ≤ position.line) (lineFits : position.line < modulus)
    (colFits : position.col < modulus) (description : String) :
    decode? (encode document position description) = some position := by
  obtain ⟨after, isName, begins⟩ := toList_encode document position description
  refine decode?_eq_some_iff.mpr ⟨_, _, isName ▸ isFirstPair_append lacks begins, ?_,
    Nat.ne_of_gt placed⟩
  rw [readPosition_repr, Nat.mod_eq_of_lt lineFits, Nat.mod_eq_of_lt colFits]

/-- The initial state is not named after a position. -/
theorem encode_ne_initial (document : String) (position : Position) (description : String) :
    encode document position description ≠ initial := by
  intro same
  obtain ⟨after, isName, _⟩ := toList_encode document position description
  have opens : '(' ∈ initial.toList := by
    rw [← same, isName]
    exact List.mem_append_right _ List.mem_cons_self
  exact absurd opens (by decide)

end Decoding

end StateName

open StateName (encode HasPair IsFirstPair)

/-- A state that is named after a position carries it, whatever the description says, if the
document it is named with has no pair itself. And whatever a state is named, its position is
what the leftmost pair of its name reads as; there is none when the name has no pair, or when
the line of that pair reads as zero. -/
theorem ModelState.carriesPosition :
    (∀ (document description : String) (position : Position) (bindings : List Binding),
      ¬HasPair document.toList → 1 ≤ position.line → position.line < 2 ^ 64 →
      position.col < 2 ^ 64 →
      let state : ModelState := { name := encode document position description, bindings }
      state.position? = some position ∧ state.isInitial = false) ∧
    ∀ state : ModelState,
      (∀ position, state.position? = some position ↔
        ∃ line col, IsFirstPair line col state.name.toList ∧
          position.line = Decimal.value line % 2 ^ 64 ∧
          position.col = Decimal.value col % 2 ^ 64 ∧ position.line ≠ 0) ∧
      (state.position? = none ↔ ¬HasPair state.name.toList ∨
        ∃ line col, IsFirstPair line col state.name.toList ∧
          Decimal.value line % 2 ^ 64 = 0) := by
  constructor
  · intro document description position bindings lacks placed lineFits colFits
    refine ⟨StateName.decode?_encode lacks placed lineFits colFits description, ?_⟩
    simpa [ModelState.isInitial] using StateName.encode_ne_initial document position description
  · intro state
    constructor
    · rintro ⟨lineNumber, colNumber⟩
      rw [ModelState.position?, StateName.decode?_eq_some_iff]
      simp only [StateName.readPosition, Position.mk.injEq, and_assoc]
      exact Iff.rfl
    · exact StateName.decode?_eq_none_iff

/-- The document ends in the middle of a pair, the line is the last one there is, and the
description has a pair. -/
theorem ModelState.carriesPosition_sample :
    let position : Position := { line := 2 ^ 64 - 1, col := 0 }
    let state : ModelState :=
      { name := encode "a(12,)(7,(5," position "after (3,4)", bindings := [] }
    ¬HasPair "a(12,)(7,(5,".toList ∧ state.position? = some position ∧
      state.isInitial = false ∧ HasPair "after (3,4)".toList := by
  have lacks : ¬HasPair "a(12,)(7,(5,".toList := by decide
  have carries := carriesPosition.1 "a(12,)(7,(5," "after (3,4)" { line := 2 ^ 64 - 1, col := 0 } []
    lacks (by decide) (by decide) (by decide)
  exact ⟨lacks, carries.1, carries.2, by decide⟩

end Proofline
