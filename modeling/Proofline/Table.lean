import Std.Data.ExtTreeMap

/-!
# Sorted tables

A `Table` is a finite map whose entries are listed in the order of the keys.
Two tables with the same bindings are equal, however they were built, so
snapshots that hold tables can be compared by what they say. Text keys are
ordered by code point, which is also the order of their UTF-8 bytes.
-/

namespace Proofline

/-- A finite map that lists its entries in key order. -/
abbrev Table (κ : Type) [Ord κ] (α : Type) := Std.ExtTreeMap κ α compare

namespace Table

variable {κ α : Type} [Ord κ] [Std.TransOrd κ] [Std.LawfulEqOrd κ]

/-- The table that binds each key of `entries` to the first value listed
for it. -/
def ofListFirst (entries : List (κ × α)) : Table κ α :=
  entries.foldl (fun table entry => table.insertIfNew entry.1 entry.2) ∅

/-- The table that binds each key of `entries` to the last value listed for
it. -/
def ofListLast (entries : List (κ × α)) : Table κ α :=
  entries.foldl (fun table entry => table.insert entry.1 entry.2) ∅

/-- File `value` at the end of the list kept under `key`, opening that list
when the key is new. -/
def file (table : Table κ (List α)) (key : κ) (value : α) : Table κ (List α) :=
  table.insert key (table.getD key [] ++ [value])

omit [Std.LawfulEqOrd κ] in
theorem getD_file_self (table : Table κ (List α)) (key : κ) (value : α) :
    (table.file key value).getD key [] = table.getD key [] ++ [value] := by
  simp [file]

theorem getD_file_of_ne (table : Table κ (List α)) {key other : κ} (ne : key ≠ other)
    (value : α) : (table.file key value).getD other [] = table.getD other [] := by
  simp [file, Std.ExtTreeMap.getD_insert, ne]

omit [Ord κ] [Std.TransOrd κ] [Std.LawfulEqOrd κ] in
/-- What a search from the end finds is the last element of its kind. -/
theorem find?_reverse_eq_some_iff {entries : List α} {isWanted : α → Bool} {last : α} :
    entries.reverse.find? isWanted = some last ↔ isWanted last = true ∧
      ∃ before after, entries = before ++ last :: after ∧
        ∀ later ∈ after, (!isWanted later) = true := by
  rw [List.find?_eq_some_iff_append]
  refine and_congr_right fun _ => ?_
  constructor
  · rintro ⟨after, before, parts, others⟩
    exact ⟨before.reverse, after.reverse, by simpa using congrArg List.reverse parts,
      fun later mem => others later (List.mem_reverse.mp mem)⟩
  · rintro ⟨before, after, parts, others⟩
    exact ⟨after.reverse, before.reverse, by simp [parts],
      fun later mem => others later (List.mem_reverse.mp mem)⟩

/-- The value listed first for a key counts. -/
theorem getElem?_ofListFirst [DecidableEq κ] (entries : List (κ × α)) (key : κ) :
    (ofListFirst entries)[key]? = (entries.find? fun entry => entry.1 = key).map Prod.snd := by
  have onTop (table : Table κ α) :
      (entries.foldl (fun table entry => table.insertIfNew entry.1 entry.2) table)[key]? =
        table[key]?.or ((entries.find? fun entry => entry.1 = key).map Prod.snd) := by
    induction entries generalizing table with
    | nil => simp
    | cons entry rest ih =>
        rw [List.foldl_cons, ih, Std.ExtTreeMap.getElem?_insertIfNew]
        by_cases same : entry.1 = key
        · subst same
          by_cases known : entry.1 ∈ table
          · simp [known]
          · simp [known]
        · simp [same]
  rw [ofListFirst, onTop]
  simp

end Table

end Proofline
