import Proofline.Table

/-!
# Help texts

Stable error ids have a help text that the console shows on request. The table
of help texts starts out with the ids of the resolver and can be extended or
overwritten. Every registered text ends in a line feed.
-/

namespace Proofline

/-- Help texts by error id. -/
abbrev HelpTexts := Table String String

namespace HelpTexts

/-- The help texts known from the start. -/
def seeded : HelpTexts :=
  Table.ofListLast [
    ("r_assert_only_assumes_others",
      "An assertion marked \x7b:only\x7d turns every other assertion into an assumption.\n" ++
      "Use it to focus on one proof and remove it once the proof goes through.\n"),
    ("r_assert_only_before_after",
      "\x7b:only\x7d on an assertion takes an optional \"before\" or \"after\" argument that\n" ++
      "limits which of the other assertions become assumptions.\n"),
    ("r_member_only_assumes_other",
      "A member marked \x7b:only\x7d is the only member of its file that is verified.\n" ++
      "Remove the attribute once the member's proof is done.\n"),
    ("r_member_only_has_no_before_after",
      "\x7b:only\x7d on a member takes no \"before\" or \"after\" argument.\n"),
    ("r_only_one_invariant",
      "A class has at most one \x7b:invariant\x7d predicate. Combine the predicates into one\n" ++
      "and mark only that one.\n"),
    ("r_invariants_only_on_predicates",
      "Only predicates can carry \x7b:invariant\x7d; a function returning bool is not enough.\n"),
    ("r_invariants_only_on_predicates_inside_classes",
      "An \x7b:invariant\x7d predicate only has meaning as a member of a class.\n"),
    ("r_ghost_var_only_in_specifications",
      "A ghost variable may be read only in specifications and other ghost code.\n"),
    ("r_ghost_call_only_in_specification",
      "A ghost method or function is called from compiled code. Make the caller ghost or\n" ++
      "call a compiled alternative.\n")]

/-- `text` with a line feed at its end. -/
def terminated (text : String) : String :=
  if text.toList.getLast? = some '\n' then text else text ++ "\n"

/-- Register `detail` as the help text of `id`, replacing an earlier one. -/
def register (texts : HelpTexts) (id detail : String) : HelpTexts :=
  texts.insert id (terminated detail)

theorem getLast?_terminated (text : String) :
    (terminated text).toList.getLast? = some '\n' := by
  unfold terminated
  split
  · assumption
  · simp

theorem getElem?_register_self (texts : HelpTexts) (id detail : String) :
    (texts.register id detail)[id]? = some (terminated detail) := by
  simp [register]

theorem getElem?_register_of_ne (texts : HelpTexts) {id other : String} (ne : id ≠ other)
    (detail : String) : (texts.register id detail)[other]? = texts[other]? := by
  simp [register, Std.ExtTreeMap.getElem?_insert, ne]

end HelpTexts

end Proofline
