/-!
# Type names for display

Models name types with internal qualifiers in front and with doubled
underscores. The displayed name leaves out the qualifiers and keeps one
underscore of each pair.
-/

namespace Proofline.TypeName

/-- `text` without the occurrences of `qualifier` that are met from left to
right. What stands on both sides of an erased occurrence is not joined for
another look. -/
def eraseAll (qualifier : List Char) : List Char → List Char
  | [] => []
  | c :: rest =>
      if qualifier.isPrefixOf (c :: rest) then
        eraseAll qualifier (rest.drop (qualifier.length - 1))
      else
        c :: eraseAll qualifier rest
termination_by text => text.length
decreasing_by
  · simp only [List.length_drop, List.length_cons]
    omega
  · simp

/-- `text` with one underscore in place of each pair. -/
def collapseUnderscores : List Char → List Char
  | [] => []
  | '_' :: '_' :: rest => '_' :: collapseUnderscores rest
  | c :: rest => c :: collapseUnderscores rest

/-- The qualifier of types declared outside any module. -/
def moduleQualifier : String := "_module."

/-- The qualifier of built-in types. -/
def systemQualifier : String := "_System."

/-- The name under which a type is displayed. -/
def display (type : String) : String :=
  String.ofList <| collapseUnderscores <|
    eraseAll systemQualifier.toList <| eraseAll moduleQualifier.toList type.toList

end Proofline.TypeName
