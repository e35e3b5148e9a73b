import Mathlib.Data.String.Basic
import Proofline.Session.Catalog

/-!
# Documents and projects

A document belongs to the first open project, in the order of names, that is or contains it.
The catalog lists its projects in this order, so it is found by searching from the front.
-/

namespace Proofline.Session

/-- Whether a manager is that of the first open project, in the order of names, to which a
document belongs. -/
def IsFirstOwner (uri : String) (number : Nat) (session : Session) : Prop :=
  ∃ project : String, session.catalog[project]? = some number ∧
    (session.manager number).contains uri = true ∧
    ∀ (other : String) (rival : Nat), session.catalog[other]? = some rival → other < project →
      (session.manager rival).contains uri = false

/-- The catalog lists projects in the order of their names. -/
theorem pairwise_catalog (session : Session) :
    session.catalog.toList.Pairwise fun first second => first.1 < second.1 :=
  session.catalog.ordered_keys_toList.imp compareOfLessAndEq_eq_lt.mp

theorem mem_toList_catalog {session : Session} {project : String} {number : Nat} :
    (project, number) ∈ session.catalog.toList ↔ session.catalog[project]? = some number :=
  Std.ExtTreeMap.mem_toList_iff_getElem?_eq_some

/-- The search from the front finds the first project to which a document belongs. -/
theorem findProject?_eq_some_iff {session : Session} {uri : String} {number : Nat} :
    session.findProject? uri = some number ↔ session.IsFirstOwner uri number := by
  have ordered := session.pairwise_catalog
  constructor
  · intro found
    rcases Option.map_eq_some_iff.mp found with ⟨⟨project, _⟩, isFirst, rfl⟩
    rcases List.find?_eq_some_iff_append.mp isFirst with ⟨owns, before, later, parts, rejected⟩
    refine ⟨project, mem_toList_catalog.mp (by simp [parts]), owns, ?_⟩
    intro other rival opened less
    have listed := mem_toList_catalog.mpr opened
    rw [parts, List.mem_append] at listed
    rw [parts, List.pairwise_append, List.pairwise_cons] at ordered
    rcases listed with earlier | listed
    · simpa using rejected _ earlier
    · rcases List.mem_cons.mp listed with same | following
      · obtain rfl : other = project := congrArg Prod.fst same
        exact absurd less (lt_irrefl other)
      · exact absurd (ordered.2.1.1 _ following) (lt_asymm less)
  · rintro ⟨project, opened, owns, first⟩
    rcases List.append_of_mem (mem_toList_catalog.mpr opened) with ⟨before, later, parts⟩
    rw [parts, List.pairwise_append] at ordered
    have isFirst : session.catalog.toList.find?
        (fun entry => (session.manager entry.2).contains uri) = some (project, number) := by
      refine List.find?_eq_some_iff_append.mpr ⟨owns, before, later, parts, ?_⟩
      rintro ⟨other, rival⟩ earlier
      have less := ordered.2.2 _ earlier _ (List.mem_cons_self ..)
      simpa using first other rival (mem_toList_catalog.mp (by simp [parts, earlier])) less
    rw [findProject?, isFirst]
    rfl

end Proofline.Session
