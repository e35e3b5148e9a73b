import Mathlib.Data.List.Basic
import Proofline.Project.Declaration

/-!
# Enclosing modules

Whether a declaration is a verification unit depends on itself and on the module that most
closely encloses it. The search for units hands the word of that module down the tree; it finds
the candidates whose nearest enclosing module verifies its members, in preorder and once for each
place where they stand.
-/

namespace Proofline.Declaration

/-- Whether the nearest module among the enclosing declarations verifies its members; without a
module the flag counts. -/
def nearestVerifies (verifying : Bool) (enclosing : List Declaration) : Bool :=
  ((enclosing.find? isModule).map verifyMembers).getD verifying

theorem nearestVerifies_append_singleton (verifying : Bool) (enclosing : List Declaration)
    (outer : Declaration) :
    nearestVerifies verifying (enclosing ++ [outer]) =
      nearestVerifies (if outer.isModule then outer.verifyMembers else verifying) enclosing := by
  unfold nearestVerifies
  rw [List.find?_append]
  cases found : enclosing.find? isModule with
  | some module => rfl
  | none =>
      cases isModule : outer.isModule with
      | true => simp [isModule]
      | false => simp [isModule]

/-- Whether `inner` lies in `outer`, where `enclosing` are the declarations around it, the
nearest one first. -/
inductive Encloses : Declaration → List Declaration → Declaration → Prop
  | refl (declaration : Declaration) : Encloses declaration [] declaration
  | member {outer member inner : Declaration} {enclosing : List Declaration}
      (mem : some member ∈ outer.members) (within : Encloses member enclosing inner) :
      Encloses outer (enclosing ++ [outer]) inner

/-- A declaration in its place in a program: its address, which is the numbers of the members that
lead to it from the top, and the declarations around it, the nearest one first. -/
structure Occurrence where
  address : List Nat
  enclosing : List Declaration
  declaration : Declaration

namespace Occurrence

/-- An occurrence in a member, seen from the declaration with this member. -/
def within (outer : Declaration) (place : Nat) (occurrence : Occurrence) : Occurrence where
  address := place :: occurrence.address
  enclosing := occurrence.enclosing ++ [outer]
  declaration := occurrence.declaration

/-- Whether a program has an occurrence. -/
inductive StandsIn : Declaration → Occurrence → Prop
  | here (declaration : Declaration) : StandsIn declaration ⟨[], [], declaration⟩
  | member {outer member : Declaration} {place : Nat} {occurrence : Occurrence}
      (found : outer.members[place]? = some (some member)) (stands : StandsIn member occurrence) :
      StandsIn outer (occurrence.within outer place)

/-- Whether an occurrence is found by a search that starts with `verifying` as the word of the
module around. -/
def isFound (compilation : Compilation) (verifying : Bool) (occurrence : Occurrence) : Bool :=
  occurrence.declaration.isCandidate compilation && nearestVerifies verifying occurrence.enclosing

theorem isFound_within (compilation : Compilation) (verifying : Bool) (outer : Declaration)
    (place : Nat) (occurrence : Occurrence) :
    (occurrence.within outer place).isFound compilation verifying =
      occurrence.isFound compilation
        (if outer.isModule then outer.verifyMembers else verifying) := by
  rw [isFound, isFound, within, nearestVerifies_append_singleton]

end Occurrence

open Occurrence (StandsIn within isFound)

/-- What holds of a declaration whenever it holds of its members, holds of all. -/
@[elab_as_elim]
theorem memberInduction {motive : Declaration → Prop}
    (step : ∀ declaration, (∀ member, some member ∈ declaration.members → motive member) →
      motive declaration) (declaration : Declaration) : motive declaration := by
  refine step declaration fun member mem => ?_
  exact memberInduction step member
termination_by sizeOf declaration
decreasing_by
  cases declaration
  have smaller := List.sizeOf_lt_of_mem mem
  simp at smaller ⊢
  omega

section Preorder

mutual

/-- The occurrences in a declaration, in preorder. -/
def preorder : Declaration → List Occurrence
  | declaration@⟨_, _, _, _, _, _, _, _, _, members⟩ =>
      ⟨[], [], declaration⟩ :: memberPreorder declaration 0 members

/-- The occurrences in the members of a declaration from the given place on. -/
def memberPreorder (outer : Declaration) (place : Nat) : List (Option Declaration) → List Occurrence
  | [] => []
  | none :: rest => memberPreorder outer (place + 1) rest
  | some member :: rest =>
      member.preorder.map (within outer place) ++ memberPreorder outer (place + 1) rest

end

theorem preorder_eq (declaration : Declaration) :
    declaration.preorder =
      ⟨[], [], declaration⟩ :: memberPreorder declaration 0 declaration.members := by
  cases declaration
  rw [preorder]

theorem memberPreorder_eq_flatMap (outer : Declaration) (place : Nat)
    (members : List (Option Declaration)) :
    memberPreorder outer place members = (members.zipIdx place).flatMap fun member =>
      (member.1.elim [] preorder).map (within outer member.2) := by
  induction members generalizing place with
  | nil => simp [memberPreorder]
  | cons member rest ih =>
      rw [List.zipIdx_cons, List.flatMap_cons, ← ih]
      cases member with
      | none => simp [memberPreorder]
      | some member => simp [memberPreorder]

/-- The preorder lists exactly the occurrences. -/
theorem mem_preorder_iff (outer : Declaration) (occurrence : Occurrence) :
    occurrence ∈ outer.preorder ↔ StandsIn outer occurrence := by
  induction outer using memberInduction generalizing occurrence with
  | step outer ih =>
      rw [preorder_eq, memberPreorder_eq_flatMap, List.mem_cons]
      simp only [List.mem_flatMap, List.mem_map, Prod.exists, List.mem_zipIdx_iff_getElem?]
      constructor
      · rintro (rfl | ⟨_ | member, place, found, inner, mem, rfl⟩)
        · exact .here outer
        · cases mem
        · exact .member found ((ih member (List.mem_of_getElem? found) inner).mp mem)
      · rintro (_ | ⟨found, stands⟩)
        · exact Or.inl rfl
        · exact Or.inr ⟨_, _, found, _, (ih _ (List.mem_of_getElem? found) _).mpr stands, rfl⟩

/-- If the units in each of some members are those that are found there, so are the units in all of
them. -/
theorem memberUnits_eq_map (compilation : Compilation) (verifying : Bool) (outer : Declaration)
    (place : Nat) {members : List (Option Declaration)}
    (each : ∀ member, some member ∈ members → ∀ verifying, member.units compilation verifying =
      (member.preorder.filter (isFound compilation verifying)).map Occurrence.declaration) :
    memberUnits compilation (if outer.isModule then outer.verifyMembers else verifying) members =
      ((memberPreorder outer place members).filter (isFound compilation verifying)).map
        Occurrence.declaration := by
  induction members generalizing place with
  | nil => rfl
  | cons member rest ih =>
      have others := ih (place + 1) fun member mem => each member (List.mem_cons_of_mem _ mem)
      cases member with
      | none => rwa [memberUnits, memberPreorder]
      | some member =>
          have own := each member List.mem_cons_self
          have seen : isFound compilation verifying ∘ within outer place =
              isFound compilation (if outer.isModule then outer.verifyMembers else verifying) :=
            funext (Occurrence.isFound_within compilation verifying outer place)
          rw [memberUnits, memberPreorder, List.filter_append, List.map_append, ← others,
            List.filter_map, seen, List.map_map, own]
          rfl

/-- The units in a declaration are the declarations of the occurrences that are found, in the order
of these. -/
theorem units_eq_map (compilation : Compilation) (verifying : Bool) (outer : Declaration) :
    outer.units compilation verifying =
      (outer.preorder.filter (isFound compilation verifying)).map Occurrence.declaration := by
  induction outer using memberInduction generalizing verifying with
  | step outer ih =>
      have own : isFound compilation verifying ⟨[], [], outer⟩ =
          (verifying && outer.isCandidate compilation) := Bool.and_comm _ _
      rw [units_eq, preorder_eq, memberUnits_eq_map compilation verifying outer 0 ih,
        List.filter_cons, own]
      split
      · rfl
      · rfl

end Preorder

theorem Occurrence.StandsIn.encloses {outer : Declaration} {occurrence : Occurrence}
    (stands : StandsIn outer occurrence) :
    Encloses outer occurrence.enclosing occurrence.declaration := by
  induction stands with
  | here declaration => exact .refl declaration
  | member found _ ih => exact .member (List.mem_of_getElem? found) ih

/-- Some declarations are around another one exactly if it stands in some place with these around
it. -/
theorem encloses_iff {outer inner : Declaration} {enclosing : List Declaration} :
    Encloses outer enclosing inner ↔ ∃ address, StandsIn outer ⟨address, enclosing, inner⟩ := by
  constructor
  · intro encloses
    induction encloses with
    | refl declaration => exact ⟨[], .here declaration⟩
    | member mem _ ih =>
        rcases ih with ⟨address, stands⟩
        rcases List.getElem?_of_mem mem with ⟨place, found⟩
        exact ⟨place :: address, .member found stands⟩
  · rintro ⟨_, stands⟩
    exact stands.encloses

/-- The units in a declaration are the candidates whose nearest enclosing module verifies its
members. -/
theorem mem_units_iff (compilation : Compilation) (verifying : Bool) (outer unit : Declaration) :
    unit ∈ outer.units compilation verifying ↔ unit.isCandidate compilation = true ∧
      ∃ enclosing, Encloses outer enclosing unit ∧ nearestVerifies verifying enclosing = true := by
  simp only [units_eq_map, List.mem_map, List.mem_filter, mem_preorder_iff, isFound,
    Bool.and_eq_true, encloses_iff]
  constructor
  · rintro ⟨⟨address, enclosing, unit⟩, ⟨stands, candidate, verifies⟩, rfl⟩
    exact ⟨candidate, enclosing, ⟨address, stands⟩, verifies⟩
  · rintro ⟨candidate, enclosing, ⟨address, stands⟩, verifies⟩
    exact ⟨_, ⟨stands, candidate, verifies⟩, rfl⟩

/-- Whether a declaration itself is to be verified: it is no module, there is something to verify
and that was not switched off, and it was written in a root document. -/
structure IsWanted (compilation : Compilation) (declaration : Declaration) : Prop where
  notModule : declaration.isModule = false
  canVerify : declaration.canVerify = true
  verify : declaration.verify = true
  written : declaration.autoGenerated = false
  inRoot : declaration.uri ∈ compilation.rootUris

theorem isCandidate_iff (compilation : Compilation) (declaration : Declaration) :
    declaration.isCandidate compilation = true ↔ IsWanted compilation declaration := by
  simp only [isCandidate, Bool.and_eq_true, Bool.not_eq_true', Compilation.isRoot_iff]
  constructor
  · rintro ⟨⟨⟨⟨notModule, canVerify⟩, written⟩, verify⟩, inRoot⟩
    exact ⟨notModule, canVerify, verify, written, inRoot⟩
  · rintro ⟨notModule, canVerify, verify, written, inRoot⟩
    exact ⟨⟨⟨⟨notModule, canVerify⟩, written⟩, verify⟩, inRoot⟩

/-- Whether a declaration of a program is to be verified: it is no module, there is something
to verify and that was not switched off, it was written in a root document, and the nearest
module around it verifies its members. -/
structure IsEligible (compilation : Compilation) (program unit : Declaration) : Prop where
  notModule : unit.isModule = false
  canVerify : unit.canVerify = true
  verify : unit.verify = true
  written : unit.autoGenerated = false
  inRoot : unit.uri ∈ compilation.rootUris
  enclosed : ∃ enclosing module, Encloses program enclosing unit ∧
    enclosing.find? isModule = some module ∧ module.verifyMembers = true

/-- The units of a program are its eligible declarations. -/
theorem mem_units_iff_isEligible (compilation : Compilation) (program unit : Declaration) :
    unit ∈ program.units compilation false ↔ IsEligible compilation program unit := by
  rw [mem_units_iff, isCandidate_iff]
  constructor
  · rintro ⟨⟨notModule, canVerify, verify, written, inRoot⟩, enclosing, encloses, verifies⟩
    refine ⟨notModule, canVerify, verify, written, inRoot, enclosing, ?_⟩
    unfold nearestVerifies at verifies
    cases found : enclosing.find? isModule with
    | none => simp [found] at verifies
    | some module => exact ⟨module, encloses, rfl, by simpa [found] using verifies⟩
  · rintro ⟨notModule, canVerify, verify, written, inRoot, enclosing, module, encloses, found,
      verifies⟩
    refine ⟨⟨notModule, canVerify, verify, written, inRoot⟩, enclosing, encloses, ?_⟩
    simp [nearestVerifies, found, verifies]

/-- What is collected of a program are its eligible declarations. -/
theorem mem_iff_of_collectUnits? {module : Option Declaration} {compilation : Compilation}
    {units : List Declaration} (collected : collectUnits? module compilation false = some units)
    (unit : Declaration) :
    unit ∈ units ↔ ∃ program, module = some program ∧ IsEligible compilation program unit := by
  cases module with
  | none =>
      cases collected
      simp
  | some program =>
      rw [collectUnits?, if_neg Bool.false_ne_true, Option.some.injEq] at collected
      rw [← collected, mem_units_iff_isEligible]
      simp

end Proofline.Declaration
