import Proofline.Proofs.EnclosingModule

/-!
# The search for units

The search for units goes through a program in preorder and asks at each declaration whether it is
canceled. It ends without a result when it is, and otherwise finds each unit once for every place
where it stands, in the order of these places. Of the declarations around a unit only the nearest
module counts.
-/

namespace Proofline.Declaration

/-- Whether an occurrence comes before another one: around it, or in an earlier member. -/
def Occurrence.Precedes (former latter : Occurrence) : Prop :=
  List.Lex (· < ·) former.address latter.address

open Occurrence (StandsIn Precedes isFound)

/-- The preorder lists an occurrence before those in it, and those in an earlier member before
those in a later one. -/
theorem pairwise_preorder (outer : Declaration) : outer.preorder.Pairwise Precedes := by
  induction outer using memberInduction with
  | step outer ih =>
      have places : (outer.members.zipIdx 0).Pairwise fun former latter => former.2 < latter.2 := by
        rw [← List.pairwise_map (f := Prod.snd), List.zipIdx_map_snd]
        exact List.pairwise_lt_range'
      rw [preorder_eq, memberPreorder_eq_flatMap, List.pairwise_cons, List.pairwise_flatMap]
      refine ⟨?_, ?_, ?_⟩
      · intro occurrence mem
        simp only [List.mem_flatMap, List.mem_map] at mem
        rcases mem with ⟨_, _, inner, _, rfl⟩
        exact .nil
      · rintro ⟨_ | member, place⟩ mem
        · exact .nil
        · rw [List.pairwise_map]
          have isMember : some member ∈ outer.members := by
            simpa using List.fst_mem_of_mem_zipIdx mem
          exact (ih member isMember).imp fun before => .cons before
      · refine places.imp fun {former latter} before => ?_
        intro first isFirst second isSecond
        rcases List.mem_map.mp isFirst with ⟨_, _, rfl⟩
        rcases List.mem_map.mp isSecond with ⟨_, _, rfl⟩
        exact .rel before

section Questions

mutual

/-- The search for units in steps: at each declaration it asks whether it is canceled, and ends
without a result if it is. The answers depend on the number of questions asked before. -/
def search (compilation : Compilation) (canceled : Nat → Bool) (verifying : Bool) (asked : Nat) :
    Declaration → Option (Nat × List Declaration)
  | declaration@⟨_, kind, _, _, _, _, verifyMembers, _, _, members⟩ =>
      if canceled asked then
        none
      else
        let own := if verifying && declaration.isCandidate compilation then [declaration] else []
        (searchMembers compilation canceled (if kind = .module then verifyMembers else verifying)
          (asked + 1) members).map fun (asked, found) => (asked, own ++ found)

/-- The search for units in a list of members. -/
def searchMembers (compilation : Compilation) (canceled : Nat → Bool) (verifying : Bool)
    (asked : Nat) : List (Option Declaration) → Option (Nat × List Declaration)
  | [] => some (asked, [])
  | none :: rest => searchMembers compilation canceled verifying asked rest
  | some member :: rest =>
      (member.search compilation canceled verifying asked).bind fun (asked, found) =>
        (searchMembers compilation canceled verifying asked rest).map fun (asked, others) =>
          (asked, found ++ others)

end

/-- What a search has found after the next `count` questions, unless it is canceled at one of
them. -/
def unlessCanceled (canceled : Nat → Bool) (asked count : Nat) (found : List Declaration) :
    Option (Nat × List Declaration) :=
  if (List.range' asked count).any canceled then none else some (asked + count, found)

section Outcomes

variable (canceled : Nat → Bool) (asked : Nat) (found others : List Declaration)

theorem unlessCanceled_eq_none_iff (count : Nat) :
    unlessCanceled canceled asked count found = none ↔
      ∃ question, asked ≤ question ∧ question < asked + count ∧ canceled question = true := by
  rw [unlessCanceled, ite_eq_left_iff]
  simp [and_assoc]

theorem unlessCanceled_succ (count : Nat) :
    unlessCanceled canceled asked (count + 1) found =
      if canceled asked then none else unlessCanceled canceled (asked + 1) count found := by
  rw [unlessCanceled, unlessCanceled, List.range'_succ, List.any_cons, Nat.add_right_comm asked 1]
  cases canceled asked with
  | true => rfl
  | false => rfl

/-- What was found before the questions is kept. -/
theorem map_unlessCanceled (count : Nat) :
    (unlessCanceled canceled asked count others).map (fun (asked, others) =>
      (asked, found ++ others)) = unlessCanceled canceled asked count (found ++ others) := by
  unfold unlessCanceled
  split
  · rfl
  · rfl

/-- A search that goes on behind another one is canceled at a question of either. -/
theorem bind_unlessCanceled (count further : Nat) :
    ((unlessCanceled canceled asked count found).bind fun (asked, found) =>
      unlessCanceled canceled asked further (found ++ others)) =
        unlessCanceled canceled asked (count + further) (found ++ others) := by
  simp only [unlessCanceled, ← List.range'_append_1, List.any_append]
  cases (List.range' asked count).any canceled with
  | true => rfl
  | false =>
      rw [← Nat.add_assoc]
      rfl

end Outcomes

/-- If the search of each of some members finds the units in it unless it is canceled, so does the
search of all of them. -/
theorem searchMembers_eq (compilation : Compilation) (canceled : Nat → Bool) (verifying : Bool)
    (asked : Nat) (outer : Declaration) (place : Nat) {members : List (Option Declaration)}
    (each : ∀ member, some member ∈ members → ∀ verifying asked,
      member.search compilation canceled verifying asked =
        unlessCanceled canceled asked member.preorder.length
          (member.units compilation verifying)) :
    searchMembers compilation canceled verifying asked members =
      unlessCanceled canceled asked (memberPreorder outer place members).length
        (memberUnits compilation verifying members) := by
  induction members generalizing asked place with
  | nil => rfl
  | cons member rest ih =>
      have others asked :=
        ih asked (place + 1) fun member mem => each member (List.mem_cons_of_mem _ mem)
      cases member with
      | none => rw [searchMembers, memberPreorder, memberUnits, others]
      | some member =>
          rw [searchMembers, memberPreorder, memberUnits, each member List.mem_cons_self,
            List.length_append, List.length_map, ← bind_unlessCanceled]
          simp only [others, map_unlessCanceled]

/-- The search asks once for each declaration, and finds the units unless it is canceled. -/
theorem search_eq (compilation : Compilation) (canceled : Nat → Bool) (verifying : Bool)
    (asked : Nat) (outer : Declaration) :
    outer.search compilation canceled verifying asked =
      unlessCanceled canceled asked outer.preorder.length
        (outer.units compilation verifying) := by
  induction outer using memberInduction generalizing verifying asked with
  | step outer ih =>
      have unfolded : outer.search compilation canceled verifying asked =
          if canceled asked then none
          else (searchMembers compilation canceled
            (if outer.isModule then outer.verifyMembers else verifying) (asked + 1)
            outer.members).map fun (asked, found) => (asked,
              (if verifying && outer.isCandidate compilation then [outer] else []) ++ found) := by
        cases outer
        simp [search, isModule]
      rw [unfolded, searchMembers_eq compilation canceled _ _ outer 0 ih, map_unlessCanceled,
        preorder_eq, List.length_cons, unlessCanceled_succ, units_eq]

end Questions

/-- Whether occurrences are those of the units of a program, in preorder and each of them once. A
declaration is a unit if it is wanted and the nearest module around it verifies its members; neither
the declarations between them nor those around the module count. Without a module around it, a
declaration is no unit. -/
structure ListsUnits (compilation : Compilation) (program : Declaration)
    (found : List Occurrence) : Prop where
  inOrder : found.Pairwise Precedes
  standsIn : ∀ occurrence ∈ found, StandsIn program occurrence
  mem_iff : ∀ (occurrence : Occurrence) (between beyond : List Declaration) (module : Declaration),
    StandsIn program occurrence → occurrence.enclosing = between ++ module :: beyond →
    (∀ declaration ∈ between, declaration.isModule = false) → module.isModule = true →
      (occurrence ∈ found ↔
        IsWanted compilation occurrence.declaration ∧ module.verifyMembers = true)
  notMem : ∀ occurrence : Occurrence,
    (∀ declaration ∈ occurrence.enclosing, declaration.isModule = false) → occurrence ∉ found

theorem nearestVerifies_of_append {between beyond : List Declaration} {module : Declaration}
    (notBetween : ∀ declaration ∈ between, declaration.isModule = false)
    (isModule : module.isModule = true) (verifying : Bool) :
    nearestVerifies verifying (between ++ module :: beyond) = module.verifyMembers := by
  have none : between.find? Declaration.isModule = none := by simpa using notBetween
  simp [nearestVerifies, List.find?_append, none, isModule]

theorem nearestVerifies_of_none {enclosing : List Declaration}
    (none : ∀ declaration ∈ enclosing, declaration.isModule = false) (verifying : Bool) :
    nearestVerifies verifying enclosing = verifying := by
  have none : enclosing.find? Declaration.isModule = Option.none := by simpa using none
  simp [nearestVerifies, none]

/-- The occurrences that are found are those of the units. -/
theorem listsUnits (compilation : Compilation) (program : Declaration) :
    ListsUnits compilation program (program.preorder.filter (isFound compilation false)) where
  inOrder := (pairwise_preorder program).filter _
  standsIn occurrence mem := (mem_preorder_iff program occurrence).mp (List.mem_filter.mp mem).1
  mem_iff occurrence between beyond module stands parts notBetween isModule := by
    rw [List.mem_filter, mem_preorder_iff, isFound, parts,
      nearestVerifies_of_append notBetween isModule, Bool.and_eq_true, isCandidate_iff]
    exact and_iff_right stands
  notMem occurrence none mem := by
    have found := (List.mem_filter.mp mem).2
    rw [isFound, nearestVerifies_of_none none, Bool.and_false] at found
    cases found

/-- The units of a program are its wanted declarations whose nearest module verifies its members, in
preorder and once for each place where they stand. When the search is canceled from the start it has
no result exactly if there is a program to search. It is the same whether the token is asked once or
at each declaration, and when the token is canceled in between there is no result either. -/
theorem collectsUnits (compilation : Compilation) :
    (∀ program, ∃ found, ListsUnits compilation program found ∧
      collectUnits? (some program) compilation false =
        some (found.map Occurrence.declaration)) ∧
    (∀ module, collectUnits? module compilation true = none ↔ module ≠ none) ∧
    (∀ canceled, collectUnits? none compilation canceled = some []) ∧
    (∀ program canceled, collectUnits? (some program) compilation canceled =
      (program.search compilation (fun _ => canceled) false 0).map Prod.snd) ∧
    ∀ (program : Declaration) (canceled : Nat → Bool),
      (∃ asked < program.preorder.length, canceled asked = true) →
        program.search compilation canceled false 0 = none := by
  refine ⟨fun program => ⟨_, listsUnits compilation program, ?_⟩, ?_, fun _ => rfl, ?_, ?_⟩
  · rw [collectUnits?, if_neg Bool.false_ne_true, units_eq_map]
  · rintro (_ | program)
    · simp [collectUnits?]
    · simp [collectUnits?]
  · intro program canceled
    rw [search_eq, collectUnits?, preorder_eq, List.length_cons, unlessCanceled_succ]
    cases canceled with
    | true => rfl
    | false => simp [unlessCanceled]
  · rintro program canceled ⟨asked, within, isCanceled⟩
    rw [search_eq, unlessCanceled_eq_none_iff]
    exact ⟨asked, Nat.zero_le _, by rwa [Nat.zero_add], isCanceled⟩

/-- A method that stands in a class of an inner module is a unit there, although neither the class
nor the outer module is verified, and none where it stands in the outer module itself. A search that
is canceled at the class has no result. -/
theorem collectsUnits_sample :
    let range : Range := { start := {}, stop := {} }
    let method : Declaration := ⟨"f", .method, "a", range, true, true, true, false, false, []⟩
    let holder : Declaration :=
      ⟨"C", .classType, "a", range, true, false, false, true, false, [some method]⟩
    let inner : Declaration :=
      ⟨"n", .module, "a", range, false, false, true, false, false, [some holder]⟩
    let outer : Declaration :=
      ⟨"m", .module, "a", range, false, true, false, false, false, [none, some method, some inner]⟩
    let compilation : Compilation := { roots := [{ uri := "a", contents := [] }] }
    (∃ found : List Occurrence,
      collectUnits? (some outer) compilation false = some (found.map Occurrence.declaration) ∧
      ⟨[2, 0, 0], [holder, inner, outer], method⟩ ∈ found ∧ ⟨[1], [outer], method⟩ ∉ found) ∧
    outer.search compilation (fun asked => asked = 3) false 0 = none := by
  intro range method holder inner outer compilation
  rcases collectsUnits compilation with ⟨finds, _, _, _, canceledBetween⟩
  rcases finds outer with ⟨found, lists, collected⟩
  have wanted : IsWanted compilation method := ⟨rfl, rfl, rfl, rfl, List.mem_singleton.mpr rfl⟩
  have deep := lists.mem_iff ⟨[2, 0, 0], [holder, inner, outer], method⟩ [holder] [outer] inner
    (.member rfl (.member rfl (.member rfl (.here method)))) rfl
    (fun _ mem => List.mem_singleton.mp mem ▸ rfl) rfl
  have shallow := lists.mem_iff ⟨[1], [outer], method⟩ [] [] outer (.member rfl (.here method)) rfl
    (fun _ mem => nomatch mem) rfl
  refine ⟨⟨found, collected, deep.mpr ⟨wanted, rfl⟩, fun mem => ?_⟩,
    canceledBetween outer _ ⟨3, ?_, rfl⟩⟩
  · cases (shallow.mp mem).2
  · decide

end Proofline.Declaration
