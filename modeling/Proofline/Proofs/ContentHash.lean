import Mathlib.Logic.Function.Basic
import Proofline.Proofs.RecordedProgress

/-!
# Changed bytes

Each round of the hash is a bijection of its state: the exclusive or with a byte can be repeated,
and the multiplication has an inverse because the factor is odd. So texts that end alike have the
same hash only if they have it before that end, and no change of a single byte goes unnoticed: the
tree of a document does not describe the changed document and is not carried over to it.
-/

namespace Proofline

section Rounds

/-- The factor that undoes the multiplication of a round, modulo 2^64. -/
def inverseFactor : UInt64 := 14886173955864302971

theorem mul_factor_injective : Function.Injective fun state : UInt64 => state * 1099511628211 := by
  have inverse : (1099511628211 : UInt64) * inverseFactor = 1 := by decide
  have undoes : Function.LeftInverse (· * inverseFactor)
      fun state : UInt64 => state * 1099511628211 := by
    intro state
    simp only [UInt64.mul_assoc, inverse, UInt64.mul_one]
  exact undoes.injective

/-- A round leads different states to different ones. -/
theorem hashByte_state_inj {first second : UInt64} (byte : UInt8) :
    hashByte first byte = hashByte second byte ↔ first = second := by
  rw [hashByte, hashByte, mul_factor_injective.eq_iff, UInt64.xor_left_inj]

/-- Different bytes lead a state to different ones. -/
theorem hashByte_byte_inj (state : UInt64) {first second : UInt8} :
    hashByte state first = hashByte state second ↔ first = second := by
  rw [hashByte, hashByte, mul_factor_injective.eq_iff, UInt64.xor_right_inj, UInt8.toUInt64_inj]

/-- The same bytes lead different states to different ones. -/
theorem foldl_hashByte_inj {first second : UInt64} (bytes : Bytes) :
    bytes.foldl hashByte first = bytes.foldl hashByte second ↔ first = second := by
  induction bytes generalizing first second with
  | nil => rfl
  | cons byte bytes ih => rw [List.foldl_cons, List.foldl_cons, ih, hashByte_state_inj]

end Rounds

/-- Texts that end alike have the same hash exactly if they have it before that end. -/
theorem contentHash_append_inj {first second : Bytes} (rest : Bytes) :
    contentHash (first ++ rest) = contentHash (second ++ rest) ↔
      contentHash first = contentHash second := by
  rw [contentHash_append, contentHash_append, foldl_hashByte_inj]

/-- Texts that differ in one byte have different hashes. -/
theorem contentHash_byte_inj {first second : UInt8} (before after : Bytes) :
    contentHash (before ++ [first] ++ after) = contentHash (before ++ [second] ++ after) ↔
      first = second := by
  rw [contentHash_append_inj, contentHash_append, contentHash_append]
  exact hashByte_byte_inj (contentHash before)

/-- A text with a byte replaced by another one has another hash. -/
theorem contentHash_set_ne {text : Bytes} {place : Nat} (inside : place < text.length)
    {byte : UInt8} (changed : byte ≠ text[place]) :
    contentHash (text.set place byte) ≠ contentHash text := by
  have parts : text.take place ++ [text[place]] ++ text.drop (place + 1) = text := by
    rw [List.append_assoc, List.singleton_append, List.getElem_cons_drop, List.take_append_drop]
  have changedParts : text.take place ++ [byte] ++ text.drop (place + 1) = text.set place byte := by
    rw [List.set_eq_take_append_cons_drop, if_pos inside, List.append_assoc,
      List.singleton_append]
  have differ := (contentHash_byte_inj (text.take place) (text.drop (place + 1))).not.mpr changed
  rwa [changedParts, parts] at differ

namespace ProgressTree

/-- The tree of a document describes it, whatever was recorded in it. -/
theorem describes_withNodes_fresh (document : Document) (calls : List ProgressNode) :
    ((fresh document).withNodes calls).describes document = true := by
  rw [withNodes_eq]
  exact describes_fresh document

variable {tree : ProgressTree} {document edited : Document}

/-- A tree describes no two documents with different hashes. -/
theorem not_describes_of_hash_ne (describes : tree.describes document = true)
    (changed : edited.hash ≠ document.hash) : tree.describes edited = false := by
  rw [← Bool.not_eq_true, describes_iff]
  rintro ⟨_, sameHash, _⟩
  exact changed (sameHash.trans ((tree.describes_iff document).mp describes).2.1.symm)

/-- A tree is not carried over to a version in which the document it is named for is not one that
it describes. -/
theorem not_carriedOver (describes : tree.describes document = true)
    (stale : tree.describes edited = false) {compilation : Compilation}
    (only : ∀ root ∈ compilation.roots, root.uri = document.uri → root = edited)
    (previous : ProgressTrees) (uri : String) :
    (previous.migrate compilation)[uri]? ≠ some tree := by
  intro carried
  rcases ProgressTrees.describes_of_migrate carried with ⟨root, isRoot, _, describesRoot⟩
  have sameName : root.uri = document.uri :=
    ((tree.describes_iff root).mp describesRoot).1.trans
      ((tree.describes_iff document).mp describes).1.symm
  rw [only root isRoot sameName, stale] at describesRoot
  cases describesRoot

end ProgressTree

/-- The hash of a text tells a byte from any other in its place, and a whole beginning from another
exactly if their hashes do. So when one byte of a document is replaced, its tree does not describe
the edited document, and is not carried over to a version in which this is the only root document
of that name. -/
theorem Document.noticesByteEdits :
    (∀ (before after : Bytes) (first second : UInt8), first ≠ second →
      contentHash (before ++ [first] ++ after) ≠ contentHash (before ++ [second] ++ after)) ∧
    (∀ first second rest : Bytes, contentHash (first ++ rest) = contentHash (second ++ rest) ↔
      contentHash first = contentHash second) ∧
    ∀ (document : Document) (calls : List ProgressNode) (place : Nat) (byte : UInt8)
        (inside : place < document.contents.length), byte ≠ document.contents[place] →
      let tree := (ProgressTree.fresh document).withNodes calls
      let edited := { document with contents := document.contents.set place byte }
      (tree.describes document = true ∧ tree.describes edited = false) ∧
      ∀ (previous : ProgressTrees) (compilation : Compilation),
        (∀ root ∈ compilation.roots, root.uri = document.uri → root = edited) →
          ∀ uri : String, (previous.migrate compilation)[uri]? ≠ some tree := by
  refine ⟨fun before after _ _ => (contentHash_byte_inj before after).not.mpr,
    fun _ _ rest => contentHash_append_inj rest, ?_⟩
  intro document calls place byte inside changed tree edited
  have describes := ProgressTree.describes_withNodes_fresh document calls
  have stale : tree.describes edited = false :=
    ProgressTree.not_describes_of_hash_ne describes (contentHash_set_ne inside changed)
  exact ⟨⟨describes, stale⟩, fun previous _ only =>
    ProgressTree.not_carriedOver describes stale only previous⟩

/-- The tree of a document with two bytes is not carried over when the second one is replaced, also
if other documents are added to the project. -/
theorem Document.noticesByteEdits_sample :
    let document : Document := { uri := "a", contents := [120, 10] }
    let edited : Document := { uri := "a", contents := [120, 13] }
    let tree := (ProgressTree.fresh document).withNodes [⟨"f", ⟨⟨1, 1⟩, ⟨1, 2⟩⟩, .verified⟩]
    let previous : ProgressTrees := Table.ofListFirst [("a", tree)]
    let compilation : Compilation := { roots := [edited, { uri := "b", contents := [] }] }
    contentHash [120, 10] ≠ contentHash [120, 13] ∧
      (tree.describes document = true ∧ tree.describes edited = false) ∧
      ∀ uri : String, (previous.migrate compilation)[uri]? ≠ some tree := by
  intro document edited tree previous compilation
  rcases noticesByteEdits with ⟨tells, _, notices⟩
  rcases notices document [⟨"f", ⟨⟨1, 1⟩, ⟨1, 2⟩⟩, .verified⟩] 1 13 (by decide) (by decide) with
    ⟨describes, notCarried⟩
  refine ⟨tells [120] [] 10 13 (by decide), describes, notCarried previous compilation ?_⟩
  intro root isRoot sameName
  rcases List.mem_pair.mp isRoot with rfl | rfl
  · rfl
  · exact absurd sameName (by decide)

end Proofline
