import Mathlib.Data.List.Infix
import Proofline.Counterexample.TypeName

/-!
# Qualifiers in displayed types

A qualifier has an underscore at its start and nowhere else. So no two of its occurrences overlap,
and all of them are erased; what is left is what stands between them. But what is left is not looked
at again. A qualifier into which another one is put comes together when that one is erased, and is
displayed. No other qualifier is: merging underscores brings none together.
-/

namespace Proofline.TypeName

/-- Whether an underscore stands at the start of a word and nowhere else. -/
def IsQualifier (word : List Char) : Prop :=
  word.head? = some '_' ∧ '_' ∉ word.tail

instance (word : List Char) : Decidable (IsQualifier word) :=
  inferInstanceAs (Decidable (_ ∧ _))

theorem IsQualifier.exists_tail {word : List Char} (isQualifier : IsQualifier word) :
    ∃ rest, word = '_' :: rest ∧ '_' ∉ rest := by
  rcases isQualifier with ⟨starts, inside⟩
  cases word with
  | nil => cases starts
  | cons first rest =>
      obtain rfl := Option.some.inj starts
      exact ⟨rest, rfl, inside⟩

theorem IsQualifier.ne_nil {word : List Char} (isQualifier : IsQualifier word) : word ≠ [] := by
  rintro rfl
  cases isQualifier.1

section Erasing

variable {gap text rest before after : List Char}

theorem eraseAll_append_self (nonempty : gap ≠ []) (rest : List Char) :
    eraseAll gap (gap ++ rest) = eraseAll gap rest := by
  cases gap with
  | nil => exact absurd rfl nonempty
  | cons first gap =>
      have isPrefix : (first :: gap).isPrefixOf (first :: (gap ++ rest)) = true :=
        List.isPrefixOf_iff_prefix.mpr (List.prefix_append (first :: gap) rest)
      rw [List.cons_append, eraseAll, if_pos isPrefix, List.length_cons, Nat.add_sub_cancel,
        List.drop_left]

theorem eraseAll_cons {c : Char} (stays : ¬gap <+: c :: rest) :
    eraseAll gap (c :: rest) = c :: eraseAll gap rest := by
  rw [eraseAll, if_neg (List.isPrefixOf_iff_prefix.not.mpr stays)]

/-- To show something of all texts, go through them as they are erased. -/
@[elab_as_elim]
theorem eraseInduction {motive : List Char → Prop} (nonempty : gap ≠ []) (nil : motive [])
    (erased : ∀ rest, motive rest → motive (gap ++ rest))
    (kept : ∀ c rest, ¬gap <+: c :: rest → motive rest → motive (c :: rest))
    (text : List Char) : motive text := by
  induction text using eraseAll.induct gap with
  | case1 => exact nil
  | case2 c rest isPrefix ih =>
      obtain ⟨behind, parts⟩ := List.isPrefixOf_iff_prefix.mp isPrefix
      have isBehind : rest.drop (gap.length - 1) = behind := by
        cases gap with
        | nil => exact absurd rfl nonempty
        | cons first gap =>
            obtain rfl := (List.cons.inj parts).2
            rw [List.length_cons, Nat.add_sub_cancel]
            exact List.drop_left
      rw [isBehind] at ih
      rw [← parts]
      exact erased behind ih
  | case3 c rest isPrefix ih =>
      exact kept c rest (List.isPrefixOf_iff_prefix.not.mp isPrefix) ih

theorem prefix_intercalate (gap piece : List Char) (pieces : List (List Char)) :
    piece <+: gap.intercalate (piece :: pieces) := by
  cases pieces with
  | nil => simp
  | cons next pieces =>
      rw [List.intercalate_cons_cons, List.append_assoc]
      exact List.prefix_append _ _

theorem intercalate_cons (gap piece : List Char) (pieces : List (List Char)) (c : Char) :
    gap.intercalate ((c :: piece) :: pieces) = c :: gap.intercalate (piece :: pieces) := by
  cases pieces with
  | nil => simp
  | cons next pieces => simp only [List.intercalate_cons_cons, List.cons_append]

/-- What is left of a text are the pieces between the occurrences, put together. -/
theorem exists_pieces (nonempty : gap ≠ []) (text : List Char) :
    ∃ piece pieces, text = gap.intercalate (piece :: pieces) ∧
      (∀ other ∈ piece :: pieces, ¬gap <:+: other) ∧
        eraseAll gap text = (piece :: pieces).flatten := by
  induction text using eraseInduction nonempty with
  | nil => exact ⟨[], [], by simp, by simp [nonempty], by simp [eraseAll]⟩
  | erased rest ih =>
      obtain ⟨piece, pieces, rfl, free, left⟩ := ih
      refine ⟨[], piece :: pieces, ?_, ?_, ?_⟩
      · rw [List.intercalate_cons_cons, List.nil_append]
      · rw [List.forall_mem_cons]
        exact ⟨by simp [nonempty], free⟩
      · rw [eraseAll_append_self nonempty, left, List.flatten_cons (l := []), List.nil_append]
  | kept c rest stays ih =>
      obtain ⟨piece, pieces, rfl, free, left⟩ := ih
      refine ⟨c :: piece, pieces, (intercalate_cons ..).symm, ?_, ?_⟩
      · rw [List.forall_mem_cons] at free ⊢
        refine ⟨fun isInfix => ?_, free.2⟩
        rcases List.infix_cons_iff.mp isInfix with isPrefix | isInfix
        · have behind := (prefix_intercalate gap (c :: piece) pieces)
          rw [intercalate_cons] at behind
          exact stays (isPrefix.trans behind)
        · exact free.1 isInfix
      · rw [eraseAll_cons stays, left, List.flatten_cons, List.flatten_cons, List.cons_append]

/-- A qualifier does not reach over an underscore behind its start. -/
theorem not_prefix_append_underscore {c : Char} (isQualifier : IsQualifier gap)
    (stays : ¬gap <+: c :: text) (rest : List Char) : ¬gap <+: c :: (text ++ '_' :: rest) := by
  intro isPrefix
  rcases List.prefix_or_prefix_of_prefix isPrefix (List.prefix_append (c :: text) ('_' :: rest))
    with shorter | ⟨remains, rfl⟩
  · exact stays shorter
  · have reaches := (List.prefix_append_right_inj (c :: text)).mp isPrefix
    cases remains with
    | nil => exact stays (by simp)
    | cons first remains =>
        obtain rfl := (List.cons_prefix_cons.mp reaches).1
        exact isQualifier.2 (List.mem_append_right text List.mem_cons_self)

/-- What stands before an underscore is erased on its own. -/
theorem eraseAll_append_underscore (isQualifier : IsQualifier gap) (text rest : List Char) :
    eraseAll gap (text ++ '_' :: rest) = eraseAll gap text ++ eraseAll gap ('_' :: rest) := by
  induction text using eraseInduction isQualifier.ne_nil with
  | nil => simp [eraseAll]
  | erased behind ih =>
      rw [List.append_assoc, eraseAll_append_self isQualifier.ne_nil,
        eraseAll_append_self isQualifier.ne_nil, ih]
  | kept c behind stays ih =>
      rw [List.cons_append, eraseAll_cons (not_prefix_append_underscore isQualifier stays rest),
        ih, eraseAll_cons stays, List.cons_append]

end Erasing

/-- A word with copies of another one put between its characters. -/
inductive Spread (gap : List Char) : List Char → List Char → Prop where
  | last (c : Char) : Spread gap [c] [c]
  | cons (c : Char) (copies : Nat) {word spread : List Char} (rest : Spread gap word spread) :
      Spread gap (c :: word) (c :: ((List.replicate copies gap).flatten ++ spread))

/-- Whether a word stands in a text with copies of another one put into it. -/
def StandsBroken (gap word text : List Char) : Prop :=
  ∃ spread, Spread gap word spread ∧ spread ≠ word ∧ spread <:+: text

section Spreading

variable {gap word spread text after : List Char}

theorem Spread.ne_nil (isSpread : Spread gap word spread) : word ≠ [] := by
  cases isSpread <;> exact List.cons_ne_nil _ _

theorem Spread.refl (nonempty : word ≠ []) : Spread gap word word := by
  induction word with
  | nil => exact absurd rfl nonempty
  | cons c word ih =>
      cases word with
      | nil => exact .last c
      | cons next word => exact .cons c 0 (ih (List.cons_ne_nil next word))

/-- Of a word at the start of what is left, the characters stand in the text, with erased copies
before and between them. -/
theorem exists_spread_of_prefix (nonempty : gap ≠ []) (text : List Char) :
    ∀ word, word ≠ [] → word <+: eraseAll gap text →
      ∃ copies spread, Spread gap word spread ∧
        (List.replicate copies gap).flatten ++ spread <+: text := by
  induction text using eraseInduction nonempty with
  | nil =>
      intro word isWord isPrefix
      rw [eraseAll, List.prefix_nil] at isPrefix
      exact absurd isPrefix isWord
  | erased rest ih =>
      intro word isWord isPrefix
      rw [eraseAll_append_self nonempty] at isPrefix
      obtain ⟨copies, spread, isSpread, stands⟩ := ih word isWord isPrefix
      refine ⟨copies + 1, spread, isSpread, ?_⟩
      rw [List.replicate_succ, List.flatten_cons, List.append_assoc]
      exact (List.prefix_append_right_inj gap).mpr stands
  | kept c rest stays ih =>
      intro word isWord isPrefix
      rw [eraseAll_cons stays] at isPrefix
      obtain ⟨first, word, rfl⟩ := List.exists_cons_of_ne_nil isWord
      obtain ⟨rfl, behind⟩ := List.cons_prefix_cons.mp isPrefix
      by_cases isLast : word = []
      · subst isLast
        exact ⟨0, [first], .last first, by simp⟩
      · obtain ⟨copies, spread, isSpread, stands⟩ := ih word isLast behind
        exact ⟨0, _, .cons first copies isSpread, List.cons_prefix_cons.mpr ⟨rfl, stands⟩⟩

/-- A word in what is left stands in the text, with erased copies between its characters. -/
theorem exists_spread_of_infix (nonempty : gap ≠ []) (isWord : word ≠ []) (text : List Char)
    (isInfix : word <:+: eraseAll gap text) :
    ∃ spread, Spread gap word spread ∧ spread <:+: text ∧ spread ≠ gap := by
  induction text using eraseInduction nonempty with
  | nil =>
      rw [eraseAll, List.infix_nil] at isInfix
      exact absurd isInfix isWord
  | erased rest ih =>
      rw [eraseAll_append_self nonempty] at isInfix
      obtain ⟨spread, isSpread, stands, notGap⟩ := ih isInfix
      exact ⟨spread, isSpread, stands.trans (List.suffix_append gap rest).isInfix, notGap⟩
  | kept c rest stays ih =>
      rw [eraseAll_cons stays, List.infix_cons_iff, ← eraseAll_cons stays] at isInfix
      rcases isInfix with isPrefix | isInfix
      · obtain ⟨copies, spread, isSpread, atStart⟩ :=
          exists_spread_of_prefix nonempty _ word isWord isPrefix
        cases copies with
        | zero =>
            refine ⟨spread, isSpread, atStart.isInfix, ?_⟩
            rintro rfl
            exact stays atStart
        | succ copies =>
            rw [List.replicate_succ, List.flatten_cons, List.append_assoc] at atStart
            exact absurd ((List.prefix_append _ _).trans atStart) stays
      · obtain ⟨spread, isSpread, behind, notGap⟩ := ih isInfix
        exact ⟨spread, isSpread, behind.trans (List.suffix_cons c rest).isInfix, notGap⟩

/-- A word without an underscore behind its start that stands where another one is spread ends
within that one, unless nothing is put into that one. -/
theorem Spread.prefix_cases (starts : gap.head? = some '_') (isSpread : Spread gap word spread)
    {other : List Char} (inside : '_' ∉ other.tail) (isPrefix : other <+: spread ++ after) :
    other <+: word ∧ other ≠ word ∨ spread = word := by
  induction isSpread generalizing other with
  | last c => exact .inr rfl
  | @cons c copies word spread rest ih =>
      cases other with
      | nil => exact .inl ⟨List.nil_prefix, (List.cons_ne_nil c word).symm⟩
      | cons first other =>
          obtain ⟨rfl, behind⟩ := List.cons_prefix_cons.mp isPrefix
          cases copies with
          | zero =>
              have deeper : '_' ∉ other.tail := fun mem => inside (List.mem_of_mem_tail mem)
              rcases ih deeper behind with ⟨isPrefix, differ⟩ | same
              · exact .inl ⟨List.cons_prefix_cons.mpr ⟨rfl, isPrefix⟩, by simpa using differ⟩
              · exact .inr (by simpa using same)
          | succ copies =>
              -- A copy comes next, and its underscore is not in the other word.
              have ends : other = [] := by
                obtain ⟨gapTail, rfl⟩ := List.head?_eq_some_iff.mp starts
                cases other with
                | nil => rfl
                | cons next other =>
                    obtain rfl := (List.cons_prefix_cons.mp behind).1
                    exact absurd List.mem_cons_self inside
              subst ends
              exact .inl ⟨by simp, by simpa using rest.ne_nil.symm⟩

theorem eraseAll_copies (nonempty : gap ≠ []) (copies : Nat) (rest : List Char) :
    eraseAll gap ((List.replicate copies gap).flatten ++ rest) = eraseAll gap rest := by
  induction copies with
  | zero => rfl
  | succ copies ih =>
      rw [List.replicate_succ, List.flatten_cons, List.append_assoc, eraseAll_append_self nonempty,
        ih]

theorem IsQualifier.not_prefix (isQualifier : IsQualifier gap) {c : Char} (differs : c ≠ '_')
    (rest : List Char) : ¬gap <+: c :: rest := by
  obtain ⟨tail, rfl, _⟩ := isQualifier.exists_tail
  exact fun isPrefix => differs (List.cons_prefix_cons.mp isPrefix).1.symm

/-- Of a spread word without underscores the word is left. -/
theorem Spread.eraseAll_append (isQualifier : IsQualifier gap) (isSpread : Spread gap word spread)
    (plain : '_' ∉ word) (after : List Char) :
    eraseAll gap (spread ++ after) = word ++ eraseAll gap after := by
  induction isSpread with
  | last c =>
      have differs : c ≠ '_' := fun same => plain (same ▸ List.mem_singleton_self c)
      exact eraseAll_cons (isQualifier.not_prefix differs after)
  | @cons c copies word spread rest ih =>
      rw [List.mem_cons, not_or] at plain
      rw [List.cons_append, eraseAll_cons (isQualifier.not_prefix (Ne.symm plain.1) _),
        List.append_assoc, eraseAll_copies isQualifier.ne_nil, ih plain.2, List.cons_append]

/-- Of a spread qualifier the qualifier is left, unless it is itself an occurrence. -/
theorem Spread.infix_eraseAll (isQualifier : IsQualifier gap) (isOther : IsQualifier word)
    (isSpread : Spread gap word spread) {before : List Char} (stays : ¬gap <+: spread ++ after) :
    word <:+: eraseAll gap (before ++ spread ++ after) := by
  obtain ⟨tail, rfl, plain⟩ := isOther.exists_tail
  have left : eraseAll gap (spread ++ after) = '_' :: tail ++ eraseAll gap after := by
    cases isSpread with
    | last => exact eraseAll_cons stays
    | cons _ copies rest =>
        rw [List.cons_append] at stays ⊢
        rw [eraseAll_cons stays, List.append_assoc, eraseAll_copies isQualifier.ne_nil,
          rest.eraseAll_append isQualifier plain, List.cons_append]
  obtain ⟨behind, rfl⟩ : ∃ behind, spread = '_' :: behind := by
    cases isSpread <;> exact ⟨_, rfl⟩
  rw [List.append_assoc, List.cons_append, eraseAll_append_underscore isQualifier,
    ← List.cons_append, left]
  exact ⟨eraseAll gap before, eraseAll gap after, by simp⟩

/-- A qualifier is left of a text exactly if it stands there with copies of itself put into it. -/
theorem infix_eraseAll_self_iff (isQualifier : IsQualifier gap) (text : List Char) :
    gap <:+: eraseAll gap text ↔ StandsBroken gap gap text := by
  constructor
  · intro isInfix
    obtain ⟨spread, isSpread, stands, notGap⟩ :=
      exists_spread_of_infix isQualifier.ne_nil isQualifier.ne_nil text isInfix
    exact ⟨spread, isSpread, notGap, stands⟩
  · rintro ⟨spread, isSpread, broken, before, after, rfl⟩
    apply isSpread.infix_eraseAll isQualifier isQualifier
    intro isPrefix
    rcases isSpread.prefix_cases isQualifier.1 isQualifier.2 isPrefix with ⟨_, differ⟩ | same
    · exact differ rfl
    · exact broken same

/-- Another qualifier is left of a text exactly if it stands there, whole or with copies of the
erased one put into it. -/
theorem infix_eraseAll_iff (isQualifier : IsQualifier gap) (isOther : IsQualifier word)
    (notPrefix : ¬gap <+: word) (notPrefixOther : ¬word <+: gap) (text : List Char) :
    word <:+: eraseAll gap text ↔ word <:+: text ∨ StandsBroken gap word text := by
  have spreads : word <:+: eraseAll gap text ↔
      ∃ spread, Spread gap word spread ∧ spread <:+: text := by
    constructor
    · intro isInfix
      obtain ⟨spread, isSpread, stands, _⟩ :=
        exists_spread_of_infix isQualifier.ne_nil isOther.ne_nil text isInfix
      exact ⟨spread, isSpread, stands⟩
    · rintro ⟨spread, isSpread, before, after, rfl⟩
      apply isSpread.infix_eraseAll isQualifier isOther
      intro isPrefix
      rcases isSpread.prefix_cases isQualifier.1 isQualifier.2 isPrefix with ⟨shorter, _⟩ | rfl
      · exact notPrefix shorter
      · rcases List.prefix_or_prefix_of_prefix isPrefix (List.prefix_append spread after)
          with shorter | longer
        · exact notPrefix shorter
        · exact notPrefixOther longer
  rw [spreads]
  constructor
  · rintro ⟨spread, isSpread, stands⟩
    by_cases whole : spread = word
    · exact .inl (whole ▸ stands)
    · exact .inr ⟨spread, isSpread, whole, stands⟩
  · rintro (stands | ⟨spread, isSpread, _, stands⟩)
    · exact ⟨word, .refl isOther.ne_nil, stands⟩
    · exact ⟨spread, isSpread, stands⟩

end Spreading

section Collapsing

variable {word : List Char}

theorem prefix_collapseUnderscores_iff (plain : '_' ∉ word) (text : List Char) :
    word <+: collapseUnderscores text ↔ word <+: text := by
  induction text using collapseUnderscores.induct generalizing word with
  | case1 => rfl
  | case2 rest ih =>
      rw [collapseUnderscores]
      cases word with
      | nil => simp
      | cons first word =>
          have differs : first ≠ '_' := fun same => plain (same ▸ List.mem_cons_self)
          simp [List.cons_prefix_cons, differs]
  | case3 c rest single ih =>
      rw [collapseUnderscores]
      · cases word with
        | nil => simp
        | cons first word =>
            rw [List.cons_prefix_cons, List.cons_prefix_cons,
              ih fun mem => plain (List.mem_cons_of_mem first mem)]
      · exact single

/-- Merging underscores neither makes a qualifier nor breaks one up. -/
theorem infix_collapseUnderscores_iff {rest : List Char} (nonempty : rest ≠ []) (plain : '_' ∉ rest)
    (text : List Char) : '_' :: rest <:+: collapseUnderscores text ↔ '_' :: rest <:+: text := by
  induction text using collapseUnderscores.induct with
  | case1 => rfl
  | case2 behind ih =>
      have notTwice : ¬ '_' :: rest <+: '_' :: '_' :: behind := by
        intro isPrefix
        obtain ⟨next, others, rfl⟩ := List.exists_cons_of_ne_nil nonempty
        obtain rfl := (List.cons_prefix_cons.mp (List.cons_prefix_cons.mp isPrefix).2).1
        exact plain List.mem_cons_self
      rw [collapseUnderscores, List.infix_cons_iff, List.infix_cons_iff, List.infix_cons_iff, ih,
        or_iff_right notTwice, List.cons_prefix_cons, List.cons_prefix_cons,
        prefix_collapseUnderscores_iff plain]
  | case3 c behind single ih =>
      rw [collapseUnderscores, List.infix_cons_iff, List.infix_cons_iff, ih]
      · refine or_congr_left ?_
        rw [List.cons_prefix_cons, List.cons_prefix_cons, prefix_collapseUnderscores_iff plain]
      · exact single

end Collapsing

theorem isQualifier_moduleQualifier : IsQualifier moduleQualifier.toList := by
  decide

theorem isQualifier_systemQualifier : IsQualifier systemQualifier.toList := by
  decide

/-- What merging underscores and the display make of a qualifier in what is left. -/
theorem infix_display_iff (type : String) {qualifier : String}
    (isQualifier : IsQualifier qualifier.toList) (long : qualifier.toList.tail ≠ []) :
    qualifier.toList <:+: (display type).toList ↔ qualifier.toList <:+:
      eraseAll systemQualifier.toList (eraseAll moduleQualifier.toList type.toList) := by
  obtain ⟨rest, isWord, plain⟩ := isQualifier.exists_tail
  have nonempty : rest ≠ [] := by simpa [isWord] using long
  rw [isWord, display, String.toList_ofList, infix_collapseUnderscores_iff nonempty plain]

/-- A displayed type has the module qualifier exactly if the type has one with module qualifiers put
into it, or one with system qualifiers put into it is left when the module qualifiers are erased;
and it has the system qualifier exactly if one with system qualifiers put into it is left then. -/
theorem showsBrokenQualifiers (type : String) :
    ∃ piece pieces, type.toList = moduleQualifier.toList.intercalate (piece :: pieces) ∧
      (∀ other ∈ piece :: pieces, ¬moduleQualifier.toList <:+: other) ∧
      let left := (piece :: pieces).flatten
      (moduleQualifier.toList <:+: (display type).toList ↔
        StandsBroken moduleQualifier.toList moduleQualifier.toList type.toList ∨
          StandsBroken systemQualifier.toList moduleQualifier.toList left) ∧
      (systemQualifier.toList <:+: (display type).toList ↔
        StandsBroken systemQualifier.toList systemQualifier.toList left) := by
  have isModule := isQualifier_moduleQualifier
  have isSystem := isQualifier_systemQualifier
  obtain ⟨piece, pieces, isType, free, isLeft⟩ := exists_pieces isModule.ne_nil type.toList
  refine ⟨piece, pieces, isType, free, ?_, ?_⟩
  · rw [infix_display_iff type isModule (by decide),
      infix_eraseAll_iff isSystem isModule (by decide) (by decide),
      infix_eraseAll_self_iff isModule, isLeft]
  · rw [infix_display_iff type isSystem (by decide), infix_eraseAll_self_iff isSystem, isLeft]

/-- A module qualifier is put into another one, which is displayed. -/
theorem shown_qualifier_sample :
    display "_mod_module.ule." = "_module." ∧
      moduleQualifier.toList <:+: (display "_mod_module.ule.").toList :=
  ⟨by decide +kernel, by decide +kernel⟩

end Proofline.TypeName
