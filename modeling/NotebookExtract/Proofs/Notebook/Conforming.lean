import Mathlib.Data.List.Forall2
import NotebookExtract.Notebook.Load
import NotebookExtract.Proofs.Notebook.Reading

/-!
# Documents that conform

A JSON tree may be written in many ways: with any blanks between its tokens and with
any spelling of the characters of its strings. Whichever is chosen, the text holds a
notebook exactly if the tree conforms to the schema, and then the notebook that the
schema reads off the tree.
-/

namespace NotebookExtract.Json

/-- An integer as it is written in decimal. -/
def Numeral.ofInt (k : Int) : Numeral where
  negative := k < 0
  whole := Text.ofNat k.natAbs
  fraction := none
  exponent := none

namespace Tree

/-- The documents that write a tree whose brackets nest at most so deep and whose
numbers are integers of 64 bits, signed or not. Strings are free in how they spell
their characters. -/
def WrittenAs : Nat → Tree → Doc → Prop
  | _, .null, .null => True
  | _, .bool b, .bool b' => b = b'
  | _, .number (.int k), .number m => -2 ^ 63 ≤ k ∧ k < 2 ^ 64 ∧ m = .ofInt k
  | _, .text t, .text l => l.text? = some t
  | n + 1, .array trees, .array docs => List.Forall₂ (WrittenAs n) trees docs
  | n + 1, .object fields, .object entries =>
    List.Forall₂ (fun field entry => entry.1.text? = some field.1 ∧ WrittenAs n field.2 entry.2)
      fields entries
  | _, _, _ => False

/-- The text is one of those that write the tree, and the tree does not nest too deep
for a document. -/
def PrintsTo (tree : Tree) (s : Text) : Prop :=
  ∃ doc, tree.WrittenAs nestingLimit doc ∧ doc.Fills s

end Tree

/-- A character that a string may hold as it is. -/
def isVerbatim (c : Char) : Bool := decide (0x20 ≤ c.toNat) && c != '"' && c != '\\'

/-- A string without escapes. -/
def Literal.plain (t : Text) : Literal := t.map .scalar

theorem Literal.text?_plain (t : Text) : (Literal.plain t).text? = some t := by
  induction t with
  | nil => rfl
  | cons c t ih =>
    rw [Literal.plain, List.map_cons, Literal.text?]
    exact congrArg (Option.map (c :: ·)) ih

theorem Literal.written_plain {t : Text} (h : t.all isVerbatim = true) :
    (Literal.plain t).Written (t ++ ['"']) := by
  induction t with
  | nil => exact .close
  | cons c t ih =>
    obtain ⟨hc, ht⟩ := Bool.and_eq_true_iff.mp (List.all_cons.symm.trans h)
    simp only [isVerbatim, Bool.and_eq_true, decide_eq_true_eq, bne_iff_ne] at hc
    have hpiece : (Piece.scalar c).Written [c] := .plain hc.1.1 hc.1.2 hc.2
    have hcons := Literal.Written.cons hpiece (ih ht)
    exact hcons

/-! ## Texts without blanks -/

section Tight

variable {first : Bool} {k p s : Text} {key : Literal} {doc : Doc} {docs : List Doc}
  {entries : List (Literal × Doc)}

theorem Printed.plain {t : Text} (h : t.all isVerbatim) :
    Printed (.text (.plain t)) ('"' :: (t ++ ['"'])) :=
  .text (Literal.written_plain h)

theorem PrintedItems.close_tight : PrintedItems first [] [']'] :=
  @PrintedItems.close first [] rfl

theorem PrintedItems.first_tight (hp : Printed doc p) (hs : PrintedItems false docs s) :
    PrintedItems true (doc :: docs) (p ++ s) :=
  @PrintedItems.first [] p s doc docs rfl hp hs

theorem PrintedItems.next_tight (hp : Printed doc p) (hs : PrintedItems false docs s) :
    PrintedItems false (doc :: docs) (',' :: (p ++ s)) :=
  @PrintedItems.next [] [] p s doc docs rfl rfl hp hs

theorem PrintedEntries.close_tight : PrintedEntries first [] ['}'] :=
  @PrintedEntries.close first [] rfl

theorem PrintedEntries.first_tight (hk : key.Written k) (hp : Printed doc p)
    (hs : PrintedEntries false entries s) :
    PrintedEntries true ((key, doc) :: entries) ('"' :: (k ++ ':' :: (p ++ s))) :=
  @PrintedEntries.first [] k [] [] p s key doc entries rfl hk rfl rfl hp hs

theorem PrintedEntries.next_tight (hk : key.Written k) (hp : Printed doc p)
    (hs : PrintedEntries false entries s) :
    PrintedEntries false ((key, doc) :: entries) (',' :: '"' :: (k ++ ':' :: (p ++ s))) :=
  @PrintedEntries.next [] [] k [] [] p s key doc entries rfl rfl hk rfl rfl hp hs

end Tight

/-! ## The tree of a document that writes a tree -/

theorem ofDigits_ofNat (n : Nat) : Text.ofDigits 10 (Text.ofNat n) = n := by
  have hdigits : ∀ (digits : Text) (k : Nat), (∀ c ∈ digits, c.isDigit = true) →
      digits.foldl (fun n c => 10 * n + Text.digitValue c) k = Nat.ofDigitChars 10 digits k := by
    intro digits
    induction digits with
    | nil => exact fun _ _ => rfl
    | cons c digits ih =>
      intro k h
      have hc : Text.digitValue c = c.toNat - '0'.toNat := by
        rw [Text.digitValue, if_pos (h c List.mem_cons_self)]
        rfl
      rw [List.foldl_cons, hc, ih _ fun d hd => h d (List.mem_cons_of_mem c hd)]
      rfl
  have hall : ∀ c ∈ Text.ofNat n, c.isDigit = true := fun c hc =>
    Nat.isDigit_of_mem_toDigits (by omega) (by omega) hc
  rw [Text.ofDigits, hdigits _ _ hall]
  exact Nat.ofDigitChars_toDigits (by omega) (by omega)

/-- An integer of 64 bits is read back as itself. -/
theorem toNumber?_ofInt {k : Int} (hlow : -2 ^ 63 ≤ k) (hhigh : k < 2 ^ 64) :
    (Numeral.ofInt k).toNumber? = some (.int k) := by
  have hint : (Numeral.ofInt k).toInt? = some k := by
    simp only [Numeral.toInt?, Numeral.ofInt, ofDigits_ofNat, Option.isSome_none, Bool.or_self,
      Bool.false_eq_true, ↓reduceIte, decide_eq_true_eq, Numeral.maxNegative,
      Numeral.maxSignificand]
    -- negative integers have one bit less
    by_cases hk : k < 0
    · rw [if_pos hk, if_pos (by omega)]
      simp only [Option.some.injEq]
      omega
    · rw [if_neg hk, if_pos (by omega)]
      simp only [Option.some.injEq]
      omega
  rw [Numeral.toNumber?, hint]

/-- A document that writes a tree has that tree. -/
theorem tree_of_writtenAs {n : Nat} {tree : Tree} {doc : Doc} (h : tree.WrittenAs n doc) :
    doc.tree n = tree := by
  -- on the level, since the level is what gets smaller inside brackets
  induction n using Nat.strongRecOn generalizing tree doc with
  | _ n ih =>
    unfold Tree.WrittenAs at h
    split at h
    · rw [Doc.tree]
    · rw [Doc.tree, h]
    · obtain ⟨hlow, hhigh, rfl⟩ := h
      rw [Doc.tree, toNumber?_ofInt hlow hhigh]
    · rw [Doc.tree, h]
    · -- the items one by one, each with the level below
      rename_i n trees docs
      have hitems : docs.map (Doc.tree n) = trees := by
        induction h with
        | nil => rfl
        | cons hitem _ hrest => rw [List.map_cons, ih n (by omega) hitem, hrest]
      rw [Doc.tree_array, hitems]
    · rename_i n fields entries
      have hfields : entries.mapM (Doc.field? n) = some fields := by
        induction h with
        | nil => rfl
        | cons hentry _ hrest =>
          rw [List.mapM_cons, Doc.field?, hentry.1, ih n (by omega) hentry.2, hrest]
          rfl
      rw [Doc.tree_object, hfields]
    · exact h.elim

end NotebookExtract.Json

namespace NotebookExtract.Notebook

open Json

theorem ofText_eq_ok_iff {s : Text} {notebook : Notebook} :
    ofText s = .ok notebook ↔ parse s = .ok notebook := by
  unfold ofText
  cases parse s <;> simp

/-- A text that writes a tree holds the notebook that the schema reads off the tree,
and none if the tree does not conform. -/
theorem ofText_eq_ok_iff_conforms {tree : Tree} {s : Text} (h : tree.PrintsTo s)
    (notebook : Notebook) : ofText s = .ok notebook ↔ ofTree? tree = some notebook := by
  obtain ⟨doc, hdoc, hfills⟩ := h
  rw [ofText_eq_ok_iff, parse_eq_ok_iff_of_fills hfills, tree_of_writtenAs hdoc]

/-- A document with an unknown field, and with its cell as an array. -/
def spelledTree : Tree := .object [
  ("z".toList, .number (.int (-1))),
  ("cells".toList, .array [.array [.text "markdown".toList,
    .array [.text "a".toList, .text ['😀', '\n']]]])]

/-- One of its texts. -/
def spelledText : Text :=
  "\x7b\"z\":-1 ,\"cells\":[[\"markdown\",[\"a\",\"\\ud83d\\uDE00\\n\"]]]\x7d\n".toList

/-- The same document piece by piece: an emoji in two halves. -/
def spelledDoc : Doc := .object [
  (.plain "z".toList, .number (.ofInt (-1))),
  (.plain "cells".toList, .array [.array [.text (.plain "markdown".toList),
    .array [.text (.plain "a".toList), .text [.half 0xd83d, .half 0xde00, .scalar '\n']]]])]

theorem spelledDoc_fills : spelledDoc.Fills spelledText := by
  have hnumber : (Numeral.ofInt (-1)).Written ['-', '1'] :=
    @Numeral.Written.mk true ['1'] [] [] none none ⟨by decide, by decide⟩
      (fun _ _ h => absurd (List.cons.inj h).1 (by decide)) .absent .absent
  have hlead : HexFour "d83d".toList 0xd83d := ⟨by decide, by decide, by decide⟩
  have htrail : HexFour "DE00".toList 0xde00 := ⟨by decide, by decide, by decide⟩
  have hemoji : Literal.Written [.half 0xd83d, .half 0xde00, .scalar '\n'] _ :=
    .cons (.half hlead (.inl (by decide))) (.cons (.half htrail (.inr (by decide)))
      (.cons (@Piece.Written.letter 'n' '\n' (by decide)) .close))
  have hpieces : Printed (.array [.text (.plain "a".toList),
      .text [.half 0xd83d, .half 0xde00, .scalar '\n']]) _ :=
    .array (.first_tight (.plain (by decide)) (.next_tight (.text hemoji) .close_tight))
  have hcells : Printed (.array [.array [.text (.plain "markdown".toList), .array [
      .text (.plain "a".toList), .text [.half 0xd83d, .half 0xde00, .scalar '\n']]]]) _ :=
    .array (.first_tight (.array (.first_tight (.plain (by decide))
      (.next_tight hpieces .close_tight))) .close_tight)
  have hrest := @PrintedEntries.next [' '] [] _ [] [] _ _ _ _ _ rfl rfl
    (Literal.written_plain (show "cells".toList.all isVerbatim = true by decide)) rfl rfl hcells
    .close_tight
  refine ⟨[], _, ['\n'], rfl, rfl,
    .object (.first_tight (Literal.written_plain (by decide)) (.number hnumber) hrest), ?_⟩
  decide

theorem ofText_spelledText : spelledTree.PrintsTo spelledText ∧
    ofText spelledText = .ok { cells := [
      { kind := .markdown, source := some (.pieces ["a".toList, ['😀', '\n']]) }] } := by
  have hprints : spelledTree.PrintsTo spelledText := by
    refine ⟨spelledDoc, ?_, spelledDoc_fills⟩
    exact .cons ⟨rfl, by decide, by decide, rfl⟩
      (.cons ⟨rfl, .cons (.cons rfl (.cons (.cons rfl (.cons rfl .nil)) .nil)) .nil⟩ .nil)
  exact ⟨hprints, (ofText_eq_ok_iff_conforms hprints _).mpr rfl⟩

end NotebookExtract.Notebook
