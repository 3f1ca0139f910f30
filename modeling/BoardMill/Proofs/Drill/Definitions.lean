import BoardMill.Drill.Reading
import BoardMill.Proofs.Decimal.Plain
import BoardMill.Proofs.Splits
import Mathlib.Data.List.Perm.Basic

/-! # Definitions of tools

A line that defines a tool has parameters behind its number, each a capital letter and an unsigned
number. The first of them is the shape and the size of the tool, whatever its letter, and the others
are passed over.
-/

namespace BoardMill.Drill

open Decimal (Writes WritesUnsigned WritesPlain isDigit maxWord32 readWord32?_of_writes
  readPlain?_of_writes)

/-! ## Kinds of characters -/

theorem isDigit_of_isCapital {c : Char} (h : isCapital c = true) : isDigit c = false := by
  have hlow : 'A' ≤ c := of_decide_eq_true ((Bool.and_eq_true _ _).mp h).1
  have hnine : ¬ c ≤ '9' := fun hc => absurd (Char.le_trans hlow hc) (by decide)
  rw [isDigit, decide_eq_false hnine, Bool.and_false]

theorem isSizeChar_of_isCapital {c : Char} (h : isCapital c = true) : isSizeChar c = false := by
  have hmark {mark : Char} (hlow : isCapital mark = false) : (c == mark) = false := by
    rw [beq_eq_false_iff_ne]
    rintro rfl
    exact Bool.false_ne_true (hlow.symm.trans h)
  rw [isSizeChar, isDigit_of_isCapital h, hmark (by decide), hmark (by decide)]
  rfl

theorem isSizeChar_of_isPointed {text : List Char} (h : Decimal.IsPointed text) :
    ∀ c ∈ text, isSizeChar c = true := by
  intro c hc
  rcases h.marks c hc with hdigit | rfl
  · simp [isSizeChar, hdigit]
  · rfl

/-! ## Parameters -/

variable {α : Type} [Scalar α]

/-- A letter with an unsigned number behind it, and the value of the number. -/
structure Parameter (α : Type) [Scalar α] where
  letter : Char
  number : List Char
  value : α
  capital : isCapital letter = true
  writes : WritesUnsigned number value

def Parameter.text (p : Parameter α) : List Char := p.letter :: p.number

/-- A line that defines a tool. -/
def definitionText (digits : List Char) (parameters : List (Parameter α)) : List Char :=
  'T' :: (digits ++ parameters.flatMap Parameter.text)

variable {digits : List Char} {id : Nat} {first : Parameter α} {rest : List (Parameter α)}

/-- Parameters begin with a letter. -/
theorem isCapital_of_parameters {parameters : List (Parameter α)} :
    ∀ c ∈ (parameters.flatMap Parameter.text).head?, isCapital c = true := by
  cases parameters with
  | nil => nofun
  | cons p rest =>
      intro c hc
      cases hc
      exact p.capital

/-- The shape is the character behind the number, and the size is written in the characters of sizes
behind it. -/
theorem definition?_of_split {text more : List Char} {shape : Char}
    (htext : text.dropWhile isDigit = shape :: more) (hshape : isCapital shape = true)
    (hmore : (more.dropWhile isSizeChar).head?.all isCapital = true) :
    (definition? ('T' :: text) : Option (Nat × Tool α)) =
      (Decimal.readWord32? (text.takeWhile isDigit)).bind fun number =>
        (Decimal.readPlain? (more.takeWhile isSizeChar)).map fun size => (number, ⟨shape, size⟩) := by
  simp only [definition?, htext, hshape, hmore, Option.map_eq_bind]
  rfl

/-- The first parameter is the tool. -/
theorem definition?_of_parameters (hid : Writes digits id) :
    definition? (definitionText digits (first :: rest)) =
      if id ≤ maxWord32 ∧ Scalar.isFinite first.value = true then
        some (id, ⟨first.letter, first.value⟩) else none := by
  let others := rest.flatMap Parameter.text
  have hothers : ∀ c ∈ others.head?, isCapital c = true := isCapital_of_parameters
  have hletter : ∀ c ∈ (first.letter :: (first.number ++ others)).head?, isDigit c = false :=
    fun c hc => Option.some.inj hc ▸ isDigit_of_isCapital first.capital
  obtain ⟨hnumber, hbehind⟩ := takeWhile_dropWhile_append hid.digits hletter
  obtain ⟨hsize, hmore⟩ := takeWhile_dropWhile_append
    (isSizeChar_of_isPointed first.writes.isPointed)
    fun c hc => isSizeChar_of_isCapital (hothers c hc)
  have hcapital : ((first.number ++ others).dropWhile isSizeChar).head?.all isCapital = true := by
    rw [hmore]
    exact (Option.all_eq_true _ _).mpr hothers
  refine (definition?_of_split hbehind first.capital hcapital).trans ?_
  rw [hnumber, hsize, readWord32?_of_writes hid, readPlain?_of_writes (.bare first.writes)]
  by_cases hword : id ≤ maxWord32 <;> by_cases hfinite : Scalar.isFinite first.value = true <;>
    simp [hword, hfinite]

/-! ## Lines -/

omit [Scalar α] in
theorem change?_of_capital {text : List Char} {c : Char} (hc : c ∈ text) (h : isCapital c = true) :
    (change? ('T' :: text) : Option (Step α)) = none := by
  have hall : text.all isDigit = false := by
    refine List.all_eq_false.mpr ⟨c, hc, ?_⟩
    rw [isDigit_of_isCapital h]
    exact Bool.false_ne_true
  simp [change?, hall]

/-- Lines that begin with `T` are about tools. -/
theorem Reading.line_of_tool (r : Reading α) (text : List Char) :
    r.line ('T' :: text) = r.toolLine ('T' :: text) := by
  have hword (word : String) (h : word.toList.head? ≠ some 'T') :
      ¬ String.ofList ('T' :: text) = word := by
    rintro rfl
    rw [String.toList_ofList] at h
    exact h rfl
  have hidle : ¬ idleDirectives.contains (String.ofList ('T' :: text)) = true := by
    have hall : ∀ word ∈ idleDirectives, word.toList.head? ≠ some 'T' := by decide
    exact fun h => hword _ (hall _ (List.contains_iff_mem.mp h)) rfl
  have hends : ¬ (String.ofList ('T' :: text) = "M30" ∨ String.ofList ('T' :: text) = "M00") :=
    not_or.mpr ⟨hword _ (by decide), hword _ (by decide)⟩
  rw [line, if_neg hidle, if_neg hends, if_neg (hword _ (by decide)), if_neg (hword _ (by decide)),
    if_neg (by simp [List.isPrefixOf])]

/-- A line that defines a tool by parameters in any order, one of them with the letter `C`, gives the
tool the letter and the number of the first of them. It is so accepted exactly if its number is a
word and the number of the first parameter is in range. The tool has the letter `C`, and with it the
number of that parameter, exactly if this one comes first; the order of the others does not matter. -/
theorem Reading.definition_takes_first (hid : Writes digits id) {bit : Parameter α}
    (hbit : bit.letter = 'C') {others : List (Parameter α)} (hothers : ∀ p ∈ others, p.letter ≠ 'C')
    (horder : (first :: rest).Perm (bit :: others)) (r : Reading α) :
    let line := definitionText digits (first :: rest)
    let tool : Tool α := ⟨first.letter, first.value⟩
    (id ≤ maxWord32 ∧ Scalar.isFinite first.value = true →
      definition? line = some (id, tool) ∧
        r.line line = .ok { r with tools := r.tools.insert id tool }) ∧
    (¬ (id ≤ maxWord32 ∧ Scalar.isFinite first.value = true) →
      (definition? line : Option (Nat × Tool α)) = none ∧ r.line line = .error .toolDirective) ∧
    (tool.shape = 'C' ↔ first = bit) := by
  intro line tool
  have hdefinition : definition? line = if id ≤ maxWord32 ∧ Scalar.isFinite first.value = true then
      some (id, tool) else none := definition?_of_parameters hid
  have hline : r.line line = r.toolLine line := r.line_of_tool _
  refine ⟨fun haccepted => ?_, fun hrefused => ?_, fun hshape => ?_, fun hfirst => ?_⟩
  · rw [if_pos haccepted] at hdefinition
    refine ⟨hdefinition, ?_⟩
    rw [hline, toolLine, hdefinition]
    rfl
  · rw [if_neg hrefused] at hdefinition
    have hletter : first.letter ∈ digits ++ (first :: rest).flatMap Parameter.text :=
      List.mem_append_right _ List.mem_cons_self
    have hchange : (change? line : Option (Step α)) = none :=
      change?_of_capital hletter first.capital
    refine ⟨hdefinition, ?_⟩
    rw [hline, toolLine, hdefinition, hchange]
    rfl
  · rcases List.mem_cons.mp (horder.subset List.mem_cons_self) with hfirst | hfirst
    · exact hfirst
    · exact absurd hshape (hothers first hfirst)
  · rw [← hbit, ← hfirst]

/-- A bit of 0.8. -/
def bitParameter : Parameter Float where
  letter := 'C'
  number := ['0'] ++ '.' :: ['8']
  value := Decimal.ofParts ['0'] ['8']
  capital := by decide
  writes := .point (by decide) (List.all_eq_true.mp rfl) (List.all_eq_true.mp rfl)

/-- A feed of 200. -/
def feedParameter : Parameter Float where
  letter := 'F'
  number := ['2', '0', '0']
  value := Decimal.ofParts ['2', '0', '0'] []
  capital := by decide
  writes := .whole (by decide) (List.all_eq_true.mp rfl)

/-- The bit comes first. -/
theorem Reading.definition_takes_first_bit :
    definitionText ['1'] [bitParameter, feedParameter] = "T1C0.8F200".toList ∧
      (Reading.start : Reading Float).line (definitionText ['1'] [bitParameter, feedParameter]) =
        .ok { Reading.start with tools := ToolTable.empty.insert 1 ⟨'C', bitParameter.value⟩ } := by
  have hid : Writes ['1'] 1 := ⟨by decide, List.all_eq_true.mp rfl, rfl⟩
  have haccepted : 1 ≤ maxWord32 ∧ Scalar.isFinite bitParameter.value = true := by decide +kernel
  have hothers : ∀ p ∈ [feedParameter], p.letter ≠ 'C' := by
    simp [feedParameter]
  exact ⟨by decide, ((Reading.definition_takes_first hid rfl hothers (.refl _) .start).1 haccepted).2⟩

/-- If the feed comes first, it is the size of the tool. The number of the bit may also be out of
range, and so may the number of the tool. -/
theorem Reading.feed_is_size :
    (definitionText ['1'] [feedParameter, bitParameter] = "T1F200C0.8".toList ∧
      definition? "T1F200C0.8".toList = some (1, ⟨'F', feedParameter.value⟩) ∧
      (feedParameter.value == bitParameter.value) = false) ∧
    (definition? ("T1C1".toList ++ List.replicate 310 '0') : Option (Nat × Tool Float)) = none ∧
    (definition? "T4294967296C0.8".toList : Option (Nat × Tool Float)) = none := by
  have hid : Writes ['1'] 1 := ⟨by decide, List.all_eq_true.mp rfl, rfl⟩
  have htext : definitionText ['1'] [feedParameter, bitParameter] = "T1F200C0.8".toList := by decide
  have haccepted : 1 ≤ maxWord32 ∧ Scalar.isFinite feedParameter.value = true := by decide +kernel
  have hdefinition : definition? (definitionText ['1'] [feedParameter, bitParameter]) =
      if 1 ≤ maxWord32 ∧ Scalar.isFinite feedParameter.value = true then
        some (1, ⟨'F', feedParameter.value⟩) else none := definition?_of_parameters hid
  rw [if_pos haccepted, htext] at hdefinition
  have hnone {text : List Char}
      (h : (definition? text : Option (Nat × Tool Float)).isNone = true) : definition? text = none :=
    Option.isNone_iff_eq_none.mp h
  exact ⟨⟨htext, hdefinition, by decide +kernel⟩, hnone (by decide +kernel), hnone (by decide +kernel)⟩

end BoardMill.Drill
