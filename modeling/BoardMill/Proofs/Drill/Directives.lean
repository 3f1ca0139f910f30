import BoardMill.Drill.Reading
import BoardMill.Proofs.GCode.Path
import BoardMill.Proofs.Outcome

/-! # What the directives of a drill file say

Each directive sets what it says of the units, the digit counts and the tools, and adds at most
one step. A step is read with the digit counts of the directives before it. Units and tools are
those of the program as a whole: the ones that were named last.
-/

namespace BoardMill.Drill

open Gerber (visitsFrom visitsFrom_append)
open Outcome

/-! ## Directives -/

/-- The end marker. -/
def ends (text : List Char) : Bool := text == "M30".toList || text == "M00".toList

/-- The units that a directive names. -/
def units? (text : List Char) : Option Units :=
  if text = "M71".toList ∨ "METRIC".toList <+: text then some .millimeters
  else if text = "M72".toList ∨ "INCH".toList <+: text then some .inches
  else none

/-- The digit counts behind a directive, given those before it. -/
def digitsBehind (digits : DigitCount) (text : List Char) : DigitCount :=
  ((unitLine? digits text).map Prod.snd).toOption.getD digits

/-- Whether a directive begins like one for units and digit counts. -/
def isUnitLine (text : List Char) : Bool :=
  "INCH".toList.isPrefixOf text || "METRIC".toList.isPrefixOf text

def isHoleLine (text : List Char) : Bool := text.head? == some 'X'

variable {digits next : DigitCount} {text : List Char}

theorem prefix_of_splitOn {first : List Char} {rest : List (List Char)}
    (h : text.splitOn ',' = first :: rest) : first <+: text := by
  have hjoin : [','].intercalate (text.splitOn ',') = text := List.intercalate_splitOn ','
  rw [h] at hjoin
  cases rest with
  | nil => simp [← hjoin]
  | cons second others =>
      rw [List.intercalate_cons_cons] at hjoin
      exact ⟨_, by simpa using hjoin⟩

/-- A unit line begins with the name of its units. -/
theorem prefix_of_unitLine? {units : Units} (h : unitLine? digits text = .ok (units, next)) :
    (units = .inches ∧ "INCH".toList <+: text) ∨
      (units = .millimeters ∧ "METRIC".toList <+: text) := by
  unfold unitLine? at h
  split at h
  next => cases h
  next name options hsplit =>
    obtain ⟨named, hunits, h⟩ := bind_eq_ok.mp h
    obtain ⟨_, _, h⟩ := bind_eq_ok.mp h
    cases h
    have hname := prefix_of_splitOn hsplit
    unfold unitName? at hunits
    split at hunits
    next hinch =>
      cases hunits
      rw [hinch] at hname
      exact .inl ⟨rfl, by simpa using hname⟩
    next =>
      split at hunits
      next hmetric =>
        cases hunits
        rw [hmetric] at hname
        exact .inr ⟨rfl, by simpa using hname⟩
      next => cases hunits

theorem units?_of_unitLine? {units : Units} (h : unitLine? digits text = .ok (units, next)) :
    units? text = some units := by
  rcases prefix_of_unitLine? h with ⟨rfl, rest, rfl⟩ | ⟨rfl, rest, rfl⟩ <;> simp [units?]

theorem digitsBehind_of_not_unitLine (h : isUnitLine text = false) :
    digitsBehind digits text = digits := by
  unfold digitsBehind
  cases hline : unitLine? digits text with
  | error defect => rfl
  | ok named =>
      obtain ⟨rest, rfl⟩ | ⟨rest, rfl⟩ := (prefix_of_unitLine? hline).imp And.right And.right <;>
        simp [isUnitLine] at h

/-- Unit lines and the words for units and ends begin with one of two letters. -/
theorem quiet_of_cons (digits : DigitCount) {c : Char} (hinch : c ≠ 'I') (hmetric : c ≠ 'M') (rest : List Char) :
    digitsBehind digits (c :: rest) = digits ∧ units? (c :: rest) = none ∧
      ends (c :: rest) = false := by
  refine ⟨digitsBehind_of_not_unitLine ?_, ?_, ?_⟩
  · simp [isUnitLine, List.isPrefixOf, hinch.symm, hmetric.symm]
  · simp [units?, hinch.symm, hmetric.symm, hmetric]
  · simp [ends, hmetric]

section Steps

variable {α : Type} [Scalar α]

/-- The step that a directive adds. -/
def step? (digits : DigitCount) (text : List Char) : Option (Step α) :=
  if (definition? text : Option (Nat × Tool α)).isSome then none
  else (change? text).or (hole? digits text)

theorem definition?_eq_none (h : text.head? ≠ some 'T') :
    (definition? text : Option (Nat × Tool α)) = none := by
  unfold definition?
  split
  next => simp at h
  next => rfl

omit [Scalar α] in
theorem change?_eq_none (h : text.head? ≠ some 'T') : (change? text : Option (Step α)) = none := by
  unfold change?
  split
  next => simp at h
  next => rfl

theorem hole?_eq_none (h : text.head? ≠ some 'X') :
    (hole? digits text : Option (Step α)) = none := by
  unfold hole?
  split
  next => simp at h
  next => rfl

theorem step?_eq_none (htool : text.head? ≠ some 'T') (hhole : text.head? ≠ some 'X') :
    (step? digits text : Option (Step α)) = none := by
  rw [step?, definition?_eq_none htool, change?_eq_none htool, hole?_eq_none hhole]
  rfl

theorem exists_drill_of_hole? {s : Step α} (h : hole? digits text = some s) :
    ∃ hole, s = .drill hole := by
  unfold hole? at h
  split at h
  · obtain ⟨⟨x, y⟩, -, h⟩ := Option.bind_eq_some_iff.mp h
    obtain ⟨x, -, h⟩ := Option.bind_eq_some_iff.mp h
    obtain ⟨y, -, h⟩ := Option.bind_eq_some_iff.mp h
    cases h
    exact ⟨⟨x, y⟩, rfl⟩
  · cases h

omit [Scalar α] in
theorem isDrill_of_change? {s : Step α} (h : change? text = some s) : s.isDrill = false := by
  unfold change? at h
  split at h
  · split at h
    · cases h
    · obtain ⟨number, -, h⟩ := Option.bind_eq_some_iff.mp h
      split at h <;> cases h <;> rfl
  · cases h

/-- A line for a hole adds the hole. -/
theorem step?_of_isHoleLine (h : isHoleLine text = true) :
    (step? digits text : Option (Step α)) = hole? digits text := by
  have hhead : text.head? ≠ some 'T' := by simp [eq_of_beq h]
  rw [step?, definition?_eq_none hhead, change?_eq_none hhead]
  rfl

theorem isDrill_of_step? {s : Step α} (hline : isHoleLine text = false)
    (h : step? digits text = some s) : s.isDrill = false := by
  unfold step? at h
  rw [hole?_eq_none (by simpa [isHoleLine] using hline), Option.or_none] at h
  split at h
  · cases h
  · exact isDrill_of_change? h

theorem hole?_of_step? {hole : Point α} (h : step? digits text = some (.drill hole)) :
    hole? digits text = some (.drill hole) := by
  cases hline : isHoleLine text with
  | true => rwa [← step?_of_isHoleLine hline]
  | false => cases isDrill_of_step? hline h

namespace Reading

variable {r next : Reading α}

/-- A reading went on to the next one as a directive says. -/
structure Heeds (r : Reading α) (text : List Char) (next : Reading α) : Prop where
  units : next.units = (units? text).getD r.units
  digits : next.digits = digitsBehind r.digits text
  tools : next.tools = (definition? text).elim r.tools fun (number, tool) =>
    r.tools.insert number tool
  steps : next.steps.toList = r.steps.toList ++ (step? r.digits text).toList
  ended : next.ended = (r.ended || ends text)
  hole : isHoleLine text = true → (hole? r.digits text : Option (Step α)).isSome

/-- A directive adds a hole exactly if it is the line of one. -/
theorem Heeds.countP_step? (h : r.Heeds text next) :
    ((step? r.digits text).toList : List (Step α)).countP Step.isDrill =
      if isHoleLine text then 1 else 0 := by
  split
  next hline =>
    obtain ⟨s, hs⟩ := Option.isSome_iff_exists.mp (h.hole hline)
    obtain ⟨hole, rfl⟩ := exists_drill_of_hole? hs
    rw [step?_of_isHoleLine hline, hs]
    rfl
  next hline =>
    rw [List.countP_eq_zero]
    intro s hs
    rw [isDrill_of_step? (Bool.eq_false_iff.mpr hline) (Option.mem_toList.mp hs)]
    exact Bool.false_ne_true

/-- A directive that begins like none about tools or holes leaves these as they are. -/
theorem Heeds.of_head (htool : text.head? ≠ some 'T') (hhole : text.head? ≠ some 'X')
    (hunits : next.units = (units? text).getD r.units)
    (hdigits : next.digits = digitsBehind r.digits text)
    (htools : next.tools = r.tools) (hsteps : next.steps = r.steps)
    (hended : next.ended = (r.ended || ends text)) : r.Heeds text next where
  units := hunits
  digits := hdigits
  tools := by rw [htools, definition?_eq_none htool, Option.elim_none]
  steps := by rw [hsteps, step?_eq_none htool hhole, Option.toList_none, List.append_nil]
  ended := hended
  hole h := absurd (by simpa [isHoleLine] using h) hhole

/-- A word that is not about tools or holes, and no unit line. -/
def isPlain (word : String) : Bool :=
  word.toList.head? != some 'T' && word.toList.head? != some 'X' &&
    !isUnitLine word.toList

/-- A plain word can only name units and end the program. -/
theorem Heeds.of_plain {word : String} {named : Option Units} {done : Bool}
    (hword : String.ofList text = word) (hplain : isPlain word = true)
    (hunits : units? word.toList = named) (hends : ends word.toList = done) :
    r.Heeds text { r with units := named.getD r.units, ended := r.ended || done } := by
  obtain rfl : text = word.toList := by rw [← hword, String.toList_ofList]
  simp only [isPlain, Bool.and_eq_true, bne_iff_ne, Bool.not_eq_true'] at hplain
  obtain ⟨⟨htool, hhole⟩, hname⟩ := hplain
  subst hunits hends
  exact .of_head htool hhole rfl (digitsBehind_of_not_unitLine hname).symm rfl rfl rfl

theorem Heeds.of_unitLine {units : Units} {digits : DigitCount}
    (hname : isUnitLine text = true)
    (h : unitLine? r.digits text = .ok (units, digits)) :
    r.Heeds text { r with units, digits } := by
  simp only [isUnitLine, Bool.or_eq_true, List.isPrefixOf_iff_prefix] at hname
  have hhead : text.head? ≠ some 'T' ∧ text.head? ≠ some 'X' ∧ ends text = false := by
    rcases hname with ⟨rest, rfl⟩ | ⟨rest, rfl⟩ <;> simp [ends]
  obtain ⟨htool, hhole, hends⟩ := hhead
  refine .of_head htool hhole ?_ ?_ rfl rfl ?_
  · rw [units?_of_unitLine? h, Option.getD_some]
  · rw [digitsBehind, h]
    rfl
  · rw [hends, Bool.or_false]

theorem Heeds.of_toolLine {rest : List Char} (h : r.toolLine ('T' :: rest) = .ok next) :
    r.Heeds ('T' :: rest) next := by
  obtain ⟨hdigits, hunits, hends⟩ :=
    quiet_of_cons r.digits (by decide : 'T' ≠ 'I') (by decide) rest
  unfold toolLine at h
  split at h
  next number tool hdefinition =>
    cases h
    constructor <;> simp [hdigits, hunits, hends, hdefinition, step?, isHoleLine]
  next hdefinition =>
    split at h
    next step hchange =>
      cases h
      constructor <;> simp [hdigits, hunits, hends, hdefinition, hchange, step?, isHoleLine]
    next => cases h

theorem Heeds.of_holeLine {rest : List Char} (h : r.holeLine ('X' :: rest) = .ok next) :
    r.Heeds ('X' :: rest) next := by
  obtain ⟨hdigits, hunits, hends⟩ :=
    quiet_of_cons r.digits (by decide : 'X' ≠ 'I') (by decide) rest
  have hdefinition : (definition? ('X' :: rest) : Option (Nat × Tool α)) = none := rfl
  have hchange : (change? ('X' :: rest) : Option (Step α)) = none := rfl
  unfold holeLine at h
  split at h
  next step hhole =>
    cases h
    constructor <;> simp [hdigits, hunits, hends, hdefinition, hchange, hhole, step?]
  next => cases h

/-- A directive that is carried out does what it says. -/
theorem heeds_of_line (h : r.line text = .ok next) : r.Heeds text next := by
  unfold line at h
  dsimp only at h
  split at h
  next hidle =>
    cases h
    have hall : ∀ word ∈ idleDirectives, isPlain word = true ∧ units? word.toList = none ∧
        ends word.toList = false := by
      decide
    obtain ⟨hplain, hunits, hends⟩ := hall _ (List.contains_iff_mem.mp hidle)
    simpa using Heeds.of_plain (r := r) rfl hplain hunits hends
  split at h
  next hend =>
    cases h
    rcases hend with hend | hend <;>
      simpa using Heeds.of_plain (r := r) hend (by decide) (by decide : _ = none)
        (by decide : _ = true)
  split at h
  next hmetric =>
    cases h
    simpa using Heeds.of_plain (r := r) hmetric (by decide) (by decide : _ = some .millimeters)
      (by decide : _ = false)
  split at h
  next hinch =>
    cases h
    simpa using Heeds.of_plain (r := r) hinch (by decide) (by decide : _ = some .inches)
      (by decide : _ = false)
  split at h
  next hname =>
    obtain ⟨⟨units, digits⟩, hunits, h⟩ := bind_eq_ok.mp h
    cases h
    exact .of_unitLine hname hunits
  split at h
  · exact .of_toolLine h
  · exact .of_holeLine h
  · cases h

theorem line_of_ends (h : ends text = true) : r.line text = .ok { r with ended := true } := by
  simp only [ends, Bool.or_eq_true, beq_iff_eq] at h
  rcases h with rfl | rfl <;> rfl

end Reading

end Steps

/-! ## Runs -/

/-- The directives of a text up to its end marker. -/
def directives (text : List Char) : List (List Char) :=
  ((Text.lines text).map directive).takeWhile fun text => !ends text

/-- The units that directives name last. -/
def unitsAfter (lines : List (List Char)) : Units :=
  (lines.filterMap units?).getLast?.getD .millimeters

/-- The digit counts in force behind directives. -/
def digitsAfter (lines : List (List Char)) : DigitCount := lines.foldl digitsBehind ⟨3, 3⟩

theorem unitsAfter_append (first second : List (List Char)) :
    unitsAfter (first ++ second) = (second.filterMap units?).getLast?.getD (unitsAfter first) := by
  unfold unitsAfter
  rw [List.filterMap_append, List.getLast?_append]
  cases (second.filterMap units?).getLast? <;> rfl

theorem unitsAfter_concat (lines : List (List Char)) (text : List Char) :
    unitsAfter (lines ++ [text]) = (units? text).getD (unitsAfter lines) := by
  rw [unitsAfter_append]
  cases h : units? text <;> simp [h]

theorem digitsAfter_concat (lines : List (List Char)) (text : List Char) :
    digitsAfter (lines ++ [text]) = digitsBehind (digitsAfter lines) text := by
  simp [digitsAfter]

section Runs

variable {α : Type} [Scalar α]

/-- The tool that directives define last for a number. -/
def toolOf? (lines : List (List Char)) (number : Nat) : Option (Tool α) :=
  (lines.filterMap definition?).reverse.lookup number

/-- The steps that directives behind others add, each with the digit counts of the directives
before it. -/
def stepsFrom (before lines : List (List Char)) : List (Step α) :=
  (visitsFrom before lines).filterMap fun (before, text) => step? (digitsAfter before) text

omit [Scalar α] in
theorem lookup_cons_eq_ite (number other : Nat) (tool : Tool α) (entries : List (Nat × Tool α)) :
    ((other, tool) :: entries).lookup number =
      if number = other then some tool else entries.lookup number := by
  rw [List.lookup_cons]
  split <;> simp_all

theorem toolOf?_concat (lines : List (List Char)) (text : List Char) (number : Nat) :
    (toolOf? (lines ++ [text]) number : Option (Tool α)) =
      (definition? text).elim (toolOf? lines number) fun (other, tool) =>
        if number = other then some tool else toolOf? lines number := by
  unfold toolOf?
  rcases h : (definition? text : Option (Nat × Tool α)) with - | ⟨other, tool⟩ <;>
    simp [h, lookup_cons_eq_ite]

theorem exists_definition_of_toolOf? {lines : List (List Char)} {number : Nat} {tool : Tool α}
    (h : toolOf? lines number = some tool) :
    ∃ text ∈ lines, definition? text = some (number, tool) := by
  obtain ⟨later, earlier, hentries, -⟩ := List.lookup_eq_some_iff.mp h
  have hmem : (number, tool) ∈ (lines.filterMap definition?).reverse := by simp [hentries]
  exact List.mem_filterMap.mp (List.mem_reverse.mp hmem)

theorem stepsFrom_cons (before : List (List Char)) (text : List Char)
    (rest : List (List Char)) :
    (stepsFrom before (text :: rest) : List (Step α)) =
      (step? (digitsAfter before) text).toList ++ stepsFrom (before ++ [text]) rest := by
  rw [stepsFrom, visitsFrom, List.filterMap_cons]
  cases h : (step? (digitsAfter before) text : Option (Step α)) <;> simp [h, stepsFrom]

theorem stepsFrom_append (before first second : List (List Char)) :
    (stepsFrom before (first ++ second) : List (Step α)) =
      stepsFrom before first ++ stepsFrom (before ++ first) second := by
  rw [stepsFrom, visitsFrom_append, List.filterMap_append]
  rfl

omit [Scalar α] in
theorem ToolTable.get?_insert (table : ToolTable α) (number other : Nat) (tool : Tool α) :
    (table.insert other tool).get? number =
      if number = other then some tool else table.get? number := by
  obtain ⟨entries⟩ := table
  unfold insert get?
  induction entries with
  | nil => simp [insertEntry, lookup_cons_eq_ite]
  | cons entry rest ih =>
      rw [insertEntry]
      split
      · rw [lookup_cons_eq_ite]
      · split
        next heq =>
          rw [lookup_cons_eq_ite, lookup_cons_eq_ite, ← heq]
          split <;> rfl
        next hne =>
          rw [lookup_cons_eq_ite, lookup_cons_eq_ite, ih]
          split <;> split <;> simp_all

namespace Reading

/-- A reading is what the directives so far say. -/
structure Remembers (r : Reading α) (past : List (List Char)) : Prop where
  units : r.units = unitsAfter past
  digits : r.digits = digitsAfter past
  tools : ∀ number, r.tools.get? number = toolOf? past number
  steps : r.steps.toList = stepsFrom [] past
  holes : r.steps.toList.countP Step.isDrill = past.countP isHoleLine

theorem Remembers.start : (start : Reading α).Remembers [] :=
  ⟨rfl, rfl, fun _ => rfl, rfl, rfl⟩

variable {r next : Reading α} {text : List Char}

theorem Remembers.line {past : List (List Char)} (h : r.Remembers past)
    (hnext : r.line text = .ok next) : next.Remembers (past ++ [text]) := by
  have hheeds := heeds_of_line hnext
  refine ⟨?_, ?_, fun number => ?_, ?_, ?_⟩
  · rw [hheeds.units, h.units, unitsAfter_concat]
  · rw [hheeds.digits, h.digits, digitsAfter_concat]
  · rw [hheeds.tools, toolOf?_concat, ← h.tools]
    cases (definition? text : Option (Nat × Tool α)) with
    | none => rfl
    | some d => exact ToolTable.get?_insert _ _ _ _
  · rw [hheeds.steps, h.steps, h.digits, stepsFrom_append, List.nil_append, stepsFrom_cons]
    exact congrArg _ (List.append_nil _).symm
  · rw [hheeds.steps, List.countP_append, h.holes, hheeds.countP_step?, List.countP_append,
      List.countP_singleton]

theorem remembers_of_foldlM {lines : List (List Char)}
    (h : lines.foldlM Reading.line (.start : Reading α) = .ok r) : r.Remembers lines := by
  induction lines using List.reverseRecOn generalizing r with
  | nil =>
      cases h
      exact .start
  | append_singleton front text ih =>
      obtain ⟨middle, last, hmiddle, hlast, hsame⟩ := exists_of_foldlM_split h
      cases hsame
      exact (ih hmiddle).line hlast

end Reading

namespace Program

variable {p : Program α}

theorem readFrom_of_ended {number : Nat} {r : Reading α} (h : r.ended = true)
    (lines : List (Option (List Char))) : readFrom number r lines = .ok r.program := by
  rcases lines with - | ⟨- | text, rest⟩ <;> simp [readFrom, h, pure, Except.pure]

theorem readFrom_eq_ok_iff {number : Nat} {r : Reading α} (hr : r.ended = false)
    {texts : List (List Char)} :
    readFrom number r (texts.map some) = .ok p ↔
      ∃ last, ((texts.map directive).takeWhile fun text => !ends text).foldlM Reading.line r =
        .ok last ∧ last.program = p := by
  induction texts generalizing number r with
  | nil => simp [readFrom, pure, Except.pure]
  | cons text rest ih =>
      rw [List.map_cons, List.map_cons, readFrom, if_neg (by simp [hr])]
      dsimp only
      cases hends : ends (directive text) with
      | true =>
          rw [Reading.line_of_ends hends, List.takeWhile_cons_of_neg (by simp [hends])]
          dsimp only
          rw [readFrom_of_ended rfl]
          simp [Reading.program, pure, Except.pure]
      | false =>
          rw [List.takeWhile_cons_of_pos (by simp [hends]), List.foldlM_cons]
          cases hline : r.line (directive text) with
          | error defect => simp [bind, Except.bind, throw, throwThe, MonadExceptOf.throw]
          | ok next =>
              have hended := (Reading.heeds_of_line hline).ended
              rw [hr, hends] at hended
              exact ih hended

/-- A program comes of carrying out all directives up to the end marker. -/
theorem ofText?_eq_ok_iff {text : List Char} :
    ofText? text = .ok p ↔
      ∃ r, (directives text).foldlM Reading.line .start = .ok r ∧ r.program = p :=
  readFrom_eq_ok_iff rfl

variable {text : List Char}

theorem units_of_ofText? (h : ofText? text = .ok p) : p.units = unitsAfter (directives text) := by
  obtain ⟨r, hr, rfl⟩ := ofText?_eq_ok_iff.mp h
  exact (Reading.remembers_of_foldlM hr).units

theorem get?_of_ofText? (h : ofText? text = .ok p) (number : Nat) :
    p.tools.get? number = toolOf? (directives text) number := by
  obtain ⟨r, hr, rfl⟩ := ofText?_eq_ok_iff.mp h
  exact (Reading.remembers_of_foldlM hr).tools number

theorem steps_of_ofText? (h : ofText? text = .ok p) : p.steps = stepsFrom [] (directives text) := by
  obtain ⟨r, hr, rfl⟩ := ofText?_eq_ok_iff.mp h
  exact (Reading.remembers_of_foldlM hr).steps

theorem holes_of_ofText? (h : ofText? text = .ok p) :
    p.holes = (directives text).countP isHoleLine := by
  obtain ⟨r, hr, rfl⟩ := ofText?_eq_ok_iff.mp h
  exact (Reading.remembers_of_foldlM hr).holes

end Program

end Runs

end BoardMill.Drill
