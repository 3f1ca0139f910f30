import BoardMill.GCode.Program
import BoardMill.Proofs.GCode.Words
import BoardMill.Proofs.Text.Lines

/-! # How a machine stands

A machine that reads a program knows whether its spindle runs and which line set its
height last. From that alone one can tell whether it may carry out the next line: it
travels with the tool raised and the spindle off, and cuts with the tool lowered and the
spindle on.
-/

namespace BoardMill.GCode

/-- Whether the spindle runs, and the last line with a height. -/
structure Posture where
  spinning : Bool
  heightLine : Option (List Char)
  deriving DecidableEq, Repr

namespace Posture

/-- Before the first line the spindle is off and no height is known. -/
def start : Posture := ⟨false, none⟩

/-- The words of a line turn the spindle on or off, or set the height. -/
def read (p : Posture) (line : List Char) : Posture where
  spinning :=
    if ['M', '3'] ∈ wordsOf line then true
    else if ['M', '5'] ∈ wordsOf line then false
    else p.spinning
  heightLine := if ∃ w ∈ wordsOf line, w.head? = some 'Z' then some line else p.heightLine

def readAll (p : Posture) (lines : List (List Char)) : Posture := lines.foldl read p

@[simp] theorem readAll_nil (p : Posture) : p.readAll [] = p := rfl

@[simp] theorem readAll_cons (p : Posture) (line : List Char) (rest : List (List Char)) :
    p.readAll (line :: rest) = (p.read line).readAll rest :=
  rfl

theorem readAll_append (p : Posture) (first second : List (List Char)) :
    p.readAll (first ++ second) = (p.readAll first).readAll second :=
  List.foldl_append

end Posture

variable {α : Type} [Numeral α]

def Posture.after (p : Posture) (c : Command α) : Posture :=
  match c with
  | .rapidZ _ => { p with heightLine := some c.line }
  | .plunge .. => { p with heightLine := some c.line }
  | .spindleOn _ => { p with spinning := true }
  | .spindleOff => { p with spinning := false }
  | _ => p

namespace Posture

variable [PlainNumeral α]

/-- A machine that reads the line of a command stands as it does after the command. -/
theorem read_line (p : Posture) (c : Command α) : p.read c.line = p.after c := by
  unfold read
  rw [Command.wordsOf_line]
  cases c with
  | rapidZ z => simp [Command.words, coordinateWord, after]
  | plunge z feed => simp [Command.words, coordinateWord, feedWord, after]
  | arc clockwise q offset feed => simp [Command.words, coordinateWord, feedWord, after]
  | _ => simp [Command.words, coordinateWord, feedWord, speedWord, after]

end Posture

section Machine

variable (machine : Machine α)

/-- The tool is at the height of travel and the spindle is off. -/
def Posture.raised : Posture := ⟨false, some (Command.rapidZ machine.safeZ).line⟩

/-- The tool is at the height of cutting and the spindle is on. -/
def Posture.lowered : Posture :=
  ⟨true, some (Command.plunge machine.cutZ machine.plungeFeedRate).line⟩

/-- A line may be carried out: it travels with the tool raised, or cuts with the tool
lowered, or does neither. -/
structure Allowed (p : Posture) (line : List Char) : Prop where
  travel : "G00 X".toList <+: line → p = .raised machine
  cut : "G01 X".toList <+: line ∨ "G02".toList <+: line ∨ "G03".toList <+: line →
    p = .lowered machine

/-- All lines may be carried out one after the other. -/
def SafeFrom (p : Posture) : List (List Char) → Prop
  | [] => True
  | line :: rest => Allowed machine p line ∧ SafeFrom (p.read line) rest

/-- The commands may be carried out one after the other, and take a machine from one posture
to another. -/
structure Leads (before : Posture) (commands : List (Command α)) (after : Posture) :
    Prop where
  safe : SafeFrom machine before (commands.map (·.line))
  reads : before.readAll (commands.map (·.line)) = after

end Machine

variable {machine : Machine α} {p q r : Posture}

/-- Of a line that may be carried out, so may be every beginning. -/
theorem Allowed.cut_off {line part : List Char} (h : Allowed machine p line)
    (hpart : part <+: line) : Allowed machine p part where
  travel := fun htravel => h.travel (htravel.trans hpart)
  cut := by
    rintro (hcut | hcut | hcut)
    · exact h.cut (.inl (hcut.trans hpart))
    · exact h.cut (.inr (.inl (hcut.trans hpart)))
    · exact h.cut (.inr (.inr (hcut.trans hpart)))

theorem safeFrom_append {first second : List (List Char)} :
    SafeFrom machine p (first ++ second) ↔
      SafeFrom machine p first ∧ SafeFrom machine (p.readAll first) second := by
  induction first generalizing p with
  | nil => simp [SafeFrom]
  | cons line rest ih => simp [SafeFrom, ih, and_assoc]

/-- Every one of the lines may be carried out once those before it were read. -/
theorem SafeFrom.allowed {lines before after : List (List Char)} {line : List Char}
    (h : SafeFrom machine p lines) (hsplit : lines = before ++ line :: after) :
    Allowed machine (p.readAll before) line := by
  rw [hsplit, safeFrom_append] at h
  exact h.2.1

/-- The lines of commands that may be carried out may also be cut off. -/
theorem SafeFrom.cut_off {first others : List (Command α)} {next : Command α} {rest : List Char}
    (h : SafeFrom machine p ((first ++ next :: others).map (·.line))) (hrest : rest <+: next.line) :
    SafeFrom machine p (first.map (·.line) ++ (Text.unfinished rest).map Prod.fst) := by
  rw [List.map_append, safeFrom_append] at h
  refine safeFrom_append.mpr ⟨h.1, ?_⟩
  unfold Text.unfinished
  split
  · trivial
  · exact ⟨h.2.1.cut_off hrest, trivial⟩

namespace Leads

theorem nil : Leads machine p [] p := ⟨trivial, rfl⟩

theorem append {first second : List (Command α)} (hfirst : Leads machine p first q)
    (hsecond : Leads machine q second r) : Leads machine p (first ++ second) r where
  safe := by
    rw [List.map_append, safeFrom_append, hfirst.reads]
    exact ⟨hfirst.safe, hsecond.safe⟩
  reads := by rw [List.map_append, Posture.readAll_append, hfirst.reads, hsecond.reads]

variable [PlainNumeral α]

theorem cons {c : Command α} {rest : List (Command α)} (hallowed : Allowed machine p c.line)
    (hrest : Leads machine (p.after c) rest q) : Leads machine p (c :: rest) q where
  safe := ⟨hallowed, by rw [Posture.read_line]; exact hrest.safe⟩
  reads := by rw [List.map_cons, Posture.readAll_cons, Posture.read_line, hrest.reads]

end Leads

/-! ## Commands that may be carried out -/

theorem allowed_rapid (target : Point α) :
    Allowed machine (.raised machine) (Command.rapid target).line where
  travel := fun _ => rfl
  cut := by
    rintro (hcut | hcut | hcut) <;> simp [Command.line, Command.text, toString] at hcut

theorem allowed_cut (target : Point α) (feed : α) :
    Allowed machine (.lowered machine) (Command.cut target feed).line where
  travel := fun htravel => by simp [Command.line, Command.text, toString] at htravel
  cut := fun _ => rfl

theorem allowed_arc (clockwise : Bool) (target offset : Point α) (feed : α) :
    Allowed machine (.lowered machine) (Command.arc clockwise target offset feed).line where
  travel := fun htravel => by
    cases clockwise <;> simp [Command.line, Command.text, toString] at htravel
  cut := fun _ => rfl

/-- Commands that do not move the tool along the board. -/
def Command.Stays : Command α → Prop
  | rapid _ | home | cut .. | arc .. => False
  | _ => True

theorem Command.Stays.allowed {c : Command α} (h : c.Stays) : Allowed machine p c.line where
  travel := fun htravel => by
    cases c <;> first | exact h.elim | simp [line, text, toString] at htravel
  cut := by
    rintro (hcut | hcut | hcut) <;>
      cases c <;> first | exact h.elim | simp [line, text, toString] at hcut

/-- Commands that do not move the tool along the board may always be carried out. -/
theorem Leads.of_stays [PlainNumeral α] {commands : List (Command α)}
    (hstays : ∀ c ∈ commands, c.Stays) : Leads machine p commands (commands.foldl .after p) := by
  induction commands generalizing p with
  | nil => exact .nil
  | cons c rest ih =>
      obtain ⟨hc, hrest⟩ := List.forall_mem_cons.mp hstays
      exact .cons hc.allowed (ih hrest)

end BoardMill.GCode
