import BoardMill.Changing
import BoardMill.GCode.Sink

/-! # Writing in place

The lines of a block and of a drill step are written to one sink, line by line, and the
writing stops at the first line that does not fit. Only the writer of a motion keeps track
of whether the tool is in the board, and only between its lines.
-/

namespace BoardMill.GCode.Sink

variable {α : Type} [Numeral α]

/-- Writes the line of a command. The line is counted before it is written. -/
def put (c : Command α) : Changing (Sink α) Unit := do
  modify fun s => { s with lines := s.lines + 1 }
  let s ← get
  let (result, tape) := s.tape.write (lineBytes c)
  set { s with tape }
  Changing.check result

/-- Notes whether the tool is in the board. -/
def setEngaged (engaged : Bool) : Changing (Sink α) Unit := modify fun s => { s with engaged }

/-- Writes a command that is told by the machine and the placement. -/
def order (c : Machine α → (Point α → Point α) → Command α) : Changing (Sink α) Unit := do
  let s ← get
  put (c s.machine s.place)

/-- Climbs to the height of travel. -/
def climb : Changing (Sink α) Unit := order fun machine _ => .rapidZ machine.safeZ

/-- Puts the tool into the board, unless it is there. -/
def lower : Changing (Sink α) Unit := do
  if !(← get).engaged then
    order fun machine _ => .spindleOn machine.power
    order fun machine _ => .plunge machine.cutZ machine.plungeFeedRate
    setEngaged true

/-- Takes the tool out of the board, unless it is out. -/
def raise : Changing (Sink α) Unit := do
  if (← get).engaged then
    climb
    order fun _ _ => .spindleOff
    setEngaged false

/-- Travels to a point of the board. -/
def travelTo (target : Point α) : Changing (Sink α) Unit :=
  order fun _ place => .rapid (place target)

/-- Lowers the tool at a point of the board and takes it out again. -/
def stampAt (target : Point α) : Changing (Sink α) Unit := do
  raise
  climb
  travelTo target
  lower
  raise

/-- Cuts to a point of the board. -/
def cutTo (target : Point α) : Changing (Sink α) Unit := do
  lower
  order fun machine place => .cut (place target) machine.feedRate

/-- Cuts along an arc of the board. -/
def arcTo (clockwise : Bool) (start target center : Point α) : Changing (Sink α) Unit := do
  lower
  order fun machine place =>
    let offset := ⟨(place center).x - (place start).x, (place center).y - (place start).y⟩
    .arc clockwise (place target) offset machine.feedRate

end BoardMill.GCode.Sink

namespace BoardMill.Gerber.Block

open GCode (Sink)

variable {α : Type} [Numeral α]

/-- Writes what a block asks of the machine, given the state before the block. -/
def mill (b : Block α) (line : Nat) (s : State α) : Changing (Sink α) Unit := do
  match b with
  | .select number =>
    match s.apertures.get? number with
    | some a => Sink.put (.comment (.aperture number (s.toMm a.strokeWidth)))
    | none => pure ()
  | .flash target =>
    let _ ← Changing.check (s.require line)
    Sink.stampAt (s.pointToMm target)
  | .move target =>
    Sink.raise
    Sink.travelTo (s.pointToMm target)
  | .interpolate mode target center =>
    if !s.inRegion then
      let _ ← Changing.check (s.require line)
    match s.arc? mode target center, center with
    | some _, some c =>
      Sink.arcTo (mode == .clockwise) s.position (s.pointToMm target) (s.pointToMm c)
    | _, _ => Sink.cutTo (s.pointToMm target)
  | .regionStart => Sink.put (.comment .regionStart)
  | .regionEnd => Sink.put (.comment .regionEnd)
  | .polarity p => Sink.put (.comment (.polarity p))
  | .format _ | .units _ | .attribute .. => pure ()

end BoardMill.Gerber.Block

namespace BoardMill.Drill

open GCode (Sink)

/-- Where the steps of a drill program are carried out: the loaded tool, and the sink of
their lines. -/
structure Station (α : Type) where
  loaded : Option (Tool α)
  sink : Sink α

namespace Station

variable {α : Type} [Numeral α]

/-- Loads a tool, or none. -/
def load (tool : Option (Tool α)) : Changing (Station α) Unit :=
  modify fun s => { s with loaded := tool }

/-- Writes the line of a command. -/
def put (c : GCode.Command α) : Changing (Station α) Unit := do
  let station ← get
  let (result, sink) := (Sink.put c).outcome station.sink
  set { station with sink }
  Changing.check result

end Station

variable {α : Type} [Numeral α]

/-- Carries out a step. A change loads its tool before the first line is written. -/
def Program.work (p : Program α) (step : Step α) : Changing (Station α) Unit := do
  match step with
  | .change number =>
    let tool ← Changing.check (p.tool number)
    Station.load (some tool)
    forM (changeCommands (← get).sink.machine p.units number tool) Station.put
  | .drill hole =>
    if (← get).loaded.isNone then throw .stepBeforeTool
    let sink := (← get).sink
    forM (drillCommands sink.machine (sink.place (p.units.pointToMm hole))) Station.put
  | .unload =>
    Station.load none
    forM (unloadCommands (← get).sink.machine) Station.put

end BoardMill.Drill
