import BoardMill.Drill.Extent
import BoardMill.GCode.Sink
import BoardMill.Proofs.Gerber.Placement
import BoardMill.Proofs.Gerber.Ready
import BoardMill.Proofs.Scalar.Scaling

/-! # Files in inches

A file in inches describes the same job as the one in millimetres whose lengths are greater by the
length of an inch. In exact arithmetic both are gone through in states that differ by that factor,
and all that leaves them is in millimetres: the box is the same, and so is every line of a program.
-/

namespace BoardMill

open GCode (Run Sink)

/-! ## Lengths under a factor -/

section Lengths

variable {α : Type} [Scalar α]

def Point.scaled (k : α) (p : Point α) : Point α := ⟨p.x * k, p.y * k⟩

/-- The shape with its lengths under a factor. The rotation of a polygon is no length. -/
def Shape.scaled (k : α) : Shape α → Shape α
  | circle diameter => circle (diameter * k)
  | rectangle xSize ySize => rectangle (xSize * k) (ySize * k)
  | obround xSize ySize => obround (xSize * k) (ySize * k)
  | polygon outerDiameter vertices rotation => polygon (outerDiameter * k) vertices rotation

def Hole.scaled (k : α) : Hole α → Hole α
  | circle diameter => circle (diameter * k)
  | rectangle xSize ySize => rectangle (xSize * k) (ySize * k)

def Aperture.scaled (k : α) (a : Aperture α) : Aperture α :=
  ⟨a.number, a.shape.scaled k, a.hole.map (·.scaled k)⟩

def ApertureTable.scaled (k : α) (t : ApertureTable α) : ApertureTable α :=
  ⟨t.entries.map (·.scaled k)⟩

theorem ApertureTable.get?_scaled (k : α) (t : ApertureTable α) (number : Nat) :
    (t.scaled k).get? number = (t.get? number).map (·.scaled k) :=
  List.find?_map

/-- The length of an inch in millimetres. -/
def inch : α := 25.4

end Lengths

/-! ## Exact lengths in millimetres -/

section Exact

variable {K : Type} [Field K] [LinearOrder K] [FloorRing K] [Analytic K]

namespace Units

theorem toMm_millimeters (length : Exact K) : millimeters.toMm length = length := by
  rw [toMm, scale, Exact.one_eq, Exact.mul_number_one]

theorem pointToMm_scaled (p : Point (Exact K)) :
    millimeters.pointToMm (p.scaled inch) = inches.pointToMm p := by
  rw [pointToMm, toMm_millimeters, toMm_millimeters]
  rfl

end Units

variable [IsStrictOrderedRing K]

theorem exists_inch : ∃ k > 0, (inch : Exact K) = .number k := ⟨25.4, by norm_num, rfl⟩

namespace Aperture

variable (a : Aperture (Exact K))

theorem half_scaled :
    (a.scaled inch).half = ⟨a.half.width * inch, a.half.height * inch⟩ := by
  obtain ⟨k, hk, hinch⟩ := exists_inch (K := K)
  have hsize : (a.scaled inch).size = ⟨a.size.width * inch, a.size.height * inch⟩ := by
    unfold size scaled
    cases a.shape <;> rfl
  rw [half, half, hsize, hinch, Exact.two_eq, Exact.div_mul_number hk two_pos,
    Exact.div_mul_number hk two_pos]

theorem strokeWidth_scaled : (a.scaled inch).strokeWidth = a.strokeWidth * inch := by
  obtain ⟨k, hk, hinch⟩ := exists_inch (K := K)
  have hmin (x y : Exact K) : Scalar.min (x * inch) (y * inch) = Scalar.min x y * inch := by
    rw [hinch, Exact.min_mul_number hk]
  unfold strokeWidth scaled
  cases a.shape with
  | rectangle xSize ySize => exact hmin xSize ySize
  | obround xSize ySize => exact hmin xSize ySize
  | _ => rfl

/-- The footprint under a factor is that of the aperture under the factor. -/
theorem footprint_scaled (p : Point (Exact K)) :
    (a.scaled inch).footprint (p.scaled inch) = (a.footprint p).map (· * inch) := by
  obtain ⟨k, hk, hinch⟩ := exists_inch (K := K)
  rw [footprint, footprint, half_scaled, hinch]
  simp only [Box.around, Box.map, Point.scaled, Exact.add_mul_number hk, Exact.sub_mul_number hk]

end Aperture

end Exact

/-! ## Documents -/

namespace Gerber

section Documents

variable {α : Type} [Scalar α]

namespace Block

/-- The block of a document in millimetres for a block of one in inches. -/
def inMillimeters : Block α → Block α
  | flash target => flash (target.scaled inch)
  | move target => move (target.scaled inch)
  | interpolate mode target center =>
    interpolate mode (target.scaled inch) (center.map (·.scaled inch))
  | units _ => units .millimeters
  | b => b

/-- A block that is about lengths: it selects an aperture or goes somewhere. -/
def measures {α : Type} : Block α → Bool
  | select _ | flash _ | move _ | interpolate .. => true
  | _ => false

end Block

def Located.inMillimeters (b : Located (Block α)) : Located (Block α) :=
  ⟨b.line, b.value.inMillimeters⟩

namespace Document

/-- The document in millimetres for a document in inches. -/
def inMillimeters (d : Document α) : Document α where
  blocks := d.blocks.map (·.inMillimeters)
  apertures := d.apertures.scaled inch

/-- A document sets its units once, to inches, before it selects an aperture or goes anywhere. -/
def IsInInches {α : Type} (d : Document α) : Prop :=
  ∃ before line after, d.blocks = before ++ ⟨line, .units .inches⟩ :: after ∧
    (∀ b ∈ before ++ after, b.value.units? = none) ∧ ∀ b ∈ before, b.value.measures = false

end Document

namespace State

/-- The state in millimetres for a state in inches. -/
def inMillimeters (s : State α) : State α :=
  { s with
    apertures := s.apertures.scaled inch
    cursor := s.cursor.scaled inch
    units := .millimeters }

theorem current?_inMillimeters (s : State α) :
    s.inMillimeters.current? = s.current?.map (·.scaled inch) := by
  unfold current? inMillimeters
  cases s.selected with
  | none => rfl
  | some number => exact s.apertures.get?_scaled inch number

theorem require_inMillimeters (s : State α) (line : Nat) :
    s.inMillimeters.require line = (s.require line).map (·.scaled inch) := by
  rw [require, require, current?_inMillimeters]
  cases s.current? <;> rfl

/-- A block is carried out in millimetres as it is in inches. -/
theorem apply_inMillimeters (s : State α) (b : Located (Block α)) :
    s.inMillimeters.apply b.inMillimeters = (s.apply b).map inMillimeters := by
  obtain ⟨line, b⟩ := b
  cases b with
  | select number =>
      dsimp only [apply, Located.inMillimeters, Block.inMillimeters, inMillimeters]
      rw [ApertureTable.get?_scaled]
      cases s.apertures.get? number <;> rfl
  | flash target =>
      dsimp only [apply, Located.inMillimeters, Block.inMillimeters]
      rw [require_inMillimeters]
      obtain ⟨apertures, cursor, selected, polarity, units, inRegion⟩ := s
      cases inRegion <;> cases require _ line <;> rfl
  | interpolate mode target center =>
      dsimp only [apply, Located.inMillimeters, Block.inMillimeters]
      rw [require_inMillimeters]
      obtain ⟨apertures, cursor, selected, polarity, units, inRegion⟩ := s
      cases inRegion <;> cases require _ line <;> rfl
  | regionStart =>
      obtain ⟨apertures, cursor, selected, polarity, units, inRegion⟩ := s
      cases inRegion <;> rfl
  | regionEnd =>
      obtain ⟨apertures, cursor, selected, polarity, units, inRegion⟩ := s
      cases inRegion <;> rfl
  | _ => rfl

end State

theorem Block.ready_inMillimeters (b : Block α) (line : Nat) (s : State α) :
    b.inMillimeters.ready line s.inMillimeters = b.ready line s := by
  have hrequire : (s.inMillimeters.require line).map (fun _ => ()) =
      (s.require line).map fun _ => () := by
    rw [State.require_inMillimeters]
    cases s.require line <;> rfl
  cases b with
  | flash target => exact hrequire
  | interpolate mode target center =>
      unfold ready
      dsimp only [inMillimeters]
      rw [hrequire]
      rfl
  | _ => rfl

end Documents

variable {K : Type} [Field K] [LinearOrder K] [FloorRing K] [Analytic K]

namespace State

variable {s : State (Exact K)} (hs : s.units = .inches)
include hs

theorem toMm_inMillimeters (length : Exact K) :
    s.inMillimeters.toMm (length * inch) = s.toMm length := by
  rw [toMm, toMm, hs]
  exact Units.toMm_millimeters _

theorem pointToMm_inMillimeters (p : Point (Exact K)) :
    s.inMillimeters.pointToMm (p.scaled inch) = s.pointToMm p := by
  rw [pointToMm, pointToMm, hs]
  exact Units.pointToMm_scaled p

theorem position_inMillimeters : s.inMillimeters.position = s.position :=
  pointToMm_inMillimeters hs s.cursor

theorem arc?_inMillimeters (mode : Interpolation) (target : Point (Exact K))
    (center : Option (Point (Exact K))) :
    s.inMillimeters.arc? mode (target.scaled inch) (center.map (·.scaled inch)) =
      s.arc? mode target center := by
  have hends := And.intro (position_inMillimeters hs) (pointToMm_inMillimeters hs target)
  cases mode <;> cases center <;>
    simp only [arc?, Option.map_some, Option.map_none, hends, pointToMm_inMillimeters hs]

theorem stroke_inMillimeters (mode : Interpolation) (target : Point (Exact K))
    (center : Option (Point (Exact K))) :
    s.inMillimeters.stroke mode (target.scaled inch) (center.map (·.scaled inch)) =
      s.stroke mode target center := by
  simp only [stroke, arc?_inMillimeters hs, position_inMillimeters hs, pointToMm_inMillimeters hs]
  cases s.arc? mode target center <;> cases center <;>
    simp only [Option.map_some, Option.map_none, pointToMm_inMillimeters hs]

variable [IsStrictOrderedRing K]

theorem currentReach_inMillimeters : s.inMillimeters.currentReach = s.currentReach := by
  obtain ⟨k, hk, hinch⟩ := exists_inch (K := K)
  have hhalf (width : Exact K) : width * inch / 2.0 = width / 2.0 * inch := by
    rw [hinch, Exact.two_eq, Exact.div_mul_number hk two_pos]
  have hregion : s.inMillimeters.inRegion = s.inRegion := rfl
  unfold currentReach
  rw [current?_inMillimeters, hregion]
  cases s.current? with
  | none => rfl
  | some a =>
      simp only [Option.map_some, Aperture.half_scaled, Aperture.strokeWidth_scaled, hhalf,
        toMm_inMillimeters hs]

end State

namespace Block

variable [IsStrictOrderedRing K] {s : State (Exact K)} {b : Block (Exact K)}

/-- In inches and in millimetres a block asks for the same motion. -/
theorem goal?_inMillimeters (hs : b.measures = true → s.units = .inches) :
    b.inMillimeters.goal? s.inMillimeters = b.goal? s := by
  cases b with
  | select number =>
      have hget : s.inMillimeters.apertures.get? number =
          (s.apertures.get? number).map (·.scaled inch) := ApertureTable.get?_scaled _ _ _
      simp only [goal?, inMillimeters, hget, Option.map_map, Function.comp_def,
        Aperture.strokeWidth_scaled, State.toMm_inMillimeters (hs rfl)]
  | flash target => simp only [goal?, inMillimeters, State.pointToMm_inMillimeters (hs rfl)]
  | move target => simp only [goal?, inMillimeters, State.pointToMm_inMillimeters (hs rfl)]
  | interpolate mode target center =>
      simp only [goal?, inMillimeters, State.stroke_inMillimeters (hs rfl)]
  | _ => rfl

/-- In inches and in millimetres a block needs the same boxes. -/
theorem boxes_inMillimeters (hs : b.measures = true → s.units = .inches) :
    b.inMillimeters.boxes s.inMillimeters = b.boxes s := by
  cases b with
  | flash target =>
      have hbox (a : Aperture (Exact K)) :
          ((a.scaled inch).footprint (target.scaled inch)).map s.inMillimeters.toMm =
            (a.footprint target).map s.toMm := by
        rw [Aperture.footprint_scaled]
        simp only [Box.map, State.toMm_inMillimeters (hs rfl)]
      simp only [boxes, inMillimeters, State.current?_inMillimeters, Option.map_map,
        Function.comp_def, hbox]
  | interpolate mode target center =>
      simp only [boxes, inMillimeters, State.currentReach_inMillimeters (hs rfl),
        State.arc?_inMillimeters (hs rfl), State.position_inMillimeters (hs rfl),
        State.pointToMm_inMillimeters (hs rfl)]
  | _ => rfl

end Block

/-! ## Runs through a document -/

/-- Blocks that are about lengths only as long as the units are inches. -/
def MeasuresInInches {α : Type} : Units → List (Located (Block α)) → Prop
  | _, [] => True
  | u, b :: rest =>
    (b.value.measures = true → u = .inches) ∧ MeasuresInInches (b.value.units?.getD u) rest

theorem MeasuresInInches.of_inches {α : Type} {blocks : List (Located (Block α))}
    (h : ∀ b ∈ blocks, b.value.units? = none) : MeasuresInInches .inches blocks := by
  induction blocks with
  | nil => trivial
  | cons b rest ih =>
      obtain ⟨hb, hrest⟩ := List.forall_mem_cons.mp h
      refine ⟨fun _ => rfl, ?_⟩
      rw [hb]
      exact ih hrest

/-- What stands in front and is not about lengths makes no difference. -/
theorem MeasuresInInches.append {α : Type} {before after : List (Located (Block α))} {u : Units}
    (hbefore : ∀ b ∈ before, b.value.units? = none ∧ b.value.measures = false)
    (hafter : MeasuresInInches u after) : MeasuresInInches u (before ++ after) := by
  induction before with
  | nil => exact hafter
  | cons b rest ih =>
      obtain ⟨⟨hunits, hquiet⟩, hrest⟩ := List.forall_mem_cons.mp hbefore
      refine ⟨fun hmeasures => ?_, ?_⟩
      · rw [hquiet] at hmeasures
        cases hmeasures
      · rw [hunits]
        exact ih hrest

/-- The units of the next state are those in force behind the block. -/
theorem MeasuresInInches.of_apply {α : Type} [Scalar α] {s next : State α} {b : Located (Block α)}
    {rest : List (Located (Block α))} (h : MeasuresInInches (b.value.units?.getD s.units) rest)
    (hnext : s.apply b = .ok next) : MeasuresInInches next.units rest := by
  rw [State.eq_after_of_apply hnext, State.after_units]
  exact h

namespace Document

theorem IsInInches.measures {α : Type} {d : Document α} (h : d.IsInInches) (u : Units) :
    MeasuresInInches u d.blocks := by
  obtain ⟨before, line, after, hblocks, hunits, hbefore⟩ := h
  obtain ⟨hfirst, hlater⟩ := List.forall_mem_append.mp hunits
  rw [hblocks]
  exact .append (fun b hb => ⟨hfirst b hb, hbefore b hb⟩) ⟨nofun, .of_inches hlater⟩

theorem lastLine_inMillimeters {α : Type} [Scalar α] (d : Document α) :
    d.inMillimeters.lastLine = d.lastLine := by
  unfold lastLine inMillimeters
  dsimp only
  rw [List.getLast?_map, Option.map_map]
  rfl

theorem start_inMillimeters (apertures : ApertureTable (Exact K)) :
    State.start (apertures.scaled inch) = (State.start apertures).inMillimeters := by
  have hzero : (0.0 : Exact K) = 0.0 * inch := by
    have hinch : (inch : Exact K) = .number 25.4 := rfl
    rw [hinch, Exact.zero_eq, Exact.number_mul, zero_mul]
  have horigin : (⟨0.0, 0.0⟩ : Point (Exact K)) = Point.scaled inch ⟨0.0, 0.0⟩ :=
    congrArg₂ Point.mk hzero hzero
  exact congrArg (State.mk _ · _ _ _ _) horigin

variable [IsStrictOrderedRing K] {s : State (Exact K)} {blocks : List (Located (Block (Exact K)))}

/-- Both documents grow a box alike, from related states on. -/
theorem growFrom_inMillimeters (h : MeasuresInInches s.units blocks) (lastLine : Nat)
    (box : Box (Exact K)) :
    growFrom lastLine s.inMillimeters box (blocks.map (·.inMillimeters)) =
      growFrom lastLine s box blocks := by
  induction blocks generalizing s box with
  | nil => rfl
  | cons b rest ih =>
      obtain ⟨hb, hrest⟩ := h
      have hgrow : b.inMillimeters.value.grow b.inMillimeters.line s.inMillimeters box =
          b.value.grow b.line s box := by
        change b.value.inMillimeters.grow b.line _ _ = _
        rw [Block.grow_eq, Block.grow_eq, Block.ready_inMillimeters, Block.boxes_inMillimeters hb]
      rw [List.map_cons, growFrom, growFrom, hgrow, State.apply_inMillimeters]
      cases b.value.grow b.line s box with
      | error fault => rfl
      | ok grown =>
          cases hnext : s.apply b with
          | error fault => rfl
          | ok next =>
              exact ih (hrest.of_apply hnext) grown

theorem runFrom_inMillimeters (h : MeasuresInInches s.units blocks) (machine : Machine (Exact K))
    (place : Point (Exact K) → Point (Exact K)) (lastLine : Nat) (engaged : Bool) :
    runFrom machine place lastLine engaged s.inMillimeters (blocks.map (·.inMillimeters)) =
      runFrom machine place lastLine engaged s blocks := by
  induction blocks generalizing s engaged with
  | nil => rfl
  | cons b rest ih =>
      obtain ⟨hb, hrest⟩ := h
      have hcommands : b.inMillimeters.value.commands machine place engaged b.inMillimeters.line
          s.inMillimeters = b.value.commands machine place engaged b.line s := by
        change b.value.inMillimeters.commands _ _ _ b.line _ = _
        rw [Block.commands_eq, Block.commands_eq, Block.ready_inMillimeters,
          Block.goal?_inMillimeters hb]
      rw [List.map_cons, runFrom, runFrom, hcommands, State.apply_inMillimeters]
      cases b.value.commands machine place engaged b.line s with
      | error fault => rfl
      | ok commands =>
          cases hnext : s.apply b with
          | error fault => rfl
          | ok next =>
              exact congrArg (Run.andThen _) (ih (hrest.of_apply hnext) _)

variable {d : Document (Exact K)} (h : d.IsInInches)
include h

theorem bounds_inMillimeters : d.inMillimeters.bounds = d.bounds := by
  rw [bounds, lastLine_inMillimeters]
  change growFrom _ (.start (d.apertures.scaled inch)) _ _ = _
  rw [start_inMillimeters]
  exact growFrom_inMillimeters (h.measures _) _ _

theorem body_inMillimeters (machine : Machine (Exact K)) (place : Point (Exact K) → Point (Exact K))
    (engaged : Bool) (title : String) :
    d.inMillimeters.body machine place engaged title = d.body machine place engaged title := by
  rw [body, lastLine_inMillimeters]
  change Run.andThen _ (runFrom _ _ _ _ (.start (d.apertures.scaled inch)) _) = _
  rw [start_inMillimeters]
  exact congrArg (Run.andThen _) (runFrom_inMillimeters (h.measures _) _ _ _ _)

end Document

end Gerber

/-! ## Drill programs -/

namespace Drill

section Programs

variable {α : Type} [Scalar α]

def Tool.scaled (k : α) (tool : Tool α) : Tool α := { tool with size := tool.size * k }

def Step.scaled (k : α) : Step α → Step α
  | drill hole => drill (hole.scaled k)
  | s => s

def ToolTable.scaled (k : α) (t : ToolTable α) : ToolTable α :=
  ⟨t.entries.map fun entry => (entry.1, entry.2.scaled k)⟩

theorem ToolTable.get?_scaled (k : α) (t : ToolTable α) (number : Nat) :
    (t.scaled k).get? number = (t.get? number).map (·.scaled k) := by
  unfold get? scaled
  induction t.entries with
  | nil => rfl
  | cons entry rest ih =>
      rw [List.map_cons, List.lookup_cons, List.lookup_cons, ih]
      cases number == entry.1 <;> rfl

/-- The drill program in millimetres for one in inches. -/
def Program.inMillimeters (p : Program α) : Program α :=
  ⟨.millimeters, p.tools.scaled inch, p.steps.map (·.scaled inch)⟩

theorem Program.tool_inMillimeters (p : Program α) (number : Nat) :
    p.inMillimeters.tool number = (p.tool number).map (·.scaled inch) := by
  unfold tool
  rw [inMillimeters, ToolTable.get?_scaled]
  cases p.tools.get? number <;> rfl

end Programs

namespace Program

variable {K : Type} [Field K] [LinearOrder K] [FloorRing K] [Analytic K]
  {p : Program (Exact K)} (hp : p.units = .inches)
include hp

theorem radius_inMillimeters (tool : Tool (Exact K)) :
    p.inMillimeters.radius (tool.scaled inch) = p.radius tool := by
  rw [radius, radius, hp]
  exact congrArg (· / 2.0) (Units.toMm_millimeters _)

theorem pointToMm_inMillimeters (hole : Point (Exact K)) :
    p.inMillimeters.units.pointToMm (hole.scaled inch) = p.units.pointToMm hole := by
  rw [hp]
  exact Units.pointToMm_scaled hole

theorem growFrom_inMillimeters (radius : Option (Exact K)) (box : Box (Exact K))
    (steps : List (Step (Exact K))) :
    p.inMillimeters.growFrom radius box (steps.map (·.scaled inch)) =
      p.growFrom radius box steps := by
  induction steps generalizing radius box with
  | nil => rfl
  | cons s rest ih =>
      cases s with
      | change number =>
          change (p.inMillimeters.tool number >>= fun tool =>
            p.inMillimeters.growFrom (some (p.inMillimeters.radius tool)) box _) =
              (p.tool number >>= fun tool => p.growFrom (some (p.radius tool)) box rest)
          rw [tool_inMillimeters]
          cases p.tool number with
          | error fault => rfl
          | ok tool =>
              have hradius := congrArg some (radius_inMillimeters hp tool)
              exact (congrArg (growFrom _ · _ _) hradius).trans (ih _ _)
      | drill hole =>
          cases radius with
          | none => rfl
          | some r =>
              have hbox := congrArg (Box.around · r r) (pointToMm_inMillimeters hp hole)
              exact (congrArg (fun b => growFrom _ _ (box.cover b) _) hbox).trans (ih _ _)
      | unload => exact ih none box

theorem step_inMillimeters (machine : Machine (Exact K)) (place : Point (Exact K) → Point (Exact K))
    (loaded : Option (Tool (Exact K))) (s : Step (Exact K)) :
    p.inMillimeters.step machine place (loaded.map (·.scaled inch)) (s.scaled inch) =
      (p.step machine place loaded s).map fun (loaded, commands) =>
        (loaded.map (·.scaled inch), commands) := by
  cases s with
  | change number =>
      change (p.inMillimeters.tool number >>= fun tool =>
        pure (some tool, changeCommands machine .millimeters number tool)) = Except.map _
          (p.tool number >>= fun tool =>
            pure (some tool, changeCommands machine p.units number tool))
      rw [tool_inMillimeters, hp]
      cases p.tool number with
      | error fault => rfl
      | ok tool =>
          have hsize : Units.millimeters.toMm (tool.scaled inch).size =
              Units.inches.toMm tool.size := Units.toMm_millimeters _
          change Except.ok (_, changeCommands _ _ _ _) = Except.ok (_, changeCommands _ _ _ _)
          rw [changeCommands, hsize]
          rfl
  | drill hole =>
      cases loaded with
      | none => rfl
      | some tool =>
          exact congrArg (fun q => Except.ok (_, drillCommands machine (place q)))
            (pointToMm_inMillimeters hp hole)
  | unload => rfl

theorem runFrom_inMillimeters (machine : Machine (Exact K))
    (place : Point (Exact K) → Point (Exact K)) (loaded : Option (Tool (Exact K)))
    (steps : List (Step (Exact K))) :
    p.inMillimeters.runFrom machine place (loaded.map (·.scaled inch)) (steps.map (·.scaled inch)) =
      p.runFrom machine place loaded steps := by
  induction steps generalizing loaded with
  | nil => rfl
  | cons s rest ih =>
      rw [List.map_cons, runFrom, runFrom, step_inMillimeters hp]
      cases p.step machine place loaded s with
      | error fault => rfl
      | ok next => exact congrArg (Run.andThen _) (ih next.1)

theorem bounds_inMillimeters : p.inMillimeters.bounds = p.bounds :=
  growFrom_inMillimeters hp none .empty p.steps

theorem body_inMillimeters (machine : Machine (Exact K)) (title : String)
    (place : Point (Exact K) → Point (Exact K)) :
    p.inMillimeters.body machine place title = p.body machine place title :=
  congrArg (Run.andThen _) (runFrom_inMillimeters hp machine place none p.steps)

end Program

end Drill

/-- In exact arithmetic, a document that sets its units once, to inches, before it is about
lengths has the same box or fault as the document in millimetres whose lengths are greater by the
length of an inch, and a sink takes the same lines from both. So it is with drill programs. -/
theorem inches_describe_same_job {K : Type} [Field K] [LinearOrder K] [IsStrictOrderedRing K]
    [FloorRing K] [Analytic K] :
    (∀ d : Gerber.Document (Exact K), d.IsInInches →
      d.inMillimeters.bounds = d.bounds ∧
        ∀ (sink : Sink (Exact K)) (title : String),
          sink.document d.inMillimeters title = sink.document d title) ∧
    ∀ p : Drill.Program (Exact K), p.units = .inches →
      p.inMillimeters.bounds = p.bounds ∧
        ∀ (sink : Sink (Exact K)) (title : String),
          sink.drilling p.inMillimeters title = sink.drilling p title := by
  refine ⟨fun d hd => ⟨Gerber.Document.bounds_inMillimeters hd, fun sink title => ?_⟩,
    fun p hp => ⟨Drill.Program.bounds_inMillimeters hp, fun sink title => ?_⟩⟩
  · rw [Sink.document, Gerber.Document.body_inMillimeters hd, Sink.document]
  · rw [Sink.drilling, Drill.Program.body_inMillimeters hp, Sink.drilling]

section Rational

local instance : Analytic ℚ := Gerber.coarse

/-- A rectangle that is stamped, and a hole, both in inches. The tool goes to their place in
millimetres. -/
theorem inches_describe_same_job_stamp :
    let a : Aperture (Exact ℚ) := ⟨10, .rectangle 0.5 1.0, some (.circle 0.25)⟩
    let d : Gerber.Document (Exact ℚ) := ⟨[⟨1, .regionStart⟩, ⟨2, .units .inches⟩,
      ⟨3, .regionEnd⟩, ⟨4, .select 10⟩, ⟨5, .flash ⟨1.0, 2.0⟩⟩], ⟨[a]⟩⟩
    let p : Drill.Program (Exact ℚ) :=
      ⟨.inches, ⟨[(1, ⟨'C', 0.5⟩)]⟩, [.change 1, .drill ⟨1.0, 2.0⟩]⟩
    let sink : Sink (Exact ℚ) := .start .default id none
    d.IsInInches ∧ d.inMillimeters.bounds = d.bounds ∧
      d.bounds.toOption.map Box.xMin = some (.number 19.05) ∧
      sink.document d.inMillimeters "job" = sink.document d "job" ∧
      ("G00 X127/5 Y254/5".toList, true) ∈ (sink.document d "job").2.tape.lines ∧
      p.units = .inches ∧ p.inMillimeters.bounds = p.bounds ∧
      p.bounds.toOption.map Box.xMin = some (.number 19.05) ∧
      sink.drilling p.inMillimeters "job" = sink.drilling p "job" ∧
      ("G00 X127/5 Y254/5".toList, true) ∈ (sink.drilling p "job").2.tape.lines := by
  intro a d p sink
  have hd : d.IsInInches := by
    refine ⟨[⟨1, .regionStart⟩], 2,
      [⟨3, .regionEnd⟩, ⟨4, .select 10⟩, ⟨5, .flash ⟨1.0, 2.0⟩⟩], rfl, ?_, ?_⟩
    · simp [Gerber.Block.units?]
    · simp [Gerber.Block.measures]
  obtain ⟨hdocument, hdrill⟩ := inches_describe_same_job (K := ℚ)
  obtain ⟨hbounds, hlines⟩ := hdocument d hd
  obtain ⟨hholes, hsteps⟩ := hdrill p rfl
  exact ⟨hd, hbounds, by decide +kernel, hlines sink "job", by decide +kernel, rfl, hholes,
    by decide +kernel, hsteps sink "job", by decide +kernel⟩

end Rational

end BoardMill
