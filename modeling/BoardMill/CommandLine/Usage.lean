/-! # Usage

How the program is used, in the words that it prints when it is asked.
-/

namespace BoardMill

/-- What the program does. -/
def about : String := "Turn Gerber and drill files into G-code or PNG previews"

/-- The shape of a command line. -/
def usageLine : String := "Usage: pcb-cam [OPTIONS] <COMMAND>"

/-- The commands, and what they do. -/
def commandHelp : List (String × String) :=
  [("gcode", "Gerber layer to G-code"),
   ("drill", "Drill file to G-code"),
   ("render", "Gerber layer to a PNG preview"),
   ("board", "All copper, outline and drill layers of a board (BASE or BASE.zip)"),
   ("bounds", "Print the merged bounding box of Gerber and drill files as JSON"),
   ("help", "Print this message or the help of the given subcommand(s)")]

/-- The switches, and what they are for. -/
def switchHelp : List (String × String) :=
  [("    --config <CONFIG>", "JSON file with machine parameters"),
   ("-o, --output <OUTPUT>", "Output file (or directory for `board`)"),
   ("    --feedrate <FEEDRATE>", ""),
   ("    --plunge-feedrate <PLUNGE_FEEDRATE>", ""),
   ("    --tool-width <TOOL_WIDTH>", ""),
   ("    --power <POWER>", ""),
   ("    --safe-z <SAFE_Z>", ""),
   ("    --cut-z <CUT_Z>", ""),
   ("    --change-z <CHANGE_Z>", ""),
   ("    --drill-z <DRILL_Z>", ""),
   ("    --drill-feedrate <DRILL_FEEDRATE>", ""),
   ("    --spindle-speed <SPINDLE_SPEED>", ""),
   ("-h, --help", "Print help")]

/-- Two columns, the first one as wide as its widest entry. -/
def columns (rows : List (String × String)) : List String :=
  let width := rows.foldl (fun width row => max width row.1.length) 0
  let padding (text : String) : String :=
    String.ofList (List.replicate (width - text.length) ' ')
  rows.map fun row => "  " ++ row.1 ++ padding row.1 ++ "  " ++ row.2

/-- The whole text. -/
def usage : String :=
  "\n".intercalate <|
    [about, "", usageLine, "", "Commands:"] ++ columns commandHelp ++ ["", "Options:"] ++
      columns switchHelp

end BoardMill
