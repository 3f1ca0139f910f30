import BoardMill.Gerber.Reading
import BoardMill.Aperture.Outline
import BoardMill.Arc
import BoardMill.Text.Lines
import BoardMill.Layer.Identification
import BoardMill.Gerber.Extent
import BoardMill.GCode.Sink
import BoardMill.Machine.Settings
import BoardMill.Box.Json
import BoardMill.Drill.Extent
import BoardMill.Drill.Reading
import BoardMill.GCode.Drilling
import BoardMill.Board
import BoardMill.Archive
import BoardMill.Archive.Inflate
import BoardMill.Archive.Zip
import BoardMill.Board.Loading
import BoardMill.Files
import BoardMill.Files.Path
import BoardMill.Files.Tree
import BoardMill.Picture
import BoardMill.Picture.Png
import BoardMill.CommandLine.Invocation
import BoardMill.CommandLine.Reading
import BoardMill.CommandLine.Run
import BoardMill.CommandLine.Usage
import BoardMill.Main
import BoardMill.Gerber.InPlace
import BoardMill.GCode.InPlace
import BoardMill.Gerber.Sliced
import BoardMill.Drill.Sliced
import BoardMill.Layer.Sliced
import BoardMill.Proofs.Decimal.Marks
import BoardMill.Proofs.Text.Lines
import BoardMill.Proofs.Text.Utf8
import BoardMill.Proofs.GCode.Writing
import BoardMill.Proofs.GCode.Posture
import BoardMill.Proofs.GCode.Safety
import BoardMill.Proofs.Gerber.Ready
import BoardMill.Proofs.Gerber.Pass
import BoardMill.Proofs.CommandLine.Running
import BoardMill.Proofs.Gerber.Agreement
import BoardMill.Proofs.GCode.Path
import BoardMill.Proofs.Box.Contains
import BoardMill.Proofs.Gerber.Extent
import BoardMill.Proofs.Scalar.Exact
import BoardMill.Proofs.Gerber.Placement
import BoardMill.Proofs.Scalar.Double
import BoardMill.Proofs.Box.Cover
import BoardMill.Proofs.Gerber.Merge
import BoardMill.Proofs.Gerber.Tokens
import BoardMill.Proofs.Gerber.ReaderSteps
import BoardMill.Proofs.Gerber.Modal
import BoardMill.Proofs.Gerber.Cursor
import BoardMill.Proofs.Gerber.WellFormed
import BoardMill.Proofs.Splits
import BoardMill.Proofs.Drill.Tools
import BoardMill.Proofs.Drill.Passes
import BoardMill.Proofs.GCode.Lines
import BoardMill.Proofs.Drill.Machining
import BoardMill.Proofs.Drill.Stops
import BoardMill.Proofs.Drill.Directives
import BoardMill.Proofs.Drill.Positions
import BoardMill.Proofs.Drill.Placement
import BoardMill.Proofs.Board.Layers
import BoardMill.Proofs.Noting
import BoardMill.Proofs.Board.Generating
import BoardMill.Proofs.Board.Order
import BoardMill.Proofs.Layer.Kinds
import BoardMill.Proofs.Board.Suffixes
import BoardMill.Proofs.GCode.Room
import BoardMill.Proofs.Files.Watched
import BoardMill.Proofs.CommandLine.Outputs
import BoardMill.Proofs.Scalar.Angle
import BoardMill.Proofs.Box.Outward
import BoardMill.Proofs.Arc.Samples
import BoardMill.Proofs.Gerber.Paths
import BoardMill.Proofs.Gerber.Strokes
import BoardMill.Proofs.GCode.Approach
import BoardMill.Proofs.GCode.Endless
import BoardMill.Proofs.GCode.Reuse
import BoardMill.Proofs.Picture.Stamps
import BoardMill.Proofs.GCode.Instructions
import BoardMill.Proofs.Board.Bytes
import BoardMill.Proofs.Files.Seeing
import BoardMill.Proofs.Gerber.Commands
import BoardMill.Proofs.Gerber.Scanning
import BoardMill.Proofs.Gerber.Layouts
import BoardMill.Proofs.EndMarker
import BoardMill.Proofs.Gerber.ApertureTable
import BoardMill.Proofs.Readers
import BoardMill.Proofs.Scalar.Scaling
import BoardMill.Proofs.Conversion
import BoardMill.Proofs.GCode.Shift
import BoardMill.Proofs.Board.Sources
import BoardMill.Proofs.Board.Roles
import BoardMill.Proofs.Text.Search
import BoardMill.Proofs.Decimal.Reading
import BoardMill.Proofs.Layer.Names
import BoardMill.Proofs.Board.Endings
import BoardMill.Proofs.Decimal.Grammar
import BoardMill.Proofs.Gerber.Grammar
import BoardMill.Proofs.Arc.Passing
import BoardMill.Proofs.Scalar.Quarters
import BoardMill.Proofs.Arc.Frame
import BoardMill.Proofs.Scalar.Signed
import BoardMill.Proofs.Arc.Sweep
import BoardMill.Proofs.Decimal.Fixed
import BoardMill.Proofs.GCode.Arcs
import BoardMill.Proofs.Decimal.Plain
import BoardMill.Proofs.Gerber.FormatSpec
import BoardMill.Proofs.Gerber.ImageTransforms
import BoardMill.Proofs.Drill.Definitions
import BoardMill.Proofs.GCode.Refusals
import BoardMill.Proofs.Atomicity
import BoardMill.Proofs.Files.Recorded
import BoardMill.Proofs.Picture.Counts
import BoardMill.Proofs.Picture.Regions
import BoardMill.Proofs.Picture.Surfaces
import BoardMill.Proofs.Scalar.Circle
import BoardMill.Proofs.Scalar.Power
import BoardMill.Proofs.Aperture.Stadium
import BoardMill.Proofs.Aperture.Outline
import BoardMill.Proofs.Decimal.Zeros
import BoardMill.Proofs.Coordinate
import BoardMill.Proofs.Drill.Patterns
import BoardMill.Proofs.Drill.UnitLines
import BoardMill.Proofs.Drill.Coordinates
import BoardMill.Proofs.Gerber.LineNumbers
import BoardMill.Proofs.LineEndings
import BoardMill.Proofs.Scalar.Packed
import BoardMill.Proofs.Scalar.Rounding
import BoardMill.Proofs.Scalar.Nearest
import BoardMill.Proofs.Scalar.Scientific
import BoardMill.Proofs.Decimal.Nearest
import BoardMill.Proofs.Slices
