import CircuitWidths.Bindings
import CircuitWidths.Check.Body
import CircuitWidths.Check.Infer
import CircuitWidths.Check.Program
import CircuitWidths.Check.Rejection
import CircuitWidths.Check.Rule
import CircuitWidths.Check.State
import CircuitWidths.Circuit.Expr
import CircuitWidths.Circuit.Node
import CircuitWidths.Constraint.Pending
import CircuitWidths.Constraint.Solve
import CircuitWidths.Diagnostic.Basic
import CircuitWidths.Diagnostic.Excerpt
import CircuitWidths.Diagnostic.Group
import CircuitWidths.Diagnostic.Outline
import CircuitWidths.Proofs.Bindings
import CircuitWidths.Proofs.Check.Bodies
import CircuitWidths.Proofs.Check.Branches
import CircuitWidths.Proofs.Check.Calls
import CircuitWidths.Proofs.Check.Completeness
import CircuitWidths.Proofs.Check.Counter
import CircuitWidths.Proofs.Check.Discipline
import CircuitWidths.Proofs.Check.Erasure
import CircuitWidths.Proofs.Check.Expressions
import CircuitWidths.Proofs.Check.Finality
import CircuitWidths.Proofs.Check.Freshness
import CircuitWidths.Proofs.Check.Independence
import CircuitWidths.Proofs.Check.Instances
import CircuitWidths.Proofs.Check.Kinds
import CircuitWidths.Proofs.Check.Mirror
import CircuitWidths.Proofs.Check.MirroredBodies
import CircuitWidths.Proofs.Check.MirroredNodes
import CircuitWidths.Proofs.Check.Mismatches
import CircuitWidths.Proofs.Check.Moments
import CircuitWidths.Proofs.Check.Narrowing
import CircuitWidths.Proofs.Check.Numbering
import CircuitWidths.Proofs.Check.Operators
import CircuitWidths.Proofs.Check.OwnWidths
import CircuitWidths.Proofs.Check.Ports
import CircuitWidths.Proofs.Check.Programs
import CircuitWidths.Proofs.Check.Regimes
import CircuitWidths.Proofs.Check.Registrations
import CircuitWidths.Proofs.Check.Renaming
import CircuitWidths.Proofs.Check.Reordering
import CircuitWidths.Proofs.Check.Reporting
import CircuitWidths.Proofs.Check.Resolved
import CircuitWidths.Proofs.Check.Rules
import CircuitWidths.Proofs.Check.ShapedBodies
import CircuitWidths.Proofs.Check.Shapes
import CircuitWidths.Proofs.Check.Sharing
import CircuitWidths.Proofs.Check.Soundness
import CircuitWidths.Proofs.Check.Standards
import CircuitWidths.Proofs.Check.Steps
import CircuitWidths.Proofs.Check.Success
import CircuitWidths.Proofs.Check.Tasks
import CircuitWidths.Proofs.Check.Timeline
import CircuitWidths.Proofs.Check.TrivialEquations
import CircuitWidths.Proofs.Check.TypedLikeness
import CircuitWidths.Proofs.Check.TypedTys
import CircuitWidths.Proofs.Check.Written
import CircuitWidths.Proofs.Courses
import CircuitWidths.Proofs.Diagnostic.Grouping
import CircuitWidths.Proofs.Diagnostic.Partition
import CircuitWidths.Proofs.Diagnostic.Windows
import CircuitWidths.Proofs.InStep
import CircuitWidths.Proofs.Instantiation
import CircuitWidths.Proofs.Outcome
import CircuitWidths.Proofs.Related
import CircuitWidths.Proofs.Rendering
import CircuitWidths.Proofs.Source.Lines
import CircuitWidths.Proofs.Source.Positions
import CircuitWidths.Proofs.Static.Folding
import CircuitWidths.Proofs.Static.Kinds
import CircuitWidths.Proofs.Static.Meaning
import CircuitWidths.Proofs.Static.Powers
import CircuitWidths.Proofs.Static.Renaming
import CircuitWidths.Proofs.Static.SolvedForm
import CircuitWidths.Proofs.Static.Solving
import CircuitWidths.Proofs.Supply
import CircuitWidths.Proofs.Text.Bytes
import CircuitWidths.Proofs.Text.Reading
import CircuitWidths.Proofs.Ty.Acyclic
import CircuitWidths.Proofs.Ty.Comparisons
import CircuitWidths.Proofs.Ty.Determined
import CircuitWidths.Proofs.Ty.Forms
import CircuitWidths.Proofs.Ty.Ground
import CircuitWidths.Proofs.Ty.Later
import CircuitWidths.Proofs.Ty.Legibility
import CircuitWidths.Proofs.Ty.LikeUnification
import CircuitWidths.Proofs.Ty.Likeness
import CircuitWidths.Proofs.Ty.Links
import CircuitWidths.Proofs.Ty.Permanence
import CircuitWidths.Proofs.Ty.Principal
import CircuitWidths.Proofs.Ty.Repetition
import CircuitWidths.Proofs.Ty.Resolve
import CircuitWidths.Proofs.Ty.Shape
import CircuitWidths.Proofs.Ty.Symmetry
import CircuitWidths.Proofs.Ty.Termination
import CircuitWidths.Proofs.Ty.Unifying
import CircuitWidths.Renderer
import CircuitWidths.Renderer.Columns
import CircuitWidths.Renderer.Drawing
import CircuitWidths.Renderer.Entry
import CircuitWidths.Renderer.Placement
import CircuitWidths.Renderer.Row
import CircuitWidths.Renderer.Section
import CircuitWidths.Renderer.Stroke
import CircuitWidths.Renderer.Styled
import CircuitWidths.Renderer.View
import CircuitWidths.Renderer.Width
import CircuitWidths.Signature
import CircuitWidths.Slots
import CircuitWidths.Source.Files
import CircuitWidths.Source.Lines
import CircuitWidths.Source.Span
import CircuitWidths.Static.Expr
import CircuitWidths.Static.Fold
import CircuitWidths.Static.Render
import CircuitWidths.Text.Bytes
import CircuitWidths.Text.Separated
import CircuitWidths.Ty.Basic
import CircuitWidths.Ty.Store
import CircuitWidths.Ty.Unify
import CircuitWidths.Typed.Node
