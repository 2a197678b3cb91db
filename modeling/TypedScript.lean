import TypedScript.Source.Reader
import TypedScript.Toolchain
import TypedScript.Proofs.Tree.Nodes
import TypedScript.Proofs.Tree.Reading
import TypedScript.Proofs.Typing.Arena
import TypedScript.Proofs.Typing.Arena.Moves
import TypedScript.Proofs.Bound.Compile
import TypedScript.Proofs.Bound.Check
import TypedScript.Proofs.Typing.Accepts
import TypedScript.Proofs.Typing.Steps
import TypedScript.Proofs.Typing.Sound
import TypedScript.Proofs.Typing.Derivation
import TypedScript.Proofs.Bound.Agreement
import TypedScript.Proofs.Typing.Module
import TypedScript.Proofs.Bound.Program
import TypedScript.Proofs.Bound.Template
import TypedScript.Proofs.NameResolution
import TypedScript.Proofs.Linking.Build
import TypedScript.Proofs.Linking.Link
import TypedScript.Proofs.Linking.Edges
import TypedScript.Proofs.Linking.Marks
import TypedScript.Proofs.Tree.Grammar.Complete
import TypedScript.Proofs.Compilation
import TypedScript.Proofs.Direct.Evaluate
import TypedScript.Proofs.Direct.Lower
import TypedScript.Proofs.Direct.Simulation
import TypedScript.Proofs.Machine.Functions
import TypedScript.Proofs.Machine.Ends
import TypedScript.Proofs.Direct.Modules
import TypedScript.Proofs.Direct.Hosts
import TypedScript.Proofs.CompilerCorrectness
import TypedScript.Proofs.Bound.Typing
import TypedScript.Proofs.Bound.Exports
import TypedScript.Proofs.Typing.Fits
import TypedScript.Proofs.Bound.Seen
import TypedScript.Proofs.Bound.Typed
import TypedScript.Proofs.Direct.HasType
import TypedScript.Proofs.Direct.Invariant
import TypedScript.Proofs.Direct.Sound
import TypedScript.Proofs.Direct.TypedModules
import TypedScript.Proofs.TypeSoundness
import TypedScript.Proofs.Bound.Covered
import TypedScript.Proofs.Machine.Moments
import TypedScript.Proofs.Machine.Steps
import TypedScript.Proofs.Machine.Running
import TypedScript.Proofs.Bound.Heights
import TypedScript.Proofs.StackDiscipline
import TypedScript.Proofs.Termination
import TypedScript.Proofs.Bound.Standing
import TypedScript.Proofs.Bound.Scoped
import TypedScript.Proofs.Machine.Around
import TypedScript.Proofs.Machine.Chains
import TypedScript.Proofs.Machine.Mirrored
import TypedScript.Proofs.Environments
import TypedScript.Proofs.Returns
import TypedScript.Proofs.DefiniteAssignment
import TypedScript.Proofs.Typing.Display
import TypedScript.Proofs.Typing.Isolation
import TypedScript.Proofs.Typing.Arena.Histories
import TypedScript.Proofs.Linking.Shape
import TypedScript.Proofs.ErrorTypes
import TypedScript.Proofs.Typing.Exported
import TypedScript.Proofs.Bound.Imports
import TypedScript.Proofs.Machine.Activations
import TypedScript.Proofs.Machine.Bodies
import TypedScript.Proofs.Machine.Turns
import TypedScript.Proofs.Exports
import TypedScript.Proofs.Typing.Consistency
import TypedScript.Proofs.Machine.Operators
import TypedScript.Proofs.Linking.Walk
import TypedScript.Proofs.Linking.FailFast
import TypedScript.Proofs.Machine.Steady
import TypedScript.Proofs.Machine.Renaming
import TypedScript.Proofs.Machine.Alike
import TypedScript.Proofs.Machine.Made
import TypedScript.Proofs.Reuse
import TypedScript.Proofs.Linking.Folding
import TypedScript.Proofs.Machine.Forest
import TypedScript.Proofs.Tree.Spans
import TypedScript.Proofs.SyntaxErrors
import TypedScript.Proofs.Machine.Integers
import TypedScript.Proofs.Machine.Sequences
import TypedScript.Proofs.Tree.Progress
import TypedScript.Proofs.Tree.Literals
import TypedScript.Proofs.Tree.Words
import TypedScript.Proofs.Bound.Opened
import TypedScript.Proofs.Bound.Templates
import TypedScript.Proofs.FunctionLiterals
