import Fish.Binary64.Bits
import Fish.Main
import Fish.Proofs.Action
import Fish.Proofs.Execution
import Fish.Proofs.Frame
import Fish.Proofs.FaultConditions
import Fish.Proofs.Calls
import Fish.Proofs.CheckedMoves
import Fish.Proofs.Soundness
import Fish.Proofs.Lifecycle
import Fish.Proofs.SubStacks
import Fish.Proofs.Budgets
import Fish.Proofs.LiteralRuns
import Fish.Proofs.InputStream
import Fish.Proofs.PositionalText
import Fish.Proofs.SpacedText
import Fish.Proofs.ReadBack
import Fish.Proofs.OutputTrace
import Fish.Proofs.ParsedPrograms
import Fish.Proofs.PokedValues
import Fish.Proofs.RestrictedOutput
import Fish.Proofs.Lockstep
import Fish.Proofs.ControlFlow
import Fish.Proofs.Tiling
import Fish.Proofs.RandomStream
import Fish.Proofs.DeepValues
import Fish.Proofs.SourceLines
import Fish.Proofs.GridCells
import Fish.Proofs.WrittenGrids
import Fish.Proofs.CellStream
import Fish.Proofs.StraightTravel
import Fish.Proofs.Mazes
import Fish.Proofs.Echo
import Fish.Proofs.StorageBound
import Fish.Proofs.CommandOutcomes
import Fish.Proofs.Remainder
import Fish.Proofs.IntegerRemainder
import Fish.Proofs.Truncation
import Fish.Proofs.UnderflowReports
import Fish.Proofs.Rearrangements
import Fish.Proofs.Cycles
import Fish.Proofs.PopSequences
import Fish.Proofs.NearestValue
import Fish.Proofs.NumeralGrammar
import Fish.Proofs.AcceptedNumerals
import Fish.Proofs.Settings
import Fish.Proofs.RenderedArguments
