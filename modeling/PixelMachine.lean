import PixelMachine.Main
import PixelMachine.Saved.Config
import PixelMachine.Proofs.Addressing
import PixelMachine.Proofs.Effects
import PixelMachine.Proofs.Steps
import PixelMachine.Proofs.Failures
import PixelMachine.Proofs.Loop
import PixelMachine.Proofs.StepOut
import PixelMachine.Proofs.Requests
import PixelMachine.Proofs.Reachable
import PixelMachine.Proofs.Types
import PixelMachine.Proofs.Following
import PixelMachine.Proofs.Pausing
import PixelMachine.Proofs.Isolation
import PixelMachine.Proofs.Locality
import PixelMachine.Proofs.Stopping
import PixelMachine.Proofs.Asking
import PixelMachine.Proofs.Heeding
import PixelMachine.Proofs.History
import PixelMachine.Proofs.Ledger
import PixelMachine.Proofs.ReturnAddresses
import PixelMachine.Proofs.Settling
import PixelMachine.Proofs.Breakpoints
import PixelMachine.Proofs.Notices
import PixelMachine.Proofs.Replay
import PixelMachine.Proofs.Keys
import PixelMachine.Proofs.Limits
import PixelMachine.Proofs.Guards
import PixelMachine.Proofs.GuardedQuery
import PixelMachine.Proofs.GuardedScreen
import PixelMachine.Proofs.GuardedStep
import PixelMachine.Proofs.Tables
import PixelMachine.Proofs.Numerals
import PixelMachine.Proofs.Cuts
import PixelMachine.Proofs.Literals
import PixelMachine.Proofs.ProgramText
import PixelMachine.Proofs.Saving
import PixelMachine.Proofs.Surfaces
import PixelMachine.Proofs.Cells
import PixelMachine.Proofs.Twins
import PixelMachine.Proofs.Watching
import PixelMachine.Proofs.Recall
import PixelMachine.Proofs.Bulk
import PixelMachine.Proofs.Reversal
import PixelMachine.Proofs.Tiling
import PixelMachine.Proofs.QueryGrammar
import PixelMachine.Proofs.QueryAnswers
import PixelMachine.Proofs.FloatLiterals
import PixelMachine.Proofs.OperandForms
import PixelMachine.Proofs.OperandGrammar
import PixelMachine.Proofs.DeclaredFunctions
import PixelMachine.Proofs.Filling
import PixelMachine.Proofs.Images
import PixelMachine.Proofs.ColourLiterals
import PixelMachine.Proofs.RandomDraws
import PixelMachine.Proofs.Ranges
