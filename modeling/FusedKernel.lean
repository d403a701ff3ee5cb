import FusedKernel.Access.SymbolTable
import FusedKernel.Expression
import FusedKernel.Graph.Event
import FusedKernel.Graph.Search
import FusedKernel.Graph.Transposition
import FusedKernel.Kernel.Source
import FusedKernel.Kernel.Step
import FusedKernel.Leaf.Query
import FusedKernel.Operation.Token
import FusedKernel.Proofs.Expression.Appending
import FusedKernel.Proofs.Expression.CommentOpeners
import FusedKernel.Proofs.Expression.Parentheses
import FusedKernel.Proofs.Expression.Renaming
import FusedKernel.Proofs.Expression.Sides
import FusedKernel.Proofs.Expression.Tabulation
import FusedKernel.Proofs.Expression.Template
import FusedKernel.Proofs.Expression.UniqueReading
import FusedKernel.Proofs.Expression.Writable
import FusedKernel.Proofs.Graph.BottomUp
import FusedKernel.Proofs.Graph.CheckAgreement
import FusedKernel.Proofs.Graph.FusedWalk
import FusedKernel.Proofs.Graph.Replay
import FusedKernel.Proofs.Graph.ReportedCycle
import FusedKernel.Proofs.Graph.SearchRun
import FusedKernel.Proofs.Graph.TranspositionChains
import FusedKernel.Proofs.Kernel.Depth
import FusedKernel.Proofs.Kernel.Filling
import FusedKernel.Proofs.Kernel.Layout
import FusedKernel.Proofs.Kernel.Settling
import FusedKernel.Proofs.Storage.Contents
import FusedKernel.Proofs.Storage.Transpose
import FusedKernel.Proofs.Access.Addresses
import FusedKernel.Proofs.Leaf.Binding
import FusedKernel.Proofs.Leaf.Dispatch
import FusedKernel.Proofs.Access.Precedence
