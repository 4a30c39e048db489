import LispFront.Ast.Equality
import LispFront.Main
import LispFront.Object.Stock
import LispFront.Proofs.Ast.Coloring
import LispFront.Proofs.Ast.KeywordOrder
import LispFront.Proofs.Ast.Outline
import LispFront.Proofs.Ast.ReadBack
import LispFront.Proofs.CommandLine.Accounting
import LispFront.Proofs.CommandLine.Forms
import LispFront.Proofs.Normalize.Dissecting
import LispFront.Proofs.Normalize.Effects
import LispFront.Proofs.Normalize.ExplicitCalls
import LispFront.Proofs.Normalize.Hygiene
import LispFront.Proofs.Normalize.ParameterLists
import LispFront.Proofs.Normalize.Reordering
import LispFront.Proofs.Object.ArgumentCounts
import LispFront.Proofs.Object.CallingConvention
import LispFront.Proofs.Object.NewEdge
import LispFront.Proofs.Object.PrintedObjects
import LispFront.Proofs.Object.ReceiverLookup
import LispFront.Proofs.Object.Worklist
import LispFront.Proofs.Source.Assembling
import LispFront.Proofs.Source.Joining
import LispFront.Proofs.Source.Quoting
