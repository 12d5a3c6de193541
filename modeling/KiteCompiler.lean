import KiteCompiler.Ast.Walk
import KiteCompiler.Cst.Edit
import KiteCompiler.Java.Assembly
import KiteCompiler.Main
import KiteCompiler.Proofs.Emission
import KiteCompiler.Proofs.Immutability
import KiteCompiler.Proofs.ImportOrder
import KiteCompiler.Proofs.Lexing.Literals
import KiteCompiler.Proofs.Nesting.Productions
import KiteCompiler.Proofs.PoolIndices
import KiteCompiler.Proofs.Publishing
import KiteCompiler.Proofs.Rewinding
import KiteCompiler.Proofs.OutputPaths
import KiteCompiler.Proofs.Outcomes
import KiteCompiler.Proofs.PackageListing
import KiteCompiler.Proofs.SourceFiles
import KiteCompiler.Proofs.TabStops
import KiteCompiler.Proofs.Termination
import KiteCompiler.Proofs.TokenTable
import KiteCompiler.Proofs.TypeTexts
import KiteCompiler.Proofs.UnitColumns
import KiteCompiler.Proofs.Watching
import KiteCompiler.Proofs.Wrapping
