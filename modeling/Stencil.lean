import Stencil.Component
import Stencil.CompileError.Json
import Stencil.Main
import Stencil.Proofs.Compile.Meaning
import Stencil.Proofs.Compile.Structure
import Stencil.Proofs.Node.Depth
import Stencil.Proofs.Report
import Stencil.Proofs.RefTable
import Stencil.Proofs.Binding
import Stencil.Proofs.Chain.Concatenation
import Stencil.Proofs.Node.Relocation
import Stencil.Proofs.Compile.Relocation
import Stencil.Proofs.Token.Concatenation
import Stencil.Proofs.Node.Concatenation
import Stencil.Proofs.Compile.Concatenation
import Stencil.Proofs.Node.Stored
import Stencil.Proofs.Compile.Visible
import Stencil.Proofs.Compile.Strictness
import Stencil.Proofs.Chain.Omission
import Stencil.Proofs.Compiled.Without
import Stencil.Proofs.Text.Slices
import Stencil.Proofs.Token.Spelling
import Stencil.Proofs.Node.Lossless
import Stencil.Proofs.Component
import Stencil.Proofs.Chain.Decision
import Stencil.Proofs.Chain.Conservation
import Stencil.Proofs.Compiled.Passes
import Stencil.Proofs.Compiled.Questions
import Stencil.Proofs.Compiled.Reachable
import Stencil.Proofs.Token.Accounting
import Stencil.Proofs.Node.Blame
import Stencil.Proofs.Text.Trimming
import Stencil.Proofs.Node.Names
import Stencil.Proofs.Compile.Excerpts
import Stencil.Proofs.Classification.Table
import Stencil.Proofs.Compiled.Conditions
import Stencil.Proofs.CommandLine.Assumptions
import Stencil.Proofs.Text.Lines
import Stencil.Proofs.Compiled.Located
import Stencil.Proofs.Outline
import Stencil.Proofs.Node.Bodies
import Stencil.Proofs.Text.Characters
