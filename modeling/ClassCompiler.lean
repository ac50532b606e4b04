import ClassCompiler.Build.Error
import ClassCompiler.Build.Program
import ClassCompiler.Build.Sources
import ClassCompiler.ClassFile.Assemble
import ClassCompiler.ClassFile.Bytes
import ClassCompiler.ClassFile.Error
import ClassCompiler.ClassFile.Pool
import ClassCompiler.ClassFile.StackDepth
import ClassCompiler.ClassFile.Writer
import ClassCompiler.Codegen.Constructor
import ClassCompiler.Codegen.Context
import ClassCompiler.Codegen.Emitter
import ClassCompiler.Codegen.Expr
import ClassCompiler.Codegen.Rules
import ClassCompiler.Codegen.Scope
import ClassCompiler.Codegen.Stmt
import ClassCompiler.CommandLine
import ClassCompiler.Jvm.ClassRecord
import ClassCompiler.Jvm.Descriptor
import ClassCompiler.Jvm.Instruction
import ClassCompiler.Jvm.Opcode
import ClassCompiler.Jvm.Ty
import ClassCompiler.Main
import ClassCompiler.Number.BinaryFloat
import ClassCompiler.Number.FloatText
import ClassCompiler.Number.Shortest
import ClassCompiler.Program.Decl
import ClassCompiler.Program.Error
import ClassCompiler.Program.Index
import ClassCompiler.Program.Library
import ClassCompiler.Program.Resolve
import ClassCompiler.Program.Structure
import ClassCompiler.Program.TypeTable
import ClassCompiler.Proofs.AdapterNames
import ClassCompiler.Proofs.Build.Bodies
import ClassCompiler.Proofs.Build.Faults
import ClassCompiler.Proofs.Codegen.Arrays
import ClassCompiler.Proofs.Codegen.Confined
import ClassCompiler.Proofs.Codegen.Faults
import ClassCompiler.Proofs.Codegen.Flow
import ClassCompiler.Proofs.Codegen.Layout
import ClassCompiler.Proofs.Codegen.Monad
import ClassCompiler.Proofs.Codegen.Pieces
import ClassCompiler.Proofs.Codegen.Returns
import ClassCompiler.Proofs.Jvm.Descriptors
import ClassCompiler.Proofs.ClassFile.PoolIndexes
import ClassCompiler.Proofs.ClassFile.Decoding
import ClassCompiler.Proofs.ClassFile.Assembling
import ClassCompiler.Proofs.ClassFile.DepthAnalysis
import ClassCompiler.Proofs.Machine.Exec
import ClassCompiler.Proofs.Machine.Run
import ClassCompiler.Proofs.Machine.Step
import ClassCompiler.Proofs.Machine.Value
import ClassCompiler.Proofs.Parsing.Declarations
import ClassCompiler.Proofs.Parsing.Fuel
import ClassCompiler.Proofs.Parsing.Names
import ClassCompiler.Proofs.Parsing.Recovery
import ClassCompiler.Proofs.Parsing.Reports
import ClassCompiler.Proofs.Parsing.Scanning
import ClassCompiler.Proofs.Parsing.Spans
import ClassCompiler.Proofs.Parsing.Strings
import ClassCompiler.Proofs.Parsing.Steps
import ClassCompiler.Proofs.Primitive.Fragment
import ClassCompiler.Proofs.Primitive.Generation
import ClassCompiler.Proofs.Primitive.Operators
import ClassCompiler.Proofs.Primitive.Semantics
import ClassCompiler.Proofs.Primitive.Shape
import ClassCompiler.Proofs.Primitive.Simulation
import ClassCompiler.Proofs.Primitive.Statements
import ClassCompiler.Proofs.Structure.Declarations
import ClassCompiler.Proofs.Structure.Registry
import ClassCompiler.Proofs.Structure.Table
import ClassCompiler.Source.Alias
import ClassCompiler.Source.Lexer
import ClassCompiler.Source.Literal
import ClassCompiler.Source.ParseError
import ClassCompiler.Source.Parser
import ClassCompiler.Source.Syntax
import ClassCompiler.Source.Token
import ClassCompiler.Text.GraphemeExtend
import ClassCompiler.Text.Hex
import ClassCompiler.Text.ModifiedUtf8
import ClassCompiler.Text.Quoted
import ClassCompiler.Text.Span
import ClassCompiler.Text.Unprintable
import ClassCompiler.Proofs.Primitive.Calls
import ClassCompiler.Proofs.Primitive.Refinement
import ClassCompiler.Proofs.Primitive.Meaning
import ClassCompiler.Proofs.Parsing.Paths
import ClassCompiler.Proofs.Structure.Impls
import ClassCompiler.Proofs.Text.ModifiedUtf8
import ClassCompiler.Proofs.Parsing.IntegerLiterals
import ClassCompiler.Proofs.ClassFile.ConstantLoads
import ClassCompiler.Proofs.Build.ClassOrder
import ClassCompiler.Proofs.Build.TypeNames
import ClassCompiler.Proofs.Structure.Constructors
import ClassCompiler.Proofs.Machine.Construction
import ClassCompiler.Proofs.Codegen.LocalSlots
import ClassCompiler.Proofs.Structure.HashedTable
import ClassCompiler.Proofs.Parsing.Snippets
