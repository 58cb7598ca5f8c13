import ClassForge.Build.ClassFile
import ClassForge.Build.Plan
import ClassForge.Bytes
import ClassForge.Compile
import ClassForge.Descriptor.Parse
import ClassForge.Descriptor.Render
import ClassForge.Error
import ClassForge.Event
import ClassForge.Instruction.Basic
import ClassForge.Instruction.Checked
import ClassForge.Instruction.ConstantForm
import ClassForge.Instruction.Effect
import ClassForge.Instruction.Encode
import ClassForge.Instruction.LabelTable
import ClassForge.Instruction.Opcode
import ClassForge.Listing.Decode
import ClassForge.Listing.Text
import ClassForge.Lowering.Expr
import ClassForge.Lowering.Gen
import ClassForge.Lowering.Locals
import ClassForge.Lowering.Method
import ClassForge.Method.Assemble
import ClassForge.Method.Code
import ClassForge.Model.Class
import ClassForge.Model.Expr
import ClassForge.Peephole.Pass
import ClassForge.Peephole.Rule
import ClassForge.Pool.Builder
import ClassForge.Pool.Entry
import ClassForge.Pool.Frozen
import ClassForge.Pool.Record
import ClassForge.Reader
import ClassForge.Record.Attribute
import ClassForge.Record.ClassFile
import ClassForge.Text.CodeRange
import ClassForge.Text.Decimal
import ClassForge.Text.Extending
import ClassForge.Text.ModifiedUtf8
import ClassForge.Text.Quoted
import ClassForge.Text.Unprinted
import ClassForge.Text.Utf8
import ClassForge.Ty.Basic
import ClassForge.Ty.Display
import ClassForge.Ty.Equality
import ClassForge.Ty.Erasure
import ClassForge.Proofs.Execution
import ClassForge.Proofs.Outcome
import ClassForge.Proofs.Bytes
import ClassForge.Proofs.Switch
import ClassForge.Proofs.Machine.Value
import ClassForge.Proofs.Machine.World
import ClassForge.Proofs.Machine.Step
import ClassForge.Proofs.Machine.Block
import ClassForge.Proofs.Peephole.Rewriting
import ClassForge.Proofs.Peephole.Windows
import ClassForge.Proofs.Peephole.Preservation
import ClassForge.Proofs.Peephole.Settling
import ClassForge.Proofs.Peephole.Transport
import ClassForge.Proofs.Source.Meaning
import ClassForge.Proofs.Source.Typing
import ClassForge.Proofs.Lowering.Generation
import ClassForge.Proofs.Lowering.Realization
import ClassForge.Proofs.Lowering.Combinators
import ClassForge.Proofs.Lowering.Slots
import ClassForge.Proofs.Lowering.Expression
import ClassForge.Proofs.Lowering.Labels
import ClassForge.Proofs.Lowering.Statement
import ClassForge.Proofs.Lowering.Preservation
import ClassForge.Proofs.Assembly.Layout
import ClassForge.Proofs.Assembly.Encoding
import ClassForge.Proofs.Assembly.Resolution
import ClassForge.Proofs.Linking.Errors
import ClassForge.Proofs.Linking.Code
import ClassForge.Proofs.Linking.Pool
import ClassForge.Proofs.Linking.Assembly
import ClassForge.Proofs.Assembly.Acceptance
import ClassForge.Proofs.Assembly.Dispatch
import ClassForge.Proofs.Linking.Generation
import ClassForge.Proofs.Linking.Lowering
import ClassForge.Proofs.Linking.Build
import ClassForge.Proofs.Reading.Reader
import ClassForge.Proofs.Reading.Record
import ClassForge.Proofs.Reading.Attribute
import ClassForge.Proofs.Reading.ClassFile
import ClassForge.Proofs.Text.ModifiedUtf8
import ClassForge.Proofs.Pool.Numbering
import ClassForge.Proofs.Pool.Capacity
import ClassForge.Proofs.Pool.Records
import ClassForge.Proofs.Assembly.Operands
import ClassForge.Proofs.Build.Contents
import ClassForge.Proofs.Build.Members
import ClassForge.Proofs.Build.Fidelity
import ClassForge.Proofs.Stack.Depth
import ClassForge.Proofs.Stack.Rewriting
import ClassForge.Proofs.Stack.Width
import ClassForge.Proofs.Stack.Generation
import ClassForge.Proofs.Stack.Lowering
import ClassForge.Proofs.Stack.Discipline
import ClassForge.Proofs.Pool.Resolution
import ClassForge.Proofs.Assembly.Traps
import ClassForge.Proofs.Build.Rereading
import ClassForge.Proofs.Listing.Decoding
import ClassForge.Proofs.Listing.Targets
import ClassForge.Proofs.Listing.Agreement
import ClassForge.Proofs.Linking.References
import ClassForge.Proofs.Listing.Circles
import ClassForge.Proofs.Stack.Reading
import ClassForge.Proofs.Assembly.Limits
import ClassForge.Proofs.Build.Limits
import ClassForge.Proofs.Build.Optimizing
import ClassForge.Proofs.Descriptor.Grammar
import ClassForge.Proofs.Descriptor.Names
import ClassForge.Proofs.Descriptor.RoundTrip
import ClassForge.Proofs.Lowering.Locals
import ClassForge.Proofs.Text.Stored
import ClassForge.Proofs.Reading.Bodies
import ClassForge.Proofs.Stack.Calls
import ClassForge.Proofs.Assembly.Forms
import ClassForge.Proofs.Descriptor.Slots
import ClassForge.Proofs.Stack.Opcodes
import ClassForge.Proofs.Descriptor.Generics
import ClassForge.Proofs.Peephole.Sizes
import ClassForge.Proofs.Lowering.Traversal
import ClassForge.Proofs.Lowering.Conditions
import ClassForge.Proofs.Listing.Operands
import ClassForge.Proofs.Listing.Sweep
import ClassForge.Proofs.Machine.Conversions
