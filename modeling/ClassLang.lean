import ClassLang.Assembly.Descriptor
import ClassLang.Assembly.Emitter
import ClassLang.Assembly.Frame
import ClassLang.Assembly.Instr
import ClassLang.Assembly.Unit
import ClassLang.Compiler
import ClassLang.Disk
import ClassLang.Error
import ClassLang.Hashing.Buckets
import ClassLang.Hashing.Word
import ClassLang.Log
import ClassLang.Lowering.Basic
import ClassLang.Lowering.Class
import ClassLang.Lowering.Expr
import ClassLang.Lowering.Routine
import ClassLang.Lowering.Stmt
import ClassLang.Number.Binary
import ClassLang.Number.Shortest
import ClassLang.Number.Text
import ClassLang.Options
import ClassLang.Proofs.AssignTargets
import ClassLang.Proofs.Checked
import ClassLang.Proofs.ControlFlow
import ClassLang.Proofs.FinalNames
import ClassLang.Proofs.FreshLabels
import ClassLang.Proofs.Generation
import ClassLang.Proofs.Invariants
import ClassLang.Proofs.Kinds
import ClassLang.Proofs.Lineage
import ClassLang.Proofs.Linking
import ClassLang.Proofs.LoopJumps
import ClassLang.Proofs.Registration
import ClassLang.Proofs.RoutineLabels
import ClassLang.Proofs.Runs
import ClassLang.Proofs.SelfName
import ClassLang.Proofs.StaticReceiver
import ClassLang.Proofs.SelfNameRoutines
import ClassLang.Registry.BucketScan
import ClassLang.Registry.Console
import ClassLang.Registry.CycleSearch
import ClassLang.Registry.Hierarchy
import ClassLang.Registry.OfProgram
import ClassLang.Registry.Overloads
import ClassLang.Registry.Record
import ClassLang.Registry.Table
import ClassLang.Source.Span
import ClassLang.Syntax.Decl
import ClassLang.Syntax.Expr
import ClassLang.Syntax.Operator
import ClassLang.Syntax.Stmt
import ClassLang.Text.EscapeSet
import ClassLang.Text.Quoted
import ClassLang.Types
import ClassLang.Typing.Compat
import ClassLang.Typing.Constant
import ClassLang.Typing.Context
import ClassLang.Typing.Expr
import ClassLang.Typing.Operators
import ClassLang.Typing.Program
import ClassLang.Typing.Scope
import ClassLang.Typing.Stmt
import ClassLang.Proofs.IntCode
import ClassLang.Proofs.Simulation
import ClassLang.Proofs.IntMethods
import ClassLang.Proofs.TableViews
import ClassLang.Proofs.CheckerTables
import ClassLang.Proofs.LoweringTables
import ClassLang.Proofs.Verdicts
import ClassLang.Proofs.Compatibility
import ClassLang.Proofs.CtorResolution
import ClassLang.Proofs.FinalInits
import ClassLang.Proofs.SlotlessCode
import ClassLang.Proofs.LocalSlots
import ClassLang.Proofs.OrderFree
import ClassLang.Proofs.AssemblyQuoting
import ClassLang.Proofs.StackAccounting
import ClassLang.Proofs.AttrStores
import ClassLang.Proofs.ObjectInit
import ClassLang.Proofs.ValueTypes
import ClassLang.Proofs.StackEffect
import ClassLang.Proofs.StmtEffect
import ClassLang.Proofs.Sameness
import ClassLang.Proofs.CheckerContexts
import ClassLang.Proofs.SentinelFree
