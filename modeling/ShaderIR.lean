import ShaderIR.Backend
import ShaderIR.Binary.Decode
import ShaderIR.Binary.Disassembly
import ShaderIR.Binary.Enumerant
import ShaderIR.Binary.Grammar
import ShaderIR.Binary.Loader
import ShaderIR.Binary.Module
import ShaderIR.Binary.Name
import ShaderIR.Binary.Opcode
import ShaderIR.Binary.OtherName
import ShaderIR.Binary.Reader
import ShaderIR.Binary.Stream
import ShaderIR.CommandLine
import ShaderIR.Decimal.Shortest
import ShaderIR.Declaration
import ShaderIR.Dump
import ShaderIR.Error
import ShaderIR.Heap
import ShaderIR.Instruction
import ShaderIR.Journal
import ShaderIR.Json.Number
import ShaderIR.Json.Parser
import ShaderIR.Json.Value
import ShaderIR.Lowering.Body
import ShaderIR.Lowering.Error
import ShaderIR.Lowering.Function
import ShaderIR.Lowering.Module
import ShaderIR.Lowering.Objects
import ShaderIR.Lowering.Session
import ShaderIR.Lowering.Types
import ShaderIR.Lowering.Workers
import ShaderIR.Main
import ShaderIR.Manifest.Entry
import ShaderIR.Manifest.Load
import ShaderIR.OnceMap
import ShaderIR.Program
import ShaderIR.Proofs.BlockStructure
import ShaderIR.Proofs.BodySimulation
import ShaderIR.Proofs.ByValueLayout
import ShaderIR.Proofs.ByteOrder
import ShaderIR.Proofs.CallGraph
import ShaderIR.Proofs.CallStack
import ShaderIR.Proofs.CallTargets
import ShaderIR.Proofs.DeclarationOrder
import ShaderIR.Proofs.DeclarationParts
import ShaderIR.Proofs.Declaring
import ShaderIR.Proofs.DeferredConstraints
import ShaderIR.Proofs.DefinitionOrder
import ShaderIR.Proofs.DirectLowering
import ShaderIR.Proofs.DraftInstances
import ShaderIR.Proofs.EmittedFunctions
import ShaderIR.Proofs.EntryPointNames
import ShaderIR.Proofs.EntryPointRules
import ShaderIR.Proofs.FunctionEntry
import ShaderIR.Proofs.FunctionLowering
import ShaderIR.Proofs.GenericScope
import ShaderIR.Proofs.IdentityPass
import ShaderIR.Proofs.Ids
import ShaderIR.Proofs.InstanceIdentity
import ShaderIR.Proofs.InstanceTable
import ShaderIR.Proofs.InstructionCoding
import ShaderIR.Proofs.InstructionLowering
import ShaderIR.Proofs.KernelEntries
import ShaderIR.Proofs.LayoutTermination
import ShaderIR.Proofs.LayoutVerdict
import ShaderIR.Proofs.LoadedPrograms
import ShaderIR.Proofs.LoweredTypes
import ShaderIR.Proofs.LoweringRequests
import ShaderIR.Proofs.LoweringSteps
import ShaderIR.Proofs.ManifestScope
import ShaderIR.Proofs.MeaningPreserved
import ShaderIR.Proofs.MethodIdentity
import ShaderIR.Proofs.MethodLowering
import ShaderIR.Proofs.MethodObjects
import ShaderIR.Proofs.MirroredBodies
import ShaderIR.Proofs.MirroredFunctions
import ShaderIR.Proofs.MirroredTypes
import ShaderIR.Proofs.Mirroring
import ShaderIR.Proofs.ModuleIds
import ShaderIR.Proofs.ModuleReading
import ShaderIR.Proofs.NestedConstruction
import ShaderIR.Proofs.ObjectPass
import ShaderIR.Proofs.ObjectRoutes
import ShaderIR.Proofs.ObjectTables
import ShaderIR.Proofs.OnceMap
import ShaderIR.Proofs.OpenCells
import ShaderIR.Proofs.OrderIndependence
import ShaderIR.Proofs.Outcome
import ShaderIR.Proofs.OwnerConstraints
import ShaderIR.Proofs.ReadBack
import ShaderIR.Proofs.ReadableCode
import ShaderIR.Proofs.Rearrangement
import ShaderIR.Proofs.RecursionVerdict
import ShaderIR.Proofs.Reentry
import ShaderIR.Proofs.Reindexing
import ShaderIR.Proofs.Renaming
import ShaderIR.Proofs.Replacement
import ShaderIR.Proofs.Requests
import ShaderIR.Proofs.Resolution
import ShaderIR.Proofs.ResumedLowering
import ShaderIR.Proofs.Semantics
import ShaderIR.Proofs.SessionInvariant
import ShaderIR.Proofs.ShadowedSubstitution
import ShaderIR.Proofs.SharedEntry
import ShaderIR.Proofs.SharedPass
import ShaderIR.Proofs.SiblingInstances
import ShaderIR.Proofs.Simulation
import ShaderIR.Proofs.StagedConstruction
import ShaderIR.Proofs.StepSimulation
import ShaderIR.Proofs.StreamAssembly
import ShaderIR.Proofs.Substitution
import ShaderIR.Proofs.SubstitutionAlgebra
import ShaderIR.Proofs.TeamLoop
import ShaderIR.Proofs.Translation
import ShaderIR.Proofs.TypeExpressions
import ShaderIR.Proofs.TypeGrammar
import ShaderIR.Proofs.TypeLookup
import ShaderIR.Proofs.TypeLowering
import ShaderIR.Proofs.TypeSection
import ShaderIR.Proofs.TypeText
import ShaderIR.Proofs.ValidationPhases
import ShaderIR.Proofs.VoidValues
import ShaderIR.Proofs.WellTyped
import ShaderIR.Proofs.WorkerLoop
import ShaderIR.Proofs.WrittenModule
import ShaderIR.Text.Blank
import ShaderIR.Text.Quoted
import ShaderIR.Text.Shown
import ShaderIR.Text.Utf8
import ShaderIR.Ty.Basic
import ShaderIR.Ty.Expression
import ShaderIR.Ty.Substitution
import ShaderIR.Validation
import ShaderIR.Validation.Calls
import ShaderIR.Validation.Layout
import ShaderIR.Validation.Walk
