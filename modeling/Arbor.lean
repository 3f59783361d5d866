import Arbor.Benchmark.Measure
import Arbor.Benchmark.Plan
import Arbor.Benchmark.Report
import Arbor.Benchmark.Result
import Arbor.Binary
import Arbor.Build
import Arbor.Build.Dialogue
import Arbor.Build.Event
import Arbor.Cache.Directory
import Arbor.Cache.Key
import Arbor.Cache.Memory
import Arbor.Cache.Module
import Arbor.Command
import Arbor.Command.Arguments
import Arbor.Command.Bench
import Arbor.Command.Line
import Arbor.Command.Problem
import Arbor.Command.Run
import Arbor.Command.Terminal
import Arbor.Command.Workload
import Arbor.Compile
import Arbor.Config
import Arbor.Config.Load
import Arbor.Config.Toml
import Arbor.Config.Yaml
import Arbor.Console.Filter
import Arbor.Console.Line
import Arbor.Console.Paint
import Arbor.Console.Record
import Arbor.Decimal.Fixed
import Arbor.Decimal.Shortest
import Arbor.Duration
import Arbor.Error
import Arbor.Evaluator.Assemble
import Arbor.Evaluator.Backend
import Arbor.Evaluator.Code
import Arbor.Evaluator.Emit
import Arbor.Evaluator.Engine
import Arbor.Evaluator.Instruction
import Arbor.Evaluator.Offsets
import Arbor.Evaluator.Path
import Arbor.Evaluator.Strategy
import Arbor.Evaluator.Text
import Arbor.Evaluator.Variant
import Arbor.Fault
import Arbor.Files
import Arbor.Geometry
import Arbor.Host
import Arbor.Index
import Arbor.Json.Number
import Arbor.Json.Reader
import Arbor.Json.Text
import Arbor.Layout
import Arbor.Main
import Arbor.Node
import Arbor.Proofs.Ancestor
import Arbor.Proofs.Benchmark
import Arbor.Proofs.Build.Accepted
import Arbor.Proofs.Build.Compiled
import Arbor.Proofs.Build.Contract
import Arbor.Proofs.Build.Conversation
import Arbor.Proofs.Build.Exact
import Arbor.Proofs.Build.Faithful
import Arbor.Proofs.Build.History
import Arbor.Proofs.Build.Inventory
import Arbor.Proofs.Build.Repair
import Arbor.Proofs.Build.Shared
import Arbor.Proofs.Cache.Atomic
import Arbor.Proofs.Cache.Key
import Arbor.Proofs.Cache.Module
import Arbor.Proofs.Cache.Place
import Arbor.Proofs.Cache.Settled
import Arbor.Proofs.Cache.Sound
import Arbor.Proofs.Cache.Writers
import Arbor.Proofs.Chunking
import Arbor.Proofs.Command
import Arbor.Proofs.Compile
import Arbor.Proofs.Decimal.Midpoint
import Arbor.Proofs.Decimal.Reread
import Arbor.Proofs.Decimal.Shortest
import Arbor.Proofs.Dispatch
import Arbor.Proofs.Dyadic
import Arbor.Proofs.Evaluator.Assembly
import Arbor.Proofs.Evaluator.Backend
import Arbor.Proofs.Evaluator.Chain
import Arbor.Proofs.Evaluator.Coverage
import Arbor.Proofs.Evaluator.Emission
import Arbor.Proofs.Evaluator.Engine
import Arbor.Proofs.Evaluator.Enumeration
import Arbor.Proofs.Evaluator.Expansion
import Arbor.Proofs.Evaluator.Jump
import Arbor.Proofs.Evaluator.Partition
import Arbor.Proofs.Evaluator.Path
import Arbor.Proofs.Evaluator.Straight
import Arbor.Proofs.Evaluator.Tally
import Arbor.Proofs.Evaluator.Text
import Arbor.Proofs.Evaluator.Variant
import Arbor.Proofs.Files
import Arbor.Proofs.Float32
import Arbor.Proofs.Json.Literal
import Arbor.Proofs.Json.Number
import Arbor.Proofs.Json.Reader
import Arbor.Proofs.Json.Refusal
import Arbor.Proofs.Json.Text
import Arbor.Proofs.Layout
import Arbor.Proofs.Names
import Arbor.Proofs.Numbering
import Arbor.Proofs.Outcome
import Arbor.Proofs.Positions
import Arbor.Proofs.Random
import Arbor.Proofs.Rounding
import Arbor.Proofs.Slots
import Arbor.Proofs.Steering
import Arbor.Proofs.Tree.Bisection
import Arbor.Proofs.Tree.Document
import Arbor.Proofs.Tree.Equality
import Arbor.Proofs.Tree.Generate
import Arbor.Proofs.Tree.Leaf
import Arbor.Proofs.Walk
import Arbor.Random.Block
import Arbor.Random.Source
import Arbor.Resolver
import Arbor.Samples
import Arbor.Text.Escaped
import Arbor.Text.Quoted
import Arbor.Text.Space
import Arbor.Toml.Document
import Arbor.Toml.Number
import Arbor.Toml.Table
import Arbor.Toml.Text
import Arbor.Tree
import Arbor.Tree.Document
import Arbor.Tree.Generate
import Arbor.Walk
import Arbor.Word
import Arbor.Yaml.Cursor
import Arbor.Yaml.Document
import Arbor.Yaml.Property
import Arbor.Yaml.Scalar
import Arbor.Yaml.Token
