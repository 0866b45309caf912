import QirGen.Binary64.Basic
import QirGen.Binary64.Round
import QirGen.Circuit.Basic
import QirGen.Circuit.Build
import QirGen.Circuit.Calls
import QirGen.Circuit.Error
import QirGen.Circuit.Json
import QirGen.Circuit.Source
import QirGen.Config.Basic
import QirGen.Config.File
import QirGen.Config.Yaml
import QirGen.Decimal.Basic
import QirGen.Decimal.Shortest
import QirGen.Decimal.Significant
import QirGen.Decimal.Text
import QirGen.Fault
import QirGen.Ir.AttributeScan
import QirGen.Ir.Basic
import QirGen.Ir.Bitcode
import QirGen.Ir.Builder
import QirGen.Ir.Render
import QirGen.Json.Cursor
import QirGen.Json.Decode
import QirGen.Json.Number
import QirGen.Json.Read
import QirGen.Json.Serde
import QirGen.Json.Value
import QirGen.Lower.Error
import QirGen.Lower.Handles
import QirGen.Lower.Options
import QirGen.Lower.Translate
import QirGen.Target.Gate
import QirGen.Target.Profile
import QirGen.Target.Runtime
import QirGen.Text.Blank
import QirGen.Text.Printable
import QirGen.Text.Quoted
import QirGen.Yaml.Decode
import QirGen.Yaml.Document
import QirGen.Yaml.Event
import QirGen.Yaml.Scalar
import QirGen.Yaml.Token
import QirGen.Yaml.Token.Scalar
import QirGen.Yaml.Token.Scan
import QirGen.Proofs.Ir.Lines
import QirGen.Proofs.Circuit.Condition
import QirGen.Proofs.Lower.Emission
import QirGen.Proofs.Lower.Base
import QirGen.Proofs.Lower.Adaptive
import QirGen.Proofs.Lower.HandleCalls
import QirGen.Proofs.Ir.Cfg
import QirGen.Proofs.Ir.Scan
import QirGen.Proofs.Lower.Names
import QirGen.Proofs.Lower.Layout
import QirGen.Proofs.Lower.WellFormed
import QirGen.Proofs.Ir.Run
import QirGen.Proofs.Lower.Regions
import QirGen.Proofs.Lower.Resources
import QirGen.Proofs.Lower.Errors
import QirGen.Proofs.Lower.Recording
import QirGen.Proofs.Lower.Reuse
import QirGen.Proofs.Lower.CheckOrder
import QirGen.Proofs.Circuit.Checked
import QirGen.Proofs.Lower.Built
import QirGen.Proofs.Lower.Declarations
import QirGen.Proofs.Lower.Typing
import QirGen.Proofs.Lower.Causality
import QirGen.Proofs.Lower.Stable
import QirGen.Proofs.Lower.Profiles
import QirGen.Proofs.Lower.Symbols
import QirGen.Proofs.Ir.Text
import QirGen.Proofs.Ir.AttributeRead
import QirGen.Proofs.Ir.OneLine
import QirGen.Proofs.Decimal.Significant
import QirGen.Proofs.Ir.DoubleText
import QirGen.Proofs.Lower.TextAttributes
import QirGen.Proofs.Lower.Bitcode
import QirGen.Proofs.Circuit.Invariant
import QirGen.Proofs.Config.Precedence
import QirGen.Proofs.Lower.BlockOrder
import QirGen.Proofs.Json.Lawful
import QirGen.Proofs.Json.Reading
import QirGen.Proofs.Decimal.ShortestRange
import QirGen.Proofs.Json.Numbers
import QirGen.Proofs.Circuit.JsonRoundTrip
import QirGen.Proofs.Lower.ModuleName
import QirGen.Proofs.Ir.Operations
