import ProcedureGen.Main
import ProcedureGen.Store.Access
import ProcedureGen.Proofs.Discovery.Order
import ProcedureGen.Proofs.Store.Run
import ProcedureGen.Proofs.Store.Decay
import ProcedureGen.Proofs.Discovery.Walk
import ProcedureGen.Proofs.Discovery.Units
import ProcedureGen.Proofs.Discovery.Exact
import ProcedureGen.Proofs.Conversion.Site
import ProcedureGen.Proofs.Conversion.Unit
import ProcedureGen.Proofs.Conversion.Run
import ProcedureGen.Proofs.Conversion.Exact
import ProcedureGen.Proofs.Conversion.Independence
import ProcedureGen.Proofs.Conversion.Links
import ProcedureGen.Proofs.Definition.Reading
import ProcedureGen.Proofs.Definition.Quoting
import ProcedureGen.Proofs.Script.Gap
import ProcedureGen.Proofs.Script.Word
import ProcedureGen.Proofs.Script.Literal
import ProcedureGen.Proofs.Script.Token
import ProcedureGen.Proofs.Script.Goal
import ProcedureGen.Proofs.Script.Rescan
import ProcedureGen.Proofs.Script.Reading
import ProcedureGen.Proofs.Body.Block
import ProcedureGen.Proofs.Body.Lines
import ProcedureGen.Proofs.Script.Nesting
import ProcedureGen.Proofs.Body.Extent
import ProcedureGen.Proofs.Script.Spelling
import ProcedureGen.Proofs.Signature.Layout
import ProcedureGen.Proofs.Signature.Listing
import ProcedureGen.Proofs.Body.Rewrap
import ProcedureGen.Proofs.Config.Precedence
import ProcedureGen.Proofs.Session.Run
import ProcedureGen.Proofs.Conversion.Account
import ProcedureGen.Proofs.Session.Report
import ProcedureGen.Proofs.Script.Depth
import ProcedureGen.Proofs.Script.EarlyError
import ProcedureGen.Proofs.Script.LineEnd
import ProcedureGen.Proofs.Body.LineEnd
import ProcedureGen.Proofs.Body.Slices
import ProcedureGen.Proofs.Session.Options
import ProcedureGen.Proofs.Conversion.Atomic
import ProcedureGen.Proofs.Config.Agreement
import ProcedureGen.Proofs.Conversion.Places
import ProcedureGen.Proofs.Discovery.Filters
import ProcedureGen.Proofs.Script.Shape
import ProcedureGen.Proofs.Script.Function
import ProcedureGen.Proofs.Script.Outlook
import ProcedureGen.Proofs.Script.Forecast
import ProcedureGen.Proofs.Script.Foreseen
import ProcedureGen.Proofs.Script.Guided
import ProcedureGen.Proofs.Script.Echo
import ProcedureGen.Proofs.Script.Export
import ProcedureGen.Proofs.Signature.Parameters
import ProcedureGen.Proofs.Conversion.Checks
import ProcedureGen.Proofs.Glob.Matching
import ProcedureGen.Proofs.Discovery.Defaults
import ProcedureGen.Proofs.Conversion.Sequence
import ProcedureGen.Proofs.Body.Options
