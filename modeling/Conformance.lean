import Conformance.Decoder.Script
import Conformance.Main
import Conformance.Proofs.ExitCode
import Conformance.Proofs.FirstMismatch
import Conformance.Proofs.Schedule
import Conformance.Proofs.Grammar
import Conformance.Proofs.PathInjective
import Conformance.Proofs.ReadNumber
import Conformance.Proofs.ReadString
import Conformance.Proofs.SkipValue
import Conformance.Proofs.ReadValue
import Conformance.Proofs.FixtureText
import Conformance.Proofs.Echo
import Conformance.Proofs.Rounding
import Conformance.Proofs.ZeroFraction
import Conformance.Proofs.ContainmentOrder
import Conformance.Proofs.Enrichment
import Conformance.Proofs.FailFast
import Conformance.Proofs.FixtureReader
import Conformance.Proofs.FixtureObject
import Conformance.Proofs.LimitedOutput
import Conformance.Proofs.Notices
import Conformance.Proofs.Sharding
import Conformance.Proofs.InStep
import Conformance.Proofs.CheckStatus
import Conformance.Proofs.Counting
import Conformance.Proofs.Projection
import Conformance.Proofs.Reachability
import Conformance.Proofs.QuietOutput
import Conformance.Proofs.MemberOrder
import Conformance.Proofs.NumberEquality
import Conformance.Proofs.Repair
import Conformance.Proofs.MismatchText
import Conformance.Proofs.CommandLine
import Conformance.Proofs.Expansion
import Conformance.Proofs.PathComposition
import Conformance.Proofs.FoundFiles
import Conformance.Proofs.Unlisted
