import SsaLowering.Arena.Builder
import SsaLowering.Main
import SsaLowering.Proofs.Action
import SsaLowering.Proofs.Front
import SsaLowering.Proofs.Building
import SsaLowering.Proofs.Body
import SsaLowering.Proofs.Dominance
import SsaLowering.Proofs.Reachability
import SsaLowering.Proofs.ControlFlow
import SsaLowering.Proofs.Conversion
import SsaLowering.Proofs.ExpressionValue
import SsaLowering.Proofs.UnitTyping
import SsaLowering.Proofs.StructAccess
import SsaLowering.Proofs.Constants
import SsaLowering.Proofs.ClosedModule
import SsaLowering.Proofs.Calls
import SsaLowering.Proofs.Symbols
import SsaLowering.Proofs.Visibility
import SsaLowering.Proofs.Handles
import SsaLowering.Proofs.Findings
import SsaLowering.Proofs.Immutability
import SsaLowering.Proofs.Inventory
import SsaLowering.Proofs.ArenaFormat
import SsaLowering.Proofs.TypeAgreement
import SsaLowering.Proofs.Independence
import SsaLowering.Proofs.Isolation
import SsaLowering.Proofs.NaturalLayout
import SsaLowering.Proofs.IntegerConversion
import SsaLowering.Proofs.CommonType
import SsaLowering.Proofs.InitializerAgreement
import SsaLowering.Proofs.WellFormed
import SsaLowering.Proofs.BuilderCalls
import SsaLowering.Proofs.SlotOwnership
import SsaLowering.Proofs.Degradation
import SsaLowering.Proofs.Registration
import SsaLowering.Proofs.ScopeHistory
import SsaLowering.Proofs.StringConstants
import SsaLowering.Proofs.ExpressionPlaces
import SsaLowering.Proofs.StatementPlaces
import SsaLowering.Proofs.DeclarationPlaces
import SsaLowering.Proofs.DiagnosticPlaces
import SsaLowering.Proofs.ArenaCalls
import SsaLowering.Proofs.IntegerNumerals
