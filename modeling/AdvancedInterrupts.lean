import AdvancedInterrupts.AddressRange
import AdvancedInterrupts.Aplic.BringUp
import AdvancedInterrupts.Aplic.Controller
import AdvancedInterrupts.Aplic.Delivery
import AdvancedInterrupts.Aplic.Handle
import AdvancedInterrupts.Aplic.Operation
import AdvancedInterrupts.Aplic.Source
import AdvancedInterrupts.Aplic.Window
import AdvancedInterrupts.Bench.FileModel
import AdvancedInterrupts.Bench.Memory
import AdvancedInterrupts.Bench.Scenario
import AdvancedInterrupts.Bench.Session
import AdvancedInterrupts.Bench.World
import AdvancedInterrupts.Claim
import AdvancedInterrupts.Controller
import AdvancedInterrupts.DomainConfig
import AdvancedInterrupts.Emulated.Access
import AdvancedInterrupts.Emulated.Domain
import AdvancedInterrupts.Emulated.Top
import AdvancedInterrupts.Hexadecimal
import AdvancedInterrupts.Imsic.Driver
import AdvancedInterrupts.Imsic.File
import AdvancedInterrupts.Imsic.Handle
import AdvancedInterrupts.Imsic.Operation
import AdvancedInterrupts.Notice
import AdvancedInterrupts.Program
import AdvancedInterrupts.Proofs.DomainAction
import AdvancedInterrupts.Register.Block
import AdvancedInterrupts.Register.Map
import AdvancedInterrupts.Software.Handlers
import AdvancedInterrupts.Software.Machine
import AdvancedInterrupts.Software.Request
import AdvancedInterrupts.Software.TrapCause
import AdvancedInterrupts.Software.TrapEntry
import AdvancedInterrupts.SourceMode
import AdvancedInterrupts.Table
import AdvancedInterrupts.Target
import AdvancedInterrupts.Word
import AdvancedInterrupts.Proofs.LegalRegisters
import AdvancedInterrupts.Proofs.UrgencyOrder
import AdvancedInterrupts.Proofs.ClaimHistory
import AdvancedInterrupts.Proofs.EmulatedPlatform
import AdvancedInterrupts.Proofs.DrainPhases
import AdvancedInterrupts.Proofs.DrainCredit
import AdvancedInterrupts.Proofs.DrainOrder
import AdvancedInterrupts.Proofs.TrapNesting
import AdvancedInterrupts.Proofs.OwnRequests
import AdvancedInterrupts.Proofs.TrapRouting
import AdvancedInterrupts.Proofs.DriverWindow
import AdvancedInterrupts.Proofs.TargetWord
import AdvancedInterrupts.Proofs.SourceWiring
import AdvancedInterrupts.Proofs.DispatchIdentity
import AdvancedInterrupts.Proofs.Interleaving
import AdvancedInterrupts.Proofs.IdcIndependence
import AdvancedInterrupts.Proofs.SourceIndependence
import AdvancedInterrupts.Proofs.ProbeTransparency
import AdvancedInterrupts.Proofs.DomainReset
import AdvancedInterrupts.Proofs.SourceRefinement
import AdvancedInterrupts.Proofs.DirectRouting
import AdvancedInterrupts.Proofs.DrainAll
import AdvancedInterrupts.Proofs.CheckedArithmetic
import AdvancedInterrupts.Proofs.CheckedDomain
import AdvancedInterrupts.Proofs.CheckedDriver
import AdvancedInterrupts.Proofs.DriverSafety
import AdvancedInterrupts.Proofs.RegisterFrame
import AdvancedInterrupts.Proofs.ExternalMask
import AdvancedInterrupts.Proofs.SoftwarePending
import AdvancedInterrupts.Proofs.DrainRounds
import AdvancedInterrupts.Proofs.InterruptFile
import AdvancedInterrupts.Proofs.FileDrain
import AdvancedInterrupts.Proofs.EnabledIdentities
import AdvancedInterrupts.Proofs.GuestField
import AdvancedInterrupts.Proofs.TopReport
import AdvancedInterrupts.Proofs.SourceDelivery
import AdvancedInterrupts.Proofs.FlagWords
import AdvancedInterrupts.Proofs.TargetPaths
import AdvancedInterrupts.Proofs.PriorityHistory
import AdvancedInterrupts.Proofs.MessageWindows
import AdvancedInterrupts.Proofs.AdvertisedRange
import AdvancedInterrupts.Proofs.ModeFilter
import AdvancedInterrupts.Proofs.TargetLenses
import AdvancedInterrupts.Proofs.HandlerHistory
