import LiveMarkup.Proofs.CellVariables
import LiveMarkup.Proofs.ChangePolicy
import LiveMarkup.Proofs.DirectCalls
import LiveMarkup.Proofs.Expressible
import LiveMarkup.Proofs.Mentions
import LiveMarkup.Proofs.NestingHeight
import LiveMarkup.Proofs.Notification
import LiveMarkup.Proofs.Precedence
import LiveMarkup.Proofs.Sandbox
import LiveMarkup.Session.Machine
import LiveMarkup.Proofs.LastUsed
import LiveMarkup.Proofs.CellWrites
import LiveMarkup.Proofs.Rebinding
import LiveMarkup.Proofs.CheckedStore
import LiveMarkup.Proofs.CheckedEvaluation
import LiveMarkup.Proofs.InRange
import LiveMarkup.Proofs.BareStore
import LiveMarkup.Proofs.ReboundRuns
import LiveMarkup.Proofs.ContextNames
import LiveMarkup.Proofs.ChangeStreams
import LiveMarkup.Proofs.FlatCells
import LiveMarkup.Proofs.SharedKeys
import LiveMarkup.Proofs.StateBag
import LiveMarkup.Proofs.NestedDrains
import LiveMarkup.Proofs.ReadOnly
import LiveMarkup.Proofs.ShortCircuits
import LiveMarkup.Proofs.MemberCalls
import LiveMarkup.Proofs.SlotHistory
import LiveMarkup.Proofs.Scoping
import LiveMarkup.Proofs.Registers
import LiveMarkup.Proofs.Constants
import LiveMarkup.Proofs.BlockScope
import LiveMarkup.Proofs.ClosedTexts
import LiveMarkup.Proofs.Enclosing
import LiveMarkup.Proofs.Operands
import LiveMarkup.Proofs.Numerals
import LiveMarkup.Proofs.ArrayGrowth
import LiveMarkup.Proofs.WholeNumbers
import LiveMarkup.Proofs.ReadBack
import LiveMarkup.Proofs.IndexedElements
import LiveMarkup.Proofs.MethodArguments
import LiveMarkup.Proofs.VeiledElements
import LiveMarkup.Proofs.JoinedTexts
import LiveMarkup.Proofs.TextWriter
import LiveMarkup.Proofs.LooseEquality
import LiveMarkup.Proofs.RadixNumerals
import LiveMarkup.Proofs.NearestDoubles
import LiveMarkup.Proofs.DecimalLiterals
import LiveMarkup.Proofs.IntegersReadBack
import LiveMarkup.Proofs.LongestNumber
import LiveMarkup.Proofs.Splicing
import LiveMarkup.Proofs.TextPositions
import LiveMarkup.Proofs.TextNumbers
import LiveMarkup.Proofs.SplitTexts
import LiveMarkup.Proofs.Partition
import LiveMarkup.Proofs.FaultPlaces
import LiveMarkup.Proofs.Offsets
import LiveMarkup.Proofs.LineEndings
import LiveMarkup.Proofs.DeniedCalls
import LiveMarkup.Proofs.Braces
import LiveMarkup.Proofs.DepthCounter
import LiveMarkup.Proofs.JsonRoundTrip
import LiveMarkup.Proofs.OneShotHandles
