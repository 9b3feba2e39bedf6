import ThreeMove.Bytes.Hex
import ThreeMove.Noninteractive
import ThreeMove.Group.Ristretto
import ThreeMove.Payload.Json
import ThreeMove.Session.Execution
import ThreeMove.Session.Script
import ThreeMove.Proofs.Random.Law
import ThreeMove.Proofs.Protocol.ModP
import ThreeMove.Proofs.Protocol.DiscreteLog
import ThreeMove.Proofs.Protocol.Conjunction
import ThreeMove.Proofs.Protocol.Disjunction
import ThreeMove.Proofs.Protocol.Sealed
import ThreeMove.Proofs.Protocol.FormulaHiding
import ThreeMove.Proofs.Statement.Completeness
import ThreeMove.Proofs.Statement.Simulation
import ThreeMove.Proofs.Statement.Soundness
import ThreeMove.Proofs.Statement.ZeroKnowledge
import ThreeMove.Proofs.Group.Cyclic
import ThreeMove.Proofs.Bytes
import ThreeMove.Proofs.Codec
import ThreeMove.Proofs.Group.Encoding
import ThreeMove.Proofs.Protocol.Encoding
import ThreeMove.Proofs.Statement.Encoding
import ThreeMove.Proofs.Protocol.Aborts
import ThreeMove.Proofs.Session.Calls
import ThreeMove.Proofs.Session.Causes
import ThreeMove.Proofs.Session.Rejection
import ThreeMove.Proofs.Session.Trailing
import ThreeMove.Proofs.Session.Relay
import ThreeMove.Proofs.Session.Mailbox
import ThreeMove.Proofs.Session.Arrival
import ThreeMove.Proofs.Session.Failure
import ThreeMove.Proofs.Statement.Verdict
import ThreeMove.Proofs.Statement.Binding
import ThreeMove.Proofs.Protocol.Vouching
import ThreeMove.Proofs.Statement.Trim
import ThreeMove.Proofs.Statement.Transmission
import ThreeMove.Proofs.Statement.Noninteractive
import ThreeMove.Proofs.Protocol.Width
import ThreeMove.Proofs.Statement.Sealing
import ThreeMove.Proofs.Session.Exchange
import ThreeMove.Proofs.Statement.Width
import ThreeMove.Proofs.Statement.Challenges
import ThreeMove.Proofs.Statement.Responses
import ThreeMove.Proofs.Statement.Shapes
import ThreeMove.Proofs.Statement.HashInput
import ThreeMove.Proofs.Session.Answering
import ThreeMove.Proofs.Session.Judging
import ThreeMove.Proofs.Session.Lifetime
import ThreeMove.Proofs.Statement.Extraction
import ThreeMove.Proofs.Protocol.Totality
import ThreeMove.Proofs.Statement.Answers
import ThreeMove.Proofs.Session.Alternating
import ThreeMove.Proofs.Json.Reading
import ThreeMove.Proofs.Payload.Json
import ThreeMove.Proofs.Session.HeldChallenge
import ThreeMove.Proofs.Statement.Validation
import ThreeMove.Proofs.Protocol.Splitting
import ThreeMove.Proofs.Frame.Reading
import ThreeMove.Proofs.Group.Lists
import ThreeMove.Proofs.Hash.Duplex
