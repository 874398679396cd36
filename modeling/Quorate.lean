import Quorate.Election.Sentinel
import Quorate.Main
import Quorate.Proofs.Merge.Ownership
import Quorate.Proofs.Merge.Quorum
import Quorate.Replica.Trial
import Quorate.Scenario.Run
import Quorate.Vote.Element
import Quorate.Proofs.Election.Fragmented
import Quorate.Proofs.Election.Majority
import Quorate.Proofs.Election.Order
import Quorate.Proofs.Election.Phases
import Quorate.Proofs.Election.Classified
import Quorate.Proofs.Election.Coding
import Quorate.Proofs.Election.Numbers
import Quorate.Proofs.Election.Ahead
import Quorate.Proofs.System.Ledger
import Quorate.Proofs.System.Consistent
import Quorate.Proofs.Merge.Construction
import Quorate.Proofs.Merge.Nested
import Quorate.Proofs.Merge.Transitive
import Quorate.Proofs.Replica.Trial
import Quorate.Proofs.System.Countdown
import Quorate.Proofs.Merge.Isolation
import Quorate.Proofs.Merge.Accumulator
import Quorate.Proofs.Merge.Waiting
import Quorate.Proofs.Merge.Commuting
import Quorate.Proofs.Config.Feasible
import Quorate.Proofs.Config.RoundTrip
import Quorate.Proofs.Future.Awaiting
import Quorate.Proofs.Read.Decision
