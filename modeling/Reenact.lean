import Reenact.Capture.Recorder
import Reenact.Class.Demo
import Reenact.Eval.Run
import Reenact.Json.Decode
import Reenact.Json.Encode
import Reenact.Live.Sample
import Reenact.Proofs.Bisimulation
import Reenact.Proofs.Effect
import Reenact.Proofs.Reachability
import Reenact.Proofs.Assoc
import Reenact.Proofs.Graph
import Reenact.Proofs.Slots
import Reenact.Proofs.Success
import Reenact.Proofs.Serialization
import Reenact.Proofs.Views
import Reenact.Proofs.Builtin
import Reenact.Proofs.LocalNames
import Reenact.Proofs.Evaluation
import Reenact.Proofs.Heap
import Reenact.Proofs.WellFormed
import Reenact.Proofs.Simulation
import Reenact.Proofs.Rebuilding
import Reenact.Proofs.Composite
import Reenact.Proofs.Wrapper
import Reenact.Proofs.Reconstruction
import Reenact.Proofs.RoundTrip
import Reenact.Proofs.Pairing
import Reenact.Proofs.Expectations
import Reenact.Proofs.Acceptance
import Reenact.Proofs.Augmenting
import Reenact.Proofs.Mutation
import Reenact.Proofs.MatcherCode
import Reenact.Proofs.Population
import Reenact.Proofs.Following
import Reenact.Proofs.Description
import Reenact.Proofs.Assertion
import Reenact.Proofs.Replay
import Reenact.Proofs.Checking
import Reenact.Proofs.GeneratedTest
import Reenact.Proofs.Session
import Reenact.Proofs.Isolation
import Reenact.Proofs.Emission
import Reenact.Proofs.Recorder
import Reenact.Proofs.Attribution
import Reenact.Proofs.Sequencing
import Reenact.Proofs.Workers
import Reenact.Proofs.Depiction
import Reenact.Proofs.Unchanged
import Reenact.Proofs.Asserted
import Reenact.Proofs.Elision
import Reenact.Proofs.Additions
import Reenact.Proofs.Bindings
import Reenact.Proofs.Phases
import Reenact.Proofs.Recursion
import Reenact.Proofs.Builders
import Reenact.Proofs.Buildable
import Reenact.Proofs.Equivalence
import Reenact.Proofs.Unreadable
import Reenact.Proofs.Rearrangement
import Reenact.Proofs.Omission
import Reenact.Proofs.Traversal
import Reenact.Proofs.Hoisting
import Reenact.Proofs.Meaning
import Reenact.Proofs.Ancestry
import Reenact.Proofs.Precedence
import Reenact.Proofs.Extension
import Reenact.Proofs.Numbering
import Reenact.Proofs.ClassNames
import Reenact.Proofs.Tokens
import Reenact.Proofs.TypeText
import Reenact.Proofs.Shadowing
import Reenact.Proofs.TestNames
import Reenact.Proofs.Distance
import Reenact.Proofs.Overriding
import Reenact.Proofs.StandIns
import Reenact.Proofs.Assignability
import Reenact.Proofs.Lineage
import Reenact.Proofs.Unfolding
import Reenact.Proofs.Mentions
import Reenact.Proofs.Printing
import Reenact.Proofs.Indexing
import Reenact.Proofs.Sameness
import Reenact.Proofs.Distinctness
import Reenact.Proofs.LiteralCode
