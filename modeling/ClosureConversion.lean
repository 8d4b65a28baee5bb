import ClosureConversion.Code.Builder
import ClosureConversion.Listing.Facts
import ClosureConversion.Listing.Planning
import ClosureConversion.Main
import ClosureConversion.Proofs.Site.Evaluation
import ClosureConversion.Proofs.Capture.Mutability
import ClosureConversion.Proofs.Flow.Paths
import ClosureConversion.Proofs.Code.RoundTrip
import ClosureConversion.Proofs.Closure.Consistency
import ClosureConversion.Proofs.Closure.Handlers
import ClosureConversion.Proofs.Closure.Privacy
import ClosureConversion.Proofs.Rewriting.Redirection
import ClosureConversion.Proofs.StackMap.Room
import ClosureConversion.Proofs.Site.Unimplemented
import ClosureConversion.Proofs.Session.SelfConsistency
import ClosureConversion.Proofs.Rewriting.Labels
import ClosureConversion.Proofs.ClassFile.Growth
import ClosureConversion.Proofs.Session.Conservation
import ClosureConversion.Proofs.Code.Rereading
import ClosureConversion.Proofs.Session.Fidelity
import ClosureConversion.Proofs.Session.Linking
import ClosureConversion.Proofs.Session.Framing
import ClosureConversion.Proofs.ClassFile.Annotations
import ClosureConversion.Proofs.ClassFile.Constants
import ClosureConversion.Proofs.ClassFile.StoredFile
import ClosureConversion.Proofs.ClassFile.WellFormed
import ClosureConversion.Proofs.Session.Passing
import ClosureConversion.Proofs.ClassFile.RoundTrip
import ClosureConversion.Proofs.ClassFile.Sizes
import ClosureConversion.Proofs.Closure.Distinctness
import ClosureConversion.Proofs.Session.Recovery
import ClosureConversion.Proofs.Site.OwnMethods
import ClosureConversion.Proofs.ClassFile.Contents
import ClosureConversion.Proofs.ClassFile.Interning
import ClosureConversion.Proofs.ClassFile.Bootstraps
import ClosureConversion.Proofs.Session.Redeclaration
import ClosureConversion.Proofs.Hierarchy.Endings
import ClosureConversion.Proofs.Flow.Settling
import ClosureConversion.Proofs.Hierarchy.Subtypes
import ClosureConversion.Proofs.Flow.Joining
import ClosureConversion.Proofs.Hierarchy.Nearest
import ClosureConversion.Proofs.Hierarchy.Members
import ClosureConversion.Proofs.Flow.Objects
import ClosureConversion.Proofs.StackMap.Halves
import ClosureConversion.Proofs.Flow.StackSlots
import ClosureConversion.Proofs.Descriptor
import ClosureConversion.Proofs.StackMap.Cutting
import ClosureConversion.Proofs.Code.MethodRoundTrip
import ClosureConversion.Proofs.ModifiedUtf8
import ClosureConversion.Proofs.Closure.Adapting
import ClosureConversion.Proofs.Closure.SlotLayout
import ClosureConversion.Proofs.Running.Boxes
import ClosureConversion.Proofs.Running.Bridges
import ClosureConversion.Proofs.Running.Captures
import ClosureConversion.Proofs.Session.Unambiguity
import ClosureConversion.Proofs.Code.SwitchBounds
import ClosureConversion.Proofs.OffsetLayout
