import DynamicDispatch.Script.Session
import DynamicDispatch.Proofs.Collection.Comparison
import DynamicDispatch.Proofs.Currying.Chunks
import DynamicDispatch.Proofs.Currying.Sessions
import DynamicDispatch.Proofs.Currying.Repeated
import DynamicDispatch.Proofs.Multimethod.Likeness
import DynamicDispatch.Proofs.Registry.Resolution
import DynamicDispatch.Proofs.Task.Parallel
import DynamicDispatch.Proofs.Collection.Path
import DynamicDispatch.Proofs.Action.Observation
import DynamicDispatch.Proofs.Action.Simulation
import DynamicDispatch.Proofs.Task.Equivalence
import DynamicDispatch.Proofs.Task.Laws
import DynamicDispatch.Proofs.Action.Terms
import DynamicDispatch.Proofs.Methods.Argument
import DynamicDispatch.Proofs.Methods.Provided
import DynamicDispatch.Proofs.Task.Resolver
import DynamicDispatch.Proofs.Construction
import DynamicDispatch.Proofs.Construction.Checking
import DynamicDispatch.Proofs.Construction.Weakening
import DynamicDispatch.Proofs.Currying.Dispatcher
import DynamicDispatch.Proofs.Collection.Chaining
import DynamicDispatch.Proofs.Collection.Filtering
import DynamicDispatch.Proofs.Registry.Extension
import DynamicDispatch.Proofs.Collection.Appending
import DynamicDispatch.Proofs.Collection.Sequence
import DynamicDispatch.Proofs.Matching
import DynamicDispatch.Proofs.Registry.Lasting
import DynamicDispatch.Proofs.Collection.Evolving
import DynamicDispatch.Proofs.Collection.Removal
import DynamicDispatch.Proofs.Collection.Pouring
import DynamicDispatch.Proofs.Collection.Joining
import DynamicDispatch.Proofs.Collection.Searching
import DynamicDispatch.Proofs.Task.Lifting
import DynamicDispatch.Proofs.Collection.Lifting
import DynamicDispatch.Proofs.Construction.Texts
import DynamicDispatch.Proofs.Registry.Rendered
import DynamicDispatch.Proofs.Task.Handing
import DynamicDispatch.Proofs.Task.Trying
import DynamicDispatch.Proofs.Registry.Copied
import DynamicDispatch.Proofs.Task.Courses
import DynamicDispatch.Proofs.Task.Independence
import DynamicDispatch.Proofs.Task.Laps
import DynamicDispatch.Proofs.Task.Carrying
import DynamicDispatch.Proofs.Task.Siblings
