import MemoryHierarchy.Main
import MemoryHierarchy.Proofs.Artifact.Address
import MemoryHierarchy.Proofs.Artifact.CoreCount
import MemoryHierarchy.Proofs.Artifact.DeclarationOrder
import MemoryHierarchy.Proofs.Artifact.Glue
import MemoryHierarchy.Proofs.Artifact.Header
import MemoryHierarchy.Proofs.Artifact.Naming
import MemoryHierarchy.Proofs.Check.Loop
import MemoryHierarchy.Proofs.Check.ModuleSlot
import MemoryHierarchy.Proofs.Check.Preview
import MemoryHierarchy.Proofs.Check.SetCount
import MemoryHierarchy.Proofs.CommandLine
import MemoryHierarchy.Proofs.Configuration.Declarations
import MemoryHierarchy.Proofs.Configuration.Layering
import MemoryHierarchy.Proofs.Configuration.Malformed
import MemoryHierarchy.Proofs.Document.Associativity
import MemoryHierarchy.Proofs.Graph.Agreement
import MemoryHierarchy.Proofs.Graph.LongestDistance
import MemoryHierarchy.Proofs.Model.Conversion
import MemoryHierarchy.Proofs.Module.Discovery
import MemoryHierarchy.Proofs.Module.Dispatch
import MemoryHierarchy.Proofs.Module.Insertion
import MemoryHierarchy.Proofs.Module.Naming
import MemoryHierarchy.Proofs.Module.Request
import MemoryHierarchy.Proofs.Module.Search
import MemoryHierarchy.Proofs.Module.Symbol
import MemoryHierarchy.Proofs.Resolution.Activation
import MemoryHierarchy.Proofs.Resolution.Addressing
import MemoryHierarchy.Proofs.Resolution.Inheritance
import MemoryHierarchy.Proofs.Resolution.Sharing
import MemoryHierarchy.Proofs.Resolution.Unreachable
