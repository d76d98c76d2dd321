import MappedNetlist.Library.Json
import MappedNetlist.Library.Toml
import MappedNetlist.Netlist.Damage
import MappedNetlist.Netlist.Edit
import MappedNetlist.Netlist.InPlace
import MappedNetlist.Netlist.Snapshot
import MappedNetlist.Netlist.Verify
import MappedNetlist.Proofs.Accounting
import MappedNetlist.Proofs.Addition
import MappedNetlist.Proofs.Agreement
import MappedNetlist.Proofs.Alignment
import MappedNetlist.Proofs.Atomicity
import MappedNetlist.Proofs.Cascade
import MappedNetlist.Proofs.Confluence
import MappedNetlist.Proofs.Content
import MappedNetlist.Proofs.Detachment
import MappedNetlist.Proofs.Detection
import MappedNetlist.Proofs.Filing
import MappedNetlist.Proofs.Fixpoint
import MappedNetlist.Proofs.Idempotence
import MappedNetlist.Proofs.Interning
import MappedNetlist.Proofs.Json.RoundTrip
import MappedNetlist.Proofs.Listing
import MappedNetlist.Proofs.Overrun
import MappedNetlist.Proofs.Reindexing
import MappedNetlist.Proofs.Residue
import MappedNetlist.Proofs.Transparency
import MappedNetlist.Proofs.Validation
import MappedNetlist.Proofs.Wiring
import MappedNetlist.Proofs.Preservation
