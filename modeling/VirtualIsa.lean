import VirtualIsa.Catalog.Standard
import VirtualIsa.Register.NameTable
import VirtualIsa.Register.Validity
import VirtualIsa.Proofs.Instruction.Acceptance
import VirtualIsa.Proofs.Instruction.Invariant
import VirtualIsa.Proofs.Catalog.Lookup
import VirtualIsa.Proofs.Catalog.Mnemonics
import VirtualIsa.Proofs.Instruction.Settings
import VirtualIsa.Proofs.Instruction.Branches
import VirtualIsa.Proofs.Register.Making
import VirtualIsa.Proofs.Register.Creation
import VirtualIsa.Proofs.Register.Overlap
import VirtualIsa.Proofs.Json
import VirtualIsa.Proofs.Catalog.Dump
import VirtualIsa.Proofs.Instruction.Repair
import VirtualIsa.Proofs.Register.Appearance
import VirtualIsa.Proofs.Register.HostNames
import VirtualIsa.Proofs.Register.Requests
import VirtualIsa.Proofs.Instruction.Rows
import VirtualIsa.Proofs.Catalog.Order
import VirtualIsa.Proofs.Register.Dump
import VirtualIsa.Proofs.Instruction.Reports
import VirtualIsa.Proofs.Register.Masks
import VirtualIsa.Proofs.Register.Intersection
import VirtualIsa.Proofs.Register.Namings
import VirtualIsa.Proofs.Instruction.Entries
import VirtualIsa.Proofs.Register.Lookalikes
import VirtualIsa.Proofs.Instruction.Signature
import VirtualIsa.Proofs.Register.Sorting
import VirtualIsa.Proofs.Register.Tiling
