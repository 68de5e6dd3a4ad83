import Conform.Caster
import Conform.Config.Reader
import Conform.Descriptor.Inspection
import Conform.Host.Script
import Conform.Override
import Conform.Proofs.Program.Outcome
import Conform.Proofs.Entries
import Conform.Proofs.Key.Order
import Conform.Proofs.Value.WellFormed
import Conform.Proofs.Descriptor.Parts
import Conform.Proofs.Cast.Rules
import Conform.Proofs.Cast.Shape
import Conform.Proofs.Cast.Blame
import Conform.Proofs.Compilation
import Conform.Proofs.Program.Run
import Conform.Proofs.Cast.Signature
import Conform.Proofs.Cast.Inspected
import Conform.Proofs.Cast.Failure
import Conform.Proofs.Symbol
import Conform.Proofs.Cast.Symbol
import Conform.Proofs.Caster
import Conform.Proofs.Cast.Plain
import Conform.Proofs.Cast.RoundTrip
import Conform.Proofs.Cast.Follows
import Conform.Proofs.Cast.Depth
import Conform.Proofs.Key.Equality
import Conform.Proofs.Program.Agree
import Conform.Proofs.Descriptor.Replacement
import Conform.Proofs.Cast.Agree
import Conform.Proofs.Cast.Union
import Conform.Proofs.Cast.Fuel
import Conform.Proofs.Cast.Identity
import Conform.Proofs.Cast.Repetition
import Conform.Proofs.Program.Kept
import Conform.Proofs.Value.Equality
import Conform.Proofs.Cast.Loosening
import Conform.Proofs.Cast.Record
import Conform.Proofs.Program.Parallel
import Conform.Proofs.Value.Reordering
import Conform.Proofs.Cast.Reordering
import Conform.Proofs.Override.Assignment
import Conform.Proofs.Cast.Invocation
import Conform.Proofs.Cast.Parameters
import Conform.Proofs.Descriptor.Traversal
import Conform.Proofs.Descriptor.Violation
import Conform.Proofs.Entries.Overwriting
import Conform.Proofs.Override.Commutation
import Conform.Proofs.Key.Ascending
import Conform.Proofs.Program.Sequence
import Conform.Proofs.Cast.Visibility
import Conform.Proofs.Cast.Location
import Conform.Proofs.Cast.Set
import Conform.Proofs.Cast.Map
import Conform.Proofs.Cast.Prefix
import Conform.Proofs.Value.SelfEquality
import Conform.Proofs.Key.Conversion
import Conform.Proofs.Text.Blank
import Conform.Proofs.Text.Quoted
import Conform.Proofs.Text.Discerned
import Conform.Proofs.Value.Rendering
import Conform.Proofs.Json.Locality
import Conform.Proofs.Override.Grammar
