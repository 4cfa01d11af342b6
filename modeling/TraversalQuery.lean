import TraversalQuery.Main
import TraversalQuery.Outline.Reader
import TraversalQuery.Proofs.Command.Blame
import TraversalQuery.Proofs.Command.Composition
import TraversalQuery.Proofs.Document.Cycles
import TraversalQuery.Proofs.Document.Extents
import TraversalQuery.Proofs.Ontology.Domain
import TraversalQuery.Proofs.Ontology.Storage
import TraversalQuery.Proofs.Outline.Brackets
import TraversalQuery.Proofs.Outline.Completeness
import TraversalQuery.Proofs.Plan.Failures
import TraversalQuery.Proofs.Plan.Grounding
import TraversalQuery.Proofs.Plan.Numbering
import TraversalQuery.Proofs.Plan.Splicing
import TraversalQuery.Proofs.Planning.Aliases
import TraversalQuery.Proofs.Planning.Decoding
import TraversalQuery.Proofs.Planning.Derived
import TraversalQuery.Proofs.Planning.Renumbering
import TraversalQuery.Proofs.Planning.Trees
import TraversalQuery.Proofs.Response.CustomScalars
import TraversalQuery.Proofs.Response.Fitting
import TraversalQuery.Proofs.Response.Termination
import TraversalQuery.Proofs.Schema.Extensions
import TraversalQuery.Proofs.Schema.Lookups
import TraversalQuery.Proofs.Schema.Prelude
import TraversalQuery.Proofs.Schema.Repeats
import TraversalQuery.Proofs.Source.BlockStrings
import TraversalQuery.Proofs.Source.Escapes
import TraversalQuery.Proofs.Source.Strings
