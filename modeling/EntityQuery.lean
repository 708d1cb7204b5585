import EntityQuery.Main
import EntityQuery.Proofs.Command.Keeping
import EntityQuery.Proofs.Command.Printing
import EntityQuery.Proofs.Configuration.Conformance
import EntityQuery.Proofs.Filter.Accepted
import EntityQuery.Proofs.Filter.Agreement
import EntityQuery.Proofs.Filter.Meaning
import EntityQuery.Proofs.Filter.Pruning
import EntityQuery.Proofs.Filter.Refusal
import EntityQuery.Proofs.Filter.Shape
import EntityQuery.Proofs.Filter.Visited
import EntityQuery.Proofs.Graph.Building
import EntityQuery.Proofs.Instant.Order
import EntityQuery.Proofs.Instant.Timestamp
import EntityQuery.Proofs.Request.Insertion
import EntityQuery.Proofs.Request.Integers
import EntityQuery.Proofs.Request.Paging
import EntityQuery.Proofs.Request.Projecting
import EntityQuery.Proofs.Request.Provenance
import EntityQuery.Proofs.Request.Rewriting
import EntityQuery.Proofs.Request.Sorting
