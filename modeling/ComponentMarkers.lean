import ComponentMarkers.Filer.Guarded
import ComponentMarkers.Main
import ComponentMarkers.Proofs.Marking.Chains
import ComponentMarkers.Proofs.Marking.Collection
import ComponentMarkers.Proofs.Marking.Resolution
import ComponentMarkers.Proofs.Filer.Fates
import ComponentMarkers.Proofs.Marking.Accounts
import ComponentMarkers.Proofs.Filer.Store
import ComponentMarkers.Proofs.Filer.Agreement
import ComponentMarkers.Proofs.Scan.Relevance
import ComponentMarkers.Proofs.FileSystem.Descents
import ComponentMarkers.Proofs.Scan.Discovery
import ComponentMarkers.Proofs.Marking.Recorded
import ComponentMarkers.Proofs.Path.Components
import ComponentMarkers.Proofs.Path.Resources
import ComponentMarkers.Proofs.Session.Exactness
import ComponentMarkers.Proofs.Session.Networks
import ComponentMarkers.Proofs.Json.Reports
import ComponentMarkers.Proofs.Session.Refinement
import ComponentMarkers.Proofs.CommandLine.Confinement
import ComponentMarkers.Proofs.Source.Entries
import ComponentMarkers.Proofs.Source.Units
import ComponentMarkers.Proofs.Source.TypeNames
import ComponentMarkers.Proofs.Source.Usages
import ComponentMarkers.Proofs.Source.Inheritance
import ComponentMarkers.Proofs.Source.Places
import ComponentMarkers.Proofs.Source.Reordering
import ComponentMarkers.Proofs.Source.Identities
import ComponentMarkers.Proofs.Session.Markers
import ComponentMarkers.Proofs.Session.Reordering
import ComponentMarkers.Proofs.Source.Lexing
import ComponentMarkers.Proofs.Source.Outline
import ComponentMarkers.Proofs.Source.Printing
import ComponentMarkers.Proofs.Source.Reading
import ComponentMarkers.Proofs.Source.Recovery
import ComponentMarkers.Proofs.Source.Alike
import ComponentMarkers.Proofs.Source.AlikeUnits
import ComponentMarkers.Proofs.Source.Asides
import ComponentMarkers.Proofs.Source.Layout
import ComponentMarkers.Proofs.Source.Insertion
import ComponentMarkers.Proofs.Session.Runs
import ComponentMarkers.Proofs.Session.Decoding
import ComponentMarkers.Proofs.Session.Disk
import ComponentMarkers.Proofs.CommandLine.DryRun
import ComponentMarkers.Proofs.Marking.Owners
import ComponentMarkers.Proofs.Marking.Encounters
import ComponentMarkers.Proofs.Marking.Verdicts
import ComponentMarkers.Proofs.Path.Order
import ComponentMarkers.Proofs.FileSystem.Resolution
import ComponentMarkers.Proofs.Scan.Listing
import ComponentMarkers.Proofs.Scan.Walks
import ComponentMarkers.Proofs.Source.Ownership
import ComponentMarkers.Proofs.Source.Loading
import ComponentMarkers.Proofs.Source.Growth
import ComponentMarkers.Proofs.Source.ClassDeclarations
import ComponentMarkers.Proofs.Source.OpaqueBodies
import ComponentMarkers.Proofs.Source.Representation
