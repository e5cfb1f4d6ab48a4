import RemoteCalls.Files.Tree
import RemoteCalls.Inspector.Panes
import RemoteCalls.Main
import RemoteCalls.Proofs.CType.Items
import RemoteCalls.Proofs.CType.Meaning
import RemoteCalls.Proofs.CType.Operators
import RemoteCalls.Proofs.CType.Scanned
import RemoteCalls.Proofs.CType.Spelling
import RemoteCalls.Proofs.Catalog.Absorption
import RemoteCalls.Proofs.Catalog.Core
import RemoteCalls.Proofs.Catalog.Histories
import RemoteCalls.Proofs.Catalog.Merging
import RemoteCalls.Proofs.Catalog.Names
import RemoteCalls.Proofs.Catalog.Sightings
import RemoteCalls.Proofs.Catalog.Table
import RemoteCalls.Proofs.Catalog.WellFormed
import RemoteCalls.Proofs.Declaration
import RemoteCalls.Proofs.Extraction.Arguments
import RemoteCalls.Proofs.Extraction.Events
import RemoteCalls.Proofs.Extraction.Headers
import RemoteCalls.Proofs.Extraction.Policies
import RemoteCalls.Proofs.Extraction.Recorded
import RemoteCalls.Proofs.Extraction.Refusals
import RemoteCalls.Proofs.Extraction.Regeneration
import RemoteCalls.Proofs.Extraction.Repeats
import RemoteCalls.Proofs.Extraction.Replay
import RemoteCalls.Proofs.Extraction.Reported
import RemoteCalls.Proofs.Extraction.Sessions
import RemoteCalls.Proofs.Extraction.Signatures
import RemoteCalls.Proofs.Extraction.Structures
import RemoteCalls.Proofs.Extraction.Stubs
import RemoteCalls.Proofs.Extraction.Traversal
import RemoteCalls.Proofs.Extraction.Unclosed
import RemoteCalls.Proofs.Extraction.Variables
import RemoteCalls.Proofs.Indexed
import RemoteCalls.Proofs.Inspector.Highlight
import RemoteCalls.Proofs.Inspector.Scrolling
import RemoteCalls.Proofs.Outline.Association
import RemoteCalls.Proofs.Outline.Bodies
import RemoteCalls.Proofs.Outline.BodyNotes
import RemoteCalls.Proofs.Outline.BodyStatements
import RemoteCalls.Proofs.Outline.Conservation
import RemoteCalls.Proofs.Outline.Declarators
import RemoteCalls.Proofs.Outline.Definitions
import RemoteCalls.Proofs.Outline.External
import RemoteCalls.Proofs.Outline.Findings
import RemoteCalls.Proofs.Outline.Gathering
import RemoteCalls.Proofs.Outline.Indexed
import RemoteCalls.Proofs.Outline.Isolation
import RemoteCalls.Proofs.Outline.Lookahead
import RemoteCalls.Proofs.Outline.MacroBodies
import RemoteCalls.Proofs.Outline.Markers
import RemoteCalls.Proofs.Outline.NoteForms
import RemoteCalls.Proofs.Outline.NoteSources
import RemoteCalls.Proofs.Outline.PrintedStructures
import RemoteCalls.Proofs.Outline.PrintedVariables
import RemoteCalls.Proofs.Outline.Provenance
import RemoteCalls.Proofs.Outline.Reading
import RemoteCalls.Proofs.Outline.Recovery
import RemoteCalls.Proofs.Outline.Refusing
import RemoteCalls.Proofs.Outline.Scripts
import RemoteCalls.Proofs.Outline.Statements
import RemoteCalls.Proofs.Outline.Steps
import RemoteCalls.Proofs.Outline.Termination
import RemoteCalls.Proofs.Remote
import RemoteCalls.Proofs.Remote.Directions
import RemoteCalls.Proofs.Remote.Directives
import RemoteCalls.Proofs.Remote.Spellings
import RemoteCalls.Proofs.Remote.Written
import RemoteCalls.Proofs.Stub.Bodies
import RemoteCalls.Proofs.Stub.Fences
import RemoteCalls.Proofs.Stub.Helpers
import RemoteCalls.Proofs.Stub.Lines
import RemoteCalls.Proofs.Stub.Marshalling
import RemoteCalls.Proofs.Stub.NoteComments
import RemoteCalls.Proofs.Stub.Rereading
import RemoteCalls.Proofs.Text.Bytes
import RemoteCalls.Proofs.Text.Pieces
import RemoteCalls.Proofs.Token.Alike
import RemoteCalls.Proofs.Token.Arguments
import RemoteCalls.Proofs.Token.Comments
import RemoteCalls.Proofs.Token.Cut
import RemoteCalls.Proofs.Token.Indexed
import RemoteCalls.Proofs.Token.Joining
import RemoteCalls.Proofs.Token.Layout
import RemoteCalls.Proofs.Token.Lists
import RemoteCalls.Proofs.Token.Order
import RemoteCalls.Proofs.Token.Regions
import RemoteCalls.Proofs.Token.Relisting
import RemoteCalls.Proofs.Token.Rows
import RemoteCalls.Proofs.Token.Runs
import RemoteCalls.Proofs.Token.Sizes
import RemoteCalls.Proofs.Token.Stability
