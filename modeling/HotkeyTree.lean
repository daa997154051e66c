import HotkeyTree.Files.Tree
import HotkeyTree.Main
import HotkeyTree.Node.Json
import HotkeyTree.Proofs.DisplayName
import HotkeyTree.Proofs.Keyed
import HotkeyTree.Proofs.Insertions
import HotkeyTree.Proofs.Tree
import HotkeyTree.Proofs.Making
import HotkeyTree.Proofs.Projection
import HotkeyTree.Proofs.Soundness
import HotkeyTree.Proofs.Json.RoundTrip
import HotkeyTree.Proofs.Json.Record
import HotkeyTree.Proofs.Document.RoundTrip
import HotkeyTree.Proofs.Document.Levels
import HotkeyTree.Proofs.Items
import HotkeyTree.Proofs.Spelling
import HotkeyTree.Proofs.Growth
import HotkeyTree.Proofs.Reports
import HotkeyTree.Proofs.Warnings
import HotkeyTree.Proofs.Reasons
import HotkeyTree.Proofs.UpToOrder
import HotkeyTree.Proofs.Accounts
import HotkeyTree.Proofs.Statistics
import HotkeyTree.Proofs.Survivors
import HotkeyTree.Proofs.Pruning
import HotkeyTree.Proofs.Reordering
import HotkeyTree.Proofs.Outline
import HotkeyTree.Proofs.Rendering.Compact
import HotkeyTree.Proofs.Rendering.Formats
import HotkeyTree.Proofs.Document.Normalization
import HotkeyTree.Proofs.Lookup
import HotkeyTree.Proofs.Json.Members
import HotkeyTree.Proofs.Document.Shapes
import HotkeyTree.Proofs.Document.Edits
import HotkeyTree.Proofs.Rendering.Dependence
import HotkeyTree.Proofs.VendorTable
import HotkeyTree.Proofs.Hints
import HotkeyTree.Proofs.Effects
import HotkeyTree.Proofs.NaturalKeys
import HotkeyTree.Proofs.Locations
import HotkeyTree.Proofs.Rendering.Lines
import HotkeyTree.Proofs.Rendering.Toggles
import HotkeyTree.Proofs.Markers
import HotkeyTree.Proofs.Words
import HotkeyTree.Proofs.CaseMapping
import HotkeyTree.Proofs.Remarks
import HotkeyTree.Proofs.Initials
import HotkeyTree.Proofs.Settings
import HotkeyTree.Proofs.CommandLine.Spellings
import HotkeyTree.Proofs.CommandLine.Reading
import HotkeyTree.Proofs.CommandLine.Lines
import HotkeyTree.Proofs.CommandLine.Order
import HotkeyTree.Proofs.CommandLine.Counting
import HotkeyTree.Proofs.CommandLine.Verbosity
import HotkeyTree.Proofs.Encodings
import HotkeyTree.Proofs.Candidates
