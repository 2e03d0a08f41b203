import Grove.Bytes.Basic
import Grove.Bytes.Hex
import Grove.Crypto.Ed25519
import Grove.Crypto.Edwards
import Grove.Crypto.Sha512
import Grove.Kind
import Grove.Node.Basic
import Grove.Node.Builder
import Grove.Node.Codec
import Grove.Node.Field
import Grove.Node.Validation
import Grove.Qualified.Basic
import Grove.Qualified.Descriptor
import Grove.Qualified.Text
import Grove.Sample
import Grove.Signing
import Grove.Store.Archive
import Grove.Store.Basic
import Grove.Store.Cache
import Grove.Store.ChildIndex
import Grove.Store.DeepValidation
import Grove.Store.Disk
import Grove.Store.Faulty
import Grove.Store.Folder
import Grove.Store.Memory
import Grove.Store.Search
import Grove.Store.Stack
import Grove.Telemetry
import Grove.Text.Alphanumeric
import Grove.Text.CharClass
import Grove.Text.Decimal
import Grove.Text.Glyph
import Grove.Text.Quoted
import Grove.Text.Split
import Grove.Text.Utf8
import Grove.Tree.Kinship
import Grove.Tree.Trace
import Grove.Tree.Walk
import Grove.Twig.Basic
import Grove.Twig.Codec
import Grove.Wire
import Grove.Proofs.Text.Ascii
import Grove.Proofs.Text.Numeral
import Grove.Proofs.Wire.Qualified
import Grove.Proofs.Wire.Sequence
import Grove.Proofs.Text.Qualified
import Grove.Proofs.Wire.Node
import Grove.Proofs.Wire.Truncation
import Grove.Proofs.Wire.Stream
import Grove.Proofs.Validation.Shallow
import Grove.Proofs.Store.Action
import Grove.Proofs.Validation.Deep
import Grove.Proofs.Twig.Rows
import Grove.Proofs.Twig.Codec
import Grove.Proofs.Twig.Entries
import Grove.Proofs.Twig.Grammar
import Grove.Proofs.Validation.Sealing
import Grove.Proofs.Tree.Kinship
import Grove.Proofs.Store.Forest
import Grove.Proofs.Store.Indexes
import Grove.Proofs.Archive.Run
import Grove.Proofs.Archive.Forest
import Grove.Proofs.Validation.Building
import Grove.Proofs.Store.Memory
import Grove.Proofs.Archive.Sync
import Grove.Proofs.Store.Readback
import Grove.Proofs.Store.Search
import Grove.Proofs.Store.Consistent
import Grove.Proofs.Store.ChildIndex
import Grove.Proofs.Store.Cut
import Grove.Proofs.Stack.Mimic
import Grove.Proofs.Stack.Again
import Grove.Proofs.Store.Cover
import Grove.Proofs.Archive.Thread
import Grove.Proofs.Archive.Subscription
import Grove.Proofs.Archive.Acceptance
import Grove.Proofs.Archive.Chronicle
import Grove.Proofs.Archive.Retry
import Grove.Proofs.Archive.Vetted
import Grove.Proofs.Store.Listing
import Grove.Proofs.Store.Timeline
import Grove.Proofs.Store.Mirror
import Grove.Proofs.Store.Removal
import Grove.Proofs.Stack.Replay
import Grove.Proofs.Store.Scan
import Grove.Proofs.Store.Spelling
import Grove.Proofs.Stack.Copy
import Grove.Proofs.Tree.Growth
import Grove.Proofs.Tree.BreadthFirst
import Grove.Proofs.Tree.Walk
import Grove.Proofs.Tree.Record
import Grove.Proofs.Tree.Withheld
import Grove.Proofs.Tree.Duality
import Grove.Proofs.Store.Pruning
import Grove.Proofs.Store.Merging
import Grove.Proofs.Validation.Tampering
import Grove.Proofs.Store.Interruption
import Grove.Proofs.Store.Ledger
import Grove.Proofs.Stack.Ledger
