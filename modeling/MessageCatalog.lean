import MessageCatalog.Main
import MessageCatalog.FileSystem.Operations
import MessageCatalog.Proofs.Catalog.Translation
import MessageCatalog.Proofs.Scan.Resume
import MessageCatalog.Proofs.Scan.Completeness
import MessageCatalog.Proofs.CommandLine.Extraction
import MessageCatalog.Proofs.Call.Grammar
import MessageCatalog.Proofs.Call.Joining
import MessageCatalog.Proofs.Call.Splitting
import MessageCatalog.Proofs.Call.Literal
import MessageCatalog.Proofs.Catalog.Line
import MessageCatalog.Proofs.Scan.LineStarts
import MessageCatalog.Proofs.FileSystem.Walk
import MessageCatalog.Proofs.Scan.Selection
import MessageCatalog.Proofs.Scan.Order
import MessageCatalog.Proofs.Catalog.Repetition
import MessageCatalog.Proofs.CommandLine.Check
import MessageCatalog.Proofs.Catalog.KeyLine
import MessageCatalog.Proofs.FileSystem.Spelling
import MessageCatalog.Proofs.Scan.Listing
import MessageCatalog.Proofs.CommandLine.Exclusion
import MessageCatalog.Proofs.Catalog.Division
import MessageCatalog.Proofs.Catalog.LineEnding
import MessageCatalog.Proofs.Catalog.Batches
import MessageCatalog.Proofs.Config.Discovery
import MessageCatalog.Proofs.Config.Search
