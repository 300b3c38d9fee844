import PlanArchive.Store.Memory
import PlanArchive.Store.ClosedPool
import PlanArchive.Store.Either
import PlanArchive.Archive.Read
import PlanArchive.Archive.Listing
import PlanArchive.Archive.Update
import PlanArchive.Archive.Delete
import PlanArchive.Database
import PlanArchive.Main
import PlanArchive.Proofs.Archive.RoundTrip
import PlanArchive.Proofs.Archive.Orphans
import PlanArchive.Proofs.Archive.Claiming
import PlanArchive.Proofs.Archive.Ownership
import PlanArchive.Proofs.Archive.Undoing
import PlanArchive.Proofs.Archive.Interface
import PlanArchive.Proofs.Archive.Tokens
import PlanArchive.Proofs.Archive.Holders
import PlanArchive.Proofs.Archive.Adopting
import PlanArchive.Proofs.Archive.Tracking
import PlanArchive.Proofs.Document.Restoring
import PlanArchive.Proofs.Archive.Restoring
import PlanArchive.Proofs.Store.Query
import PlanArchive.Proofs.Archive.Filtering
import PlanArchive.Proofs.Archive.Searching
import PlanArchive.Proofs.Archive.Rendering
import PlanArchive.Proofs.Text.Order
import PlanArchive.Proofs.Store.Labels
import PlanArchive.Proofs.Archive.Listed
import PlanArchive.Proofs.Archive.Resolving
import PlanArchive.Proofs.Archive.Partitions
import PlanArchive.Proofs.Document.Faithful
import PlanArchive.Proofs.Document.Recoding
import PlanArchive.Proofs.Archive.Gathering
import PlanArchive.Proofs.Database.Address
import PlanArchive.Proofs.Plan.Sites
import PlanArchive.Proofs.Plan.Visiting
import PlanArchive.Proofs.Store.Budget
import PlanArchive.Proofs.Archive.Traversals
import PlanArchive.Proofs.Store.Order
import PlanArchive.Proofs.Document.Nanoseconds
