import Inlay.Disk.Listing
import Inlay.Main
import Inlay.Proofs.Attributes.Leftover
import Inlay.Proofs.Attributes.Pairs
import Inlay.Proofs.Attributes.RoundTrip
import Inlay.Proofs.Catalogue.Addressed
import Inlay.Proofs.Catalogue.Invisible
import Inlay.Proofs.Job.Guard
import Inlay.Proofs.Job.Outcome
import Inlay.Proofs.Markup.Cover
import Inlay.Proofs.Markup.FirstElement
import Inlay.Proofs.Page.Account
import Inlay.Proofs.Page.Adjacent
import Inlay.Proofs.Page.Comment
import Inlay.Proofs.Page.Crossing
import Inlay.Proofs.Page.Found
import Inlay.Proofs.Page.Growth
import Inlay.Proofs.Page.Merging
import Inlay.Proofs.Page.QuotedRoot
import Inlay.Proofs.Page.Resume
import Inlay.Proofs.Page.Return
import Inlay.Proofs.Page.Slot
import Inlay.Proofs.Page.Substitution
import Inlay.Proofs.Site.Confined
import Inlay.Proofs.Site.Copy
import Inlay.Proofs.Site.Isolation
import Inlay.Proofs.Site.Reader
import Inlay.Proofs.Site.Return
import Inlay.Proofs.Site.Strict
import Inlay.Settings.Load
import Inlay.Text.Utf8.Lemmas
