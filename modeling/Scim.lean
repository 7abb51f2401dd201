import Scim.Main
import Scim.Proofs.Parse.Regroup
import Scim.Proofs.Parse.Site
import Scim.Proofs.Parse.Unlisted
import Scim.Proofs.Parse.Padding
import Scim.Proofs.Parse.Comparisons
import Scim.Proofs.Parse.Meaning
import Scim.Proofs.Parse.Normal
import Scim.Proofs.Parse.Written
import Scim.Proofs.Parse.Depth
import Scim.Proofs.Parse.Attributes
import Scim.Proofs.Parse.Guards
import Scim.Proofs.Parse.Respaced
import Scim.Proofs.Scan.Cover
import Scim.Proofs.Parse.Renamed
import Scim.Proofs.Parse.Reported
import Scim.Proofs.Parse.Recased
import Scim.Proofs.Parse.Ending
import Scim.Proofs.Report.Caret
import Scim.Proofs.Report.Faithful
import Scim.Proofs.Scan.Closing
import Scim.Proofs.Tree.Equal
import Scim.Proofs.Limits.Environment
import Scim.Proofs.Report.Mirror
import Scim.Proofs.Phrase.Longest
