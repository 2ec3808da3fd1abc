import ImageBrowser.Cache.Questions
import ImageBrowser.Main
import ImageBrowser.Proofs.Text.PercentCoding
import ImageBrowser.Proofs.Cache.Freshness
import ImageBrowser.Proofs.Calls.Exclusion
import ImageBrowser.Proofs.Smalltalk.Frames
import ImageBrowser.Proofs.Tools.Permissions
import ImageBrowser.Queries
import ImageBrowser.Records.Call
import ImageBrowser.Records.Reports
import ImageBrowser.Smalltalk.Call
import ImageBrowser.Smalltalk.Lexer
import ImageBrowser.Text.LineEnd
import ImageBrowser.Proofs.Locator.RoundTrip
import ImageBrowser.Proofs.Cache.Sharing
import ImageBrowser.Proofs.Tree.Expansion
import ImageBrowser.Proofs.Tree.Attribution
import ImageBrowser.Proofs.Calls.Failures
import ImageBrowser.Proofs.Cache.Readable
import ImageBrowser.Proofs.Sessions.Upkeep
import ImageBrowser.Proofs.Tree.Browsing
import ImageBrowser.Proofs.Tools.Answers
import ImageBrowser.Proofs.Tools.Service
import ImageBrowser.Proofs.Text.Fronts
import ImageBrowser.Proofs.Text.Sorting
import ImageBrowser.Proofs.Records.Reading
import ImageBrowser.Proofs.Records.Cuts
import ImageBrowser.Proofs.Records.Searches
import ImageBrowser.Proofs.Cache.Listings
import ImageBrowser.Proofs.Records.Organizations
import ImageBrowser.Proofs.Calls.Working
import ImageBrowser.Proofs.Tree.Roots
import ImageBrowser.Proofs.Calls.Sending
import ImageBrowser.Proofs.Tools.Content
import ImageBrowser.Proofs.Tree.Visits
import ImageBrowser.Proofs.Smalltalk.References
import ImageBrowser.Proofs.Tree.Shadowing
import ImageBrowser.Proofs.Sessions.Connections
import ImageBrowser.Proofs.Tools.Busy
import ImageBrowser.Proofs.Sessions.Announcements
import ImageBrowser.Proofs.Tools.Freshness
import ImageBrowser.Proofs.Tree.Limits
import ImageBrowser.Proofs.Calls.Compiling
import ImageBrowser.Proofs.Tools.Notices
import ImageBrowser.Proofs.Tools.GeneratedIds
import ImageBrowser.Proofs.Tree.FailedQueries
import ImageBrowser.Proofs.Records.Lines
import ImageBrowser.Proofs.Records.Rows
import ImageBrowser.Proofs.Cache.Categories
import ImageBrowser.Proofs.Calls.Searching
import ImageBrowser.Proofs.Tree.Methods
import ImageBrowser.Proofs.Tree.CategoryRows
import ImageBrowser.Proofs.Tree.Lineage
import ImageBrowser.Proofs.Sessions.LastNotices
import ImageBrowser.Proofs.Tree.NodeFields
import ImageBrowser.Proofs.Calls.QueriesInTurn
import ImageBrowser.Proofs.Sessions.Subscriptions
