import LanguageUsage.Main
import LanguageUsage.Proofs.Command.Session
import LanguageUsage.Proofs.Conversation.Newest
import LanguageUsage.Proofs.Ingest.Alike
import LanguageUsage.Proofs.Ingest.Capacity
import LanguageUsage.Proofs.Ingest.Counts
import LanguageUsage.Proofs.Ingest.History
import LanguageUsage.Proofs.Ingest.Idle
import LanguageUsage.Proofs.Ingest.Order
import LanguageUsage.Proofs.Ingest.Phases
import LanguageUsage.Proofs.Ingest.Recency
import LanguageUsage.Proofs.Ingest.Untimed
import LanguageUsage.Proofs.Language.Joining
import LanguageUsage.Proofs.Service.Agreement
import LanguageUsage.Proofs.Service.Failure
import LanguageUsage.Proofs.Service.Isolation
import LanguageUsage.Proofs.Service.Opening
import LanguageUsage.Proofs.Service.Remembering
import LanguageUsage.Proofs.Service.Reopening
import LanguageUsage.Proofs.Service.Requests
import LanguageUsage.Proofs.Service.Rounds
import LanguageUsage.Proofs.Store.Column
import LanguageUsage.Proofs.Store.Soundness
import LanguageUsage.Proofs.Usage.Frequent
import LanguageUsage.Proofs.Usage.Ranking
import LanguageUsage.Proofs.Number.Decimal
import LanguageUsage.Proofs.Number.Shortest
import LanguageUsage.Proofs.Document.Number
import LanguageUsage.Proofs.Document.Text
import LanguageUsage.Proofs.Document.RoundTrip
import LanguageUsage.Proofs.Settings.Given
import LanguageUsage.Proofs.Settings.Loading
import LanguageUsage.Proofs.Settings.RoundTrip
