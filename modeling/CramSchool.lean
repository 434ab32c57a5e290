import CramSchool.Binary.Records
import CramSchool.Json.Records
import CramSchool.Session.Operation
import CramSchool.Proofs.Session.Run
import CramSchool.Proofs.Stats.Bounds
import CramSchool.Proofs.Session.Sound
import CramSchool.Proofs.Effect.Play
import CramSchool.Proofs.Effect.History
import CramSchool.Proofs.Session.InRange
import CramSchool.Proofs.Session.Listing
import CramSchool.Proofs.Session.Memory
import CramSchool.Proofs.Binary.RoundTrip
import CramSchool.Proofs.Session.Resume
import CramSchool.Proofs.Effect.Phrase
import CramSchool.Proofs.Effect.Wording
import CramSchool.Proofs.Effect.RoundTrip
import CramSchool.Proofs.Binary.Canonical
import CramSchool.Proofs.Session.Step
import CramSchool.Proofs.Session.Game
import CramSchool.Proofs.Pile.Conserved
import CramSchool.Proofs.Session.Cards
import CramSchool.Proofs.Session.Offers
import CramSchool.Proofs.Effect.Gates
import CramSchool.Proofs.Effect.Shares
import CramSchool.Proofs.Session.Orderly
import CramSchool.Proofs.Session.Progress
import CramSchool.Proofs.Session.Account
import CramSchool.Proofs.Session.HandSize
import CramSchool.Proofs.Session.Provenance
import CramSchool.Proofs.Session.Restart
import CramSchool.Proofs.Effect.Firing
import CramSchool.Proofs.Effect.Totals
import CramSchool.Proofs.Effect.Advice
import CramSchool.Proofs.Pile.Origin
import CramSchool.Proofs.Session.Selection
import CramSchool.Proofs.Session.Deletion
import CramSchool.Proofs.Effect.Spans
import CramSchool.Proofs.Effect.WellFormed
import CramSchool.Proofs.Stats.Clamped
import CramSchool.Proofs.Text.Grammar
import CramSchool.Proofs.Effect.Occurrences
import CramSchool.Proofs.Effect.Classification
import CramSchool.Proofs.Catalog
import CramSchool.Proofs.Text.Offset
import CramSchool.Proofs.Effect.Scan
import CramSchool.Proofs.Effect.ScanSpans
import CramSchool.Proofs.Effect.Numbers
import CramSchool.Proofs.Json.Lossless
