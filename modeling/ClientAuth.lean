import ClientAuth.Json.Value
import ClientAuth.Session.Basic
import ClientAuth.Vault.Directory
import ClientAuth.Proofs.Interleaving.SingleFlight
import ClientAuth.Proofs.Interleaving.Finality
import ClientAuth.Proofs.Interleaving.Enrolling
import ClientAuth.Proofs.Interleaving.Polling
import ClientAuth.Proofs.Interleaving.Restarts
import ClientAuth.Proofs.Interleaving.Succession
import ClientAuth.Proofs.Subject
import ClientAuth.Proofs.Encoding.Opening
import ClientAuth.Proofs.Interleaving.Observers
import ClientAuth.Proofs.Interleaving.Failures
import ClientAuth.Proofs.Interleaving.Provenance
import ClientAuth.Proofs.Encoding.Canonical
import ClientAuth.Proofs.Encoding.Envelope
import ClientAuth.Proofs.Store.Documents
import ClientAuth.Proofs.Store.Rekeying
import ClientAuth.Proofs.Store.FileNames
import ClientAuth.Proofs.Store.Filing
import ClientAuth.Proofs.Store.AtomicMap
import ClientAuth.Proofs.Store.Migration
import ClientAuth.Proofs.Interleaving.Repetition
import ClientAuth.Proofs.Encoding.CertificateText
import ClientAuth.Proofs.Encoding.WireTypes
import ClientAuth.Proofs.Requests
import ClientAuth.Proofs.ValidityWindow
import ClientAuth.Proofs.Interleaving.Healing
import ClientAuth.Proofs.Interleaving.Damage
import ClientAuth.Proofs.Subject.Selection
import ClientAuth.Proofs.Subject.Order
import ClientAuth.Proofs.Subject.Keys
import ClientAuth.Proofs.Encoding.LegacyKey
import ClientAuth.Proofs.Encoding.KeySizes
import ClientAuth.Proofs.Interleaving.Draws
import ClientAuth.Proofs.Challenges
import ClientAuth.Proofs.Rendering
import ClientAuth.Proofs.RootCauses
