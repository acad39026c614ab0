import OncWire.Message.Receive
import OncWire.Proofs.Canonical
import OncWire.Proofs.Locality
import OncWire.Proofs.RoundTrip
import OncWire.Proofs.Truncation
import OncWire.Samples
import OncWire.Session
import OncWire.Proofs.Envelope
import OncWire.Proofs.CallHeader
import OncWire.Proofs.Tightening
import OncWire.Proofs.Charge
import OncWire.Proofs.Sessions
import OncWire.Proofs.Layout
import OncWire.Proofs.SystemCredential
import OncWire.Proofs.Units
import OncWire.Proofs.Entries
import OncWire.Proofs.PaddingNoise
import OncWire.Proofs.RefusedWords
import OncWire.Proofs.ReplyHeader
import OncWire.Proofs.Alternatives
import OncWire.Proofs.Acknowledgement
import OncWire.Proofs.DeclaredCount
import OncWire.Proofs.Reporting
import OncWire.Proofs.NormalForm
import OncWire.Proofs.InMemory
