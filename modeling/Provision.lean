import Provision.Asset.Folder
import Provision.Blob.Memory
import Provision.Installer
import Provision.Rehearsal.Cluster
import Provision.Rehearsal.Faults
import Provision.Rehearsal.Script
import Provision.Proofs.Resolution.Circle
import Provision.Proofs.Resolution.Clash
import Provision.Proofs.Resolution.History
import Provision.Proofs.Resolution.Integrity
import Provision.Proofs.Resolution.Meaning
import Provision.Proofs.Resolution.Order
import Provision.Proofs.Resolution.Resumption
import Provision.Proofs.Asset.Lossless
import Provision.Proofs.Blob.Agreement
import Provision.Proofs.Blob.Atomicity
import Provision.Proofs.Blob.Findings
import Provision.Proofs.Blob.Interleaving
import Provision.Proofs.Blob.Sparing
import Provision.Proofs.Vault.Authenticity
import Provision.Proofs.Vault.Clients
import Provision.Proofs.Vault.Payload
import Provision.Proofs.Vault.Roles
import Provision.Proofs.Vault.Saving
import Provision.Proofs.Vault.Secrecy
import Provision.Proofs.Vault.Separation
import Provision.Proofs.Vault.Slots
import Provision.Proofs.Pipeline.Cancellation
import Provision.Proofs.Pipeline.Course
import Provision.Proofs.Pipeline.Expiry
import Provision.Proofs.Pipeline.Polling
import Provision.Proofs.Pipeline.Protocol
import Provision.Proofs.Pipeline.Renewal
import Provision.Proofs.Installer.Persisting
import Provision.Proofs.Cipher.Opening
import Provision.Proofs.Settings.Overlay
import Provision.Proofs.Cipher.Base64
import Provision.Proofs.Blob.Paths
import Provision.Proofs.Cipher.Key
import Provision.Proofs.Asset.Fetching
import Provision.Proofs.Asset.Selection
