import FirmwareUpdate.Action
import FirmwareUpdate.Boot.EntryPoint
import FirmwareUpdate.Boot.Phase
import FirmwareUpdate.Boot.Run
import FirmwareUpdate.Boot.Work
import FirmwareUpdate.Bytes
import FirmwareUpdate.Bytes.Span
import FirmwareUpdate.Bytes.Word
import FirmwareUpdate.Cipher.Aes
import FirmwareUpdate.Cipher.Aes.Block
import FirmwareUpdate.Cipher.Aes.Substitution
import FirmwareUpdate.Cipher.Cbc
import FirmwareUpdate.Cipher.Error
import FirmwareUpdate.Cipher.Key
import FirmwareUpdate.Device.Error
import FirmwareUpdate.Device.FileLink
import FirmwareUpdate.Device.FileStore
import FirmwareUpdate.Device.Flash
import FirmwareUpdate.Device.FlashLink
import FirmwareUpdate.Device.Geometry
import FirmwareUpdate.Device.Link
import FirmwareUpdate.Digest.Crc32
import FirmwareUpdate.Digest.Hasher
import FirmwareUpdate.Digest.Keccak
import FirmwareUpdate.Digest.Sha3
import FirmwareUpdate.Error
import FirmwareUpdate.Image.Encode
import FirmwareUpdate.Image.Header
import FirmwareUpdate.Image.Layout
import FirmwareUpdate.Log
import FirmwareUpdate.Proofs.Action
import FirmwareUpdate.Proofs.Boot.Addresses
import FirmwareUpdate.Proofs.Boot.Admission
import FirmwareUpdate.Proofs.Boot.Along
import FirmwareUpdate.Proofs.Boot.Bounded
import FirmwareUpdate.Proofs.Boot.EntryPoint
import FirmwareUpdate.Proofs.Boot.Fallback
import FirmwareUpdate.Proofs.Boot.Frame
import FirmwareUpdate.Proofs.Boot.HandOver
import FirmwareUpdate.Proofs.Boot.Intact
import FirmwareUpdate.Proofs.Boot.Recovery
import FirmwareUpdate.Proofs.Boot.Restoring
import FirmwareUpdate.Proofs.Boot.Route
import FirmwareUpdate.Proofs.Boot.Run
import FirmwareUpdate.Proofs.Boot.Stable
import FirmwareUpdate.Proofs.Boot.Topology
import FirmwareUpdate.Proofs.Boot.Unloaded
import FirmwareUpdate.Proofs.Boot.VectorTable
import FirmwareUpdate.Proofs.Boot.Work
import FirmwareUpdate.Proofs.Bytes
import FirmwareUpdate.Proofs.Bytes.Pieces
import FirmwareUpdate.Proofs.Bytes.Span
import FirmwareUpdate.Proofs.Bytes.Word
import FirmwareUpdate.Proofs.Cipher.Aes
import FirmwareUpdate.Proofs.Cipher.Cbc
import FirmwareUpdate.Proofs.Cipher.Sessions
import FirmwareUpdate.Proofs.Device.FileSessions
import FirmwareUpdate.Proofs.Device.FileStore
import FirmwareUpdate.Proofs.Device.Flash
import FirmwareUpdate.Proofs.Device.FlashSessions
import FirmwareUpdate.Proofs.Device.Handles
import FirmwareUpdate.Proofs.Device.Link
import FirmwareUpdate.Proofs.Device.Polling
import FirmwareUpdate.Proofs.Device.Ready
import FirmwareUpdate.Proofs.Device.Resting
import FirmwareUpdate.Proofs.Digest.Crc32
import FirmwareUpdate.Proofs.Digest.Hasher
import FirmwareUpdate.Proofs.Digest.Sessions
import FirmwareUpdate.Proofs.Image.Encode
import FirmwareUpdate.Proofs.Image.Header
import FirmwareUpdate.Proofs.Log.Message
import FirmwareUpdate.Proofs.Log.Retention
import FirmwareUpdate.Proofs.Storage.Cleanup
import FirmwareUpdate.Proofs.Storage.Coalescing
import FirmwareUpdate.Proofs.Storage.Copying
import FirmwareUpdate.Proofs.Storage.Erasing
import FirmwareUpdate.Proofs.Storage.Filling
import FirmwareUpdate.Proofs.Storage.Frame
import FirmwareUpdate.Proofs.Storage.Handles
import FirmwareUpdate.Proofs.Storage.Isolation
import FirmwareUpdate.Proofs.Storage.OpenFiles
import FirmwareUpdate.Proofs.Storage.Patching
import FirmwareUpdate.Proofs.Storage.Pausing
import FirmwareUpdate.Proofs.Storage.Places
import FirmwareUpdate.Proofs.Storage.Polling
import FirmwareUpdate.Proofs.Storage.Positions
import FirmwareUpdate.Proofs.Storage.Reading
import FirmwareUpdate.Proofs.Storage.Records
import FirmwareUpdate.Proofs.Storage.Refusing
import FirmwareUpdate.Proofs.Storage.Settling
import FirmwareUpdate.Proofs.Storage.Tending
import FirmwareUpdate.Proofs.Storage.Total
import FirmwareUpdate.Proofs.Storage.Track
import FirmwareUpdate.Proofs.Storage.Unasked
import FirmwareUpdate.Proofs.Storage.Upkeep
import FirmwareUpdate.Proofs.Storage.Writable
import FirmwareUpdate.Proofs.Storage.Writing
import FirmwareUpdate.Proofs.Topology.Memory
import FirmwareUpdate.Proofs.Topology.Plan
import FirmwareUpdate.Proofs.Topology.Registration
import FirmwareUpdate.Proofs.Update.Assembly
import FirmwareUpdate.Proofs.Update.Chaining
import FirmwareUpdate.Proofs.Update.Choice
import FirmwareUpdate.Proofs.Update.Engine
import FirmwareUpdate.Proofs.Update.Examine
import FirmwareUpdate.Proofs.Update.Frame
import FirmwareUpdate.Proofs.Update.Install
import FirmwareUpdate.Proofs.Update.Installed
import FirmwareUpdate.Proofs.Update.Lineage
import FirmwareUpdate.Proofs.Update.PlainImage
import FirmwareUpdate.Proofs.Update.Recovery
import FirmwareUpdate.Proofs.Update.Refusal
import FirmwareUpdate.Proofs.Update.RoundTrip
import FirmwareUpdate.Proofs.Update.Selection
import FirmwareUpdate.Proofs.Update.Streaming
import FirmwareUpdate.Proofs.Update.Tampering
import FirmwareUpdate.Proofs.Update.UpToDate
import FirmwareUpdate.Proofs.Update.Validity
import FirmwareUpdate.Proofs.Update.Verdict
import FirmwareUpdate.Proofs.Version
import FirmwareUpdate.Storage.Access
import FirmwareUpdate.Storage.Buffer
import FirmwareUpdate.Storage.Release
import FirmwareUpdate.Storage.State
import FirmwareUpdate.Text.Numeral
import FirmwareUpdate.Topology.Content
import FirmwareUpdate.Topology.Memory
import FirmwareUpdate.Topology.Plan
import FirmwareUpdate.Topology.SlotId
import FirmwareUpdate.Update.Assembly
import FirmwareUpdate.Update.Choice
import FirmwareUpdate.Update.Engine
import FirmwareUpdate.Update.Examine
import FirmwareUpdate.Update.Install
import FirmwareUpdate.Version
