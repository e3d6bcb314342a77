import Initos.Lib.Interact
import Initos.Lib.Static
import Initos.Lib.Total
import Initos.Lib.Device
import Initos.Lib.Bytes
import Initos.Lib.Marshal
import Initos.Lib.Text
import Initos.Lib.UnixPath
import Initos.Lib.UnixFs
import Initos.Lib.UnixWalk
import Initos.Lib.LiveFs
import Initos.Lib.Script
import Initos.Lib.Pool
import Initos.Lib.Completion
import Initos.Lib.GuardedStore
import Initos.Sys
import Initos.Crates
import Initos.Efi.SigList
import Initos.Efi.Format
import Initos.Efi.Vars
import Initos.Efi.BootEntry
import Initos.Efi.LoadOption
import Initos.Verify
import Initos.Verify.Exact
import Initos.Mount
import Initos.Mount.BootDisk
import Initos.Mount.Partitions
import Initos.Tpm2.Wire
import Initos.Tpm2.Exchange
import Initos.Tpm2.Transact
import Initos.Tpm2.Grammar
import Initos.Tpm2.Semantics
import Initos.Tpm2.Session
import Initos.Tpm2.Replies
import Initos.Tpm2.Encoding
import Initos.Seal.Command
import Initos.Seal.Handle
import Initos.Seal.Run
import Initos.Seal.RoundTrip
import Initos.Seal.Persistence
import Initos.Seal.Secret
import Initos.Seal.Tool
import Initos.Seal.Vault
import Initos.Upgrade.Install
import Initos.Upgrade.Moments
import Initos.Upgrade.Recovery
import Initos.Firmware.Scripts
import Initos.Firmware.Store
import Initos.Firmware.FetchSteps
import Initos.Firmware.ImportSteps
import Initos.Firmware.Runs
import Initos.Firmware.Complete
import Initos.Sidecar.ModuleSignature
import Initos.Sidecar.Signing
import Initos.Loader.Uefi
import Initos.Loader.Verify
import Initos.Loader.Main
import Initos.Loader.Safety
import Initos.Loader.Handover
import Initos.Boot.Mode
import Initos.Boot.DataDevice
import Initos.Boot.Search
import Initos.Boot.Unlock
import Initos.Boot.UnlockRun
import Initos.Boot.UnlockProtocol
import Initos.Boot.AntiReplay
import Initos.Boot.Images
import Initos.Boot.Run
import Initos.Boot.Frame
import Initos.Boot.Guard
import Initos.Boot.Slots
import Initos.Boot.Root
import Initos.Boot.RootPath
import Initos.Boot.Init
import Initos.Agreement.Db
import Initos.Agreement.Signer
import Initos.Agreement.SignatureName
import Initos.Agreement.Mode
import Initos.Agreement.Key
import Initos.Agreement.Unattended
import Initos.Agreement.Served
import Initos.Agreement.SignedBoot
import Initos.Agreement.SignedImage
