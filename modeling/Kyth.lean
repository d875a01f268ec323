import Kyth.Accounts.Append
import Kyth.AtomicIo.Replace
import Kyth.AtomicIo.Steps
import Kyth.Backup.Config
import Kyth.Backup.ConfigText
import Kyth.Backup.Mounts
import Kyth.BootHealth.Codec
import Kyth.BootHealth.Concurrent
import Kyth.BootHealth.Coordinator
import Kyth.BootHealth.Rollback
import Kyth.BootHealth.Serial
import Kyth.BootHealth.State
import Kyth.BootHealth.Tally
import Kyth.BootLoader.Conf
import Kyth.BootLoader.Toggles
import Kyth.Fetch.Archive
import Kyth.Fetch.Checksum
import Kyth.Fetch.Cleanup
import Kyth.Fetch.ClearSigned
import Kyth.Gaming.Kargs
import Kyth.Guardian.Cooldown
import Kyth.Guardian.Execution
import Kyth.Guardian.Executor
import Kyth.Guardian.History
import Kyth.Guardian.Refresh
import Kyth.Guardian.Reported
import Kyth.Guardian.Sessions
import Kyth.Guardian.State
import Kyth.Hardware.Expiry
import Kyth.Hardware.Policy
import Kyth.Hardware.Selection
import Kyth.Installer.Accepted
import Kyth.Installer.Agreement
import Kyth.Installer.Bootc
import Kyth.Installer.Commit
import Kyth.Installer.CommitRun
import Kyth.Installer.Confinement
import Kyth.Installer.Disk
import Kyth.Installer.DurableJournal
import Kyth.Installer.EventReplay
import Kyth.Installer.EventStream
import Kyth.Installer.FreeRegions
import Kyth.Installer.Frozen
import Kyth.Installer.Fstab
import Kyth.Installer.Groups
import Kyth.Installer.Guard
import Kyth.Installer.Identities
import Kyth.Installer.Job
import Kyth.Installer.JobEvents
import Kyth.Installer.JobRegistry
import Kyth.Installer.Journal
import Kyth.Installer.JournalBytes
import Kyth.Installer.JournalLaw
import Kyth.Installer.JournalLimit
import Kyth.Installer.KernelNames
import Kyth.Installer.Layout
import Kyth.Installer.Manual
import Kyth.Installer.ManualApply
import Kyth.Installer.ManualMounts
import Kyth.Installer.Mounts
import Kyth.Installer.NewPartition
import Kyth.Installer.Offer
import Kyth.Installer.Overlap
import Kyth.Installer.Partitions
import Kyth.Installer.Plan
import Kyth.Installer.Power
import Kyth.Installer.Readback
import Kyth.Installer.ReservedEnds
import Kyth.Installer.ResumeWindow
import Kyth.Installer.Reversible
import Kyth.Installer.RoundTrip
import Kyth.Installer.SecondShrink
import Kyth.Installer.Shape
import Kyth.Installer.ShrinkGeometry
import Kyth.Installer.ShrinkRecord
import Kyth.Installer.Staging
import Kyth.Installer.Start
import Kyth.Installer.StartPlan
import Kyth.Installer.Storage
import Kyth.Installer.StoragePhase
import Kyth.Installer.StorageRun
import Kyth.Installer.Stream
import Kyth.Installer.StreamBounds
import Kyth.Installer.Supervision
import Kyth.Installer.TableRestore
import Kyth.Installer.TargetChoice
import Kyth.Installer.Transaction
import Kyth.Installer.TransactionRun
import Kyth.Jobs.Run
import Kyth.Jobs.Store
import Kyth.Jobs.Workers
import Kyth.Lib.Action
import Kyth.Lib.Binary64
import Kyth.Lib.Boundary
import Kyth.Lib.ByteLines
import Kyth.Lib.ByteText
import Kyth.Lib.Chase
import Kyth.Lib.Check
import Kyth.Lib.Decimal
import Kyth.Lib.Edits
import Kyth.Lib.Faults
import Kyth.Lib.FileTree
import Kyth.Lib.Gaps
import Kyth.Lib.Glob
import Kyth.Lib.Gregorian
import Kyth.Lib.Interval
import Kyth.Lib.IpAddr
import Kyth.Lib.JoinedLines
import Kyth.Lib.Json
import Kyth.Lib.JsonText
import Kyth.Lib.Lineage
import Kyth.Lib.LockedFile
import Kyth.Lib.LockedRuns
import Kyth.Lib.Overflow
import Kyth.Lib.PathText
import Kyth.Lib.Pieces
import Kyth.Lib.Queued
import Kyth.Lib.Ratchet
import Kyth.Lib.Regex
import Kyth.Lib.Replace
import Kyth.Lib.Replay
import Kyth.Lib.Rows
import Kyth.Lib.Scan
import Kyth.Lib.Seam
import Kyth.Lib.Segments
import Kyth.Lib.Serde
import Kyth.Lib.SplitOnce
import Kyth.Lib.Str
import Kyth.Lib.TextLines
import Kyth.Lib.Toml
import Kyth.Lib.Trim
import Kyth.Lib.Uri
import Kyth.Lib.Utf8
import Kyth.Lib.Utf8Read
import Kyth.Lib.Utf8Text
import Kyth.Lib.Word
import Kyth.Privileged.Request
import Kyth.Probe.Cache
import Kyth.Probe.Runs
import Kyth.Probe.Updates
import Kyth.Redact.Fields
import Kyth.Redact.Hides
import Kyth.Redact.Line
import Kyth.Redact.Rewrite
import Kyth.Redact.Settle
import Kyth.Redact.Swallow
import Kyth.Sched.Daemon
import Kyth.Sched.GamemodePin
import Kyth.Sched.PinBlocks
import Kyth.Sched.PinSync
import Kyth.Scrub.Patterns
import Kyth.Share.Artifacts
import Kyth.Share.Request
import Kyth.Share.Validators
import Kyth.Telemetry.Ingest
import Kyth.Telemetry.Sessions
import Kyth.Transfer.Disk
import Kyth.Transfer.Export
import Kyth.Transfer.Paths
import Kyth.Transfer.Restore
import Kyth.Transfer.RoundTrip
import Kyth.Trust.Serial
import Kyth.Trust.Store
import Kyth.Upgrade.Checked
import Kyth.Upgrade.FragmentReader
import Kyth.Upgrade.ManifestIndex
import Kyth.Upgrade.Progress
import Kyth.Upgrade.Rings
import Kyth.Upgrade.StageRun
import Kyth.Upgrade.Status
import Kyth.Upgrade.Totals
import Kyth.Upgrade.Version
import Kyth.Upgrade.Writers
import Kyth.Vpn.Cookie
import Kyth.Vpn.Destination
import Kyth.Vpn.Saml
