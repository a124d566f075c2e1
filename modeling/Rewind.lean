import Rewind.Lib.Runs
import Rewind.Lib.Fallible
import Rewind.Lib.Bytes
import Rewind.Domain.Ids
import Rewind.Domain.Run
import Rewind.Domain.Snapshot
import Rewind.Domain.Manifest
import Rewind.Domain.Event
import Rewind.Lib.Table
import Rewind.Lib.FileTree
import Rewind.Lib.Journal
import Rewind.Store.Schema
import Rewind.Store.Events
import Rewind.Store.Snapshots
import Rewind.Store.Runs
import Rewind.Store.Objects
import Rewind.Store.ObjectFiles
import Rewind.Store.Writer
import Rewind.Store.Disk
import Rewind.Store.References
import Rewind.Store.Timeline
import Rewind.Store.Completion
import Rewind.Store.Lifecycle
import Rewind.Capture.Recorder
import Rewind.Capture.Methods
import Rewind.Capture.Sequence
import Rewind.Capture.Finalization
import Rewind.Platform.Filesystem
import Rewind.Lib.PathText
import Rewind.Snapshot.Restore
import Rewind.Snapshot.Staging
import Rewind.Platform.Removal
import Rewind.Snapshot.Atomic
import Rewind.Snapshot.Overwrite
import Rewind.Capture.Dirty
import Rewind.Capture.Effects
import Rewind.Capture.Marker
import Rewind.Capture.FinalSnapshot
import Rewind.Capture.Quota
import Rewind.Capture.Output
import Rewind.Lib.LinkedFiles
import Rewind.Store.Publication
import Rewind.Store.Bundle
import Rewind.Store.BundleCodec
import Rewind.Lib.Paging
import Rewind.Lib.SortedMap
import Rewind.Snapshot.Diff
import Rewind.Store.Queries
import Rewind.Cli.Export
import Rewind.Cli.Redaction
import Rewind.Lib.Forest
import Rewind.Store.Ancestry
import Rewind.Store.Recovery
import Rewind.Store.Persistence
import Rewind.Tui.Terminal
import Rewind.Cli.Artifacts
import Rewind.Tui.Model
import Rewind.Tui.Processes
import Rewind.Platform.RemoveDirAll
import Rewind.Platform.Clone
import Rewind.Capture.Input
import Rewind.Platform.Inodes
import Rewind.Platform.Pinned
import Rewind.Snapshot.RoundTrip
import Rewind.Snapshot.Scan
import Rewind.Snapshot.Scannable
import Rewind.Snapshot.Confinement
import Rewind.Platform.Visits
import Rewind.Snapshot.Findings
import Rewind.Snapshot.Exploration
import Rewind.Snapshot.Exactness
import Rewind.Snapshot.Consistency
import Rewind.Domain.Comparison
import Rewind.Cli.Compare
import Rewind.Lib.Chunks
import Rewind.Snapshot.CaseFold
import Rewind.Store.ObjectReaders
import Rewind.Store.TimelinePages
import Rewind.Tui.Navigation
import Rewind.Lib.LruCache
import Rewind.Tui.TerminalPane
import Rewind.Platform.CloneTree
import Rewind.Snapshot.Cloned
import Rewind.Platform.Pruning
import Rewind.Capture.Retention
import Rewind.Domain.Spellings
import Rewind.Store.Evidence
import Rewind.Capture.Shutdown
import Rewind.Capture.ProcessEvents
import Rewind.Capture.Framing
import Rewind.Cli.Resolve
import Rewind.Lib.Rows
import Rewind.Snapshot.Glob
import Rewind.Tui.TerminalBytes
import Rewind.Lib.Hunks
import Rewind.Tui.Preview
import Rewind.Cli.BundleExport
import Rewind.Snapshot.RelativePaths
import Rewind.Lib.JsonReader
import Rewind.Lib.Replace
import Rewind.Cli.ScriptJson
import Rewind.Domain.TextCodecs
import Rewind.Capture.ProcessTree
import Rewind.Capture.DirtyWalk
import Rewind.Store.Maintenance
import Rewind.Cli.Collect
import Rewind.Cli.Sweep
import Rewind.Lib.Plan
import Rewind.Platform.Planned
import Rewind.Snapshot.Blueprint
import Rewind.Snapshot.Materialized
import Rewind.Snapshot.Restorable
import Rewind.Lib.Exclusive
import Rewind.Store.Exclusion
import Rewind.Store.Availability
import Rewind.Store.LockDiagnostics
