import FileManager.Operations.Proofs.Decisions
import FileManager.Operations.Proofs.Events
import FileManager.Operations.Proofs.Pause
import FileManager.Renames.Proofs.Preview
import FileManager.Events.Proofs.Resume
import FileManager.Frontend.Proofs.Dispatch
import FileManager.Frontend.Proofs.Converges
import FileManager.Directory.Proofs.Newest
import FileManager.Directory.Proofs.Polls
import FileManager.Comparison.Proofs.Digests
import FileManager.Comparison.Proofs.Hidden
import FileManager.Comparison.Proofs.Apply
import FileManager.Search.Proofs.Completion
import FileManager.Archives.Proofs.Listing
import FileManager.Archives.Proofs.Limits
import FileManager.Checksums.Proofs.Scan
import FileManager.Server.Proofs.Pending
import FileManager.Settings.Proofs.Agreement
import FileManager.Settings.Proofs.Upgrade
import FileManager.Remote.Proofs.Replacements
import FileManager.Remote.Proofs.Retries
import FileManager.Ssh.Proofs.Sessions
import FileManager.Ssh.Proofs.Trust
import FileManager.Connections.Proofs.Secrets
import FileManager.Connections.Proofs.Statuses
import FileManager.Frontend.Proofs.Selection
import FileManager.Operations.Proofs.Warnings
import FileManager.Ssh.Proofs.KnownHosts
import FileManager.Remote.Proofs.Counts
import FileManager.Vcs.Proofs.Freshness
import FileManager.Directory.Proofs.Watches
import FileManager.Application.Proofs.Listing
import FileManager.Remote.Proofs.Polled
import FileManager.Transfers.Proofs.Movable
import FileManager.Transfers.Proofs.Duplicates
import FileManager.Transfers.Proofs.RenameOver
import FileManager.Transfers.Proofs.Deletions
import FileManager.Locations.Proofs.Native
import FileManager.Directory.Proofs.Failures
import FileManager.Frontend.Proofs.Directories
import FileManager.Workspaces.Proofs.Reports
import FileManager.Workspaces.Proofs.Browsing
import FileManager.Workspaces.Proofs.Names
import FileManager.Workspaces.Proofs.Migrated
import FileManager.Comparison.Proofs.Symmetric
import FileManager.Checksums.Proofs.File
import FileManager.Search.Proofs.Native
import FileManager.Search.Proofs.Matcher
import FileManager.Editor.Proofs.Leftovers
import FileManager.Local.Proofs.Rename
