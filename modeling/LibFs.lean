import LibFs.Foundation.Run
import LibFs.Foundation.Slots
import LibFs.Foundation.Bytes
import LibFs.Foundation.Chain
import LibFs.Foundation.Handles
import LibFs.Foundation.Fields
import LibFs.Foundation.Program
import LibFs.Foundation.Serve
import LibFs.Foundation.Register
import LibFs.Model.CString
import LibFs.Model.Types
import LibFs.Model.RootDir
import LibFs.Model.Disk
import LibFs.Model.Mount
import LibFs.Model.Directory
import LibFs.Model.Descriptors
import LibFs.Model.Api
import LibFs.Model.Effects
import LibFs.Model.Script
import LibFs.Model.Drivers
import LibFs.Model.Serve
import LibFs.Directory.Uniqueness
import LibFs.Directory.Blocks
import LibFs.Directory.Deletion
import LibFs.Directory.FreeSlots
import LibFs.Directory.Recreation
import LibFs.Directory.Sessions
import LibFs.Descriptors.Allocation
import LibFs.Descriptors.Reclaim
import LibFs.Descriptors.Linked
import LibFs.Disk.BlockArray
import LibFs.Disk.HostFds
import LibFs.Disk.Writes
import LibFs.Contracts.Descriptors
import LibFs.Contracts.Names
import LibFs.Mounting.Transfers
import LibFs.Mounting.RoundTrip
import LibFs.Mounting.Persistence
import LibFs.Mounting.Failure
import LibFs.Mounting.Guard
import LibFs.Mounting.Lifetime
import LibFs.Mounting.Superblock
import LibFs.Mounting.FatLoad
import LibFs.Mounting.IoErrors
import LibFs.Mounting.Metadata
import LibFs.Mounting.Settling
import LibFs.Directory.OnDisk
import LibFs.Mounting.Alternation
import LibFs.Descriptors.Offsets
import LibFs.Directory.Untrusted
import LibFs.Contracts.Clients
import LibFs.Contracts.Observed
import LibFs.Apps.Parsing
import LibFs.Apps.ReadCheck
import LibFs.Apps.Unmounting
import LibFs.Apps.Served
import LibFs.Apps.Commands
import LibFs.Apps.Outcomes
import LibFs.Apps.TestFs
import LibFs.Apps.Editing
import LibFs.Apps.Scripts
import LibFs.Apps.Testers
