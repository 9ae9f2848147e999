import ImageFS.FileSystem.Call
import ImageFS.Host.Drive
import ImageFS.Kernel.Request
import ImageFS.Main
import ImageFS.Proofs.Chain.ExactSizes
import ImageFS.Proofs.Chain.Reading
import ImageFS.Proofs.Chain.UnseenGrowth
import ImageFS.Proofs.Directory.Rows
import ImageFS.Proofs.FileSystem.Enumeration
import ImageFS.Proofs.FileSystem.FailedGrowth
import ImageFS.Proofs.FileSystem.FailedLink
import ImageFS.Proofs.FileSystem.Failure
import ImageFS.Proofs.FileSystem.FaultyDevice
import ImageFS.Proofs.FileSystem.FileContents
import ImageFS.Proofs.FileSystem.Freshness
import ImageFS.Proofs.FileSystem.Geometry
import ImageFS.Proofs.FileSystem.ImageMap
import ImageFS.Proofs.FileSystem.LooseChains
import ImageFS.Proofs.FileSystem.MountGeometry
import ImageFS.Proofs.FileSystem.MountedVolumes
import ImageFS.Proofs.FileSystem.NameOperations
import ImageFS.Proofs.FileSystem.Namespace
import ImageFS.Proofs.FileSystem.Ownership
import ImageFS.Proofs.FileSystem.Persistence
import ImageFS.Proofs.FileSystem.Population
import ImageFS.Proofs.FileSystem.Reclaiming
import ImageFS.Proofs.FileSystem.SectorSize
import ImageFS.Proofs.FileSystem.Symlinks
import ImageFS.Proofs.Kernel.Requests
import ImageFS.Proofs.Record.EntryRoundTrip
import ImageFS.Proofs.Record.RoundTrip
import ImageFS.Proofs.Volume.FreeSet
