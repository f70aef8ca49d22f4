import CapyOS.Proofs.FsckRepair
import CapyOS.Proofs.VfsTree
import CapyOS.Proofs.SlotImages
import CapyOS.Proofs.Kmem
import CapyOS.Proofs.Rekey
import CapyOS.Proofs.Worker
import CapyOS.Proofs.ProcessWait
import CapyOS.Proofs.CapypkgPayload
import CapyOS.Proofs.Descriptors
import CapyOS.Proofs.SocketOwners
import CapyOS.Proofs.SocketStream
import CapyOS.Proofs.CapyaiAsync
import CapyOS.Proofs.ServiceManager
import CapyOS.Proofs.Capyai
import CapyOS.Proofs.UpdateApply
import CapyOS.Proofs.Ed25519
import CapyOS.Proofs.DnsCache
import CapyOS.Proofs.AuthPolicy
import CapyOS.Proofs.HttpCookies
import CapyOS.Proofs.ChaCha20Poly1305
import CapyOS.Proofs.UserDb
import CapyOS.Proofs.CapyfsCheck
import CapyOS.Proofs.LinuxTmpfs
import CapyOS.Proofs.BufferFaults
import CapyOS.Proofs.FsckGeometry
import CapyOS.Proofs.JournalTermination
import CapyOS.Proofs.JournalSequences
import CapyOS.Proofs.JournalPartial
import CapyOS.Proofs.FileContents
import CapyOS.Proofs.VfsRecursive
import CapyOS.Proofs.BlockWrappers
import CapyOS.Proofs.BootWriter
import CapyOS.Proofs.GptIdentity
import CapyOS.Proofs.SlotRoundTrip
import CapyOS.Proofs.VolumeCodec
import CapyOS.Proofs.ElfLoader
import CapyOS.Proofs.AddressClone
import CapyOS.Proofs.Fat32Volume
import CapyOS.Proofs.CapypkgSegments
import CapyOS.Proofs.CapypkgDescriptor
import CapyOS.Proofs.CapypkgFlags
import CapyOS.Proofs.Pipe
import CapyOS.Proofs.Klog
import CapyOS.Proofs.InstallProfileText
import CapyOS.Proofs.UpdateCache
import CapyOS.Proofs.CapypkgBootstrap
import CapyOS.Proofs.ProcessExec
import CapyOS.Proofs.CookieHeader
import CapyOS.Proofs.Dns
import CapyOS.Proofs.Checksum
import CapyOS.Proofs.HttpChunked
import CapyOS.Proofs.VolumePrimitives
