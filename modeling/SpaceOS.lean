import SpaceOS.Lib.Bytes
import SpaceOS.Lib.ByteString
import SpaceOS.Lib.BlockList
import SpaceOS.Lib.Bitmap
import SpaceOS.Lib.BlockProg
import SpaceOS.Lib.BlockCrash
import SpaceOS.Lib.BlockTrace
import SpaceOS.Lib.BlockWp
import SpaceOS.Lib.Ownership
import SpaceOS.Lib.RingQueue
import SpaceOS.Lib.LinkedList
import SpaceOS.Lib.Chunks
import SpaceOS.Kheap
import SpaceOS.KheapLaws
import SpaceOS.KheapRequests
import SpaceOS.Pmm
import SpaceOS.PmmLaws
import SpaceOS.PmmRelease
import SpaceOS.PmmCount
import SpaceOS.Slab
import SpaceOS.SlabLaws
import SpaceOS.SlabSizes
import SpaceOS.Proc
import SpaceOS.ProcLaws
import SpaceOS.Ata
import SpaceOS.Journal
import SpaceOS.JournalFaults
import SpaceOS.JournalLaws
import SpaceOS.JournalReplay
import SpaceOS.SpaceFs
import SpaceOS.SpaceFsMount
import SpaceOS.SpaceFsVolume
import SpaceOS.SpaceFsRefine
import SpaceOS.SpaceFsOwnership
import SpaceOS.SpaceFsCoherence
import SpaceOS.SpaceFsNames
import SpaceOS.SpaceFsRun
import SpaceOS.SpaceFsFormat
import SpaceOS.SpaceFsLaws
import SpaceOS.SpaceFsReadBack
import SpaceOS.SpaceFsLookups
import SpaceOS.SpaceFsAccounting
import SpaceOS.SpaceFsFailures
import SpaceOS.SpaceFsTree
import SpaceOS.SpaceFsIsolation
import SpaceOS.SpaceFsReboot
import SpaceOS.SpaceFsCuts
import SpaceOS.SpaceFsCrash
import SpaceOS.Lib.Footprint
import SpaceOS.Net
import SpaceOS.Ipv4
import SpaceOS.Tcp
import SpaceOS.Stack
import SpaceOS.TcpRun
import SpaceOS.TcpLaws
import SpaceOS.FrameReads
import SpaceOS.FramePadding
import SpaceOS.IpSendLaws
import SpaceOS.Rtl8139
import SpaceOS.Rtl8139Laws
import SpaceOS.Netbuf
import SpaceOS.NetbufLaws
import SpaceOS.Lib.LastWrite
import SpaceOS.Lib.CString
import SpaceOS.Dhcp
import SpaceOS.DhcpLaws
import SpaceOS.DhcpOptions
import SpaceOS.ArpCache
import SpaceOS.UdpBindings
import SpaceOS.PkgRemote
import SpaceOS.HttpBody
import SpaceOS.RepoHost
import SpaceOS.SpkSlices
import SpaceOS.Lib.Layout
import SpaceOS.Spk
import SpaceOS.SpkLaws
import SpaceOS.Lib.Undo
import SpaceOS.PkgDb
import SpaceOS.PkgDbLaws
import SpaceOS.PkgDbNames
import SpaceOS.PkgInstall
import SpaceOS.PkgInstallLaws
import SpaceOS.PkgRemoveLaws
import SpaceOS.PkgSolver
import SpaceOS.PkgSolverLaws
import SpaceOS.PkgPaths
import SpaceOS.Tls
import SpaceOS.TlsLaws
import SpaceOS.Lib.Links
import SpaceOS.Lib.Trail
import SpaceOS.Fat32
import SpaceOS.Fat32Volume
import SpaceOS.Fat32Objects
import SpaceOS.Fat32Clusters
import SpaceOS.Fat32Entries
import SpaceOS.Fat32Laws
import SpaceOS.Fat32Freeing
import SpaceOS.Fat32Init
import SpaceOS.Fat32Walks
import SpaceOS.Fat32Listing
import SpaceOS.Fat32Lookups
import SpaceOS.Fat32Faults
import SpaceOS.Fat32RoundTrip
import SpaceOS.Fat32Lost
import SpaceOS.Vfs
import SpaceOS.VfsLaws
import SpaceOS.VfsPaths
import SpaceOS.VfsCwd
import SpaceOS.VfsNames
import SpaceOS.VfsAppend
import SpaceOS.VfsOverwrite
import SpaceOS.Fat32Names
import SpaceOS.VfsListing
import SpaceOS.Lib.Words
import SpaceOS.ChaCha20
import SpaceOS.ChaCha20Laws
import SpaceOS.Poly1305
import SpaceOS.Poly1305Laws
import SpaceOS.Sha256
import SpaceOS.Sha256Laws
import SpaceOS.Lib.HashChain
import SpaceOS.Audit
import SpaceOS.AuditLaws
import SpaceOS.AuditDump
import SpaceOS.TcpIsolation
import SpaceOS.Rtl8139Ring
import SpaceOS.Rtl8139RingLaws
import SpaceOS.SpaceFsUnique
import SpaceOS.Checksums
import SpaceOS.StackRule
import SpaceOS.TcpConnections
import SpaceOS.Aead
import SpaceOS.TlsChannel
import SpaceOS.DnsLaws
import SpaceOS.DnsNames
import SpaceOS.DnsReads
import SpaceOS.TcpSend
import SpaceOS.PagingLaws
import SpaceOS.PagingFrame
import SpaceOS.SpaceFsIndexLaws
import SpaceOS.Lib.Recents
import SpaceOS.Shell
import SpaceOS.ShellLaws
import SpaceOS.UsbHid
import SpaceOS.Pci
import SpaceOS.PciLaws
import SpaceOS.Lib.Polling
import SpaceOS.AtaPorts
import SpaceOS.Ahci
import SpaceOS.Polls
import SpaceOS.SectorCommands
import SpaceOS.PagingRights
import SpaceOS.SchedQuota
import SpaceOS.ProcExec
import SpaceOS.Acpi
import SpaceOS.AcpiLaws
import SpaceOS.Lib.Lines
import SpaceOS.Lib.Text
import SpaceOS.PkgSearch
import SpaceOS.ShellParser
import SpaceOS.Lib.Screen
import SpaceOS.Console
import SpaceOS.ConsoleLaws
import SpaceOS.Lib.Rounds
import SpaceOS.ProcTable
import SpaceOS.SchedTurns
import SpaceOS.KheapArrays
import SpaceOS.ProcFork
import SpaceOS.Lib.Mailbox
import SpaceOS.Teclado
import SpaceOS.ShellSession
import SpaceOS.Lib.SpinLock
import SpaceOS.SchedLock
import SpaceOS.Hda
import SpaceOS.SpaceFsPowerCut
import SpaceOS.VfsSizes
import SpaceOS.SecBoot
import SpaceOS.SecBootLaws
import SpaceOS.Datagrams
import SpaceOS.VfsIsolation
