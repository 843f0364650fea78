import Cheviot.Lib.Bytes
import Cheviot.Lib.Bits
import Cheviot.Lib.Forest
import Cheviot.Lib.Run
import Cheviot.Lib.Segments
import Cheviot.Lib.Scan
import Cheviot.Lib.Members
import Cheviot.Lib.Prog
import Cheviot.Ext2.Types
import Cheviot.Ext2.Superblock
import Cheviot.Ext2.Bitmap
import Cheviot.Ext2.InodeBits
import Cheviot.Ext2.BlockBits
import Cheviot.Ext2.InodeTable
import Cheviot.Ext2.Slots
import Cheviot.Ext2.Codec
import Cheviot.Ext2.InodeLists
import Cheviot.Ext2.InodeCache
import Cheviot.Ext2.BlockMap
import Cheviot.Ext2.NewBlock
import Cheviot.Ext2.Write
import Cheviot.Ext2.WriteSize
import Cheviot.Ext2.Dir
import Cheviot.Ext2.Readdir
import Cheviot.Ext2.NewInode
import Cheviot.Ext2.Groups
import Cheviot.Ext2.Ops
import Cheviot.Ext2.ListsSame
import Cheviot.Ext2.Trace
import Cheviot.Ext2.CacheRun
import Cheviot.Ext2.ReadOnly
import Cheviot.Ext2.Read
import Cheviot.Ifs.Read
import Cheviot.Ifs.Readdir
import Cheviot.Lib.Pages
import Cheviot.Lib.Log
import Cheviot.Ext2.Buffers
import Cheviot.Ext2.Balance
import Cheviot.Devfs.Table
import Cheviot.Fatfs.Search
import Cheviot.Fatfs.Sector
import Cheviot.Fatfs.Durable
import Cheviot.Fatfs.Disk
import Cheviot.Fatfs.Types
import Cheviot.Fatfs.Fat
import Cheviot.Fatfs.Fat32
import Cheviot.Fatfs.Node
import Cheviot.Fatfs.Cluster
import Cheviot.Fatfs.Dir
import Cheviot.Fatfs.Lookup
import Cheviot.Fatfs.File
import Cheviot.Fatfs.Data
import Cheviot.Fatfs.Append
import Cheviot.Fatfs.AppendNode
import Cheviot.Fatfs.Truncate
import Cheviot.Fatfs.Write
import Cheviot.Fatfs.Main
import Cheviot.Fatfs.References
import Cheviot.Ext2.Hosts
import Cheviot.Ext2.HostsAgree
import Cheviot.Ext2.DirBlock
import Cheviot.Ext2.WalkBounds
import Cheviot.Ext2.FileFrame
import Cheviot.Ext2.DirFile
import Cheviot.Ext2.DirMap
import Cheviot.Ext2.DirList
import Cheviot.Ext2.DirScan
import Cheviot.Fatfs.Rmdir
import Cheviot.Fatfs.Free
import Cheviot.Fatfs.Ends
import Cheviot.Fatfs.Replies
import Cheviot.Fatfs.Rounds
import Cheviot.Fatfs.ReadFile
import Cheviot.Fatfs.RootDir
import Cheviot.Fatfs.Store
import Cheviot.Fatfs.Serving
import Cheviot.Fatfs.Removal
import Cheviot.Fatfs.FileRun
import Cheviot.Fatfs.WriteThrough
import Cheviot.Ext2.MapInsert
import Cheviot.Ext2.MapDelete
import Cheviot.Ext2.MapCount
import Cheviot.Ext2.Rollback
import Cheviot.Ext2.Owned
import Cheviot.Ext2.OwnedRun
import Cheviot.Ext2.BitmapInt
import Cheviot.Fatfs.Init
import Cheviot.Fatfs.Restart
import Cheviot.Fatfs.Format
import Cheviot.Fatfs.Names
import Cheviot.Lib.ByteFile
import Cheviot.Lib.Refine
import Cheviot.Ext2.FileRun
import Cheviot.Ext2.Removal
import Cheviot.Ext2.Mkdir
import Cheviot.Ext2.EntryNames
