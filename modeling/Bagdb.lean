import Bagdb.Base
import Bagdb.Lib.While
import Bagdb.Lib.Chain
import Bagdb.Lib.Machine
import Bagdb.Lib.RingBuffer
import Bagdb.Lib.Before
import Bagdb.Lib.Parts
import Bagdb.Lib.HeapOrder
import Bagdb.Lib.Linked
import Bagdb.Lib.Crc
import Bagdb.Lib.Iteration
import Bagdb.Lib.Shuffle
import Bagdb.Pool.Pool
import Bagdb.Pool.Proof.FreeList
import Bagdb.Pool.Proof.Client
import Bagdb.Worker.Types
import Bagdb.Worker.Get
import Bagdb.Worker.Poll
import Bagdb.Worker.Sys
import Bagdb.Worker.Proof.Poll
import Bagdb.Worker.Proof.Handler
import Bagdb.Worker.Proof.Overtake
import Bagdb.Worker.Proof.Lookup
import Bagdb.Worker.Proof.Atomic
import Bagdb.Worker.Proof.Step
import Bagdb.Worker.Proof.Fault
import Bagdb.Worker.Proof.Ledger
import Bagdb.Worker.Proof.Conserve
import Bagdb.Worker.Proof.Once
import Bagdb.Worker.Proof.Getting
import Bagdb.Kvs.Heap
import Bagdb.Kvs.Iterator
import Bagdb.Kvs.Wait
import Bagdb.Kvs.Proof.Adjust
import Bagdb.Kvs.Proof.Heap
import Bagdb.Kvs.Proof.Key
import Bagdb.Kvs.Proof.Load
import Bagdb.Kvs.Proof.Merge
import Bagdb.Kvs.Proof.First
import Bagdb.Kvs.Proof.Seek
import Bagdb.Kvs.Proof.Wait
import Bagdb.Pool.Proof.Release
import Bagdb.Pool.Proof.Init
import Bagdb.Worker.Alloc
import Bagdb.Worker.Proof.Alloc
import Bagdb.Lib.ThreeWay
import Bagdb.Kvs.Proof.Compare
import Bagdb.Lib.Interleave
import Bagdb.Btree.Btree
import Bagdb.Btree.Scan
import Bagdb.Btree.Proof.Tree
import Bagdb.Btree.Proof.Iterator
import Bagdb.Btree.Proof.Scan
import Bagdb.Util.Hash
import Bagdb.Util.Proof.Hash
import Bagdb.Util.Proof.Crc
import Bagdb.Util.Shuffle
import Bagdb.Util.Proof.Shuffle
import Bagdb.Util.Clock
import Bagdb.Util.Proof.Clock
import Bagdb.Runtime.Types
import Bagdb.Runtime.Route
import Bagdb.Runtime.Workers
import Bagdb.Runtime.Proof.Route
import Bagdb.Cache.Types
import Bagdb.Cache.Cache
import Bagdb.Cache.Sys
import Bagdb.Cache.Links
import Bagdb.Cache.Proof.Links
import Bagdb.Cache.Loads
import Bagdb.Cache.Proof.Step
import Bagdb.Cache.Proof.Tree
import Bagdb.Cache.Proof.Frames
import Bagdb.Cache.Proof.Supply
import Bagdb.Cache.Nodes
import Bagdb.Cache.Proof.Nodes
import Bagdb.Format.Layout
import Bagdb.Format.Types
import Bagdb.Format.Flow
import Bagdb.Format.Iterate
import Bagdb.Format.Proof.Iterate
import Bagdb.Format.Proof.Code
import Bagdb.Format.Proof.Ledger
import Bagdb.Format.Proof.Trace
import Bagdb.Format.Proof.Bounds
import Bagdb.Format.Proof.Super
import Bagdb.Format.Proof.Crash
import Bagdb.Startup.Startup
import Bagdb.Startup.Iterate
import Bagdb.Startup.Proof.Iterate
import Bagdb.Format.Proof.Stored
import Bagdb.Startup.Proof.Start
import Bagdb.Startup.Proof.Started
import Bagdb.Format.Proof.Dump
import Bagdb.Format.Proof.Dumped
import Bagdb.Startup.Proof.Agree
import Bagdb.Cache.Proof.Dirty
import Bagdb.Cache.Proof.Loads
import Bagdb.Index.Bpt
import Bagdb.Index.Index
import Bagdb.Index.Proof.Lookup
import Bagdb.Index.Leaf
import Bagdb.Index.Proof.Leaf
import Bagdb.Kvs.Proof.Exhausted
import Bagdb.Kvs.Calls
import Bagdb.Kvs.Proof.Calls
import Bagdb.Kvs.Proof.Safe
import Bagdb.Kvs.Proof.Fresh
import Bagdb.Format.Obtained
import Bagdb.Format.Proof.Step
import Bagdb.Format.Proof.End
import Bagdb.Format.Proof.Obtained
import Bagdb.Format.Options
import Bagdb.Format.Proof.Options
import Bagdb.Startup.Proof.Represented
import Bagdb.Lib.For
import Bagdb.Lib.Join
import Bagdb.Lib.Ascending
import Bagdb.Btree.Arena
import Bagdb.Btree.Insert
import Bagdb.Btree.Proof.Decrement
import Bagdb.Btree.Proof.Slots
import Bagdb.Btree.Proof.Node
import Bagdb.Btree.Proof.Rebalance
import Bagdb.Btree.Proof.Split
import Bagdb.Btree.Proof.Swap
import Bagdb.Btree.Proof.Walk
import Bagdb.Btree.Proof.Recut
import Bagdb.Btree.Proof.Cut
import Bagdb.Btree.Proof.Place
import Bagdb.Btree.Proof.Root
import Bagdb.Btree.Proof.Room
import Bagdb.Btree.Proof.Content
import Bagdb.Btree.Proof.Insert
import Bagdb.Btree.Erase
import Bagdb.Btree.Proof.Merge
import Bagdb.Btree.Proof.Shrink
import Bagdb.Btree.Proof.Flatten
import Bagdb.Btree.Proof.Erase
import Bagdb.Btree.Verify
import Bagdb.Btree.Hint
import Bagdb.Btree.Api
import Bagdb.Btree.Proof.Clear
import Bagdb.Btree.Proof.Verify
import Bagdb.Btree.Proof.Hint
import Bagdb.Btree.Proof.Finds
import Bagdb.Btree.Proof.Api
import Bagdb.Cache.Proof.Backed
