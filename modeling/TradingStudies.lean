import TradingStudies.Library.StepSystem
import TradingStudies.Library.LinkedSegment
import TradingStudies.FixedSizedChainingRefinement
import TradingStudies.FixedSizedChainingQueues
import TradingStudies.FixedSizedChainingUpsert
import TradingStudies.HftOrderBookRefinement
import TradingStudies.HftOrderBookSides
import TradingStudies.HftOrderBookLedger
import TradingStudies.HftOrderBookCounted
import TradingStudies.HftOrderBookLastWrite
import TradingStudies.HftOrderBookTop
import TradingStudies.HftOrderBookPrint
import TradingStudies.HftOrderBookDrain
import TradingStudies.HftOrderBookStorage
import TradingStudies.TickerServer
import TradingStudies.GapRequestRange
import TradingStudies.TradeDataSequencer
import TradingStudies.GapRecovery
import TradingStudies.GapRecoveryProgress
import TradingStudies.TickerSystem
import TradingStudies.Library.SlotPartition
import TradingStudies.LockFreeThreadSafePool
import TradingStudies.LockFreeThreadSafePoolFreeList
import TradingStudies.LockFreeThreadSafePoolOwnership
import TradingStudies.LockFreeThreadSafePoolExhaustion
import TradingStudies.LockFreeThreadSafePoolAlone
import TradingStudies.CustomLockFreePool
import TradingStudies.CustomLockFreePoolOwnership
import TradingStudies.CustomMPMCLockFreeQueue
import TradingStudies.CustomMPMCLockFreeQueueInvariant
import TradingStudies.CustomMPMCLockFreeQueueTickets
import TradingStudies.CustomMPMCLockFreeQueueSequential
import TradingStudies.CustomMPMCLockFreeQueueAlone
import TradingStudies.CustomSPSCLockFreeQueue
import TradingStudies.CustomSPSCLockFreeQueueFifo
import TradingStudies.CustomSPSCLockFreeQueueSequential
import TradingStudies.LockFreePool
import TradingStudies.LockFreePoolThreads
import TradingStudies.MarketDataRingBuffer
import TradingStudies.MarketDataRingBufferSnapshots
import TradingStudies.Library.ProbeLoop
import TradingStudies.Library.SignificandRound
import TradingStudies.OpenAddressingHashMap
import TradingStudies.OpenAddressingLoad
import TradingStudies.OpenAddressingSlots
import TradingStudies.OpenAddressingLoaded
import TradingStudies.OpenAddressingInvariant
import TradingStudies.OpenAddressingReHash
import TradingStudies.OpenAddressingRefinement
import TradingStudies.OpenAddressingWellFormed
import TradingStudies.OpenAddressingTermination
import TradingStudies.Library.KeyedList
import TradingStudies.ChainingHashMap
import TradingStudies.ChainingRefinement
import TradingStudies.HashTables
import TradingStudies.STLHashMap
import TradingStudies.MemoryPool
import TradingStudies.MemoryPoolEquivalence
import TradingStudies.Library.OrderedMap
import TradingStudies.MatchingEngine
import TradingStudies.MatchingEngineLimits
import TradingStudies.MatchingEngineQuantities
import TradingStudies.MockOrderBook
import TradingStudies.MockOrderBookAgreement
import TradingStudies.MockOrderBookZeroCopy
import TradingStudies.Library.KWayMerge
import TradingStudies.StockFeedManager
import TradingStudies.StockFeedManagerMerge
import TradingStudies.Library.SubscriptMap
import TradingStudies.StockFeedManager2
import TradingStudies.StockFeedManager2Agreement
import TradingStudies.Library.FixedFraming
import TradingStudies.TradeRecoveryManager
import TradingStudies.SnapshotServerFraming
import TradingStudies.SnapshotServerClients
import TradingStudies.ReceiverPipeline
import TradingStudies.ReceiverPipelineSlots
import TradingStudies.ReceiverPipelineSequence
import TradingStudies.DatagramReception
import TradingStudies.Library.DelimitedFields
import TradingStudies.StringConversions
import TradingStudies.TradeFile
import TradingStudies.AsyncLogger
import TradingStudies.AsyncLoggerSteps
import TradingStudies.AsyncLoggerShutdown
import TradingStudies.AsyncLoggerSlots
import TradingStudies.AsyncLoggerOrder
import TradingStudies.Library.SearchOrder
import TradingStudies.AVL
import TradingStudies.AVLContents
import TradingStudies.AVLBalance
import TradingStudies.BST
import TradingStudies.BSTContents
import TradingStudies.Leet1382BST
import TradingStudies.Leet1382BSTContents
import TradingStudies.BSTTraversals
import TradingStudies.Leet1382SharedBST
import TradingStudies.BlackScholes
import TradingStudies.BlackScholesGreeks
import TradingStudies.Library.HandleTable
import TradingStudies.WeakPtrImpl
import TradingStudies.WeakPtrImplCounts
import TradingStudies.WeakPtrImplRuns
import TradingStudies.WeakPtrImplReferences
import TradingStudies.SmartPtr
import TradingStudies.SmartPtrRuns
import TradingStudies.Library.UniqueOwner
import TradingStudies.UniqueHandles
import TradingStudies.Library.RawStorage
import TradingStudies.ZamVector
import TradingStudies.ZamVectorLifetimes
import TradingStudies.ZamVectorRuns
import TradingStudies.ZamVectorContents
import TradingStudies.Library.BoundedHeap
import TradingStudies.Library.RecentItems
import TradingStudies.Twitter
import TradingStudies.TwitterFeeds
import TradingStudies.Library.FloodFill
import TradingStudies.Minesweeper
import TradingStudies.MinesweeperPlay
import TradingStudies.Library.InPlaceOrder
import TradingStudies.Sorting
import TradingStudies.SortingOrder
import TradingStudies.Library.LinearBudget
import TradingStudies.KnapsackGreedy
import TradingStudies.AddTwoNumbers
import TradingStudies.GroupAnagrams
import TradingStudies.BinarySearch
import TradingStudies.Library.Monitor
import TradingStudies.LockedQueue
import TradingStudies.BoundedBlockingQueue
import TradingStudies.CustomLockedPoolThreads
