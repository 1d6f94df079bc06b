import XStore.Heap.MultiInsertRun
import XStore.Heap.PageLayout
import XStore.Heap.PruneHint
import XStore.Heap.Rerun
import XStore.Heap.StalePointer
import XStore.Heap.VersionFetch
import XStore.Index.DeleteLog
import XStore.Index.SplitReplay
import XStore.Index.UniqueCheck
import XStore.Multi.Truncation
import XStore.QueryCheck.AdvisoryLocks
import XStore.QueryCheck.ReadOnly
import XStore.QueryCheck.Switch
import XStore.Redo.MultiInsertRedo
import XStore.Redo.UndoMeta
import XStore.Redo.UndoRebuild
import XStore.Rollback.WorkersOnTime
import XStore.Undo.DiscardRun
import XStore.Undo.SlotBooks
import XStore.Undo.Handover
import XStore.Undo.MetaRestart
import XStore.Undo.SubxactRun
import XStore.Undo.UndoList
import XStore.Proxy.Deploy
import XStore.Proxy.HintText
import XStore.Heap.HintBits
import XStore.Heap.FreeSpaceBalance
import XStore.Index.RecyclePage
