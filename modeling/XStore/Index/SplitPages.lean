import XStore.Bytes.ItemPage
import XStore.Index.Leaf

/-!
# Splitting a leaf page

The model of `_xbt_split` for leaf pages, of its WAL record and of the replay of that record, on the
bytes of the pages.  An index tuple begins with a TID of six bytes and the two bytes of `t_info`,
which hold its size.  On a leaf page the transaction id and the undo pointer of the last change stand
behind the tuple and are not counted in its size.
-/
namespace XStore

abbrev IndexPage := ItemPage IndexLp

def txnInfoSize : Nat := 16

def tInfo (tup : List UInt8) : Nat := leNat ((tup.drop 6).take 2)

/-- `IndexTupleSize`; `INDEX_SIZE_MASK` is the low 13 bits. -/
def indexTupleSize (tup : List UInt8) : Nat := tInfo tup % 2 ^ 13

/-- `XBTreeTupleIsPivot`: `INDEX_ALT_TID_MASK` is set. -/
def xbtreeTupleIsPivot (tup : List UInt8) : Bool := decide (tInfo tup / 2 ^ 13 % 2 = 1)

def indexTupleSetSize (tup : List UInt8) (newsz : Nat) : List UInt8 :=
  tup.take 6 ++ leBytes 2 ((tInfo tup >>> 13) <<< 13 ||| newsz) ++ tup.drop 8

/-- `modified_xid` of the `XBTreeIndexTupleData` behind a tuple. -/
def modifiedXidOf (tup : List UInt8) : Nat := leNat ((tup.drop (indexTupleSize tup)).take 8)

/-- `urec` of the `XBTreeIndexTupleData` behind a tuple. -/
def urecOf (tup : List UInt8) : Nat := leNat ((tup.drop (indexTupleSize tup + 8)).take 8)

/-- `PageAddItem`, without an item to overwrite. -/
def pageAddItem (p : IndexPage) (item : List UInt8) (size offsetNumber : Nat) : Option IndexPage :=
  p.addItem .normal item size (offsetNumber - 1)

/-- `P_FIRSTDATAKEY`: only the rightmost page is without a high key. -/
def firstDataKey (rightmost : Bool) : Nat := if rightmost then 1 else 2

/-- `_xbt_pgaddtup` on a leaf page, for an item of the page that is split. -/
def xbtPgaddtupOld (p : IndexPage) (itup : List UInt8) (itupOff : Nat) (lpFlags : IndexLp) :
    Option IndexPage :=
  (pageAddItem p itup itup.length itupOff).map fun q => q.setState (itupOff - 1) lpFlags

/-- `_xbt_pgaddtup` on a leaf page, for the new item.  The room behind the tuple is taken first; where
there is none, `PageAddItem` finds the page corrupted. -/
def xbtPgaddtupNew (rightmost : Bool) (p : IndexPage) (itemsize : Nat) (itup : List UInt8)
    (itupOff xid urec : Nat) : Option IndexPage :=
  let newsize := itemsize - txnInfoSize
  let needXid := decide (firstDataKey rightmost ≤ itupOff)
  if p.upper < p.lower + txnInfoSize then none
  else
    let p' := p.grow (leBytes 8 (if needXid then xid else invalidXid) ++ leBytes 8 urec)
    (pageAddItem p' (indexTupleSetSize itup newsize) newsize itupOff).map fun q =>
      q.setLowest (itupOff - 1) itemsize .normal

/-- A leaf page, the new item, and what the split has decided: the split point and the high key that
`_xbt_truncate` made for the left page. -/
structure LeafSplit where
  page : IndexPage
  /-- `P_RIGHTMOST` of the page. -/
  rightmost : Bool
  newitem : List UInt8
  newitemsz : Nat
  newitemoff : Nat
  firstright : Nat
  newitemonleft : Bool
  lefthikey : List UInt8
  /-- `GetTopFullTransactionId` -/
  xid : Nat
  /-- The undo record of the insert. -/
  urecPtr : Nat

/-- The two pages, the next offset on each, and where the new item was put. -/
structure SplitState where
  left : IndexPage
  right : IndexPage
  leftoff : Nat
  rightoff : Nat
  newitemleftoff : Nat
  newitemrightoff : Nat

namespace LeafSplit

variable (c : LeafSplit)

def dataItems : List (IndexLp × List UInt8) := c.page.items.drop (firstDataKey c.rightmost - 1)

def addNewLeft (s : SplitState) : Option SplitState :=
  (xbtPgaddtupNew false s.left c.newitemsz c.newitem s.leftoff c.xid c.urecPtr).map fun p =>
    { s with left := p, leftoff := s.leftoff + 1, newitemleftoff := s.leftoff }

def addNewRight (s : SplitState) : Option SplitState :=
  (xbtPgaddtupNew c.rightmost s.right c.newitemsz c.newitem s.rightoff c.xid c.urecPtr).map fun p =>
    { s with right := p, rightoff := s.rightoff + 1, newitemrightoff := s.rightoff }

def addOldLeft (s : SplitState) (it : IndexLp × List UInt8) : Option SplitState :=
  (xbtPgaddtupOld s.left it.2 s.leftoff it.1).map fun p =>
    { s with left := p, leftoff := s.leftoff + 1 }

def addOldRight (s : SplitState) (it : IndexLp × List UInt8) : Option SplitState :=
  (xbtPgaddtupOld s.right it.2 s.rightoff it.1).map fun p =>
    { s with right := p, rightoff := s.rightoff + 1 }

/-- The new item goes before the item at `i` if that is its place. -/
def addNewAt (i : Nat) (s : SplitState) : Option SplitState :=
  if i = c.newitemoff then if c.newitemonleft then c.addNewLeft s else c.addNewRight s
  else some s

/-- The item at `i` goes left of `firstright` to the left page. -/
def addOldAt (i : Nat) (s : SplitState) (it : IndexLp × List UInt8) : Option SplitState :=
  if i < c.firstright then addOldLeft s it else addOldRight s it

def loop : Nat → List (IndexLp × List UInt8) → SplitState → Option SplitState
  | i, [], s => if i ≤ c.newitemoff then c.addNewRight s else some s
  | i, it :: its, s => do
    let s ← c.addNewAt i s
    let s ← c.addOldAt i s it
    loop (i + 1) its s

def initRight : Option IndexPage :=
  if c.rightmost then some (.empty c.page.special)
  else c.page.items.head?.bind fun hikey =>
    pageAddItem (.empty c.page.special) hikey.2 hikey.2.length 1

/-- `_xbt_split` of a leaf page; `none` is an error. -/
def xbtSplit : Option SplitState := do
  let left ← pageAddItem (.empty c.page.special) c.lefthikey (align8 (indexTupleSize c.lefthikey)) 1
  let right ← c.initRight
  c.loop (firstDataKey c.rightmost) c.dataItems ⟨left, right, 2, firstDataKey c.rightmost, 0, 0⟩

end LeafSplit

def IndexLp.code : IndexLp → Nat
  | .unused => 0
  | .normal => 1
  | .deleted => 2
  | .dead => 3

def IndexLp.ofCode : Nat → IndexLp
  | 0 => .unused
  | 1 => .normal
  | 2 => .deleted
  | _ => .dead

/-- `ItemIdData`: 15 bits of offset, two of state and 15 of length. -/
def itemIdBytes (s : Slot IndexLp) : List UInt8 :=
  leBytes 4 (s.off + s.state.code * 2 ^ 15 + s.len * 2 ^ 17)

/-- `lp_flags` of an `ItemIdData`. -/
def lpFlagsOf (bytes : List UInt8) : IndexLp := IndexLp.ofCode (leNat bytes / 2 ^ 15 % 4)

/-- `xl_xbtree_split` with the data of the two blocks. -/
structure XlXbtreeSplit where
  firstright : Nat
  newitemoff : Nat
  newitemrightoff : Nat
  rightitemcount : Nat
  /-- `P_RIGHTMOST` of `ropaque`. -/
  ropaqueRightmost : Bool
  /-- `XLOG_XBTREE_SPLIT_L` -/
  newitemonleft : Bool
  leftData : List UInt8
  rightData : List UInt8
  deriving DecidableEq

def pageGetItem (p : IndexPage) (offsetNumber : Nat) : List UInt8 :=
  (p.items[offsetNumber - 1]?.map Prod.snd).getD []

def LeafSplit.wal (c : LeafSplit) (s : SplitState) : XlXbtreeSplit where
  firstright := c.firstright
  newitemoff := c.newitemoff
  newitemrightoff := s.newitemrightoff
  rightitemcount := s.right.slots.length
  ropaqueRightmost := c.rightmost
  newitemonleft := c.newitemonleft
  leftData := (if c.newitemonleft then pageGetItem s.left s.newitemleftoff else []) ++
    (pageGetItem s.left 1).take (align8 (indexTupleSize (pageGetItem s.left 1)))
  rightData := s.right.slots.flatMap itemIdBytes ++ s.right.area

/-- `_xbt_restore_page` for a leaf page -/
def xbtRestorePage : Nat → IndexPage → List UInt8 → Option IndexPage
  | 0, _, _ => none
  | fuel + 1, p, bytes =>
    if bytes.isEmpty then some p
    else
      let itemsz := align8 (indexTupleSize bytes + if xbtreeTupleIsPivot bytes then 0 else txnInfoSize)
      (pageAddItem p bytes itemsz 1).bind fun q => xbtRestorePage fuel q (bytes.drop itemsz)

/-- The states of the items from `i` on are those of the logged line pointers. -/
def copyLpFlags (itemIds : List UInt8) : Nat → Nat → IndexPage → IndexPage
  | 0, _, p => p
  | n + 1, i, p =>
    copyLpFlags itemIds n (i + 1) (p.setState (i - 1) (lpFlagsOf ((itemIds.drop ((i - 1) * 4)).take 4)))

/-- `_xbt_xlog_split_redo_right_page` -/
def redoRightPage (w : XlXbtreeSplit) (special : Nat) : Option IndexPage :=
  let area := w.rightData.drop (w.rightitemcount * 4)
  (xbtRestorePage (area.length + 1) (.empty special) area).map fun p =>
    let first := firstDataKey w.ropaqueRightmost
    copyLpFlags w.rightData (p.slots.length + 1 - first) first p

/-- Add the new item before the item at `off` if that is its place. -/
def redoAddNew (w : XlXbtreeSplit) (newitem : List UInt8) (newitemsz off : Nat)
    (r : IndexPage × Nat) : Option (IndexPage × Nat) :=
  if w.newitemonleft ∧ off = w.newitemoff then
    (pageAddItem r.1 newitem newitemsz r.2).map fun p => (p, r.2 + 1)
  else some r

/-- The loop of `_xbt_xlog_split_redo_left_page` over the items left of `firstright`. -/
def redoLeftLoop (w : XlXbtreeSplit) (newitem : List UInt8) (newitemsz : Nat) :
    Nat → List (IndexLp × List UInt8) → IndexPage × Nat → Option (IndexPage × Nat)
  | off, [], r => redoAddNew w newitem newitemsz off r
  | off, it :: its, r => do
    let r ← redoAddNew w newitem newitemsz off r
    let p ← pageAddItem r.1 it.2 it.2.length r.2
    redoLeftLoop w newitem newitemsz (off + 1) its (p.setState (r.2 - 1) it.1, r.2 + 1)

/-- `_xbt_xlog_split_redo_left_page` for a leaf page -/
def redoLeftPage (w : XlXbtreeSplit) (lpage : IndexPage) (rightmost : Bool) : Option IndexPage := do
  let newitemsz := align8 (indexTupleSize w.leftData) + txnInfoSize
  let datapos := if w.newitemonleft then w.leftData.drop newitemsz else w.leftData
  let p ← pageAddItem (.empty lpage.special) datapos (align8 (indexTupleSize datapos)) 1
  let first := firstDataKey rightmost
  let its := (lpage.items.drop (first - 1)).take (w.firstright - first)
  let r ← redoLeftLoop w w.leftData newitemsz first its (p, 2)
  some r.1

end XStore
