import Mathlib.Data.List.Sort
import Mathlib.Data.Prod.Lex
import Mathlib.Order.WithBot
import XStore.Chain.Update
import XStore.Chain.Visit
import XStore.Undo.Record

/-!
# Leaf pages of the xbtree

The leaf level is a chain of pages in key order, with the heap TID as the last key column.  Keys
and TIDs are any linear orders; a high key whose TID is truncated comes before every TID of its key.
The inner levels are left out: they bring a search to a leaf at or left of the one it ends on.
-/
namespace XStore

/-- `lp_flags` of an index item; `LP_INDEX_DELETED` shares its code with `LP_REDIRECT`. -/
inductive IndexLp where
  | unused
  | normal
  | deleted
  | dead
  deriving DecidableEq

/-- An index tuple with its `XBTreeIndexTupleData` and its line pointer. -/
structure IndexEntry (K T : Type*) where
  key : K
  tid : T
  lp : IndexLp
  /-- `ItemIdHasStorage` -/
  hasStorage : Bool
  modifiedXid : Nat
  urec : Nat
  deriving DecidableEq

/-- `btpo` and `XBTPageOpaqueData`, as far as inserts, deletes and their undo use them. -/
structure LeafHeader where
  blkno : Nat
  activeCount : Int
  lastDeleteXid : Nat
  deriving DecidableEq

/-- The raw data of an index undo record is the index tuple. -/
inductive IndexUndo (K T : Type*) where
  | insert (key : K) (tid : T)
  | delete (key : K) (tid : T)
  deriving DecidableEq

abbrev IndexRecord (K T : Type*) := UnpackedUndoRecord (IndexUndo K T)

/-- Where a key and a TID stand among the entries and the high keys. -/
abbrev IndexPos (K T : Type*) := K ×ₗ WithBot T

abbrev LeafPage (K T : Type*) := ChainPage (IndexEntry K T) (IndexPos K T) LeafHeader

variable {K T : Type*} {u : IndexRecord K T}

def indexPos (key : K) (tid : T) : IndexPos K T := toLex (key, (tid : WithBot T))

namespace IndexEntry

def pos (e : IndexEntry K T) : IndexPos K T := indexPos e.key e.tid

/-- The entry as `_xbt_pgaddtup` adds it. -/
def new (xid : Nat) (key : K) (tid : T) (urp : Nat) : IndexEntry K T :=
  ⟨key, tid, .normal, true, xid, urp⟩

/-- The entry as `_xbt_deleteonpage` leaves it. -/
def markDeleted (e : IndexEntry K T) (xid urp : Nat) : IndexEntry K T :=
  { e with lp := .deleted, modifiedXid := xid, urec := urp }

/-- The entry is as the operation with this undo pointer left it. -/
def leftBy (xid urp : Nat) (e : IndexEntry K T) : Bool :=
  decide (e.modifiedXid = xid ∧ e.urec = urp)

end IndexEntry

namespace LeafHeader

def noteInsert (h : LeafHeader) : LeafHeader := { h with activeCount := h.activeCount + 1 }

def noteDelete (xid : Nat) (h : LeafHeader) : LeafHeader :=
  { h with
    activeCount := h.activeCount - 1
    lastDeleteXid := if h.lastDeleteXid < xid then xid else h.lastDeleteXid }

end LeafHeader

/-- The ids and places that an operation of a transaction puts in its undo record. -/
structure IndexOpCtx where
  xid : Nat
  cid : Nat
  reloid : Nat
  relfilenode : Nat
  tablespace : Nat
  subxid : Option Nat
  urp : Nat
  deriving DecidableEq

namespace IndexOpCtx

def record (c : IndexOpCtx) (blkno prevxid tpprev : Nat) (body : IndexUndo K T) : IndexRecord K T where
  uurXid := c.xid
  uurCid := c.cid
  uurReloid := c.reloid
  uurRelfilenode := c.relfilenode
  uurTablespace := c.tablespace
  uurBlkno := blkno
  uurOffset := 0
  uurTpprevurp := tpprev
  uurPrevxid := prevxid
  uurDataheaderflag := 0#16
  uurSubxid := c.subxid
  body := body
  uurUrp := c.urp
  bufferIdx := 0

/-- `_xbt_prepare_undo_insert` -/
def insertRecord (c : IndexOpCtx) (blkno : Nat) (key : K) (tid : T) : IndexRecord K T :=
  c.record blkno invalidXid invalidUndoRecPtr (.insert key tid)

/-- `_xbt_prepare_undo_delete`, with the state of the entry before the delete. -/
def deleteRecord (c : IndexOpCtx) (blkno : Nat) (e : IndexEntry K T) : IndexRecord K T :=
  c.record blkno e.modifiedXid e.urec (.delete e.key e.tid)

@[simp] theorem insertRecord_urp (c : IndexOpCtx) (blkno : Nat) (key : K) (tid : T) :
    (c.insertRecord blkno key tid).uurUrp = c.urp := rfl

@[simp] theorem deleteRecord_urp (c : IndexOpCtx) (blkno : Nat) (e : IndexEntry K T) :
    (c.deleteRecord blkno e).uurUrp = c.urp := rfl

end IndexOpCtx

section Undo

variable [LinearOrder K] [LinearOrder T]

/-- What `execute_undo_insert_xbtree` does at an item of its search. -/
def undoInsertAt (u : IndexRecord K T) (tid : T) (e : IndexEntry K T) : Visit (IndexEntry K T) :=
  if e.lp = .dead ∨ e.tid ≠ tid then .pass
  else if e.lp = .deleted ∨ e.hasStorage = false then .pass
  else if e.modifiedXid ≠ u.uurXid then .pass
  else if e.urec ≠ u.uurUrp then .stop
  else .put { e with lp := .dead, modifiedXid := invalidXid, urec := invalidUndoRecPtr }

/-- What `execute_undo_delete_xbtree` does at an item of its search; that `urec` is the record's is
only asserted. -/
def undoDeleteAt (u : IndexRecord K T) (tid : T) (e : IndexEntry K T) : Visit (IndexEntry K T) :=
  if e.lp = .dead ∨ e.tid ≠ tid then .pass
  else if e.lp ≠ .deleted then .pass
  else if e.modifiedXid ≠ u.uurXid then .pass
  else .put { e with lp := .normal, modifiedXid := u.uurPrevxid, urec := u.uurTpprevurp }

/-- The key and TID that the undo of a record searches for. -/
def IndexUndo.pos : IndexUndo K T → IndexPos K T
  | .insert key tid => indexPos key tid
  | .delete key tid => indexPos key tid

/-- What the undo of a record does at an item of its search. -/
def undoAt (u : IndexRecord K T) : IndexEntry K T → Visit (IndexEntry K T) :=
  match u.body with
  | .insert _ tid => undoInsertAt u tid
  | .delete _ tid => undoDeleteAt u tid

/-- How the undo of a record notes a hit in the page header. -/
def undoNote (u : IndexRecord K T) : LeafHeader → LeafHeader :=
  match u.body with
  | .insert _ _ => LeafHeader.noteDelete u.uurXid
  | .delete _ _ => LeafHeader.noteInsert

/-- `execute_undo_insert_xbtree` and `execute_undo_delete_xbtree` -/
def executeUndoXbtree (ps : List (LeafPage K T)) (u : IndexRecord K T) : List (LeafPage K T) :=
  visit (undoAt u) (undoNote u) IndexEntry.pos u.body.pos ps

/-- The result of undoing a record: it waits for another undo log when the search stops at an
entry with a newer undo pointer. -/
def undoResult (ps : List (LeafPage K T)) (u : IndexRecord K T) : RollbackResult :=
  match (range IndexEntry.pos u.body.pos ps).find? (fun e => decide (undoAt u e = .stop)) with
  | some e => if u.uurUrp < e.urec then .rswitch else .rok
  | none => .rok

def executeXbtreeUndoactions (ps : List (LeafPage K T)) :
    List (IndexRecord K T) → List (LeafPage K T) × RollbackResult
  | [] => (ps, .rok)
  | u :: us =>
    let r := executeXbtreeUndoactions (executeUndoXbtree ps u) us
    (r.1, if undoResult ps u = .rswitch then .rswitch else r.2)

end Undo

theorem undoAt_ne_pass [LinearOrder T] {e : IndexEntry K T} (h : undoAt u e ≠ .pass) : e.modifiedXid = u.uurXid := by
  by_contra hne
  apply h
  cases hb : u.body <;> simp [undoAt, hb, undoInsertAt, undoDeleteAt, hne]

theorem undoAt_put_pos [LinearOrder T] {a b : IndexEntry K T} (h : undoAt u a = .put b) : b.pos = a.pos := by
  cases hb : u.body with
  | insert key tid =>
    simp only [undoAt, hb, undoInsertAt] at h
    split_ifs at h
    cases h
    rfl
  | delete key tid =>
    simp only [undoAt, hb, undoDeleteAt] at h
    split_ifs at h
    cases h
    rfl

/-- The order in which `execute_undo_actions` takes the records of one index: by block, and the
newest first within a block. -/
def undoOrder (us : List (IndexRecord K T)) : List (IndexRecord K T) :=
  us.insertionSort fun u v =>
    u.uurBlkno < v.uurBlkno ∨ u.uurBlkno = v.uurBlkno ∧ v.uurUrp ≤ u.uurUrp

end XStore
