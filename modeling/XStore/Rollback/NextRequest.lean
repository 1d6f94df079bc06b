import XStore.Chain.Buckets

/-!
# The next rollback request

The undo launcher takes the requests from a shared hash table.  `get_next_rollback_request` resumes the
scan of the table from `RollbackNextBucket` and stops at the first request that is not in progress.
-/
namespace XStore

open List

structure RollbackHashEntry where
  fullXid : Nat
  startUrecPtr : Nat
  endUrecPtr : Nat
  dbid : Nat
  txnSlotPtr : Nat
  inProgress : Bool
  retryDelay : Nat
  deriving DecidableEq

/-- `RollbackHashKey` -/
def RollbackHashEntry.key (e : RollbackHashEntry) : Nat × Nat := (e.fullXid, e.startUrecPtr)

/-- `RollbackHT`: its bucket chains.  `hash_search` enters a key only once. -/
structure RollbackHT where
  buckets : List (List RollbackHashEntry)
  keys_nodup : (buckets.flatten.map RollbackHashEntry.key).Nodup

namespace RollbackHT

variable (ht : RollbackHT)

def entries : List RollbackHashEntry := ht.buckets.flatten

def idle : List RollbackHashEntry := ht.entries.filter (!·.inProgress)

/-- `get_next_rollback_request`, with the new value of `RollbackNextBucket`. -/
def getNextRollbackRequest (rollbackNextBucket : Nat) : Option RollbackHashEntry × Nat :=
  resumeScan ht.buckets (!·.inProgress) rollbackNextBucket

/-- The requests returned by consecutive calls while the table does not change. -/
def nextRequests (ht : RollbackHT) : Nat → Nat → List (Option RollbackHashEntry)
  | 0, _ => []
  | calls + 1, rollbackNextBucket =>
    (ht.getNextRollbackRequest rollbackNextBucket).1 ::
      nextRequests ht calls (ht.getNextRollbackRequest rollbackNextBucket).2

theorem nextRequests_eq (calls b : Nat) :
    ht.nextRequests calls b = resumedScans ht.buckets (!·.inProgress) calls b := by
  induction calls generalizing b with
  | zero => rfl
  | succ calls ih =>
    rw [nextRequests, resumedScans, ih]
    rfl

/-- A request that waits has no other request behind it in its chain. -/
def IdleLast : Prop :=
  ∀ chain ∈ ht.buckets, ∀ before e after, chain = before ++ e :: after → e.inProgress = false → after = []

theorem idleLast_iff : ht.IdleLast ↔ ∀ chain ∈ ht.buckets, WantedLast (!·.inProgress) chain := by
  constructor
  · intro h chain hchain e rest hrest
    apply h chain hchain (chain.takeWhile (!!·.inProgress)) e rest
    · rw [← hrest, takeWhile_append_dropWhile]
    · have hne : chain.dropWhile (!!·.inProgress) ≠ [] := hrest ▸ cons_ne_nil e rest
      have hhead := head_dropWhile_not (fun e : RollbackHashEntry => !!e.inProgress) hne
      simp only [hrest, head_cons] at hhead
      simpa using hhead
  · intro h chain hchain before e after heq hidle
    have hsplit := takeWhile_append_dropWhile (p := (!!·.inProgress)) (l := chain)
    cases hdrop : chain.dropWhile (!!·.inProgress) with
    | nil =>
      have hall := dropWhile_eq_nil_iff.mp hdrop e (by simp [heq])
      simp [hidle] at hall
    | cons f rest =>
      obtain rfl := h chain hchain f rest hdrop
      rcases eq_nil_or_concat after with rfl | ⟨after, g, rfl⟩
      · rfl
      · -- everything before the last entry is in progress
        rw [hdrop] at hsplit
        have hends : chain.takeWhile (!!·.inProgress) ++ [f] = (before ++ e :: after) ++ [g] := by
          rw [hsplit, heq, concat_eq_append, ← cons_append, ← append_assoc]
        have hmem : e ∈ chain.takeWhile (!!·.inProgress) := by
          rw [(append_inj' hends rfl).1]
          simp
        have hp := mem_takeWhile_imp hmem
        simp [hidle] at hp

/-- From wherever the scan is resumed all waiting requests come up, exactly if there is only one of them
or each is the last of its bucket. -/
theorem rollback_requests_scanned_fairly_iff :
    (∀ rollbackNextBucket ≤ ht.buckets.length, ∀ calls ≥ 2 * ht.entries.length + 2,
      ∀ e ∈ ht.entries, e.inProgress = false → some e ∈ ht.nextRequests calls rollbackNextBucket) ↔
    ht.IdleLast ∨ ht.idle.length ≤ 1 := by
  have hnodup : ht.buckets.flatten.Nodup := List.Nodup.of_map _ ht.keys_nodup
  have hiff := resumedScans_complete_iff (p := fun e : RollbackHashEntry => !e.inProgress) hnodup
  simp only [Bool.not_eq_true'] at hiff
  simp only [nextRequests_eq, idleLast_iff]
  exact hiff

end RollbackHT

def twoInOneBucket : RollbackHT where
  buckets := [[⟨7, 24, 100, 5, 24, false, 0⟩, ⟨9, 24, 200, 5, 56, false, 0⟩]]
  keys_nodup := by decide

/-- Only the first of them ever comes up. -/
theorem second_request_is_hidden :
    twoInOneBucket.nextRequests 6 0 = List.replicate 6 (some ⟨7, 24, 100, 5, 24, false, 0⟩) := by
  decide

end XStore
