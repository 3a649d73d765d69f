/-
The write contexts of a TcpConnection.

Every context is pending, as a posted write, a write in flight or a write whose
callback runs, until it is deleted; unless libuv refuses its write, and then nobody
deletes it.
-/

import Mathlib.Data.List.Count
import Mathlib.Data.List.Perm.Basic
import Mathlib.Data.List.Range
import Uvcpp.Tcp.ConnectionMoves

namespace Uvcpp

def Request.context? : Request → Option Nat
  | .write context => some context
  | _ => none

def Frame.context? : Frame → Option Nat
  | .written context => some context
  | _ => none

namespace UvTcp

/-- The writes posted or in flight. -/
def pending (h : UvTcp) : List Nat :=
  h.posted.filterMap Request.context? ++ h.writes

/-- Whether uv_write is not called at once, or is and accepts. -/
def accepts (thread : Thread) (ret : Bool) : Bool :=
  thread == .user || ret

theorem pending_write (h : UvTcp) (thread : Thread) (context : Nat) (ret : Bool) :
    (h.runInLoopThread thread (.write context) ret).pending.Perm
      (h.pending ++ if accepts thread ret then [context] else []) := by
  cases thread
  · cases ret <;> simp [runInLoopThread, execute, write, pending, accepts]
  · simp only [runInLoopThread, pending, accepts, List.filterMap_append, List.append_assoc,
      beq_self_eq_true, Bool.true_or, if_true]
    apply List.Perm.append_left
    exact List.perm_append_comm

@[simp] theorem pending_shutdown (h : UvTcp) (thread : Thread) (client ret : Bool) :
    (h.runInLoopThread thread (.shutdown client) ret).pending = h.pending := by
  cases thread <;> simp [runInLoopThread, execute, shutdown, pending, Request.context?]

@[simp] theorem pending_close (h : UvTcp) (thread : Thread) (ret : Bool) :
    (h.runInLoopThread thread .close ret).pending = h.pending := by
  cases thread <;> simp [runInLoopThread, execute, close, pending, Request.context?]

end UvTcp

namespace TcpConnection

/-- The contexts of writes posted, in flight, or in their callback. -/
def pending (c : TcpConnection) : List Nat :=
  c.client.pending ++ (c.frame.bind Frame.context?).toList

/-- The context whose uv_write is refused in this step. -/
def lost (c : TcpConnection) : Event → List Nat
  | .send .loop false => [c.created]
  | .run false => (c.client.posted.head?.bind Request.context?).toList
  | _ => []

/-- `leaked` are the contexts whose write was refused. -/
structure Books (c : TcpConnection) (leaked : List Nat) : Prop where
  live : c.contexts.Perm (c.pending ++ leaked)
  accounted : (c.contexts ++ c.released).Perm (List.range c.created)

theorem settle_pending (c : TcpConnection) (thread : Thread) :
    (c.settle thread).pending = c.pending := by
  unfold settle destructor
  split_ifs
  · simp [shutdownWrite, runInLoopThread, pending]
  · simp [runInLoopThread, pending]
  · rfl

theorem books_settle {c : TcpConnection} {leaked : List Nat} {thread : Thread} :
    Books (c.settle thread) leaked ↔ Books c leaked := by
  constructor
  · rintro ⟨live, accounted⟩
    rw [settle_contexts, settle_pending] at live
    rw [settle_contexts, settle_released, settle_created] at accounted
    exact ⟨live, accounted⟩
  · rintro ⟨live, accounted⟩
    constructor
    · rw [settle_contexts, settle_pending]
      exact live
    · rw [settle_contexts, settle_released, settle_created]
      exact accounted

/-- Deleting a context that is no longer pending. -/
theorem Books.delete {c c' : TcpConnection} {leaked : List Nat} {context : Nat}
    (books : Books c leaked) (pending : c.pending.Perm (context :: c'.pending))
    (contexts : c'.contexts = c.contexts.erase context)
    (released : c'.released = c.released ++ [context]) (created : c'.created = c.created) :
    Books c' leaked := by
  have split : c.contexts.Perm (context :: (c'.pending ++ leaked)) :=
    books.live.trans (pending.append_right leaked)
  constructor
  · rw [contexts]
    simpa using split.erase context
  · rw [contexts, released, created]
    have member : context ∈ c.contexts := split.mem_iff.mpr (by simp)
    have moved : (c.contexts.erase context ++ (c.released ++ [context])).Perm
        (c.contexts ++ c.released) := by
      calc
        _ = (c.contexts.erase context ++ c.released) ++ [context] := by simp
        _ |>.Perm (context :: (c.contexts.erase context ++ c.released)) :=
            List.perm_append_singleton ..
        _ |>.Perm (c.contexts ++ c.released) :=
            ((List.perm_cons_erase member).symm).append_right _
    exact moved.trans books.accounted

theorem Books.send {c : TcpConnection} {leaked : List Nat} {thread : Thread} {ret : Bool}
    (books : Books c leaked) :
    Books (c.send thread ret) (leaked ++ c.lost (.send thread ret)) := by
  have sent := UvTcp.pending_write c.client thread c.created ret
  constructor
  · have live := books.live
    rw [List.perm_iff_count] at live sent ⊢
    intro context
    have before := live context
    have after := sent context
    cases thread <;> cases ret <;>
      simp [TcpConnection.send, runInLoopThread, pending, lost, UvTcp.accepts] at before after ⊢ <;>
      omega
  · have added := books.accounted.append_right [c.created]
    rw [← List.range_succ] at added
    refine List.Perm.trans ?_ added
    simp only [TcpConnection.send, runInLoopThread, List.append_assoc]
    exact List.perm_append_comm.append_left _

theorem Books.run {c : TcpConnection} {leaked : List Nat} {ret : Bool} {request : Request}
    {rest : List Request} (books : Books c leaked) (idle : c.frame = none)
    (next : c.client.posted = request :: rest) :
    Books { c with client := { c.client with posted := rest }.execute request ret }
      (leaked ++ c.lost (.run ret)) := by
  constructor
  · have live := books.live
    rw [List.perm_iff_count] at live ⊢
    intro context
    have before := live context
    cases request <;> cases ret <;>
      simp [pending, UvTcp.pending, UvTcp.execute, UvTcp.write, UvTcp.shutdown, UvTcp.close,
        idle, next, lost, Request.context?, List.filterMap_cons, List.count_cons]
        at before ⊢ <;> omega
  · exact books.accounted

theorem Books.ending {c : TcpConnection} {leaked : List Nat} {frame : Frame}
    (books : Books c leaked) (running : c.frame = some frame) :
    Books (c.ending frame) leaked := by
  have live := books.live
  cases frame with
  | setUp =>
      exact ⟨by simpa [TcpConnection.ending, pending, running, Frame.context?] using live,
        books.accounted⟩
  | read =>
      exact ⟨by simpa [TcpConnection.ending, pending, running, Frame.context?] using live,
        books.accounted⟩
  | ended =>
      exact ⟨by simpa [TcpConnection.ending, removeConnection, UvTcp.readStop, UvTcp.pending,
        pending, running, Frame.context?] using live, books.accounted⟩
  | written context =>
      apply books.delete
      · simp only [TcpConnection.ending, deleteContext, pending, running, Frame.context?,
          Option.bind_some, Option.toList_some, Option.bind_none, Option.toList_none,
          List.append_nil]
        exact List.perm_append_singleton ..
      · rfl
      · rfl
      · rfl

theorem Books.step {c c' : TcpConnection} {event : Event} {leaked : List Nat}
    (effect : Effect c event c') (books : Books c leaked) : Books c' (leaked ++ c.lost event) := by
  obtain ⟨live, accounted⟩ := books
  cases effect with
  | sends callable => exact Books.send ⟨live, accounted⟩
  | keeps other => simpa [lost] using Books.mk live accounted
  | shuts callable connected =>
      simp only [lost, List.append_nil]
      constructor
      · simpa [runInLoopThread, pending] using live
      · exact accounted
  | tests callable connected =>
      simp only [lost, List.append_nil]
      exact ⟨live, accounted⟩
  | posts shutting =>
      simp only [lost, List.append_nil]
      constructor
      · simpa [runInLoopThread, pending] using live
      · exact accounted
  | copies alive =>
      simp only [lost, List.append_nil]
      exact ⟨live, accounted⟩
  | drops own =>
      simp only [lost, List.append_nil]
      apply books_settle.mpr
      exact ⟨live, accounted⟩
  | runs idle next => exact Books.run ⟨live, accounted⟩ idle next
  | misses reading dead =>
      simp only [lost, List.append_nil]
      exact ⟨live, accounted⟩
  | repeats idle reading finished =>
      simp only [lost, List.append_nil]
      exact ⟨live, accounted⟩
  | ends idle reading alive state =>
      simp only [lost, List.append_nil]
      constructor
      · simpa [pending, idle, Frame.context?] using live
      · exact accounted
  | reads idle reading alive =>
      simp only [lost, List.append_nil]
      constructor
      · simpa [pending, idle, Frame.context?] using live
      · exact accounted
  | fails reading =>
      simp only [lost, List.append_nil]
      exact ⟨live, accounted⟩
  | completes idle flying =>
      simp only [lost, List.append_nil]
      constructor
      · refine live.trans (List.Perm.append_right _ ?_)
        have moved := List.perm_cons_erase flying
        simp only [pending, UvTcp.pending, idle, Frame.context?, List.append_assoc,
          Option.bind_none, Option.bind_some, Option.toList_none, Option.toList_some,
          List.append_nil]
        exact (moved.trans (List.perm_append_singleton ..).symm).append_left _
      · exact accounted
  | cancels idle flying =>
      simp only [lost, List.append_nil]
      apply books_settle.mpr
      apply Books.delete ⟨live, accounted⟩
      · have moved := List.perm_cons_erase flying
        simp only [deleteContext, pending, UvTcp.pending, idle, Option.bind_none,
          Option.toList_none, List.append_nil]
        exact (moved.append_left _).trans List.perm_middle
      · rfl
      · rfl
      · rfl
  | @shutDowns client rest idle next =>
      simp only [lost, List.append_nil]
      cases client
      · exact ⟨live, accounted⟩
      · constructor
        · simpa [shutdownCallback, UvTcp.close, pending, UvTcp.pending] using live
        · exact accounted
  | finishes running =>
      simp only [lost, List.append_nil, finish_eq]
      apply books_settle.mpr
      exact Books.ending ⟨live, accounted⟩ running

end TcpConnection

end Uvcpp
