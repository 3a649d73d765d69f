/-
The order in which a connection hands its writes to libuv.

A send on the loop thread calls uv_write at once and overtakes what other threads have
posted.  Apart from that no write is moved: what reaches uv_write is a merge of the sends of
the loop thread and of those of the other threads, each in the order of the calls.
-/

import Uvcpp.Library.Merge
import Uvcpp.Tcp.ConnectionContexts

namespace Uvcpp

namespace UvTcp

/-- The writes that were handed to libuv, in order. -/
def handed (h : UvTcp) : List Nat :=
  h.executed.filterMap Request.context?

/-- The writes that wait in posted closures. -/
def waiting (h : UvTcp) : List Nat :=
  h.posted.filterMap Request.context?

section Other

variable {request : Request} (other : request.context? = none) (h : UvTcp) (thread : Thread)
  (ret : Bool)

include other

theorem handed_execute : (h.execute request ret).handed = h.handed := by
  cases request with
  | write context => cases other
  | shutdown client => simp [execute, shutdown, handed, Request.context?]
  | close => simp [execute, close, handed, Request.context?]

theorem waiting_execute : (h.execute request ret).waiting = h.waiting := by
  cases request <;> rfl

theorem handed_runInLoopThread :
    (h.runInLoopThread thread request ret).handed = h.handed := by
  cases thread with
  | loop => exact handed_execute other h ret
  | user => rfl

theorem waiting_runInLoopThread :
    (h.runInLoopThread thread request ret).waiting = h.waiting := by
  cases thread with
  | loop => exact waiting_execute other h ret
  | user => simp [runInLoopThread, waiting, other]

end Other

end UvTcp

namespace TcpConnection

/-- A step that neither sends nor runs a posted write leaves the writes where they are. -/
def KeepsWrites (c after : TcpConnection) : Prop :=
  after.created = c.created ∧ after.client.handed = c.client.handed ∧
    after.client.waiting = c.client.waiting

theorem KeepsWrites.trans {c middle after : TcpConnection} (first : KeepsWrites c middle)
    (second : KeepsWrites middle after) : KeepsWrites c after :=
  ⟨second.1.trans first.1, second.2.1.trans first.2.1, second.2.2.trans first.2.2⟩

theorem keeps_runInLoopThread {request : Request} (other : request.context? = none)
    (c : TcpConnection) (thread : Thread) (ret : Bool) :
    KeepsWrites c (c.runInLoopThread thread request ret) :=
  ⟨rfl, UvTcp.handed_runInLoopThread other c.client thread ret,
    UvTcp.waiting_runInLoopThread other c.client thread ret⟩

theorem keeps_settle (c : TcpConnection) (thread : Thread) :
    KeepsWrites c (c.settle thread) := by
  have posts {middle : TcpConnection} (same : KeepsWrites c middle) {request : Request}
      (other : request.context? = none) :
      KeepsWrites c (middle.runInLoopThread thread request true) :=
    same.trans (keeps_runInLoopThread other middle thread true)
  have same {state : ConnectionState} :
      KeepsWrites c { c with destroyed := true, state := state } :=
    ⟨rfl, rfl, rfl⟩
  unfold settle destructor shutdownWrite
  split_ifs
  · exact posts same rfl
  · exact posts same rfl
  · exact ⟨rfl, rfl, rfl⟩

theorem keeps_finish (c : TcpConnection) (frame : Frame) : KeepsWrites c (c.finish frame) := by
  have ending : KeepsWrites c (c.ending frame) := by
    cases frame <;> exact ⟨rfl, rfl, rfl⟩
  rw [finish_eq]
  exact ending.trans (keeps_settle _ .loop)

/-! ### Sends with their threads -/

/-- A connection with the contexts of its sends, by the thread that made the call, and those
whose write libuv has accepted. -/
structure Traffic where
  conn : TcpConnection
  users : List Nat
  loop : List Nat
  accepted : List Nat
deriving DecidableEq

/-- The context a send on the thread makes. -/
def sends (c : TcpConnection) (thread : Thread) : Event → List Nat
  | .send caller _ => if caller = thread then [c.created] else []
  | _ => []

/-- The write that libuv accepts at an event. -/
def accepts (c : TcpConnection) : Event → List Nat
  | .send .loop true => [c.created]
  | .run true => (c.client.posted.head?.bind Request.context?).toList
  | _ => []

namespace Traffic

def step (t : Traffic) (event : Event) : Option Traffic :=
  (t.conn.step event).map fun after =>
    { conn := after
      users := t.users ++ t.conn.sends .user event
      loop := t.loop ++ t.conn.sends .loop event
      accepted := t.accepted ++ t.conn.accepts event }

def start : Traffic :=
  { conn := TcpConnection.accepted
    users := []
    loop := []
    accepted := [] }

def system : Transition.System Traffic Event :=
  Transition.System.executed (fun t => t = start) step

/-- Of the sends of other threads those in front were handed over, merged with the sends of
the loop thread, and the others wait. -/
structure Ordered (t : Traffic) : Prop where
  merged : ∃ front, t.users = front ++ t.conn.client.waiting ∧
    Merge front t.loop t.conn.client.handed
  accepted : t.accepted.Sublist t.conn.client.handed
  numbered : ∀ context ∈ t.users ++ t.loop, context < t.conn.created
  distinct : (t.users ++ t.loop).Nodup

section Step

variable {t : Traffic}

/-- A step that neither sends nor runs a posted write. -/
theorem Ordered.keep (ordered : t.Ordered) {after : TcpConnection}
    (keeps : KeepsWrites t.conn after) : Ordered { t with conn := after } := by
  obtain ⟨created, handed, waiting⟩ := keeps
  constructor
  · rw [handed, waiting]
    exact ordered.merged
  · rw [handed]
    exact ordered.accepted
  · rw [created]
    exact ordered.numbered
  · exact ordered.distinct

/-- Another thread sends: its write waits behind the others. -/
theorem Ordered.sendUser (ordered : t.Ordered) (ret : Bool) :
    Ordered { t with conn := t.conn.send .user ret, users := t.users ++ [t.conn.created] } := by
  obtain ⟨front, users, merge⟩ := ordered.merged
  have waiting : (t.conn.send .user ret).client.waiting =
      t.conn.client.waiting ++ [t.conn.created] := by
    simp [send, TcpConnection.runInLoopThread, UvTcp.runInLoopThread, UvTcp.waiting,
      Request.context?]
  constructor
  · refine ⟨front, ?_, merge⟩
    rw [waiting, users, List.append_assoc]
  · exact ordered.accepted
  · intro context member
    rw [List.append_assoc, List.mem_append, List.mem_append] at member
    have before := ordered.numbered context
    change context < t.conn.created + 1
    grind
  · have distinct := ordered.distinct
    have fresh : t.conn.created ∉ t.users ++ t.loop := by
      intro member
      exact Nat.lt_irrefl _ (ordered.numbered _ member)
    grind

/-- The loop thread sends: its write is handed over at once. -/
theorem Ordered.sendLoop (ordered : t.Ordered) (ret : Bool) :
    Ordered { t with
      conn := t.conn.send .loop ret
      loop := t.loop ++ [t.conn.created]
      accepted := t.accepted ++ if ret then [t.conn.created] else [] } := by
  obtain ⟨front, users, merge⟩ := ordered.merged
  have handed : (t.conn.send .loop ret).client.handed =
      t.conn.client.handed ++ [t.conn.created] := by
    simp [send, TcpConnection.runInLoopThread, UvTcp.runInLoopThread, UvTcp.execute,
      UvTcp.write, UvTcp.handed, Request.context?]
  constructor
  · refine ⟨front, users, ?_⟩
    rw [handed]
    exact merge.right _
  · rw [handed]
    apply ordered.accepted.append
    split
    · exact List.Sublist.refl _
    · exact List.nil_sublist _
  · intro context member
    rw [List.mem_append, List.mem_append] at member
    have before := ordered.numbered context
    change context < t.conn.created + 1
    grind
  · have distinct := ordered.distinct
    have fresh : t.conn.created ∉ t.users ++ t.loop := by
      intro member
      exact Nat.lt_irrefl _ (ordered.numbered _ member)
    grind

/-- The loop thread runs a posted closure. -/
theorem Ordered.run (ordered : t.Ordered) {request : Request} {rest : List Request}
    (next : t.conn.client.posted = request :: rest) (ret : Bool) :
    Ordered { t with
      conn := { t.conn with client := { t.conn.client with posted := rest }.execute request ret }
      accepted := t.accepted ++ if ret then request.context?.toList else [] } := by
  cases known : request.context? with
  | none =>
      have handed : ({ t.conn.client with posted := rest }.execute request ret).handed =
          t.conn.client.handed :=
        UvTcp.handed_execute known _ ret
      have waiting : ({ t.conn.client with posted := rest }.execute request ret).waiting =
          t.conn.client.waiting := by
        rw [UvTcp.waiting_execute known, UvTcp.waiting, UvTcp.waiting, next]
        exact (List.filterMap_cons_none known).symm
      have kept : Ordered { t with conn := { t.conn with
          client := { t.conn.client with posted := rest }.execute request ret } } :=
        ordered.keep ⟨rfl, handed, waiting⟩
      simpa using kept
  | some context =>
      obtain ⟨front, users, merge⟩ := ordered.merged
      have write : request = .write context := by
        cases request <;> cases known
        rfl
      subst write
      have handed : ({ t.conn.client with posted := rest }.execute (.write context) ret).handed =
          t.conn.client.handed ++ [context] := by
        simp [UvTcp.execute, UvTcp.write, UvTcp.handed, Request.context?]
      have waiting : t.conn.client.waiting = context :: rest.filterMap Request.context? := by
        rw [UvTcp.waiting, next]
        rfl
      constructor
      · refine ⟨front ++ [context], ?_, ?_⟩
        · rw [users, waiting]
          simp [UvTcp.execute, UvTcp.write, UvTcp.waiting]
        · rw [handed]
          exact merge.left context
      · rw [handed]
        apply ordered.accepted.append
        split
        · exact List.Sublist.refl _
        · exact List.nil_sublist _
      · exact ordered.numbered
      · exact ordered.distinct

theorem Ordered.step {after : Traffic} {event : Event} (ordered : t.Ordered)
    (taken : t.step event = some after) : after.Ordered := by
  obtain ⟨conn, moved, result⟩ := Option.map_eq_some_iff.mp taken
  cases result
  have quiet (users : t.conn.sends .user event = []) (loop : t.conn.sends .loop event = [])
      (accepts : t.conn.accepts event = []) (keeps : KeepsWrites t.conn conn) :
      Ordered
        { conn := conn
          users := t.users ++ t.conn.sends .user event
          loop := t.loop ++ t.conn.sends .loop event
          accepted := t.accepted ++ t.conn.accepts event } := by
    rw [users, loop, accepts, List.append_nil, List.append_nil, List.append_nil]
    exact ordered.keep keeps
  cases step_effect moved with
  | @sends thread ret callable =>
      cases thread with
      | user => simpa [TcpConnection.sends, accepts] using ordered.sendUser ret
      | loop =>
          cases ret with
          | true => simpa [TcpConnection.sends, accepts] using ordered.sendLoop true
          | false => simpa [TcpConnection.sends, accepts] using ordered.sendLoop false
  | @runs ret request rest idle next =>
      have ran := ordered.run next ret
      cases ret <;> simpa [TcpConnection.sends, accepts, next] using ran
  | keeps | copies | misses | repeats | ends | reads | fails | completes =>
      exact quiet rfl rfl rfl ⟨rfl, rfl, rfl⟩
  | shuts | posts => exact quiet rfl rfl rfl (keeps_runInLoopThread rfl _ _ _)
  | tests => exact quiet rfl rfl rfl ⟨rfl, rfl, rfl⟩
  | drops => exact quiet rfl rfl rfl (keeps_settle _ _)
  | cancels => exact quiet rfl rfl rfl (keeps_settle _ _)
  | @shutDowns client rest idle next =>
      apply quiet rfl rfl rfl
      unfold shutdownCallback
      split
      · have other : Request.close.context? = none := rfl
        exact ⟨rfl, UvTcp.handed_execute other _ true, rfl⟩
      · exact ⟨rfl, rfl, rfl⟩
  | finishes => exact quiet rfl rfl rfl (keeps_finish _ _)

theorem reachable_ordered (reachable : Transition.Reachable system t) : t.Ordered := by
  induction reachable with
  | start begins =>
      cases begins
      exact ⟨⟨[], rfl, .nil⟩, List.Sublist.refl _, by simp [start], by simp [start]⟩
  | next _before taken ih => exact ih.step taken

end Step

/-- The history is only that: the connection runs as it does without it. -/
theorem reachable_conn {t : Traffic} (reachable : Transition.Reachable system t) :
    Transition.Reachable TcpConnection.system t.conn := by
  induction reachable with
  | start begins =>
      cases begins
      exact .start rfl
  | next _before taken ih =>
      obtain ⟨conn, moved, result⟩ := Option.map_eq_some_iff.mp taken
      cases result
      exact ih.next moved

end Traffic

/-- **Send order.** In every run each send is handed to uv_write at most once.  Those of the
loop thread are handed over in the order of the calls and none of them waits; of those of
the other threads the ones in front are, and the others wait in their order. -/
theorem sends_in_order {t : Traffic} (reachable : Transition.Reachable Traffic.system t) :
    (∃ front, t.users = front ++ t.conn.client.waiting ∧
        Merge front t.loop t.conn.client.handed) ∧
      t.accepted.Sublist t.conn.client.handed ∧
      (t.conn.client.handed ++ t.conn.client.waiting).Nodup := by
  have ordered := Traffic.reachable_ordered reachable
  obtain ⟨front, users, merge⟩ := ordered.merged
  refine ⟨⟨front, users, merge⟩, ordered.accepted, ?_⟩
  have all : (t.conn.client.handed ++ t.conn.client.waiting).Perm (t.users ++ t.loop) := by
    rw [users, List.append_assoc]
    refine (merge.perm.append_right _).trans ?_
    rw [List.append_assoc]
    exact List.perm_append_comm.append_left front
  exact all.nodup_iff.mpr ordered.distinct

/-- A send of a user thread that the loop thread overtakes. -/
theorem sends_in_order_overtaken :
    ∃ t, Transition.Reachable Traffic.system t ∧ t.users = [0, 2] ∧ t.loop = [1] ∧
      t.conn.client.handed = [1, 0] ∧ t.conn.client.waiting = [2] ∧
      (∃ front, t.users = front ++ t.conn.client.waiting ∧
        Merge front t.loop t.conn.client.handed) := by
  have found : ∃ t ∈ Transition.execute Traffic.step Traffic.start
      [.copy, .send .user true, .send .loop true, .finish, .run true, .send .user true],
      t.users = [0, 2] ∧ t.loop = [1] ∧ t.conn.client.handed = [1, 0] ∧
        t.conn.client.waiting = [2] := by
    decide
  obtain ⟨t, reachable, users, loop, handed, waiting⟩ := Transition.exists_reachable found
  exact ⟨t, reachable, users, loop, handed, waiting, (sends_in_order reachable).1⟩

end TcpConnection

end Uvcpp
