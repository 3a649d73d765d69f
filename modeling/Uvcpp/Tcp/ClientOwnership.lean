/-
The owners of the handles of a TcpClient.

A handle belongs to the attempt it was made for, then to the connection that the attempt
became, and is closed once, when the attempt fails or by the connection's destructor.
-/

import Mathlib.Data.List.Nodup
import Mathlib.Data.List.Perm.Subperm
import Uvcpp.Tcp.ClientMoves
import Uvcpp.Tcp.ConnectionPhases

namespace Uvcpp.TcpClient

/-- The attempts that libuv does not yet know of and those it has not completed. -/
def attempts (s : TcpClient) : List Nat :=
  s.posted ++ s.connecting

/-- Each handle is that of one attempt or of one connection or of none, and is closed by
the connection's destructor or when the attempt fails. -/
structure Owned (s : TcpClient) : Prop where
  fresh : ∀ handle, s.created ≤ handle → s.handles handle = .init
  current : ∀ handle, handle + 1 = s.created → s.client = some handle
  distinct : s.attempts.Nodup
  made : ∀ handle ∈ s.attempts, handle < s.created
  pending : ∀ handle ∈ s.attempts, (s.handles handle).closings = 0
  unowned : ∀ handle ∈ s.attempts, ∀ conn < s.made, (s.connections conn).client ≠ handle
  owned : ∀ conn < s.made, (s.connections conn).client < s.created
  single : ∀ conn < s.made, ∀ other < s.made,
    (s.connections conn).client = (s.connections other).client → conn = other
  ended : ∀ conn < s.made,
    (s.handles (s.connections conn).client).closings = (s.connections conn).destroyed.toNat
  once : ∀ handle, (s.handles handle).closings ≤ 1
  held : ∀ conn, s.held conn = true → conn < s.made ∧ (s.connections conn).destroyed = false
  data : ∀ handle conn, s.data handle = some conn → conn < s.made

theorem start_owned : Owned start := by
  constructor <;> simp [start, attempts, UvTcp.init, UvTcp.closings, UvTcp.requests, held]

/-! ### Steps that leave the owners alone -/

/-- A change of what ownership does not look at; attempts may get lost. -/
structure Unmoved (s s' : TcpClient) : Prop where
  created : s'.created = s.created
  client : s'.client = s.client
  attempts : s'.attempts.Subperm s.attempts
  made : s'.made = s.made
  data : s'.data = s.data
  owners : ∀ conn, (s'.connections conn).client = (s.connections conn).client
  destroyed : ∀ conn, (s'.connections conn).destroyed = (s.connections conn).destroyed
  closings : ∀ handle, (s'.handles handle).closings = (s.handles handle).closings
  fresh : ∀ handle, s.created ≤ handle → s'.handles handle = s.handles handle
  held : ∀ conn, s'.held conn = true →
    s.held conn = true ∨ (conn < s.made ∧ (s.connections conn).destroyed = false)

theorem Owned.unmoved {s s' : TcpClient} (owned : Owned s) (same : Unmoved s s') : Owned s' := by
  have within : ∀ handle ∈ s'.attempts, handle ∈ s.attempts :=
    fun handle member => same.attempts.subset member
  constructor
  · intro handle above
    rw [same.created] at above
    rw [same.fresh handle above]
    exact owned.fresh handle above
  · intro handle last
    rw [same.created] at last
    rw [same.client]
    exact owned.current handle last
  · obtain ⟨kept, perm, sub⟩ := same.attempts
    exact perm.nodup_iff.mp (owned.distinct.sublist sub)
  · intro handle member
    rw [same.created]
    exact owned.made handle (within handle member)
  · intro handle member
    rw [same.closings]
    exact owned.pending handle (within handle member)
  · intro handle member conn below
    rw [same.made] at below
    rw [same.owners]
    exact owned.unowned handle (within handle member) conn below
  · intro conn below
    rw [same.made] at below
    rw [same.owners, same.created]
    exact owned.owned conn below
  · intro conn below other otherBelow equal
    rw [same.made] at below otherBelow
    rw [same.owners, same.owners] at equal
    exact owned.single conn below other otherBelow equal
  · intro conn below
    rw [same.made] at below
    rw [same.owners, same.closings, same.destroyed]
    exact owned.ended conn below
  · intro handle
    rw [same.closings]
    exact owned.once handle
  · intro conn held
    rw [same.made, same.destroyed]
    rcases same.held conn held with before | now
    · exact owned.held conn before
    · exact now
  · intro handle conn points
    rw [same.data] at points
    rw [same.made]
    exact owned.data handle conn points

/-- What a handle is asked short of a close. -/
theorem Owned.asks {s : TcpClient} (owned : Owned s) {handle : Nat} {h : UvTcp}
    (closings : h.closings = (s.handles handle).closings)
    (fresh : s.handles handle = .init → s.created ≤ handle → h = .init) :
    Owned (s.setHandle handle h) := by
  apply owned.unmoved
  constructor
  case closings =>
    intro other
    by_cases same : other = handle
    · subst same
      rw [setHandle_self]
      exact closings
    · rw [setHandle_of_ne s handle h same]
  case fresh =>
    intro other above
    by_cases same : other = handle
    · subst same
      have unused := owned.fresh other above
      rw [setHandle_self, unused]
      exact fresh unused above
    · exact setHandle_of_ne s handle h same
  case attempts => exact List.Subperm.refl _
  case held => exact fun conn held => .inl held
  all_goals first | rfl | exact fun _ => rfl

theorem Owned.readStart {s : TcpClient} (owned : Owned s) {handle : Nat}
    (below : handle < s.created) : Owned (s.setHandle handle (s.handles handle).readStart) := by
  apply owned.asks
  · rfl
  · intro _unused above
    omega

theorem Owned.readStop {s : TcpClient} (owned : Owned s) (handle : Nat) :
    Owned (s.setHandle handle (s.handles handle).readStop) := by
  apply owned.asks
  · rfl
  · intro unused _above
    rw [unused]
    rfl

theorem Owned.run {s : TcpClient} (owned : Owned s) {handle : Nat} {request : Request}
    {rest : List Request} (next : (s.handles handle).posted = request :: rest) :
    Owned (s.setHandle handle ({ s.handles handle with posted := rest }.execute request true)) := by
  apply owned.asks
  · exact UvTcp.closings_run _ true next
  · intro unused _above
    rw [unused] at next
    cases next

theorem shutDown_eq (s : TcpClient) (handle : Nat) (rest : List Bool) (client : Bool) :
    (s.setHandle handle { s.handles handle with shutdowns := rest }).shutdownCallback handle
        client =
      s.setHandle handle
        (if client then { s.handles handle with shutdowns := rest }.close
        else { s.handles handle with shutdowns := rest }) := by
  cases client <;> simp [shutdownCallback, setHandle]

theorem Owned.shutDown {s : TcpClient} (owned : Owned s) {handle : Nat} {client : Bool}
    {rest : List Bool} (next : (s.handles handle).shutdowns = client :: rest) :
    Owned ((s.setHandle handle { s.handles handle with shutdowns := rest }).shutdownCallback handle
      client) := by
  rw [shutDown_eq]
  apply owned.asks
  · cases client with
    | true => exact UvTcp.closings_report _ next
    | false => simp [UvTcp.closings, UvTcp.requests, next]
  · intro unused _above
    rw [unused] at next
    cases next

/-- The callback holds its connection. -/
theorem Owned.enter {s s' : TcpClient} (owned : Owned s) {handle conn : Nat}
    (locked : s.lock handle = some conn)
    (entered : ∃ state ended, s' =
      { s.setConnection conn { s.connections conn with state := state } with
        frame := some { stream := handle, conn := conn, ended := ended } }) : Owned s' := by
  obtain ⟨state, ended, rfl⟩ := entered
  obtain ⟨points, alive⟩ := lock_eq_some.mp locked
  apply owned.unmoved
  constructor
  case attempts => exact List.Subperm.refl _
  case owners =>
    intro other
    by_cases same : other = conn
    · subst same
      simp [setConnection]
    · simp [setConnection, same]
  case destroyed =>
    intro other
    by_cases same : other = conn
    · subst same
      simp [setConnection]
    · simp [setConnection, same]
  case held =>
    intro other held
    rcases held_eq_true.mp held with pointed | ⟨reading, running, same⟩
    · exact .inl (held_eq_true.mpr (.inl pointed))
    · cases running
      cases same
      exact .inr ⟨owned.data handle conn points, alive⟩
  all_goals first | rfl | exact fun _ => rfl | exact fun _ _ => rfl

/-! ### Steps that move a handle on -/

theorem Owned.connectImpl {s : TcpClient} (owned : Owned s) (thread : Thread) (ret : Bool) :
    Owned (s.connectImpl thread ret) := by
  have new : (s.connectImpl thread ret).attempts.Subperm (s.created :: s.attempts) := by
    cases thread with
    | loop =>
        cases ret with
        | false => exact (List.sublist_cons_self _ _).subperm
        | true =>
            simp only [TcpClient.connectImpl, uvTcpConnect, attempts, if_true, ← List.append_assoc]
            exact (List.perm_append_singleton _ _).subperm
    | user =>
        simp only [TcpClient.connectImpl, attempts, List.append_assoc, List.singleton_append]
        exact List.perm_middle.subperm
  have handles : (s.connectImpl thread ret).handles = s.handles := by
    cases thread <;> rfl
  have connections : (s.connectImpl thread ret).connections = s.connections := by
    cases thread <;> rfl
  have made : (s.connectImpl thread ret).made = s.made := by
    cases thread <;> rfl
  have created : (s.connectImpl thread ret).created = s.created + 1 := by
    cases thread <;> rfl
  have within : ∀ handle ∈ (s.connectImpl thread ret).attempts,
      handle = s.created ∨ handle ∈ s.attempts :=
    fun handle member => List.mem_cons.mp (new.subset member)
  constructor
  · intro handle above
    rw [created] at above
    rw [handles]
    exact owned.fresh handle (by omega)
  · intro handle last
    have same : handle = s.created := by omega
    cases thread <;> simp [TcpClient.connectImpl, uvTcpConnect, same]
  · obtain ⟨kept, perm, sub⟩ := new
    apply perm.nodup_iff.mp (List.Nodup.sublist sub ?_)
    exact List.nodup_cons.mpr
      ⟨fun member => Nat.lt_irrefl _ (owned.made _ member), owned.distinct⟩
  · intro handle member
    rw [created]
    rcases within handle member with last | earlier
    · omega
    · exact Nat.lt_succ_of_lt (owned.made handle earlier)
  · intro handle member
    rw [handles]
    rcases within handle member with last | earlier
    · rw [last, owned.fresh s.created (Nat.le_refl _)]
      rfl
    · exact owned.pending handle earlier
  · intro handle member conn below
    rw [made] at below
    rw [connections]
    rcases within handle member with last | earlier
    · have old := owned.owned conn below
      omega
    · exact owned.unowned handle earlier conn below
  · intro conn below
    rw [made] at below
    rw [connections, created]
    exact Nat.lt_succ_of_lt (owned.owned conn below)
  · rw [made, connections]
    exact owned.single
  · rw [made, connections, handles]
    exact owned.ended
  · rw [handles]
    exact owned.once
  · rw [made, connections]
    intro conn held
    apply owned.held
    cases thread <;> exact held
  · rw [made]
    intro handle conn points
    apply owned.data handle
    cases thread <;> exact points

/-- ~TcpConnection closes the connection's own handle, now or later. -/
theorem Owned.destroyConnection {s : TcpClient} (owned : Owned s) {conn : Nat} (thread : Thread)
    (below : conn < s.made) (alive : (s.connections conn).destroyed = false)
    (unheld : s.held conn = false) : Owned (s.destroyConnection conn thread) := by
  have final : (s.connections conn).lastRequest.isFinal = true := by
    unfold Connection.lastRequest
    split_ifs <;> rfl
  have zero : (s.handles (s.connections conn).client).closings = 0 := by
    rw [owned.ended conn below, alive]
    rfl
  have own : ((s.destroyConnection conn thread).handles (s.connections conn).client).closings =
      1 := by
    rw [destroyConnection_own, UvTcp.closings_runInLoopThread, zero, final]
    rfl
  have others : ∀ handle, handle ≠ (s.connections conn).client →
      (s.destroyConnection conn thread).handles handle = s.handles handle :=
    fun handle apart => destroyConnection_of_ne s conn thread apart
  have owners : ∀ other, ((s.destroyConnection conn thread).connections other).client =
      (s.connections other).client := by
    intro other
    rw [destroyConnection_connections]
    split_ifs with same
    · rw [same]
    · rfl
  have destroyed : ∀ other, ((s.destroyConnection conn thread).connections other).destroyed =
      if other = conn then true else (s.connections other).destroyed := by
    intro other
    rw [destroyConnection_connections]
    split_ifs <;> rfl
  constructor
  · intro handle above
    have bound : s.created ≤ handle := above
    have old := owned.owned conn below
    rw [others handle (by omega)]
    exact owned.fresh handle bound
  · exact owned.current
  · exact owned.distinct
  · exact owned.made
  · intro handle member
    rw [others handle (fun same => owned.unowned handle member conn below same.symm)]
    exact owned.pending handle member
  · intro handle member other otherBelow
    rw [owners]
    exact owned.unowned handle member other otherBelow
  · intro other otherBelow
    rw [owners]
    exact owned.owned other otherBelow
  · intro other otherBelow third thirdBelow equal
    rw [owners, owners] at equal
    exact owned.single other otherBelow third thirdBelow equal
  · intro other otherBelow
    rw [owners, destroyed]
    by_cases same : other = conn
    · rw [if_pos same, same]
      exact own
    · rw [if_neg same, others]
      · exact owned.ended other otherBelow
      · exact fun equal => same (owned.single other otherBelow conn below equal)
  · intro handle
    by_cases same : handle = (s.connections conn).client
    · rw [same, own]
    · rw [others handle same]
      exact owned.once handle
  · intro other held
    have apart : other ≠ conn := by
      rintro rfl
      exact absurd (show s.held other = true from held) (by rw [unheld]; decide)
    rw [destroyed, if_neg apart]
    exact owned.held other held
  · exact owned.data

theorem Owned.release {s : TcpClient} (owned : Owned s) {old : Option Nat} (thread : Thread)
    (live : ∀ conn, old = some conn →
      conn < s.made ∧ (s.connections conn).destroyed = false) : Owned (s.release old thread) := by
  rcases release_cases s old thread with same | ⟨conn, was, unheld, same⟩
  · rw [same]
    exact owned
  · rw [same]
    obtain ⟨below, alive⟩ := live conn was
    exact owned.destroyConnection thread below alive unheld

/-- The handle of a completed attempt, which is nobody's. -/
structure Loose (s : TcpClient) (handle : Nat) : Prop where
  made : handle < s.created
  idle : handle ∉ s.attempts
  unowned : ∀ conn < s.made, (s.connections conn).client ≠ handle
  unclosed : (s.handles handle).closings = 0

theorem Owned.close {s : TcpClient} (owned : Owned s) {handle : Nat} (loose : Loose s handle) :
    Owned (s.setHandle handle (s.handles handle).close) := by
  have own : ((s.setHandle handle (s.handles handle).close).handles handle).closings = 1 := by
    have asked : (s.handles handle).close.closings = (s.handles handle).closings + 1 :=
      UvTcp.closings_runInLoopThread (s.handles handle) .loop .close true
    rw [setHandle_self, asked, loose.unclosed]
  have others : ∀ other, other ≠ handle →
      (s.setHandle handle (s.handles handle).close).handles other = s.handles other :=
    fun other apart => setHandle_of_ne s handle _ apart
  constructor
  · intro other above
    have bound : s.created ≤ other := above
    have made := loose.made
    rw [others other (by omega)]
    exact owned.fresh other bound
  · exact owned.current
  · exact owned.distinct
  · exact owned.made
  · intro other member
    rw [others other (fun same => loose.idle (same ▸ member))]
    exact owned.pending other member
  · exact owned.unowned
  · exact owned.owned
  · exact owned.single
  · intro conn below
    have kept := owned.ended conn below
    rw [← others _ (loose.unowned conn below)] at kept
    exact kept
  · intro other
    by_cases same : other = handle
    · rw [same, own]
    · rw [others other same]
      exact owned.once other
  · exact owned.held
  · exact owned.data

/-- The attempt's handle becomes that of the new connection. -/
theorem Owned.newConnection {s : TcpClient} (owned : Owned s) {handle : Nat}
    (loose : Loose s handle) (idle : s.frame = none) : Owned (s.newConnection handle) := by
  have new := newConnection_new (s := s) handle
  have older : ∀ conn < s.made, (s.newConnection handle).connections conn = s.connections conn :=
    fun conn below => newConnection_older handle below
  have next : ∀ conn < s.made + 1, conn = s.made ∨ conn < s.made := by
    intro conn below
    omega
  constructor
  · exact owned.fresh
  · exact owned.current
  · exact owned.distinct
  · exact owned.made
  · exact owned.pending
  · intro other member conn below
    rcases next conn below with last | earlier
    · rw [last, new]
      rintro rfl
      exact loose.idle member
    · rw [older conn earlier]
      exact owned.unowned other member conn earlier
  · intro conn below
    rcases next conn below with last | earlier
    · rw [last, new]
      exact loose.made
    · rw [older conn earlier]
      exact owned.owned conn earlier
  · intro conn below other otherBelow equal
    rcases next conn below with last | earlier
    · rcases next other otherBelow with otherLast | otherEarlier
      · rw [last, otherLast]
      · rw [last, new, older other otherEarlier] at equal
        exact absurd equal.symm (loose.unowned other otherEarlier)
    · rcases next other otherBelow with otherLast | otherEarlier
      · rw [otherLast, new, older conn earlier] at equal
        exact absurd equal (loose.unowned conn earlier)
      · rw [older conn earlier, older other otherEarlier] at equal
        exact owned.single conn earlier other otherEarlier equal
  · intro conn below
    rcases next conn below with last | earlier
    · rw [last, new]
      exact loose.unclosed
    · rw [older conn earlier]
      exact owned.ended conn earlier
  · exact owned.once
  · intro conn held
    rcases held_eq_true.mp held with pointed | ⟨reading, running, _same⟩
    · cases pointed
      rw [new]
      exact ⟨Nat.lt_succ_self _, rfl⟩
    · rw [show (s.newConnection handle).frame = s.frame from rfl, idle] at running
      cases running
  · exact fun other conn points => Nat.lt_succ_of_lt (owned.data other conn points)

theorem Owned.makeShared {s : TcpClient} (owned : Owned s) {handle : Nat}
    (loose : Loose s handle) (idle : s.frame = none) : Owned (s.makeShared handle) := by
  have released : Owned ((s.newConnection handle).release s.connectionPtr .loop) := by
    apply (owned.newConnection loose idle).release
    intro old was
    obtain ⟨below, alive⟩ := owned.held old (held_eq_true.mpr (.inl was))
    rw [newConnection_older handle below]
    exact ⟨Nat.lt_succ_of_lt below, alive⟩
  have made : ((s.newConnection handle).release s.connectionPtr .loop).made = s.made + 1 := by
    obtain ⟨handles, connections, same⟩ :=
      release_eq (s.newConnection handle) s.connectionPtr .loop
    rw [same]
    rfl
  have points : ∀ other conn, Function.update s.data handle (some s.made) other = some conn →
      conn < ((s.newConnection handle).release s.connectionPtr .loop).made := by
    intro other conn points
    rw [made]
    by_cases same : other = handle
    · subst same
      rw [Function.update_self] at points
      cases points
      exact Nat.lt_succ_self _
    · rw [Function.update_of_ne same] at points
      exact Nat.lt_succ_of_lt (owned.data other conn points)
  rw [makeShared_eq]
  exact { released with data := points }

/-! ### Runs in which each attempt completes in its turn -/

/-- The attempt that completes is the latest that was made, and uv_read_start does not fail
after a success. -/
def InTurn (s : TcpClient) : Event → Prop
  | .complete handle status ret => handle + 1 = s.created ∧ (status = true → ret = true)
  | _ => True

/-- The completed attempt is taken off the list. -/
theorem Owned.complete {s : TcpClient} (owned : Owned s) {handle : Nat}
    (member : handle ∈ s.connecting) :
    Owned { s with connecting := s.connecting.erase handle } ∧
      Loose { s with connecting := s.connecting.erase handle } handle := by
  have listed : handle ∈ s.attempts := List.mem_append_right _ member
  obtain ⟨distinctPosted, distinctConnecting, apart⟩ := List.nodup_append.mp owned.distinct
  constructor
  · apply owned.unmoved
    constructor
    case attempts => exact ((List.erase_sublist (l := s.connecting)).append_left s.posted).subperm
    case held => exact fun conn held => .inl held
    all_goals first | rfl | exact fun _ => rfl | exact fun _ _ => rfl
  · constructor
    · exact owned.made handle listed
    · intro still
      rcases List.mem_append.mp still with posted | connecting
      · exact apart handle posted handle member rfl
      · exact (distinctConnecting.mem_erase_iff.mp connecting).1 rfl
    · exact owned.unowned handle listed
    · exact owned.pending handle listed

theorem Owned.start {s : TcpClient} (owned : Owned s) {handle : Nat} (ret : Bool)
    (member : handle ∈ s.posted) :
    Owned ({ s with posted := s.posted.erase handle }.uvTcpConnect handle ret) := by
  apply owned.unmoved
  constructor
  case attempts =>
    cases ret with
    | false => exact (List.erase_sublist.append_right s.connecting).subperm
    | true =>
        have moved : (s.posted.erase handle ++ (s.connecting ++ [handle])).Perm
            (handle :: (s.posted.erase handle ++ s.connecting)) := by
          rw [← List.append_assoc]
          exact List.perm_append_singleton _ _
        have restored : (handle :: (s.posted.erase handle ++ s.connecting)).Perm
            (s.posted ++ s.connecting) :=
          (List.perm_cons_erase member).symm.append_right s.connecting
        exact (moved.trans restored).subperm
  case held => exact fun conn held => .inl held
  all_goals first | rfl | exact fun _ => rfl | exact fun _ _ => rfl

theorem Owned.connectionCallback {s : TcpClient} (owned : Owned s) {handle : Nat}
    {status ret : Bool} (loose : Loose s handle) (idle : s.frame = none)
    (current : handle + 1 = s.created) (started : status = true → ret = true) :
    Owned (s.connectionCallback status ret) := by
  cases alive : s.alive with
  | false =>
      simp only [TcpClient.connectionCallback, alive, Bool.false_eq_true, if_false]
      exact { owned with }
  | true =>
      rw [connectionCallback_eq alive (owned.current handle current)]
      cases status with
      | true =>
          simp only [started rfl, if_true]
          apply Owned.makeShared (owned.readStart loose.made) ?_ idle
          have unclosed : ((s.setHandle handle (s.handles handle).readStart).handles
              handle).closings = 0 := by
            rw [setHandle_self]
            exact loose.unclosed
          exact { loose with unclosed := unclosed }
      | false => exact { owned.close loose with }

theorem Owned.finish {s : TcpClient} (owned : Owned s) {reading : Reading}
    (running : s.frame = some reading) : Owned (s.finish reading) := by
  obtain ⟨below, alive⟩ := owned.held reading.conn (held_eq_true.mpr (.inr ⟨reading, running, rfl⟩))
  let s₁ : TcpClient :=
    if reading.ended then s.setHandle reading.stream (s.handles reading.stream).readStop else s
  have owned₁ : Owned s₁ := by
    unfold s₁
    split_ifs
    · exact owned.readStop reading.stream
    · exact owned
  have kept : s₁.made = s.made ∧ s₁.connections = s.connections := by
    unfold s₁
    split_ifs <;> exact ⟨rfl, rfl⟩
  have owned₂ : Owned { s₁ with frame := none } := by
    apply owned₁.unmoved
    constructor
    case attempts => exact List.Subperm.refl _
    case held =>
      intro conn held
      rcases held_eq_true.mp held with pointed | ⟨other, absent, _same⟩
      · exact .inl (held_eq_true.mpr (.inl pointed))
      · cases absent
    all_goals first | rfl | exact fun _ => rfl | exact fun _ _ => rfl
  show Owned ({ s₁ with frame := none }.release (some reading.conn) .loop)
  apply owned₂.release
  rintro conn ⟨⟩
  show reading.conn < s₁.made ∧ (s₁.connections reading.conn).destroyed = false
  rw [kept.1, kept.2]
  exact ⟨below, alive⟩

theorem Owned.releaseMembers {s : TcpClient} (owned : Owned s) (thread : Thread) :
    Owned (s.releaseMembers thread) := by
  have owned₁ : Owned { s with connectionPtr := none } := by
    apply owned.unmoved
    constructor
    case attempts => exact List.Subperm.refl _
    case held =>
      intro conn held
      rcases held_eq_true.mp held with absent | callback
      · cases absent
      · exact .inl (held_eq_true.mpr (.inr callback))
    all_goals first | rfl | exact fun _ => rfl | exact fun _ _ => rfl
  apply owned₁.release
  intro conn was
  exact owned.held conn (held_eq_true.mpr (.inl was))

theorem Owned.step {s s' : TcpClient} {event : Event} (owned : Owned s)
    (effect : Effect s event s') (inTurn : InTurn s event) : Owned s' := by
  cases effect with
  | connects alive => exact Owned.connectImpl (s := { s with curr := 0 }) { owned with } _ _
  | sets alive => exact { owned with }
  | starts idle member => exact owned.start _ member
  | completes idle member =>
      obtain ⟨owned₁, loose⟩ := owned.complete member
      exact owned₁.connectionCallback loose idle inTurn.1 inTurn.2
  | fires idle running =>
      unfold timerCallback
      split_ifs
      · exact Owned.connectImpl (s := { s with timers := s.timers - 1 }) { owned with } _ _
      · exact { owned with }
  | misses idle active gone => exact { owned with }
  | repeats idle active locked finished => exact { owned with }
  | ends idle active locked => exact owned.enter locked ⟨_, true, rfl⟩
  | @reads handle conn idle active locked =>
      apply owned.enter locked
      refine ⟨(s.connections conn).state, false, ?_⟩
      simp [setConnection]
  | errors idle active => exact owned.readStop _
  | finishes running => exact owned.finish running
  | runs idle next => exact owned.run next
  | shutDowns idle next => exact owned.shutDown next
  | releases gone kept => exact owned.releaseMembers _

theorem inTurn_owned {s : TcpClient}
    (reachable : Transition.Reachable (system.restrict InTurn) s) : Owned s := by
  induction reachable with
  | start begins =>
      cases begins
      exact start_owned
  | next _before taken ih =>
      exact ih.step (step_effect taken.2).2 taken.1

end Uvcpp.TcpClient
