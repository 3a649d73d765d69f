/-
When a TcpServer and its TcpConnections agree.

The record of a client counts the references to its connection that are not in the map, and
knows whether the handle is being read; the map refers to the connection that is registered.
-/

import Uvcpp.Tcp.ServerRegistry
import Uvcpp.Tcp.ServerWheel
import Uvcpp.Tcp.Serving

namespace Uvcpp.TcpServer

open Server

/-! ### References -/

section References

variable {timeout : Int} {pool : Option (List Nat)} {s s' : Server} {client : Nat}

theorem inMap_congr (map : s'.connectionMap = s.connectionMap)
    (id : (s'.clients client).id = (s.clients client).id)
    (loop : (s'.clients client).loop = (s.clients client).loop) :
    s'.InMap client ↔ s.InMap client := by
  rw [Server.InMap, Server.InMap, map, id, loop]

/-- A weak_ptr finds the connection in the map or by another reference. -/
theorem referenced_iff (affine : Affine s) (ready : (s.clients client).ready = true) :
    s.referenced client = true ↔ s.InMap client ∨ 0 < (s.clients client).users := by
  have registered : s.registered client = true ↔ s.InMap client := by
    unfold Server.registered
    rw [List.any_eq_true]
    constructor
    · rintro ⟨loop, _listed, present⟩
      have found := beq_iff_eq.mp present
      rw [(affine.map loop _ client found).2.2] at found
      exact found
    · intro inMap
      exact ⟨_, loop_listed affine ready, beq_iff_eq.mpr inMap⟩
  rw [Server.referenced, Bool.or_eq_true, registered, decide_eq_true_eq]

theorem count_clients (s : Server) (client users other : Nat) :
    (s.count client users).clients other =
      { s.clients other with
        users := if other = client then users else (s.clients other).users } := by
  by_cases same : other = client
  · subst same
    simp [Server.count, Server.setClient]
  · simp [Server.count, Server.setClient, same]

@[simp] theorem count_count (s : Server) (client first second : Nat) :
    (s.count client first).count client second = s.count client second := by
  simp [Server.count, Server.setClient]

theorem count_self (s : Server) (client : Nat) :
    s.count client (s.clients client).users = s := by
  simp [Server.count, Server.setClient]

theorem inMap_count (s : Server) (client users other : Nat) :
    (s.count client users).InMap other ↔ s.InMap other := by
  apply inMap_congr
  · rfl
  · rw [count_clients]
  · rw [count_clients]

theorem count_users (s : Server) (client users : Nat) :
    ((s.count client users).clients client).users = users := by
  rw [count_clients, if_pos rfl]

theorem drop_count (used : 0 < (s.clients client).users) :
    step s (.drop client) = some (s.count client ((s.clients client).users - 1)) :=
  if_pos used

theorem copy_count (referenced : s.referenced client = true) :
    step s (.copy client) = some (s.count client ((s.clients client).users + 1)) :=
  if_pos referenced

theorem users_dropped (reachable : Transition.Reachable (system timeout pool) s) (fewer : Nat)
    (within : fewer ≤ (s.clients client).users) :
    Transition.Reachable (system timeout pool)
      (s.count client ((s.clients client).users - fewer)) := by
  induction fewer with
  | zero =>
      rw [Nat.sub_zero, count_self]
      exact reachable
  | succ fewer ih =>
      have before := ih (Nat.le_of_succ_le within)
      have left := Nat.sub_pos_of_lt within
      rw [← count_users s client ((s.clients client).users - fewer)] at left
      have taken := drop_count left
      rw [count_users, count_count, Nat.sub_sub] at taken
      exact before.next taken

theorem users_copied (reachable : Transition.Reachable (system timeout pool) s)
    (ready : (s.clients client).ready = true) (referenced : s.referenced client = true)
    (more : Nat) :
    Transition.Reachable (system timeout pool)
      (s.count client ((s.clients client).users + more)) := by
  have held := (referenced_iff (reachable_affine reachable) ready).mp referenced
  induction more with
  | zero =>
      rw [Nat.add_zero, count_self]
      exact reachable
  | succ more ih =>
      have still : (s.count client ((s.clients client).users + more)).referenced client =
          true := by
        rw [referenced_iff (reachable_affine ih), inMap_count, count_users]
        · exact held.imp_right fun counted => Nat.add_pos_left counted more
        · rw [count_clients]
          exact ready
      have taken := copy_count still
      rw [count_users, count_count, Nat.add_assoc] at taken
      exact ih.next taken

/-- Whatever is done with the references of a connection, the server has seen it done. -/
theorem users_counted (reachable : Transition.Reachable (system timeout pool) s)
    (ready : (s.clients client).ready = true) {users : Nat}
    (possible : users ≤ (s.clients client).users ∨ s.referenced client = true) :
    Transition.Reachable (system timeout pool) (s.count client users) := by
  by_cases fewer : users ≤ (s.clients client).users
  · have dropped := users_dropped reachable ((s.clients client).users - users)
      (Nat.sub_le _ _)
    rwa [Nat.sub_sub_self fewer] at dropped
  · have copied := users_copied reachable ready (possible.resolve_left fewer)
      (users - (s.clients client).users)
    rwa [Nat.add_sub_of_le (Nat.le_of_not_le fewer)] at copied

end References

/-! ### Agreement -/

/-- A connection and what the server knows of it. -/
structure Agrees (s : Server) (client : Nat) (c : TcpConnection) : Prop where
  reachable : Transition.Reachable TcpConnection.system c
  users : (s.clients client).users = c.outside
  reading : (s.clients client).reading = c.client.reading
  registered : s.InMap client ↔ c.registered = true
  alone : c.frame.isSome = true → s.releasing (s.clients client).loop = none

/-- There is a connection for each client that is set up. -/
structure Matched (v : Serving) : Prop where
  made : ∀ client, (v.connections client).isSome = (v.server.clients client).ready
  agrees : ∀ client c, v.connections client = some c → Agrees v.server client c

section Agrees

variable {s s' : Server} {client : Nat} {c : TcpConnection}

/-- Nothing else of the server matters. -/
theorem Agrees.congr (agrees : Agrees s client c)
    (users : (s'.clients client).users = (s.clients client).users)
    (reading : (s'.clients client).reading = (s.clients client).reading)
    (map : s'.InMap client ↔ s.InMap client)
    (alone : c.frame.isSome = true → s.releasing (s.clients client).loop = none →
      s'.releasing (s'.clients client).loop = none) : Agrees s' client c := by
  constructor
  · exact agrees.reachable
  · exact users.trans agrees.users
  · exact reading.trans agrees.reading
  · exact map.trans agrees.registered
  · exact fun inside => alone inside (agrees.alone inside)

/-- The others keep their records. -/
theorem Agrees.keep (agrees : Agrees s client c)
    (record : s'.clients client = s.clients client) (map : s'.InMap client ↔ s.InMap client)
    (releasing : s'.releasing = s.releasing) : Agrees s' client c := by
  apply agrees.congr
  · rw [record]
  · rw [record]
  · exact map
  · rw [record, releasing]
    exact fun _inside idle => idle

theorem held_alive (reachable : Transition.Reachable TcpConnection.system c) :
    0 < c.holders ↔ c.destroyed = false := by
  constructor
  · exact (TcpConnection.reachable_sound reachable).1.alive
  · intro alive
    apply Nat.pos_of_ne_zero
    intro unheld
    rw [TcpConnection.reachable_settled reachable unheld] at alive
    cases alive

theorem copied (reachable : Transition.Reachable TcpConnection.system c)
    (alive : c.destroyed = false) :
    Transition.Reachable TcpConnection.system { c with users := c.users + 1 } := by
  have taken : TcpConnection.step c .copy = some { c with users := c.users + 1 } := by
    simp [TcpConnection.step, TcpConnection.reachable_asserts reachable,
      (held_alive reachable).mpr alive]
  exact reachable.next taken

/-- ~Entry finds the connection exactly while it has not been destroyed. -/
theorem Agrees.referenced (agrees : Agrees s client c) (affine : Affine s)
    (ready : (s.clients client).ready = true) :
    s.referenced client = true ↔ c.destroyed = false := by
  rw [referenced_iff affine ready, agrees.registered, agrees.users, ← held_alive agrees.reachable,
    TcpConnection.holders_outside]
  cases c.registered with
  | false => simp
  | true =>
      apply iff_of_true (.inl rfl)
      rw [Bool.toNat_true]
      omega

/-- The count is brought up to date. -/
theorem agrees_count (reachable : Transition.Reachable TcpConnection.system c)
    (reading : (s.clients client).reading = c.client.reading)
    (registered : s.InMap client ↔ c.registered = true)
    (alone : c.frame.isSome = true → s.releasing (s.clients client).loop = none) :
    Agrees (s.count client c.outside) client c := by
  constructor
  · exact reachable
  · exact count_users s client c.outside
  · rw [count_clients]
    exact reading
  · rw [inMap_count]
    exact registered
  · rw [count_clients]
    exact alone

end Agrees

section Matched

variable {v : Serving} {client : Nat} {c : TcpConnection}

@[simp] theorem put_server (v : Serving) (client : Nat) (c : TcpConnection) :
    (v.put client c).server = v.server.count client c.outside :=
  rfl

@[simp] theorem put_self (v : Serving) (client : Nat) (c : TcpConnection) :
    (v.put client c).connections client = some c :=
  Function.update_self ..

theorem put_other (v : Serving) {client other : Nat} (c : TcpConnection)
    (distinct : other ≠ client) :
    (v.put client c).connections other = v.connections other :=
  Function.update_of_ne distinct ..

/-- One connection moves, and the others see nothing of it. -/
theorem matched_put
    (made : ∀ other, other ≠ client →
      (v.connections other).isSome = (v.server.clients other).ready)
    (agrees : ∀ other c, other ≠ client → v.connections other = some c →
      Agrees v.server other c)
    (ready : (v.server.clients client).ready = true)
    (own : Agrees (v.server.count client c.outside) client c) : Matched (v.put client c) := by
  constructor
  · intro other
    rw [put_server, count_clients]
    by_cases same : other = client
    · rw [same, put_self, ready]
      rfl
    · rw [put_other v c same]
      exact made other same
  · intro other c' present
    by_cases same : other = client
    · subst same
      rw [put_self] at present
      cases present
      exact own
    · rw [put_other v c same] at present
      rw [put_server]
      apply (agrees other c' same present).congr
      · rw [count_clients, if_neg same]
      · rw [count_clients]
      · exact inMap_count _ _ _ _
      · rw [count_clients]
        exact fun _inside idle => idle

theorem displace_vacant {loop : Loop} {id : Nat}
    (vacant : v.server.connectionMap loop id = none) : v.displace loop id client = v := by
  rw [Serving.displace, vacant]

theorem displace_own {loop : Loop} {id : Nat}
    (own : v.server.connectionMap loop id = some client) : v.displace loop id client = v := by
  rw [Serving.displace, own]
  exact if_pos rfl

theorem inMap_setUp {s : Server} {loop : Loop} {client other : Nat} {ret : Bool}
    (distinct : other ≠ client)
    (vacant : ret = true → s.connectionMap loop (s.clients client).id = none) :
    (s.setUp loop client ret).InMap other ↔ s.InMap other := by
  rw [Server.InMap, Server.InMap, setUp_keeps distinct, setUp_map]
  split_ifs with taken
  · obtain ⟨accepts, sameLoop, sameId⟩ := taken
    rw [sameLoop, sameId, vacant accepts]
    simp [Ne.symm distinct]
  · rfl

theorem setUp_inMap (s : Server) (loop : Loop) (client : Nat) :
    (s.setUp loop client true).InMap client := by
  simp [Server.InMap, setUp_map, setUp_clients]

/-- The others do not see the set-up of a client. -/
theorem Agrees.setUp {s : Server} {loop : Loop} {client other : Nat} {ret : Bool}
    (agrees : Agrees s other c) (distinct : other ≠ client)
    (vacant : ret = true → s.connectionMap loop (s.clients client).id = none) :
    Agrees (s.setUp loop client ret) other c := by
  apply agrees.keep
  · exact setUp_keeps distinct
  · exact inMap_setUp distinct vacant
  · exact setUp_releasing s loop client ret

theorem Matched.distinct (matched : Matched v) {other : Nat} {c : TcpConnection}
    (unready : (v.server.clients client).ready = false)
    (present : v.connections other = some c) : other ≠ client := by
  rintro rfl
  have made := matched.made other
  rw [present, unready] at made
  cases made

theorem Matched.setUp (matched : Matched v) {loop : Loop} {ret : Bool}
    (unready : (v.server.clients client).ready = false)
    (idle : v.server.releasing loop = none)
    (vacant : ret = true → v.server.connectionMap loop (v.server.clients client).id = none) :
    Matched (v.setUp loop client ret) := by
  have others : ∀ other c, v.connections other = some c →
      Agrees (v.server.setUp loop client ret) other c := by
    intro other c present
    exact (matched.agrees other c present).setUp (matched.distinct unready present) vacant
  have made : ∀ other, other ≠ client →
      (v.connections other).isSome = ((v.server.setUp loop client ret).clients other).ready := by
    intro other distinct
    rw [setUp_keeps distinct]
    exact matched.made other
  cases ret with
  | false =>
      constructor
      · intro other
        by_cases same : other = client
        · have made := matched.made client
          simpa [same, Serving.setUp, setUp_clients] using made
        · exact made other same
      · exact others
  | true =>
      rw [Serving.setUp, if_pos rfl, displace_vacant (vacant rfl)]
      apply matched_put
      · exact made
      · exact fun other c _distinct => others other c
      · simp [setUp_clients]
      · apply agrees_count
        · exact .start rfl
        · simp [setUp_clients, TcpConnection.accepted, UvTcp.new]
        · simp [setUp_inMap, TcpConnection.accepted]
        · intro _inside
          simpa [setUp_clients] using idle

end Matched

end Uvcpp.TcpServer
