/-
The steps of a TcpServer.
-/

import Mathlib.Data.Bool.Basic
import Uvcpp.Tcp.TcpServer

namespace Uvcpp.TcpServer

/-! ### Fields -/

namespace Server

section Fields

variable (s : Server) (loop : Loop) (client : Nat) (ret : Bool)

@[simp] theorem setUp_timeout : (s.setUp loop client ret).timeout = s.timeout := by
  unfold setUp
  dsimp only
  split_ifs <;> rfl

@[simp] theorem setUp_pool : (s.setUp loop client ret).pool = s.pool := by
  unfold setUp
  dsimp only
  split_ifs <;> rfl

@[simp] theorem setUp_connectionId :
    (s.setUp loop client ret).connectionId = s.connectionId := by
  unfold setUp
  dsimp only
  split_ifs <;> rfl

@[simp] theorem setUp_accepted : (s.setUp loop client ret).accepted = s.accepted := by
  unfold setUp
  dsimp only
  split_ifs <;> rfl

@[simp] theorem setUp_posted : (s.setUp loop client ret).posted = s.posted := by
  unfold setUp
  dsimp only
  split_ifs <;> rfl

@[simp] theorem setUp_releasing : (s.setUp loop client ret).releasing = s.releasing := by
  unfold setUp
  dsimp only
  split_ifs <;> rfl

@[simp] theorem setUp_ticks : (s.setUp loop client ret).ticks = s.ticks := by
  unfold setUp
  dsimp only
  split_ifs <;> rfl

@[simp] theorem setUp_idle : (s.setUp loop client ret).idle = s.idle := by
  unfold setUp
  dsimp only
  split_ifs <;> rfl

theorem setUp_clients (other : Nat) :
    (s.setUp loop client ret).clients other =
      if other = client then
        if ret then
          { s.clients client with
            loop := loop
            ready := true
            reading := true
            activity := s.ticks loop }
        else { s.clients client with loop := loop }
      else s.clients other := by
  unfold setUp
  dsimp only
  by_cases same : other = client
  · subst same
    split_ifs <;> simp_all [setClient, setMap, setWhell]
  · split_ifs <;> simp_all [setClient, setMap, setWhell]

theorem setUp_map (other : Loop) (id : Nat) :
    (s.setUp loop client ret).connectionMap other id =
      if ret = true ∧ other = loop ∧ id = (s.clients client).id then some client
      else s.connectionMap other id := by
  unfold setUp
  dsimp only
  cases ret with
  | false => simp [setClient]
  | true =>
      by_cases sameLoop : other = loop
      · subst sameLoop
        by_cases sameId : id = (s.clients client).id
        · subst sameId
          split_ifs <;> simp_all [setClient, setMap, setWhell]
        · split_ifs <;> simp_all [setClient, setMap, setWhell]
      · split_ifs <;> simp_all [setClient, setMap, setWhell]

theorem setUp_whell (other : Loop) :
    (s.setUp loop client ret).whell other =
      if ret = true ∧ 0 < s.timeout ∧ other = loop then Wheel.insertBack (s.whell other) client
      else s.whell other := by
  unfold setUp
  dsimp only
  cases ret with
  | false => simp [setClient]
  | true =>
      by_cases sameLoop : other = loop
      · subst sameLoop
        split_ifs <;> simp_all [setClient, setMap, setWhell]
      · split_ifs <;> simp_all [setClient, setMap, setWhell]

end Fields

end Server

/-! ### Effects -/

/-- Everything a step can do. -/
inductive Effect (s : Server) : Event → Server → Prop where
  | posts {ret : Bool} {threads : List Nat} {loop : Loop} (pool : s.pool = some threads)
      (target : Server.getLoop threads s.connectionId = some loop) :
      Effect s (.accept ret) (s.accept.post loop s.accepted)
  | accepts {ret : Bool} (alone : s.pool = none) (idle : s.releasing .main = none) :
      Effect s (.accept ret) (s.accept.setUp .main s.accepted ret)
  | runs {loop : Loop} {client : Nat} {ret : Bool} (idle : s.releasing loop = none)
      (waits : client ∈ s.posted loop) :
      Effect s (.run loop client ret) ((s.unpost loop client).setUp loop client ret)
  | touches {client : Nat} (idle : s.releasing (s.clients client).loop = none)
      (reading : (s.clients client).reading = true) (alive : s.entryAlive client = true) :
      Effect s (.read client .data) (s.updateConnection (s.clients client).loop client)
  | reads {client : Nat} (dead : s.entryAlive client = false) : Effect s (.read client .data) s
  | ends {client : Nat} (idle : s.releasing (s.clients client).loop = none)
      (reading : (s.clients client).reading = true) :
      Effect s (.read client .eof)
        ((s.setClient client { s.clients client with reading := false, ended := true }
          ).removeConnection (s.clients client).loop client)
  | fails {client : Nat} (reading : (s.clients client).reading = true) :
      Effect s (.read client .error)
        (s.setClient client { s.clients client with reading := false, failed := true })
  | ticks {loop : Loop} {bucket : List Nat} {rest : List (List Nat)} (timed : 0 < s.timeout)
      (idle : s.releasing loop = none) (next : s.whell loop = bucket :: rest) :
      Effect s (.tick loop)
        { s.setWhell loop rest with
          releasing := Function.update s.releasing loop (some bucket)
          ticks := Function.update s.ticks loop (s.ticks loop + 1) }
  | releases {loop : Loop} {bucket : List Nat} {client : Nat}
      (inside : s.releasing loop = some bucket) (member : client ∈ bucket) :
      Effect s (.release loop client) (s.release loop bucket client)
  | ticked {loop : Loop} (finished : s.releasing loop = some []) :
      Effect s (.ticked loop) (s.checked loop)
  | copies {client : Nat} (referenced : s.referenced client = true) :
      Effect s (.copy client)
        (s.setClient client { s.clients client with users := (s.clients client).users + 1 })
  | drops {client : Nat} (used : 0 < (s.clients client).users) :
      Effect s (.drop client)
        (s.setClient client { s.clients client with users := (s.clients client).users - 1 })

theorem step_effect {s s' : Server} {event : Event} (taken : step s event = some s') :
    Effect s event s' := by
  unfold step at taken
  cases event
  all_goals dsimp only at taken
  case accept ret =>
    split at taken
    · unfold Server.newConnectionCallback at taken
      cases pool : s.pool with
      | none =>
          simp only [pool, Option.some.injEq] at taken
          subst taken
          exact .accepts pool ‹_›
      | some threads =>
          simp only [pool] at taken
          obtain ⟨loop, target, rfl⟩ := Option.map_eq_some_iff.mp taken
          exact .posts pool target
    · cases taken
  case run loop client ret =>
    split at taken
    · obtain ⟨idle, waits⟩ := ‹s.releasing loop = none ∧ client ∈ s.posted loop›
      cases taken
      exact .runs idle waits
    · cases taken
  case read client nread =>
    split at taken
    · rename_i allowed
      obtain ⟨idle, reading, _referenced⟩ := allowed
      cases taken
      cases nread with
      | data =>
          cases alive : s.entryAlive client with
          | true =>
              simp only [Server.readCallback, alive, if_true]
              exact .touches idle reading alive
          | false =>
              simp only [Server.readCallback, alive, Bool.false_eq_true, if_false]
              exact .reads alive
      | eof => exact .ends idle reading
      | error => exact .fails reading
    · cases taken
  case tick loop =>
    split at taken
    · rename_i allowed
      obtain ⟨timed, idle⟩ := allowed
      cases next : s.whell loop with
      | nil => simp [Server.checkConnection, next] at taken
      | cons bucket rest =>
          simp only [Server.checkConnection, next, Option.some.injEq] at taken
          subst taken
          exact .ticks timed idle next
    · cases taken
  case release loop client =>
    split at taken
    · split at taken
      · cases taken
        exact .releases ‹_› ‹_›
      · cases taken
    · cases taken
  case ticked loop =>
    split at taken
    · cases taken
      exact .ticked ‹_›
    · cases taken
  case copy client =>
    split at taken
    · cases taken
      exact .copies ‹_›
    · cases taken
  case drop client =>
    split at taken
    · cases taken
      exact .drops ‹_›
    · cases taken

end Uvcpp.TcpServer
