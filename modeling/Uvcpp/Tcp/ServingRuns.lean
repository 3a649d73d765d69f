/-
Runs of a TcpServer with its TcpConnections.

A step of the whole is a step of the server, a step of one connection, or both, after which
the references are counted again.
-/

import Uvcpp.Tcp.ServingAgreement

namespace Uvcpp.TcpServer

open Server

/-! ### Steps of the server -/

/-- The server and its connections make runs of their own, and match. -/
structure Linked (timeout : Int) (pool : Option (List Nat)) (v : Serving) : Prop where
  server : Transition.Reachable (system timeout pool) v.server
  matched : Matched v

section Steps

variable {timeout : Int} {pool : Option (List Nat)} {v v' : Serving}

theorem inside_idle {loop : Loop} (outside : v.inside loop = false) :
    v.server.releasing loop = none := by
  unfold Serving.inside at outside
  simpa using (Bool.or_eq_false_iff.mp outside).1

theorem Linked.ready (linked : Linked timeout pool v) {client : Nat} {c : TcpConnection}
    (present : v.connections client = some c) : (v.server.clients client).ready = true := by
  rw [← linked.matched.made client, present]
  rfl

theorem Linked.idle (linked : Linked timeout pool v) {client : Nat} {c : TcpConnection}
    (outside : v.inside (v.server.clients client).loop = false)
    (present : v.connections client = some c) : c.frame = none := by
  have accepted := ((reachable_affine linked.server).ready client (linked.ready present)).1
  unfold Serving.inside at outside
  have none := List.any_eq_false.mp (Bool.or_eq_false_iff.mp outside).2 client
    (List.mem_range.mpr accepted)
  simpa [present] using none

/-- Wheels, ticks and posted closures are nothing to a connection, except that no callback is
running when a tick begins. -/
theorem Matched.congr (matched : Matched v) {s : Server}
    (clients : s.clients = v.server.clients) (map : s.connectionMap = v.server.connectionMap)
    (alone : ∀ client c, v.connections client = some c → c.frame.isSome = true →
      v.server.releasing (v.server.clients client).loop = none →
        s.releasing (v.server.clients client).loop = none) :
    Matched { v with server := s } := by
  constructor
  · intro client
    rw [clients]
    exact matched.made client
  · intro client c present
    apply (matched.agrees client c present).congr
    · rw [clients]
    · rw [clients]
    · apply inMap_congr map <;> rw [clients]
    · rw [clients]
      exact alone client c present

theorem Linked.setUp (matched : Matched v) {loop : Loop} {client : Nat} {ret : Bool}
    (reached : Transition.Reachable (system timeout pool) (v.server.setUp loop client ret))
    (unready : (v.server.clients client).ready = false)
    (idle : v.server.releasing loop = none)
    (vacant : ret = true → v.server.connectionMap loop (v.server.clients client).id = none) :
    Linked timeout pool (v.setUp loop client ret) := by
  constructor
  · cases ret with
    | false => exact reached
    | true =>
        rw [Serving.setUp, if_pos rfl, displace_vacant (vacant rfl), put_server]
        have ready : ((v.server.setUp loop client true).clients client).ready = true := by
          simp [setUp_clients]
        apply users_counted reached ready
        right
        rw [referenced_iff (reachable_affine reached) ready]
        exact .inl (setUp_inMap v.server loop client)
  · exact matched.setUp unready idle vacant

theorem Matched.accept (matched : Matched v) (affine : Affine v.server) :
    Matched { v with server := v.server.accept } := by
  have new : (v.server.clients v.server.accepted).ready = false := by
    apply Bool.eq_false_iff.mpr
    intro ready
    exact Nat.lt_irrefl _ (affine.ready _ ready).1
  constructor
  · intro client
    by_cases same : client = v.server.accepted
    · have made := matched.made client
      rw [same, new] at made
      simpa [same, (accept_new v.server).2] using made
    · rw [accept_keeps same]
      exact matched.made client
  · intro client c present
    have same := accept_keeps (matched.distinct new present)
    apply (matched.agrees client c present).keep
    · exact same
    · apply inMap_congr
      · rfl
      · rw [same]
      · rw [same]
    · rfl

theorem Linked.posts (linked : Linked timeout pool v) {loop : Loop}
    (reached : Transition.Reachable (system timeout pool)
      (v.server.accept.post loop v.server.accepted)) :
    Linked timeout pool { v with server := v.server.accept.post loop v.server.accepted } := by
  have accepted := linked.matched.accept (reachable_affine linked.server)
  constructor
  · exact reached
  · exact accepted.congr rfl rfl fun _client _c _present _inside idle => idle

theorem Linked.accepts (linked : Linked timeout pool v) {ret : Bool}
    (alone : v.server.pool = none) (idle : v.server.releasing .main = none)
    (few : v.server.accepted < 2 ^ 64) :
    Linked timeout pool
      ({ v with server := v.server.accept }.setUp .main v.server.accepted ret) := by
  have affine := reachable_affine linked.server
  have taken : step v.server (.accept ret) =
      some (v.server.accept.setUp .main v.server.accepted ret) := by
    simp only [step, idle, if_true, newConnectionCallback, alone]
  have counted : (v.server.accept.setUp .main v.server.accepted ret).accepted ≤ 2 ^ 64 := by
    rw [setUp_accepted]
    exact few
  have fresh := few_fresh affine (step_effect taken) counted
  apply Linked.setUp
  · exact linked.matched.accept affine
  · exact linked.server.next taken
  · exact (accept_new v.server).2
  · exact idle
  · rintro rfl
    simpa [reuses, alone, Server.accept, Server.setClient] using fresh

theorem Linked.runs (linked : Linked timeout pool v) {loop : Loop} {client : Nat} {ret : Bool}
    (idle : v.server.releasing loop = none) (waits : client ∈ v.server.posted loop)
    (few : v.server.accepted ≤ 2 ^ 64) :
    Linked timeout pool
      ({ v with server := v.server.unpost loop client }.setUp loop client ret) := by
  have affine := reachable_affine linked.server
  have taken : step v.server (.run loop client ret) =
      some ((v.server.unpost loop client).setUp loop client ret) := if_pos ⟨idle, waits⟩
  have within : ((v.server.unpost loop client).setUp loop client ret).accepted ≤ 2 ^ 64 := by
    rw [setUp_accepted]
    exact few
  have fresh := few_fresh affine (step_effect taken) within
  apply Linked.setUp
  · exact linked.matched.congr rfl rfl fun _client _c _present _inside idle => idle
  · exact linked.server.next taken
  · exact (affine.posted loop client waits).2.1
  · exact idle
  · rintro rfl
    simpa [reuses, Server.unpost] using fresh

theorem Linked.ticks (linked : Linked timeout pool v) {loop : Loop} {server : Server}
    (timed : 0 < v.server.timeout) (free : v.inside loop = false)
    (popped : v.server.checkConnection loop = some server) :
    Linked timeout pool { v with server := server } := by
  have idle := inside_idle free
  have taken : step v.server (.tick loop) = some server := by
    simp only [step, timed, idle, and_self, if_true, popped]
  have effect := step_effect taken
  constructor
  · exact linked.server.next taken
  · cases effect with
    | ticks _timed _idle next =>
        apply linked.matched.congr
        · rfl
        · rfl
        · intro client c present inside outside
          have distinct : (v.server.clients client).loop ≠ loop := by
            intro same
            rw [linked.idle (by rw [same]; exact free) present] at inside
            cases inside
          simpa [Function.update_of_ne distinct] using outside

theorem Linked.ticked (linked : Linked timeout pool v) {loop : Loop}
    (finished : v.server.releasing loop = some []) :
    Linked timeout pool { v with server := v.server.checked loop } := by
  have taken : step v.server (.ticked loop) = some (v.server.checked loop) := if_pos finished
  constructor
  · exact linked.server.next taken
  · apply linked.matched.congr
    · rfl
    · rfl
    · intro client c _present _inside outside
      by_cases same : (v.server.clients client).loop = loop
      · simp [Server.checked, same]
      · simpa [Server.checked, Server.setWhell, Function.update_of_ne same] using outside

/-- One connection moves by itself, with the server following. -/
theorem linked_put {client : Nat} {c : TcpConnection}
    (reached : Transition.Reachable (system timeout pool) v.server)
    (made : ∀ other, other ≠ client →
      (v.connections other).isSome = (v.server.clients other).ready)
    (agrees : ∀ other c, other ≠ client → v.connections other = some c →
      Agrees v.server other c)
    (ready : (v.server.clients client).ready = true)
    (own : Agrees (v.server.count client c.outside) client c)
    (possible : c.outside ≤ (v.server.clients client).users ∨
      v.server.referenced client = true) : Linked timeout pool (v.put client c) := by
  constructor
  · rw [put_server]
    exact users_counted reached ready possible
  · exact matched_put made agrees ready own

theorem Linked.releases (linked : Linked timeout pool v) {loop : Loop} {bucket : List Nat}
    {client : Nat} (inside : v.server.releasing loop = some bucket) (member : client ∈ bucket) :
    Linked timeout pool (v.release loop bucket client) := by
  have affine := reachable_affine linked.server
  have ready := (affine.held loop client (.inr ⟨bucket, inside, member⟩)).1
  have taken : step v.server (.release loop client) =
      some (v.server.release loop bucket client) := by
    simp only [step, inside, member, if_true]
  have reached := linked.server.next taken
  obtain ⟨c, present⟩ : ∃ c, v.connections client = some c := by
    rw [← Option.isSome_iff_exists, linked.matched.made client, ready]
  have agrees := linked.matched.agrees client c present
  -- Nothing changes for the connections when the loop stays inside the tick.
  have matched : ∀ idle, Matched { v with
      server := { v.server with
        releasing := Function.update v.server.releasing loop (some (bucket.erase client))
        idle := idle } } := by
    intro idle
    apply linked.matched.congr
    · rfl
    · rfl
    · intro other c' _present _inside outside
      have distinct : (v.server.clients other).loop ≠ loop := by
        intro same
        rw [same, inside] at outside
        cases outside
      simpa [Function.update_of_ne distinct] using outside
  have known := agrees.referenced affine ready
  unfold Server.release at reached
  unfold Serving.release
  dsimp only at reached ⊢
  split_ifs at reached ⊢ with entry referenced
  · exact ⟨reached, matched v.server.idle⟩
  · have alive := known.mp referenced
    have quiet := matched (v.server.idle ++ [client])
    have same := quiet.agrees client c present
    simp only [present]
    rw [if_neg (ne_true_of_eq_false alive)]
    apply linked_put
    · exact reached
    · exact fun other _distinct => quiet.made other
    · exact fun other c' _distinct => quiet.agrees other c'
    · exact ready
    · apply agrees_count
      · exact copied agrees.reachable alive
      · exact same.reading
      · exact same.registered
      · exact same.alone
    · exact .inr referenced
  · have dead : c.destroyed = true := by
      by_contra alive
      exact referenced (known.mpr (by simpa using alive))
    simp only [present, dead, if_true]
    exact ⟨reached, matched v.server.idle⟩

/-- What is left of the events of a connection does not concern the server. -/
theorem Linked.moves (linked : Linked timeout pool v) {client : Nat} {c c' : TcpConnection}
    {event : TcpConnection.Event} (present : v.connections client = some c)
    (idle : event.begins = true → v.server.releasing (v.server.clients client).loop = none)
    (taken : TcpConnection.step c event = some c') (going : event ≠ .read .error)
    (other : event = .finish → c.frame ≠ some .ended) :
    Linked timeout pool (v.put client c') := by
  have agrees := linked.matched.agrees client c present
  have effect := TcpConnection.step_effect taken
  have sound := (TcpConnection.reachable_sound agrees.reachable).1
  apply linked_put
  · exact linked.server
  · exact fun other _distinct => linked.matched.made other
  · exact fun other c' _distinct => linked.matched.agrees other c'
  · exact linked.ready present
  · apply agrees_count
    · exact agrees.reachable.next taken
    · rw [agrees.reading, TcpConnection.reading_step sound effect going other]
    · rw [agrees.registered, TcpConnection.registered_step effect other]
    · intro begun
      rcases TcpConnection.frame_step effect begun with inside | begins
      · exact agrees.alone inside
      · exact idle begins
  · rcases TcpConnection.outside_step agrees.reachable effect with fewer | held
    · rw [agrees.users]
      exact .inl fewer
    · right
      rw [agrees.referenced (reachable_affine linked.server) (linked.ready present)]
      exact (held_alive agrees.reachable).mp held

/-- A handle that is read belongs to a live connection. -/
theorem Linked.reads (linked : Linked timeout pool v) {client : Nat} {c : TcpConnection}
    (present : v.connections client = some c)
    (idle : v.server.releasing (v.server.clients client).loop = none)
    (reading : c.client.reading = true) (nread : Nread) :
    Transition.Reachable (system timeout pool) (v.server.readCallback client nread) := by
  have agrees := linked.matched.agrees client c present
  have sound := (TcpConnection.reachable_sound agrees.reachable).1
  have alive := TcpConnection.reading_alive sound reading
  have known := agrees.referenced (reachable_affine linked.server) (linked.ready present)
  have seen : step v.server (.read client nread) =
      some (v.server.readCallback client nread) := by
    simp [step, idle, agrees.reading, reading, known.mpr alive]
  exact linked.server.next seen

/-- Data renews the entry and the activity of the client. -/
theorem data_keeps (s : Server) (client : Nat) :
    (s.readCallback client .data).connectionMap = s.connectionMap ∧
      (s.readCallback client .data).releasing = s.releasing ∧
        ∀ other, ∃ activity, (s.readCallback client .data).clients other =
          { s.clients other with activity := activity } := by
  unfold Server.readCallback
  dsimp only
  split_ifs
  · refine ⟨rfl, rfl, fun other => ?_⟩
    by_cases same : other = client
    · subst same
      exact ⟨s.ticks (s.clients other).loop, by simp [updateConnection, Server.setClient]⟩
    · exact ⟨(s.clients other).activity, by
        simp [updateConnection, Server.setClient, Server.setWhell, same]⟩
  · exact ⟨rfl, rfl, fun other => ⟨(s.clients other).activity, rfl⟩⟩

theorem Matched.data (matched : Matched v) (client : Nat) :
    Matched { v with server := v.server.readCallback client .data } := by
  obtain ⟨map, releasing, clients⟩ := data_keeps v.server client
  constructor
  · intro other
    obtain ⟨activity, same⟩ := clients other
    rw [same]
    exact matched.made other
  · intro other c present
    obtain ⟨activity, same⟩ := clients other
    apply (matched.agrees other c present).congr
    · rw [same]
    · rw [same]
    · apply inMap_congr map
      · rw [same]
      · rw [same]
    · rw [same, releasing]
      exact fun _inside idle => idle

theorem Linked.fails (linked : Linked timeout pool v) {client : Nat} {c c' : TcpConnection}
    (present : v.connections client = some c)
    (idle : v.server.releasing (v.server.clients client).loop = none)
    (taken : TcpConnection.step c (.read .error) = some c') :
    Linked timeout pool
      ({ v with server := v.server.readCallback client .error }.put client c') := by
  have agrees := linked.matched.agrees client c present
  have reading := (TcpConnection.read_idle taken).2
  have sound := (TcpConnection.reachable_sound agrees.reachable).1
  have alive := TcpConnection.reading_alive sound reading
  have reached := linked.reads present idle reading .error
  have kept : ∀ other, other ≠ client →
      (v.server.readCallback client .error).clients other = v.server.clients other :=
    fun other distinct => Function.update_of_ne distinct ..
  have own : (v.server.readCallback client .error).clients client =
      { v.server.clients client with reading := false, failed := true } :=
    Function.update_self ..
  have stopped := agrees.reachable.next taken
  cases TcpConnection.step_effect taken with
  | misses _reading dead =>
      rw [alive] at dead
      cases dead
  | fails _reading =>
      apply linked_put
      · exact reached
      · intro other distinct
        rw [kept other distinct]
        exact linked.matched.made other
      · intro other c' distinct found
        apply (linked.matched.agrees other c' found).keep
        · exact kept other distinct
        · apply inMap_congr
          · rfl
          · rw [kept other distinct]
          · rw [kept other distinct]
        · rfl
      · rw [own]
        exact linked.ready present
      · apply agrees_count
        · exact stopped
        · rw [own]
          rfl
        · rw [← agrees.registered]
          apply inMap_congr
          · rfl
          · rw [own]
          · rw [own]
        · rw [own]
          exact fun _inside => idle
      · rw [own, agrees.users]
        exact .inl (Nat.le_of_eq rfl)

/-- The callback for the EOF ends with removeConnection. -/
theorem Linked.ends (linked : Linked timeout pool v) {client : Nat} {c c' : TcpConnection}
    (present : v.connections client = some c) (ended : c.frame = some .ended)
    (taken : TcpConnection.step c .finish = some c') :
    Linked timeout pool ((v.handle client c .finish).put client c') := by
  have agrees := linked.matched.agrees client c present
  have reading := TcpConnection.ended_reading agrees.reachable ended
  have sound := (TcpConnection.reachable_sound agrees.reachable).1
  have inMap := agrees.registered.mpr (sound.reading reading)
  have idle := agrees.alone (by rw [ended]; rfl)
  have reached := linked.reads present idle reading .eof
  have finished := agrees.reachable.next taken
  have handled : v.handle client c .finish =
      { v with server := v.server.readCallback client .eof } := by
    simp only [Serving.handle, ended, if_true]
    rw [displace_own inMap]
  have kept : ∀ other, other ≠ client →
      (v.server.readCallback client .eof).clients other = v.server.clients other :=
    fun other distinct => Function.update_of_ne distinct ..
  have own : (v.server.readCallback client .eof).clients client =
      { v.server.clients client with reading := false, ended := true } :=
    Function.update_self ..
  have still : ((v.server.readCallback client .eof).clients client).ready = true := by
    rw [own]
    exact linked.ready present
  rw [handled]
  cases TcpConnection.step_effect taken with
  | @finishes frame running =>
      rw [ended] at running
      cases running
      apply linked_put
      · exact reached
      · intro other distinct
        rw [kept other distinct]
        exact linked.matched.made other
      · intro other c' distinct found
        apply (linked.matched.agrees other c' found).keep
        · exact kept other distinct
        · rw [Server.InMap, Server.InMap, kept other distinct]
          simp only [Server.readCallback, eof_map]
          split_ifs with taken
          · rw [taken.1, taken.2, (show _ = some client from inMap)]
            simp [Ne.symm distinct]
          · rfl
        · rfl
      · exact still
      · apply agrees_count
        · exact finished
        · rw [own, TcpConnection.finish_eq, TcpConnection.settle_reading]
          · rfl
          · intro impossible
            cases impossible
        · have gone : (c.finish .ended).registered = false := by
            rw [TcpConnection.finish_eq, TcpConnection.settle_registered]
            rfl
          rw [gone, Server.InMap, own]
          simp only [Server.readCallback, eof_map]
          simp
        · rw [TcpConnection.finish_eq, TcpConnection.settle_frame, TcpConnection.ending_frame]
          intro impossible
          cases impossible
      · right
        rw [referenced_iff (reachable_affine reached) still, own]
        right
        rw [agrees.users]
        simp [TcpConnection.outside, ended, Frame.holds]

theorem Linked.handles (linked : Linked timeout pool v) {client : Nat} {c c' : TcpConnection}
    {event : TcpConnection.Event} (present : v.connections client = some c)
    (free : event.begins = true → v.inside (v.server.clients client).loop = false)
    (taken : TcpConnection.step c event = some c') :
    Linked timeout pool ((v.handle client c event).put client c') := by
  have agrees := linked.matched.agrees client c present
  have sound := (TcpConnection.reachable_sound agrees.reachable).1
  have idle : event.begins = true → v.server.releasing (v.server.clients client).loop = none :=
    fun begins => inside_idle (free begins)
  cases event with
  | read nread =>
      have reading := (TcpConnection.read_idle taken).2
      have alive := ne_true_of_eq_false (TcpConnection.reading_alive sound reading)
      cases nread with
      | data =>
          have renewed : Linked timeout pool
              { v with server := v.server.readCallback client .data } :=
            ⟨linked.reads present (idle rfl) reading .data, linked.matched.data client⟩
          obtain ⟨_map, releasing, clients⟩ := data_keeps v.server client
          obtain ⟨activity, same⟩ := clients client
          rw [Serving.handle, if_neg alive]
          apply renewed.moves present
          · rw [releasing, same]
            exact idle
          · exact taken
          · simp
          · simp
      | eof => exact linked.moves present idle taken (by simp) (by simp)
      | error =>
          rw [Serving.handle, if_neg alive]
          exact linked.fails present (idle rfl) taken
  | finish =>
      by_cases ended : c.frame = some .ended
      · exact linked.ends present ended taken
      · rw [Serving.handle, if_neg ended]
        exact linked.moves present idle taken (by simp) fun _ => ended
  | _ => exact linked.moves present idle taken (by simp) (by simp)

theorem Linked.step {event : ServingEvent} (linked : Linked timeout pool v)
    (effect : ServingEffect v event v') (few : v'.server.accepted ≤ 2 ^ 64) :
    Linked timeout pool v' := by
  have within := Nat.le_trans (serving_grows effect) few
  cases effect with
  | @posts ret threads loop free threaded target =>
      apply linked.posts
      have taken : TcpServer.step v.server (.accept ret) =
          some (v.server.accept.post loop v.server.accepted) := by
        simp [TcpServer.step, inside_idle free, newConnectionCallback, threaded, target]
      exact linked.server.next taken
  | accepts free alone =>
      rw [serving_setUp_accepted] at few
      exact linked.accepts alone (inside_idle free) few
  | runs free waits => exact linked.runs (inside_idle free) waits within
  | ticks timed free popped => exact linked.ticks timed free popped
  | releases inside member => exact linked.releases inside member
  | ticked finished => exact linked.ticked finished
  | moves present free taken => exact linked.handles present free taken

end Steps

/-! ### The server with its connections -/

/-- What the server knows of a connection is true of it, and a connection that the server
has lost and nobody holds has had its handle closed, once the loop is through with it. -/
structure Served (s : Server) (client : Nat) (c : TcpConnection) : Prop where
  run : Transition.Reachable TcpConnection.system c
  asserts : c.aborted = false
  map : s.InMap client ↔ c.registered = true
  ended : (s.clients client).ended = true ↔ c.registered = false
  reading : (s.clients client).reading = c.client.reading
  alive : s.referenced client = true ↔ c.destroyed = false
  closed : s.referenced client = false → c.client.posted = [] → c.client.shutdowns = [] →
    c.client.executed.count .close = 1

section Reachable

variable {timeout : Int} {pool : Option (List Nat)} {v : Serving}

theorem serving_linked
    (reachable : Transition.Reachable (Serving.system timeout pool) v)
    (few : v.server.accepted ≤ 2 ^ 64) : Linked timeout pool v := by
  induction reachable with
  | start begins =>
      cases begins
      constructor
      · exact .start rfl
      · constructor
        · exact fun _client => rfl
        · intro client c impossible
          cases impossible
  | next _before taken ih =>
      have effect := serving_effect taken
      exact (ih (Nat.le_trans (serving_grows effect) few)).step effect few

theorem Linked.served (linked : Linked timeout pool v) (few : v.server.accepted ≤ 2 ^ 64)
    {client : Nat} {c : TcpConnection} (present : v.connections client = some c) :
    Served v.server client c := by
  have ready := linked.ready present
  have agrees := linked.matched.agrees client c present
  have alive := agrees.referenced (reachable_affine linked.server) ready
  have sound := (TcpConnection.reachable_sound agrees.reachable).1
  constructor
  · exact agrees.reachable
  · exact TcpConnection.reachable_asserts agrees.reachable
  · exact agrees.registered
  · have listed := (few_registry linked.server few).listed client ready
    rw [agrees.registered] at listed
    cases registered : c.registered <;> simp_all
  · exact agrees.reading
  · exact alive
  · intro lost none_posted none_shut
    have dead : c.destroyed = true := by
      by_contra living
      rw [alive.mpr (by simpa using living)] at lost
      cases lost
    have closings := sound.asked.closings
    simpa [UvTcp.closings, UvTcp.requests, none_posted, none_shut, dead] using closings

/-- In every run of a server with its connections the server takes the steps of its own model
and each connection those of a connection, and they agree. -/
theorem connections_served
    (reachable : Transition.Reachable (Serving.system timeout pool) v)
    (few : v.server.accepted ≤ 2 ^ 64) :
    Transition.Reachable (system timeout pool) v.server ∧
      (∀ client, (v.connections client).isSome = (v.server.clients client).ready) ∧
        ∀ client c, v.connections client = some c → Served v.server client c := by
  have linked := serving_linked reachable few
  exact ⟨linked.server, linked.matched.made, fun client c present => linked.served few present⟩

end Reachable

/-- A client is set up, sends, and is closed after its EOF. -/
def servedLife : List ServingEvent :=
  [.accept true, .run (.child 0) 0 true, .connection 0 (.send .loop true), .connection 0 .finish,
    .connection 0 (.read .eof), .connection 0 .finish, .connection 0 (.written 0 true),
    .connection 0 .finish, .connection 0 .shutDown]

theorem connections_served_closed :
    ∃ v, Transition.Reachable (Serving.system 0 (some [0])) v ∧ v.server.referenced 0 = false ∧
      ∃ c, v.connections 0 = some c ∧ Served v.server 0 c ∧
        c.client.executed = [.write 0, .shutdown true, .close] := by
  have found : ∃ v ∈ Transition.execute Serving.step (Serving.start 0 (some [0])) servedLife,
      v.server.accepted = 1 ∧ v.server.referenced 0 = false ∧
        ∃ c ∈ v.connections 0, c.client.executed = [.write 0, .shutdown true, .close] := by
    decide +kernel
  obtain ⟨v, reachable, single, lost, c, present, executed⟩ := Transition.exists_reachable found
  have few : v.server.accepted ≤ 2 ^ 64 := by
    rw [single]
    decide
  have served := (connections_served reachable few).2.2 0 c present
  exact ⟨v, reachable, lost, c, present, served, executed⟩

end Uvcpp.TcpServer
