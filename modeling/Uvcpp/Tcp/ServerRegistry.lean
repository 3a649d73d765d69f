/-
The registry of a TcpServer.

A connection is put into the map of its loop when it is set up and taken out by its
EOF.  A read error leaves it there, and so would an id that comes round again.
-/

import Uvcpp.Tcp.ServerAffinity

namespace Uvcpp.TcpServer

open Server

/-- Whether a connection is in the map of its loop. -/
def Server.InMap (s : Server) (client : Nat) : Prop :=
  s.connectionMap (s.clients client).loop (s.clients client).id = some client

/-- A set-up whose id is still in the map. -/
def reuses (s : Server) : Event → Bool
  | .run loop client true => (s.connectionMap loop (s.clients client).id).isSome
  | .accept true => s.pool.isNone && (s.connectionMap .main s.connectionId).isSome
  | _ => false

/-- Only the EOF takes a connection out of the map. -/
structure Registry (s : Server) : Prop where
  listed : ∀ client, (s.clients client).ready = true →
    (s.InMap client ↔ (s.clients client).ended = false)
  going : ∀ client, (s.clients client).reading = true → (s.clients client).ended = false
  fresh : ∀ client, (s.clients client).ready = false → (s.clients client).ended = false

theorem start_registry (timeout : Int) (pool : Option (List Nat)) :
    Registry (start timeout pool) := by
  constructor <;> simp [start]

/-- Records may change in what the registry does not look at. -/
theorem Registry.setClient {s : Server} (registry : Registry s) {client : Nat} {record : Client}
    (id : record.id = (s.clients client).id) (loop : record.loop = (s.clients client).loop)
    (ready : record.ready = (s.clients client).ready)
    (ended : record.ended = (s.clients client).ended)
    (reading : record.reading = true → (s.clients client).reading = true) :
    Registry (s.setClient client record) := by
  constructor
  · intro other isReady
    unfold Server.InMap
    by_cases same : other = client
    · subst same
      simp only [Server.setClient, Function.update_self, id, loop, ready, ended] at isReady ⊢
      exact registry.listed other isReady
    · simp only [Server.setClient, Function.update_of_ne same] at isReady ⊢
      exact registry.listed other isReady
  · intro other isReading
    by_cases same : other = client
    · subst same
      simp only [Server.setClient, Function.update_self, ended] at isReading ⊢
      exact registry.going other (reading isReading)
    · simp only [Server.setClient, Function.update_of_ne same] at isReading ⊢
      exact registry.going other isReading
  · intro other unready
    by_cases same : other = client
    · subst same
      simp only [Server.setClient, Function.update_self, ready, ended] at unready ⊢
      exact registry.fresh other unready
    · simp only [Server.setClient, Function.update_of_ne same] at unready ⊢
      exact registry.fresh other unready

theorem Registry.accept {s : Server} (registry : Registry s) : Registry s.accept := by
  have new : (s.accept.clients s.accepted).ready = false := (accept_new s).2
  constructor
  · intro client ready
    by_cases same : client = s.accepted
    · rw [same, new] at ready
      cases ready
    · unfold Server.InMap
      rw [accept_keeps same] at ready ⊢
      exact registry.listed client ready
  · intro client reading
    by_cases same : client = s.accepted
    · simp [same, Server.accept, Server.setClient]
    · rw [accept_keeps same] at reading ⊢
      exact registry.going client reading
  · intro client unready
    by_cases same : client = s.accepted
    · simp [same, Server.accept, Server.setClient]
    · rw [accept_keeps same] at unready ⊢
      exact registry.fresh client unready

theorem Registry.setUp {s : Server} (registry : Registry s) {loop : Loop}
    {client : Nat} {ret : Bool} (unready : (s.clients client).ready = false)
    (vacant : ret = true → s.connectionMap loop (s.clients client).id = none) :
    Registry (s.setUp loop client ret) := by
  have fresh := registry.fresh client unready
  have distinct : ∀ other, (s.clients other).ready = true → other ≠ client := by
    rintro other ready rfl
    rw [unready] at ready
    cases ready
  have self : ((s.setUp loop client ret).clients client).ended = false := by
    rw [setUp_clients]
    split_ifs <;> exact fresh
  constructor
  · intro other ready
    unfold Server.InMap
    rw [setUp_map]
    rcases ready_setUp ready with before | ⟨accepts, same, place⟩
    · have apart := distinct other before
      rw [setUp_keeps apart]
      split_ifs with taken
      · obtain ⟨accepts, sameLoop, sameId⟩ := taken
        have out : ¬ s.InMap other := by
          unfold Server.InMap
          rw [sameLoop, sameId, vacant accepts]
          simp
        have listed := registry.listed other before
        have ended : (s.clients other).ended ≠ false := fun going => out (listed.mpr going)
        simp [Ne.symm apart, ended]
      · exact registry.listed other before
    · rw [same] at place ⊢
      have sameId : ((s.setUp loop client ret).clients client).id = (s.clients client).id := by
        rw [setUp_clients]
        split_ifs <;> rfl
      rw [place, self, sameId]
      simp [accepts]
  · intro other reading
    by_cases same : other = client
    · rw [same]
      exact self
    · rw [setUp_keeps same] at reading ⊢
      exact registry.going other reading
  · intro other notReady
    by_cases same : other = client
    · rw [same]
      exact self
    · rw [setUp_keeps same] at notReady ⊢
      exact registry.fresh other notReady

theorem eof_map (s : Server) (client : Nat) (loop : Loop) (id : Nat) :
    ((s.setClient client { s.clients client with reading := false, ended := true }
      ).removeConnection (s.clients client).loop client).connectionMap loop id =
        if loop = (s.clients client).loop ∧ id = (s.clients client).id then none
        else s.connectionMap loop id := by
  by_cases sameLoop : loop = (s.clients client).loop
  · subst sameLoop
    by_cases sameId : id = (s.clients client).id
    · subst sameId
      simp [removeConnection, setClient, setMap]
    · simp [removeConnection, setClient, setMap, sameId]
  · simp [removeConnection, setClient, setMap, sameLoop]

theorem Registry.eof {s : Server} (affine : Affine s) (registry : Registry s) {client : Nat}
    (reading : (s.clients client).reading = true) :
    Registry ((s.setClient client { s.clients client with reading := false, ended := true }
      ).removeConnection (s.clients client).loop client) := by
  have ready := affine.reading client reading
  have inMap : s.InMap client := (registry.listed client ready).mpr (registry.going client reading)
  constructor
  · intro other isReady
    unfold Server.InMap
    rw [eof_map]
    by_cases same : other = client
    · subst same
      simp [removeConnection, Server.setClient, setMap]
    · simp only [removeConnection, Server.setClient, setMap, Function.update_of_ne same]
        at isReady ⊢
      split_ifs with taken
      · have out : ¬ s.InMap other := by
          unfold Server.InMap at inMap ⊢
          rw [taken.1, taken.2, inMap]
          simp [Ne.symm same]
        have ended : (s.clients other).ended ≠ false :=
          fun going => out ((registry.listed other isReady).mpr going)
        simp [ended]
      · exact registry.listed other isReady
  · intro other isReading
    by_cases same : other = client
    · subst same
      simp [removeConnection, Server.setClient, setMap] at isReading
    · simp only [removeConnection, Server.setClient, setMap, Function.update_of_ne same]
        at isReading ⊢
      exact registry.going other isReading
  · intro other unready
    by_cases same : other = client
    · subst same
      simp [removeConnection, Server.setClient, setMap, ready] at unready
    · simp only [removeConnection, Server.setClient, setMap, Function.update_of_ne same]
        at unready ⊢
      exact registry.fresh other unready

/-- The wheels and the closures do not matter. -/
theorem Registry.congr {s s' : Server} (registry : Registry s) (clients : s'.clients = s.clients)
    (map : s'.connectionMap = s.connectionMap) : Registry s' := by
  constructor
  · unfold Server.InMap
    rw [clients, map]
    exact registry.listed
  · rw [clients]
    exact registry.going
  · rw [clients]
    exact registry.fresh

theorem Registry.step {s s' : Server} {event : Event} (effect : Effect s event s')
    (affine : Affine s) (registry : Registry s) (fresh : reuses s event = false) :
    Registry s' := by
  cases effect with
  | posts pool target =>
      apply registry.accept.congr
      · rfl
      · rfl
  | @accepts ret alone idle =>
      apply registry.accept.setUp (accept_new s).2
      rintro rfl
      simpa [reuses, alone, Server.accept, Server.setClient] using fresh
  | @runs loop client ret idle waits =>
      apply Registry.setUp
      · apply registry.congr
        · rfl
        · rfl
      · exact (affine.posted loop client waits).2.1
      · rintro rfl
        simpa [reuses, Server.unpost] using fresh
  | touches idle reading alive =>
      apply Registry.setClient
      · apply registry.congr
        · rfl
        · rfl
      · rfl
      · rfl
      · rfl
      · rfl
      · exact id
  | reads dead => exact registry
  | ends idle reading => exact registry.eof affine reading
  | fails reading => exact registry.setClient rfl rfl rfl rfl (by simp)
  | ticks timed idle next => exact registry.congr rfl rfl
  | releases inside member =>
      apply registry.congr
      · unfold Server.release
        dsimp only
        split_ifs <;> rfl
      · unfold Server.release
        dsimp only
        split_ifs <;> rfl
  | ticked finished => exact registry.congr rfl rfl
  | copies referenced => exact registry.setClient rfl rfl rfl rfl id
  | drops used => exact registry.setClient rfl rfl rfl rfl id

/-! ### No dead connection stays registered -/

/-- A connection is in its loop's map exactly while it is set up and has had neither
its EOF nor a read error. -/
def OnlyLive (s : Server) : Prop :=
  ∀ client, s.InMap client ↔ (s.clients client).ready = true ∧
    (s.clients client).ended = false ∧ (s.clients client).failed = false

def isError : Event → Bool
  | .read _ .error => true
  | _ => false

/-- No read error, and no id that is still registered. -/
def Clean (s : Server) (event : Event) : Prop :=
  isError event = false ∧ reuses s event = false

theorem reachable_affine {timeout : Int} {pool : Option (List Nat)} {s : Server}
    (reachable : Transition.Reachable (system timeout pool) s) : Affine s := by
  induction reachable with
  | start begins =>
      cases begins
      exact start_affine timeout pool
  | next _before taken ih =>
      exact ih.step (step_effect taken)

theorem failed_setUp (s : Server) (loop : Loop) (client other : Nat) (ret : Bool) :
    ((s.setUp loop client ret).clients other).failed = (s.clients other).failed := by
  rw [setUp_clients]
  split_ifs with same
  · rw [same]
  · rw [same]
  · rfl

theorem failed_setClient {s : Server} {client : Nat} {record : Client}
    (same : record.failed = (s.clients client).failed) (other : Nat) :
    ((s.setClient client record).clients other).failed = (s.clients other).failed := by
  by_cases own : other = client
  · subst own
    simpa [Server.setClient] using same
  · simp [Server.setClient, own]

theorem failed_accept (s : Server) (client : Nat)
    (failed : (s.accept.clients client).failed = true) : (s.clients client).failed = true := by
  by_cases new : client = s.accepted
  · subst new
    simp [Server.accept, Server.setClient] at failed
  · rwa [accept_keeps new] at failed

/-- Only a read error marks a connection as failed. -/
theorem failed_step {s s' : Server} {event : Event} (effect : Effect s event s')
    (clean : isError event = false) {client : Nat}
    (failed : (s'.clients client).failed = true) : (s.clients client).failed = true := by
  cases effect with
  | posts pool target => exact failed_accept s client failed
  | accepts alone idle =>
      rw [failed_setUp] at failed
      exact failed_accept s client failed
  | runs idle waits =>
      rw [failed_setUp] at failed
      exact failed
  | touches idle reading alive =>
      rw [Server.updateConnection, failed_setClient] at failed
      · exact failed
      · rfl
  | ends idle reading =>
      rw [Server.removeConnection, Server.setMap, failed_setClient] at failed
      · exact failed
      · rfl
  | fails reading => cases clean
  | releases inside member =>
      unfold Server.release at failed
      dsimp only at failed
      split_ifs at failed <;> exact failed
  | copies referenced =>
      rw [failed_setClient] at failed
      · exact failed
      · rfl
  | drops used =>
      rw [failed_setClient] at failed
      · exact failed
      · rfl
  | _ => exact failed

section Reachable

variable {timeout : Int} {pool : Option (List Nat)} {s : Server}

theorem clean_unfailed
    (reachable : Transition.Reachable ((system timeout pool).restrict Clean) s) (client : Nat) :
    (s.clients client).failed = false := by
  induction reachable with
  | start begins =>
      cases begins
      rfl
  | next _before taken ih =>
      by_contra failed
      have earlier := failed_step (step_effect taken.2) taken.1.1 (by simpa using failed)
      rw [ih] at earlier
      cases earlier

theorem Registry.onlyLive (registry : Registry s) (affine : Affine s)
    (unfailed : ∀ client, (s.clients client).failed = false) : OnlyLive s := by
  intro client
  constructor
  · intro inMap
    have ready := (affine.map _ _ client inMap).1
    exact ⟨ready, (registry.listed client ready).mp inMap, unfailed client⟩
  · rintro ⟨ready, going, _⟩
    exact (registry.listed client ready).mpr going

theorem clean_registry
    (reachable : Transition.Reachable ((system timeout pool).restrict Clean) s) :
    Registry s := by
  induction reachable with
  | start begins =>
      cases begins
      exact start_registry timeout pool
  | next before taken ih =>
      exact ih.step (step_effect taken.2) (reachable_affine before.of_restrict) taken.1.2

/-- A set-up that overwrites a registered connection throws a live one out. -/
theorem overwritten {s : Server} (affine : Affine s) {loop : Loop} {client old : Nat}
    (unready : (s.clients client).ready = false)
    (present : s.connectionMap loop (s.clients client).id = some old)
    (going : (s.clients old).ended = false) (unfailed : (s.clients old).failed = false) :
    ¬ OnlyLive (s.setUp loop client true) := by
  intro after
  obtain ⟨ready, sameId, sameLoop⟩ := affine.map _ _ old present
  have distinct : old ≠ client := by
    rintro rfl
    rw [unready] at ready
    cases ready
  have still : (s.setUp loop client true).InMap old := by
    rw [after, setUp_keeps distinct]
    exact ⟨ready, going, unfailed⟩
  unfold Server.InMap at still
  rw [setUp_keeps distinct, setUp_map, if_pos ⟨rfl, sameLoop.symm, sameId.symm⟩] at still
  exact distinct (Option.some.inj still).symm

/-- A connection that failed is still in the map. -/
theorem error_dirty {s s' : Server} {event : Event} (effect : Effect s event s')
    (affine : Affine s) (registry : Registry s) (error : isError event = true) :
    ¬ OnlyLive s' := by
  intro after
  cases effect with
  | @fails client reading =>
      have inMap : s.InMap client :=
        (registry.listed client (affine.reading client reading)).mpr (registry.going client reading)
      have live := (after client).mp (by simpa [Server.InMap, setClient] using inMap)
      simp [setClient] at live
  | _ => cases error

theorem reuse_dirty {s s' : Server} {event : Event} (effect : Effect s event s')
    (affine : Affine s) (live : OnlyLive s) (reused : reuses s event = true) :
    ¬ OnlyLive s' := by
  have going : ∀ {loop : Loop} {id old : Nat}, s.connectionMap loop id = some old →
      (s.clients old).ended = false ∧ (s.clients old).failed = false := by
    intro loop id old present
    obtain ⟨_, sameId, sameLoop⟩ := affine.map _ _ old present
    rw [sameId, sameLoop] at present
    exact ((live old).mp present).2
  cases effect with
  | @posts ret threads loop pool target =>
      cases ret <;> simp [reuses, pool] at reused
  | @accepts ret alone idle =>
      cases ret
      · simp [reuses] at reused
      · simp only [reuses, alone, Option.isNone_none, Bool.true_and] at reused
        obtain ⟨old, present⟩ := Option.isSome_iff_exists.mp reused
        have below := (affine.ready old (affine.map _ _ old present).1).1
        have same := accept_keeps (Nat.ne_of_lt below)
        have found : s.accept.connectionMap .main (s.accept.clients s.accepted).id = some old := by
          rw [(accept_new s).1]
          exact present
        apply overwritten affine.accept (accept_new s).2 found
        · rw [same]
          exact (going present).1
        · rw [same]
          exact (going present).2
  | @runs loop client ret idle waits =>
      cases ret
      · simp [reuses] at reused
      · simp only [reuses] at reused
        obtain ⟨old, present⟩ := Option.isSome_iff_exists.mp reused
        exact overwritten affine.unpost (affine.posted loop client waits).2.1 present
          (going present).1 (going present).2
  | _ => cases reused

theorem reachable_pool (reachable : Transition.Reachable (system timeout pool) s) :
    s.pool = pool := by
  induction reachable with
  | start begins =>
      cases begins
      rfl
  | @next s s' event _before taken ih =>
      rw [← ih]
      cases step_effect taken with
      | accepts alone idle =>
          rw [setUp_pool]
          rfl
      | runs idle waits =>
          rw [setUp_pool]
          rfl
      | releases inside member =>
          unfold Server.release
          dsimp only
          split_ifs <;> rfl
      | _ => rfl

/-- In runs without read errors, and without an id that is set up while it is still in
the map, the map of a loop holds exactly the live connections; and any other step from a
state of such a run breaks that. -/
theorem only_live_registered (timeout : Int) (pool : Option (List Nat)) (s : Server)
    (reachable : Transition.Reachable ((system timeout pool).restrict Clean) s) :
    OnlyLive s ∧ ∀ event s', step s event = some s' → (OnlyLive s' ↔ Clean s event) := by
  have affine := reachable_affine reachable.of_restrict
  have live := (clean_registry reachable).onlyLive affine (clean_unfailed reachable)
  refine ⟨live, fun event s' taken => ?_⟩
  constructor
  · intro after
    have effect := step_effect taken
    constructor
    · by_contra error
      exact error_dirty effect affine (clean_registry reachable) (by simpa using error) after
    · by_contra reused
      exact reuse_dirty effect affine live (by simpa using reused) after
  · intro clean
    have next : Transition.Reachable ((system timeout pool).restrict Clean) s' :=
      reachable.next ⟨clean, taken⟩
    exact (clean_registry next).onlyLive (reachable_affine next.of_restrict) (clean_unfailed next)

end Reachable

/-- Two connections on the main loop; one sends data and ends. -/
def dataThenEof : List Event :=
  [.accept true, .accept true, .read 0 .data, .read 0 .eof]

theorem only_live_registered_eof :
    ∃ s, Transition.Reachable ((system 0 none).restrict Clean) s ∧ s.accepted = 2 ∧
      OnlyLive s := by
  let check : Server → Event → Bool := fun s event => !isError event && !reuses s event
  have sound : ∀ s event, Transition.Reachable ((system 0 none).restrict Clean) s →
      check s event = true → Clean s event := by
    intro s event _before checked
    simpa [check, Clean] using checked
  have found : ∃ s ∈ Transition.execute (Transition.checked check step) (start 0 none)
      dataThenEof, s.accepted = 2 := by
    decide
  obtain ⟨s, within, accepted⟩ := Transition.exists_reachable_within sound found
  exact ⟨s, within, accepted, (only_live_registered 0 none s within).1⟩

/-- A connection whose read failed stays in the map. -/
theorem read_error_registered :
    ∃ s, Transition.Reachable (system 0 none) s ∧ ¬ OnlyLive s := by
  have found : ∃ s ∈ Transition.execute step (start 0 none) [.accept true, .read 0 .error],
      s.connectionMap (s.clients 0).loop (s.clients 0).id = some 0 ∧
        (s.clients 0).failed = true := by
    decide
  obtain ⟨s, reachable, inMap, failed⟩ := Transition.exists_reachable found
  refine ⟨s, reachable, fun live => ?_⟩
  have unfailed := ((live 0).mp inMap).2.2
  rw [failed] at unfailed
  cases unfailed

/-! ### Affinity -/

section Affinity

variable {timeout : Int} {pool : Option (List Nat)} {s s' : Server} {event : Event}

theorem accepted_grows (effect : Effect s event s') : s.accepted ≤ s'.accepted := by
  cases effect with
  | posts pool target => exact Nat.le_succ _
  | accepts alone idle =>
      rw [setUp_accepted]
      exact Nat.le_succ _
  | runs idle waits =>
      rw [setUp_accepted]
      exact Nat.le_refl _
  | releases inside member =>
      unfold Server.release
      dsimp only
      split_ifs <;> exact Nat.le_refl _
  | _ => exact Nat.le_refl _

theorem ids_distinct (affine : Affine s) (few : s.accepted ≤ 2 ^ 64) {client other : Nat}
    (below : client < s.accepted) (otherBelow : other < s.accepted)
    (same : (s.clients client).id = (s.clients other).id) : client = other := by
  rw [affine.ids client below, affine.ids other otherBelow,
    Nat.mod_eq_of_lt (Nat.lt_of_lt_of_le below few),
    Nat.mod_eq_of_lt (Nat.lt_of_lt_of_le otherBelow few)] at same
  exact same

/-- The first 2^64 connections have ids of their own. -/
theorem few_fresh (affine : Affine s) (effect : Effect s event s')
    (few : s'.accepted ≤ 2 ^ 64) : reuses s event = false := by
  apply Bool.eq_false_iff.mpr
  intro reused
  have within := Nat.le_trans (accepted_grows effect) few
  cases effect with
  | @posts ret threads loop pool target =>
      cases ret <;> simp [reuses, pool] at reused
  | @accepts ret alone idle =>
      cases ret
      · simp [reuses] at reused
      · simp only [reuses, alone, Option.isNone_none, Bool.true_and] at reused
        obtain ⟨old, present⟩ := Option.isSome_iff_exists.mp reused
        obtain ⟨ready, sameId, _⟩ := affine.map _ _ old present
        have below := (affine.ready old ready).1
        rw [setUp_accepted] at few
        have room : s.accepted < 2 ^ 64 := few
        rw [affine.ids old below, affine.counter, Nat.mod_eq_of_lt room,
          Nat.mod_eq_of_lt (Nat.lt_trans below room)] at sameId
        omega
  | @runs loop client ret idle waits =>
      cases ret
      · simp [reuses] at reused
      · simp only [reuses] at reused
        obtain ⟨old, present⟩ := Option.isSome_iff_exists.mp reused
        obtain ⟨ready, sameId, _⟩ := affine.map _ _ old present
        obtain ⟨accepted, unready, _⟩ := affine.posted loop client waits
        have same := ids_distinct affine within accepted (affine.ready old ready).1 sameId
        rw [same, ready] at unready
        cases unready
  | _ => cases reused

theorem few_registry (reachable : Transition.Reachable (system timeout pool) s)
    (few : s.accepted ≤ 2 ^ 64) : Registry s := by
  induction reachable with
  | start begins =>
      cases begins
      exact start_registry timeout pool
  | next before taken ih =>
      have effect := step_effect taken
      have affine := reachable_affine before
      exact (ih (Nat.le_trans (accepted_grows effect) few)).step effect affine
        (few_fresh affine effect few)

end Affinity

/-- The loop is the one at place `id mod n` of the n loops of the pool. -/
def AtPlace (threads : List Nat) (id : Nat) (loop : Loop) : Prop :=
  ∃ thread, threads[id % threads.length]? = some thread ∧ loop = .child thread

theorem atPlace_getLoop {threads : List Nat} {id : Nat} {loop : Loop}
    (picked : getLoop threads id = some loop) : AtPlace threads id loop := by
  obtain ⟨thread, listed, same⟩ := Option.map_eq_some_iff.mp picked
  exact ⟨thread, listed, same.symm⟩

/-- With a pool of n loops, a connection belongs to loop `id mod n`: its id is unique, its
map entry, its wheel entry and its read events are there, and its EOF takes its own
entry, which is present, out of that map and nothing else out of any. -/
theorem connection_affinity {timeout : Int} {threads : List Nat} {s : Server}
    (reachable : Transition.Reachable (system timeout (some threads)) s)
    (few : s.accepted ≤ 2 ^ 64) :
    (∀ client other, client < s.accepted → other < s.accepted →
      (s.clients client).id = (s.clients other).id → client = other) ∧
    (∀ loop id client, s.connectionMap loop id = some client →
      id = (s.clients client).id ∧ AtPlace threads id loop) ∧
    (∀ loop client, s.held loop client → AtPlace threads (s.clients client).id loop) ∧
    (∀ client, (s.clients client).reading = true →
      AtPlace threads (s.clients client).id (s.clients client).loop) ∧
    ∀ client s', step s (.read client .eof) = some s' → s.InMap client ∧
      ∀ loop id, s'.connectionMap loop id =
        if loop = (s.clients client).loop ∧ id = (s.clients client).id then none
        else s.connectionMap loop id := by
  have affine := reachable_affine reachable
  have registry := few_registry reachable few
  have home : ∀ client, (s.clients client).ready = true →
      AtPlace threads (s.clients client).id (s.clients client).loop := by
    intro client ready
    have place := (affine.ready client ready).2
    unfold Server.home at place
    rw [reachable_pool reachable] at place
    exact atPlace_getLoop place
  refine ⟨?_, ?_, ?_, ?_, ?_⟩
  · intro client other below otherBelow same
    exact ids_distinct affine few below otherBelow same
  · intro loop id client present
    obtain ⟨ready, sameId, sameLoop⟩ := affine.map loop id client present
    rw [sameId, sameLoop]
    exact ⟨rfl, home client ready⟩
  · intro loop client held
    obtain ⟨ready, sameLoop⟩ := affine.held loop client held
    rw [sameLoop]
    exact home client ready
  · exact fun client reading => home client (affine.reading client reading)
  · intro client s' taken
    cases step_effect taken with
    | ends idle reading =>
        constructor
        · exact (registry.listed client (affine.reading client reading)).mpr
            (registry.going client reading)
        · exact eof_map s client

/-- Two connections on two loops that were registered in the order 1, 0. -/
def twoLoops : List Event :=
  [.accept true, .accept true, .run (.child 0) 1 true, .run (.child 1) 0 true]

theorem connection_affinity_two :
    ∃ s, Transition.Reachable (system 0 (some [1, 0])) s ∧
      (s.clients 1).loop = .child 0 ∧ s.connectionMap (.child 0) 1 = some 1 ∧
        AtPlace [1, 0] 1 (.child 0) ∧
          AtPlace [1, 0] (s.clients 1).id (s.clients 1).loop := by
  have found : ∃ s ∈ Transition.execute step (start 0 (some [1, 0])) twoLoops,
      s.accepted = 2 ∧ (s.clients 1).reading = true ∧ (s.clients 1).loop = .child 0 ∧
        s.connectionMap (.child 0) 1 = some 1 := by
    decide
  obtain ⟨s, reachable, accepted, reading, place, present⟩ := Transition.exists_reachable found
  have few : s.accepted ≤ 2 ^ 64 := by
    rw [accepted]
    decide
  have affinity := connection_affinity reachable few
  exact ⟨s, reachable, place, present, (affinity.2.1 _ _ _ present).2,
    affinity.2.2.2.1 1 reading⟩

end Uvcpp.TcpServer
