/-
newConnectionCallback with its loop, and the uv_tcp_t of each round.

A round allocates and initialises a handle before it knows whether there is a connection for
it.  Without one the handle is closed, and closeCallback frees it; but after an error of
uv_accept it is freed at once.  From its set-up on a handle belongs to its TcpConnection.
-/

import Uvcpp.Library.Lifetime
import Uvcpp.Tcp.ServerRegistry

namespace Uvcpp.TcpServer

def ACCEPT_MAX : Nat := 10

def UV_EAGAIN : Int := -11

/-- `rounds` is what a running newConnectionCallback has left, `handles` what became of the
uv_tcp_t it allocates, and `clients` the handle of each accepted client.  `begun` counts the
handles at its start, and `errors` is what errorCallback_ is called with. -/
structure Acceptor where
  server : Server
  rounds : Option Nat
  handles : Lifetimes
  clients : List Nat
  begun : Nat
  errors : List (Int × String)

inductive AcceptorEvent where
  | newConnection (status : Int)
  | round (ret : Int) (readRet : Int)
  | returns
  | run (loop : Loop) (client : Nat) (readRet : Int)
  | closeCallback (handle : Nat)
  | server (event : Event)
deriving DecidableEq

namespace Acceptor

def start (timeout : Int) (pool : Option (List Nat)) : Acceptor :=
  { server := TcpServer.start timeout pool
    rounds := none
    handles := Lifetimes.empty
    clients := []
    begun := 0
    errors := [] }

def errorCallback (a : Acceptor) (status : Int) (text : String) : Acceptor :=
  { a with errors := a.errors ++ [(status, text)] }

/-- uv_close with closeCallback. -/
def close (a : Acceptor) (handle : Nat) : Acceptor :=
  { a with handles := a.handles.close handle }

/-- What `startRead` does with the return value of uv_read_start. -/
def startRead (a : Acceptor) (handle : Nat) (readRet : Int) : Acceptor :=
  if readRet = 0 then a
  else (a.close handle).errorCallback readRet "uv_read_start error"

/-- `newConnectionCallback` up to its loop. -/
def newConnectionCallback (a : Acceptor) (status : Int) : Acceptor :=
  if status ≠ 0 then a.errorCallback status "uv_listen error"
  else
    { a with
      rounds := some ACCEPT_MAX
      begun := a.handles.allocated }

/-- One round of the loop; `ret` is the return value of uv_accept, and `readRet` that of
uv_read_start if there is no thread pool. -/
def round (a : Acceptor) (left : Nat) (ret readRet : Int) : Option Acceptor :=
  let client := a.handles.allocated
  let a :=
    { a with
      rounds := some left
      handles := a.handles.allocate }
  if ret = 0 then
    (TcpServer.step a.server (.accept (readRet = 0))).map fun server =>
      let a :=
        { a with
          server := server
          clients := a.clients ++ [client] }
      match a.server.pool with
      | some _ => a
      | none => a.startRead client readRet
  else if ret = UV_EAGAIN then some { a.close client with rounds := none }
  else
    some ({ a with handles := a.handles.abandon client }.errorCallback ret "uv_accept error")

/-- A posted closure of a loop. -/
def run (a : Acceptor) (loop : Loop) (client : Nat) (readRet : Int) : Option Acceptor := do
  let handle ← a.clients[client]?
  let server ← TcpServer.step a.server (.run loop client (readRet = 0))
  pure ({ a with server := server }.startRead handle readRet)

/-- What the server does besides. -/
def Other : Event → Bool
  | .accept _ => false
  | .run _ _ _ => false
  | _ => true

def step (a : Acceptor) : AcceptorEvent → Option Acceptor
  | .newConnection status =>
      if a.rounds = none then some (a.newConnectionCallback status) else none
  | .round ret readRet =>
      match a.rounds with
      | some (left + 1) => a.round left ret readRet
      | _ => none
  | .returns => if a.rounds = some 0 then some { a with rounds := none } else none
  | .run loop client readRet => a.run loop client readRet
  | .closeCallback handle =>
      if handle ∈ a.handles.closing then some { a with handles := a.handles.free handle }
      else none
  | .server event =>
      if Other event then
        (TcpServer.step a.server event).map fun server => { a with server := server }
      else none

def system (timeout : Int) (pool : Option (List Nat)) :
    Transition.System Acceptor AcceptorEvent :=
  Transition.System.executed (fun a => a = start timeout pool) step

end Acceptor

/-! ### Whose handles are in use -/

/-- The handle of the client belongs to a posted closure or to a connection. -/
def Server.Holds (s : Server) (client : Nat) : Prop :=
  (s.clients client).ready = true ∨ ∃ loop, client ∈ s.posted loop

section Holds

variable {s s' : Server}

theorem holds_lt (affine : Affine s) {client : Nat} (holds : s.Holds client) :
    client < s.accepted := by
  rcases holds with ready | ⟨loop, posted⟩
  · exact (affine.ready client ready).1
  · exact (affine.posted loop client posted).1

theorem holds_of_same (clients : ∀ client, (s'.clients client).ready = (s.clients client).ready)
    (posted : s'.posted = s.posted) (client : Nat) : s'.Holds client ↔ s.Holds client := by
  rw [Server.Holds, Server.Holds, clients, posted]

theorem holds_post (s : Server) (loop : Loop) (target client : Nat) :
    (s.post loop target).Holds client ↔ s.Holds client ∨ client = target := by
  have posted (other : Loop) : client ∈ (s.post loop target).posted other ↔
      client ∈ s.posted other ∨ other = loop ∧ client = target := by
    by_cases same : other = loop
    · subst same
      simp [Server.post]
    · simp [Server.post, same]
  rw [Server.Holds, Server.Holds]
  change (s.clients client).ready = true ∨ _ ↔ _
  simp only [posted]
  grind

theorem holds_accept (affine : Affine s) (client : Nat) :
    s.accept.Holds client ↔ s.Holds client := by
  by_cases same : client = s.accepted
  · subst same
    have none : ¬s.Holds s.accepted := fun holds => Nat.lt_irrefl _ (holds_lt affine holds)
    refine iff_of_false ?_ none
    rintro (ready | ⟨loop, posted⟩)
    · rw [(accept_new s).2] at ready
      cases ready
    · exact unposted_accept affine loop posted
  · rw [Server.Holds, Server.Holds, accept_keeps same]
    rfl

/-- A set-up makes a client ready if it succeeds. -/
theorem holds_setUp (s : Server) (loop : Loop) (target client : Nat) (ret : Bool) :
    (s.setUp loop target ret).Holds client ↔
      s.Holds client ∨ ret = true ∧ client = target := by
  rw [Server.Holds, Server.Holds, Server.setUp_posted, Server.setUp_clients]
  by_cases same : client = target
  · subst same
    cases ret <;> simp
  · simp [same]

theorem holds_unpost (affine : Affine s) {loop : Loop} {gone : Nat}
    (listed : gone ∈ s.posted loop) (client : Nat) :
    (s.unpost loop gone).Holds client ↔ s.Holds client ∧ client ≠ gone := by
  obtain ⟨_accepted, unready, home⟩ := affine.posted loop gone listed
  have posted (other : Loop) : client ∈ (s.unpost loop gone).posted other ↔
      client ∈ s.posted other ∧ client ≠ gone := by
    change client ∈ Function.update s.posted loop ((s.posted loop).erase gone) other ↔ _
    by_cases same : other = loop
    · subst same
      rw [Function.update_self, (affine.postedOnce other).mem_erase_iff]
      exact and_comm
    · rw [Function.update_of_ne same]
      refine ⟨fun member => ⟨member, ?_⟩, And.left⟩
      rintro rfl
      have elsewhere := (affine.posted other client member).2.2
      rw [home] at elsewhere
      exact same (Option.some.inj elsewhere).symm
  rw [Server.Holds, Server.Holds]
  simp only [posted]
  change ((s.clients client).ready = true ∨ _) ↔ _
  by_cases same : client = gone
  · subst same
    simp [unready]
  · simp [same]

/-- An accepted client's handle stays in use unless its read fails to start. -/
theorem holds_accepted (affine : Affine s) {ret : Bool}
    (taken : step s (.accept ret) = some s') :
    s'.accepted = s.accepted + 1 ∧ s'.pool = s.pool ∧
      ∀ client, s'.Holds client ↔
        s.Holds client ∨ client = s.accepted ∧ (s.pool = none → ret = true) := by
  cases step_effect taken with
  | posts pool target =>
      refine ⟨rfl, rfl, ?_⟩
      intro client
      rw [holds_post, holds_accept affine, pool]
      simp
  | accepts alone idle =>
      refine ⟨Server.setUp_accepted .., Server.setUp_pool .., ?_⟩
      intro client
      rw [holds_setUp, holds_accept affine, alone]
      simp [and_comm]

theorem holds_run (affine : Affine s) {loop : Loop} {client : Nat} {ret : Bool}
    (taken : step s (.run loop client ret) = some s') :
    client ∈ s.posted loop ∧ s'.accepted = s.accepted ∧
      ∀ other, s'.Holds other ↔ s.Holds other ∧ (ret = false → other ≠ client) := by
  cases step_effect taken with
  | runs idle waits =>
      refine ⟨waits, Server.setUp_accepted .., ?_⟩
      intro other
      have held : s.Holds client := .inr ⟨loop, waits⟩
      rw [holds_setUp, holds_unpost affine waits]
      cases ret with
      | false => simp
      | true => grind

/-- Nothing else changes whose handles are in use. -/
theorem holds_other {event : Event} (other : Acceptor.Other event = true)
    (taken : step s event = some s') :
    s'.accepted = s.accepted ∧ s'.pool = s.pool ∧
      ∀ client, s'.Holds client ↔ s.Holds client := by
  cases step_effect taken with
  | posts | accepts | runs => cases other
  | reads => exact ⟨rfl, rfl, fun _ => Iff.rfl⟩
  | ticks => exact ⟨rfl, rfl, fun _ => Iff.rfl⟩
  | ticked => exact ⟨rfl, rfl, fun _ => Iff.rfl⟩
  | releases =>
      unfold Server.release
      dsimp only
      split_ifs <;> exact ⟨rfl, rfl, fun _ => Iff.rfl⟩
  | touches | ends | fails | copies | drops =>
      refine ⟨rfl, rfl, holds_of_same ?_ rfl⟩
      intro client
      simp only [Server.updateConnection, Server.removeConnection, Server.setClient,
        Server.setMap, Server.setWhell, Function.update_apply]
      split_ifs with same
      · rw [same]
      · rfl

end Holds

namespace Acceptor

/-- The handle belongs to a client, and that to a posted closure or a connection. -/
def Owned (a : Acceptor) (handle : Nat) : Prop :=
  ∃ client, a.clients[client]? = some handle ∧ a.server.Holds client

structure Sound (timeout : Int) (pool : Option (List Nat)) (a : Acceptor) : Prop where
  server : Transition.Reachable (TcpServer.system timeout pool) a.server
  length : a.clients.length = a.server.accepted
  distinct : a.clients.Nodup
  allocated : ∀ handle ∈ a.clients, handle < a.handles.allocated
  accounts : a.handles.Accounts a.Owned
  few : a.handles.allocated + a.rounds.getD 0 ≤ a.begun + ACCEPT_MAX
  abandoned : a.handles.abandoned.length = a.errors.countP (·.2 = "uv_accept error")

theorem start_sound (timeout : Int) (pool : Option (List Nat)) :
    (start timeout pool).Sound timeout pool := by
  constructor
  · exact .start rfl
  · rfl
  · exact List.nodup_nil
  · exact List.forall_mem_nil _
  · apply Lifetimes.empty_accounts.congr
    intro handle
    simp [Owned, start]
  · simp [start, Lifetimes.empty]
  · rfl

section Invariant

variable {timeout : Int} {pool : Option (List Nat)} {a after : Acceptor}

/-- A new client at the end. -/
theorem owned_append (sound : a.Sound timeout pool) {server : Server} {new : Prop} {handle : Nat}
    (holds : ∀ client, server.Holds client ↔
      a.server.Holds client ∨ client = a.server.accepted ∧ new) (other : Nat) :
    ({ a with server := server, clients := a.clients ++ [handle] } : Acceptor).Owned other ↔
      a.Owned other ∨ other = handle ∧ new := by
  have none : ¬a.server.Holds a.server.accepted :=
    fun held => Nat.lt_irrefl _ (holds_lt (reachable_affine sound.server) held)
  constructor
  · rintro ⟨client, found, held⟩
    rcases (holds client).mp held with old | ⟨rfl, condition⟩
    · have inside : client < a.clients.length := by
        rw [sound.length]
        exact holds_lt (reachable_affine sound.server) old
      exact .inl ⟨client, (List.getElem?_append_left inside).symm.trans found, old⟩
    · change (a.clients ++ [handle])[a.server.accepted]? = some other at found
      rw [← sound.length, List.getElem?_concat_length] at found
      exact .inr ⟨(Option.some.inj found).symm, condition⟩
  · rintro (⟨client, found, old⟩ | ⟨rfl, condition⟩)
    · obtain ⟨inside, _⟩ := List.getElem?_eq_some_iff.mp found
      exact ⟨client, (List.getElem?_append_left inside).trans found, (holds client).mpr (.inl old)⟩
    · refine ⟨a.server.accepted, ?_, (holds _).mpr (.inr ⟨rfl, condition⟩)⟩
      change (a.clients ++ [other])[a.server.accepted]? = some other
      rw [← sound.length, List.getElem?_concat_length]

/-- The client of a handle gives it up. -/
theorem owned_give (sound : a.Sound timeout pool) {server : Server} {target handle : Nat}
    (found : a.clients[target]? = some handle)
    (holds : ∀ client, server.Holds client ↔ a.server.Holds client ∧ client ≠ target)
    (other : Nat) :
    ({ a with server := server } : Acceptor).Owned other ↔ a.Owned other ∧ other ≠ handle := by
  constructor
  · rintro ⟨client, place, held⟩
    obtain ⟨old, different⟩ := (holds client).mp held
    refine ⟨⟨client, place, old⟩, ?_⟩
    rintro rfl
    have place : a.clients[client]? = some other := place
    obtain ⟨inside, at_⟩ := List.getElem?_eq_some_iff.mp place
    obtain ⟨within, same⟩ := List.getElem?_eq_some_iff.mp found
    exact different ((sound.distinct.getElem_inj_iff).mp (at_.trans same.symm))
  · rintro ⟨⟨client, place, old⟩, different⟩
    refine ⟨client, place, (holds client).mpr ⟨old, ?_⟩⟩
    rintro rfl
    exact different (Option.some.inj (place.symm.trans found))

/-- The handle of a round without a connection. -/
theorem Sound.wasted (sound : a.Sound timeout pool) {left : Nat}
    (running : a.rounds = some (left + 1)) {handles : Lifetimes}
    (same : handles.allocated = a.handles.allocated + 1) (accounts : handles.Accounts a.Owned)
    {rounds : Option Nat} (fewer : rounds.getD 0 ≤ left) {errors : List (Int × String)}
    (abandoned : handles.abandoned.length = errors.countP (·.2 = "uv_accept error")) :
    Sound timeout pool { a with rounds := rounds, handles := handles, errors := errors } := by
  have few := sound.few
  rw [running, Option.getD_some] at few
  exact
    { sound with
      allocated := by
        intro handle member
        have below := sound.allocated handle member
        change handle < handles.allocated
        omega
      accounts := accounts
      few := by
        change handles.allocated + rounds.getD 0 ≤ a.begun + ACCEPT_MAX
        omega
      abandoned := abandoned }

/-- The handle of a round with a connection. -/
theorem Sound.joined (sound : a.Sound timeout pool) {left : Nat}
    (running : a.rounds = some (left + 1)) {server : Server} {ret : Bool}
    (moved : TcpServer.step a.server (.accept ret) = some server) {handles : Lifetimes}
    (same : handles.allocated = a.handles.allocated + 1)
    (accounts : handles.Accounts fun handle =>
      a.Owned handle ∨ handle = a.handles.allocated ∧ (a.server.pool = none → ret = true))
    {errors : List (Int × String)}
    (abandoned : handles.abandoned.length = errors.countP (·.2 = "uv_accept error")) :
    Sound timeout pool
      { a with
        server := server
        rounds := some left
        handles := handles
        clients := a.clients ++ [a.handles.allocated]
        errors := errors } := by
  have few := sound.few
  rw [running, Option.getD_some] at few
  obtain ⟨counted, _pool, holds⟩ := holds_accepted (reachable_affine sound.server) moved
  have unused : a.handles.allocated ∉ a.clients := fun member =>
    Nat.lt_irrefl _ (sound.allocated _ member)
  constructor
  · exact sound.server.next moved
  · change (a.clients ++ [_]).length = server.accepted
    rw [List.length_append, sound.length, counted]
    rfl
  · exact sound.distinct.append (List.nodup_singleton _) (by simpa using unused)
  · intro handle member
    change handle < handles.allocated
    rcases List.mem_append.mp member with old | new
    · have below := sound.allocated handle old
      omega
    · rw [List.mem_singleton.mp new]
      omega
  · exact accounts.congr (owned_append sound holds)
  · change handles.allocated + left ≤ a.begun + ACCEPT_MAX
    omega
  · exact abandoned

theorem Sound.round (sound : a.Sound timeout pool) {left : Nat}
    (running : a.rounds = some (left + 1)) {ret readRet : Int}
    (taken : a.round left ret readRet = some after) : after.Sound timeout pool := by
  have fresh := sound.accounts.fresh.1
  have allocate := sound.accounts.allocate
  unfold Acceptor.round at taken
  split_ifs at taken with accepted again
  · obtain ⟨server, moved, taken⟩ := Option.map_eq_some_iff.mp taken
    have samePool := (holds_accepted (reachable_affine sound.server) moved).2.1
    dsimp only at taken
    cases pooled : server.pool with
    | some threads =>
        rw [pooled] at samePool taken
        cases taken
        apply sound.joined running moved rfl
        · apply allocate.congr
          simp [← samePool]
        · exact sound.abandoned
    | none =>
        rw [pooled] at samePool taken
        cases taken
        unfold startRead
        split_ifs with started
        · apply sound.joined running moved rfl
          · apply allocate.congr
            simp [started]
          · exact sound.abandoned
        · apply sound.joined running moved rfl
          · apply (allocate.close (.inr rfl)).congr
            intro handle
            simp only [← samePool, started]
            grind
          · change a.handles.abandoned.length = (a.errors ++ [_]).countP _
            rw [sound.abandoned, List.countP_append]
            rfl
  · cases taken
    apply sound.wasted running rfl
    · apply (allocate.close (.inr rfl)).congr
      intro handle
      grind
    · exact Nat.zero_le _
    · exact sound.abandoned
  · cases taken
    apply sound.wasted running rfl
    · apply (allocate.abandon (.inr rfl)).congr
      intro handle
      grind
    · exact Nat.le_refl _
    · change (a.handles.abandoned ++ [_]).length = (a.errors ++ [_]).countP _
      rw [List.length_append, sound.abandoned, List.countP_append]
      rfl

theorem Sound.run (sound : a.Sound timeout pool) {loop : Loop} {client : Nat} {readRet : Int}
    (taken : a.run loop client readRet = some after) : after.Sound timeout pool := by
  obtain ⟨handle, found, taken⟩ := Option.bind_eq_some_iff.mp taken
  obtain ⟨server, moved, taken⟩ := Option.bind_eq_some_iff.mp taken
  cases taken
  obtain ⟨waits, counted, holds⟩ := holds_run (reachable_affine sound.server) moved
  have reachable := sound.server.next moved
  unfold startRead
  split_ifs with started
  · have kept : ∀ client, server.Holds client ↔ a.server.Holds client := by
      intro client
      simp [holds, started]
    exact
      { sound with
        server := reachable
        length := sound.length.trans counted.symm
        accounts := sound.accounts.congr fun other => by simp [Owned, kept] }
  · have own : a.Owned handle := ⟨client, found, .inr ⟨loop, waits⟩⟩
    have given : ∀ other, ({ a with server := server } : Acceptor).Owned other ↔
        a.Owned other ∧ other ≠ handle :=
      owned_give sound found (by simp [holds, started])
    constructor
    · exact reachable
    · exact sound.length.trans counted.symm
    · exact sound.distinct
    · exact sound.allocated
    · exact (sound.accounts.close own).congr given
    · exact sound.few
    · change a.handles.abandoned.length = (a.errors ++ [_]).countP _
      rw [sound.abandoned, List.countP_append]
      rfl

theorem Sound.step (sound : a.Sound timeout pool) {event : AcceptorEvent}
    (taken : a.step event = some after) : after.Sound timeout pool := by
  cases event with
  | newConnection status =>
      obtain ⟨_idle, taken⟩ := Option.ite_none_right_eq_some.mp taken
      cases taken
      unfold newConnectionCallback
      split_ifs with failed
      · exact
          { sound with
            abandoned := by
              change a.handles.abandoned.length = (a.errors ++ [_]).countP _
              rw [sound.abandoned, List.countP_append]
              rfl }
      · exact { sound with few := Nat.le_refl _ }
  | round ret readRet =>
      unfold Acceptor.step at taken
      dsimp only at taken
      split at taken
      · exact sound.round ‹_› taken
      · cases taken
  | returns =>
      obtain ⟨finished, taken⟩ := Option.ite_none_right_eq_some.mp taken
      cases taken
      have few := sound.few
      rw [finished] at few
      exact { sound with few := few }
  | run loop client readRet => exact sound.run taken
  | closeCallback handle =>
      obtain ⟨member, taken⟩ := Option.ite_none_right_eq_some.mp taken
      cases taken
      exact { sound with accounts := sound.accounts.free member }
  | server event =>
      obtain ⟨other, taken⟩ := Option.ite_none_right_eq_some.mp taken
      obtain ⟨server, moved, rfl⟩ := Option.map_eq_some_iff.mp taken
      obtain ⟨counted, _pool, holds⟩ := holds_other other moved
      exact
        { sound with
          server := sound.server.next moved
          length := sound.length.trans counted.symm
          accounts := sound.accounts.congr fun other => by simp [Owned, holds] }

theorem reachable_sound (reachable : Transition.Reachable (system timeout pool) a) :
    a.Sound timeout pool := by
  induction reachable with
  | start begins =>
      cases begins
      exact start_sound timeout pool
  | next _before taken ih => exact ih.step taken

end Invariant

end Acceptor

/-- **Accept loop.** In every run the server of newConnectionCallback is in a state of the
server that accepts one client at a time, and has a handle for each of its clients.  Every
handle belongs to a posted closure or a connection, or is being closed, or was freed, once; but
one that was freed is still in the handle queue of its loop if and only if a uv_accept has
failed otherwise than with UV_EAGAIN.  A callback allocates at most ACCEPT_MAX handles. -/
theorem accepts_account_for_handles {timeout : Int} {pool : Option (List Nat)} {a : Acceptor}
    (reachable : Transition.Reachable (Acceptor.system timeout pool) a) :
    Transition.Reachable (system timeout pool) a.server ∧
      a.clients.length = a.server.accepted ∧ a.clients.Nodup ∧
      a.handles.Accounts a.Owned ∧
      ((∃ handle ∈ a.handles.freed, handle ∈ a.handles.listed) ↔
        ∃ ret, (ret, "uv_accept error") ∈ a.errors) ∧
      a.handles.allocated ≤ a.begun + ACCEPT_MAX := by
  have sound := Acceptor.reachable_sound reachable
  refine ⟨sound.server, sound.length, sound.distinct, sound.accounts, ?_, ?_⟩
  · have dangling : (∃ handle ∈ a.handles.freed, handle ∈ a.handles.listed) ↔
        0 < a.handles.abandoned.length := by
      rw [List.length_pos_iff_exists_mem]
      constructor
      · rintro ⟨handle, freed, listed⟩
        exact ⟨handle, (sound.accounts.listed_freed handle).mp ⟨listed, freed⟩⟩
      · rintro ⟨handle, left⟩
        obtain ⟨listed, freed⟩ := (sound.accounts.listed_freed handle).mpr left
        exact ⟨handle, freed, listed⟩
    rw [dangling, sound.abandoned, List.countP_pos_iff]
    constructor
    · rintro ⟨⟨ret, text⟩, member, same⟩
      have same : text = "uv_accept error" := of_decide_eq_true same
      exact ⟨ret, same ▸ member⟩
    · rintro ⟨ret, member⟩
      exact ⟨_, member, decide_eq_true rfl⟩
  · exact Nat.le_trans (Nat.le_add_right _ _) sound.few

/-- One connection, then too many open files, then none is left. -/
def tooManyFiles : List AcceptorEvent :=
  [.newConnection 0, .round 0 0, .round (-24) 0, .round UV_EAGAIN 0, .closeCallback 2]

theorem accepts_account_for_handles_failed :
    ∃ a, Transition.Reachable (Acceptor.system 0 none) a ∧ a.handles.freed = [1, 2] ∧
      ∃ handle ∈ a.handles.freed, handle ∈ a.handles.listed := by
  have found : ∃ a ∈ Transition.execute Acceptor.step (Acceptor.start 0 none) tooManyFiles,
      a.handles.freed = [1, 2] ∧ a.errors = [(-24, "uv_accept error")] := by
    decide
  obtain ⟨a, reachable, freed, errors⟩ := Transition.exists_reachable found
  obtain ⟨_, _, _, _, dangling, _⟩ := accepts_account_for_handles reachable
  exact ⟨a, reachable, freed, dangling.mpr ⟨-24, by rw [errors]; exact List.mem_singleton.mpr rfl⟩⟩

end Uvcpp.TcpServer
