/-
Every connection of a TcpServer belongs to one loop.

The loop is picked by the id of the connection when it is accepted, its set-up closure
is posted there, and the thread-local registry and wheel are those of that loop.
-/

import Uvcpp.Tcp.ServerMoves

namespace Uvcpp.TcpServer

open Server

/-- The loop that the id of a client picks. -/
def Server.home (s : Server) (client : Nat) : Option Loop :=
  match s.pool with
  | some threads => getLoop threads (s.clients client).id
  | none => some .main

/-- `held` says which clients are in a bucket of a loop, on its wheel or being released. -/
def Server.held (s : Server) (loop : Loop) (client : Nat) : Prop :=
  (∃ bucket ∈ s.whell loop, client ∈ bucket) ∨ ∃ bucket, s.releasing loop = some bucket ∧
    client ∈ bucket

structure Affine (s : Server) : Prop where
  counter : s.connectionId = s.accepted % 2 ^ 64
  ids : ∀ client, client < s.accepted → (s.clients client).id = client % 2 ^ 64
  posted : ∀ loop, ∀ client ∈ s.posted loop, client < s.accepted ∧
    (s.clients client).ready = false ∧ s.home client = some loop
  postedOnce : ∀ loop, (s.posted loop).Nodup
  ready : ∀ client, (s.clients client).ready = true → client < s.accepted ∧
    s.home client = some (s.clients client).loop
  reading : ∀ client, (s.clients client).reading = true → (s.clients client).ready = true
  map : ∀ loop id client, s.connectionMap loop id = some client →
    (s.clients client).ready = true ∧ id = (s.clients client).id ∧ loop = (s.clients client).loop
  held : ∀ loop client, s.held loop client →
    (s.clients client).ready = true ∧ loop = (s.clients client).loop

theorem start_affine (timeout : Int) (pool : Option (List Nat)) : Affine (start timeout pool) := by
  constructor
  case held =>
    rintro loop client (⟨bucket, listed, member⟩ | ⟨bucket, impossible, _⟩)
    · cases List.eq_of_mem_replicate listed
      cases member
    · cases impossible
  all_goals simp [start]

/-! ### Set-up -/

theorem home_setUp (s : Server) (loop : Loop) (client other : Nat) (ret : Bool) :
    (s.setUp loop client ret).home other = s.home other := by
  have same : ((s.setUp loop client ret).clients other).id = (s.clients other).id := by
    rw [setUp_clients]
    split_ifs with own
    · rw [own]
    · rw [own]
    · rfl
  unfold home
  rw [setUp_pool, same]

theorem ready_setUp {s : Server} {loop : Loop} {client other : Nat} {ret : Bool}
    (ready : ((s.setUp loop client ret).clients other).ready = true) :
    (s.clients other).ready = true ∨
      (ret = true ∧ other = client ∧ ((s.setUp loop client ret).clients other).loop = loop) := by
  rw [setUp_clients] at ready ⊢
  split_ifs at ready ⊢ with own accepted
  · exact .inr ⟨accepted, own, rfl⟩
  · rw [own]
    exact .inl ready
  · exact .inl ready

theorem held_setUp {s : Server} {loop other : Loop} {client member : Nat} {ret : Bool}
    (held : (s.setUp loop client ret).held other member) :
    s.held other member ∨ (ret = true ∧ other = loop ∧ member = client) := by
  unfold Server.held at held
  rw [setUp_releasing, setUp_whell] at held
  rcases held with ⟨bucket, listed, inside⟩ | releasing
  · split_ifs at listed with inserted
    · obtain ⟨index, present⟩ := List.mem_iff_getElem?.mp listed
      rcases Wheel.mem_insertBack present inside with same | ⟨before, earlier, inside⟩
      · exact .inr ⟨inserted.1, inserted.2.2, same⟩
      · exact .inl (.inl ⟨before, List.mem_of_getElem? earlier, inside⟩)
    · exact .inl (.inl ⟨bucket, listed, inside⟩)
  · exact .inl (.inr releasing)

theorem setUp_keeps {s : Server} {loop : Loop} {client other : Nat} {ret : Bool}
    (distinct : other ≠ client) : (s.setUp loop client ret).clients other = s.clients other := by
  rw [setUp_clients, if_neg distinct]

/-- The closure runs on the loop it was posted to, for a client that is nowhere else. -/
theorem Affine.setUp {s : Server} (affine : Affine s) {loop : Loop} {client : Nat}
    (accepted : client < s.accepted) (unready : (s.clients client).ready = false)
    (unposted : ∀ other, client ∉ s.posted other) (home : s.home client = some loop)
    (ret : Bool) : Affine (s.setUp loop client ret) := by
  have distinct : ∀ other, (s.clients other).ready = true → other ≠ client := by
    rintro other ready rfl
    rw [unready] at ready
    cases ready
  have sameId : ((s.setUp loop client ret).clients client).id = (s.clients client).id := by
    rw [setUp_clients]
    split_ifs <;> rfl
  have isReady : ret = true → ((s.setUp loop client ret).clients client).ready = true ∧
      ((s.setUp loop client ret).clients client).loop = loop := by
    intro accepts
    rw [setUp_clients]
    simp [accepts]
  constructor
  · rw [setUp_connectionId, setUp_accepted]
    exact affine.counter
  · intro other below
    rw [setUp_accepted] at below
    by_cases same : other = client
    · rw [same, sameId]
      exact affine.ids client accepted
    · rw [setUp_keeps same]
      exact affine.ids other below
  · intro other member listed
    rw [setUp_posted] at listed
    have different : member ≠ client := by
      rintro rfl
      exact unposted other listed
    rw [setUp_accepted, home_setUp, setUp_keeps different]
    exact affine.posted other member listed
  · intro other
    rw [setUp_posted]
    exact affine.postedOnce other
  · intro other ready
    rw [setUp_accepted, home_setUp]
    rcases ready_setUp ready with before | ⟨_, same, place⟩
    · rw [setUp_keeps (distinct other before)]
      exact affine.ready other before
    · rw [place, same]
      exact ⟨accepted, home⟩
  · intro other reading
    by_cases same : other = client
    · rw [same, setUp_clients] at reading ⊢
      split_ifs at reading ⊢
      · rfl
      · exact affine.reading client reading
      · exact affine.reading client reading
    · rw [setUp_keeps same] at reading ⊢
      exact affine.reading other reading
  · intro other id member present
    rw [setUp_map] at present
    split_ifs at present with inserted
    · obtain ⟨accepts, rfl, rfl⟩ := inserted
      cases present
      rw [sameId]
      exact ⟨(isReady accepts).1, rfl, (isReady accepts).2.symm⟩
    · have before := affine.map other id member present
      rw [setUp_keeps (distinct member before.1)]
      exact before
  · intro other member held
    rcases held_setUp held with before | ⟨accepts, rfl, rfl⟩
    · have kept := affine.held other member before
      rw [setUp_keeps (distinct member kept.1)]
      exact kept
    · exact ⟨(isReady accepts).1, (isReady accepts).2.symm⟩

/-! ### Steps -/

/-- A record may change in what does not concern the loop. -/
theorem Affine.setClient {s : Server} (affine : Affine s) {client : Nat} {record : Client}
    (id : record.id = (s.clients client).id) (loop : record.loop = (s.clients client).loop)
    (ready : record.ready = (s.clients client).ready)
    (reading : record.reading = true → (s.clients client).reading = true) :
    Affine (s.setClient client record) := by
  have same : ∀ other, ((s.setClient client record).clients other).id = (s.clients other).id ∧
      ((s.setClient client record).clients other).loop = (s.clients other).loop ∧
        ((s.setClient client record).clients other).ready = (s.clients other).ready ∧
          (((s.setClient client record).clients other).reading = true →
            (s.clients other).reading = true) := by
    intro other
    by_cases own : other = client
    · subst own
      simpa [Server.setClient] using ⟨id, loop, ready, reading⟩
    · simp [Server.setClient, own]
  have home : ∀ other, (s.setClient client record).home other = s.home other := by
    intro other
    unfold Server.home
    rw [(same other).1]
    rfl
  constructor
  · exact affine.counter
  · intro other below
    rw [(same other).1]
    exact affine.ids other below
  · intro other member listed
    rw [(same member).2.2.1, home]
    exact affine.posted other member listed
  · exact affine.postedOnce
  · intro other isReady
    rw [(same other).2.2.1] at isReady
    rw [(same other).2.1, home]
    exact affine.ready other isReady
  · intro other isReading
    rw [(same other).2.2.1]
    exact affine.reading other ((same other).2.2.2 isReading)
  · intro other place member present
    rw [(same member).1, (same member).2.1, (same member).2.2.1]
    exact affine.map other place member present
  · intro other member held
    rw [(same member).2.1, (same member).2.2.1]
    exact affine.held other member held

/-- The wheels may change as long as every entry stays where it belongs. -/
theorem Affine.wheels {s s' : Server} (affine : Affine s) (pool : s'.pool = s.pool)
    (counter : s'.connectionId = s.connectionId) (accepted : s'.accepted = s.accepted)
    (clients : s'.clients = s.clients) (posted : s'.posted = s.posted)
    (map : s'.connectionMap = s.connectionMap)
    (held : ∀ loop client, s'.held loop client →
      s.held loop client ∨
        ((s.clients client).ready = true ∧ loop = (s.clients client).loop)) : Affine s' := by
  have home : s'.home = s.home := by
    funext client
    unfold Server.home
    rw [pool, clients]
  constructor
  · rw [counter, accepted]
    exact affine.counter
  · rw [accepted, clients]
    exact affine.ids
  · rw [posted, accepted, clients, home]
    exact affine.posted
  · rw [posted]
    exact affine.postedOnce
  · rw [accepted, clients, home]
    exact affine.ready
  · rw [clients]
    exact affine.reading
  · rw [map, clients]
    exact affine.map
  · intro loop client inside
    rw [clients]
    rcases held loop client inside with before | placed
    · exact affine.held loop client before
    · exact placed

theorem accept_keeps {s : Server} {client : Nat} (distinct : client ≠ s.accepted) :
    s.accept.clients client = s.clients client := by
  simp [accept, Server.setClient, distinct]

theorem accept_new (s : Server) :
    (s.accept.clients s.accepted).id = s.connectionId ∧
      (s.accept.clients s.accepted).ready = false := by
  simp [accept, Server.setClient]

theorem Affine.accept {s : Server} (affine : Affine s) : Affine s.accept := by
  have below : ∀ client, client < s.accepted → s.accept.clients client = s.clients client :=
    fun client less => accept_keeps (Nat.ne_of_lt less)
  have home : ∀ client, client < s.accepted → s.accept.home client = s.home client := by
    intro client less
    unfold Server.home
    rw [below client less]
    rfl
  have ready : ∀ client, (s.accept.clients client).ready = true →
      (s.clients client).ready = true ∧ client < s.accepted := by
    intro client isReady
    by_cases new : client = s.accepted
    · rw [new, (accept_new s).2] at isReady
      cases isReady
    · rw [accept_keeps new] at isReady
      exact ⟨isReady, (affine.ready client isReady).1⟩
  constructor
  · simp [Server.accept, Server.setClient, affine.counter]
  · intro client within
    rcases Nat.lt_succ_iff_lt_or_eq.mp within with less | rfl
    · rw [below client less]
      exact affine.ids client less
    · rw [(accept_new s).1]
      exact affine.counter
  · intro loop client listed
    obtain ⟨less, unready, place⟩ := affine.posted loop client listed
    rw [below client less, home client less]
    exact ⟨Nat.lt_succ_of_lt less, unready, place⟩
  · exact affine.postedOnce
  · intro client isReady
    obtain ⟨before, less⟩ := ready client isReady
    rw [below client less, home client less]
    exact ⟨Nat.lt_succ_of_lt less, (affine.ready client before).2⟩
  · intro client reading
    by_cases new : client = s.accepted
    · subst new
      simp [Server.accept, Server.setClient] at reading
    · rw [accept_keeps new] at reading ⊢
      exact affine.reading client reading
  · intro loop id client present
    have before := affine.map loop id client present
    rw [below client (affine.ready client before.1).1]
    exact before
  · intro loop client held
    have before := affine.held loop client held
    rw [below client (affine.ready client before.1).1]
    exact before

theorem Affine.post {s : Server} (affine : Affine s) {loop : Loop} {client : Nat}
    (accepted : client < s.accepted) (unready : (s.clients client).ready = false)
    (unposted : ∀ other, client ∉ s.posted other) (home : s.home client = some loop) :
    Affine (s.post loop client) := by
  refine ⟨affine.counter, affine.ids, ?_, ?_, affine.ready, affine.reading, affine.map,
    affine.held⟩
  · intro other member listed
    by_cases same : other = loop
    · subst same
      simp only [Server.post, Function.update_self, List.mem_append, List.mem_singleton] at listed
      rcases listed with earlier | rfl
      · exact affine.posted other member earlier
      · exact ⟨accepted, unready, home⟩
    · simp only [Server.post, Function.update_of_ne same] at listed
      exact affine.posted other member listed
  · intro other
    by_cases same : other = loop
    · subst same
      simp only [Server.post, Function.update_self]
      rw [List.nodup_append]
      refine ⟨affine.postedOnce other, List.nodup_singleton client, ?_⟩
      intro earlier member last listed
      cases List.mem_singleton.mp listed
      rintro rfl
      exact unposted other member
    · simp only [Server.post, Function.update_of_ne same]
      exact affine.postedOnce other

theorem unposted_accept {s : Server} (affine : Affine s) (loop : Loop) :
    s.accepted ∉ s.accept.posted loop := by
  intro listed
  have := (affine.posted loop s.accepted listed).1
  omega

theorem Affine.unpost {s : Server} (affine : Affine s) {loop : Loop} {client : Nat}
    : Affine (s.unpost loop client) := by
  refine ⟨affine.counter, affine.ids, ?_, ?_, affine.ready, affine.reading, affine.map,
    affine.held⟩
  · intro other member listed
    by_cases same : other = loop
    · subst same
      simp only [Server.unpost, Function.update_self] at listed
      exact affine.posted other member (List.mem_of_mem_erase listed)
    · simp only [Server.unpost, Function.update_of_ne same] at listed
      exact affine.posted other member listed
  · intro other
    by_cases same : other = loop
    · subst same
      simp only [Server.unpost, Function.update_self]
      exact (affine.postedOnce other).erase client
    · simp only [Server.unpost, Function.update_of_ne same]
      exact affine.postedOnce other

theorem Affine.erase {s : Server} (affine : Affine s) (loop : Loop) (id : Nat) :
    Affine (s.setMap loop id none) := by
  refine ⟨affine.counter, affine.ids, affine.posted, affine.postedOnce, affine.ready,
    affine.reading, ?_, affine.held⟩
  intro other place client present
  apply affine.map
  by_cases sameLoop : other = loop
  · subst sameLoop
    by_cases sameId : place = id
    · subst sameId
      simp [Server.setMap] at present
    · simpa [Server.setMap, sameId] using present
  · simpa [Server.setMap, sameLoop] using present

/-! ### Entries and buckets -/

theorem Affine.touch {s : Server} (affine : Affine s) {client : Nat}
    (reading : (s.clients client).reading = true) :
    Affine (s.updateConnection (s.clients client).loop client) := by
  have ready := affine.reading client reading
  apply Affine.setClient
  · apply affine.wheels
    case held =>
      rintro loop member (⟨bucket, listed, inside⟩ | releasing)
      · by_cases same : loop = (s.clients client).loop
        · subst same
          simp only [Server.setWhell, Function.update_self] at listed
          obtain ⟨index, present⟩ := List.mem_iff_getElem?.mp listed
          rcases Wheel.mem_insertBack present inside with rfl | ⟨before, earlier, inside⟩
          · exact .inr ⟨ready, rfl⟩
          · exact .inl (.inl ⟨before, List.mem_of_getElem? earlier, inside⟩)
        · simp only [Server.setWhell, Function.update_of_ne same] at listed
          exact .inl (.inl ⟨bucket, listed, inside⟩)
      · exact .inl (.inr releasing)
    all_goals rfl
  · rfl
  · rfl
  · rfl
  · exact id

theorem Affine.tick {s : Server} (affine : Affine s) {loop : Loop} {bucket : List Nat}
    {rest : List (List Nat)} (next : s.whell loop = bucket :: rest) :
    Affine { s.setWhell loop rest with
      releasing := Function.update s.releasing loop (some bucket)
      ticks := Function.update s.ticks loop (s.ticks loop + 1) } := by
  apply affine.wheels
  case held =>
    intro other client held
    by_cases same : other = loop
    · subst same
      simp only [Server.held, Server.setWhell, Function.update_self] at held
      refine .inl (.inl ?_)
      rw [next]
      rcases held with ⟨before, listed, inside⟩ | ⟨before, popped, inside⟩
      · exact ⟨before, List.mem_cons_of_mem _ listed, inside⟩
      · cases popped
        exact ⟨bucket, List.mem_cons_self, inside⟩
    · simp only [Server.held, Server.setWhell, Function.update_of_ne same] at held
      exact .inl held
  all_goals rfl

theorem Affine.ticked {s : Server} (affine : Affine s) (loop : Loop) :
    Affine (s.checked loop) := by
  apply affine.wheels
  case held =>
    intro other client held
    by_cases same : other = loop
    · subst same
      simp only [Server.held, Server.checked, Server.setWhell, Function.update_self] at held
      rcases held with ⟨bucket, listed, inside⟩ | ⟨bucket, impossible, _⟩
      · rcases List.mem_append.mp listed with earlier | last
        · exact .inl (.inl ⟨bucket, earlier, inside⟩)
        · cases List.mem_singleton.mp last
          cases inside
      · cases impossible
    · simp only [Server.held, Server.checked, Server.setWhell, Function.update_of_ne same] at held
      exact .inl held
  all_goals rfl

section Release

variable {s : Server} {loop : Loop} {bucket : List Nat} {client : Nat}

/-- The bucket without the entry. -/
def Server.without (s : Server) (loop : Loop) (bucket : List Nat) (client : Nat) : Server :=
  { s with releasing := Function.update s.releasing loop (some (bucket.erase client)) }

theorem held_without {other : Loop} {member : Nat} (inside : s.releasing loop = some bucket)
    (held : (s.without loop bucket client).held other member) : s.held other member := by
  rcases held with wheel | ⟨after, releasing, within⟩
  · exact .inl wheel
  · by_cases here : other = loop
    · subst here
      simp only [Server.without, Function.update_self, Option.some.injEq] at releasing
      subst releasing
      exact .inr ⟨bucket, inside, List.mem_of_mem_erase within⟩
    · simp only [Server.without, Function.update_of_ne here] at releasing
      exact .inr ⟨after, releasing, within⟩

theorem Affine.without (affine : Affine s) (inside : s.releasing loop = some bucket) :
    Affine (s.without loop bucket client) := by
  apply affine.wheels
  case held => exact fun other member held => .inl (held_without inside held)
  all_goals rfl

theorem Affine.release (affine : Affine s) (inside : s.releasing loop = some bucket) :
    Affine (s.release loop bucket client) := by
  have without : Affine (s.without loop bucket client) := affine.without inside
  unfold Server.release
  dsimp only
  split_ifs
  · exact without
  · apply without.wheels
    case held => exact fun other member held => .inl held
    all_goals rfl
  · exact without

end Release

theorem Affine.step {s s' : Server} {event : Event} (effect : Effect s event s')
    (affine : Affine s) : Affine s' := by
  cases effect with
  | @posts ret threads loop pool target =>
      apply affine.accept.post (Nat.lt_succ_self _) (accept_new s).2 (unposted_accept affine)
      unfold Server.home
      rw [show s.accept.pool = some threads from pool, (accept_new s).1]
      exact target
  | accepts alone idle =>
      apply affine.accept.setUp (Nat.lt_succ_self _) (accept_new s).2 (unposted_accept affine)
      unfold Server.home
      rw [show s.accept.pool = none from alone]
  | @runs loop client ret idle waits =>
      obtain ⟨accepted, unready, home⟩ := affine.posted loop client waits
      apply affine.unpost.setUp accepted unready _ home
      intro other still
      by_cases same : other = loop
      · subst same
        simp only [Server.unpost, Function.update_self] at still
        exact (affine.postedOnce other).not_mem_erase still
      · simp only [Server.unpost, Function.update_of_ne same] at still
        have elsewhere := (affine.posted other client still).2.2
        rw [home] at elsewhere
        exact same (Option.some.inj elsewhere).symm
  | touches idle reading alive => exact affine.touch reading
  | reads dead => exact affine
  | @ends client idle reading =>
      apply Affine.erase
      exact affine.setClient rfl rfl rfl (by simp)
  | fails reading => exact affine.setClient rfl rfl rfl (by simp)
  | ticks timed idle next => exact affine.tick next
  | releases inside member => exact affine.release inside
  | ticked finished => exact affine.ticked _
  | copies referenced => exact affine.setClient rfl rfl rfl id
  | drops used => exact affine.setClient rfl rfl rfl id

end Uvcpp.TcpServer
