/-
The idle timeout of a TcpServer.

whell_ is a timing wheel with as many buckets as the timeout has seconds.  An entry may
be in many buckets; it is destroyed, and the idle callback called, when the last of
them is taken off the wheel.
-/

import Uvcpp.Tcp.ServerAffinity

namespace Uvcpp.TcpServer

open Server

structure Wheels (s : Server) (span : Nat) : Prop where
  full : ∀ loop, s.releasing loop = none → (s.whell loop).length = span
  short : ∀ loop bucket, s.releasing loop = some bucket → (s.whell loop).length + 1 = span
  due : ∀ client, (s.clients client).ready = true →
    Wheel.Due (s.whell (s.clients client).loop) (s.ticks (s.clients client).loop) span
      (s.clients client).activity client
  late : ∀ client bucket, s.releasing (s.clients client).loop = some bucket → client ∈ bucket →
    s.ticks (s.clients client).loop ≤ (s.clients client).activity + span
  distinct : ∀ loop, (∀ bucket ∈ s.whell loop, bucket.Nodup) ∧
    ∀ bucket, s.releasing loop = some bucket → bucket.Nodup
  once : s.idle.Nodup
  finished : ∀ client ∈ s.idle, (s.clients client).ready = true ∧
    ¬ s.held (s.clients client).loop client

theorem start_wheels (timeout : Int) (pool : Option (List Nat)) :
    Wheels (start timeout pool) timeout.toNat := by
  constructor
  case distinct =>
    intro loop
    constructor
    · intro bucket listed
      cases List.eq_of_mem_replicate listed
      exact List.nodup_nil
    · simp [start]
  all_goals simp [start]

/-! ### Entries -/

theorem loop_listed {s : Server} (affine : Affine s) {client : Nat}
    (ready : (s.clients client).ready = true) : (s.clients client).loop ∈ s.loops := by
  have home := (affine.ready client ready).2
  unfold Server.home at home
  unfold Server.loops
  cases pool : s.pool with
  | none =>
      simp only [pool, Option.some.injEq] at home
      simp [← home]
  | some threads =>
      simp only [pool, getLoop] at home
      obtain ⟨thread, listed, same⟩ := Option.map_eq_some_iff.mp home
      have member := List.mem_of_getElem? listed
      simp [← same, member]

/-- An entry lives as long as a bucket of its own loop holds it. -/
theorem entryAlive_iff {s : Server} (affine : Affine s) {client : Nat}
    (ready : (s.clients client).ready = true) :
    s.entryAlive client = true ↔ s.held (s.clients client).loop client := by
  have here : ∀ loop, ((s.whell loop).any (fun bucket => bucket.contains client) ||
      ((s.releasing loop).getD []).contains client) = true ↔ s.held loop client := by
    intro loop
    unfold Server.held
    cases s.releasing loop <;> simp
  unfold Server.entryAlive
  rw [List.any_eq_true]
  constructor
  · rintro ⟨loop, _, holds⟩
    have held := (here loop).mp holds
    rw [← (affine.held loop client held).2]
    exact held
  · intro held
    exact ⟨_, loop_listed affine ready, (here _).mpr held⟩

theorem Wheels.held_iff {s : Server} {span : Nat} (wheels : Wheels s span) {client : Nat}
    (ready : (s.clients client).ready = true) (idle : s.releasing (s.clients client).loop = none) :
    s.held (s.clients client).loop client ↔
      s.ticks (s.clients client).loop < (s.clients client).activity + span := by
  rw [← (wheels.due client ready).mem_iff]
  simp [Server.held, idle]

/-! ### Steps -/

/-- Records may change in what the wheel does not look at. -/
theorem Wheels.setClient {s : Server} {span : Nat} (wheels : Wheels s span) {client : Nat}
    {record : Client} (loop : record.loop = (s.clients client).loop)
    (ready : record.ready = (s.clients client).ready)
    (activity : record.activity = (s.clients client).activity) :
    Wheels (s.setClient client record) span := by
  have same : ∀ other, ((s.setClient client record).clients other).loop = (s.clients other).loop ∧
      ((s.setClient client record).clients other).ready = (s.clients other).ready ∧
        ((s.setClient client record).clients other).activity = (s.clients other).activity := by
    intro other
    by_cases own : other = client
    · subst own
      simpa [Server.setClient] using ⟨loop, ready, activity⟩
    · simp [Server.setClient, own]
  constructor
  · exact wheels.full
  · exact wheels.short
  · intro other isReady
    rw [(same other).2.1] at isReady
    rw [(same other).1, (same other).2.2]
    exact wheels.due other isReady
  · intro other bucket
    rw [(same other).1, (same other).2.2]
    exact wheels.late other bucket
  · exact wheels.distinct
  · exact wheels.once
  · intro other listed
    rw [(same other).1, (same other).2.1]
    exact wheels.finished other listed

theorem Wheels.accept {s : Server} {span : Nat} (affine : Affine s) (wheels : Wheels s span) :
    Wheels s.accept span := by
  have keeps : ∀ client, (s.clients client).ready = true →
      s.accept.clients client = s.clients client :=
    fun client ready => accept_keeps (Nat.ne_of_lt (affine.ready client ready).1)
  have ready : ∀ client, (s.accept.clients client).ready = true →
      (s.clients client).ready = true := by
    intro client isReady
    by_cases new : client = s.accepted
    · rw [new, (accept_new s).2] at isReady
      cases isReady
    · rwa [accept_keeps new] at isReady
  constructor
  · exact wheels.full
  · exact wheels.short
  · intro client isReady
    rw [keeps client (ready client isReady)]
    exact wheels.due client (ready client isReady)
  · intro client bucket releasing member
    have isReady := (affine.held _ client (.inr ⟨bucket, releasing, member⟩)).1
    rw [keeps client isReady] at releasing ⊢
    exact wheels.late client bucket releasing member
  · exact wheels.distinct
  · exact wheels.once
  · intro client listed
    obtain ⟨isReady, gone⟩ := wheels.finished client listed
    rw [keeps client isReady]
    exact ⟨isReady, gone⟩

/-- A client that is set up comes into the last bucket of its loop. -/
theorem Wheels.setUp {s : Server} {span : Nat} (affine : Affine s) (wheels : Wheels s span)
    (positive : 0 < span) (timed : 0 < s.timeout) {loop : Loop} {client : Nat} {ret : Bool}
    (unready : (s.clients client).ready = false) (idle : s.releasing loop = none) :
    Wheels (s.setUp loop client ret) span := by
  have apart : ∀ other, (s.clients other).ready = true → other ≠ client := by
    rintro other ready rfl
    rw [unready] at ready
    cases ready
  have lengths : ∀ other, ((s.setUp loop client ret).whell other).length =
      (s.whell other).length := by
    intro other
    rw [setUp_whell]
    split_ifs
    · exact Wheel.insertBack_length _ _
    · rfl
  constructor
  · intro other released
    rw [setUp_releasing] at released
    rw [lengths]
    exact wheels.full other released
  · intro other bucket releasing
    rw [setUp_releasing] at releasing
    rw [lengths]
    exact wheels.short other bucket releasing
  · intro other ready
    rcases ready_setUp ready with before | ⟨accepts, same, place⟩
    · rw [setUp_keeps (apart other before), setUp_ticks, setUp_whell]
      split_ifs with inserted
      · exact (wheels.due other before).insert_other (apart other before)
      · exact wheels.due other before
    · rw [same] at place ⊢
      have touched : ((s.setUp loop client ret).clients client).activity = s.ticks loop := by
        rw [setUp_clients]
        simp [accepts]
      rw [place, touched, setUp_ticks, setUp_whell, if_pos ⟨accepts, timed, rfl⟩]
      exact Wheel.due_insertBack (wheels.full loop idle) positive
  · intro other bucket releasing member
    rw [setUp_releasing] at releasing
    have ready := (affine.held _ other (.inr ⟨bucket, releasing, member⟩)).1
    rw [setUp_keeps (apart other ready)] at releasing ⊢
    rw [setUp_ticks]
    exact wheels.late other bucket releasing member
  · intro other
    rw [setUp_releasing]
    refine ⟨?_, (wheels.distinct other).2⟩
    rw [setUp_whell]
    split_ifs
    · exact Wheel.insertBack_nodup (wheels.distinct other).1
    · exact (wheels.distinct other).1
  · rw [setUp_idle]
    exact wheels.once
  · intro other listed
    rw [setUp_idle] at listed
    obtain ⟨ready, gone⟩ := wheels.finished other listed
    rw [setUp_keeps (apart other ready)]
    refine ⟨ready, fun held => ?_⟩
    rcases held_setUp held with before | ⟨_, _, same⟩
    · exact gone before
    · exact apart other ready same

/-- A read event puts a live entry into the last bucket again. -/
theorem Wheels.touch {s : Server} {span : Nat} (affine : Affine s) (wheels : Wheels s span)
    (positive : 0 < span) {client : Nat} (ready : (s.clients client).ready = true)
    (idle : s.releasing (s.clients client).loop = none) (alive : s.entryAlive client = true) :
    Wheels (s.updateConnection (s.clients client).loop client) span := by
  have same : ∀ other,
      ((s.updateConnection (s.clients client).loop client).clients other).loop =
        (s.clients other).loop ∧
      ((s.updateConnection (s.clients client).loop client).clients other).ready =
        (s.clients other).ready := by
    intro other
    by_cases own : other = client
    · subst own
      simp [updateConnection, Server.setClient, setWhell]
    · simp [updateConnection, Server.setClient, setWhell, own]
  have activity : ∀ other, other ≠ client →
      ((s.updateConnection (s.clients client).loop client).clients other).activity =
        (s.clients other).activity := by
    intro other own
    simp [updateConnection, Server.setClient, setWhell, own]
  have whell : ∀ loop, (s.updateConnection (s.clients client).loop client).whell loop =
      if loop = (s.clients client).loop then Wheel.insertBack (s.whell loop) client
      else s.whell loop := by
    intro loop
    by_cases here : loop = (s.clients client).loop
    · subst here
      simp [updateConnection, Server.setClient, setWhell]
    · simp [updateConnection, Server.setClient, setWhell, here]
  have lengths : ∀ loop, ((s.updateConnection (s.clients client).loop client).whell loop).length =
      (s.whell loop).length := by
    intro loop
    rw [whell]
    split_ifs
    · exact Wheel.insertBack_length _ _
    · rfl
  constructor
  · intro loop released
    rw [lengths]
    exact wheels.full loop released
  · intro loop bucket releasing
    rw [lengths]
    exact wheels.short loop bucket releasing
  · intro other isReady
    rw [(same other).2] at isReady
    rw [(same other).1, whell]
    by_cases own : other = client
    · subst own
      simp only [if_true, updateConnection, Server.setClient, setWhell, Function.update_self]
      exact Wheel.due_insertBack (wheels.full _ idle) positive
    · rw [activity other own]
      split_ifs
      · exact (wheels.due other isReady).insert_other own
      · exact wheels.due other isReady
  · intro other bucket releasing member
    rw [(same other).1] at releasing ⊢
    by_cases own : other = client
    · subst own
      have inside : s.releasing (s.clients other).loop = some bucket := releasing
      rw [idle] at inside
      cases inside
    · rw [activity other own]
      exact wheels.late other bucket releasing member
  · intro loop
    refine ⟨?_, (wheels.distinct loop).2⟩
    rw [whell]
    split_ifs
    · exact Wheel.insertBack_nodup (wheels.distinct loop).1
    · exact (wheels.distinct loop).1
  · exact wheels.once
  · intro other listed
    obtain ⟨isReady, gone⟩ := wheels.finished other listed
    have own : other ≠ client := by
      rintro rfl
      exact gone ((entryAlive_iff affine ready).mp alive)
    rw [(same other).1, (same other).2]
    refine ⟨isReady, fun held => gone ?_⟩
    rcases held with ⟨bucket, listed, member⟩ | releasing
    · rw [whell] at listed
      split_ifs at listed
      · obtain ⟨index, present⟩ := List.mem_iff_getElem?.mp listed
        rcases Wheel.mem_insertBack present member with same | ⟨before, earlier, inside⟩
        · exact absurd same own
        · exact .inl ⟨before, List.mem_of_getElem? earlier, inside⟩
      · exact .inl ⟨bucket, listed, member⟩
    · exact .inr releasing

/-- A tick begins: the first bucket comes off the wheel. -/
theorem Wheels.tick {s : Server} {span : Nat} (affine : Affine s) (wheels : Wheels s span)
    {loop : Loop} {bucket : List Nat} {rest : List (List Nat)}
    (idle : s.releasing loop = none) (next : s.whell loop = bucket :: rest) :
    Wheels { s.setWhell loop rest with
      releasing := Function.update s.releasing loop (some bucket)
      ticks := Function.update s.ticks loop (s.ticks loop + 1) } span := by
  constructor
  · intro other released
    by_cases here : other = loop
    · subst here
      simp at released
    · simp only [setWhell, Function.update_of_ne here] at released ⊢
      exact wheels.full other released
  · intro other popped releasing
    by_cases here : other = loop
    · subst here
      have full := wheels.full other idle
      rw [next, List.length_cons] at full
      simpa [setWhell] using full
    · simp only [setWhell, Function.update_of_ne here] at releasing ⊢
      exact wheels.short other popped releasing
  · intro client ready
    have due := wheels.due client ready
    by_cases here : (s.clients client).loop = loop
    · rw [here, next] at due
      simpa [setWhell, here] using due.turn
    · simpa [setWhell, Function.update_of_ne here] using due
  · intro client popped releasing member
    by_cases here : (s.clients client).loop = loop
    · simp only [setWhell, here, Function.update_self, Option.some.injEq] at releasing ⊢
      subst releasing
      have held : s.held loop client :=
        .inl ⟨bucket, by rw [next]; exact List.mem_cons_self, member⟩
      have due := wheels.due client (affine.held loop client held).1
      rw [here, next] at due
      exact due.first member
    · simp only [setWhell, Function.update_of_ne here] at releasing ⊢
      exact wheels.late client popped releasing member
  · intro other
    by_cases here : other = loop
    · subst here
      have before := (wheels.distinct other).1
      rw [next] at before
      simp only [setWhell, Function.update_self, Option.some.injEq]
      constructor
      · exact fun popped listed => before popped (List.mem_cons_of_mem _ listed)
      · rintro popped rfl
        exact before _ List.mem_cons_self
    · simpa only [setWhell, Function.update_of_ne here] using wheels.distinct other
  · exact wheels.once
  · intro client listed
    obtain ⟨ready, gone⟩ := wheels.finished client listed
    refine ⟨ready, fun held => gone ?_⟩
    by_cases here : (s.clients client).loop = loop
    · subst here
      simp only [Server.held, setWhell, Function.update_self, Option.some.injEq] at held ⊢
      rw [next]
      rcases held with ⟨kept, listed, member⟩ | ⟨popped, rfl, member⟩
      · exact .inl ⟨kept, List.mem_cons_of_mem _ listed, member⟩
      · exact .inl ⟨_, List.mem_cons_self, member⟩
    · simpa only [Server.held, setWhell, Function.update_of_ne here] using held

/-- A tick ends: an empty bucket goes onto the wheel. -/
theorem Wheels.ticked {s : Server} {span : Nat} (wheels : Wheels s span) {loop : Loop}
    (finished : s.releasing loop = some []) : Wheels (s.checked loop) span := by
  have held : ∀ other client, (s.checked loop).held other client → s.held other client := by
    intro other client held
    by_cases here : other = loop
    · subst here
      simp only [Server.held, checked, setWhell, Function.update_self] at held
      rcases held with ⟨bucket, listed, member⟩ | ⟨_, impossible, _⟩
      · rcases List.mem_append.mp listed with earlier | last
        · exact .inl ⟨bucket, earlier, member⟩
        · cases List.mem_singleton.mp last
          cases member
      · cases impossible
    · simpa only [Server.held, checked, setWhell, Function.update_of_ne here] using held
  constructor
  · intro other released
    by_cases here : other = loop
    · subst here
      have short := wheels.short other [] finished
      simpa [checked, setWhell] using short
    · simp only [checked, setWhell, Function.update_of_ne here] at released ⊢
      exact wheels.full other released
  · intro other bucket releasing
    by_cases here : other = loop
    · subst here
      simp [checked] at releasing
    · simp only [checked, setWhell, Function.update_of_ne here] at releasing ⊢
      exact wheels.short other bucket releasing
  · intro client ready
    have due := wheels.due client ready
    by_cases here : (s.clients client).loop = loop
    · rw [here] at due
      simpa [checked, setWhell, here] using due.push
    · simpa [checked, setWhell, Function.update_of_ne here] using due
  · intro client bucket releasing member
    by_cases here : (s.clients client).loop = loop
    · simp [checked, setWhell, here] at releasing
    · simp only [checked, setWhell, Function.update_of_ne here] at releasing ⊢
      exact wheels.late client bucket releasing member
  · intro other
    by_cases here : other = loop
    · subst here
      simp only [checked, setWhell, Function.update_self]
      refine ⟨?_, by simp⟩
      intro bucket listed
      rcases List.mem_append.mp listed with earlier | last
      · exact (wheels.distinct other).1 bucket earlier
      · cases List.mem_singleton.mp last
        exact List.nodup_nil
    · simpa only [checked, setWhell, Function.update_of_ne here] using wheels.distinct other
  · exact wheels.once
  · intro client listed
    obtain ⟨ready, gone⟩ := wheels.finished client listed
    exact ⟨ready, fun inside => gone (held _ client inside)⟩

/-! ### The release of an entry -/

/-- Whether the idle callback of a client is invoked in a step: in a tick, when its
entry is released, `span` ticks after its last activity, if the connection exists. -/
def Fires (s : Server) (span : Nat) (event : Event) (client : Nat) : Prop :=
  event = .release (s.clients client).loop client ∧
    s.ticks (s.clients client).loop = (s.clients client).activity + span ∧
      s.referenced client = true

section Release

variable {s : Server} {span : Nat} {loop : Loop} {bucket : List Nat} {client : Nat}

theorem Wheels.without (wheels : Wheels s span) (inside : s.releasing loop = some bucket) :
    Wheels (s.without loop bucket client) span := by
  constructor
  · intro other released
    by_cases here : other = loop
    · subst here
      simp [Server.without] at released
    · simp only [Server.without, Function.update_of_ne here] at released ⊢
      exact wheels.full other released
  · intro other popped releasing
    by_cases here : other = loop
    · subst here
      exact wheels.short other bucket inside
    · simp only [Server.without, Function.update_of_ne here] at releasing ⊢
      exact wheels.short other popped releasing
  · exact wheels.due
  · intro member popped releasing within
    by_cases here : (s.clients member).loop = loop
    · simp only [Server.without, here, Function.update_self, Option.some.injEq] at releasing ⊢
      subst releasing
      rw [← here] at inside ⊢
      exact wheels.late member bucket inside (List.mem_of_mem_erase within)
    · simp only [Server.without, Function.update_of_ne here] at releasing ⊢
      exact wheels.late member popped releasing within
  · intro other
    refine ⟨(wheels.distinct other).1, ?_⟩
    intro popped releasing
    by_cases here : other = loop
    · subst here
      simp only [Server.without, Function.update_self, Option.some.injEq] at releasing
      subst releasing
      exact ((wheels.distinct other).2 bucket inside).erase client
    · simp only [Server.without, Function.update_of_ne here] at releasing
      exact (wheels.distinct other).2 popped releasing
  · exact wheels.once
  · intro member listed
    obtain ⟨ready, gone⟩ := wheels.finished member listed
    exact ⟨ready, fun held => gone (held_without inside held)⟩

/-- The last pointer to an entry goes in the tick that is `span` after its activity. -/
theorem dead_iff (affine : Affine s) (wheels : Wheels s span)
    (inside : s.releasing loop = some bucket) (member : client ∈ bucket) :
    loop = (s.clients client).loop ∧
      ((s.without loop bucket client).entryAlive client = false ↔
        s.ticks loop = (s.clients client).activity + span) := by
  obtain ⟨ready, here⟩ := affine.held loop client (.inr ⟨bucket, inside, member⟩)
  refine ⟨here, ?_⟩
  have within : Affine (s.without loop bucket client) := affine.without inside
  have alive : (s.without loop bucket client).entryAlive client = true ↔
      (s.without loop bucket client).held (s.clients client).loop client :=
    entryAlive_iff within ready
  have erased : client ∉ bucket.erase client :=
    ((wheels.distinct loop).2 bucket inside).not_mem_erase
  have held : (s.without loop bucket client).held (s.clients client).loop client ↔
      s.ticks (s.clients client).loop < (s.clients client).activity + span := by
    rw [← (wheels.due client ready).mem_iff, ← here]
    simp [Server.held, Server.without, erased]
  have late := wheels.late client bucket (by rw [← here]; exact inside) member
  rw [← Bool.not_eq_true, alive, held, ← here]
  rw [← here] at late
  omega

theorem Wheels.release (affine : Affine s) (wheels : Wheels s span)
    (inside : s.releasing loop = some bucket) (member : client ∈ bucket) :
    Wheels (s.release loop bucket client) span := by
  have without : Wheels (s.without loop bucket client) span := wheels.without inside
  have before : s.held loop client := .inr ⟨bucket, inside, member⟩
  obtain ⟨ready, here⟩ := affine.held loop client before
  unfold Server.release
  dsimp only
  split_ifs with alive referenced
  · exact without
  · refine ⟨without.full, without.short, without.due, without.late, without.distinct, ?_, ?_⟩
    · rw [List.nodup_append]
      refine ⟨wheels.once, List.nodup_singleton client, ?_⟩
      intro earlier listed last single
      cases List.mem_singleton.mp single
      rintro rfl
      rw [here] at before
      exact (wheels.finished earlier listed).2 before
    · intro other listed
      rcases List.mem_append.mp listed with earlier | last
      · exact without.finished other earlier
      · cases List.mem_singleton.mp last
        refine ⟨ready, fun held => alive ?_⟩
        exact (entryAlive_iff (affine.without inside) ready).mpr held
  · exact without

/-- A release invokes the callback of its client only, and only when it fires. -/
theorem release_fires (affine : Affine s) (wheels : Wheels s span)
    (inside : s.releasing loop = some bucket) (member : client ∈ bucket) :
    ∃ invoked, (s.release loop bucket client).idle = s.idle ++ invoked ∧
      ∀ other, other ∈ invoked ↔ Fires s span (.release loop client) other := by
  obtain ⟨here, dead⟩ := dead_iff affine wheels inside member
  have only : ∀ other, Fires s span (.release loop client) other → other = client := by
    rintro other ⟨same, _⟩
    cases same
    rfl
  have fires : Fires s span (.release loop client) client ↔
      (s.without loop bucket client).entryAlive client = false ∧ s.referenced client = true := by
    unfold Fires
    rw [dead, here]
    simp
  unfold Server.release
  dsimp only
  split_ifs with alive referenced
  · refine ⟨[], by simp, fun other => ?_⟩
    constructor
    · intro impossible
      cases impossible
    · intro fired
      rw [only other fired, fires] at fired
      exact absurd alive (by rw [Bool.not_eq_true]; exact fired.1)
  · refine ⟨[client], rfl, fun other => ?_⟩
    rw [List.mem_singleton]
    constructor
    · rintro rfl
      exact fires.mpr ⟨Bool.eq_false_iff.mpr alive, referenced⟩
    · exact only other
  · refine ⟨[], by simp, fun other => ?_⟩
    constructor
    · intro impossible
      cases impossible
    · intro fired
      rw [only other fired, fires] at fired
      exact absurd fired.2 referenced

end Release

/-! ### Activity -/

/-- What counts as an activity of the client: its set-up, and a read while its entry is
alive. -/
def isActivity (s : Server) : Event → Nat → Bool
  | .accept true, client => s.pool.isNone && client == s.accepted
  | .run _ other true, client => client == other
  | .read other .data, client => client == other && s.entryAlive client
  | _, _ => false

/-- The record of the activity that a step leaves behind. -/
def Marks (s : Server) (event : Event) (s' : Server) : Prop :=
  ∀ client, (s'.clients client).ready = true →
    (s'.clients client).activity =
      if isActivity s event client then s.ticks (s'.clients client).loop
      else (s.clients client).activity

/-- A step without activities that leaves these fields alone. -/
theorem Marks.quiet {s s' : Server} {event : Event}
    (none : ∀ client, isActivity s event client = false)
    (same : ∀ client, (s'.clients client).activity = (s.clients client).activity) :
    Marks s event s' := by
  intro client _ready
  rw [none client, same client]
  rfl

theorem activity_setClient (s : Server) {client : Nat} {record : Client}
    (same : record.activity = (s.clients client).activity) (other : Nat) :
    ((s.setClient client record).clients other).activity = (s.clients other).activity := by
  by_cases here : other = client
  · subst here
    simp [Server.setClient, same]
  · simp [Server.setClient, here]

/-- The set-up marks the client it makes ready. -/
theorem marks_setUp {s : Server} {loop : Loop} {client : Nat} {ret : Bool} {other : Nat}
    (unready : (s.clients client).ready = false)
    (ready : ((s.setUp loop client ret).clients other).ready = true) :
    ((s.setUp loop client ret).clients other).activity =
      if ret && other == client then s.ticks ((s.setUp loop client ret).clients other).loop
      else (s.clients other).activity := by
  rw [setUp_clients] at ready ⊢
  by_cases same : other = client
  · subst same
    cases ret with
    | true => simp
    | false => simp [unready] at ready
  · simp [same]

theorem marks_step {s s' : Server} {event : Event} (effect : Effect s event s')
    (affine : Affine s) : Marks s event s' := by
  cases effect with
  | @posts ret threads loop pool target =>
      intro client ready
      have kept : client ≠ s.accepted := by
        rintro rfl
        exact Bool.noConfusion ((accept_new s).2.symm.trans ready)
      have nothing : isActivity s (.accept ret) client = false := by
        cases ret <;> simp [isActivity, pool]
      rw [nothing]
      change (s.accept.clients client).activity = _
      rw [accept_keeps kept]
      rfl
  | @accepts ret alone idle =>
      intro client ready
      have marked := marks_setUp (accept_new s).2 ready
      cases ret with
      | true =>
          have same : isActivity s (.accept true) client = (client == s.accepted) := by
            simp [isActivity, alone]
          rw [same, marked, Bool.true_and]
          by_cases new : client = s.accepted
          · simp [new, Server.accept, Server.setClient]
          · simp [new, accept_keeps new]
      | false =>
          have kept : client ≠ s.accepted := by
            rintro rfl
            rw [setUp_clients] at ready
            simp [(accept_new s).2] at ready
          rw [marked, accept_keeps kept]
          rfl
  | @runs loop client ret idle waits =>
      intro other ready
      have unready : ((s.unpost loop client).clients client).ready = false :=
        (affine.posted loop client waits).2.1
      have marked := marks_setUp unready ready
      cases ret with
      | true => simpa [isActivity, Server.unpost] using marked
      | false => exact marked
  | @touches client idle reading alive =>
      intro other _ready
      by_cases same : other = client
      · subst same
        simp [isActivity, alive, Server.updateConnection, Server.setClient, Server.setWhell]
      · simp [isActivity, same, Server.updateConnection, Server.setClient, Server.setWhell]
  | @reads client dead =>
      apply Marks.quiet
      · intro other
        by_cases same : other = client
        · subst same
          simp [isActivity, dead]
        · simp [isActivity, same]
      · exact fun _ => rfl
  | ends idle reading =>
      apply Marks.quiet
      · exact fun _ => rfl
      · exact activity_setClient s rfl
  | fails reading =>
      apply Marks.quiet
      · exact fun _ => rfl
      · exact activity_setClient s rfl
  | ticks timed idle next => exact .quiet (fun _ => rfl) fun _ => rfl
  | releases inside member =>
      apply Marks.quiet
      · exact fun _ => rfl
      · intro client
        unfold Server.release
        dsimp only
        split_ifs <;> rfl
  | ticked finished => exact .quiet (fun _ => rfl) fun _ => rfl
  | copies referenced =>
      apply Marks.quiet
      · exact fun _ => rfl
      · exact activity_setClient s rfl
  | drops used =>
      apply Marks.quiet
      · exact fun _ => rfl
      · exact activity_setClient s rfl

/-! ### Runs -/

theorem timeout_step {s s' : Server} {event : Event} (effect : Effect s event s') :
    s'.timeout = s.timeout := by
  cases effect with
  | accepts alone idle =>
      rw [setUp_timeout]
      rfl
  | runs idle waits =>
      rw [setUp_timeout]
      rfl
  | releases inside member =>
      unfold Server.release
      dsimp only
      split_ifs <;> rfl
  | _ => rfl

/-- Closures and the registry do not matter. -/
theorem Wheels.congr {s s' : Server} {span : Nat} (wheels : Wheels s span)
    (clients : s'.clients = s.clients) (whell : s'.whell = s.whell)
    (releasing : s'.releasing = s.releasing) (ticks : s'.ticks = s.ticks)
    (idle : s'.idle = s.idle) : Wheels s' span := by
  constructor
  · rw [whell, releasing]
    exact wheels.full
  · rw [whell, releasing]
    exact wheels.short
  · rw [whell, clients, ticks]
    exact wheels.due
  · rw [releasing, clients, ticks]
    exact wheels.late
  · rw [whell, releasing]
    exact wheels.distinct
  · rw [idle]
    exact wheels.once
  · unfold Server.held
    rw [idle, clients, whell, releasing]
    exact wheels.finished

theorem Wheels.step {s s' : Server} {span : Nat} {event : Event} (effect : Effect s event s')
    (affine : Affine s) (timed : 0 < s.timeout) (positive : 0 < span) (wheels : Wheels s span) :
    Wheels s' span := by
  cases effect with
  | posts pool target =>
      apply (wheels.accept affine).congr
      all_goals rfl
  | accepts alone idle =>
      exact (wheels.accept affine).setUp affine.accept positive timed (accept_new s).2 idle
  | @runs loop client ret idle waits =>
      apply Wheels.setUp affine.unpost
      · apply wheels.congr
        all_goals rfl
      · exact positive
      · exact timed
      · exact (affine.posted loop client waits).2.1
      · exact idle
  | @touches client idle reading alive =>
      exact wheels.touch affine positive (affine.reading client reading) idle alive
  | reads dead => exact wheels
  | @ends client idle reading =>
      have kept : Wheels (s.setClient client
          { s.clients client with reading := false, ended := true }) span :=
        wheels.setClient rfl rfl rfl
      apply kept.congr
      all_goals rfl
  | fails reading => exact wheels.setClient rfl rfl rfl
  | ticks timed idle next => exact wheels.tick affine idle next
  | releases inside member => exact wheels.release affine inside member
  | ticked finished => exact wheels.ticked finished
  | copies referenced => exact wheels.setClient rfl rfl rfl
  | drops used => exact wheels.setClient rfl rfl rfl

theorem reachable_wheels {timeout : Int} {pool : Option (List Nat)} {s : Server}
    (timed : 0 < timeout) (reachable : Transition.Reachable (system timeout pool) s) :
    s.timeout = timeout ∧ Affine s ∧ Wheels s timeout.toNat := by
  induction reachable with
  | start begins =>
      cases begins
      exact ⟨rfl, start_affine timeout pool, start_wheels timeout pool⟩
  | next _before taken ih =>
      obtain ⟨same, affine, wheels⟩ := ih
      have effect := step_effect taken
      refine ⟨(timeout_step effect).trans same, affine.step effect, ?_⟩
      exact wheels.step effect affine (by rw [same]; exact timed) (Int.pos_iff_toNat_pos.mp timed)

theorem step_fires {s s' : Server} {span : Nat} {event : Event} (effect : Effect s event s')
    (affine : Affine s) (wheels : Wheels s span) :
    ∃ invoked, s'.idle = s.idle ++ invoked ∧
      ∀ client, client ∈ invoked ↔ Fires s span event client := by
  cases effect with
  | releases inside member => exact release_fires affine wheels inside member
  | accepts alone idle =>
      refine ⟨[], ?_, fun client => by simp [Fires]⟩
      rw [setUp_idle, List.append_nil]
      rfl
  | runs idle waits =>
      refine ⟨[], ?_, fun client => by simp [Fires]⟩
      rw [setUp_idle, List.append_nil]
      rfl
  | _ => exact ⟨[], (List.append_nil _).symm, fun client => by simp [Fires]⟩

/-- Between ticks every wheel has as many buckets as the timeout has seconds, and an
entry is alive for that many ticks after its last activity.  A step invokes the idle
callback of exactly the client whose entry goes in the tick that many after its last
activity, if its connection still exists, and no client's twice; and it sets the last
activity of exactly the client that is set up or read while its entry is alive. -/
theorem idle_timeout {timeout : Int} {pool : Option (List Nat)} {s : Server}
    (timed : 0 < timeout) (reachable : Transition.Reachable (system timeout pool) s) :
    (∀ loop, s.releasing loop = none → (s.whell loop).length = timeout.toNat) ∧
    (∀ client, (s.clients client).ready = true →
      s.releasing (s.clients client).loop = none →
        (s.entryAlive client = true ↔
          s.ticks (s.clients client).loop < (s.clients client).activity + timeout.toNat)) ∧
    s.idle.Nodup ∧
    ∀ event s', step s event = some s' →
      (∃ invoked, s'.idle = s.idle ++ invoked ∧
        ∀ client, client ∈ invoked ↔ Fires s timeout.toNat event client) ∧
      ∀ client, (s'.clients client).ready = true →
        (s'.clients client).activity =
          if isActivity s event client then s.ticks (s'.clients client).loop
          else (s.clients client).activity := by
  obtain ⟨_, affine, wheels⟩ := reachable_wheels timed reachable
  refine ⟨wheels.full, ?_, wheels.once, ?_⟩
  · intro client ready idle
    rw [entryAlive_iff affine ready]
    exact wheels.held_iff ready idle
  · intro event s' taken
    have effect := step_effect taken
    exact ⟨step_fires effect affine wheels, marks_step effect affine⟩

/-- A timeout of two seconds: data in the second after the acceptance, then two ticks. -/
def twoSeconds : List Event :=
  [.accept true, .tick .main, .ticked .main, .read 0 .data, .tick .main, .release .main 0,
    .ticked .main, .tick .main]

theorem idle_timeout_two :
    ∃ s, Transition.Reachable (system 2 none) s ∧ Fires s 2 (.release .main 0) 0 ∧
      ∃ s', step s (.release .main 0) = some s' ∧ 0 ∈ s'.idle := by
  have found : ∃ s ∈ Transition.execute step (start 2 none) twoSeconds,
      (s.clients 0).loop = .main ∧ s.ticks .main = (s.clients 0).activity + 2 ∧
        s.referenced 0 = true ∧ (step s (.release .main 0)).isSome = true := by
    decide
  obtain ⟨s, reachable, here, due, referenced, possible⟩ := Transition.exists_reachable found
  obtain ⟨s', taken⟩ := Option.isSome_iff_exists.mp possible
  have fires : Fires s 2 (.release .main 0) 0 := by
    unfold Fires
    rw [here]
    exact ⟨rfl, due, referenced⟩
  obtain ⟨invoked, same, exactly⟩ :=
    ((idle_timeout (by decide) reachable).2.2.2 (.release .main 0) s' taken).1
  refine ⟨s, reachable, fires, s', taken, ?_⟩
  rw [same]
  exact List.mem_append_right _ ((exactly 0).mpr fires)

end Uvcpp.TcpServer
