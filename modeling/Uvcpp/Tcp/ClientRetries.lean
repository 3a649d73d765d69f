/-
The retries of a TcpClient.

A failed attempt counts up curr_ and starts a timer of curr_ * 10000 milliseconds as long as
curr_ stays within retryNum_; connect sets curr_ back.  The timers run on while connect is
called again, so the attempts of several calls overlap.
-/

import Uvcpp.Tcp.ClientMoves

namespace Uvcpp.TcpClient

/-- `client->curr_ * 10000` -/
def timeout (s : TcpClient) : Nat := s.curr * 10000

/-- A client with the timeouts of the retries since each connect, the latest connect first. -/
structure Retries where
  client : TcpClient
  epochs : List (List Nat)

namespace Retries

def start : Retries :=
  { client := .start
    epochs := [] }

/-- Add to the latest list. -/
def addLatest (time : Nat) : List (List Nat) → List (List Nat)
  | [] => []
  | latest :: earlier => (latest ++ [time]) :: earlier

/-- The lists after a step: a connect opens a new one, a timer that starts goes into the
latest. -/
def record (r : Retries) (event : Event) (after : TcpClient) : List (List Nat) :=
  match event with
  | .connect _ _ => [] :: r.epochs
  | _ => if r.client.timers < after.timers then addLatest after.timeout r.epochs else r.epochs

def step (r : Retries) (event : Event) : Option Retries :=
  (r.client.step event).map fun after =>
    { client := after
      epochs := r.record event after }

def system : Transition.System Retries Event :=
  Transition.System.executed (fun r => r = start) step

end Retries

/-! ### What a step does to the counters -/

/-- The attempts that are not completed. -/
def pending (s : TcpClient) : Nat := s.posted.length + s.connecting.length

/-- What a step does to the attempts, to curr_ and to the timers. -/
inductive Counts (s s' : TcpClient) : Event → Prop where
  | connects {thread : Thread} {ret : Bool} (created : s'.created = s.created + 1)
      (curr : s'.curr = 0) (retryNum : s'.retryNum = s.retryNum) (timers : s'.timers = s.timers)
      (pending : s'.pending = s.pending + if ret ∨ thread = .user then 1 else 0) :
      Counts s s' (.connect thread ret)
  | sets {num : Nat} (created : s'.created = s.created) (curr : s'.curr = s.curr)
      (retryNum : s'.retryNum = num) (timers : s'.timers = s.timers)
      (pending : s'.pending = s.pending) : Counts s s' (.setRetryNum num)
  | starts {handle : Nat} {ret : Bool} (created : s'.created = s.created)
      (curr : s'.curr = s.curr) (retryNum : s'.retryNum = s.retryNum)
      (timers : s'.timers = s.timers)
      (pending : s'.pending + (if ret then 0 else 1) = s.pending) :
      Counts s s' (.start handle ret)
  | succeeds {handle : Nat} {ret : Bool} (created : s'.created = s.created)
      (curr : s'.curr = s.curr) (retryNum : s'.retryNum = s.retryNum)
      (timers : s'.timers = s.timers) (pending : s'.pending + 1 = s.pending) :
      Counts s s' (.complete handle true ret)
  | fails {handle : Nat} {ret : Bool} (created : s'.created = s.created)
      (curr : s'.curr = s.curr + 1) (retryNum : s'.retryNum = s.retryNum)
      (timers : s'.timers = s.timers + if s.curr + 1 ≤ s.retryNum then 1 else 0)
      (pending : s'.pending + 1 = s.pending) : Counts s s' (.complete handle false ret)
  | fires {ret : Bool} (created : s'.created = s.created + 1) (curr : s'.curr = s.curr)
      (retryNum : s'.retryNum = s.retryNum) (timers : s'.timers + 1 = s.timers)
      (pending : s'.pending = s.pending + if ret then 1 else 0) : Counts s s' (.timer ret)
  | quiet {event : Event} (created : s'.created = s.created) (curr : s'.curr = s.curr)
      (retryNum : s'.retryNum = s.retryNum) (timers : s'.timers = s.timers)
      (pending : s'.pending = s.pending)
      (connect : ∀ thread ret, event ≠ .connect thread ret) : Counts s s' event

theorem connectImpl_pending (s : TcpClient) (thread : Thread) (ret : Bool) :
    (s.connectImpl thread ret).pending =
      s.pending + if ret ∨ thread = .user then 1 else 0 := by
  cases thread <;> cases ret <;> simp [connectImpl, uvTcpConnect, pending] <;> omega

theorem connectImpl_fields (s : TcpClient) (thread : Thread) (ret : Bool) :
    (s.connectImpl thread ret).created = s.created + 1 ∧
      (s.connectImpl thread ret).curr = s.curr ∧
      (s.connectImpl thread ret).retryNum = s.retryNum ∧
      (s.connectImpl thread ret).timers = s.timers ∧
      (s.connectImpl thread ret).client = some s.created := by
  cases thread <;> exact ⟨rfl, rfl, rfl, rfl, rfl⟩

theorem uvTcpConnect_pending (s : TcpClient) {handle : Nat} (member : handle ∈ s.posted)
    (ret : Bool) :
    ({ s with posted := s.posted.erase handle }.uvTcpConnect handle ret).pending +
      (if ret then 0 else 1) = s.pending := by
  have positive := List.length_pos_of_mem member
  have shorter := List.length_erase_of_mem member
  cases ret <;> simp [uvTcpConnect, pending, shorter] <;> omega

theorem complete_pending (s : TcpClient) {handle : Nat} (member : handle ∈ s.connecting) :
    ({ s with connecting := s.connecting.erase handle }).pending + 1 = s.pending := by
  have positive := List.length_pos_of_mem member
  have shorter := List.length_erase_of_mem member
  simp only [pending, shorter]
  omega

theorem makeShared_fields (s : TcpClient) (client : Nat) :
    ∃ handles connections data, s.makeShared client =
      { s.newConnection client with
        handles := handles
        connections := connections
        data := data } := by
  obtain ⟨handles, connections, same⟩ :=
    release_eq (s.newConnection client) s.connectionPtr .loop
  exact ⟨handles, connections, _, by rw [makeShared_eq, same]⟩

theorem timerCallback_eq {s : TcpClient} (alive : s.alive = true) (ret : Bool) :
    s.timerCallback ret = s.connectImpl .loop ret := if_pos alive

theorem exists_client {s : TcpClient} {handle : Nat}
    (named : s.client = none → s.posted = [] ∧ s.connecting = [])
    (member : handle ∈ s.connecting) : ∃ client, s.client = some client := by
  apply Option.ne_none_iff_exists'.mp
  intro none
  rw [(named none).2] at member
  cases member

/-- Before the first connect there is no attempt. -/
theorem reachable_named {s : TcpClient} (reachable : Transition.Reachable system s) :
    s.client = none → s.posted = [] ∧ s.connecting = [] := by
  induction reachable with
  | start begins =>
      cases begins
      exact fun _ => ⟨rfl, rfl⟩
  | @next s s' event before taken ih =>
      have alive := reachable_alive before
      cases (step_effect taken).2 with
      | @connects thread ret _alive =>
          intro none
          rw [TcpClient.connect, (connectImpl_fields _ thread ret).2.2.2.2] at none
          cases none
      | @starts handle ret idle member =>
          intro none
          rw [(ih none).1] at member
          cases member
      | @completes handle status ret idle member =>
          obtain ⟨client, latest⟩ := exists_client ih member
          rw [connectionCallback_eq (s := { s with connecting := s.connecting.erase handle })
            alive latest]
          intro none
          have kept : s.client = Option.none := by
            split_ifs at none
            · obtain ⟨handles, connections, data, same⟩ := makeShared_fields
                ({ s with connecting := s.connecting.erase handle }.setHandle client
                  (s.handles client).readStart) client
              rw [same] at none
              exact none
            · exact none
            · exact none
          rw [latest] at kept
          cases kept
      | @fires ret idle running =>
          intro none
          rw [timerCallback_eq (s := { s with timers := s.timers - 1 }) alive,
            (connectImpl_fields _ _ _).2.2.2.2] at none
          cases none
      | @finishes reading running =>
          obtain ⟨handles, connections, same⟩ := finish_eq s reading
          rw [same]
          exact ih
      | @shutDowns handle client rest idle next => cases client <;> exact ih
      | releases gone kept =>
          rw [alive] at gone
          cases gone
      | _ => exact ih

theorem step_counts {s s' : TcpClient} {event : Event}
    (reachable : Transition.Reachable system s) (taken : s.step event = some s') :
    Counts s s' event := by
  have alive := reachable_alive reachable
  have named := reachable_named reachable
  cases (step_effect taken).2 with
  | @connects thread ret _alive =>
      obtain ⟨created, curr, retryNum, timers, _client⟩ :=
        connectImpl_fields { s with curr := 0 } thread ret
      exact .connects created curr retryNum timers (connectImpl_pending _ thread ret)
  | sets alive => exact .sets rfl rfl rfl rfl rfl
  | @starts handle ret idle member =>
      exact .starts rfl rfl rfl rfl (uvTcpConnect_pending s member ret)
  | @completes handle status ret idle member =>
      have fewer := complete_pending s member
      obtain ⟨client, latest⟩ := exists_client named member
      rw [connectionCallback_eq (s := { s with connecting := s.connecting.erase handle })
        alive latest]
      cases status with
      | true =>
          cases ret with
          | true =>
              obtain ⟨handles, connections, data, same⟩ := makeShared_fields
                ({ s with connecting := s.connecting.erase handle }.setHandle client
                  (s.handles client).readStart) client
              rw [if_pos rfl, if_pos rfl, same]
              exact .succeeds rfl rfl rfl rfl fewer
          | false => exact .succeeds rfl rfl rfl rfl fewer
      | false =>
          refine .fails rfl rfl rfl ?_ fewer
          change (if s.curr + 1 ≤ s.retryNum then s.timers + 1 else s.timers) = _
          split <;> rfl
  | @fires ret idle running =>
      rw [timerCallback_eq (s := { s with timers := s.timers - 1 }) alive]
      obtain ⟨created, curr, retryNum, timers, _client⟩ :=
        connectImpl_fields { s with timers := s.timers - 1 } .loop ret
      refine .fires created curr retryNum ?_ ?_
      · rw [timers]
        exact Nat.sub_add_cancel running
      · rw [connectImpl_pending]
        cases ret <;> rfl
  | @finishes reading running =>
      obtain ⟨handles, connections, same⟩ := finish_eq s reading
      rw [same]
      exact .quiet rfl rfl rfl rfl rfl (by intros; exact Event.noConfusion)
  | @shutDowns handle client rest idle next =>
      cases client <;> exact .quiet rfl rfl rfl rfl rfl (by intros; exact Event.noConfusion)
  | releases gone kept =>
      rw [alive] at gone
      cases gone
  | _ => exact .quiet rfl rfl rfl rfl rfl (by intros; exact Event.noConfusion)

/-! ### The timeouts -/

/-- 10000, 20000, ... -/
def timeouts (count : Nat) : List Nat := (List.range count).map fun index => (index + 1) * 10000

@[simp] theorem timeouts_length (count : Nat) : (timeouts count).length = count := by
  simp [timeouts]

theorem timeouts_succ (count : Nat) :
    timeouts (count + 1) = timeouts count ++ [(count + 1) * 10000] := by
  simp [timeouts, List.range_succ]

theorem timeouts_mono {count more : Nat} (fewer : count ≤ more) :
    (timeouts count).Sublist (timeouts more) := by
  induction fewer with
  | refl => exact List.Sublist.refl _
  | step _fewer ih =>
      rw [timeouts_succ]
      exact ih.trans (List.sublist_append_left _ _)

namespace Retries

variable {r after : Retries} {event : Event}

theorem step_client (taken : r.step event = some after) :
    r.client.step event = some after.client ∧ after.epochs = r.record event after.client := by
  obtain ⟨client, moved, same⟩ := Option.map_eq_some_iff.mp taken
  cases same
  exact ⟨moved, rfl⟩

/-- Only a connect and a timer that starts change the lists. -/
theorem record_same (connect : ∀ thread ret, event ≠ .connect thread ret) {client : TcpClient}
    (timers : client.timers ≤ r.client.timers) : r.record event client = r.epochs := by
  unfold record
  split
  · exact absurd rfl (connect _ _)
  · exact if_neg (Nat.not_lt.mpr timers)

/-- `retryNum_` is never set above `longest`. -/
def Within (longest : Nat) : Event → Prop
  | .setRetryNum num => num ≤ longest
  | _ => True

/-- The timeouts since a connect follow each other among the first `longest`, those since the
latest among the first curr_; and each attempt is that of a connect or of a timer. -/
structure Paced (longest : Nat) (r : Retries) : Prop where
  client : Transition.Reachable TcpClient.system r.client
  within : r.client.retryNum ≤ longest
  waits : ∀ epoch ∈ r.epochs, epoch.Sublist (timeouts longest)
  latest : ∀ epoch ∈ r.epochs.head?, epoch.Sublist (timeouts r.client.curr)
  unused : r.epochs = [] → r.client.pending = 0
  counted : r.client.created + r.client.timers = r.epochs.length + r.epochs.flatten.length

theorem start_paced {longest : Nat} (least : 3 ≤ longest) : start.Paced longest where
  client := .start rfl
  within := least
  waits := List.forall_mem_nil _
  latest := by simp [start]
  unused _ := rfl
  counted := rfl

/-- A failure with a timer adds the next timeout. -/
theorem Paced.fail {longest : Nat} (paced : r.Paced longest)
    (client : Transition.Reachable TcpClient.system after.client)
    (created : after.client.created = r.client.created)
    (curr : after.client.curr = r.client.curr + 1)
    (retryNum : after.client.retryNum = r.client.retryNum)
    (timers : after.client.timers = r.client.timers + 1)
    (pending : after.client.pending + 1 = r.client.pending)
    (allowed : r.client.curr + 1 ≤ r.client.retryNum)
    (epochs : after.epochs = addLatest after.client.timeout r.epochs) : after.Paced longest := by
  have within := paced.within
  cases lists : r.epochs with
  | nil =>
      have none := paced.unused lists
      omega
  | cons epoch earlier =>
      have counted := paced.counted
      rw [lists] at epochs counted
      have next : (epoch ++ [after.client.timeout]).Sublist (timeouts (r.client.curr + 1)) := by
        rw [timeouts_succ, timeout, curr]
        exact (paced.latest epoch (by simp [lists])).append (List.Sublist.refl _)
      constructor
      · exact client
      · rw [retryNum]
        exact within
      · rw [epochs]
        intro other member
        rcases List.mem_cons.mp member with rfl | old
        · exact next.trans (timeouts_mono (by omega))
        · exact paced.waits other (by simp [lists, old])
      · rw [epochs, curr]
        intro other head
        cases head
        exact next
      · rw [epochs]
        intro impossible
        cases impossible
      · rw [epochs, created, timers]
        simp only [addLatest, List.length_cons, List.flatten_cons, List.length_append,
          List.length_nil] at counted ⊢
        omega

/-- A step that starts no timer and is no connect. -/
theorem Paced.keep {longest : Nat} (paced : r.Paced longest)
    (client : Transition.Reachable TcpClient.system after.client)
    (within : after.client.retryNum ≤ longest) (curr : r.client.curr ≤ after.client.curr)
    (pending : after.client.pending ≤ r.client.pending ∨ r.epochs ≠ [])
    (counted : after.client.created + after.client.timers =
      r.client.created + r.client.timers) (epochs : after.epochs = r.epochs) :
    after.Paced longest where
  client := client
  within := within
  waits := by
    rw [epochs]
    exact paced.waits
  latest := by
    rw [epochs]
    exact fun epoch head => (paced.latest epoch head).trans (timeouts_mono curr)
  unused := by
    rw [epochs]
    intro none
    have before := paced.unused none
    rcases pending with fewer | some
    · omega
    · exact absurd none some
  counted := by
    rw [epochs, counted]
    exact paced.counted

theorem Paced.step {longest : Nat} (paced : r.Paced longest) (allowed : Within longest event)
    (taken : r.step event = some after) : after.Paced longest := by
  obtain ⟨moved, epochs⟩ := step_client taken
  have client := paced.client.next moved
  have within := paced.within
  cases step_counts paced.client moved with
  | connects created curr retryNum timers pending =>
      have counted := paced.counted
      constructor
      · exact client
      · omega
      · rw [epochs]
        intro epoch member
        rcases List.mem_cons.mp member with rfl | old
        · exact List.nil_sublist _
        · exact paced.waits epoch old
      · rw [epochs]
        intro epoch head
        cases head
        exact List.nil_sublist _
      · rw [epochs]
        intro impossible
        cases impossible
      · rw [epochs, created, timers]
        simp only [record, List.length_cons, List.flatten_cons, List.nil_append]
        omega
  | sets created curr retryNum timers pending =>
      rw [record_same (by intros; exact Event.noConfusion) (by omega)] at epochs
      refine paced.keep client ?_ (by omega) (.inl (by omega)) (by omega) epochs
      rw [retryNum]
      exact allowed
  | starts created curr retryNum timers pending =>
      rw [record_same (by intros; exact Event.noConfusion) (by omega)] at epochs
      exact paced.keep client (by omega) (by omega) (.inl (by omega)) (by omega) epochs
  | succeeds created curr retryNum timers pending =>
      rw [record_same (by intros; exact Event.noConfusion) (by omega)] at epochs
      exact paced.keep client (by omega) (by omega) (.inl (by omega)) (by omega) epochs
  | fails created curr retryNum timers pending =>
      by_cases more : r.client.curr + 1 ≤ r.client.retryNum
      · rw [if_pos more] at timers
        apply paced.fail client created curr retryNum timers pending more
        rw [epochs]
        exact if_pos (by omega)
      · rw [if_neg more] at timers
        rw [record_same (by intros; exact Event.noConfusion) (by omega)] at epochs
        exact paced.keep client (by omega) (by omega) (.inl (by omega)) (by omega) epochs
  | fires created curr retryNum timers pending =>
      rw [record_same (by intros; exact Event.noConfusion) (by omega)] at epochs
      refine paced.keep client (by omega) (by omega) (.inr ?_) (by omega) epochs
      intro none
      have counted := paced.counted
      rw [none] at counted
      simp only [List.length_nil, List.flatten_nil] at counted
      omega
  | quiet created curr retryNum timers pending connect =>
      rw [record_same connect (by omega)] at epochs
      exact paced.keep client (by omega) (by omega) (.inl (by omega)) (by omega) epochs

theorem reachable_paced {longest : Nat} (least : 3 ≤ longest) (reachable : Transition.Reachable
    (system.restrict fun _ event => Within longest event) r) : r.Paced longest := by
  induction reachable with
  | start begins =>
      cases begins
      exact start_paced least
  | next _before taken ih => exact ih.step taken.1 taken.2

theorem flatten_length_le {bound : Nat} {lists : List (List Nat)}
    (short : ∀ list ∈ lists, list.length ≤ bound) :
    lists.flatten.length ≤ lists.length * bound := by
  induction lists with
  | nil => exact Nat.zero_le _
  | cons list rest ih =>
      have here := short list List.mem_cons_self
      have later := ih fun other member => short other (List.mem_cons_of_mem _ member)
      rw [List.flatten_cons, List.length_append, List.length_cons, Nat.succ_mul]
      omega

end Retries

/-- **Retries.** In every run in which `retryNum_` is at most `longest`, with any number of
connect calls and attempts at a time, the timeouts after each connect follow each other among
10000, 20000, ..., 10000 * `longest`; every attempt is that of a connect or of one of the
timers, so there are at most `longest` + 1 of them for each connect. -/
theorem retries_bounded {longest : Nat} (least : 3 ≤ longest) {r : Retries}
    (reachable : Transition.Reachable
      (Retries.system.restrict fun _ event => Retries.Within longest event) r) :
    (∀ epoch ∈ r.epochs, epoch.Sublist (timeouts longest)) ∧
      r.client.created + r.client.timers = r.epochs.length + r.epochs.flatten.length ∧
      r.client.created ≤ r.epochs.length * (longest + 1) := by
  have paced := Retries.reachable_paced least reachable
  refine ⟨paced.waits, paced.counted, ?_⟩
  have counted := paced.counted
  have short := Retries.flatten_length_le fun epoch member => by
    have fewer := (paced.waits epoch member).length_le
    rw [timeouts_length] at fewer
    exact fewer
  rw [Nat.mul_add, Nat.mul_one]
  omega

/-- A connect while the first retry waits, and both attempts fail. -/
def waiting : List Event :=
  [.connect .loop true, .complete 0 false true, .connect .loop true, .timer true,
    .complete 1 false true, .complete 2 false true]

theorem retries_bounded_waiting :
    ∃ r, Transition.Reachable
        (Retries.system.restrict fun _ event => Retries.Within 3 event) r ∧
      r.epochs = [[10000, 20000], [10000]] ∧ r.client.created ≤ r.epochs.length * (3 + 1) := by
  have found : ∃ r ∈ Transition.execute
      (Transition.checked (fun _ event => waiting.contains event) Retries.step) Retries.start
        waiting,
      r.epochs = [[10000, 20000], [10000]] := by
    decide
  have sound : ∀ r event, Transition.Reachable
      (Retries.system.restrict fun _ event => Retries.Within 3 event) r →
        waiting.contains event = true → Retries.Within 3 event := by
    intro r event _before member
    cases event with
    | setRetryNum num => simp [waiting] at member
    | _ => trivial
  obtain ⟨r, reachable, epochs⟩ := Transition.exists_reachable_within sound found
  exact ⟨r, reachable, epochs, (retries_bounded (Nat.le_refl 3) reachable).2.2⟩

/-! ### Giving up -/

namespace Retries

variable {r after : Retries} {event : Event}

/-- One connect, before which `retryNum_` may be set; libuv takes every attempt, and each
fails. -/
def Failing (r : Retries) : Event → Prop
  | .connect thread ret => r.client.created = 0 ∧ (ret = true ∨ thread = .user)
  | .setRetryNum _ => r.client.created = 0
  | .start _ ret => ret = true
  | .timer ret => ret = true
  | .complete _ status _ => status = false
  | _ => True

instance (r : Retries) : DecidablePred (Failing r)
  | .connect thread ret =>
      inferInstanceAs (Decidable (r.client.created = 0 ∧ (ret = true ∨ thread = .user)))
  | .setRetryNum _ => inferInstanceAs (Decidable (r.client.created = 0))
  | .start _ ret => inferInstanceAs (Decidable (ret = true))
  | .timer ret => inferInstanceAs (Decidable (ret = true))
  | .complete _ status _ => inferInstanceAs (Decidable (status = false))
  | .read .. | .finish | .run .. | .shutDown .. | .release => isTrue trivial

/-- There is one attempt or timer until curr_ has passed retryNum_. -/
structure Alone (r : Retries) : Prop where
  client : Transition.Reachable TcpClient.system r.client
  unused : r.client.created = 0 →
    r.epochs = [] ∧ r.client.pending = 0 ∧ r.client.timers = 0
  epochs : r.client.created ≠ 0 → r.epochs = [timeouts (min r.client.curr r.client.retryNum)]
  single : r.client.created ≠ 0 → r.client.pending + r.client.timers =
    if r.client.curr ≤ r.client.retryNum then 1 else 0
  passed : r.client.created ≠ 0 → r.client.curr ≤ r.client.retryNum + 1
  counted : r.client.created ≠ 0 →
    r.client.created + r.client.timers = 1 + min r.client.curr r.client.retryNum

/-- A step that leaves the attempts alone. -/
theorem Alone.keep (alone : r.Alone)
    (client : Transition.Reachable TcpClient.system after.client)
    (created : after.client.created = r.client.created)
    (curr : after.client.curr = r.client.curr)
    (retryNum : after.client.retryNum = r.client.retryNum ∨ r.client.created = 0)
    (timers : after.client.timers = r.client.timers)
    (pending : after.client.pending = r.client.pending) (epochs : after.epochs = r.epochs) :
    after.Alone := by
  have same (some : after.client.created ≠ 0) : r.client.created ≠ 0 ∧
      after.client.retryNum = r.client.retryNum := by
    rw [created] at some
    exact ⟨some, retryNum.resolve_right some⟩
  constructor
  · exact client
  · rw [created, epochs, pending, timers]
    exact alone.unused
  · intro some
    rw [epochs, curr, (same some).2]
    exact alone.epochs (same some).1
  · intro some
    rw [pending, timers, curr, (same some).2]
    exact alone.single (same some).1
  · intro some
    rw [curr, (same some).2]
    exact alone.passed (same some).1
  · intro some
    rw [created, timers, curr, (same some).2]
    exact alone.counted (same some).1

/-- The attempt fails. -/
theorem Alone.fail (alone : r.Alone)
    (client : Transition.Reachable TcpClient.system after.client)
    (created : after.client.created = r.client.created)
    (curr : after.client.curr = r.client.curr + 1)
    (retryNum : after.client.retryNum = r.client.retryNum)
    (timers : after.client.timers =
      r.client.timers + if r.client.curr + 1 ≤ r.client.retryNum then 1 else 0)
    (pending : after.client.pending + 1 = r.client.pending)
    (epochs : after.epochs = if r.client.timers < after.client.timers then
      addLatest after.client.timeout r.epochs else r.epochs) : after.Alone := by
  have some : r.client.created ≠ 0 := by
    intro none
    have idle := (alone.unused none).2.1
    omega
  have single := alone.single some
  have counted := alone.counted some
  have within : r.client.curr ≤ r.client.retryNum := by
    by_contra beyond
    rw [if_neg beyond] at single
    omega
  rw [if_pos within] at single
  rw [alone.epochs some] at epochs
  constructor
  · exact client
  · intro none
    rw [created] at none
    exact absurd none some
  · intro _some
    rw [epochs, curr, retryNum]
    by_cases more : r.client.curr + 1 ≤ r.client.retryNum
    · rw [if_pos more] at timers
      rw [if_pos (by omega), Nat.min_eq_left within, Nat.min_eq_left more, timeouts_succ, timeout,
        curr]
      rfl
    · rw [if_neg more] at timers
      rw [if_neg (by omega), Nat.min_eq_right (by omega), Nat.min_eq_right (by omega)]
  · intro _some
    rw [curr, retryNum]
    split at timers <;> split <;> omega
  · omega
  · intro _some
    rw [curr, retryNum, created]
    split at timers <;> omega

theorem Alone.step (alone : r.Alone) (failing : r.Failing event)
    (taken : r.step event = some after) : after.Alone := by
  obtain ⟨moved, epochs⟩ := step_client taken
  have client := alone.client.next moved
  cases step_counts alone.client moved with
  | connects created curr retryNum timers pending =>
      obtain ⟨unmade, made⟩ := failing
      obtain ⟨noEpochs, noPending, noTimers⟩ := alone.unused unmade
      rw [if_pos made] at pending
      constructor
      · exact client
      · omega
      · intro _some
        rw [epochs, curr, Nat.min_eq_left (Nat.zero_le _)]
        change [] :: r.epochs = _
        rw [noEpochs]
        rfl
      · intro _some
        rw [curr, if_pos (Nat.zero_le _)]
        omega
      · omega
      · omega
  | sets created curr retryNum timers pending =>
      rw [record_same (by intros; exact Event.noConfusion) (by omega)] at epochs
      exact alone.keep client created curr (.inr failing) timers pending epochs
  | @starts handle ret created curr retryNum timers pending =>
      rw [record_same (by intros; exact Event.noConfusion) (by omega)] at epochs
      rw [if_pos (show ret = true from failing)] at pending
      exact alone.keep client created curr (.inl retryNum) timers pending epochs
  | succeeds created curr retryNum timers pending => cases failing
  | fails created curr retryNum timers pending =>
      exact alone.fail client created curr retryNum timers pending epochs
  | @fires ret created curr retryNum timers pending =>
      rw [record_same (by intros; exact Event.noConfusion) (by omega)] at epochs
      have some : r.client.created ≠ 0 := by
        intro none
        have idle := (alone.unused none).2.2
        omega
      have single := alone.single some
      have counted := alone.counted some
      have passed := alone.passed some
      rw [if_pos (show ret = true from failing)] at pending
      constructor
      · exact client
      · omega
      · intro _some
        rw [epochs, curr, retryNum]
        exact alone.epochs some
      · intro _some
        rw [curr, retryNum, ← single]
        omega
      · intro _some
        rw [curr, retryNum]
        exact passed
      · intro _some
        rw [curr, retryNum]
        omega
  | quiet created curr retryNum timers pending connect =>
      rw [record_same connect (by omega)] at epochs
      exact alone.keep client created curr (.inl retryNum) timers pending epochs

end Retries

/-- Two retries, and no third. -/
def failed : List Event :=
  [.setRetryNum 2, .connect .user true, .start 0 true, .complete 0 false true, .timer true,
    .complete 1 false true, .timer true, .complete 2 false true]

end Uvcpp.TcpClient
