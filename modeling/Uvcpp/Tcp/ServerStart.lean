/-
TcpServer::start when it fails.

start makes the pool, runs threadInit on every thread of it and allocates the listening
handle, before libuv has been asked for anything.  A call that fails returns and leaves all
of it; the next call makes new ones and overwrites the pointers.
-/

import Uvcpp.Buffer.Integer

namespace Uvcpp.ServerStart

/-- What a thread has of the wheel: the buckets of its whell_ and the periods of the timers
that tick it. -/
structure Ticking where
  whell : List (List Nat)
  timers : List Nat
deriving DecidableEq

/-- An EventLoopThreadPool, with the wheel of each loop in loops_. -/
structure Pool where
  threadNum : Int
  loops : List Ticking
deriving DecidableEq

/-- How far libuv has taken a uv_tcp_t. -/
inductive Handle where
  | allocated
  | initialized
  | bound
  | listening
deriving DecidableEq

/-- `pools` and `handles` are all that were ever made, in that order, and the two pointers
say which of them the server still knows.  `main` is the thread of eventLoop_. -/
structure Server where
  threadNum : UInt64
  timeout : Int
  pools : List Pool
  eventLoopThreadPool_ : Option Nat
  handles : List Handle
  server_ : Option Nat
  main : Ticking
deriving DecidableEq

inductive Call where
  | uvTcpInit
  | uvTcpBind
  | uvListen
deriving DecidableEq

/-- A call of libuv that fails. -/
structure Failure where
  call : Call
  code : Int
  nonzero : code ≠ 0

/-- What libuv returns when `failure` is what goes wrong. -/
def uv (failure : Option Failure) (call : Call) : Int :=
  match failure with
  | none => 0
  | some failure => if failure.call = call then failure.code else 0

namespace Ticking

def fresh : Ticking :=
  { whell := []
    timers := [] }

/-- `for (int i=0; i<timeout_; ++i)`, each time with an empty bucket. -/
def pushBuckets : Nat → List (List Nat) → List (List Nat)
  | 0, whell => whell
  | rounds + 1, whell => pushBuckets rounds (whell ++ [[]])

/-- The block that threadInit and start have in common. -/
def equip (timeout : Int) (ticking : Ticking) : Ticking :=
  if timeout > 0 then
    { whell := pushBuckets timeout.toNat ticking.whell
      timers := ticking.timers ++ [1000] }
  else ticking

end Ticking

/-- threadInit, on a thread that has no wheel yet. -/
def threadInit (timeout : Int) : Ticking := Ticking.fresh.equip timeout

namespace Pool

/-- The threads of `EventLoopThreadPool::start` all register their loops before it
returns. -/
def startLoops (timeout : Int) : Nat → List Ticking → List Ticking
  | 0, loops => loops
  | rounds + 1, loops => startLoops timeout rounds (loops ++ [threadInit timeout])

/-- The constructor takes an `int` and asserts that it is positive. -/
def new (threadNum : Int) : Except Fault Pool :=
  if int32 threadNum > 0 then .ok { threadNum := int32 threadNum, loops := [] }
  else .error .assertion

def start (timeout : Int) (pool : Pool) : Pool :=
  { pool with loops := startLoops timeout pool.threadNum.toNat pool.loops }

end Pool

namespace Server

def new (threadNum : UInt64) (timeout : Int) : Server :=
  { threadNum := threadNum
    timeout := timeout
    pools := []
    eventLoopThreadPool_ := none
    handles := []
    server_ := none
    main := .fresh }

/-- The first lines of start: the pool, if there is to be one. -/
def startPool (s : Server) : Except Fault Server :=
  if s.threadNum > 0 then do
    let pool ← Pool.new s.threadNum.toNat
    pure
      { s with
        pools := s.pools ++ [pool.start s.timeout]
        eventLoopThreadPool_ := some s.pools.length }
  else .ok s

/-- `server_ = malloc(..)`, and how far libuv takes that handle. -/
def setServer (s : Server) (handle : Handle) : Server :=
  { s with
    handles := s.handles ++ [handle]
    server_ := some s.handles.length }

/-- The return value of start, and the server. -/
def start (s : Server) (failure : Option Failure) : Except Fault (Int × Server) := do
  let s ← s.startPool
  if uv failure .uvTcpInit ≠ 0 then pure (uv failure .uvTcpInit, s.setServer .allocated)
  else if uv failure .uvTcpBind ≠ 0 then pure (uv failure .uvTcpBind, s.setServer .initialized)
  else if uv failure .uvListen ≠ 0 then pure (uv failure .uvListen, s.setServer .bound)
  else pure (0, { s.setServer .listening with main := s.main.equip s.timeout })

/-- The pools that no pointer of the server leads to. -/
def unownedPools (s : Server) : List Pool :=
  match s.eventLoopThreadPool_ with
  | some index => s.pools.eraseIdx index
  | none => s.pools

/-- The handles that no pointer leads to. -/
def unownedHandles (s : Server) : List Handle :=
  match s.server_ with
  | some index => s.handles.eraseIdx index
  | none => s.handles

/-- What a failing call is to leave alone. -/
structure Kept (s after : Server) : Prop where
  pool : after.eventLoopThreadPool_ = s.eventLoopThreadPool_
  server : after.server_ = s.server_
  pools : after.pools = s.pools
  main : after.main = s.main

/-- The buckets of a loop and its one tick timer, if there is a timeout. -/
def Ticks (s : Server) (ticking : Ticking) : Prop :=
  ticking.whell.length = s.timeout.toNat ∧
    ticking.timers.length = if s.timeout > 0 then 1 else 0

/-- One pool that is the server's own, with all its loops, if there are to be threads; and
nothing runs that is not the server's own. -/
structure Started (s : Server) : Prop where
  one : s.pools.length = if s.threadNum > 0 then 1 else 0
  whole : ∀ pool ∈ s.pools, pool.loops.length = s.threadNum.toNat
  ticking : ∀ pool ∈ s.pools, ∀ ticking ∈ pool.loops, s.Ticks ticking
  main : s.Ticks s.main
  pools : s.unownedPools = []
  handles : ∀ handle ∈ s.unownedHandles, handle = .allocated

/-- Calls that fail, one after the other, and one that succeeds. -/
def Retries : Server → List Failure → Prop
  | s, [] => ∃ after, s.start none = .ok (0, after) ∧ after.Started
  | s, failure :: failures => ∃ after, s.start (some failure) = .ok (failure.code, after) ∧
      Kept s after ∧ Retries after failures

end Server

/-! ### Loops -/

theorem Ticking.pushBuckets_length (rounds : Nat) (whell : List (List Nat)) :
    (pushBuckets rounds whell).length = whell.length + rounds := by
  induction rounds generalizing whell with
  | zero =>
      rw [pushBuckets, Nat.add_zero]
  | succ rounds ih =>
      rw [pushBuckets, ih, List.length_append, List.length_singleton]
      omega

/-- A thread that is equipped once ticks as it should. -/
theorem Server.ticks_equip (s : Server) : s.Ticks (Ticking.fresh.equip s.timeout) := by
  by_cases timed : s.timeout > 0
  · rw [Ticking.equip, if_pos timed]
    refine ⟨?_, (if_pos timed).symm⟩
    rw [Ticking.pushBuckets_length]
    exact Nat.zero_add _
  · rw [Ticking.equip, if_neg timed]
    refine ⟨?_, (if_neg timed).symm⟩
    exact (Int.toNat_of_nonpos (Int.not_lt.mp timed)).symm

theorem Pool.startLoops_eq (timeout : Int) (rounds : Nat) (loops : List Ticking) :
    startLoops timeout rounds loops = loops ++ List.replicate rounds (threadInit timeout) := by
  induction rounds generalizing loops with
  | zero =>
      rw [startLoops, List.replicate_zero, List.append_nil]
  | succ rounds ih =>
      rw [startLoops, ih, List.replicate_succ, List.append_assoc]
      rfl

/-- The pool that a call makes of a count the constructor accepts. -/
def Pool.made (threadNum timeout : Int) : Pool :=
  { threadNum := threadNum
    loops := List.replicate threadNum.toNat (threadInit timeout) }

theorem Pool.made_length (threadNum timeout : Int) :
    (made threadNum timeout).loops.length = threadNum.toNat :=
  List.length_replicate

theorem Pool.eq_of_mem_made {threadNum timeout : Int} {ticking : Ticking}
    (listed : ticking ∈ (made threadNum timeout).loops) : ticking = threadInit timeout :=
  List.eq_of_mem_replicate listed

namespace Server

variable {s after : Server}

/-! ### One call -/

/-- The server with a new pool. -/
def pooled (s : Server) : Server :=
  { s with
    pools := s.pools ++ [Pool.made (int32 s.threadNum.toNat) s.timeout]
    eventLoopThreadPool_ := some s.pools.length }

theorem startPool_eq (s : Server) :
    s.startPool =
      if s.threadNum > 0 then
        if int32 s.threadNum.toNat > 0 then .ok s.pooled else .error .assertion
      else .ok s := by
  have loops := Pool.startLoops_eq s.timeout (int32 s.threadNum.toNat).toNat []
  rw [startPool, Pool.new, pooled, Pool.made, ← List.nil_append (List.replicate _ _), ← loops]
  by_cases positive : int32 s.threadNum.toNat > 0
  · rw [if_pos positive, if_pos positive]
    rfl
  · rw [if_neg positive, if_neg positive]
    rfl

/-- How far libuv has taken the handle of a call. -/
def reached : Option Failure → Handle
  | none => .listening
  | some failure =>
      match failure.call with
      | .uvTcpInit => .allocated
      | .uvTcpBind => .initialized
      | .uvListen => .bound

/-- The server behind a call, as its pool was made. -/
def behind (s : Server) (failure : Option Failure) : Server :=
  { s.setServer (reached failure) with
    main := if failure.isNone then s.main.equip s.timeout else s.main }

theorem start_eq (s : Server) (failure : Option Failure) :
    s.start failure = (do
      let pooled ← s.startPool
      pure ((failure.map Failure.code).getD 0, pooled.behind failure)) := by
  cases failure with
  | none => rfl
  | some failure =>
      rcases failure with ⟨call, code, nonzero⟩
      cases call with
      | uvTcpInit =>
          have ret : uv (some ⟨.uvTcpInit, code, nonzero⟩) .uvTcpInit ≠ 0 := nonzero
          simp only [start, if_pos ret]
          rfl
      | uvTcpBind =>
          have ret : uv (some ⟨.uvTcpBind, code, nonzero⟩) .uvTcpBind ≠ 0 := nonzero
          simp only [start, if_pos ret]
          rfl
      | uvListen =>
          have ret : uv (some ⟨.uvListen, code, nonzero⟩) .uvListen ≠ 0 := nonzero
          simp only [start, if_pos ret]
          rfl

/-- A count that fits the `int` of the pool makes one. -/
theorem startPool_of_fits (fits : s.threadNum.toNat ≤ 2147483647) :
    s.startPool = .ok (if s.threadNum > 0 then s.pooled else s) := by
  rw [startPool_eq]
  by_cases threads : s.threadNum > 0
  · have count : 0 < s.threadNum.toNat := UInt64.lt_iff_toNat_lt.mp threads
    have positive : int32 s.threadNum.toNat > 0 := by
      rw [int32_of_small (by omega) (by omega)]
      omega
    rw [if_pos threads, if_pos positive, if_pos threads]
  · rw [if_neg threads, if_neg threads]

theorem start_of_fits (fits : s.threadNum.toNat ≤ 2147483647) (failure : Option Failure) :
    s.start failure = .ok ((failure.map Failure.code).getD 0,
      (if s.threadNum > 0 then s.pooled else s).behind failure) := by
  rw [start_eq, startPool_of_fits fits]
  rfl

/-- Every call that returns points the server at a handle of its own. -/
theorem start_server {failure : Option Failure} {ret : Int}
    (returns : s.start failure = .ok (ret, after)) : after.server_ = some s.handles.length := by
  rw [start_eq, startPool_eq] at returns
  split at returns
  · split at returns
    · cases returns
      rfl
    · cases returns
  · cases returns
    rfl

/-! ### Sequences of calls -/

/-- The pools behind a first call. -/
theorem mem_first {threadNum : UInt64} {timeout : Int} {failure : Option Failure} {pool : Pool} :
    pool ∈ ((new threadNum timeout).pooled.behind failure).pools ↔
      pool = Pool.made (int32 threadNum.toNat) timeout := by
  simp only [behind, setServer, pooled, new, List.nil_append, List.mem_singleton]

/-- A fresh server that starts at once has what it should have. -/
theorem started_at_once {threadNum : UInt64} (timeout : Int)
    (fits : threadNum.toNat ≤ 2147483647) : Retries (new threadNum timeout) [] := by
  refine ⟨_, start_of_fits fits none, ?_⟩
  have equipped := (new threadNum timeout).ticks_equip
  have loops : int32 threadNum.toNat = threadNum.toNat := int32_of_small (by omega) (by omega)
  by_cases threads : threadNum > 0
  · have pooling : (new threadNum timeout).threadNum > 0 := threads
    rw [if_pos pooling]
    refine ⟨(if_pos threads).symm, ?_, ?_, equipped, rfl, List.forall_mem_nil _⟩
    · intro pool member
      have counted : (int32 threadNum.toNat).toNat = threadNum.toNat := by
        rw [loops, Int.toNat_natCast]
      rw [mem_first.mp member, Pool.made_length, counted]
      rfl
    · intro pool member ticking listed
      rw [mem_first.mp member] at listed
      rw [Pool.eq_of_mem_made listed]
      exact equipped
  · have pooling : ¬(new threadNum timeout).threadNum > 0 := threads
    rw [if_neg pooling]
    exact ⟨(if_neg threads).symm, List.forall_mem_nil _, List.forall_mem_nil _, equipped, rfl,
      List.forall_mem_nil _⟩

/-- The pool of a server that has started holds its count, so the count fits. -/
theorem fits_of_started {threadNum : UInt64} {timeout : Int}
    (retries : Retries (new threadNum timeout) []) : threadNum.toNat ≤ 2147483647 := by
  rcases retries with ⟨after, returns, started⟩
  rw [start_eq, startPool_eq] at returns
  split at returns
  · split at returns
    · have same := (Prod.mk.inj (Except.ok.inj returns)).2
      rw [← same] at started
      have whole := started.whole _ (mem_first.mpr rfl)
      rw [Pool.made_length] at whole
      have counted : (int32 threadNum.toNat).toNat = threadNum.toNat := whole
      have range := int32_range threadNum.toNat
      omega
    · cases returns
  · rename_i none
    have zero : ¬0 < threadNum.toNat := fun some => none (UInt64.lt_iff_toNat_lt.mpr some)
    omega

/-- The first failing call has moved the pointer to the handle. -/
theorem not_retries_cons {threadNum : UInt64} {timeout : Int} {failure : Failure}
    {failures : List Failure} : ¬(new threadNum timeout).Retries (failure :: failures) := by
  rintro ⟨after, returns, kept, _later⟩
  have moved := start_server returns
  rw [kept.server] at moved
  cases moved

/-- Calls one after the other. -/
def startCalls : Server → List (Option Failure) → Except Fault Server
  | s, [] => .ok s
  | s, call :: calls => do
      let called ← s.start call
      startCalls called.2 calls

/-- The index of the last of so many. -/
def last : Nat → Option Nat
  | 0 => none
  | count + 1 => some count

/-- The pointers of the server are at the pool and the handle that were made last. -/
structure PointsAtLast (s : Server) : Prop where
  pool : s.eventLoopThreadPool_ = last s.pools.length
  server : s.server_ = last s.handles.length

/-- Every call adds a pool, if there are to be threads, and a handle. -/
structure Piles (s after : Server) (calls : List (Option Failure)) : Prop where
  threadNum : after.threadNum = s.threadNum
  timeout : after.timeout = s.timeout
  pools : after.pools = s.pools ++
    List.replicate (if s.threadNum > 0 then calls.length else 0)
      (Pool.made (int32 s.threadNum.toNat) s.timeout)
  handles : after.handles = s.handles ++ calls.map reached

theorem Piles.refl (s : Server) : Piles s s [] := by
  refine ⟨rfl, rfl, ?_, (List.append_nil _).symm⟩
  rw [List.length_nil, ite_self, List.replicate_zero, List.append_nil]

theorem Piles.trans {middle : Server} {calls more : List (Option Failure)}
    (first : Piles s middle calls) (second : Piles middle after more) :
    Piles s after (calls ++ more) := by
  refine ⟨second.threadNum.trans first.threadNum, second.timeout.trans first.timeout, ?_, ?_⟩
  · rw [second.pools, first.pools, first.threadNum, first.timeout, List.append_assoc,
      List.replicate_append_replicate, List.length_append]
    by_cases threads : s.threadNum > 0
    · rw [if_pos threads, if_pos threads, if_pos threads]
    · rw [if_neg threads, if_neg threads, if_neg threads]
  · rw [second.handles, first.handles, List.map_append, List.append_assoc]

theorem start_piles (fits : s.threadNum.toNat ≤ 2147483647) (points : s.PointsAtLast)
    (call : Option Failure) :
    ∃ called, s.start call = .ok called ∧ Piles s called.2 [call] ∧ called.2.PointsAtLast := by
  refine ⟨_, start_of_fits fits call, ?_⟩
  by_cases threads : s.threadNum > 0
  · rw [if_pos threads]
    refine ⟨⟨rfl, rfl, by rw [if_pos threads]; rfl, rfl⟩, ?_⟩
    constructor
    · simp only [behind, setServer, pooled, List.length_append, List.length_singleton, last]
    · simp only [behind, setServer, List.length_append, List.length_singleton, last]
  · rw [if_neg threads]
    refine ⟨⟨rfl, rfl, ?_, rfl⟩, ?_⟩
    · rw [if_neg threads, List.replicate_zero, List.append_nil]
      rfl
    · constructor
      · exact points.pool
      · simp only [behind, setServer, List.length_append, List.length_singleton, last]

theorem startCalls_piles (calls : List (Option Failure)) :
    ∀ {s : Server}, s.threadNum.toNat ≤ 2147483647 → s.PointsAtLast →
      ∃ after, s.startCalls calls = .ok after ∧ Piles s after calls ∧ after.PointsAtLast := by
  induction calls with
  | nil =>
      intro s _fits points
      exact ⟨s, rfl, Piles.refl s, points⟩
  | cons call calls ih =>
      intro s fits points
      rcases start_piles fits points call with ⟨called, hStart, one, pointed⟩
      rcases ih (one.threadNum ▸ fits) pointed with ⟨after, hRest, more, pointed'⟩
      refine ⟨after, ?_, one.trans more, pointed'⟩
      rw [startCalls, hStart, ok_bind, hRest]

theorem eraseIdx_last {α : Type} (items : List α) :
    (match last items.length with
      | some index => items.eraseIdx index
      | none => items) = items.dropLast := by
  cases items with
  | nil => rfl
  | cons item rest => exact (List.dropLast_eq_eraseIdx rfl).symm

end Server

end Uvcpp.ServerStart

namespace Uvcpp

open ServerStart

/-- **Retries.** A server can be started again after failures only when there were none: a
failing call leaves its handle and its pool, and points the server at them. -/
theorem start_retries_iff (threadNum : UInt64) (timeout : Int) (failures : List Failure) :
    (Server.new threadNum timeout).Retries failures ↔
      failures = [] ∧ threadNum.toNat ≤ 2147483647 := by
  constructor
  · intro retries
    cases failures with
    | nil => exact ⟨rfl, Server.fits_of_started retries⟩
    | cons failure failures => exact absurd retries Server.not_retries_cons
  · rintro ⟨rfl, fits⟩
    exact Server.started_at_once timeout fits

/-- What the failing calls leave behind when the last one succeeds: a pool of running
threads for each of them, and every handle as far as libuv had taken it. -/
theorem start_leaves {threadNum : UInt64} (fits : threadNum.toNat ≤ 2147483647)
    (timeout : Int) (failures : List Failure) :
    ∃ after, (Server.new threadNum timeout).startCalls (failures.map some ++ [none]) =
        .ok after ∧
      after.unownedPools = List.replicate (if threadNum > 0 then failures.length else 0)
        (Pool.made (int32 threadNum.toNat) timeout) ∧
      after.unownedHandles = failures.map fun failure => Server.reached (some failure) := by
  have fresh : (Server.new threadNum timeout).PointsAtLast := ⟨rfl, rfl⟩
  rcases Server.startCalls_piles (failures.map some ++ [none]) fits fresh with
    ⟨after, hCalls, piles, points⟩
  refine ⟨after, hCalls, ?_, ?_⟩
  · have none : (Server.new threadNum timeout).pools = [] := rfl
    rw [Server.unownedPools, points.pool, Server.eraseIdx_last, piles.pools, none,
      List.nil_append, List.dropLast_replicate, List.length_append, List.length_map]
    by_cases threads : threadNum > 0
    · have kept : (Server.new threadNum timeout).threadNum > 0 := threads
      rw [if_pos kept, if_pos threads]
      rfl
    · have kept : ¬(Server.new threadNum timeout).threadNum > 0 := threads
      rw [if_neg kept, if_neg threads]
      rfl
  · have none : (Server.new threadNum timeout).handles = [] := rfl
    rw [Server.unownedHandles, points.server, Server.eraseIdx_last, piles.handles, none,
      List.nil_append, List.map_append, List.map_singleton, List.dropLast_concat, List.map_map]
    rfl

/-- An address in use, and a thread: a second call succeeds, and the thread and the handle
of the first one are still there. -/
theorem start_retry_leaks :
    ¬(Server.new 1 2).Retries [⟨.uvListen, -98, by decide⟩] ∧
      ∃ after, (Server.new 1 2).startCalls [some ⟨.uvListen, -98, by decide⟩, none] =
          .ok after ∧
        after.unownedPools = [Pool.made 1 2] ∧ after.unownedHandles = [.bound] := by
  refine ⟨Server.not_retries_cons, ?_⟩
  have one : int32 (1 : UInt64).toNat = 1 := by decide
  have fits : (1 : UInt64).toNat ≤ 2147483647 := by decide
  rcases start_leaves fits 2 [⟨.uvListen, -98, by decide⟩] with
    ⟨after, hCalls, pools, handles⟩
  rw [one] at pools
  exact ⟨after, hCalls, pools, handles⟩

end Uvcpp
