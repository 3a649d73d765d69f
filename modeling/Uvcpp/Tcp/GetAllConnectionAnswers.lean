/-
What a call of getAllConnection brings back.

Each loop a call has reached has run its closure or still has it.  A call that has taken
as many values as there are loops has the answer of each, under its own name.
-/

import Uvcpp.Tcp.GetAllConnection

namespace Uvcpp.GetAllConnection

open Transition Server

variable {Conn : Type} {pool : Option Nat}

/-- The number of loops a call has given its closure to. -/
def Place.reached (loops : Nat) : Place → Nat
  | .posting index => index
  | .taking _ => loops
  | .returned => loops

/-- The number of values a call has taken. -/
def Place.taken (loops : Nat) : Place → Nat
  | .posting _ => 0
  | .taking count => count
  | .returned => loops

namespace Server

/-- The call is made and not back. -/
def Active (s : Server Conn) (call : Nat) : Prop :=
  call < s.made ∧ (s.calls call).place ≠ .returned

/-- The loops that have run the closure of a call. -/
def servedOn (s : Server Conn) (call : Nat) : List Nat :=
  (s.served call).map Prod.fst

def reached (s : Server Conn) (call : Nat) : Nat :=
  (s.calls call).place.reached s.loops

def taken (s : Server Conn) (call : Nat) : Nat :=
  (s.calls call).place.taken s.loops

/-- What a closure that has run puts into the queue. -/
def reply (s : Server Conn) (serving : Nat × ConnectionMap Conn) : String × List Conn :=
  getConnection (s.name serving.1) serving.2

end Server

/-! ### One closure for every loop -/

/-- How often the closure of a call was run on a loop or waits there. -/
def Server.entries (s : Server Conn) (index call : Nat) : Nat :=
  (s.servedOn call).count index + (s.posted index).count call

/-- Every loop a call has reached has run its closure or still has it, once. -/
def Accounted (s : Server Conn) : Prop :=
  ∀ index call, (index < s.reached call ∧ s.entries index call = 1) ∨
    (s.reached call ≤ index ∧ s.entries index call = 0)

theorem accounted_congr {s after : Server Conn} (accounted : Accounted s)
    (entries : ∀ index call, after.entries index call = s.entries index call)
    (reached : ∀ call, after.reached call = s.reached call) : Accounted after := by
  intro index call
  rw [entries, reached]
  exact accounted index call

/-- A call goes on to the next loop and leaves one closure at this one. -/
theorem accounted_reach {s after : Server Conn} {index call : Nat} (accounted : Accounted s)
    (place : (s.calls call).place = .posting index)
    (entry : ∀ loop other, after.entries loop other =
      s.entries loop other + if loop = index ∧ other = call then 1 else 0)
    (reached : ∀ other, after.reached other =
      if other = call then index + 1 else s.reached other) : Accounted after := by
  intro loop other
  have before := accounted loop other
  rw [entry, reached]
  by_cases same : other = call
  · subst same
    simp only [Server.reached, place, Place.reached] at before
    simp only [and_true, if_true]
    split_ifs <;> omega
  · simpa [same] using before

theorem reached_setCall (s : Server Conn) (call other : Nat) (record : Call Conn) :
    (s.setCall call record).reached other =
      if other = call then record.place.reached s.loops else s.reached other := by
  unfold Server.reached
  by_cases same : other = call <;> simp [same, setCall, loops]

theorem taken_setCall (s : Server Conn) (call other : Nat) (record : Call Conn) :
    (s.setCall call record).taken other =
      if other = call then record.place.taken s.loops else s.taken other := by
  unfold Server.taken
  by_cases same : other = call <;> simp [same, setCall, loops]

theorem entries_answer (s : Server Conn) (index call loop other : Nat) :
    (s.answer index call).entries loop other =
      s.entries loop other + if loop = index ∧ other = call then 1 else 0 := by
  by_cases same : other = call
  · subst same
    by_cases there : loop = index
    · simp [entries, servedOn, answer, setCall, there]
      omega
    · simp [entries, servedOn, answer, setCall, there, Ne.symm there]
  · simp [entries, servedOn, answer, setCall, same]

theorem reached_answer (s : Server Conn) (index call other : Nat) :
    (s.answer index call).reached other = s.reached other := by
  unfold Server.reached
  by_cases same : other = call <;> simp [same, answer, setCall, loops]

theorem taken_answer (s : Server Conn) (index call other : Nat) :
    (s.answer index call).taken other = s.taken other := by
  unfold Server.taken
  by_cases same : other = call <;> simp [same, answer, setCall, loops]

theorem entries_posted (s : Server Conn) (index call loop other : Nat) :
    (s.setPosted index (s.posted index ++ [call])).entries loop other =
      s.entries loop other + if loop = index ∧ other = call then 1 else 0 := by
  by_cases there : loop = index
  · subst there
    by_cases same : other = call
    · simp [entries, servedOn, setPosted, same]
      omega
    · simp [entries, servedOn, setPosted, same, Ne.symm same]
  · simp [entries, servedOn, setPosted, there]

theorem entries_taken {s : Server Conn} {index call : Nat} (pending : call ∈ s.posted index)
    (loop other : Nat) :
    (s.setPosted index ((s.posted index).erase call)).entries loop other +
      (if loop = index ∧ other = call then 1 else 0) = s.entries loop other := by
  by_cases there : loop = index
  · subst there
    by_cases same : other = call
    · subst same
      have positive : 0 < (s.posted loop).count other := List.count_pos_iff.mpr pending
      simp [entries, servedOn, setPosted]
      omega
    · simp [entries, servedOn, setPosted, same, List.count_erase_of_ne same]
  · simp [entries, servedOn, setPosted, there]

theorem reached_new (s : Server Conn) (caller : Caller) (other : Nat) :
    (s.getAllConnection caller).reached other =
      if other = s.made then 0 else s.reached other := by
  unfold Server.reached
  by_cases same : other = s.made <;> simp [same, getAllConnection, setCall, Place.reached, loops]

theorem taken_new (s : Server Conn) (caller : Caller) (other : Nat) :
    (s.getAllConnection caller).taken other = if other = s.made then 0 else s.taken other := by
  unfold Server.taken
  by_cases same : other = s.made <;> simp [same, getAllConnection, setCall, Place.taken, loops]

/-! ### Callers and places -/

/-- `own` is the callback a call runs in. -/
structure Placed (s : Server Conn) : Prop where
  bounded : ∀ index, s.inCallback index = true → index < s.loops
  fresh : ∀ call, s.made ≤ call → (s.calls call).place = .posting 0 ∧ s.served call = []
  reached_le : ∀ call, s.reached call ≤ s.loops
  taken_le : ∀ call, s.taken call ≤ s.loops
  own : ∀ call index, s.Active call → (s.calls call).caller = .loop index →
    s.inCallback index = true
  elsewhere : ∀ index call, call ∈ s.posted index →
    call < s.made ∧ (s.calls call).caller ≠ .loop index

theorem placed_start : Placed (start pool : Server Conn) := by
  refine ⟨nofun, ?_, ?_, ?_, ?_, ?_⟩
  · intro call _later
    exact ⟨rfl, rfl⟩
  · intro call
    exact Nat.zero_le _
  · intro call
    exact Nat.zero_le _
  · intro call index active
    exact absurd active.1 (Nat.not_lt_zero call)
  · intro index call pending
    cases pending

theorem placed_setCall {s : Server Conn} {call : Nat} {record : Call Conn} (placed : Placed s)
    (made : call < s.made) (active : (s.calls call).place ≠ .returned)
    (caller : record.caller = (s.calls call).caller)
    (reached : record.place.reached s.loops ≤ s.loops)
    (taken : record.place.taken s.loops ≤ s.loops) : Placed (s.setCall call record) := by
  refine ⟨placed.bounded, ?_, ?_, ?_, ?_, ?_⟩
  · intro other later
    have different : other ≠ call := Nat.ne_of_gt (Nat.lt_of_lt_of_le made later)
    simpa [setCall, Function.update_of_ne different] using placed.fresh other later
  · intro other
    rw [reached_setCall]
    split
    · exact reached
    · exact placed.reached_le other
  · intro other
    rw [taken_setCall]
    split
    · exact taken
    · exact placed.taken_le other
  · intro other index unfinished mine
    by_cases same : other = call
    · subst same
      refine placed.own other index ⟨made, active⟩ ?_
      simpa [setCall, caller] using mine
    · refine placed.own other index ?_ ?_
      · simpa [Active, setCall, same] using unfinished
      · simpa [setCall, same] using mine
  · intro index other pending
    obtain ⟨known, elsewhere⟩ := placed.elsewhere index other pending
    refine ⟨known, ?_⟩
    by_cases same : other = call
    · subst same
      simpa [setCall, caller] using elsewhere
    · simpa [setCall, same] using elsewhere

theorem placed_setCallback {s : Server Conn} {index : Nat} {inside : Bool} (placed : Placed s)
    (bound : inside = true → index < s.loops)
    (free : inside = false → s.calling (.loop index) = false) :
    Placed (s.setCallback index inside) := by
  refine ⟨?_, placed.fresh, placed.reached_le, placed.taken_le, ?_, placed.elsewhere⟩
  · intro loop within
    by_cases same : loop = index
    · subst same
      exact bound (by simpa [setCallback] using within)
    · exact placed.bounded loop (by simpa [setCallback, same] using within)
  · intro call loop active mine
    by_cases same : loop = index
    · subst same
      cases inside with
      | false =>
          exact absurd mine (calling_eq_false.mp (free rfl) call active.1 active.2)
      | true => simp [setCallback]
    · simpa [setCallback, same] using placed.own call loop active mine

theorem placed_setPosted {s : Server Conn} {index : Nat} {calls : List Nat} (placed : Placed s)
    (elsewhere : ∀ call ∈ calls, call < s.made ∧ (s.calls call).caller ≠ .loop index) :
    Placed (s.setPosted index calls) := by
  refine ⟨placed.bounded, placed.fresh, placed.reached_le, placed.taken_le, placed.own, ?_⟩
  intro loop call pending
  by_cases same : loop = index
  · subst same
    exact elsewhere call (by simpa [setPosted] using pending)
  · exact placed.elsewhere loop call (by simpa [setPosted, same] using pending)

theorem placed_answer {s : Server Conn} {index call : Nat} (placed : Placed s)
    (made : call < s.made) : Placed (s.answer index call) := by
  have place (other : Nat) : ((s.answer index call).calls other).place =
      (s.calls other).place := by
    by_cases same : other = call <;> simp [answer, setCall, same]
  have caller (other : Nat) : ((s.answer index call).calls other).caller =
      (s.calls other).caller := by
    by_cases same : other = call <;> simp [answer, setCall, same]
  refine ⟨placed.bounded, ?_, ?_, ?_, ?_, ?_⟩
  · intro other later
    have different : other ≠ call := Nat.ne_of_gt (Nat.lt_of_lt_of_le made later)
    rw [place]
    simpa [answer, different] using placed.fresh other later
  · intro other
    rw [reached_answer]
    exact placed.reached_le other
  · intro other
    rw [taken_answer]
    exact placed.taken_le other
  · intro other loop active mine
    unfold Active at active
    rw [place] at active
    rw [caller] at mine
    exact placed.own other loop active mine
  · intro loop other pending
    rw [caller]
    exact placed.elsewhere loop other pending

theorem placed_new {s : Server Conn} {caller : Caller} (placed : Placed s)
    (inside : ∀ index, caller = .loop index → s.inCallback index = true) :
    Placed (s.getAllConnection caller) := by
  refine ⟨placed.bounded, ?_, ?_, ?_, ?_, ?_⟩
  · intro other later
    have different : other ≠ s.made := Nat.ne_of_gt later
    simpa [getAllConnection, setCall, different] using placed.fresh other (Nat.le_of_lt later)
  · intro other
    rw [reached_new]
    split
    · exact Nat.zero_le _
    · exact placed.reached_le other
  · intro other
    rw [taken_new]
    split
    · exact Nat.zero_le _
    · exact placed.taken_le other
  · intro other index active mine
    by_cases same : other = s.made
    · exact inside index (by simpa [getAllConnection, setCall, same] using mine)
    · refine placed.own other index ⟨?_, ?_⟩ ?_
      · exact Nat.lt_of_le_of_ne (Nat.le_of_lt_succ active.1) same
      · simpa [getAllConnection, setCall, same] using active.2
      · simpa [getAllConnection, setCall, same] using mine
  · intro index other pending
    obtain ⟨known, elsewhere⟩ := placed.elsewhere index other pending
    have different : other ≠ s.made := Nat.ne_of_lt known
    refine ⟨Nat.lt_succ_of_lt known, ?_⟩
    simpa [getAllConnection, setCall, different] using elsewhere

theorem placed_step {s after : Server Conn} {event : Event Conn} (placed : Placed s)
    (taken : step s event = some after) : Placed after := by
  have moved := moves taken
  cases moved with
  | enter bound => exact placed_setCallback placed (fun _ => bound) nofun
  | leave free => exact placed_setCallback placed nofun fun _ => free
  | insert =>
      exact ⟨placed.bounded, placed.fresh, placed.reached_le, placed.taken_le, placed.own,
        placed.elsewhere⟩
  | erase =>
      exact ⟨placed.bounded, placed.fresh, placed.reached_le, placed.taken_le, placed.own,
        placed.elsewhere⟩
  | call free inside => exact placed_new placed inside
  | @inline call index made place bound own =>
      refine placed_setCall (placed_answer placed made) made ?_ rfl bound (Nat.zero_le _)
      simp [answer, setCall, place]
  | @post call index made place bound other =>
      refine placed_setCall (placed_setPosted placed ?_) made ?_ rfl bound (Nat.zero_le _)
      · intro pending member
        rcases List.mem_append.mp member with old | new
        · exact placed.elsewhere index pending old
        · rw [List.mem_singleton.mp new]
          exact ⟨made, other⟩
      · simp [setPosted, place]
  | posted made place bound =>
      exact placed_setCall placed made (by simp [place]) rfl (Nat.le_refl _) (Nat.zero_le _)
  | take made place bound front =>
      exact placed_setCall placed made (by simp [place]) rfl (Nat.le_refl _) bound
  | giveBack made place bound =>
      exact placed_setCall placed made (by simp [place]) rfl (Nat.le_refl _) (Nat.le_refl _)
  | @run index call outside pending =>
      refine placed_answer (placed_setPosted placed ?_) (placed.elsewhere index call pending).1
      intro other member
      exact placed.elsewhere index other (List.mem_of_mem_erase member)

theorem placed_of_reachable {s : Server Conn} (reachable : Reachable (system Conn pool) s) :
    Placed s := by
  induction reachable with
  | start begins =>
      cases begins
      exact placed_start
  | next _before taken ih =>
      exact placed_step ih taken

theorem accounted_start : Accounted (start pool : Server Conn) := by
  intro index call
  exact .inr ⟨Nat.zero_le _, rfl⟩

/-- The moves that only change the place of a call. -/
theorem accounted_setCall {s : Server Conn} {call : Nat} {record : Call Conn}
    (accounted : Accounted s) (same : record.place.reached s.loops = s.reached call) :
    Accounted (s.setCall call record) := by
  refine accounted_congr accounted (fun _ _ => rfl) ?_
  intro other
  rw [reached_setCall]
  split
  · rename_i there
    rw [there, same]
  · rfl

theorem accounted_new {s : Server Conn} (caller : Caller) (placed : Placed s)
    (accounted : Accounted s) : Accounted (s.getAllConnection caller) := by
  refine accounted_congr accounted (fun _ _ => rfl) ?_
  intro other
  rw [reached_new]
  split
  · rename_i same
    rw [same, Server.reached, (placed.fresh s.made (Nat.le_refl _)).1]
    rfl
  · rfl

theorem accounted_step {s after : Server Conn} {event : Event Conn} (placed : Placed s)
    (accounted : Accounted s) (taken : step s event = some after) : Accounted after := by
  have moved := moves taken
  cases moved with
  | enter bound => exact accounted
  | leave free => exact accounted
  | insert => exact accounted
  | erase => exact accounted
  | call free inside => exact accounted_new _ placed accounted
  | @inline call index made place bound own =>
      refine accounted_reach accounted place ?_ ?_
      · intro loop other
        exact entries_answer s index call loop other
      · intro other
        rw [setPlace, reached_setCall, reached_answer]
        rfl
  | @post call index made place bound other =>
      refine accounted_reach accounted place ?_ ?_
      · intro loop other
        exact entries_posted s index call loop other
      · intro other
        rw [setPlace, reached_setCall]
        rfl
  | @posted call index made place bound =>
      have within : s.reached call ≤ s.loops := placed.reached_le call
      refine accounted_setCall accounted ?_
      simp only [Server.reached, place, Place.reached] at within ⊢
      exact Nat.le_antisymm bound within
  | take made place bound front =>
      exact accounted_setCall accounted (by simp only [Server.reached, place, Place.reached])
  | giveBack made place bound =>
      exact accounted_setCall accounted (by simp only [Server.reached, place, Place.reached])
  | @run index call outside pending =>
      refine accounted_congr accounted ?_ ?_
      · intro loop other
        rw [entries_answer]
        exact entries_taken pending loop other
      · intro other
        rw [reached_answer]
        rfl

theorem accounted_of_reachable {s : Server Conn} (reachable : Reachable (system Conn pool) s) :
    Accounted s := by
  induction reachable with
  | start begins =>
      cases begins
      exact accounted_start
  | next before taken ih =>
      exact accounted_step (placed_of_reachable before) ih taken

/-! ### What a call collects -/

theorem getConnection_eq (name : String) (cmap : ConnectionMap Conn) :
    getConnection name cmap = (name, cmap.toList.map Prod.snd) := by
  have collected (conns : List Conn) (entries : List (Nat × Conn)) :
      entries.foldl (fun conns entry => conns ++ [entry.2]) conns =
        conns ++ entries.map Prod.snd := by
    rw [List.foldl_append_eq_append, List.map_eq_flatMap (f := Prod.snd)]
    rfl
  unfold getConnection
  rw [Std.TreeMap.foldl_eq_foldl_toList, collected]
  rfl

/-- The map that the values of a queue make, one after the other. -/
def collect (values : List (String × List Conn)) : String → Option (List Conn) :=
  values.foldl (fun results value => Function.update results value.1 (some value.2))
    fun _ => none

/-- The queue has what was not taken of the answers so far, the results have the rest. -/
structure Delivered (served : List (String × List Conn)) (taken : Nat) (record : Call Conn) :
    Prop where
  taken_le : taken ≤ served.length
  que : record.que = served.drop taken
  results : record.results = collect (served.take taken)

def Server.answers (s : Server Conn) (call : Nat) : List (String × List Conn) :=
  (s.served call).map s.reply

theorem answers_setCall (s : Server Conn) (call other : Nat) (record : Call Conn) :
    (s.setCall call record).answers other = s.answers other := rfl

theorem answers_answer (s : Server Conn) (index call other : Nat) :
    (s.answer index call).answers other = s.answers other ++
      if other = call then [s.reply (index, s.connectionMap index)] else [] := by
  unfold Server.answers
  by_cases same : other = call
  · subst same
    simp only [answer, Function.update_self, List.map_append, if_pos]
    rfl
  · simp only [answer, Function.update_of_ne same, if_neg same, List.append_nil]
    rfl

theorem Delivered.put {served : List (String × List Conn)} {taken : Nat} {record : Call Conn}
    (delivered : Delivered served taken record) (value : String × List Conn) :
    Delivered (served ++ [value]) taken { record with que := record.que ++ [value] } := by
  refine ⟨?_, ?_, ?_⟩
  · rw [List.length_append]
    exact Nat.le_add_right_of_le delivered.taken_le
  · rw [List.drop_append_of_le_length delivered.taken_le, ← delivered.que]
  · rw [List.take_append_of_le_length delivered.taken_le]
    exact delivered.results

theorem Delivered.take {served rest : List (String × List Conn)} {taken : Nat}
    {record : Call Conn} {value : String × List Conn} {place : Place}
    (delivered : Delivered served taken record) (front : record.que = value :: rest) :
    Delivered served (taken + 1)
      { record with
        place := place
        que := rest
        results := Function.update record.results value.1 (some value.2) } := by
  have remaining : served.drop taken = value :: rest := delivered.que ▸ front
  have within : taken < served.length := by
    by_contra beyond
    rw [List.drop_eq_nil_of_le (Nat.le_of_not_lt beyond)] at remaining
    cases remaining
  rw [List.drop_eq_getElem_cons within] at remaining
  obtain ⟨first, others⟩ := List.cons.inj remaining
  refine ⟨within, others.symm, ?_⟩
  rw [← List.take_concat_get' served taken within, collect, List.foldl_append, first,
    delivered.results]
  rfl

/-- Every call has what its closures have answered. -/
def Collecting (s : Server Conn) : Prop :=
  ∀ call, Delivered (s.answers call) (s.taken call) (s.calls call)

theorem collecting_start : Collecting (start pool : Server Conn) :=
  fun _ => ⟨Nat.le_refl 0, rfl, rfl⟩

theorem collecting_setCall {s : Server Conn} {call : Nat} {record : Call Conn}
    (collecting : Collecting s)
    (delivered : Delivered (s.answers call) (record.place.taken s.loops) record) :
    Collecting (s.setCall call record) := by
  intro other
  rw [answers_setCall, taken_setCall, calls_setCall]
  by_cases same : other = call
  · rw [if_pos same, if_pos same, same]
    exact delivered
  · rw [if_neg same, if_neg same]
    exact collecting other

theorem collecting_answer {s : Server Conn} (index call : Nat) (collecting : Collecting s) :
    Collecting (s.answer index call) := by
  intro other
  rw [answers_answer, taken_answer, calls_answer]
  by_cases same : other = call
  · rw [if_pos same, if_pos same, same]
    exact (collecting call).put _
  · rw [if_neg same, if_neg same, List.append_nil]
    exact collecting other

theorem collecting_new {s : Server Conn} (caller : Caller) (placed : Placed s)
    (collecting : Collecting s) : Collecting (s.getAllConnection caller) := by
  intro other
  rw [taken_new, calls_getAllConnection]
  by_cases same : other = s.made
  · have nothing : s.answers s.made = [] := by
      rw [answers, (placed.fresh s.made (Nat.le_refl _)).2]
      rfl
    rw [if_pos same, if_pos same, same]
    change Delivered (s.answers s.made) 0 _
    rw [nothing]
    exact ⟨Nat.le_refl 0, rfl, rfl⟩
  · rw [if_neg same, if_neg same]
    exact collecting other

theorem collecting_step {s after : Server Conn} {event : Event Conn} (placed : Placed s)
    (collecting : Collecting s) (taken : step s event = some after) : Collecting after := by
  have moved := moves taken
  cases moved with
  | enter bound => exact collecting
  | leave free => exact collecting
  | insert => exact collecting
  | erase => exact collecting
  | call free inside => exact collecting_new _ placed collecting
  | @inline call index made place bound own =>
      have answered := collecting_answer index call collecting
      have delivered := answered call
      rw [taken_answer, Server.taken, place] at delivered
      exact collecting_setCall answered ⟨delivered.taken_le, delivered.que, delivered.results⟩
  | @post call index made place bound other =>
      have delivered := collecting call
      rw [Server.taken, place] at delivered
      exact collecting_setCall (s := s.setPosted index (s.posted index ++ [call])) collecting
        ⟨delivered.taken_le, delivered.que, delivered.results⟩
  | @posted call index made place bound =>
      have delivered := collecting call
      rw [Server.taken, place] at delivered
      exact collecting_setCall collecting
        ⟨delivered.taken_le, delivered.que, delivered.results⟩
  | @take call count value rest made place bound front =>
      have delivered := collecting call
      rw [Server.taken, place] at delivered
      exact collecting_setCall collecting (delivered.take front)
  | @giveBack call count made place bound =>
      have within : s.taken call ≤ s.loops := placed.taken_le call
      have delivered := collecting call
      rw [Server.taken, place] at delivered within
      have all : count = s.loops := Nat.le_antisymm within bound
      rw [Place.taken, all] at delivered
      exact collecting_setCall collecting
        ⟨delivered.taken_le, delivered.que, delivered.results⟩
  | @run index call outside pending =>
      exact collecting_answer (s := s.setPosted index ((s.posted index).erase call)) index call
        collecting

theorem collecting_of_reachable {s : Server Conn}
    (reachable : Reachable (system Conn pool) s) : Collecting s := by
  induction reachable with
  | start begins =>
      cases begins
      exact collecting_start
  | next before taken ih =>
      exact collecting_step (placed_of_reachable before) ih taken

/-! ### Complete results -/

theorem name_inj {s : Server Conn} {index other : Nat} (bound : index < s.loops)
    (within : other < s.loops) (same : s.name index = s.name other) : index = other := by
  unfold Server.name at same
  unfold Server.loops at bound within
  cases pool : s.eventLoopThreadPool with
  | none =>
      rw [pool, Option.getD_none] at bound within
      omega
  | some threads =>
      rw [pool] at same
      have digits : Nat.repr index = Nat.repr other := String.append_right_inj _ |>.mp same
      have numbers := congrArg (fun text : String => Nat.ofDigitChars 10 text.toList 0) digits
      simpa [Nat.toList_repr, Nat.ofDigitChars_toDigits] using numbers

theorem collect_concat (values : List (String × List Conn)) (value : String × List Conn) :
    collect (values ++ [value]) = Function.update (collect values) value.1 (some value.2) := by
  rw [collect, List.foldl_append]
  rfl

theorem mem_of_collect {values : List (String × List Conn)} {name : String} {conns : List Conn}
    (found : collect values name = some conns) : (name, conns) ∈ values := by
  induction values using List.reverseRecOn with
  | nil => cases found
  | append_singleton values value ih =>
      rw [collect_concat] at found
      by_cases same : name = value.1
      · subst same
        rw [Function.update_self] at found
        cases found
        exact List.mem_append_right _ (List.mem_singleton_self value)
      · rw [Function.update_of_ne same] at found
        exact List.mem_append_left _ (ih found)

theorem collect_of_mem {values : List (String × List Conn)} {name : String}
    {conns : List Conn} (distinct : (values.map Prod.fst).Nodup)
    (member : (name, conns) ∈ values) : collect values name = some conns := by
  induction values using List.reverseRecOn with
  | nil => cases member
  | append_singleton values value ih =>
      rw [List.map_append, List.nodup_append] at distinct
      rw [collect_concat]
      rcases List.mem_append.mp member with old | new
      · have different : name ≠ value.1 :=
          distinct.2.2 name (List.mem_map_of_mem old) value.1 (List.mem_singleton_self _)
        rw [Function.update_of_ne different]
        exact ih distinct.1 old
      · cases List.mem_singleton.mp new
        exact Function.update_self ..

/-- A call that is back has one entry for every loop: the connections of the map that the
loop had when it ran the closure. -/
structure Complete (s : Server Conn) (call : Nat) : Prop where
  once : (s.servedOn call).Perm (List.range s.loops)
  entry : ∀ index cmap, (index, cmap) ∈ s.served call →
    (s.calls call).results (s.name index) = some (cmap.toList.map Prod.snd)
  only : ∀ name conns, (s.calls call).results name = some conns →
    ∃ index < s.loops, name = s.name index
  apart : ∀ index < s.loops, ∀ other < s.loops, s.name index = s.name other → index = other

theorem servedOn_nodup {s : Server Conn} (accounted : Accounted s) (call : Nat) :
    (s.servedOn call).Nodup := by
  rw [List.nodup_iff_count_le_one]
  intro index
  have held := accounted index call
  unfold entries at held
  omega

theorem reached_of_servedOn {s : Server Conn} {index call : Nat} (accounted : Accounted s)
    (member : index ∈ s.servedOn call) : index < s.reached call := by
  have positive : 0 < (s.servedOn call).count index := List.count_pos_iff.mpr member
  have held := accounted index call
  unfold entries at held
  omega

/-- A call has no more answers than loops. -/
theorem servedOn_perm {s : Server Conn} {call : Nat} (placed : Placed s)
    (accounted : Accounted s) (enough : s.loops ≤ (s.servedOn call).length) :
    (s.servedOn call).Perm (List.range s.loops) := by
  have within : s.servedOn call ⊆ List.range s.loops := by
    intro index member
    exact List.mem_range.mpr
      (Nat.lt_of_lt_of_le (reached_of_servedOn accounted member) (placed.reached_le call))
  have part := List.subperm_of_subset (servedOn_nodup accounted call) within
  exact part.perm_of_length_le (by rwa [List.length_range])

theorem complete_of_returned {s : Server Conn} {call : Nat} (placed : Placed s)
    (accounted : Accounted s) (collecting : Collecting s)
    (returned : (s.calls call).place = .returned) : Complete s call := by
  have delivered := collecting call
  rw [Server.taken, returned, Place.taken] at delivered
  have enough : s.loops ≤ (s.servedOn call).length := by
    simpa [servedOn, answers] using delivered.taken_le
  have once := servedOn_perm placed accounted enough
  have all : (s.answers call).length = s.loops := by
    simpa [servedOn, answers] using once.length_eq
  have results : (s.calls call).results = collect (s.answers call) := by
    rw [delivered.results, List.take_of_length_le (Nat.le_of_eq all)]
  have within {index : Nat} (member : index ∈ s.servedOn call) : index < s.loops :=
    List.mem_range.mp (once.mem_iff.mp member)
  have names : (s.answers call).map Prod.fst = (s.servedOn call).map s.name := by
    simp only [answers, servedOn, List.map_map]
    rfl
  have distinct : ((s.answers call).map Prod.fst).Nodup := by
    rw [names]
    refine (servedOn_nodup accounted call).map_on ?_
    intro index member other member' same
    exact name_inj (within member) (within member') same
  refine ⟨once, ?_, ?_, ?_⟩
  · intro index cmap served
    rw [results]
    refine collect_of_mem distinct ?_
    rw [← getConnection_eq]
    exact List.mem_map.mpr ⟨(index, cmap), served, rfl⟩
  · intro name conns found
    rw [results] at found
    obtain ⟨serving, served, same⟩ := List.mem_map.mp (mem_of_collect found)
    refine ⟨serving.1, within (List.mem_map_of_mem served), ?_⟩
    exact (congrArg Prod.fst same).symm
  · intro index bound other bound' same
    exact name_inj bound bound' same

end Uvcpp.GetAllConnection
