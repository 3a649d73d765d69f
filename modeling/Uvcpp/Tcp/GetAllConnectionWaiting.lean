/-
Which calls of getAllConnection come back.

A callback that calls while the call of another loop still waits for its own loop blocks
both for good; when no callback does that, a later call never keeps an earlier one
waiting, and all of them can be brought to an end.
-/

import Mathlib.Algebra.BigOperators.Group.Finset.Piecewise
import Uvcpp.Tcp.GetAllConnectionAnswers

namespace Uvcpp.GetAllConnection

open Transition Server

variable {Conn : Type} {pool : Option Nat}

/-! ### Calls that wait for each other -/

namespace Server

/-- Inside que.take() with nothing to take. -/
def Blocked (s : Server Conn) (call : Nat) : Prop :=
  call < s.made ∧ (∃ count < s.loops, (s.calls call).place = .taking count) ∧
    (s.calls call).que = []

/-- Every caller is blocked, and waits for a closure that was posted to a loop whose own
thread is blocked. -/
def Deadlock (s : Server Conn) : Prop :=
  (∃ call, s.Active call) ∧
    ∀ call, s.Active call → s.Blocked call ∧
      ∃ index, call ∈ s.posted index ∧
        ∃ other, s.Blocked other ∧ (s.calls other).caller = .loop index

/-- A callback calls only when its loop has answered every call of another loop that is
not back yet. -/
def InTurn (s : Server Conn) : Event Conn → Prop
  | .call (.loop index) =>
      ∀ call, s.Active call → (∃ other, (s.calls call).caller = .loop other) →
        index ∈ s.servedOn call
  | _ => True

end Server

theorem active_of_blocked {s : Server Conn} {call : Nat} (blocked : s.Blocked call) :
    s.Active call := by
  obtain ⟨made, ⟨count, _bound, place⟩, _nothing⟩ := blocked
  refine ⟨made, ?_⟩
  rw [place]
  nofun

/-- A later call of a loop comes after the loop's answer to the earlier ones. -/
def Ordered (s : Server Conn) : Prop :=
  ∀ earlier later index other, earlier < later → s.Active earlier → s.Active later →
    (s.calls earlier).caller = .loop other → (s.calls later).caller = .loop index →
      index ∈ s.servedOn earlier

theorem servedOn_answer (s : Server Conn) (index call other : Nat) :
    (s.answer index call).servedOn other =
      s.servedOn other ++ if other = call then [index] else [] := by
  by_cases same : other = call <;> simp [servedOn, answer, same]

theorem servedOn_mono {s after : Server Conn} {event : Event Conn}
    (taken : step s event = some after) {index call : Nat} (member : index ∈ s.servedOn call) :
    index ∈ after.servedOn call := by
  have moved := moves taken
  cases moved with
  | @inline call' index' made place bound own =>
      change index ∈ (s.answer index' call').servedOn call
      rw [servedOn_answer]
      exact List.mem_append_left _ member
  | @run index' call' outside pending =>
      rw [servedOn_answer]
      exact List.mem_append_left _ member
  | _ => exact member

theorem active_setCall {s : Server Conn} {call other : Nat} {record : Call Conn}
    (made : call < s.made) (active : (s.calls call).place ≠ .returned)
    (caller : record.caller = (s.calls call).caller)
    (unfinished : (s.setCall call record).Active other) :
    s.Active other ∧ ((s.setCall call record).calls other).caller = (s.calls other).caller := by
  by_cases same : other = call
  · subst same
    rw [calls_setCall, if_pos rfl]
    exact ⟨⟨made, active⟩, caller⟩
  · unfold Active at unfinished
    rw [calls_setCall, if_neg same] at unfinished ⊢
    exact ⟨unfinished, rfl⟩

theorem active_setPlace {s : Server Conn} {call other : Nat} {place : Place}
    (made : call < s.made) (active : (s.calls call).place ≠ .returned)
    (unfinished : (s.setPlace call place).Active other) :
    s.Active other ∧ ((s.setPlace call place).calls other).caller = (s.calls other).caller := by
  rw [setPlace] at unfinished ⊢
  exact active_setCall made active rfl unfinished

theorem active_answer {s : Server Conn} {index call other : Nat}
    (unfinished : (s.answer index call).Active other) :
    s.Active other ∧ ((s.answer index call).calls other).caller = (s.calls other).caller := by
  unfold Active at unfinished
  rw [calls_answer] at unfinished ⊢
  by_cases same : other = call
  · subst same
    rw [if_pos rfl] at unfinished ⊢
    exact ⟨unfinished, rfl⟩
  · rw [if_neg same] at unfinished ⊢
    exact ⟨unfinished, rfl⟩

/-- Only getAllConnection makes a call active, and the caller stays the same. -/
theorem active_of_step {s after : Server Conn} {event : Event Conn}
    (taken : step s event = some after) {call : Nat} (active : after.Active call) :
    (s.Active call ∧ (after.calls call).caller = (s.calls call).caller) ∨
      (call = s.made ∧ event = .call (after.calls call).caller ∧
        s.calling (after.calls call).caller = false) := by
  have moved := moves taken
  cases moved with
  | enter bound => exact .inl ⟨active, rfl⟩
  | leave free => exact .inl ⟨active, rfl⟩
  | insert => exact .inl ⟨active, rfl⟩
  | erase => exact .inl ⟨active, rfl⟩
  | call free inside =>
      by_cases same : call = s.made
      · rw [calls_getAllConnection, if_pos same]
        exact .inr ⟨same, rfl, free⟩
      · have known : call < s.made := Nat.lt_of_le_of_ne (Nat.le_of_lt_succ active.1) same
        have place := active.2
        rw [calls_getAllConnection, if_neg same] at place ⊢
        exact .inl ⟨⟨known, place⟩, rfl⟩
  | @inline call' index' made place bound own =>
      have answered : ((s.answer index' call').calls call').place ≠ .returned := by
        simp [calls_answer, place]
      obtain ⟨still, caller⟩ := active_setPlace (s := s.answer index' call') made answered active
      obtain ⟨before, caller'⟩ := active_answer still
      exact .inl ⟨before, caller.trans caller'⟩
  | @post call' index' made place bound own =>
      exact .inl (active_setPlace (s := s.setPosted index' (s.posted index' ++ [call'])) made
        (by simp [setPosted, place]) active)
  | posted made place bound =>
      exact .inl (active_setPlace made (by simp [place]) active)
  | take made place bound front =>
      exact .inl (active_setCall made (by simp [place]) rfl active)
  | giveBack made place bound =>
      exact .inl (active_setPlace made (by simp [place]) active)
  | run outside pending =>
      exact .inl (active_answer active)

theorem ordered_step {s after : Server Conn} {event : Event Conn} (ordered : Ordered s)
    (turn : s.InTurn event) (taken : step s event = some after) : Ordered after := by
  intro earlier later index other before active active' mine mine'
  rcases active_of_step taken active with ⟨was, caller⟩ | ⟨same, _called, _free⟩
  · refine servedOn_mono taken ?_
    rw [caller] at mine
    rcases active_of_step taken active' with ⟨was', caller'⟩ | ⟨_same, called, _free⟩
    · rw [caller'] at mine'
      exact ordered earlier later index other before was was' mine mine'
    · rw [mine'] at called
      subst called
      exact turn earlier was ⟨other, mine⟩
  · have made : later ≤ s.made := by
      rcases active_of_step taken active' with ⟨was', _caller⟩ | ⟨same', _called, _free⟩
      · exact Nat.le_of_lt was'.1
      · exact Nat.le_of_eq same'
    omega

theorem ordered_of_reachable {s : Server Conn}
    (reachable : Reachable ((system Conn pool).restrict Server.InTurn) s) : Ordered s := by
  induction reachable with
  | start begins =>
      cases begins
      intro earlier later index other _before active
      exact absurd active.1 (Nat.not_lt_zero earlier)
  | next _before taken ih =>
      exact ordered_step ih taken.1 taken.2

theorem not_served_of_posted {s : Server Conn} {index call : Nat} (accounted : Accounted s)
    (pending : call ∈ s.posted index) : index ∉ s.servedOn call := by
  intro member
  have positive : 0 < (s.servedOn call).count index := List.count_pos_iff.mpr member
  have positive' : 0 < (s.posted index).count call := List.count_pos_iff.mpr pending
  have held := accounted index call
  unfold entries at held
  omega

theorem no_deadlock {s : Server Conn} (placed : Placed s) (accounted : Accounted s)
    (ordered : Ordered s) : ¬s.Deadlock := by
  intro deadlock
  obtain ⟨⟨call, active⟩, waits⟩ := deadlock
  -- A callback that waits for another one waits for an earlier call.
  have free : ∀ call, s.Active call → ∀ loop, (s.calls call).caller ≠ .loop loop := by
    intro call
    induction call using Nat.strongRecOn with
    | ind call ih =>
        intro active loop mine
        obtain ⟨_blocked, index, pending, other, blocked, owner⟩ := waits call active
        rcases Nat.lt_trichotomy other call with earlier | same | later
        · exact ih other earlier (active_of_blocked blocked) index owner
        · rw [same] at owner
          exact (placed.elsewhere index call pending).2 owner
        · exact not_served_of_posted accounted pending
            (ordered call other index loop later active (active_of_blocked blocked) mine owner)
  obtain ⟨_blocked, index, _pending, other, blocked, owner⟩ := waits call active
  exact free other (active_of_blocked blocked) index owner

/-! ### Out of turn -/

theorem kept_setCall {s : Server Conn} {call other : Nat} {record : Call Conn}
    (active : s.Active other) (caller : record.caller = (s.calls call).caller)
    (goesOn : other = call → record.place ≠ .returned) :
    (s.setCall call record).Active other ∧
      ((s.setCall call record).calls other).caller = (s.calls other).caller := by
  unfold Active
  rw [calls_setCall]
  split
  · rename_i same
    rw [same] at active ⊢
    exact ⟨⟨active.1, goesOn same⟩, caller⟩
  · exact ⟨active, rfl⟩

theorem kept_setPlace {s : Server Conn} {call other : Nat} {place : Place}
    (active : s.Active other) (goesOn : other = call → place ≠ .returned) :
    (s.setPlace call place).Active other ∧
      ((s.setPlace call place).calls other).caller = (s.calls other).caller := by
  rw [setPlace]
  exact kept_setCall active rfl goesOn

theorem kept_answer {s : Server Conn} (index call : Nat) {other : Nat}
    (active : s.Active other) : (s.answer index call).Active other ∧
      ((s.answer index call).calls other).caller = (s.calls other).caller := by
  unfold Active
  rw [calls_answer]
  split
  · rename_i same
    rw [same] at active ⊢
    exact ⟨active, rfl⟩
  · exact ⟨active, rfl⟩

/-- A call that still misses an answer does not come back. -/
theorem kept_of_unserved {s after : Server Conn} {event : Event Conn} {call index : Nat}
    (placed : Placed s) (accounted : Accounted s) (collecting : Collecting s)
    (taken : step s event = some after) (active : s.Active call) (bound : index < s.loops)
    (unserved : index ∉ s.servedOn call) :
    after.Active call ∧ (after.calls call).caller = (s.calls call).caller := by
  have moved := moves taken
  cases moved with
  | enter bound => exact ⟨active, rfl⟩
  | leave free => exact ⟨active, rfl⟩
  | insert => exact ⟨active, rfl⟩
  | erase => exact ⟨active, rfl⟩
  | call free inside =>
      have different : call ≠ s.made := Nat.ne_of_lt active.1
      unfold Active
      rw [calls_getAllConnection, if_neg different]
      exact ⟨⟨Nat.lt_succ_of_lt active.1, active.2⟩, rfl⟩
  | @inline call' index' made place bound own =>
      obtain ⟨still, caller⟩ := kept_answer index' call' active
      have goesOn : call = call' → Place.posting (index' + 1) ≠ .returned := fun _ => nofun
      obtain ⟨after, caller'⟩ := kept_setPlace still goesOn
      exact ⟨after, caller'.trans caller⟩
  | @post call' index' made place bound other =>
      exact kept_setPlace (s := s.setPosted index' (s.posted index' ++ [call'])) active
        fun _ => nofun
  | posted made place bound => exact kept_setPlace active fun _ => nofun
  | take made place bound front => exact kept_setCall active rfl fun _ => nofun
  | @giveBack call' count made place bound' =>
      refine kept_setPlace active ?_
      intro same
      subst same
      have answered := (collecting call).taken_le
      rw [Server.taken, place, Place.taken, answers, List.length_map] at answered
      have enough : s.loops ≤ (s.servedOn call).length := by
        rw [servedOn, List.length_map]
        exact Nat.le_trans bound' answered
      have member := (servedOn_perm placed accounted enough).mem_iff.mpr (List.mem_range.mpr bound)
      exact absurd member unserved
  | run outside pending => exact kept_answer _ _ active

/-- A callback waits for a loop that is itself in getAllConnection. -/
structure Held (s : Server Conn) (call other index : Nat) : Prop where
  waiting : s.Active call
  holding : s.Active other
  holder : (s.calls other).caller = .loop index
  foreign : (s.calls call).caller ≠ .loop index
  unserved : index ∉ s.servedOn call

theorem unserved_of_step {s after : Server Conn} {event : Event Conn} {call other index : Nat}
    (placed : Placed s) (held : Held s call other index) (taken : step s event = some after) :
    index ∉ after.servedOn call := by
  have moved := moves taken
  cases moved with
  | @inline call' index' made place bound own =>
      change index ∉ (s.answer index' call').servedOn call
      rw [servedOn_answer, List.mem_append]
      rintro (old | new)
      · exact held.unserved old
      · split at new
        · rename_i same
          rw [← same, ← List.mem_singleton.mp new] at own
          exact held.foreign own
        · cases new
  | @run index' call' outside pending =>
      rw [servedOn_answer, List.mem_append]
      rintro (old | new)
      · exact held.unserved old
      · split at new
        · have inside := placed.own other index held.holding held.holder
          rw [List.mem_singleton.mp new, outside] at inside
          cases inside
        · cases new
  | _ => exact held.unserved

theorem Held.bound {s : Server Conn} {call other index : Nat} (held : Held s call other index)
    (placed : Placed s) : index < s.loops :=
  placed.bounded index (placed.own other index held.holding held.holder)

/-- Two callbacks that wait for each other do so for ever. -/
theorem held_step {s after : Server Conn} {event : Event Conn} {call other index loop : Nat}
    (placed : Placed s) (accounted : Accounted s) (collecting : Collecting s)
    (held : Held s call other index) (back : Held s other call loop)
    (taken : step s event = some after) : Held after call other index := by
  obtain ⟨waiting, caller⟩ := kept_of_unserved placed accounted collecting taken held.waiting
    (held.bound placed) held.unserved
  obtain ⟨holding, caller'⟩ := kept_of_unserved placed accounted collecting taken back.waiting
    (back.bound placed) back.unserved
  refine ⟨waiting, holding, ?_, ?_, unserved_of_step placed held taken⟩
  · rw [caller']
    exact held.holder
  · rw [caller]
    exact held.foreign

/-- A call out of turn makes two callbacks wait for each other. -/
theorem held_of_step {s after : Server Conn} {event : Event Conn} (placed : Placed s)
    (taken : step s event = some after) (late : ¬s.InTurn event) :
    ∃ call other index loop, Held after call other index ∧ Held after other call loop := by
  unfold InTurn at late
  split at late
  · rename_i index
    simp only [not_forall] at late
    obtain ⟨call, active, ⟨loop, mine⟩, unserved⟩ := late
    obtain ⟨enabled, result⟩ := Option.ite_none_right_eq_some.mp taken
    cases result
    have different : call ≠ s.made := Nat.ne_of_lt active.1
    have foreign : (s.calls call).caller ≠ .loop index :=
      calling_eq_false.mp enabled.2 call active.1 active.2
    have waiting : (s.getAllConnection (.loop index)).Active call := by
      unfold Active
      rw [calls_getAllConnection, if_neg different]
      exact ⟨Nat.lt_succ_of_lt active.1, active.2⟩
    have holding : (s.getAllConnection (.loop index)).Active s.made := by
      unfold Active
      rw [calls_getAllConnection, if_pos rfl]
      exact ⟨Nat.lt_succ_self _, nofun⟩
    have nothing : s.servedOn s.made = [] := by
      rw [servedOn, (placed.fresh s.made (Nat.le_refl _)).2]
      rfl
    refine ⟨call, s.made, index, loop, ⟨waiting, holding, ?_, ?_, unserved⟩,
      ⟨holding, waiting, ?_, ?_, ?_⟩⟩
    · rw [calls_getAllConnection, if_pos rfl]
    · rwa [calls_getAllConnection, if_neg different]
    · rwa [calls_getAllConnection, if_neg different]
    · rw [calls_getAllConnection, if_pos rfl]
      intro same
      exact foreign (mine.trans same.symm)
    · change loop ∉ s.servedOn s.made
      rw [nothing]
      exact List.not_mem_nil
  · exact absurd trivial late

/-! ### Bringing calls to an end -/

/-- The steps a call has left when no other call is made. -/
def Place.work (loops : Nat) : Place → Nat
  | .posting index => 2 * (loops - index) + loops + 2
  | .taking count => loops - count + 1
  | .returned => 0

def Server.callWork (s : Server Conn) (call : Nat) : Nat :=
  (s.calls call).place.work s.loops

/-- What a loop has left to run, and to leave. -/
def Server.loopWork (s : Server Conn) (index : Nat) : Nat :=
  (s.posted index).length + (s.inCallback index).toNat

def Server.work (s : Server Conn) : Nat :=
  ∑ call ∈ Finset.range s.made, s.callWork call +
    ∑ index ∈ Finset.range s.loops, s.loopWork index

theorem sum_update {f : Nat → Nat} {number index : Nat} (bound : index < number) (value : Nat) :
    ∑ i ∈ Finset.range number, Function.update f index value i + f index =
      ∑ i ∈ Finset.range number, f i + value := by
  have member : index ∈ Finset.range number := Finset.mem_range.mpr bound
  rw [Finset.sum_update_of_mem member, Finset.sdiff_singleton_eq_erase, Nat.add_assoc,
    Finset.sum_erase_add _ _ member, Nat.add_comm]

theorem work_setCall {s : Server Conn} {call : Nat} (made : call < s.made)
    (record : Call Conn) :
    (s.setCall call record).work + s.callWork call = s.work + record.place.work s.loops := by
  have works : (s.setCall call record).callWork =
      Function.update s.callWork call (record.place.work s.loops) := by
    funext other
    rw [callWork, calls_setCall, Function.update_apply]
    split <;> rfl
  have balance := sum_update (f := s.callWork) made (record.place.work s.loops)
  unfold Server.work
  rw [works]
  change ∑ i ∈ Finset.range s.made, _ + ∑ i ∈ Finset.range s.loops, s.loopWork i + _ = _
  omega

theorem work_setPosted {s : Server Conn} {index : Nat} (bound : index < s.loops)
    (calls : List Nat) :
    (s.setPosted index calls).work + (s.posted index).length = s.work + calls.length := by
  have works : (s.setPosted index calls).loopWork =
      Function.update s.loopWork index (calls.length + (s.inCallback index).toNat) := by
    funext other
    rw [Function.update_apply]
    split
    · rename_i same
      simp [same, loopWork, setPosted]
    · rename_i different
      simp [loopWork, setPosted, different]
  have balance := sum_update (f := s.loopWork) bound
    (calls.length + (s.inCallback index).toNat)
  have before : s.loopWork index = (s.posted index).length + (s.inCallback index).toNat := rfl
  unfold Server.work
  rw [works]
  change ∑ i ∈ Finset.range s.made, s.callWork i + ∑ i ∈ Finset.range s.loops, _ + _ = _
  omega

theorem work_setCallback {s : Server Conn} {index : Nat} (bound : index < s.loops)
    (inside : Bool) :
    (s.setCallback index inside).work + (s.inCallback index).toNat = s.work + inside.toNat := by
  have works : (s.setCallback index inside).loopWork =
      Function.update s.loopWork index ((s.posted index).length + inside.toNat) := by
    funext other
    rw [Function.update_apply]
    split
    · rename_i same
      simp [same, loopWork, setCallback]
    · rename_i different
      simp [loopWork, setCallback, different]
  have balance := sum_update (f := s.loopWork) bound ((s.posted index).length + inside.toNat)
  have before : s.loopWork index = (s.posted index).length + (s.inCallback index).toNat := rfl
  unfold Server.work
  rw [works]
  change ∑ i ∈ Finset.range s.made, s.callWork i + ∑ i ∈ Finset.range s.loops, _ + _ = _
  omega

theorem callWork_answer (s : Server Conn) (index call : Nat) :
    (s.answer index call).callWork = s.callWork := by
  funext other
  rw [callWork, calls_answer]
  split
  · rename_i same
    rw [same]
    rfl
  · rfl

theorem work_answer (s : Server Conn) (index call : Nat) : (s.answer index call).work = s.work := by
  unfold Server.work
  rw [callWork_answer]
  rfl

theorem work_setCall_lt {s : Server Conn} {call : Nat} {record : Call Conn} (made : call < s.made)
    (less : record.place.work s.loops < s.callWork call) :
    (s.setCall call record).work < s.work := by
  have balance := work_setCall made record
  omega

theorem work_setPlace {s : Server Conn} {call : Nat} (made : call < s.made) (place : Place) :
    (s.setPlace call place).work + s.callWork call = s.work + place.work s.loops :=
  work_setCall made { s.calls call with place := place }

/-- A call that goes on has less left. -/
theorem work_proceed {s after : Server Conn} {call : Nat} (made : call < s.made)
    (taken : s.proceed call = some after) : after.work < s.work := by
  have moved := proceed_moves made taken
  have left : s.callWork call = (s.calls call).place.work s.loops := rfl
  cases moved with
  | @inline call index made place bound own =>
      rw [← work_answer s index call]
      refine work_setCall_lt (s := s.answer index call) made ?_
      rw [callWork_answer, left, place]
      simp only [Place.work, loops_answer]
      omega
  | @post call index made place bound other =>
      have posted := work_setPosted bound (s.posted index ++ [call])
      have balance := work_setPlace (s := s.setPosted index (s.posted index ++ [call])) made
        (.posting (index + 1))
      have same : (s.setPosted index (s.posted index ++ [call])).callWork call =
        s.callWork call := rfl
      rw [same, left, place] at balance
      simp only [Place.work, loops_setPosted] at balance
      rw [List.length_append, List.length_singleton] at posted
      omega
  | @posted call index made place bound =>
      refine work_setCall_lt made ?_
      rw [left, place]
      simp only [Place.work]
      omega
  | @take call count value rest made place bound front =>
      refine work_setCall_lt made ?_
      rw [left, place]
      simp only [Place.work]
      omega
  | @giveBack call count made place bound =>
      refine work_setCall_lt made ?_
      rw [left, place]
      simp only [Place.work]
      omega

theorem blocked_of_proceed {s : Server Conn} {call : Nat} (active : s.Active call)
    (stays : s.proceed call = none) : s.Blocked call := by
  unfold Server.proceed at stays
  split at stays
  · split at stays
    · cases stays
    · cases stays
  · rename_i count place
    split at stays
    · rename_i bound
      split at stays
      · rename_i nothing
        exact ⟨active.1, ⟨count, bound, place⟩, nothing⟩
      · cases stays
    · cases stays
  · rename_i returned
    exact absurd returned active.2

/-- A call that is blocked waits for some loop. -/
theorem exists_posted_of_blocked {s : Server Conn} {call : Nat} (accounted : Accounted s)
    (collecting : Collecting s) (blocked : s.Blocked call) :
    ∃ index < s.loops, call ∈ s.posted index := by
  obtain ⟨_made, ⟨count, bound, place⟩, nothing⟩ := blocked
  have answered : (s.servedOn call).length ≤ count := by
    have remaining := (collecting call).que
    rw [nothing, Server.taken, place, Place.taken] at remaining
    have short := List.drop_eq_nil_iff.mp remaining.symm
    rwa [answers, List.length_map, ← List.length_map (f := Prod.fst)] at short
  have missing : ∃ index < s.loops, index ∉ s.servedOn call := by
    by_contra all
    push Not at all
    have every : List.range s.loops ⊆ s.servedOn call :=
      fun index member => all index (List.mem_range.mp member)
    have enough := (List.subperm_of_subset List.nodup_range every).length_le
    rw [List.length_range] at enough
    omega
  obtain ⟨index, within, unserved⟩ := missing
  refine ⟨index, within, List.count_pos_iff.mp ?_⟩
  have held := accounted index call
  rw [Server.reached, place, Place.reached] at held
  have unanswered : (s.servedOn call).count index = 0 := List.count_eq_zero.mpr unserved
  unfold entries at held
  omega

/-- Without a deadlock some step brings the calls on. -/
theorem progress {s : Server Conn} {call : Nat} (accounted : Accounted s)
    (collecting : Collecting s) (active : s.Active call) (free : ¬s.Deadlock) :
    ∃ event after, step s event = some after ∧ s.InTurn event ∧ after.work < s.work := by
  by_cases going : ∃ call after, call < s.made ∧ s.proceed call = some after
  · obtain ⟨call, after, made, taken⟩ := going
    refine ⟨.proceed call, after, ?_, trivial, work_proceed made taken⟩
    exact (if_pos made).trans taken
  have blocked (other : Nat) (active : s.Active other) : s.Blocked other := by
    refine blocked_of_proceed active ?_
    by_contra goes
    obtain ⟨after, taken⟩ := Option.ne_none_iff_exists'.mp goes
    exact going ⟨other, after, active.1, taken⟩
  have idle : ∃ index call, index < s.loops ∧ call ∈ s.posted index ∧
      s.calling (.loop index) = false := by
    by_contra busy
    push Not at busy
    refine free ⟨⟨call, active⟩, ?_⟩
    intro waiting unfinished
    refine ⟨blocked waiting unfinished, ?_⟩
    obtain ⟨index, bound, pending⟩ :=
      exists_posted_of_blocked accounted collecting (blocked waiting unfinished)
    have holds := busy index waiting bound pending
    rw [Ne, calling_eq_false] at holds
    push Not at holds
    obtain ⟨other, made, place, caller⟩ := holds
    exact ⟨index, pending, other, blocked other ⟨made, place⟩, caller⟩
  obtain ⟨index, waiting, bound, pending, unused⟩ := idle
  cases inside : s.inCallback index with
  | true =>
      refine ⟨.leave index, s.setCallback index false, if_pos ⟨inside, unused⟩, trivial, ?_⟩
      have balance := work_setCallback bound false
      rw [inside, Bool.toNat_true, Bool.toNat_false] at balance
      omega
  | false =>
      refine ⟨.run index waiting, _, if_pos ⟨inside, pending⟩, trivial, ?_⟩
      have balance := work_setPosted bound ((s.posted index).erase waiting)
      have shorter := List.length_erase_of_mem pending
      have positive := List.length_pos_of_mem pending
      rw [work_answer]
      omega

/-- From every state the calls can be brought to an end, or to a deadlock. -/
theorem settles {s : Server Conn} (reachable : Reachable (system Conn pool) s) :
    ∃ after, Reachable (((system Conn pool).restrict Server.InTurn).startingAt s) after ∧
      ((∀ call, ¬after.Active call) ∨ after.Deadlock) := by
  induction left : s.work using Nat.strongRecOn generalizing s with
  | ind left' ih =>
      by_cases settled : (∀ call, ¬s.Active call) ∨ s.Deadlock
      · exact ⟨s, .start rfl, settled⟩
      · push Not at settled
        obtain ⟨⟨call, active⟩, free⟩ := settled
        obtain ⟨event, next, taken, turn, less⟩ := progress
          (accounted_of_reachable reachable) (collecting_of_reachable reachable) active free
        obtain ⟨after, rest, settled⟩ := ih next.work (left ▸ less) (reachable.next taken) rfl
        have first : Reachable (((system Conn pool).restrict Server.InTurn).startingAt s) next :=
          (Reachable.start rfl).next ⟨turn, taken⟩
        exact ⟨after, first.trans rest, settled⟩

theorem held_of_reachable {s after : Server Conn} {call other index loop : Nat}
    (before : Reachable (system Conn pool) s) (held : Held s call other index)
    (back : Held s other call loop)
    (reachable : Reachable ((system Conn pool).startingAt s) after) :
    Held after call other index ∧ Held after other call loop := by
  induction reachable with
  | start begins =>
      cases begins
      exact ⟨held, back⟩
  | next earlier taken ih =>
      have now := before.trans earlier
      have placed := placed_of_reachable now
      have accounted := accounted_of_reachable now
      have collecting := collecting_of_reachable now
      exact ⟨held_step placed accounted collecting ih.1 ih.2 taken,
        held_step placed accounted collecting ih.2 ih.1 taken⟩

/-- A call that is back is complete.  In runs in which callbacks call in turn there is no
deadlock, and all calls can be brought to an end; a call out of turn leads to a deadlock. -/
theorem getAllConnection_completes :
    (∀ s : Server Conn, Reachable (system Conn pool) s →
      ∀ call < s.made, (s.calls call).place = .returned → Complete s call) ∧
    (∀ s : Server Conn, Reachable ((system Conn pool).restrict InTurn) s →
      ¬s.Deadlock ∧
      ∃ after, Reachable (((system Conn pool).restrict InTurn).startingAt s) after ∧
        ∀ call, ¬after.Active call) ∧
    ∀ (s : Server Conn) event after, Reachable (system Conn pool) s →
      step s event = some after → ¬s.InTurn event →
        ∃ later, Reachable ((system Conn pool).startingAt after) later ∧ later.Deadlock := by
  refine ⟨?_, ?_, ?_⟩
  · intro s reachable call _made returned
    exact complete_of_returned (placed_of_reachable reachable) (accounted_of_reachable reachable)
      (collecting_of_reachable reachable) returned
  · have never {s : Server Conn} (within : Reachable ((system Conn pool).restrict InTurn) s) :
        ¬s.Deadlock :=
      no_deadlock (placed_of_reachable within.of_restrict)
        (accounted_of_reachable within.of_restrict) (ordered_of_reachable within)
    intro s within
    obtain ⟨after, rest, settled⟩ := settles within.of_restrict
    exact ⟨never within, after, rest, settled.resolve_right (never (within.trans rest))⟩
  · intro s event after reachable taken late
    obtain ⟨call, other, index, loop, held, back⟩ :=
      held_of_step (placed_of_reachable reachable) taken late
    have now := reachable.next taken
    obtain ⟨later, rest, settled⟩ := settles now
    have within : Reachable (((system Conn pool).startingAt after).restrict InTurn) later := rest
    refine ⟨later, within.of_restrict, settled.resolve_left ?_⟩
    intro none
    exact none call (held_of_reachable now held back within.of_restrict).1.waiting

/-- Two callbacks call, the second one when its loop has answered the first. -/
def inTurn : List (Event Nat) :=
  [.enter 0, .call (.loop 0)] ++ List.replicate 3 (.proceed 0) ++
    [.run 1 0, .enter 1, .insert 1 5 7, .call (.loop 1)] ++ List.replicate 3 (.proceed 1) ++
    List.replicate 3 (.proceed 0) ++ [.leave 0, .run 0 1] ++ List.replicate 3 (.proceed 1)

theorem getAllConnection_completes_in_turn :
    ∃ s : Server Nat, Reachable ((system Nat (some 2)).restrict InTurn) s ∧
      (s.calls 1).results "ChildLoop_1" = some [7] ∧ Complete s 1 ∧ ¬s.Deadlock := by
  let check : Server Nat → Event Nat → Bool := fun s event =>
    match event with
    | .call (.loop index) => (List.range s.made).all fun call =>
        (s.calls call).place = .returned ∨ index ∈ s.servedOn call
    | _ => true
  have sound : ∀ s event, Reachable ((system Nat (some 2)).restrict InTurn) s →
      check s event = true → s.InTurn event := by
    intro s event _before checked
    unfold InTurn
    split
    · intro call active _other
      have passed := List.all_eq_true.mp checked call (List.mem_range.mpr active.1)
      exact (of_decide_eq_true passed).resolve_left active.2
    · trivial
  have found : ∃ s ∈ execute (checked check step) (start (some 2)) inTurn,
      1 < s.made ∧ (s.calls 1).place = .returned ∧
        (s.calls 1).results "ChildLoop_1" = some [7] := by
    decide +kernel
  obtain ⟨s, within, made, returned, results⟩ := exists_reachable_within sound found
  exact ⟨s, within, results,
    getAllConnection_completes.1 s within.of_restrict 1 made returned,
    (getAllConnection_completes.2.1 s within).1⟩

/-- Two callbacks on the two loops of a pool. -/
def crossing : List (Event Unit) :=
  [.enter 0, .enter 1, .call (.loop 0), .call (.loop 1)] ++ List.replicate 4 (.proceed 0) ++
    List.replicate 4 (.proceed 1)

theorem getAllConnection_deadlocks :
    ∃ s : Server Unit, Reachable (system Unit (some 2)) s ∧ s.Deadlock := by
  have found : ∃ s ∈ execute step (start (some 2)) crossing,
      s.made = 2 ∧ s.loops = 2 ∧
      (∀ call < 2, (s.calls call).place = .taking 1 ∧ (s.calls call).que = [] ∧
        (s.calls call).caller = .loop call) ∧ 0 ∈ s.posted 1 ∧ 1 ∈ s.posted 0 := by
    decide
  obtain ⟨s, reachable, made, loops, calls, first, second⟩ := exists_reachable found
  have blocked (call : Nat) (bound : call < 2) : s.Blocked call := by
    obtain ⟨place, nothing, _caller⟩ := calls call bound
    exact ⟨made ▸ bound, ⟨1, by omega, place⟩, nothing⟩
  have one : 1 < 2 := by decide
  have zero : 0 < 2 := by decide
  refine ⟨s, reachable, ⟨0, active_of_blocked (blocked 0 zero)⟩, ?_⟩
  intro call active
  have bound : call < 2 := made ▸ active.1
  refine ⟨blocked call bound, ?_⟩
  have either : call = 0 ∨ call = 1 := by omega
  rcases either with rfl | rfl
  · exact ⟨1, first, 1, blocked 1 one, (calls 1 one).2.2⟩
  · exact ⟨0, second, 0, blocked 0 zero, (calls 0 zero).2.2⟩

end Uvcpp.GetAllConnection
