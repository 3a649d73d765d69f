/-
The steps of a TcpConnection.
-/

import Mathlib.Data.Bool.Basic
import Uvcpp.Tcp.TcpConnection

namespace Uvcpp.TcpConnection

/-! ### Effects -/

/-- Everything a step can do. -/
inductive Effect (c : TcpConnection) : Event → TcpConnection → Prop where
  | sends {thread : Thread} {ret : Bool} (callable : c.callable thread = true) :
      Effect c (.send thread ret) (c.send thread ret)
  | keeps {thread : Thread} (other : c.state ≠ .connected) : Effect c (.shutdown thread) c
  | shuts (callable : c.callable .loop = true) (connected : c.state = .connected) :
      Effect c (.shutdown .loop)
        ({ c with state := .finWait }.runInLoopThread .loop (.shutdown false) true)
  | tests (callable : c.callable .user = true) (connected : c.state = .connected) :
      Effect c (.shutdown .user) { c with state := .finWait, shutting := true }
  | posts (shutting : c.shutting = true) :
      Effect c .post ({ c with shutting := false }.runInLoopThread .user (.shutdown false) true)
  | copies (alive : 0 < c.holders) : Effect c .copy { c with users := c.users + 1 }
  | drops {thread : Thread} (own : c.shutting.toNat < c.users) :
      Effect c (.drop thread) ({ c with users := c.users - 1 }.settle thread)
  | runs {ret : Bool} {request : Request} {rest : List Request} (idle : c.frame = none)
      (next : c.client.posted = request :: rest) :
      Effect c (.run ret) { c with client := { c.client with posted := rest }.execute request ret }
  | misses {nread : Nread} (reading : c.client.reading = true) (dead : c.destroyed = true) :
      Effect c (.read nread) c.abort
  | repeats (idle : c.frame = none) (reading : c.client.reading = true)
      (finished : c.state = .closed ∨ c.state = .closeWait) : Effect c (.read .eof) c.abort
  | ends (idle : c.frame = none) (reading : c.client.reading = true)
      (alive : c.destroyed = false) (state : c.state = .connected ∨ c.state = .finWait) :
      Effect c (.read .eof)
        { c with
          state := if c.state = .connected then .closeWait else .closed
          frame := some .ended }
  | reads (idle : c.frame = none) (reading : c.client.reading = true)
      (alive : c.destroyed = false) : Effect c (.read .data) { c with frame := some .read }
  | fails (reading : c.client.reading = true) :
      Effect c (.read .error) { c with client := c.client.readStop }
  | completes {context : Nat} (idle : c.frame = none) (flying : context ∈ c.client.writes) :
      Effect c (.written context true)
        { c with
          client := { c.client with writes := c.client.writes.erase context }
          frame := some (.written context) }
  | cancels {context : Nat} (idle : c.frame = none) (flying : context ∈ c.client.writes) :
      Effect c (.written context false)
        (({ c with client := { c.client with writes := c.client.writes.erase context }
          }.deleteContext context).settle .loop)
  | shutDowns {client : Bool} {rest : List Bool} (idle : c.frame = none)
      (next : c.client.shutdowns = client :: rest) :
      Effect c .shutDown
        ({ c with client := { c.client with shutdowns := rest } }.shutdownCallback client)
  | finishes {frame : Frame} (running : c.frame = some frame) : Effect c .finish (c.finish frame)

theorem step_effect {c c' : TcpConnection} {event : Event} (taken : step c event = some c') :
    Effect c event c' := by
  unfold step at taken
  split at taken
  · cases taken
  · cases event
    all_goals dsimp only at taken
    case send =>
      split at taken
      · cases taken
        exact .sends ‹_›
      · cases taken
    case shutdown thread =>
      split at taken
      · cases taken
        unfold shutdown
        split
        · cases thread
          · exact .shuts ‹_› ‹_›
          · exact .tests ‹_› ‹_›
        · exact .keeps ‹_›
      · cases taken
    case post =>
      split at taken
      · cases taken
        exact .posts ‹_›
      · cases taken
    case copy =>
      split at taken
      · cases taken
        exact .copies ‹_›
      · cases taken
    case drop =>
      split at taken
      · cases taken
        exact .drops ‹_›
      · cases taken
    case run =>
      split at taken
      · cases taken
        exact .runs ‹_› ‹_›
      · cases taken
    case read nread =>
      split at taken
      · obtain ⟨idle, reading⟩ := ‹c.frame = none ∧ c.client.reading = true›
        cases taken
        unfold readCallback
        split
        · exact .misses reading ‹_›
        · have alive : c.destroyed = false := Bool.eq_false_iff.mpr ‹_›
          cases nread
          all_goals dsimp only
          case data => exact .reads idle reading alive
          case error => exact .fails reading
          case eof =>
            split
            · exact .repeats idle reading ‹_›
            · apply Effect.ends idle reading alive
              cases state : c.state <;> simp_all
      · cases taken
    case written context status =>
      split at taken
      · obtain ⟨idle, flying⟩ := ‹c.frame = none ∧ context ∈ c.client.writes›
        cases taken
        cases status
        · exact .cancels idle flying
        · exact .completes idle flying
      · cases taken
    case shutDown =>
      split at taken
      · cases taken
        exact .shutDowns ‹_› ‹_›
      · cases taken
    case finish =>
      obtain ⟨frame, running, same⟩ := Option.map_eq_some_iff.mp taken
      cases same
      exact .finishes running

/-- The destructor runs when nothing holds the connection. -/
theorem settle_cases (c : TcpConnection) (thread : Thread) :
    (c.holders ≠ 0 ∧ c.settle thread = c) ∨
      (c.holders = 0 ∧ c.settle thread = c.destructor thread) := by
  unfold settle
  split
  · exact .inr ⟨‹_›, rfl⟩
  · exact .inl ⟨‹_›, rfl⟩

section Settle

variable (c : TcpConnection) (thread : Thread)

@[simp] theorem settle_contexts : (c.settle thread).contexts = c.contexts := by
  unfold settle destructor
  split_ifs <;> rfl

@[simp] theorem settle_released : (c.settle thread).released = c.released := by
  unfold settle destructor
  split_ifs <;> rfl

@[simp] theorem settle_created : (c.settle thread).created = c.created := by
  unfold settle destructor
  split_ifs <;> rfl

end Settle

/-! ### The end of a callback -/

/-- The connection when a callback gives up its references, before the destructor. -/
def ending (c : TcpConnection) : Frame → TcpConnection
  | .setUp => { c with frame := none }
  | .read => { c with frame := none }
  | .ended => { c.removeConnection with client := c.client.readStop, frame := none }
  | .written context => { c with frame := none }.deleteContext context

section Ending

variable (c : TcpConnection) (frame : Frame)

theorem finish_eq : c.finish frame = (c.ending frame).settle .loop := by
  cases frame <;> rfl

@[simp] theorem ending_destroyed : (c.ending frame).destroyed = c.destroyed := by
  cases frame <;> rfl

@[simp] theorem ending_posted : (c.ending frame).client.posted = c.client.posted := by
  cases frame <;> rfl

end Ending

end Uvcpp.TcpConnection
