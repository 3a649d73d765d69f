/-
A server whose messageCallback_ takes all there is as a string and sends it back.

An echo is two links: the receiver of the one and the sender of the other are the two halves
of the connection in the server.
-/

import Mathlib.Data.List.Flatten
import Uvcpp.Tcp.Delivery

namespace Uvcpp

namespace TcpConnection

/-- The link to the server and the link back. -/
structure Echo where
  there : Link
  back : Link

inductive EchoEvent where
  | there (event : LinkEvent)
  | back (event : LinkEvent)
  | echo (ret : Bool)

namespace Echo

def start (near far : Nat) (messageCallback : Bool) : Echo :=
  { there := Link.start far true
    back := Link.start near messageCallback }

/-- The callback of the server: `conn->send(move(buffer.retrieveAllAsString()))`. -/
def messageCallback (e : Echo) (ret : Bool) : Except Fault (Option Echo) := do
  let all := Taking.retrieveAsString e.there.receiver.buffer.readableBytes
  let (str, _) ← e.there.receiver.buffer.retrieveAsString e.there.receiver.buffer.readableBytes
  let receiver ← e.there.receiver.take all
  pure ((e.back.send .loop ret str).map fun back =>
    { there := { e.there with receiver := receiver }
      back := back })

/-- The server takes and sends in its callback only; the halves of a connection move
independently, in more orders than its state allows. -/
def Step (e : Echo) : EchoEvent → Echo → Prop
  | .there event, after => (∀ taking, event ≠ .receiver (.take taking)) ∧
      ∃ there, e.there.Step event there ∧ after = { e with there := there }
  | .back event, after => (∀ thread ret payload, event ≠ .send thread ret payload) ∧
      ∃ back, e.back.Step event back ∧ after = { e with back := back }
  | .echo ret, after => e.there.receiver.running = true ∧
      e.messageCallback ret = .ok (some after)

def system (near far : Nat) : Transition.System Echo EchoEvent where
  initial e := ∃ messageCallback, e = start near far messageCallback
  step := Step

/-- What was taken from the one link is what was sent on the other. -/
structure Sound (e : Echo) : Prop where
  there : e.there.Sound
  back : e.back.Sound
  echoed : e.back.texts.flatten = e.there.receiver.received.take e.there.receiver.taken
  users : e.back.sender.users = []
  loop : e.back.sender.loop = List.range e.back.texts.length

section Step

variable {e after : Echo}

/-- A link whose receiver takes nothing. -/
theorem taken_step {l following : Link} (sound : l.Sound) {event : LinkEvent}
    (taken : l.Step event following) (other : ∀ taking, event ≠ .receiver (.take taking)) :
    following.receiver.received.take following.receiver.taken =
      l.receiver.received.take l.receiver.taken := by
  cases event with
  | send thread ret payload =>
      obtain ⟨bytes, _transmitted, moved⟩ := taken
      obtain ⟨sender, _taken, result⟩ := Option.map_eq_some_iff.mp moved
      cases result
      rfl
  | sender event =>
      obtain ⟨sender, _taken, result⟩ := Option.map_eq_some_iff.mp taken.2
      cases result
      rfl
  | receiver event =>
      obtain ⟨_data, receiver, step, rfl⟩ := taken
      have untaken : ∀ taking, event ≠ .take taking := by
        intro taking same
        exact other taking (congrArg LinkEvent.receiver same)
      exact Receiver.taken_perform sound.receiver untaken step.2
  | deliver count =>
      obtain ⟨receiver, step, rfl⟩ := taken
      have untaken : ∀ taking, ReadEvent.data (l.next count) ≠ .take taking := by
        intro taking impossible
        cases impossible
      exact Receiver.taken_perform sound.receiver untaken step.2

/-- The callback takes all there is and sends it. -/
theorem Sound.echo (sound : e.Sound) {ret : Bool} (running : e.there.receiver.running = true)
    (called : e.messageCallback ret = .ok (some after)) : after.Sound := by
  have represents := sound.there.receiver.represents
  have readable := represents.readable_eq
  have enough := sound.there.receiver.taken
  obtain ⟨⟨str, rest⟩, retrieved, called⟩ := ok_of_bind called
  obtain ⟨receiver, took, called⟩ := ok_of_bind called
  obtain ⟨back, sent, rfl⟩ := Option.map_eq_some_iff.mp (Except.ok.inj called)
  have whole : str = e.there.receiver.pending := by
    obtain ⟨other, same, _⟩ :=
      Buffer.retrieveAsString_spec represents (Nat.le_of_eq readable)
    rw [retrieved, readable, List.take_length] at same
    exact congrArg Prod.fst (Except.ok.inj same)
  have received : receiver.received = e.there.receiver.received ∧
      receiver.taken = e.there.receiver.received.length := by
    obtain ⟨buffer, _hRun, took⟩ := ok_of_bind took
    cases took
    refine ⟨rfl, ?_⟩
    change e.there.receiver.taken + e.there.receiver.buffer.readableBytes = _
    rw [sound.there.receiver.readable]
    omega
  have takes : e.there.receiver.Step
      (.take (.retrieveAsString e.there.receiver.buffer.readableBytes)) receiver :=
    ⟨⟨running, Nat.le_refl _⟩, took⟩
  have sends : e.back.Step (.send .loop ret (.str str)) back := ⟨str, rfl, sent⟩
  have backs := sound.back.step sends
  obtain ⟨sender, stepped, rfl⟩ := Option.map_eq_some_iff.mp sent
  obtain ⟨conn, _moved, rfl⟩ := Option.map_eq_some_iff.mp stepped
  constructor
  · apply sound.there.receive takes
    rw [Receiver.arrived_perform takes.2]
    exact (List.append_nil _).symm ▸ sound.there.arrived
  · exact backs
  · change (e.back.texts ++ [str]).flatten = receiver.received.take receiver.taken
    rw [List.flatten_append, sound.echoed, received.1, received.2, List.take_length,
      List.flatten_singleton, whole, Receiver.pending, List.take_append_drop]
  · exact (List.append_nil _).trans sound.users
  · change e.back.sender.loop ++ [e.back.sender.conn.created] =
      List.range (e.back.texts ++ [str]).length
    rw [List.length_append, List.length_singleton, List.range_succ, sound.loop,
      sound.back.numbered]

theorem Sound.step (sound : e.Sound) {event : EchoEvent} (taken : e.Step event after) :
    after.Sound := by
  cases event with
  | there event =>
      obtain ⟨other, there, step, rfl⟩ := taken
      exact
        { sound with
          there := sound.there.step step
          echoed := sound.echoed.trans (taken_step sound.there step other).symm }
  | back event =>
      obtain ⟨other, back, step, rfl⟩ := taken
      obtain ⟨texts, users, loop⟩ := Link.quiet_step step other
      constructor
      · exact sound.there
      · exact sound.back.step step
      · exact (congrArg List.flatten texts).trans sound.echoed
      · exact users.trans sound.users
      · exact loop.trans (sound.loop.trans (congrArg (List.range ·.length) texts.symm))
  | echo ret => exact sound.echo taken.1 taken.2

theorem start_sound (near far : Nat) (messageCallback : Bool) :
    (start near far messageCallback).Sound where
  there := Link.start_sound far true
  back := Link.start_sound near messageCallback
  echoed := rfl
  users := rfl
  loop := rfl

theorem reachable_sound {near far : Nat}
    (reachable : Transition.Reachable (system near far) e) : e.Sound := by
  induction reachable with
  | start begins =>
      obtain ⟨messageCallback, rfl⟩ := begins
      exact start_sound near far messageCallback
  | next _before taken ih => exact ih.step taken

theorem reachable_step {near far : Nat} {event : EchoEvent}
    (reachable : Transition.Reachable (system near far) e) (taken : e.Step event after) :
    Transition.Reachable (system near far) after :=
  reachable.next taken

/-- The callback completes whenever the send does. -/
theorem Sound.exists_echo (sound : e.Sound) (running : e.there.receiver.running = true)
    {ret : Bool} {back : Link}
    (sent : e.back.send .loop ret e.there.receiver.pending = some back) :
    ∃ receiver, receiver.lost = e.there.receiver.lost ∧ e.Step (.echo ret)
      { there := { e.there with receiver := receiver }
        back := back } := by
  have represents := sound.there.receiver.represents
  have readable := represents.readable_eq
  obtain ⟨rest, retrieved, _⟩ := Buffer.retrieveAsString_spec represents (Nat.le_of_eq readable)
  have legal : (Taking.retrieveAsString e.there.receiver.buffer.readableBytes).Legal
      e.there.receiver.buffer :=
    Nat.le_refl _
  obtain ⟨receiver, took, _sound⟩ := sound.there.receiver.take running legal
  have kept : receiver.lost = e.there.receiver.lost := by
    obtain ⟨buffer, _hRun, took⟩ := ok_of_bind took
    cases took
    rfl
  refine ⟨receiver, kept, running, ?_⟩
  have whole : e.there.receiver.pending.take e.there.receiver.buffer.readableBytes =
      e.there.receiver.pending := by
    rw [readable, List.take_length]
  simp only [messageCallback, retrieved, ok_bind, took, whole, sent]
  rfl

/-- The texts of all sends in their order. -/
theorem flatMap_range (l : Link) :
    (List.range l.texts.length).flatMap l.text = l.texts.flatten := by
  have all : (List.range l.texts.length).map l.text = l.texts := by
    apply List.ext_getElem
    · rw [List.length_map, List.length_range]
    · intro context _mapped inside
      rw [List.getElem_map, List.getElem_range, Link.text, List.getElem?_eq_getElem inside]
      rfl
  rw [List.flatMap_def, all]

end Step

end Echo

/-- **Echo.** In every run of the echo server, whatever the pieces in which TCP delivers,
what comes back has the order of what was sent and nothing more.  If no byte came in without
a messageCallback_ and libuv has accepted every write of the server, it is a prefix of it. -/
theorem echoes_in_order {near far : Nat} {e : Echo}
    (reachable : Transition.Reachable (Echo.system near far) e) :
    e.back.receiver.arrived.Sublist (e.there.sender.accepted.flatMap e.there.text) ∧
      (e.there.receiver.lost = [] → e.back.sender.accepted.length = e.back.texts.length →
        e.back.receiver.arrived <+: e.there.sender.accepted.flatMap e.there.text) := by
  have sound := Echo.reachable_sound reachable
  have there := sound.there
  have back := sound.back
  have accepted : e.back.sender.accepted.Sublist (List.range e.back.texts.length) := by
    have ordered := Traffic.reachable_ordered back.sender
    obtain ⟨front, users, merge⟩ := ordered.merged
    rw [sound.users] at users
    obtain ⟨rfl, _⟩ := List.append_eq_nil_iff.mp users.symm
    rw [← sound.loop, ← merge.eq_right]
    exact ordered.accepted
  have returned : e.back.receiver.arrived <+: e.back.sender.accepted.flatMap e.back.text :=
    back.stream ▸ back.arrived
  have sent : e.there.receiver.arrived <+: e.there.sender.accepted.flatMap e.there.text :=
    there.stream ▸ there.arrived
  have echoed : e.back.texts.flatten <+: e.there.receiver.received := by
    rw [sound.echoed]
    exact List.take_prefix _ _
  have texts : (e.back.sender.accepted.flatMap e.back.text).Sublist e.back.texts.flatten := by
    rw [← Echo.flatMap_range]
    exact accepted.flatMap e.back.text
  constructor
  · have merged := there.receiver.merged.left_sublist
    exact returned.sublist.trans (texts.trans (echoed.sublist.trans (merged.trans sent.sublist)))
  · intro none all
    have whole : e.back.sender.accepted = List.range e.back.texts.length :=
      accepted.eq_of_length (all.trans List.length_range.symm)
    rw [whole, Echo.flatMap_range] at returned
    have merged := there.receiver.merged
    rw [none] at merged
    rw [← merged.eq_left] at echoed
    exact returned.trans (echoed.trans sent)

/-- A byte makes the round. -/
theorem echoes_in_order_byte :
    ∃ e, Transition.Reachable (Echo.system 0 1) e ∧ e.back.receiver.arrived = [104] ∧
      e.back.receiver.arrived <+: e.there.sender.accepted.flatMap e.there.text := by
  have begins : Transition.Reachable (Echo.system 0 1) (Echo.start 0 1 true) :=
    .start ⟨true, rfl⟩
  have sends : (Echo.start 0 1 true).Step (.there (.send .loop true (.str [104])))
      { Echo.start 0 1 true with there := Link.oneSent 1 104 } := by
    refine ⟨?_, Link.oneSent 1 104, ⟨[104], rfl, rfl⟩, rfl⟩
    intro taking impossible
    cases impossible
  obtain ⟨asked, there, asks, delivers, _, _, _, received, taken, lost, running⟩ :=
    Link.oneSent_delivered 1 104
  have arrives := Echo.reachable_step (Echo.reachable_step (Echo.reachable_step begins sends)
    (show Echo.Step _ (.there (.receiver .alloc)) { Echo.start 0 1 true with there := asked }
      from ⟨by rintro taking ⟨⟩, asked, asks, rfl⟩))
    (show Echo.Step _ (.there (.deliver 1)) { Echo.start 0 1 true with there := there }
      from ⟨by rintro taking ⟨⟩, there, delivers, rfl⟩)
  have pending : there.receiver.pending = [104] := by
    rw [Receiver.pending, received, taken]
    rfl
  have sent : (Link.start 0 true).send .loop true there.receiver.pending =
      some (Link.oneSent 0 104) := by
    rw [pending]
    rfl
  obtain ⟨receiver, kept, echoes⟩ := (Echo.reachable_sound arrives).exists_echo running sent
  have echoed := Echo.reachable_step arrives echoes
  obtain ⟨waiting, back, asks, delivers, senderEq, textsEq, arrived, _⟩ :=
    Link.oneSent_delivered 0 104
  have returned := Echo.reachable_step (Echo.reachable_step echoed
    (show Echo.Step _ (.back (.receiver .alloc))
        { there := { there with receiver := receiver }, back := waiting }
      from ⟨by rintro thread ret payload ⟨⟩, waiting, asks, rfl⟩))
    (show Echo.Step _ (.back (.deliver 1))
        { there := { there with receiver := receiver }, back := back }
      from ⟨by rintro thread ret payload ⟨⟩, back, delivers, rfl⟩)
  refine ⟨_, returned, arrived, (echoes_in_order returned).2 (kept.trans lost) ?_⟩
  change back.sender.accepted.length = back.texts.length
  rw [senderEq, textsEq]
  rfl

end TcpConnection

end Uvcpp
