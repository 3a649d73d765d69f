/-
Two connections end to end.

A link is the sending half of one connection, the bytes that its libuv has accepted, and the
reading half of the other.  TCP delivers a prefix of these bytes, in pieces of any length.
An echo is two links: the far messageCallback_ takes what it finds and sends it back.
-/

import Uvcpp.Tcp.Receiving
import Uvcpp.Tcp.SendOrder

namespace Uvcpp

namespace TcpConnection

/-- The argument of a send: a string or a pointer, whose bytes the context refers to, or a
Buffer that it takes over.  `owner` is the list object in the context. -/
inductive Payload where
  | str (bytes : List Byte)
  | ptr (bytes : List Byte)
  | buffer (buf : Buffer) (owner : Nat)

/-- What libuv finds in the context of a send. -/
def Payload.transmitted : Payload → Except Fault (List Byte)
  | .str bytes => pure bytes
  | .ptr bytes => pure bytes
  | .buffer buf owner => do
      let (context, _) ← sendBuffer buf owner
      context.transmitted

/-- `texts` holds the bytes of each send under the number of its context, `stream` the bytes
of the accepted writes. -/
structure Link where
  sender : Traffic
  texts : List (List Byte)
  stream : List Byte
  receiver : Receiver

inductive LinkEvent where
  | send (thread : Thread) (ret : Bool) (payload : Payload)
  | sender (event : Event)
  | receiver (event : ReadEvent)
  | deliver (count : Nat)

namespace Link

def start (owner : Nat) (messageCallback : Bool) : Link :=
  { sender := Traffic.start
    texts := []
    stream := []
    receiver := Receiver.start owner messageCallback }

def text (l : Link) (context : Nat) : List Byte := l.texts[context]?.getD []

/-- The bytes that libuv accepts at an event of the sender. -/
def emits (l : Link) (event : Event) : List Byte :=
  (l.sender.conn.accepts event).flatMap l.text

/-- The sender moves. -/
def move (l : Link) (event : Event) : Option Link :=
  (l.sender.step event).map fun sender =>
    { l with
      sender := sender
      stream := l.stream ++ l.emits event }

/-- A send, whose context holds the bytes. -/
def send (l : Link) (thread : Thread) (ret : Bool) (bytes : List Byte) : Option Link :=
  { l with texts := l.texts ++ [bytes] }.move (.send thread ret)

/-- The next bytes under way. -/
def next (l : Link) (count : Nat) : List Byte :=
  (l.stream.drop l.receiver.arrived.length).take count

def Step (l : Link) : LinkEvent → Link → Prop
  | .send thread ret payload, after => ∃ bytes, payload.transmitted = .ok bytes ∧
      l.send thread ret bytes = some after
  | .sender event, after => (∀ thread ret, event ≠ .send thread ret) ∧ l.move event = some after
  | .receiver event, after => (∀ bytes, event ≠ .data bytes) ∧
      ∃ receiver, l.receiver.Step event receiver ∧ after = { l with receiver := receiver }
  | .deliver count, after => ∃ receiver, l.receiver.Step (.data (l.next count)) receiver ∧
      after = { l with receiver := receiver }

def system (owner : Nat) : Transition.System Link LinkEvent where
  initial l := ∃ messageCallback, l = start owner messageCallback
  step := Step

structure Sound (l : Link) : Prop where
  sender : Transition.Reachable Traffic.system l.sender
  numbered : l.texts.length = l.sender.conn.created
  stream : l.stream = l.sender.accepted.flatMap l.text
  receiver : l.receiver.Sound
  arrived : l.receiver.arrived <+: l.stream

section Step

variable {l after : Link}

theorem accepted_lt {t : Traffic} (ordered : t.Ordered) :
    ∀ context ∈ t.accepted, context < t.conn.created := by
  intro context member
  obtain ⟨front, users, merge⟩ := ordered.merged
  have handed := merge.perm.subset (ordered.accepted.subset member)
  apply ordered.numbered context
  rw [users]
  grind

/-- The numbers of contexts grow with the sends. -/
theorem created_step {t following : Traffic} {event : Event}
    (taken : t.step event = some following) : following.conn.created =
      t.conn.created + (t.conn.sends .user event ++ t.conn.sends .loop event).length := by
  obtain ⟨conn, moved, result⟩ := Option.map_eq_some_iff.mp taken
  cases result
  cases step_effect moved with
  | @sends thread ret callable => cases thread <;> rfl
  | finishes => exact (keeps_finish _ _).1
  | drops => exact (keeps_settle _ _).1
  | cancels => exact (keeps_settle _ _).1
  | @shutDowns client rest idle next =>
      unfold shutdownCallback
      split <;> rfl
  | _ => rfl

theorem text_append {context : Nat} (old : context < l.texts.length) (bytes : List Byte) :
    ({ l with texts := l.texts ++ [bytes] } : Link).text context = l.text context := by
  simp only [text, List.getElem?_append_left old]

theorem Sound.move (sound : l.Sound) {texts : List (List Byte)} {event : Event}
    (kept : ∀ context ∈ l.sender.accepted,
      ({ l with texts := texts } : Link).text context = l.text context)
    (grown : ∀ following, l.sender.step event = some following →
      texts.length = following.conn.created)
    (moved : ({ l with texts := texts } : Link).move event = some after) : after.Sound := by
  obtain ⟨sender, taken, result⟩ := Option.map_eq_some_iff.mp moved
  cases result
  have reachable := sound.sender.next taken
  constructor
  · exact reachable
  · exact grown sender taken
  · obtain ⟨conn, _moved, same⟩ := Option.map_eq_some_iff.mp taken
    cases same
    change l.stream ++ _ = (l.sender.accepted ++ _).flatMap _
    rw [List.flatMap_append, sound.stream]
    congr 1
    exact (List.flatMap_congr kept).symm
  · exact sound.receiver
  · exact sound.arrived.trans (List.prefix_append _ _)

theorem Sound.receive (sound : l.Sound) {event : ReadEvent} {receiver : Receiver}
    (step : l.receiver.Step event receiver)
    (arrived : receiver.arrived <+: l.stream) : ({ l with receiver := receiver } : Link).Sound := by
  obtain ⟨following, same, holds⟩ := sound.receiver.perform step.1
  rw [step.2] at same
  cases same
  exact { sound with receiver := holds, arrived := arrived }

theorem Sound.step (sound : l.Sound) {event : LinkEvent} (taken : l.Step event after) :
    after.Sound := by
  have ordered := Traffic.reachable_ordered sound.sender
  cases event with
  | send thread ret payload =>
      obtain ⟨bytes, _transmitted, sent⟩ := taken
      apply sound.move _ _ sent
      · intro context member
        apply text_append
        rw [sound.numbered]
        exact accepted_lt ordered context member
      · intro following moved
        rw [created_step moved, List.length_append, sound.numbered]
        cases thread <;> rfl
  | sender event =>
      obtain ⟨other, moved⟩ := taken
      apply sound.move (fun _context _member => rfl) _ moved
      intro following taken
      rw [created_step taken, sound.numbered]
      cases event with
      | send thread ret => exact absurd rfl (other thread ret)
      | _ => rfl
  | receiver event =>
      obtain ⟨other, receiver, step, rfl⟩ := taken
      have nothing : event.bytes = [] := by
        cases event with
        | data bytes => exact absurd rfl (other bytes)
        | _ => rfl
      apply sound.receive step
      rw [Receiver.arrived_perform step.2, nothing, List.append_nil]
      exact sound.arrived
  | deliver count =>
      obtain ⟨receiver, step, rfl⟩ := taken
      apply sound.receive step
      rw [Receiver.arrived_perform step.2]
      obtain ⟨ahead, split⟩ := sound.arrived
      rw [ReadEvent.bytes, next, ← split, List.drop_left, List.prefix_append_right_inj]
      exact List.take_prefix count ahead

/-- A link that does not send. -/
theorem quiet_step {following : Link} {event : LinkEvent} (taken : l.Step event following)
    (other : ∀ thread ret payload, event ≠ .send thread ret payload) :
    following.texts = l.texts ∧ following.sender.users = l.sender.users ∧
      following.sender.loop = l.sender.loop := by
  cases event with
  | send thread ret payload => exact absurd rfl (other thread ret payload)
  | sender event =>
      obtain ⟨unsent, moved⟩ := taken
      obtain ⟨sender, taken, result⟩ := Option.map_eq_some_iff.mp moved
      obtain ⟨conn, _moved, same⟩ := Option.map_eq_some_iff.mp taken
      cases result
      cases same
      cases event with
      | send thread ret => exact absurd rfl (unsent thread ret)
      | _ => exact ⟨rfl, List.append_nil _, List.append_nil _⟩
  | receiver event =>
      obtain ⟨_other, receiver, _step, rfl⟩ := taken
      exact ⟨rfl, rfl, rfl⟩
  | deliver count =>
      obtain ⟨receiver, _step, rfl⟩ := taken
      exact ⟨rfl, rfl, rfl⟩

theorem start_sound (owner : Nat) (messageCallback : Bool) :
    (start owner messageCallback).Sound where
  sender := .start rfl
  numbered := rfl
  stream := rfl
  receiver := Receiver.start_sound owner messageCallback
  arrived := List.prefix_refl []

theorem reachable_sound {owner : Nat} (reachable : Transition.Reachable (system owner) l) :
    l.Sound := by
  induction reachable with
  | start begins =>
      obtain ⟨messageCallback, rfl⟩ := begins
      exact start_sound owner messageCallback
  | next _before taken ih => exact ih.step taken

end Step

end Link

/-- **Delivery.** In every run of two connections what the receiver has read is a prefix of
the texts of the accepted writes, in the order in which these were handed to libuv: a merge
of the sends of the loop thread and of the other threads, each in its order.  Its Buffer
reads as what came in under a messageCallback_ and was not taken. -/
theorem delivers_in_order {owner : Nat} {l : Link}
    (reachable : Transition.Reachable (Link.system owner) l) :
    ∃ front handed, Merge front l.sender.loop handed ∧ front <+: l.sender.users ∧
      l.sender.accepted.Sublist handed ∧
      l.receiver.arrived <+: l.sender.accepted.flatMap l.text ∧
      Merge l.receiver.received l.receiver.lost l.receiver.arrived ∧
      l.receiver.buffer.toString = .ok (l.receiver.received.drop l.receiver.taken) := by
  have sound := Link.reachable_sound reachable
  have ordered := Traffic.reachable_ordered sound.sender
  obtain ⟨front, users, merge⟩ := ordered.merged
  refine ⟨front, _, merge, ?_, ordered.accepted, ?_, sound.receiver.merged,
    Buffer.toString_spec sound.receiver.represents⟩
  · rw [users]
    exact List.prefix_append _ _
  · rw [← sound.stream]
    exact sound.arrived

namespace Link

theorem reachable_step {owner : Nat} {l after : Link} {event : LinkEvent}
    (reachable : Transition.Reachable (system owner) l) (taken : l.Step event after) :
    Transition.Reachable (system owner) after :=
  reachable.next taken

/-- A sender that has sent one byte in its connectionCallback_. -/
def oneSent (owner : Nat) (byte : Byte) : Link :=
  { start owner true with
    sender :=
      { conn := TcpConnection.accepted.send .loop true
        users := []
        loop := [0]
        accepted := [0] }
    texts := [[byte]]
    stream := [byte] }

theorem oneSent_reachable (owner : Nat) (byte : Byte) :
    Transition.Reachable (system owner) (oneSent owner byte) := by
  have begins : Transition.Reachable (system owner) (start owner true) := .start ⟨true, rfl⟩
  have sends : (start owner true).Step (.send .loop true (.str [byte])) (oneSent owner byte) :=
    ⟨[byte], rfl, rfl⟩
  exact reachable_step begins sends

/-- The byte arrives. -/
theorem oneSent_delivered (owner : Nat) (byte : Byte) :
    ∃ asked after, (oneSent owner byte).Step (.receiver .alloc) asked ∧
      asked.Step (.deliver 1) after ∧ after.sender = (oneSent owner byte).sender ∧
      after.texts = [[byte]] ∧ after.receiver.arrived = [byte] ∧
      after.receiver.received = [byte] ∧ after.receiver.taken = 0 ∧
      after.receiver.lost = [] ∧ after.receiver.running = true := by
  obtain ⟨asked, after, asks, reads, nothing, afterEq⟩ :=
    (Receiver.start_sound owner true).exists_read rfl rfl rfl byte
  refine ⟨{ oneSent owner byte with receiver := asked },
    { oneSent owner byte with receiver := after }, ⟨?_, asked, asks, rfl⟩,
    ⟨after, ?_, rfl⟩, rfl, rfl, ?_⟩
  · intro bytes impossible
    cases impossible
  · have nextByte : ({ oneSent owner byte with receiver := asked } : Link).next 1 = [byte] := by
      simp only [next, nothing]
      rfl
    rw [nextByte]
    exact reads
  · change after.arrived = [byte] ∧ after.received = [byte] ∧ after.taken = 0 ∧
      after.lost = [] ∧ after.running = true
    rw [afterEq]
    exact ⟨rfl, rfl, rfl, rfl, rfl⟩

end Link

/-- A byte that the loop thread sends is delivered. -/
theorem delivers_in_order_byte :
    ∃ l, Transition.Reachable (Link.system 0) l ∧ l.receiver.arrived = [104] ∧
      (∃ front handed, Merge front l.sender.loop handed ∧ front <+: l.sender.users ∧
        l.sender.accepted.Sublist handed ∧
        l.receiver.arrived <+: l.sender.accepted.flatMap l.text ∧
        Merge l.receiver.received l.receiver.lost l.receiver.arrived ∧
        l.receiver.buffer.toString = .ok (l.receiver.received.drop l.receiver.taken)) := by
  obtain ⟨_, after, asks, delivers, _, _, arrived, _⟩ := Link.oneSent_delivered 0 104
  have reachable :=
    Link.reachable_step (Link.reachable_step (Link.oneSent_reachable 0 104) asks) delivers
  exact ⟨after, reachable, arrived, delivers_in_order reachable⟩

end TcpConnection

end Uvcpp
