/-
What a connection reads.

libuv asks allocCallback for a window of the Buffer, writes into it and calls readCallback,
which extends the Buffer over the bytes only if a messageCallback_ is set.  The callback
takes what it wants from the front, or sends the whole Buffer on.
-/

import Uvcpp.Library.Merge
import Uvcpp.Buffer.Footprint
import Uvcpp.Tcp.SendBuffer

namespace Uvcpp

namespace TcpConnection

/-- What a messageCallback_ does with the Buffer.  `owner` is the list object in the request
of a send. -/
inductive Taking where
  | discard (len : Nat)
  | retrieveAsString (len : Nat)
  | discardAll
  | send (owner : Nat)
deriving DecidableEq

inductive ReadEvent where
  | setMessageCallback (set : Bool)
  | alloc
  | data (bytes : List Byte)
  | error
  | eof
  | take (taking : Taking)
  | finish
deriving DecidableEq

/-- The bytes libuv reads at an event. -/
def ReadEvent.bytes : ReadEvent → List Byte
  | .data bytes => bytes
  | _ => []

namespace Taking

/-- How many bytes it takes. -/
def count (b : Buffer) : Taking → Nat
  | .discard len => len
  | .retrieveAsString len => len
  | .discardAll => b.readableBytes
  | .send _ => b.readableBytes

/-- The Buffer afterwards. -/
def run (b : Buffer) : Taking → Except Fault Buffer
  | .discard len => b.discard len
  | .retrieveAsString len => do
      let (_, b) ← b.retrieveAsString len
      pure b
  | .discardAll => pure b.discardAll
  | .send owner => do
      let (_, b) ← sendBuffer b owner
      pure b

/-- Lengths stay inside the readable bytes, and what is sent is not empty. -/
def Legal (b : Buffer) : Taking → Prop
  | .discard len => len ≤ b.readableBytes
  | .retrieveAsString len => len ≤ b.readableBytes
  | .discardAll => True
  | .send _ => 0 < b.readableBytes

end Taking

/-- The reading end of a connection.  `window` is what allocCallback returned for the read
under way, `running` whether messageCallback_ runs.  The last four fields are history: the
bytes libuv has read, those the Buffer was extended over, those it was not, and how many
of the former were taken. -/
structure Receiver where
  buffer : Buffer
  messageCallback : Bool
  window : Option Window
  running : Bool
  reading : Bool
  arrived : List Byte
  received : List Byte
  lost : List Byte
  taken : Nat

namespace Receiver

/-- A connection whose handle starts to be read. -/
def start (owner : Nat) (messageCallback : Bool) : Receiver :=
  { buffer := Buffer.new owner
    messageCallback := messageCallback
    window := none
    running := false
    reading := true
    arrived := []
    received := []
    lost := []
    taken := 0 }

def allocCallback (r : Receiver) : Except Fault Receiver := do
  let (buffer, window) ← r.buffer.next
  pure
    { r with
      buffer := buffer
      window := some window }

/-- `readCallback` with a byte count: libuv has written the bytes into the window. -/
def readCallback (r : Receiver) (bytes : List Byte) : Except Fault Receiver :=
  match r.window with
  | none => .error .outOfBounds
  | some window => do
      let filled ← r.buffer.fillWindow window bytes
      if r.messageCallback then
        let extended ← filled.extend bytes.length
        pure
          { r with
            buffer := extended
            window := none
            running := true
            arrived := r.arrived ++ bytes
            received := r.received ++ bytes }
      else
        pure
          { r with
            buffer := filled
            window := none
            arrived := r.arrived ++ bytes
            lost := r.lost ++ bytes }

def take (r : Receiver) (taking : Taking) : Except Fault Receiver := do
  let buffer ← taking.run r.buffer
  pure
    { r with
      buffer := buffer
      taken := r.taken + taking.count r.buffer }

def perform (r : Receiver) : ReadEvent → Except Fault Receiver
  | .setMessageCallback set => pure { r with messageCallback := set }
  | .alloc => r.allocCallback
  | .data bytes => r.readCallback bytes
  | .error => pure { r with window := none }
  | .eof => pure { r with window := none, reading := false }
  | .take taking => r.take taking
  | .finish => pure { r with running := false }

/-- What libuv and the callback do: a read asks for its window first and stays inside it,
the callback takes what is there, and nothing is read while it runs. -/
def Allowed (r : Receiver) : ReadEvent → Prop
  | .setMessageCallback _ => True
  | .alloc => r.reading = true ∧ r.running = false ∧ r.window = none
  | .data bytes => ∃ window, r.window = some window ∧ bytes.length ≤ window.length
  | .error => r.window ≠ none
  | .eof => r.window ≠ none
  | .take taking => r.running = true ∧ taking.Legal r.buffer
  | .finish => r.running = true

def Step (r : Receiver) (event : ReadEvent) (after : Receiver) : Prop :=
  r.Allowed event ∧ r.perform event = .ok after

def system (owner : Nat) : Transition.System Receiver ReadEvent where
  initial r := ∃ messageCallback, r = start owner messageCallback
  step := Step

/-- The bytes that were received and not taken. -/
def pending (r : Receiver) : List Byte := r.received.drop r.taken

structure Sound (r : Receiver) : Prop where
  represents : Represents r.buffer r.pending
  offers : ∀ window, r.window = some window → Offers r.buffer window r.pending
  exclusive : r.running = true → r.window = none
  taken : r.taken ≤ r.received.length
  merged : Merge r.received r.lost r.arrived

theorem start_sound (owner : Nat) (messageCallback : Bool) :
    (start owner messageCallback).Sound where
  represents := Session.new_represents owner
  offers _window impossible := nomatch impossible
  exclusive _ := rfl
  taken := Nat.le_refl 0
  merged := .nil

section Perform

variable {r : Receiver}

theorem Sound.readable (sound : r.Sound) :
    r.buffer.readableBytes = r.received.length - r.taken := by
  rw [sound.represents.readable_eq, pending, List.length_drop]

/-- A Buffer that can be read has a block. -/
theorem occupied_of_readable {b : Buffer} {content : List Byte}
    (represents : Represents b content) (positive : 0 < b.readableBytes) :
    b.list.nodes ≠ [] := by
  intro none
  have empty : content = [] := by
    rw [← represents.walk_first.2, none]
    rfl
  rw [represents.readable_eq, empty] at positive
  exact Nat.lt_irrefl 0 positive

/-- Taking from the front of a Buffer. -/
theorem run_spec {b : Buffer} {content : List Byte} (represents : Represents b content)
    {taking : Taking} (legal : taking.Legal b) :
    ∃ after, taking.run b = .ok after ∧ Represents after (content.drop (taking.count b)) ∧
      taking.count b ≤ content.length := by
  have counted := represents.readable_eq
  cases taking with
  | discard len =>
      have enough : len ≤ content.length := counted ▸ legal
      obtain ⟨after, hDiscard, holds, _trimmed⟩ := Buffer.discard_spec represents enough
      exact ⟨after, hDiscard, holds, enough⟩
  | retrieveAsString len =>
      have enough : len ≤ content.length := counted ▸ legal
      obtain ⟨after, hRetrieve, holds, _trimmed⟩ :=
        Buffer.retrieveAsString_spec represents enough
      refine ⟨after, ?_, holds, enough⟩
      simp only [Taking.run, hRetrieve, ok_bind]
      rfl
  | discardAll =>
      refine ⟨b.discardAll, rfl, ?_, Nat.le_of_eq counted⟩
      rw [Taking.count, counted, List.drop_length]
      exact Buffer.discardAll_spec b
  | send owner =>
      have some := occupied_of_readable represents legal
      obtain ⟨context, hSend, _⟩ := sendBuffer_occupied represents some owner
      refine ⟨(b.moveConstruct owner).2, ?_, ?_, Nat.le_of_eq counted⟩
      · simp only [Taking.run, hSend, ok_bind]
        rfl
      · rw [Taking.count, counted, List.drop_length]
        exact emptied_represents b owner

theorem Sound.alloc (sound : r.Sound) (idle : r.running = false) :
    ∃ after, r.allocCallback = .ok after ∧ after.Sound := by
  obtain ⟨buffer, window, hNext, offers⟩ := Buffer.next_spec sound.represents
  refine ⟨{ r with buffer := buffer, window := some window }, ?_, ?_⟩
  · simp only [allocCallback, hNext, ok_bind]
    rfl
  · constructor
    · exact offers.represents
    · intro other same
      cases same
      exact offers
    · intro running
      rw [idle] at running
      cases running
    · exact sound.taken
    · exact sound.merged

theorem Sound.data (sound : r.Sound) {window : Window} (asked : r.window = some window)
    {bytes : List Byte} (room : bytes.length ≤ window.length) :
    ∃ after, r.readCallback bytes = .ok after ∧ after.Sound := by
  have offers := sound.offers window asked
  cases known : r.messageCallback with
  | true =>
      obtain ⟨filled, extended, hFill, hExtend, represents⟩ := Buffer.extend_spec offers room
      refine ⟨{ r with
          buffer := extended
          window := none
          running := true
          arrived := r.arrived ++ bytes
          received := r.received ++ bytes }, ?_, ?_⟩
      · simp only [readCallback, asked, hFill, ok_bind, known, hExtend]
        rfl
      · constructor
        · rw [pending, List.drop_append_of_le_length sound.taken]
          exact represents
        · intro other impossible
          cases impossible
        · intro _running
          rfl
        · have within := sound.taken
          change r.taken ≤ (r.received ++ bytes).length
          rw [List.length_append]
          omega
        · exact sound.merged.append_left bytes
  | false =>
      obtain ⟨filled, hFill, represents⟩ := Buffer.fill_spec offers room
      refine ⟨{ r with
          buffer := filled
          window := none
          arrived := r.arrived ++ bytes
          lost := r.lost ++ bytes }, ?_, ?_⟩
      · simp only [readCallback, asked, hFill, ok_bind, known]
        rfl
      · constructor
        · exact represents
        · intro other impossible
          cases impossible
        · intro _running
          rfl
        · exact sound.taken
        · exact sound.merged.append_right bytes

theorem Sound.take (sound : r.Sound) (running : r.running = true) {taking : Taking}
    (legal : taking.Legal r.buffer) :
    ∃ after, r.take taking = .ok after ∧ after.Sound := by
  obtain ⟨buffer, hRun, represents, enough⟩ := run_spec sound.represents legal
  refine ⟨{ r with buffer := buffer, taken := r.taken + taking.count r.buffer }, ?_, ?_⟩
  · simp only [Receiver.take, hRun, ok_bind]
    rfl
  · constructor
    · rw [pending, List.drop_drop] at represents
      exact represents
    · intro window asked
      have none := sound.exclusive running
      rw [show r.window = some window from asked] at none
      cases none
    · exact sound.exclusive
    · have within := sound.taken
      rw [pending, List.length_drop] at enough
      change r.taken + taking.count r.buffer ≤ r.received.length
      omega
    · exact sound.merged

theorem Sound.perform (sound : r.Sound) {event : ReadEvent} (allowed : r.Allowed event) :
    ∃ after, r.perform event = .ok after ∧ after.Sound := by
  have offersNone : ∀ window, none = some window → Offers r.buffer window r.pending := by
    intro window impossible
    cases impossible
  cases event with
  | setMessageCallback set =>
      exact ⟨_, rfl, { sound with }⟩
  | alloc => exact sound.alloc allowed.2.1
  | data bytes =>
      obtain ⟨window, asked, room⟩ := allowed
      exact sound.data asked room
  | error => exact ⟨_, rfl, { sound with offers := offersNone, exclusive := fun _ => rfl }⟩
  | eof => exact ⟨_, rfl, { sound with offers := offersNone, exclusive := fun _ => rfl }⟩
  | take taking => exact sound.take allowed.1 allowed.2
  | finish =>
      refine ⟨_, rfl, { sound with exclusive := ?_ }⟩
      intro running
      cases running

theorem reachable_sound {owner : Nat} (reachable : Transition.Reachable (system owner) r) :
    r.Sound := by
  induction reachable with
  | start begins =>
      obtain ⟨messageCallback, rfl⟩ := begins
      exact start_sound owner messageCallback
  | next _before taken ih =>
      obtain ⟨allowed, performed⟩ := taken
      obtain ⟨after, same, sound⟩ := ih.perform allowed
      rw [performed] at same
      rw [Except.ok.inj same]
      exact sound

theorem arrived_perform {event : ReadEvent} {after : Receiver}
    (performed : r.perform event = .ok after) : after.arrived = r.arrived ++ event.bytes := by
  cases event with
  | data bytes =>
      change r.readCallback bytes = .ok after at performed
      unfold readCallback at performed
      split at performed
      · cases performed
      · obtain ⟨filled, _hFill, performed⟩ := ok_of_bind performed
        split at performed
        · obtain ⟨extended, _hExtend, performed⟩ := ok_of_bind performed
          cases performed
          rfl
        · cases performed
          rfl
  | alloc =>
      obtain ⟨⟨buffer, window⟩, _hNext, performed⟩ := ok_of_bind performed
      cases performed
      exact (List.append_nil _).symm
  | take taking =>
      obtain ⟨buffer, _hRun, performed⟩ := ok_of_bind performed
      cases performed
      exact (List.append_nil _).symm
  | setMessageCallback | error | eof | finish =>
      cases performed
      exact (List.append_nil _).symm

/-- What was taken stays the front of what was received. -/
theorem taken_perform (sound : r.Sound) {event : ReadEvent}
    (other : ∀ taking, event ≠ .take taking) {after : Receiver}
    (performed : r.perform event = .ok after) :
    after.received.take after.taken = r.received.take r.taken := by
  cases event with
  | data bytes =>
      change r.readCallback bytes = .ok after at performed
      unfold readCallback at performed
      split at performed
      · cases performed
      · obtain ⟨filled, _hFill, performed⟩ := ok_of_bind performed
        split at performed
        · obtain ⟨extended, _hExtend, performed⟩ := ok_of_bind performed
          cases performed
          exact List.take_append_of_le_length sound.taken
        · cases performed
          rfl
  | alloc =>
      obtain ⟨⟨buffer, window⟩, _hNext, performed⟩ := ok_of_bind performed
      cases performed
      rfl
  | take taking => exact absurd rfl (other taking)
  | setMessageCallback | error | eof | finish =>
      cases performed
      rfl

/-- Between two callbacks a byte can be read. -/
theorem Sound.exists_read (sound : r.Sound) (reading : r.reading = true)
    (idle : r.running = false) (none : r.window = none) (byte : Byte) :
    ∃ asked after, r.Step .alloc asked ∧ asked.Step (.data [byte]) after ∧
      asked.arrived = r.arrived ∧ after =
        { r with
          buffer := after.buffer
          running := r.messageCallback
          arrived := r.arrived ++ [byte]
          received := r.received ++ if r.messageCallback then [byte] else []
          lost := r.lost ++ if r.messageCallback then [] else [byte] } := by
  obtain ⟨buffer, window, hNext, offers⟩ := Buffer.next_spec sound.represents
  let asked : Receiver := { r with buffer := buffer, window := some window }
  have allocated : r.perform .alloc = .ok asked := by
    simp only [Receiver.perform, allocCallback, hNext, ok_bind]
    rfl
  have asks : r.Step .alloc asked := ⟨⟨reading, idle, none⟩, allocated⟩
  obtain ⟨_, same, asking⟩ := sound.perform asks.1
  rw [allocated] at same
  cases same
  have room : [byte].length ≤ window.length := offers.length_pos
  obtain ⟨after, performed, _sound⟩ := asking.data rfl room
  refine ⟨asked, after, asks, ⟨⟨window, rfl, room⟩, performed⟩, rfl, ?_⟩
  simp only [readCallback, asked] at performed
  obtain ⟨filled, _hFill, performed⟩ := ok_of_bind performed
  cases known : r.messageCallback with
  | true =>
      simp only [known, if_true] at performed
      obtain ⟨extended, _hExtend, performed⟩ := ok_of_bind performed
      cases performed
      simp [none]
  | false =>
      simp only [known] at performed
      cases performed
      simp [none, idle]

end Perform

end Receiver

/-- **Receiving.** In every run the Buffer of a connection reads as the bytes that came in
while a messageCallback_ was set, less those taken; the others are lost, and only they.
Every event completes without a fault, a read always has room, and what a callback takes or
sends is the front of those bytes. -/
theorem receives_in_order {owner : Nat} {r : Receiver}
    (reachable : Transition.Reachable (Receiver.system owner) r) :
    Merge r.received r.lost r.arrived ∧ r.taken ≤ r.received.length ∧
      r.buffer.toString = .ok (r.received.drop r.taken) ∧
      (∀ event, r.Allowed event → ∃ after, r.perform event = .ok after) ∧
      (∀ window, r.window = some window → 0 < window.length) ∧
      (∀ len, len ≤ r.buffer.readableBytes → ∃ rest, r.buffer.retrieveAsString len =
        .ok ((r.received.drop r.taken).take len, rest)) ∧
      ∀ object, 0 < r.buffer.readableBytes → ∃ context rest,
        sendBuffer r.buffer object = .ok (context, rest) ∧
          context.transmitted = .ok (r.received.drop r.taken) := by
  have sound := Receiver.reachable_sound reachable
  refine ⟨sound.merged, sound.taken, Buffer.toString_spec sound.represents, ?_, ?_, ?_, ?_⟩
  · intro event allowed
    obtain ⟨after, performed, _sound⟩ := sound.perform allowed
    exact ⟨after, performed⟩
  · intro window asked
    exact (sound.offers window asked).length_pos
  · intro len enough
    rw [sound.represents.readable_eq] at enough
    obtain ⟨rest, retrieved, _⟩ := Buffer.retrieveAsString_spec sound.represents enough
    exact ⟨rest, retrieved⟩
  · intro object positive
    have occupied := Receiver.occupied_of_readable sound.represents positive
    obtain ⟨context, sent, _buffer, _represents, transmitted, _⟩ :=
      sendBuffer_occupied sound.represents occupied object
    exact ⟨context, _, sent, transmitted⟩

/-- A byte that comes in before the messageCallback_ is set is lost, the next is not. -/
theorem receives_in_order_late :
    ∃ r, Transition.Reachable (Receiver.system 0) r ∧ r.arrived = [104, 105] ∧
      r.received = [105] ∧ Merge r.received r.lost r.arrived ∧
      r.buffer.toString = .ok [105] := by
  have begins : Transition.Reachable (Receiver.system 0) (Receiver.start 0 false) :=
    .start ⟨false, rfl⟩
  obtain ⟨_, first, asks, reads, _, firstEq⟩ :=
    (Receiver.reachable_sound begins).exists_read rfl rfl rfl 104
  have set : first.Step (.setMessageCallback true) { first with messageCallback := true } :=
    ⟨trivial, rfl⟩
  have middle := ((begins.next asks).next reads).next set
  have idle : first.reading = true ∧ first.running = false ∧ first.window = none ∧
      first.arrived = [104] ∧ first.received = [] ∧ first.taken = 0 := by
    rw [firstEq]
    exact ⟨rfl, rfl, rfl, rfl, rfl, rfl⟩
  obtain ⟨reading, running, none, arrived, received, taken⟩ := idle
  obtain ⟨_, second, asks, reads, _, secondEq⟩ :=
    (Receiver.reachable_sound middle).exists_read reading running none 105
  have again := (middle.next asks).next reads
  have all : second.arrived = [104, 105] ∧ second.received = [105] ∧ second.taken = 0 := by
    rw [secondEq]
    simp [arrived, received, taken]
  obtain ⟨merged, _, content, _⟩ := receives_in_order again
  rw [all.2.1, all.2.2] at content
  exact ⟨second, again, all.1, all.2.1, merged, content⟩

/-! ### The memory of a connection -/

namespace Receiver

open Buffer

variable {r : Receiver}

theorem run_slim {b after : Buffer} {content : List Byte} (represents : Represents b content)
    (slim : Slim (blockLimit 0) b) {taking : Taking} (taken : taking.run b = .ok after) :
    Slim (blockLimit 0) after := by
  have headed := headed_of_represents represents
  cases taking with
  | discard len => exact discard_slim slim headed taken
  | retrieveAsString len =>
      obtain ⟨⟨str, rest⟩, hRetrieve, taken⟩ := ok_of_bind taken
      cases taken
      exact discard_slim slim headed (retrieveAsString_discard hRetrieve)
  | discardAll =>
      cases taken
      exact slim_of_vacant rfl rfl
  | send owner =>
      obtain ⟨⟨context, rest⟩, hSend, taken⟩ := ok_of_bind taken
      cases taken
      obtain ⟨bufs, _hBufs, hSend⟩ := ok_of_bind hSend
      cases hSend
      exact slim_of_vacant rfl rfl

theorem perform_slim (sound : r.Sound) (slim : Slim (blockLimit 0) r.buffer) {event : ReadEvent}
    {after : Receiver} (performed : r.perform event = .ok after) :
    Slim (blockLimit 0) after.buffer := by
  cases event with
  | alloc =>
      obtain ⟨⟨buffer, window⟩, hNext, performed⟩ := ok_of_bind performed
      cases performed
      exact next_slim slim (blockLimit_least 0) hNext
  | data bytes =>
      change r.readCallback bytes = .ok after at performed
      unfold readCallback at performed
      split at performed
      · cases performed
      · obtain ⟨filled, hFill, performed⟩ := ok_of_bind performed
        have filledSlim := fillWindow_slim slim hFill
        split at performed
        · obtain ⟨extended, hExtend, performed⟩ := ok_of_bind performed
          cases performed
          exact extend_slim filledSlim hExtend
        · cases performed
          exact filledSlim
  | take taking =>
      obtain ⟨buffer, hRun, performed⟩ := ok_of_bind performed
      cases performed
      exact run_slim sound.represents slim hRun
  | setMessageCallback | error | eof | finish =>
      cases performed
      exact slim

theorem reachable_slim {owner : Nat} (reachable : Transition.Reachable (system owner) r) :
    Slim (blockLimit 0) r.buffer := by
  induction reachable with
  | start begins =>
      obtain ⟨messageCallback, rfl⟩ := begins
      exact slim_of_vacant rfl rfl
  | next before taken ih => exact perform_slim (reachable_sound before) ih taken.2

end Receiver

/-- **Memory of a connection.** In every run of reads the blocks of the Buffer of a
connection take at most 3072 bytes more than what was received and not yet taken. -/
theorem receives_in_bounded_memory {owner : Nat} {r : Receiver}
    (reachable : Transition.Reachable (Receiver.system owner) r) :
    capacityOf r.buffer.list.nodes ≤ (r.received.length - r.taken) + 3072 := by
  have sound := Receiver.reachable_sound reachable
  have bound := Buffer.footprint sound.represents (Receiver.reachable_slim reachable)
  rw [sound.readable] at bound
  exact bound

/-- A byte in the Buffer of a connection. -/
theorem receives_in_bounded_memory_byte :
    ∃ r, Transition.Reachable (Receiver.system 0) r ∧ r.received = [104] ∧
      capacityOf r.buffer.list.nodes ≤ (r.received.length - r.taken) + 3072 := by
  have begins : Transition.Reachable (Receiver.system 0) (Receiver.start 0 true) :=
    .start ⟨true, rfl⟩
  obtain ⟨_, after, asks, reads, _, afterEq⟩ :=
    (Receiver.reachable_sound begins).exists_read rfl rfl rfl 104
  have reachable := (begins.next asks).next reads
  exact ⟨after, reachable, by rw [afterEq]; rfl, receives_in_bounded_memory reachable⟩

end TcpConnection

end Uvcpp
