/-
Messages over a connection.

The one end encodes each message into an empty Buffer and sends that.  The messageCallback_ of
the other decodes from the Buffer of its connection, where the bytes arrive in any pieces, and
gives each message to a dispatcher.
-/

import Mathlib.Data.List.Infix
import Uvcpp.Codec.Dispatcher
import Uvcpp.Codec.Framing
import Uvcpp.Codec.Incremental
import Uvcpp.Tcp.Delivery

namespace Uvcpp

open TcpConnection

namespace Codec

variable {Message : Type} {pb : Protobuf Message} {b : Buffer} {content : List Byte}

/-! ### Decoding from the front of a stream -/

theorem decode_short (pb : Protobuf Message) (represents : Represents b content)
    (short : content.length < 4) : decode pb b = .error .assertion := by
  rw [decode, Buffer.peekInt32_short represents short]
  rfl

/-- A part of a frame is left where it is. -/
theorem decode_partial (represents : Represents b content) {message : Message}
    (fits : Fits pb message) {stream : List Byte}
    (front : content <+: Pipeline.frameOf pb message ++ stream) (enough : 4 ≤ content.length)
    (short : content.length < (Pipeline.frameOf pb message).length) :
    decode pb b = .ok ⟨.unable, none, b, 0, []⟩ := by
  obtain ⟨payload, serialized, small⟩ := fits
  rw [Fits.frame_eq serialized] at front short
  have length := frame_length (pb.getTypeName message) payload
  have field : packLenAt content = (pb.getTypeName message).length + payload.length + 4 := by
    obtain ⟨rest, split⟩ := front
    have read := packLenAt_frame (pb.getTypeName message) payload stream
    rw [← split, packLenAt, int32At_prefix enough, List.length_append,
      int32_of_small (by omega) (by omega)] at read
    rw [packLenAt, read]
    omega
  apply decode_unable pb represents enough
  · unfold Buffer.maxLength
    omega
  · right
    rw [field]
    omega

/-- A frame with nothing behind it decodes to its message. -/
theorem decode_alone (lawful : pb.Lawful) {message : Message} (fits : Fits pb message)
    (known : pb.knows (pb.getTypeName message) = true)
    (represents : Represents b (Pipeline.frameOf pb message)) :
    ∃ outcome, decode pb b = .ok outcome ∧ outcome.code = .ok ∧
      outcome.message = some message := by
  obtain ⟨payload, serialized, small⟩ := fits
  rw [Fits.frame_eq serialized] at represents
  exact decode_whole lawful represents serialized known small

theorem Fits.small {message : Message} (fits : Fits pb message)
    (known : pb.knows (pb.getTypeName message) = true)
    (bare : pb.appendToString message = some []) : Pipeline.Small pb message := by
  obtain ⟨payload, serialized, small⟩ := fits
  rw [bare] at serialized
  cases serialized
  exact ⟨known, bare, small⟩

theorem Fits.frame_pos {message : Message} (fits : Fits pb message) :
    8 ≤ (Pipeline.frameOf pb message).length := by
  obtain ⟨payload, serialized, _small⟩ := fits
  rw [Fits.frame_eq serialized, frame_length]
  omega

end Codec

/-- What happened at the receiving end: a registration, or a message and what the dispatcher
did with it. -/
inductive Entry (Message Callback : Type) where
  | registered (registration : Dispatcher.Registration Callback)
  | handled (message : Message) (reply : Dispatcher.Reply Callback)

namespace Entry

variable {Message Callback : Type}

def registration? : Entry Message Callback → Option (Dispatcher.Registration Callback)
  | registered registration => some registration
  | handled _ _ => none

def message? : Entry Message Callback → Option Message
  | registered _ => none
  | handled message _ => some message

end Entry

/-- `messages` holds the messages of the sends under the numbers of their contexts; `log` is
history. -/
structure Crossing (Message Descriptor Callback : Type) where
  link : Link
  messages : List Message
  dispatcher : Dispatcher Descriptor Callback
  log : List (Entry Message Callback)

inductive CrossingEvent (Message Callback : Type) where
  | send (thread : Thread) (ret : Bool) (message : Message)
  | link (event : LinkEvent)
  | register (registration : Dispatcher.Registration Callback)
  | decode

namespace Crossing

variable {Message Descriptor Callback : Type}

def start (owner : Nat) : Crossing Message Descriptor Callback :=
  { link := Link.start owner true
    messages := []
    dispatcher := Dispatcher.new
    log := [] }

/-- The messages whose writes libuv has accepted. -/
def sent (c : Crossing Message Descriptor Callback) : List Message :=
  c.link.sender.accepted.filterMap (c.messages[·]?)

def handled (c : Crossing Message Descriptor Callback) : List Message :=
  c.log.filterMap Entry.message?

def registrations (c : Crossing Message Descriptor Callback) :
    List (Dispatcher.Registration Callback) :=
  c.log.filterMap Entry.registration?

/-- The messages that were sent and not yet handled. -/
def pending (c : Crossing Message Descriptor Callback) : List Message :=
  c.sent.drop c.handled.length

/-- The Buffer of the receiving connection. -/
def buffer (c : Crossing Message Descriptor Callback) : Buffer :=
  c.link.receiver.buffer

def register [DecidableEq Descriptor] (pool : DescriptorPool Message Descriptor)
    (c : Crossing Message Descriptor Callback)
    (registration : Dispatcher.Registration Callback) : Crossing Message Descriptor Callback :=
  { c with
    dispatcher := c.dispatcher.register pool registration
    log := c.log ++ [.registered registration] }

/-- The messageCallback_ calls `Codec::decode`, and `onMessage` with the message if that
returns CODEC_OK. -/
def decode (pb : Protobuf Message) (pool : DescriptorPool Message Descriptor)
    (c : Crossing Message Descriptor Callback) :
    Except Fault (Codec.Code × Crossing Message Descriptor Callback) := do
  let outcome ← Codec.decode pb c.buffer
  let receiver :=
    { c.link.receiver with
      buffer := outcome.buffer
      taken := c.link.receiver.taken + (c.buffer.readableBytes - outcome.buffer.readableBytes) }
  let link := { c.link with receiver := receiver }
  match outcome.code, outcome.message with
  | .ok, some message =>
      pure (.ok,
        { c with
          link := link
          log := c.log ++ [.handled message (c.dispatcher.onMessage pool message)] })
  | code, _ => pure (code, { c with link := link })

/-- What the connections do besides: the callback stays set, and only `decode` takes. -/
def Plain : LinkEvent → Prop
  | .send _ _ _ => False
  | .receiver (.take _) => False
  | .receiver (.setMessageCallback _) => False
  | _ => True

def Step [DecidableEq Descriptor] (pb : Protobuf Message)
    (pool : DescriptorPool Message Descriptor) (c : Crossing Message Descriptor Callback) :
    CrossingEvent Message Callback → Crossing Message Descriptor Callback → Prop
  | .send thread ret message, after => ∃ before buf object link, Represents before [] ∧
      Codec.encode pb message before = .ok (.ok, buf) ∧
      c.link.Step (.send thread ret (.buffer buf object)) link ∧
      after = { c with link := link, messages := c.messages ++ [message] }
  | .link event, after => Plain event ∧ ∃ link, c.link.Step event link ∧
      after = { c with link := link }
  | .register registration, after => after = c.register pool registration
  | .decode, after => c.link.receiver.running = true ∧
      ∃ code, c.decode pb pool = .ok (code, after)

def system [DecidableEq Descriptor] (pb : Protobuf Message)
    (pool : DescriptorPool Message Descriptor) (owner : Nat) :
    Transition.System (Crossing Message Descriptor Callback)
      (CrossingEvent Message Callback) where
  initial c := c = start owner
  step := Step pb pool

/-- The frames of the messages fit and their types are known at the other end; and `decode` is
called on a message with payload only before its frame is complete, for the stream it leaves
behind makes the Buffer unusable. -/
def Careful (pb : Protobuf Message) (c : Crossing Message Descriptor Callback) :
    CrossingEvent Message Callback → Prop
  | .send _ _ message => Codec.Fits pb message ∧ pb.knows (pb.getTypeName message) = true
  | .decode => ∀ message rest, c.pending = message :: rest →
      pb.appendToString message = some [] ∨
        c.buffer.readableBytes < (Pipeline.frameOf pb message).length
  | _ => True

/-! ### The invariant -/

structure Sound [DecidableEq Descriptor] (pb : Protobuf Message)
    (pool : DescriptorPool Message Descriptor) (c : Crossing Message Descriptor Callback) :
    Prop where
  link : c.link.Sound
  texts : c.link.texts = c.messages.map (Pipeline.frameOf pb)
  valid : ∀ message ∈ c.messages,
    Codec.Fits pb message ∧ pb.knows (pb.getTypeName message) = true
  set : c.link.receiver.messageCallback = true
  whole : c.link.receiver.lost = []
  front : c.handled <+: c.sent
  taken : c.link.receiver.taken = (c.handled.flatMap (Pipeline.frameOf pb)).length
  dispatcher : c.dispatcher = Dispatcher.registerAll pool c.registrations
  replies : ∀ before after message reply, c.log = before ++ .handled message reply :: after →
    reply = Dispatcher.wanted (pb.getTypeName message) (before.filterMap Entry.registration?)

section Invariant

variable [DecidableEq Descriptor] {pb : Protobuf Message}
variable {pool : DescriptorPool Message Descriptor} {c after : Crossing Message Descriptor Callback}

theorem sent_valid (sound : c.Sound pb pool) : ∀ message ∈ c.sent,
    Codec.Fits pb message ∧ pb.knows (pb.getTypeName message) = true := by
  intro message member
  obtain ⟨context, _accepted, found⟩ := List.mem_filterMap.mp member
  exact sound.valid message (List.mem_of_getElem? found)

theorem sent_split (sound : c.Sound pb pool) : c.sent = c.handled ++ c.pending := by
  obtain ⟨rest, split⟩ := sound.front
  rw [pending, ← split, List.drop_left]

/-- The bytes under way are the frames of the accepted messages. -/
theorem stream_eq (sound : c.Sound pb pool) :
    c.link.stream = c.sent.flatMap (Pipeline.frameOf pb) := by
  rw [sound.link.stream, sent, List.filterMap_eq_flatMap_toList, List.flatMap_assoc]
  congr 1
  funext context
  rw [Link.text, sound.texts, List.getElem?_map]
  cases c.messages[context]? with
  | none => rfl
  | some message => simp

/-- Without losses what can be read is a front of the frames of the pending messages. -/
theorem unread_prefix (sound : c.Sound pb pool) :
    c.link.receiver.pending <+: c.pending.flatMap (Pipeline.frameOf pb) := by
  have merged := sound.link.receiver.merged
  rw [sound.whole] at merged
  have arrived := sound.link.arrived
  rw [merged.eq_left, stream_eq sound, sent_split sound, List.flatMap_append] at arrived
  have dropped := arrived.drop c.link.receiver.taken
  rw [sound.taken, List.drop_left, ← sound.taken] at dropped
  exact dropped

theorem buffer_represents (sound : c.Sound pb pool) :
    Represents c.buffer c.link.receiver.pending :=
  sound.link.receiver.represents

theorem start_sound (owner : Nat) :
    (start owner : Crossing Message Descriptor Callback).Sound pb pool where
  link := Link.start_sound owner true
  texts := rfl
  valid := List.forall_mem_nil _
  set := rfl
  whole := rfl
  front := List.prefix_refl []
  taken := rfl
  dispatcher := rfl
  replies before after message reply split := by simp [start] at split

/-- An entry at the end of the log answers for itself. -/
theorem replies_append {log : List (Entry Message Callback)} {entry : Entry Message Callback}
    (old : ∀ before after message reply, log = before ++ .handled message reply :: after →
      reply = Dispatcher.wanted (pb.getTypeName message) (before.filterMap Entry.registration?))
    (new : ∀ message reply, entry = .handled message reply →
      reply = Dispatcher.wanted (pb.getTypeName message) (log.filterMap Entry.registration?)) :
    ∀ before after message reply, log ++ [entry] = before ++ .handled message reply :: after →
      reply = Dispatcher.wanted (pb.getTypeName message)
        (before.filterMap Entry.registration?) := by
  intro before after message reply split
  rcases List.eq_nil_or_concat after with rfl | ⟨init, last, rfl⟩
  · obtain ⟨rfl, same⟩ := List.append_inj' split rfl
    exact new message reply (List.singleton_inj.mp same)
  · rw [List.concat_eq_append, ← List.cons_append, ← List.append_assoc] at split
    exact old before init message reply (List.append_inj_left' split rfl)

/-- The front of the pending messages has arrived and was taken out. -/
theorem Sound.handle (sound : c.Sound pb pool) (lawful : pool.Lawful pb)
    (running : c.link.receiver.running = true) {message : Message} {rest : List Message}
    (next : c.pending = message :: rest) {tail : List Byte}
    (unread : c.link.receiver.pending = Pipeline.frameOf pb message ++ tail) {b : Buffer}
    (represents : Represents b tail) :
    ({ c with
        link := { c.link with
          receiver := { c.link.receiver with
            buffer := b
            taken := c.link.receiver.taken + (c.buffer.readableBytes - b.readableBytes) } }
        log := c.log ++ [.handled message (c.dispatcher.onMessage pool message)] } :
      Crossing Message Descriptor Callback).Sound pb pool := by
  have counted : c.buffer.readableBytes - b.readableBytes =
      (Pipeline.frameOf pb message).length := by
    rw [(buffer_represents sound).readable_eq, represents.readable_eq, unread,
      List.length_append]
    omega
  have split := sent_split sound
  rw [next] at split
  have known := (sent_valid sound message (by rw [split]; simp)).2
  have handled : (c.log ++ [Entry.handled message (c.dispatcher.onMessage pool message)]).filterMap
      Entry.message? = c.handled ++ [message] := by
    rw [List.filterMap_append]
    rfl
  rw [counted]
  constructor
  · refine { sound.link with receiver := ?_ }
    have receiver := sound.link.receiver
    have dropped : c.link.receiver.received.drop
        (c.link.receiver.taken + (Pipeline.frameOf pb message).length) = tail := by
      rw [← List.drop_drop]
      change c.link.receiver.pending.drop _ = tail
      rw [unread, List.drop_left]
    constructor
    · rw [← dropped] at represents
      exact represents
    · intro window asked
      have none := receiver.exclusive running
      rw [show c.link.receiver.window = some window from asked] at none
      cases none
    · exact receiver.exclusive
    · have lengths := congrArg List.length unread
      rw [Receiver.pending, List.length_drop, List.length_append] at lengths
      have within := receiver.taken
      change c.link.receiver.taken + _ ≤ c.link.receiver.received.length
      omega
    · exact receiver.merged
  · exact sound.texts
  · exact sound.valid
  · exact sound.set
  · exact sound.whole
  · change (c.log ++ [Entry.handled message _]).filterMap Entry.message? <+: c.sent
    rw [handled, split]
    exact ⟨rest, by simp⟩
  · change c.link.receiver.taken + _ =
      (((c.log ++ [Entry.handled message _]).filterMap Entry.message?).flatMap _).length
    rw [handled, List.flatMap_append, List.length_append, sound.taken, List.flatMap_singleton]
  · change c.dispatcher = Dispatcher.registerAll pool (List.filterMap _ (c.log ++ _))
    rw [List.filterMap_append, sound.dispatcher]
    exact congrArg (Dispatcher.registerAll pool) (List.append_nil _).symm
  · apply replies_append sound.replies
    rintro other reply same
    cases same
    rw [sound.dispatcher]
    exact Dispatcher.onMessage_registerAll lawful known c.registrations

/-- Where nothing is pending, nothing can be read. -/
theorem unread_pending (sound : c.Sound pb pool) (unread : 0 < c.buffer.readableBytes) :
    ∃ message rest, c.pending = message :: rest := by
  cases next : c.pending with
  | nil =>
      have front := unread_prefix sound
      rw [next, List.flatMap_nil, List.prefix_nil] at front
      rw [(buffer_represents sound).readable_eq, front] at unread
      cases unread
  | cons message rest => exact ⟨message, rest, rfl⟩

/-- A whole frame in front. -/
theorem unread_frame (sound : c.Sound pb pool) {message : Message} {rest : List Message}
    (next : c.pending = message :: rest)
    (whole : (Pipeline.frameOf pb message).length ≤ c.buffer.readableBytes) :
    ∃ tail, c.link.receiver.pending = Pipeline.frameOf pb message ++ tail := by
  have front := unread_prefix sound
  rw [next, List.flatMap_cons] at front
  rw [(buffer_represents sound).readable_eq] at whole
  obtain ⟨tail, split⟩ := List.prefix_of_prefix_length_le (List.prefix_append _ _) front whole
  exact ⟨tail, split.symm⟩

theorem decode_sound (sound : c.Sound pb pool) (lawful : pb.Lawful) (named : pool.Lawful pb)
    (careful : Careful pb c (.decode : CrossingEvent Message Callback))
    (running : c.link.receiver.running = true) {code : Codec.Code}
    (decoded : c.decode pb pool = .ok (code, after)) : after.Sound pb pool := by
  have represents := buffer_represents sound
  have readable := represents.readable_eq
  obtain ⟨outcome, hDecode, decoded⟩ := ok_of_bind decoded
  by_cases short : c.buffer.readableBytes < 4
  · rw [Codec.decode_short pb represents (readable ▸ short)] at hDecode
    cases hDecode
  · obtain ⟨message, rest, next⟩ := unread_pending sound (by omega)
    have split := sent_split sound
    rw [next] at split
    obtain ⟨fits, known⟩ := sent_valid sound message (by rw [split]; simp)
    by_cases incomplete : c.buffer.readableBytes < (Pipeline.frameOf pb message).length
    · have front := unread_prefix sound
      rw [next, List.flatMap_cons] at front
      rw [Codec.decode_partial represents fits front (by omega) (by omega)] at hDecode
      cases hDecode
      cases decoded
      rw [Nat.sub_self]
      exact sound
    · obtain ⟨tail, unread⟩ := unread_frame sound next (by omega)
      have bare := (careful message rest next).resolve_right incomplete
      rw [unread] at represents
      obtain ⟨same, hSame, isOk, found, left⟩ :=
        Pipeline.decode_payloadless lawful (fits.small known bare) represents
      rw [hDecode] at hSame
      cases hSame
      rw [isOk, found] at decoded
      cases decoded
      exact sound.handle named running next unread left

/-! ### The other steps -/

theorem perform_plain {r following : Receiver} {event : ReadEvent} (plain : Plain (.receiver event))
    (set : r.messageCallback = true) (performed : r.perform event = .ok following) :
    following.messageCallback = true ∧ following.lost = r.lost ∧ following.taken = r.taken := by
  cases event with
  | setMessageCallback set => cases plain
  | take taking => cases plain
  | data bytes =>
      change r.readCallback bytes = .ok following at performed
      unfold Receiver.readCallback at performed
      split at performed
      · cases performed
      · obtain ⟨filled, _hFill, performed⟩ := ok_of_bind performed
        rw [if_pos set] at performed
        obtain ⟨extended, _hExtend, performed⟩ := ok_of_bind performed
        cases performed
        exact ⟨set, rfl, rfl⟩
  | alloc =>
      obtain ⟨⟨buffer, window⟩, _hNext, performed⟩ := ok_of_bind performed
      cases performed
      exact ⟨set, rfl, rfl⟩
  | error | eof | finish =>
      cases performed
      exact ⟨set, rfl, rfl⟩

/-- The receiver keeps its callback, loses nothing and takes nothing. -/
theorem receiver_plain {l following : Link} {event : LinkEvent}
    (plain : Plain event ∨ ∃ thread ret payload, event = .send thread ret payload)
    (set : l.receiver.messageCallback = true) (taken : l.Step event following) :
    following.receiver.messageCallback = true ∧
      following.receiver.lost = l.receiver.lost ∧
      following.receiver.taken = l.receiver.taken := by
  cases event with
  | send thread ret payload =>
      obtain ⟨bytes, _transmitted, moved⟩ := taken
      obtain ⟨sender, _taken, result⟩ := Option.map_eq_some_iff.mp moved
      cases result
      exact ⟨set, rfl, rfl⟩
  | sender event =>
      obtain ⟨sender, _taken, result⟩ := Option.map_eq_some_iff.mp taken.2
      cases result
      exact ⟨set, rfl, rfl⟩
  | receiver event =>
      obtain ⟨_other, receiver, step, rfl⟩ := taken
      rcases plain with plain | ⟨thread, ret, payload, impossible⟩
      · exact perform_plain plain set step.2
      · cases impossible
  | deliver count =>
      obtain ⟨receiver, step, rfl⟩ := taken
      have plain : Plain (.receiver (.data (l.next count))) := trivial
      exact perform_plain plain set step.2

/-- What libuv has accepted stays accepted. -/
theorem accepted_grows {l following : Link} {event : LinkEvent} (taken : l.Step event following) :
    l.sender.accepted <+: following.sender.accepted := by
  have moves {l following : Link} {event : Event} (moved : l.move event = some following) :
      l.sender.accepted <+: following.sender.accepted := by
    obtain ⟨sender, taken, result⟩ := Option.map_eq_some_iff.mp moved
    obtain ⟨conn, _moved, same⟩ := Option.map_eq_some_iff.mp taken
    cases result
    cases same
    exact List.prefix_append _ _
  cases event with
  | send thread ret payload =>
      obtain ⟨bytes, _transmitted, moved⟩ := taken
      exact moves (l := { l with texts := l.texts ++ [bytes] }) moved
  | sender event => exact moves taken.2
  | receiver event =>
      obtain ⟨_other, receiver, _step, rfl⟩ := taken
      exact List.prefix_refl _
  | deliver count =>
      obtain ⟨receiver, _step, rfl⟩ := taken
      exact List.prefix_refl _

/-- A message that is encoded into a Buffer without content goes out as its frame. -/
theorem send_frame (lawful : pb.Lawful) {message : Message} (fits : Codec.Fits pb message)
    {before buf : Buffer} (empty : Represents before [])
    (encoded : Codec.encode pb message before = .ok (.ok, buf)) (object : Nat) :
    (Payload.buffer buf object).transmitted = .ok (Pipeline.frameOf pb message) := by
  obtain ⟨payload, serialized, _small⟩ := id fits
  obtain ⟨same, hSame, represents⟩ :=
    Pipeline.encode_completes lawful empty message (by rw [serialized]; rfl)
  rw [encoded] at hSame
  cases hSame
  rw [List.nil_append] at represents
  have long := fits.frame_pos
  have some : buf.list.nodes ≠ [] :=
    Receiver.occupied_of_readable represents (by rw [represents.readable_eq]; omega)
  obtain ⟨context, sent, _buffer, _represents, transmitted, _⟩ :=
    sendBuffer_occupied represents some object
  rw [Payload.transmitted, sent]
  exact transmitted

/-- More messages and more accepted writes only add to what was sent. -/
theorem sent_grows (sound : c.Sound pb pool) {link : Link} (messages : List Message)
    (grown : c.link.sender.accepted <+: link.sender.accepted) :
    c.sent <+: ({ c with link := link, messages := c.messages ++ messages } :
      Crossing Message Descriptor Callback).sent := by
  obtain ⟨more, split⟩ := grown
  have old : c.sent = c.link.sender.accepted.filterMap ((c.messages ++ messages)[·]?) := by
    apply List.filterMap_congr
    intro context accepted
    have numbered := Link.accepted_lt (Traffic.reachable_ordered sound.link.sender) context accepted
    rw [← sound.link.numbered, sound.texts, List.length_map] at numbered
    exact (List.getElem?_append_left numbered).symm
  rw [old, sent, ← split, List.filterMap_append]
  exact List.prefix_append _ _

theorem Sound.step (sound : c.Sound pb pool) (lawful : pb.Lawful) (named : pool.Lawful pb)
    {event : CrossingEvent Message Callback} (careful : c.Careful pb event)
    (taken : c.Step pb pool event after) : after.Sound pb pool := by
  cases event with
  | send thread ret message =>
      obtain ⟨before, buf, object, link, empty, encoded, step, rfl⟩ := taken
      obtain ⟨set, lost, counted⟩ :=
        receiver_plain (.inr ⟨thread, ret, _, rfl⟩) sound.set step
      have texts : link.texts = c.link.texts ++ [Pipeline.frameOf pb message] := by
        obtain ⟨bytes, transmitted, moved⟩ := step
        rw [send_frame lawful careful.1 empty encoded object] at transmitted
        cases transmitted
        obtain ⟨sender, _taken, result⟩ := Option.map_eq_some_iff.mp moved
        cases result
        rfl
      exact
        { sound with
          link := sound.link.step step
          texts := by rw [texts, sound.texts, List.map_append]; rfl
          valid := by
            intro other member
            rcases List.mem_append.mp member with old | new
            · exact sound.valid other old
            · rw [List.mem_singleton.mp new]
              exact careful
          set := set
          whole := lost.trans sound.whole
          front := sound.front.trans (sent_grows sound [message] (accepted_grows step))
          taken := counted.trans sound.taken }
  | link event =>
      obtain ⟨plain, link, step, rfl⟩ := taken
      obtain ⟨set, lost, counted⟩ := receiver_plain (.inl plain) sound.set step
      have unsent : ∀ thread ret payload, event ≠ .send thread ret payload := by
        rintro thread ret payload rfl
        cases plain
      have more := sent_grows sound [] (accepted_grows step)
      rw [List.append_nil] at more
      exact
        { sound with
          link := sound.link.step step
          texts := (Link.quiet_step step unsent).1.trans sound.texts
          set := set
          whole := lost.trans sound.whole
          front := sound.front.trans more
          taken := counted.trans sound.taken }
  | register registration =>
      cases taken
      have handled : (c.register pool registration).handled = c.handled := by
        rw [Crossing.handled, register, List.filterMap_append]
        exact List.append_nil _
      have registered : (c.register pool registration).registrations =
          c.registrations ++ [registration] := by
        rw [registrations, register, List.filterMap_append]
        rfl
      exact
        { sound with
          front := handled ▸ sound.front
          taken := handled ▸ sound.taken
          dispatcher := by
            rw [registered, Dispatcher.registerAll_append, ← sound.dispatcher]
            rfl
          replies := replies_append sound.replies (by rintro message reply ⟨⟩) }
  | decode =>
      obtain ⟨running, code, decoded⟩ := taken
      exact decode_sound sound lawful named careful running decoded

theorem reachable_sound (lawful : pb.Lawful) (named : pool.Lawful pb) {owner : Nat}
    (reachable : Transition.Reachable ((system pb pool owner).restrict (Careful pb)) c) :
    c.Sound pb pool := by
  induction reachable with
  | start begins =>
      cases begins
      exact start_sound owner
  | next _before taken ih => exact ih.step lawful named taken.1 taken.2

end Invariant

end Crossing

/-- **Messages over a connection.** In every run the dispatcher has been given a front of the
sent messages, each once and in the order of the writes, and has answered each as the
registrations before it say.  With less than a length field in the Buffer `decode` fails; with
a part of the next frame it leaves the Buffer alone; and with the whole frame it returns the
next message, if that has no payload or nothing has arrived behind it. -/
theorem messages_cross {Message Descriptor Callback : Type} [DecidableEq Descriptor]
    {pb : Protobuf Message} (lawful : pb.Lawful) {pool : DescriptorPool Message Descriptor}
    (named : pool.Lawful pb) {owner : Nat} {c : Crossing Message Descriptor Callback}
    (reachable : Transition.Reachable
      ((Crossing.system pb pool owner).restrict (Crossing.Careful pb)) c) :
    c.sent = c.handled ++ c.pending ∧
      (∀ before after message reply, c.log = before ++ .handled message reply :: after →
        reply = Dispatcher.wanted (pb.getTypeName message)
          (before.filterMap Entry.registration?)) ∧
      (c.buffer.readableBytes < 4 → Codec.decode pb c.buffer = .error .assertion) ∧
      (4 ≤ c.buffer.readableBytes → ∃ message rest, c.pending = message :: rest ∧
        (c.buffer.readableBytes < (Pipeline.frameOf pb message).length →
          Codec.decode pb c.buffer = .ok ⟨.unable, none, c.buffer, 0, []⟩) ∧
        ((Pipeline.frameOf pb message).length ≤ c.buffer.readableBytes →
          pb.appendToString message = some [] ∨
            c.buffer.readableBytes = (Pipeline.frameOf pb message).length →
          ∃ outcome, Codec.decode pb c.buffer = .ok outcome ∧ outcome.code = .ok ∧
            outcome.message = some message)) := by
  have sound := Crossing.reachable_sound lawful named reachable
  have represents := Crossing.buffer_represents sound
  have readable := represents.readable_eq
  have split := Crossing.sent_split sound
  refine ⟨split, sound.replies, ?_, ?_⟩
  · intro short
    exact Codec.decode_short pb represents (readable ▸ short)
  · intro enough
    obtain ⟨message, rest, next⟩ := Crossing.unread_pending sound (by omega)
    rw [next] at split
    obtain ⟨fits, known⟩ := Crossing.sent_valid sound message (by rw [split]; simp)
    refine ⟨message, rest, next, ?_, ?_⟩
    · intro incomplete
      have front := Crossing.unread_prefix sound
      rw [next, List.flatMap_cons] at front
      exact Codec.decode_partial represents fits front (by omega) (by omega)
    · intro whole kind
      obtain ⟨tail, unread⟩ := Crossing.unread_frame sound next whole
      rw [unread] at represents
      rcases kind with bare | alone
      · obtain ⟨outcome, hDecode, isOk, found, _left⟩ :=
          Pipeline.decode_payloadless lawful (fits.small known bare) represents
        exact ⟨outcome, hDecode, isOk, found⟩
      · rw [readable, unread, List.length_append] at alone
        have nothing : tail = [] := List.eq_nil_of_length_eq_zero (by omega)
        rw [nothing, List.append_nil] at represents
        exact Codec.decode_alone lawful fits known represents

namespace Crossing

section Arrival

variable {Message Descriptor Callback : Type} [DecidableEq Descriptor] {pb : Protobuf Message}
variable {pool : DescriptorPool Message Descriptor} {owner : Nat}
variable {c : Crossing Message Descriptor Callback}

/-- The receiver waits between two reads. -/
def Idle (c : Crossing Message Descriptor Callback) : Prop :=
  c.link.receiver.reading = true ∧ c.link.receiver.running = false ∧
    c.link.receiver.window = none

/-- The next byte arrives, the callback leaves it, and the receiver waits again. -/
theorem exists_byte (sound : c.Sound pb pool) (idle : c.Idle)
    (more : c.link.receiver.arrived.length < c.link.stream.length)
    (reachable : Transition.Reachable
      ((system pb pool owner).restrict (Careful pb)) c) :
    ∃ receiver, Transition.Reachable ((system pb pool owner).restrict (Careful pb))
        { c with link := { c.link with receiver := receiver } } ∧
      receiver.reading = true ∧ receiver.running = false ∧ receiver.window = none ∧
      receiver.arrived.length = c.link.receiver.arrived.length + 1 := by
  obtain ⟨reading, quiet, none⟩ := idle
  obtain ⟨ahead, split⟩ := sound.link.arrived
  obtain ⟨byte, rest, rfl⟩ : ∃ byte rest, ahead = byte :: rest := by
    cases ahead with
    | nil =>
        rw [← split, List.append_nil] at more
        exact absurd more (Nat.lt_irrefl _)
    | cons byte rest => exact ⟨byte, rest, rfl⟩
  obtain ⟨asked, after, asks, reads, same, afterEq⟩ :=
    sound.link.receiver.exists_read reading quiet none byte
  have nextByte : ({ c.link with receiver := asked } : Link).next 1 = [byte] := by
    simp only [Link.next, same, ← split, List.drop_left]
    rfl
  have allocates : ((system pb pool owner).restrict (Careful pb)).step c (.link (.receiver .alloc))
      { c with link := { c.link with receiver := asked } } :=
    ⟨trivial, trivial, _, ⟨by rintro bytes ⟨⟩, asked, asks, rfl⟩, rfl⟩
  have delivers : ((system pb pool owner).restrict (Careful pb)).step
      { c with link := { c.link with receiver := asked } } (.link (.deliver 1))
      { c with link := { c.link with receiver := after } } :=
    ⟨trivial, trivial, _, ⟨after, by rw [nextByte]; exact reads, rfl⟩, rfl⟩
  have running : after.running = true := by
    rw [afterEq]
    exact sound.set
  have finishes : ((system pb pool owner).restrict (Careful pb)).step
      { c with link := { c.link with receiver := after } } (.link (.receiver .finish))
      { c with link := { c.link with receiver := { after with running := false } } } :=
    ⟨trivial, trivial, _, ⟨by rintro bytes ⟨⟩, _, ⟨running, rfl⟩, rfl⟩, rfl⟩
  refine ⟨{ after with running := false },
    ((reachable.next allocates).next delivers).next finishes, ?_⟩
  rw [afterEq]
  exact ⟨reading, rfl, none, by simp⟩

/-- All that libuv has accepted can arrive. -/
theorem exists_arrival (lawful : pb.Lawful) (named : pool.Lawful pb) (count : Nat) :
    ∀ {c : Crossing Message Descriptor Callback}, Transition.Reachable
        ((system pb pool owner).restrict (Careful pb)) c → c.Idle →
      c.link.stream.length = c.link.receiver.arrived.length + count →
      ∃ receiver, Transition.Reachable ((system pb pool owner).restrict (Careful pb))
          { c with link := { c.link with receiver := receiver } } ∧
        receiver.arrived.length = c.link.stream.length := by
  induction count with
  | zero =>
      intro c reachable _idle all
      exact ⟨c.link.receiver, reachable, all.symm⟩
  | succ count ih =>
      intro c reachable idle all
      have sound := reachable_sound lawful named reachable
      obtain ⟨receiver, moved, reading, quiet, none, counted⟩ :=
        exists_byte sound idle (by omega) reachable
      apply ih moved ⟨reading, quiet, none⟩
      change c.link.stream.length = receiver.arrived.length + count
      omega

end Arrival

/-- A connection over which the loop thread has sent a message. -/
def oneSent (callback : Nat) : Crossing (List Byte) (List Byte) Nat :=
  { link :=
      { Link.start 0 true with
        sender :=
          { conn := TcpConnection.accepted.send .loop true
            users := []
            loop := [0]
            accepted := [0] }
        texts := [[0, 0, 0, 6, 0, 0, 0, 1, 84, 7]]
        stream := [0, 0, 0, 6, 0, 0, 0, 1, 84, 7] }
    messages := [[7]]
    dispatcher := Dispatcher.new.register (DescriptorPool.named Protobuf.echo)
      (.setDefaultCallback (some callback))
    log := [.registered (.setDefaultCallback (some callback))] }

theorem oneSent_reachable (callback : Nat) : Transition.Reachable
    ((system Protobuf.echo (DescriptorPool.named Protobuf.echo) 0).restrict
      (Careful Protobuf.echo)) (oneSent callback) := by
  have fits : Codec.Fits Protobuf.echo [7] := ⟨[7], rfl, by decide⟩
  obtain ⟨buf, encoded, _represents⟩ := Pipeline.encode_completes Protobuf.echo_lawful
    (Session.new_represents 1) [7] rfl
  have transmitted :=
    send_frame Protobuf.echo_lawful fits (Session.new_represents 1) encoded 2
  have sends : ((system Protobuf.echo (DescriptorPool.named Protobuf.echo) 0).restrict
      (Careful Protobuf.echo)).step
      ((start 0).register (DescriptorPool.named Protobuf.echo)
        (.setDefaultCallback (some callback)))
      (.send .loop true [7]) (oneSent callback) :=
    ⟨⟨fits, rfl⟩, Buffer.new 1, buf, 2, _, Session.new_represents 1, encoded,
      ⟨_, transmitted, rfl⟩, rfl⟩
  have registers : ((system Protobuf.echo (DescriptorPool.named Protobuf.echo) 0).restrict
      (Careful Protobuf.echo)).step (start 0)
      (.register (.setDefaultCallback (some callback)))
      ((start 0).register (DescriptorPool.named Protobuf.echo)
        (.setDefaultCallback (some callback))) :=
    ⟨trivial, rfl⟩
  exact ((Transition.Reachable.start rfl).next registers).next sends

end Crossing

/-- A message with a payload arrives byte by byte and is decoded. -/
theorem messages_cross_byte : ∃ c : Crossing (List Byte) (List Byte) Nat,
    c.handled = [] ∧ c.pending = [[7]] ∧ ∃ outcome,
      Codec.decode Protobuf.echo c.buffer = .ok outcome ∧ outcome.code = .ok ∧
        outcome.message = some [7] := by
  have named := DescriptorPool.named_lawful Protobuf.echo
  obtain ⟨receiver, reachable, all⟩ := Crossing.exists_arrival Protobuf.echo_lawful named 10
    (Crossing.oneSent_reachable 5) ⟨rfl, rfl, rfl⟩ rfl
  have sound := Crossing.reachable_sound Protobuf.echo_lawful named reachable
  have counted : receiver.buffer.readableBytes = 10 := by
    have merged := sound.link.receiver.merged
    rw [sound.whole] at merged
    have readable := sound.link.receiver.readable
    rw [← merged.eq_left, sound.taken] at readable
    rw [readable]
    exact all
  obtain ⟨_split, _replies, _short, decodes⟩ :=
    messages_cross Protobuf.echo_lawful named reachable
  obtain ⟨message, rest, next, _incomplete, whole⟩ := decodes (by
    change 4 ≤ receiver.buffer.readableBytes
    omega)
  have pending : (Crossing.oneSent 5).pending = [[7]] := rfl
  obtain ⟨rfl, rfl⟩ := List.cons.inj (next.symm.trans pending)
  exact ⟨_, rfl, next, whole (Nat.le_of_eq counted.symm) (.inr counted)⟩

end Uvcpp
