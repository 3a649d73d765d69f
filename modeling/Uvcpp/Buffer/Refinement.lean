/-
A Buffer refines a byte string.

A session is a Buffer with the window its last `next` handed out, if nothing
happened since.  Every operation a client may issue completes without a fault
and acts on the represented byte string as its abstract counterpart does.
-/

import Uvcpp.Library.Transition
import Uvcpp.Buffer.Consuming
import Uvcpp.Buffer.Frame
import Uvcpp.Buffer.Windows

namespace Uvcpp

open LinkedList

/-- One call on a Buffer.  `extend` carries the bytes the caller has written into
the window of the `next` before it. -/
inductive Op where
  | append (bytes : List Byte)
  | prepend (bytes : List Byte)
  | discard (len : Nat)
  | retrieveAsString (len : Nat)
  | discardAll
  | next
  | extend (bytes : List Byte)
  | unwrite (len : Nat)

namespace Op

/-- The length argument of a call. -/
def length : Op → Nat
  | .append bytes => bytes.length
  | .prepend bytes => bytes.length
  | .discard len => len
  | .retrieveAsString len => len
  | .discardAll => 0
  | .next => 0
  | .extend bytes => bytes.length
  | .unwrite len => len

/-- The abstract counterpart of a call: concatenate, or drop a prefix or suffix. -/
def effect (content : List Byte) : Op → List Byte
  | .append bytes => content ++ bytes
  | .prepend bytes => bytes ++ content
  | .discard len => content.drop len
  | .retrieveAsString len => content.drop len
  | .discardAll => []
  | .next => content
  | .extend bytes => content ++ bytes
  | .unwrite len => content.take (content.length - len)

/-- How much a call takes from the front. -/
def discards : Op → Option Nat
  | .discard len => some len
  | .retrieveAsString len => some len
  | _ => none

end Op

structure Session where
  buffer : Buffer
  window : Option Window
  spent : Nat

namespace Session

/-- A session that starts on an existing Buffer. -/
def start (b : Buffer) : Session :=
  { buffer := b
    window := none
    spent := 0 }

def new (owner : Nat) : Session := start (Buffer.new owner)

/-- The Buffer and the window after a call. -/
def run (s : Session) : Op → Except Fault (Buffer × Option Window)
  | .append bytes => do
      let b ← s.buffer.append bytes
      pure (b, none)
  | .prepend bytes => do
      let b ← s.buffer.prepend bytes
      pure (b, none)
  | .discard len => do
      let b ← s.buffer.discard len
      pure (b, none)
  | .retrieveAsString len => do
      let (_, b) ← s.buffer.retrieveAsString len
      pure (b, none)
  | .discardAll => pure (s.buffer.discardAll, none)
  | .next => do
      let (b, window) ← s.buffer.next
      pure (b, some window)
  | .extend bytes =>
      match s.window with
      | some window => do
          let filled ← s.buffer.fillWindow window bytes
          let b ← filled.extend bytes.length
          pure (b, none)
      | none => .error .outOfBounds
  | .unwrite len => do
      let b ← s.buffer.unwrite len
      pure (b, none)

def perform (s : Session) (op : Op) : Except Fault Session := do
  let (buffer, window) ← s.run op
  pure
    { buffer := buffer
      window := window
      spent := s.spent + op.length }

/-- What a caller has to respect: arguments inside the readable bytes, `extend`
only into the window of a directly preceding `next`, `unwrite` only into the
last used block, and all lengths together below 2^63. -/
def Legal (s : Session) (op : Op) : Prop :=
  s.spent + op.length < Buffer.maxLength ∧
    match op with
    | .discard len => len ≤ s.buffer.readableBytes
    | .retrieveAsString len => len ≤ s.buffer.readableBytes
    | .extend bytes => ∃ window, s.window = some window ∧ bytes.length ≤ window.length
    | .unwrite len => ∃ value, s.buffer.block s.buffer.lastWithData = .ok value ∧
        len ≤ value.readableBytes
    | _ => True

/-- One legal call on a session, paired with its effect on the byte string. -/
def Step (state : Session × List Byte) (op : Op) (after : Session × List Byte) : Prop :=
  state.1.Legal op ∧ state.1.perform op = .ok after.1 ∧ after.2 = op.effect state.2

/-- Sessions on a Buffer that stands for `content`, paired with the byte string
their calls have built up. -/
def systemFrom (b : Buffer) (content : List Byte) :
    Transition.System (Session × List Byte) Op where
  initial state := state = (start b, content)
  step := Step

def system (owner : Nat) : Transition.System (Session × List Byte) Op :=
  systemFrom (Buffer.new owner) []

/-- The Buffer stands for the content, and an outstanding window is the one the
Buffer offers. -/
def Sound (s : Session) (content : List Byte) : Prop :=
  Represents s.buffer content ∧ ∀ window, s.window = some window →
    Offers s.buffer window content

theorem new_represents (owner : Nat) : Represents (Buffer.new owner) [] :=
  .vacant rfl rfl rfl rfl rfl

/-- One call: it completes, and the invariant holds of its effect. -/
theorem run_spec {s : Session} {content : List Byte} (sound : s.Sound content) {op : Op}
    (legal : s.Legal op) :
    ∃ buffer window, s.run op = .ok (buffer, window) ∧
      Represents buffer (op.effect content) ∧
      ∀ offered, window = some offered → Offers buffer offered (op.effect content) := by
  obtain ⟨represents, offered⟩ := sound
  obtain ⟨budget, argument⟩ := legal
  have noWindow : ∀ (buffer : Buffer) (content : List Byte) (offered : Window),
      none = some offered → Offers buffer offered content := by
    intro buffer content offered impossible
    cases impossible
  have counted := represents.readable_eq
  cases op with
  | append bytes =>
      obtain ⟨b, hAppend, after⟩ := Buffer.append_spec represents bytes
        (by rw [Op.length] at budget; omega)
      exact ⟨b, none, by simp only [run, hAppend, ok_bind]; rfl, after, noWindow b _⟩
  | prepend bytes =>
      obtain ⟨b, hPrepend, after⟩ := Buffer.prepend_spec represents bytes
        (by rw [Op.length] at budget; omega)
      exact ⟨b, none, by simp only [run, hPrepend, ok_bind]; rfl, after, noWindow b _⟩
  | discard len =>
      obtain ⟨b, hDiscard, after, _trimmed⟩ :=
        Buffer.discard_spec represents (counted ▸ argument)
      exact ⟨b, none, by simp only [run, hDiscard, ok_bind]; rfl, after, noWindow b _⟩
  | retrieveAsString len =>
      obtain ⟨b, hRetrieve, after, _trimmed⟩ :=
        Buffer.retrieveAsString_spec represents (counted ▸ argument)
      exact ⟨b, none, by simp only [run, hRetrieve, ok_bind]; rfl, after, noWindow b _⟩
  | discardAll =>
      exact ⟨s.buffer.discardAll, none, rfl, Buffer.discardAll_spec s.buffer, noWindow _ _⟩
  | next =>
      obtain ⟨b, window, hNext, offers⟩ := Buffer.next_spec represents
      refine ⟨b, some window, by simp only [run, hNext, ok_bind]; rfl, offers.represents, ?_⟩
      intro other same
      rw [← Option.some.inj same]
      exact offers
  | extend bytes =>
      obtain ⟨window, hWindow, room⟩ := argument
      obtain ⟨filled, b, hFill, hExtend, after⟩ :=
        Buffer.extend_spec (offered window hWindow) room
      refine ⟨b, none, ?_, after, noWindow b _⟩
      simp only [run, hWindow, hFill, ok_bind, hExtend]
      rfl
  | unwrite len =>
      obtain ⟨value, reached, enough⟩ := argument
      obtain ⟨b, hUnwrite, after⟩ := Buffer.unwrite_spec represents reached enough
      exact ⟨b, none, by simp only [run, hUnwrite, ok_bind]; rfl, after, noWindow b _⟩

theorem perform_spec {s : Session} {content : List Byte} (sound : s.Sound content) {op : Op}
    (legal : s.Legal op) :
    ∃ s', s.perform op = .ok s' ∧ s'.Sound (op.effect content) := by
  obtain ⟨buffer, window, hRun, represents, offered⟩ := run_spec sound legal
  refine ⟨⟨buffer, window, s.spent + op.length⟩, ?_, represents, offered⟩
  simp only [perform, hRun, ok_bind]
  rfl

theorem start_sound {b : Buffer} {content : List Byte} (represents : Represents b content) :
    (start b).Sound content :=
  ⟨represents, by intro window impossible; cases impossible⟩

theorem step_sound {state after : Session × List Byte} {op : Op}
    (sound : state.1.Sound state.2) (step : Step state op after) : after.1.Sound after.2 := by
  rcases step with ⟨legal, hPerform, effectEq⟩
  rcases perform_spec sound legal with ⟨s', hSame, sound'⟩
  rw [hPerform] at hSame
  rw [effectEq, Except.ok.inj hSame]
  exact sound'

theorem reachable_sound {b : Buffer} {content : List Byte} (represents : Represents b content)
    {state : Session × List Byte}
    (reachable : Transition.Reachable (systemFrom b content) state) :
    state.1.Sound state.2 := by
  induction reachable with
  | start begins =>
      rw [begins]
      exact start_sound represents
  | next _before taken ih =>
      exact step_sound ih taken

/-- The Buffer of a session stands for what its calls have built up. -/
theorem reachable_represents {owner : Nat} {state : Session × List Byte}
    (reachable : Transition.Reachable (system owner) state) :
    Represents state.1.buffer state.2 :=
  (reachable_sound (new_represents owner) reachable).1

/-- A call adds no more bytes than its argument has. -/
theorem effect_length (content : List Byte) (op : Op) :
    (op.effect content).length ≤ content.length + op.length := by
  cases op with
  | append bytes => exact Nat.le_of_eq List.length_append
  | prepend bytes => exact Nat.le_of_eq (List.length_append.trans (Nat.add_comm _ _))
  | discard len => exact Nat.le_add_right_of_le (List.drop_sublist len content).length_le
  | retrieveAsString len => exact Nat.le_add_right_of_le (List.drop_sublist len content).length_le
  | discardAll => exact Nat.zero_le _
  | next => exact Nat.le_refl _
  | extend bytes => exact Nat.le_of_eq List.length_append
  | unwrite len => exact Nat.le_add_right_of_le (List.take_sublist _ content).length_le

/-- The content is no longer than what has been spent on it. -/
theorem reachable_small {owner : Nat} {state : Session × List Byte}
    (reachable : Transition.Reachable (system owner) state) :
    state.2.length ≤ state.1.spent ∧ state.1.spent < Buffer.maxLength := by
  induction reachable with
  | start begins =>
      rw [begins]
      exact ⟨Nat.le_refl _, Nat.two_pow_pos 63⟩
  | @next state after op _before taken ih =>
      rcases taken with ⟨legal, hPerform, effectEq⟩
      rcases ok_of_bind hPerform with ⟨⟨buffer, window⟩, _hRun, hPerform⟩
      rw [← Except.ok.inj hPerform, effectEq]
      refine ⟨?_, legal.1⟩
      exact Nat.le_trans (effect_length state.2 op) (Nat.add_le_add_right ih.1 op.length)

/-- A session that has appended to a fresh Buffer. -/
theorem appended_reachable {owner : Nat} {bytes : List Byte}
    (legal : (new owner).Legal (.append bytes)) :
    ∃ s', (new owner).perform (.append bytes) = .ok s' ∧
      Transition.Reachable (system owner) (s', bytes) := by
  have fresh : Transition.Reachable (system owner) (new owner, []) := .start rfl
  have sound := start_sound (new_represents owner)
  rcases perform_spec sound legal with ⟨s', hPerform, _sound⟩
  exact ⟨s', hPerform, fresh.next ⟨legal, hPerform, rfl⟩⟩

/-! ### Where the nodes of a session come from -/

/-- What a call does to the blocks: edit them, discard from the front, or drop them all. -/
theorem run_cases {s : Session} {op : Op} {buffer : Buffer} {window : Option Window}
    (hRun : s.run op = .ok (buffer, window)) :
    (op.discards = none ∧ Buffer.Edits s.buffer buffer) ∨
      (∃ len, op.discards = some len ∧ s.buffer.discard len = .ok buffer) ∨
        (op.discards = none ∧ buffer = s.buffer.discardAll) := by
  cases op with
  | append bytes =>
      rcases ok_of_bind hRun with ⟨b, hAppend, hRun⟩
      cases hRun
      exact .inl ⟨rfl, Buffer.append_edits hAppend⟩
  | prepend bytes =>
      rcases ok_of_bind hRun with ⟨b, hPrepend, hRun⟩
      cases hRun
      exact .inl ⟨rfl, Buffer.prepend_edits hPrepend⟩
  | discard len =>
      rcases ok_of_bind hRun with ⟨b, hDiscard, hRun⟩
      cases hRun
      exact .inr (.inl ⟨len, rfl, hDiscard⟩)
  | retrieveAsString len =>
      rcases ok_of_bind hRun with ⟨⟨str, b⟩, hRetrieve, hRun⟩
      cases hRun
      exact .inr (.inl ⟨len, rfl, Buffer.retrieveAsString_discard hRetrieve⟩)
  | discardAll =>
      cases hRun
      exact .inr (.inr ⟨rfl, rfl⟩)
  | next =>
      rcases ok_of_bind hRun with ⟨⟨b, offered⟩, hNext, hRun⟩
      cases hRun
      exact .inl ⟨rfl, Buffer.next_edits hNext⟩
  | extend bytes =>
      unfold run at hRun
      cases hWindow : s.window with
      | none =>
          rw [hWindow] at hRun
          cases hRun
      | some offered =>
          rw [hWindow] at hRun
          rcases ok_of_bind hRun with ⟨filled, hFill, hRun⟩
          rcases ok_of_bind hRun with ⟨b, hExtend, hRun⟩
          cases hRun
          exact .inl ⟨rfl, (Buffer.fillWindow_edits hFill).trans (Buffer.extend_edits hExtend)⟩
  | unwrite len =>
      rcases ok_of_bind hRun with ⟨b, hUnwrite, hRun⟩
      cases hRun
      exact .inl ⟨rfl, Buffer.unwrite_edits hUnwrite⟩

theorem run_evolves {s : Session} {op : Op} {buffer : Buffer} {window : Option Window}
    (hRun : s.run op = .ok (buffer, window)) : s.buffer.list.Evolves buffer.list := by
  rcases run_cases hRun with ⟨_, edits⟩ | ⟨len, _, hDiscard⟩ | ⟨_, same⟩
  · exact edits.evolves
  · exact Buffer.discard_evolves hDiscard
  · rw [same]
    exact Chain.evolves_clear s.buffer.list

theorem step_evolves {state after : Session × List Byte} {op : Op}
    (step : Step state op after) : state.1.buffer.list.Evolves after.1.buffer.list := by
  rcases step with ⟨_legal, hPerform, _effectEq⟩
  rcases ok_of_bind hPerform with ⟨⟨buffer, window⟩, hRun, hPerform⟩
  rw [← Except.ok.inj hPerform]
  exact run_evolves hRun

/-- All nodes of a Buffer that started empty were allocated by its own list. -/
theorem reachable_evolves {owner : Nat} {state : Session × List Byte}
    (reachable : Transition.Reachable (system owner) state) :
    (Chain.empty owner).Evolves state.1.buffer.list := by
  induction reachable with
  | start begins =>
      rw [begins]
      exact Chain.Evolves.refl _
  | next _before taken ih =>
      exact ih.trans (step_evolves taken)

end Session

/-- **Refinement.** After any run of legal calls the Buffer reads as the byte
string those calls build abstractly, and every further legal call completes
without a fault. -/
theorem buffer_refines_byteString {owner : Nat} {state : Session × List Byte}
    (reachable : Transition.Reachable (Session.system owner) state) :
    state.1.buffer.toString = .ok state.2 ∧
      state.1.buffer.readableBytes = state.2.length ∧
      (∀ len, len ≤ state.1.buffer.readableBytes →
        state.1.buffer.toStringLen len = .ok (state.2.take len)) ∧
      ∀ op, state.1.Legal op → ∃ s', state.1.perform op = .ok s' := by
  have sound := Session.reachable_sound (Session.new_represents owner) reachable
  refine ⟨Buffer.toString_spec sound.1, sound.1.readable_eq, ?_, ?_⟩
  · intro len enough
    rw [sound.1.readable_eq] at enough
    exact Buffer.toStringLen_spec sound.1 enough
  · intro op legal
    obtain ⟨s', hPerform, _sound⟩ := Session.perform_spec sound legal
    exact ⟨s', hPerform⟩

/-- A run that appends two bytes: the second state reads as these two bytes. -/
theorem buffer_refines_byteString_append :
    ∃ s', (Session.new 0).perform (.append [104, 105]) = .ok s' ∧
      s'.buffer.toString = .ok [104, 105] := by
  have start : Transition.Reachable (Session.system 0) (Session.new 0, []) := .start rfl
  have legal : (Session.new 0).Legal (.append [104, 105]) := ⟨by decide, trivial⟩
  obtain ⟨s', hPerform⟩ := (buffer_refines_byteString start).2.2.2 _ legal
  have appended : Transition.Reachable (Session.system 0) (s', [104, 105]) :=
    .next start ⟨legal, hPerform, rfl⟩
  exact ⟨s', hPerform, (buffer_refines_byteString appended).1⟩

end Uvcpp
