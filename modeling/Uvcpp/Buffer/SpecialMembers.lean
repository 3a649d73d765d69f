/-
Copying, moving and exchanging Buffers.

Element iterators follow their elements into another list object, but the end
iterator of a list stays behind.  A Buffer without blocks stores two end
iterators, so it survives copying and nothing else: the special members keep the
Buffers usable exactly when no empty list gives its iterators away.
-/

import Uvcpp.Buffer.Refinement

namespace Uvcpp

open LinkedList

namespace Buffer

/-- The loop of the copy constructor: `it` walks the source from
`firstWithData_`, `mit` walks the copy from its begin, and the iterators found
so far are carried along. -/
def matchIterators (source : Buffer) (past : Position) :
    List (Node DataBlock) → List (Node DataBlock) → Position → Position →
      Except Fault (Position × Position)
  | [], _, first, last => .ok (first, last)
  | _ :: _, [], _, _ => .error .badIterator
  | it :: its, mit :: mits, first, last =>
      matchIterators source past its mits
        (if .node it.address = source.firstWithData then .node mit.address else first)
        (if .node it.address = source.lastWithData then .node mit.address else last)

/-- `Buffer(const Buffer &)`. -/
def copyConstruct (b : Buffer) (owner : Nat) : Except Fault Buffer := do
  let list := b.list.copy owner
  let nodes ← orBadIterator (b.list.walk b.firstWithData)
  let (first, last) ← matchIterators b list.past nodes list.nodes list.start list.past
  pure
    { list := list
      firstWithData := first
      lastWithData := last
      readableBytes := b.readableBytes
      capacity := b.capacity }

/-- `Buffer(Buffer &&)`: the new Buffer and what is left of the source. -/
def moveConstruct (b : Buffer) (owner : Nat) : Buffer × Buffer :=
  let emptied := b.list.adopt (Chain.empty owner)
  ({ list := (Chain.empty owner).adopt b.list
     firstWithData := b.firstWithData
     lastWithData := b.lastWithData
     readableBytes := b.readableBytes
     capacity := b.capacity },
   { list := emptied
     firstWithData := emptied.start
     lastWithData := emptied.past
     readableBytes := 0
     capacity := 0 })

/-- `swap`: both Buffers after the exchange. -/
def swap (a b : Buffer) : Buffer × Buffer :=
  ({ list := a.list.adopt b.list
     firstWithData := b.firstWithData
     lastWithData := b.lastWithData
     readableBytes := b.readableBytes
     capacity := b.capacity },
   { list := b.list.adopt a.list
     firstWithData := a.firstWithData
     lastWithData := a.lastWithData
     readableBytes := a.readableBytes
     capacity := a.capacity })

/-- `operator=`: `owner` is the temporary that is swapped in and dropped. -/
def assign (a b : Buffer) (owner : Nat) : Except Fault Buffer := do
  let buf ← b.copyConstruct owner
  pure (a.swap buf).1

/-! ### Copying -/

section Matching

variable {source : Buffer} {past first last : Position}

/-- Behind both iterators of the source nothing is found any more. -/
theorem matchIterators_behind (its : List (Node DataBlock)) :
    ∀ {mits : List (Node DataBlock)} {first last : Position}, its.length = mits.length →
      (∀ it ∈ its, (.node it.address : Position) ≠ source.firstWithData) →
      (∀ it ∈ its, (.node it.address : Position) ≠ source.lastWithData) →
      matchIterators source past its mits first last = .ok (first, last) := by
  induction its with
  | nil =>
      intro mits first last sameLength notFirst notLast
      rfl
  | cons it rest ih =>
      intro mits first last sameLength notFirst notLast
      cases mits with
      | nil =>
          simp at sameLength
      | cons mit others =>
          unfold matchIterators
          rw [if_neg (notFirst it List.mem_cons_self), if_neg (notLast it List.mem_cons_self)]
          exact ih (by simpa using sameLength)
            (fun other member => notFirst other (List.mem_cons_of_mem _ member))
            (fun other member => notLast other (List.mem_cons_of_mem _ member))

/-- Between both iterators of the source only the last one is still to be found. -/
theorem matchIterators_between {it mit : Node DataBlock} {spare others : List (Node DataBlock)}
    (lastAt : source.lastWithData = .node it.address) (front : List (Node DataBlock)) :
    ∀ {front' : List (Node DataBlock)} {first last : Position},
      front.length = front'.length → spare.length = others.length →
      (∀ other ∈ front ++ it :: spare, (.node other.address : Position) ≠ source.firstWithData) →
      (∀ other ∈ front, other.address ≠ it.address) →
      (∀ other ∈ spare, other.address ≠ it.address) →
      matchIterators source past (front ++ it :: spare) (front' ++ mit :: others) first last =
        .ok (first, .node mit.address) := by
  have elsewhere : ∀ {other : Node DataBlock}, other.address ≠ it.address →
      (.node other.address : Position) ≠ source.lastWithData := by
    intro other different same
    rw [lastAt] at same
    exact different (Position.node.inj same)
  induction front with
  | nil =>
      intro front' first last frontLength spareLength notFirst before behind
      rw [List.length_eq_zero_iff.mp frontLength.symm]
      simp only [List.nil_append, matchIterators]
      rw [if_neg (notFirst it (by simp)), if_pos lastAt.symm]
      exact matchIterators_behind spare spareLength
        (fun other member => notFirst other (by simp [member]))
        (fun other member => elsewhere (behind other member))
  | cons head rest ih =>
      intro front' first last frontLength spareLength notFirst before behind
      cases front' with
      | nil =>
          simp at frontLength
      | cons mine others' =>
          simp only [List.cons_append, matchIterators]
          rw [if_neg (notFirst head (by simp)),
            if_neg (elsewhere (before head List.mem_cons_self))]
          exact ih (by simpa using frontLength) spareLength
            (fun other member => notFirst other (List.mem_cons_of_mem _ member))
            (fun other member => before other (List.mem_cons_of_mem _ member)) behind

end Matching

/-- On a represented source the loop finds the copy's begin and the copy of the
last used block. -/
theorem matchIterators_spec {b : Buffer} {front spare front' others : List (Node DataBlock)}
    {last : Node DataBlock} (mine : Node DataBlock) (past : Position)
    (blocks : b.list.nodes = front ++ last :: spare) (firstAt : b.firstWithData = b.list.start)
    (lastAt : b.lastWithData = .node last.address)
    (frontLength : front.length = front'.length) (spareLength : spare.length = others.length) :
    matchIterators b past (front ++ last :: spare) (front' ++ mine :: others)
        (first past (front' ++ mine :: others)) past =
      .ok (first past (front' ++ mine :: others), .node mine.address) := by
  have before := Chain.absent_before blocks
  have behind := Chain.absent_after blocks
  have atHead : ∀ {node : Node DataBlock} {rest : List (Node DataBlock)},
      b.list.nodes = node :: rest → b.firstWithData = .node node.address := by
    intro node rest headed
    rw [firstAt, Chain.start, headed]
    rfl
  cases front with
  | nil =>
      have headed := atHead blocks
      rw [List.length_eq_zero_iff.mp frontLength.symm]
      simp only [List.nil_append, matchIterators, first]
      rw [if_pos headed.symm, if_pos lastAt.symm]
      apply matchIterators_behind spare spareLength
      · intro other member same
        rw [headed] at same
        exact behind other member (Position.node.inj same)
      · intro other member same
        rw [lastAt] at same
        exact behind other member (Position.node.inj same)
  | cons head rest =>
      have headed := atHead blocks
      have headOnly : ∀ other ∈ rest ++ last :: spare, other.address ≠ head.address := by
        have split : b.list.nodes = [] ++ head :: (rest ++ last :: spare) := blocks
        exact Chain.absent_after split
      cases front' with
      | nil =>
          simp at frontLength
      | cons mit mits =>
          have notLast : (.node head.address : Position) ≠ b.lastWithData := by
            rw [lastAt]
            intro same
            exact before head List.mem_cons_self (Position.node.inj same)
          simp only [List.cons_append, matchIterators, first]
          rw [if_pos headed.symm, if_neg notLast]
          apply matchIterators_between lastAt rest (by simpa using frontLength) spareLength
          · intro other member same
            rw [headed] at same
            exact headOnly other member (Position.node.inj same)
          · intro other member
            exact before other (List.mem_cons_of_mem _ member)
          · exact behind

/-- Blocks with the same values, whatever their addresses. -/
theorem bytesOf_congr {nodes others : List (Node DataBlock)}
    (same : nodes.map Node.value = others.map Node.value) : bytesOf nodes = bytesOf others := by
  have byValue : ∀ list : List (Node DataBlock),
      bytesOf list = (list.map Node.value).flatMap DataBlock.data := by
    intro list
    rw [List.flatMap_map]
    rfl
  rw [byValue, byValue, same]

/-- What holds of the values of some blocks holds of blocks with the same values. -/
theorem forall_value_congr (holds : DataBlock → Prop) {nodes others : List (Node DataBlock)}
    (same : nodes.map Node.value = others.map Node.value)
    (all : ∀ node ∈ nodes, holds node.value) : ∀ node ∈ others, holds node.value := by
  intro node member
  have inValues : node.value ∈ nodes.map Node.value := by
    rw [same]
    exact List.mem_map_of_mem member
  rcases List.mem_map.mp inValues with ⟨original, originalMember, sameValue⟩
  rw [← sameValue]
  exact all original originalMember

end Buffer

theorem Layout.congr {front spare front' spare' : List (Node DataBlock)}
    {last last' : Node DataBlock} (layout : Layout front last spare)
    (sameFront : front.map Node.value = front'.map Node.value)
    (sameLast : last.value = last'.value)
    (sameSpare : spare.map Node.value = spare'.map Node.value) : Layout front' last' spare' := by
  constructor
  · exact Buffer.forall_value_congr (fun value => value.write = value.capacity)
      sameFront layout.full
  · apply Buffer.forall_value_congr (fun value => value.read = 0) _ layout.unshifted
    rw [List.map_tail, List.map_tail, List.map_append, List.map_append, sameFront,
      List.map_singleton, List.map_singleton, sameLast]
  · exact Buffer.forall_value_congr (fun value => value.read = 0 ∧ value.write = 0)
      sameSpare layout.unused

namespace Buffer

theorem copyConstruct_spec {b : Buffer} {content : List Byte} (represents : Represents b content)
    (owner : Nat) :
    ∃ c, b.copyConstruct owner = .ok c ∧ Represents c content ∧
      c.list = b.list.copy owner := by
  have walked := represents.walk_first.1
  have values := b.list.copy_values owner
  unfold copyConstruct
  rw [walked]
  cases represents with
  | vacant noBlocks first last readable empty =>
      have noCopies : (b.list.copy owner).nodes = [] := by
        rw [noBlocks] at values
        exact List.map_eq_nil_iff.mp values
      have startEq : (b.list.copy owner).start = (b.list.copy owner).past := by
        rw [Chain.start, noCopies]
        rfl
      refine ⟨_, by rw [noBlocks]; rfl, ?_, rfl⟩
      exact .vacant noCopies startEq rfl readable empty
  | occupied front last spare blocks first lastAt layout held readable =>
      rw [blocks, List.map_append, List.map_cons] at values
      rcases List.map_eq_append_iff.mp values with ⟨front', tail, copied, frontValues, tailValues⟩
      rcases List.map_eq_cons_iff.mp tailValues with
        ⟨last', spare', tailEq, lastValue, spareValues⟩
      rw [tailEq] at copied
      have frontLength : front.length = front'.length := by
        simpa using (congrArg List.length frontValues).symm
      have spareLength : spare.length = spare'.length := by
        simpa using (congrArg List.length spareValues).symm
      have found := matchIterators_spec last' (b.list.copy owner).past blocks first lastAt
        frontLength spareLength
      have startEq : (b.list.copy owner).start =
          LinkedList.first (b.list.copy owner).past (front' ++ last' :: spare') := by
        unfold Chain.start
        rw [copied]
      rw [← startEq] at found
      have sameBytes : bytesOf (front ++ [last]) = bytesOf (front' ++ [last']) := by
        apply bytesOf_congr
        simp [frontValues, lastValue]
      refine ⟨_, by simp only [copied, blocks, orBadIterator, ok_bind, found]; rfl, ?_, rfl⟩
      exact .occupied front' last' spare' copied rfl rfl
        (layout.congr frontValues.symm lastValue.symm spareValues.symm)
        (by rw [held, sameBytes]) readable

/-! ### Giving the blocks to another list object -/

/-- A Buffer with at least one block survives the move of its blocks and
iterators to another list object. -/
theorem adopted_represents {b : Buffer} {content : List Byte}
    (represents : Represents b content) (some : b.list.nodes ≠ []) (list : Chain DataBlock) :
    Represents
      { list := list.adopt b.list
        firstWithData := b.firstWithData
        lastWithData := b.lastWithData
        readableBytes := b.readableBytes
        capacity := b.capacity } content := by
  cases represents with
  | vacant noBlocks first last readable empty =>
      exact absurd noBlocks some
  | occupied front last spare blocks first lastAt layout held readable =>
      have sameStart : b.firstWithData = (list.adopt b.list).start := by
        rw [first]
        exact first_of_ne_nil _ _ some
      exact .occupied front last spare blocks sameStart lastAt layout held readable

/-- The iterator refers to an element of, or is the end of, the Buffer's own list. -/
def Owns (b : Buffer) (position : Position) : Prop :=
  position = b.list.past ∨ ∃ node ∈ b.list.nodes, position = .node node.address

theorem represents_owns {b : Buffer} {content : List Byte} (represents : Represents b content) :
    b.Owns b.firstWithData ∧ b.Owns b.lastWithData := by
  cases represents with
  | vacant noBlocks first last readable empty =>
      exact ⟨.inl first, .inl last⟩
  | occupied front last spare blocks first lastAt layout held readable =>
      constructor
      · rw [first, Chain.start]
        cases hNodes : b.list.nodes with
        | nil =>
            exact .inl rfl
        | cons node rest =>
            exact .inr ⟨node, by rw [hNodes]; exact List.mem_cons_self, rfl⟩
      · exact .inr ⟨last, by rw [blocks]; simp, lastAt⟩

/-- The end of a list object is no iterator of a Buffer on another one. -/
theorem not_owns_past {b : Buffer} {owner : Nat} (foreign : owner ≠ b.list.owner) :
    ¬ b.Owns (.past owner) := by
  rintro (same | ⟨node, _member, same⟩)
  · exact foreign (Position.past.inj same)
  · cases same

/-- A Buffer that stands for nothing in an empty list stores two end iterators. -/
theorem vacant_last {b : Buffer} {content : List Byte} (represents : Represents b content)
    (noBlocks : b.list.nodes = []) : b.lastWithData = b.list.past := by
  cases represents with
  | vacant noBlocks first last readable empty =>
      exact last
  | occupied front last spare blocks first lastAt layout held readable =>
      rw [noBlocks] at blocks
      simp at blocks

end Buffer

/-! ### Runs on two Buffers -/

/-- What a client may rely on in one state of a session. -/
structure Intact (state : Session × List Byte) : Prop where
  first : state.1.buffer.Owns state.1.buffer.firstWithData
  last : state.1.buffer.Owns state.1.buffer.lastWithData
  reads : state.1.buffer.Reads state.2
  serves : ∀ op, state.1.Legal op → ∃ s', state.1.perform op = .ok s'

theorem Session.Sound.intact {state : Session × List Byte} (sound : state.1.Sound state.2) :
    Intact state := by
  rcases Buffer.represents_owns sound.1 with ⟨first, last⟩
  constructor
  · exact first
  · exact last
  · exact Buffer.represents_reads sound.1
  · intro op legal
    rcases Session.perform_spec sound legal with ⟨s', hPerform, _sound⟩
    exact ⟨s', hPerform⟩

inductive Side where
  | left
  | right
deriving DecidableEq

/-- Two Buffers, each used through its own calls in any interleaving. -/
def pairSystem (buffers : Buffer × Buffer) (contents : List Byte × List Byte) :
    Transition.System ((Session × List Byte) × (Session × List Byte)) (Side × Op) where
  initial state :=
    state = ((Session.start buffers.1, contents.1), (Session.start buffers.2, contents.2))
  step state event after :=
    match event.1 with
    | .left => Session.Step state.1 event.2 after.1 ∧ after.2 = state.2
    | .right => Session.Step state.2 event.2 after.2 ∧ after.1 = state.1

/-- However the two Buffers are used from here on, both behave as their byte
strings and they have no block in common. -/
def Usable (buffers : Buffer × Buffer) (contents : List Byte × List Byte) : Prop :=
  ∀ state, Transition.Reachable (pairSystem buffers contents) state →
    Intact state.1 ∧ Intact state.2 ∧ state.1.1.buffer.list.Apart state.2.1.buffer.list

theorem usable_of_represents {buffers : Buffer × Buffer} {contents : List Byte × List Byte}
    (left : Represents buffers.1 contents.1) (right : Represents buffers.2 contents.2)
    (apart : buffers.1.list.Apart buffers.2.list) : Usable buffers contents := by
  intro state reachable
  have invariant : state.1.1.Sound state.1.2 ∧ state.2.1.Sound state.2.2 ∧
      state.1.1.buffer.list.Apart state.2.1.buffer.list := by
    induction reachable with
    | start begins =>
        rw [begins]
        exact ⟨Session.start_sound left, Session.start_sound right, apart⟩
    | @next state after event _before taken ih =>
        rcases ih with ⟨leftSound, rightSound, apartBefore⟩
        rcases event with ⟨side, op⟩
        cases side with
        | left =>
            rcases taken with ⟨step, same⟩
            rw [same]
            exact ⟨Session.step_sound leftSound step, rightSound,
              apartBefore.evolves (Session.step_evolves step)⟩
        | right =>
            rcases taken with ⟨step, same⟩
            rw [same]
            exact ⟨leftSound, Session.step_sound rightSound step,
              (apartBefore.symm.evolves (Session.step_evolves step)).symm⟩
  exact ⟨invariant.1.intact, invariant.2.1.intact, invariant.2.2⟩

/-- The iterators of usable Buffers are their own. -/
theorem Usable.owns {buffers : Buffer × Buffer} {contents : List Byte × List Byte}
    (usable : Usable buffers contents) :
    buffers.1.Owns buffers.1.lastWithData ∧ buffers.2.Owns buffers.2.lastWithData := by
  rcases usable _ (.start rfl) with ⟨left, right, _apart⟩
  exact ⟨left.last, right.last⟩

/-! ### The special members -/

inductive Special where
  | copyConstruct
  | moveConstruct
  | copyAssign
  | swap

namespace Special

/-- The surviving Buffers: target and source, or both exchanged ones.  `owner` is
the list object that the member creates, if it creates one. -/
def run (owner : Nat) (a b : Buffer) : Special → Except Fault (Buffer × Buffer)
  | .copyConstruct => do
      let c ← b.copyConstruct owner
      pure (c, b)
  | .moveConstruct => pure (b.moveConstruct owner)
  | .copyAssign => do
      let c ← a.assign b owner
      pure (c, b)
  | .swap => pure (a.swap b)

/-- The byte strings the surviving Buffers should stand for. -/
def expected (left right : List Byte) : Special → List Byte × List Byte
  | .copyConstruct => (right, right)
  | .moveConstruct => (right, [])
  | .copyAssign => (right, right)
  | .swap => (right, left)

/-- No Buffer whose `list_` is empty gives its iterators away. -/
def Supported (a b : Buffer) : Special → Prop
  | .copyConstruct => True
  | .moveConstruct => b.list.nodes ≠ []
  | .copyAssign => b.list.nodes ≠ []
  | .swap => a.list.nodes ≠ [] ∧ b.list.nodes ≠ []

section Reachable

variable {left right owner : Nat} {a b : Session × List Byte}

theorem usable_of_supported (different : left ≠ right) (freshRight : owner ≠ right)
    (reachableLeft : Transition.Reachable (Session.system left) a)
    (reachableRight : Transition.Reachable (Session.system right) b) {special : Special}
    (supported : special.Supported a.1.buffer b.1.buffer) :
    ∃ after, special.run owner a.1.buffer b.1.buffer = .ok after ∧
      Usable after (special.expected a.2 b.2) := by
  have leftHolds := Session.reachable_represents reachableLeft
  have rightHolds := Session.reachable_represents reachableRight
  have leftOwn := Session.reachable_evolves reachableLeft
  have rightOwn := Session.reachable_evolves reachableRight
  have apart := Chain.Apart.of_owners different leftOwn rightOwn
  have freshApart : (Chain.empty owner).Apart b.1.buffer.list :=
    .of_owners freshRight (Chain.Evolves.refl _) rightOwn
  rcases Buffer.copyConstruct_spec rightHolds owner with ⟨c, hCopy, copyHolds, copyList⟩
  have copyApart : c.list.Apart b.1.buffer.list := by
    rw [copyList]
    exact freshApart.evolves (Chain.evolves_copy _ owner)
  cases special with
  | copyConstruct =>
      exact ⟨(c, b.1.buffer), by simp only [run, hCopy, ok_bind]; rfl,
        usable_of_represents copyHolds rightHolds copyApart⟩
  | moveConstruct =>
      have moved := Buffer.adopted_represents rightHolds supported (Chain.empty owner)
      have emptied : Represents (b.1.buffer.moveConstruct owner).2 [] :=
        .vacant rfl rfl rfl rfl rfl
      exact ⟨_, rfl, usable_of_represents moved emptied freshApart.exchange⟩
  | copyAssign =>
      have someCopied : c.list.nodes ≠ [] := by
        intro none
        have values := b.1.buffer.list.copy_values owner
        rw [← copyList, none] at values
        exact supported (List.map_eq_nil_iff.mp values.symm)
      have assigned := Buffer.adopted_represents copyHolds someCopied a.1.buffer.list
      exact ⟨_, by simp only [run, Buffer.assign, hCopy, ok_bind]; rfl,
        usable_of_represents assigned rightHolds (apart.adopt copyApart)⟩
  | swap =>
      have toLeft := Buffer.adopted_represents rightHolds supported.2 a.1.buffer.list
      have toRight := Buffer.adopted_represents leftHolds supported.1 b.1.buffer.list
      exact ⟨_, rfl, usable_of_represents toLeft toRight apart.exchange⟩

theorem supported_of_usable (different : left ≠ right) (freshLeft : owner ≠ left)
    (freshRight : owner ≠ right)
    (reachableLeft : Transition.Reachable (Session.system left) a)
    (reachableRight : Transition.Reachable (Session.system right) b) {special : Special}
    {after : Buffer × Buffer} {contents : List Byte × List Byte}
    (hRun : special.run owner a.1.buffer b.1.buffer = .ok after)
    (usable : Usable after contents) :
    special.Supported a.1.buffer b.1.buffer := by
  have leftHolds := Session.reachable_represents reachableLeft
  have rightHolds := Session.reachable_represents reachableRight
  have leftOwner : a.1.buffer.list.owner = left := (Session.reachable_evolves reachableLeft).owner
  have rightOwner : b.1.buffer.list.owner = right :=
    (Session.reachable_evolves reachableRight).owner
  rcases usable.owns with ⟨ownLeft, ownRight⟩
  cases special with
  | copyConstruct =>
      trivial
  | moveConstruct =>
      intro noBlocks
      cases hRun
      have stored : (b.1.buffer.moveConstruct owner).1.lastWithData = .past right := by
        rw [← rightOwner]
        exact Buffer.vacant_last rightHolds noBlocks
      rw [stored] at ownLeft
      exact Buffer.not_owns_past freshRight.symm ownLeft
  | copyAssign =>
      intro noBlocks
      rcases Buffer.copyConstruct_spec rightHolds owner with ⟨c, hCopy, copyHolds, copyList⟩
      have noCopies : c.list.nodes = [] := by
        have values := b.1.buffer.list.copy_values owner
        rw [← copyList, noBlocks] at values
        exact List.map_eq_nil_iff.mp values
      have stored : c.lastWithData = .past owner := by
        rw [Buffer.vacant_last copyHolds noCopies, copyList, Chain.past_copy]
      simp only [run, Buffer.assign, hCopy, ok_bind] at hRun
      cases hRun
      have kept : (a.1.buffer.swap c).1.lastWithData = c.lastWithData := rfl
      rw [kept, stored] at ownLeft
      exact Buffer.not_owns_past (by rw [← leftOwner] at freshLeft; exact freshLeft) ownLeft
  | swap =>
      cases hRun
      constructor
      · intro noBlocks
        have stored : (a.1.buffer.swap b.1.buffer).2.lastWithData = .past left := by
          rw [← leftOwner]
          exact Buffer.vacant_last leftHolds noBlocks
        rw [stored] at ownRight
        exact Buffer.not_owns_past (by rw [← rightOwner] at different; exact different) ownRight
      · intro noBlocks
        have stored : (a.1.buffer.swap b.1.buffer).1.lastWithData = .past right := by
          rw [← rightOwner]
          exact Buffer.vacant_last rightHolds noBlocks
        rw [stored] at ownLeft
        exact Buffer.not_owns_past (by rw [← leftOwner] at different; exact different.symm)
          ownLeft

end Reachable

end Special

/-- **Special members.** On any two Buffers that clients can build, a special
member completes and leaves Buffers that behave as the expected byte strings in
every later run if and only if no empty `list_` gives its iterators away. -/
theorem special_usable_iff_supported {left right owner : Nat} (different : left ≠ right)
    (freshLeft : owner ≠ left) (freshRight : owner ≠ right) {a b : Session × List Byte}
    (reachableLeft : Transition.Reachable (Session.system left) a)
    (reachableRight : Transition.Reachable (Session.system right) b) (special : Special) :
    (∃ after, special.run owner a.1.buffer b.1.buffer = .ok after ∧
        Usable after (special.expected a.2 b.2)) ↔
      special.Supported a.1.buffer b.1.buffer := by
  constructor
  · rintro ⟨after, hRun, usable⟩
    exact Special.supported_of_usable different freshLeft freshRight reachableLeft
      reachableRight hRun usable
  · intro supported
    exact Special.usable_of_supported different freshRight reachableLeft reachableRight
      supported

/-- A first append reaches a Buffer with blocks. -/
theorem Session.exists_appended (owner : Nat) {bytes : List Byte} (some : bytes ≠ [])
    (small : bytes.length < Buffer.maxLength) :
    ∃ s, Transition.Reachable (Session.system owner) (s, bytes) ∧ s.buffer.list.nodes ≠ [] := by
  have begins : Transition.Reachable (Session.system owner) (Session.new owner, []) := .start rfl
  have sound := Session.reachable_sound (Session.new_represents owner) begins
  have legal : (Session.new owner).Legal (.append bytes) := by
    refine ⟨?_, trivial⟩
    change 0 + bytes.length < _
    omega
  obtain ⟨s, performed, _sound⟩ := Session.perform_spec sound legal
  have reachable : Transition.Reachable (Session.system owner) (s, bytes) :=
    begins.next ⟨legal, performed, rfl⟩
  refine ⟨s, reachable, ?_⟩
  cases Session.reachable_represents reachable with
  | vacant noBlocks first last readable empty => exact absurd empty some
  | occupied front last spare blocks =>
      intro none
      rw [none] at blocks
      simp at blocks

/-- Two Buffers with bytes in them are exchanged. -/
theorem special_usable_iff_supported_swap :
    ∃ a b after, Transition.Reachable (Session.system 0) (a, [104, 105]) ∧
      Transition.Reachable (Session.system 1) (b, [111]) ∧
      Special.swap.run 2 a.buffer b.buffer = .ok after ∧
        Usable after ([111], [104, 105]) := by
  obtain ⟨a, left, someLeft⟩ : ∃ a, Transition.Reachable (Session.system 0) (a, [104, 105]) ∧
      a.buffer.list.nodes ≠ [] := Session.exists_appended 0 (by decide) (by decide)
  obtain ⟨b, right, someRight⟩ : ∃ b, Transition.Reachable (Session.system 1) (b, [111]) ∧
      b.buffer.list.nodes ≠ [] := Session.exists_appended 1 (by decide) (by decide)
  obtain ⟨after, exchanged, usable⟩ := (special_usable_iff_supported (by decide : 0 ≠ 1)
    (by decide : 2 ≠ 0) (by decide : 2 ≠ 1) left right .swap).mpr ⟨someLeft, someRight⟩
  exact ⟨a, b, after, left, right, exchanged, usable⟩

/-- A Buffer moved from an empty one keeps the end iterator of its source:
appending to it dereferences that iterator. -/
theorem moved_empty_not_usable :
    ((Buffer.new 1).moveConstruct 2).1.append [104] = .error .badIterator ∧
      ¬ ∃ after, Special.moveConstruct.run 2 (Buffer.new 0) (Buffer.new 1) = .ok after ∧
        Usable after ([], []) := by
  constructor
  · rfl
  · rintro ⟨after, hRun, usable⟩
    cases hRun
    have foreign : (1 : Nat) ≠ ((Buffer.new 1).moveConstruct 2).1.list.owner := by decide
    exact Buffer.not_owns_past foreign usable.owns.1

end Uvcpp
