/-
Doubly linked lists with element identity.

An iterator either names a node by its address or is the past-the-end position
of one particular list object.  Nodes keep their address when elements are
added or erased around them and when two lists exchange their elements; a
past-the-end position stays with the list object it was taken from.

The list object is a structure that carries the distinctness of its addresses,
so a position can never be ambiguous.
-/

import Mathlib.Data.List.Nodup

namespace LinkedList

universe u

/-- A node is identified by the list object that allocated it and the serial
number of that allocation. -/
structure Address where
  home : Nat
  serial : Nat
deriving DecidableEq, Repr

structure Node (α : Type u) where
  address : Address
  value : α
deriving DecidableEq, Repr

/-- An iterator: an element, or the past-the-end position of the list `owner`. -/
inductive Position where
  | node (address : Address)
  | past (owner : Nat)
deriving DecidableEq, Repr

variable {α : Type u}

/-- The position of the first node of a segment that ends at `stop`. -/
def first (stop : Position) : List (Node α) → Position
  | [] => stop
  | node :: _ => .node node.address

/-- The nodes from the one with the given address to the end. -/
def suffixAt (address : Address) : List (Node α) → Option (List (Node α))
  | [] => none
  | node :: rest =>
      if node.address = address then some (node :: rest)
      else suffixAt address rest

/-- The node whose successor is `target` in a segment that ends at `stop`. -/
def predecessor (stop target : Position) : List (Node α) → Option Position
  | [] => none
  | node :: rest =>
      if first stop rest = target then some (.node node.address)
      else predecessor stop target rest

def assignAt (address : Address) (value : α) (nodes : List (Node α)) : List (Node α) :=
  nodes.map fun node => if node.address = address then ⟨address, value⟩ else node

def eraseAt (address : Address) (nodes : List (Node α)) : List (Node α) :=
  nodes.filter fun node => node.address ≠ address

theorem suffixAt_split {before : List (Node α)} {node : Node α} {after : List (Node α)}
    (absent : ∀ other ∈ before, other.address ≠ node.address) :
    suffixAt node.address (before ++ node :: after) = some (node :: after) := by
  induction before with
  | nil =>
      simp [suffixAt]
  | cons head rest ih =>
      have headDifferent := absent head List.mem_cons_self
      simp only [List.cons_append, suffixAt, if_neg headDifferent]
      exact ih fun other member => absent other (List.mem_cons_of_mem _ member)

theorem suffixAt_eq_some {address : Address} {nodes found : List (Node α)}
    (hFound : suffixAt address nodes = some found) :
    ∃ before node after, nodes = before ++ node :: after ∧
      found = node :: after ∧ node.address = address := by
  induction nodes with
  | nil =>
      simp [suffixAt] at hFound
  | cons head rest ih =>
      by_cases same : head.address = address
      · simp only [suffixAt, if_pos same, Option.some.injEq] at hFound
        exact ⟨[], head, rest, rfl, hFound.symm, same⟩
      · simp only [suffixAt, if_neg same] at hFound
        obtain ⟨before, node, after, hNodes, hSuffix, hAddress⟩ := ih hFound
        exact ⟨head :: before, node, after, by rw [hNodes]; rfl, hSuffix, hAddress⟩

theorem assignAt_addresses (address : Address) (value : α) (nodes : List (Node α)) :
    (assignAt address value nodes).map Node.address = nodes.map Node.address := by
  unfold assignAt
  rw [List.map_map]
  apply List.map_congr_left
  intro node _member
  by_cases same : node.address = address
  · simp [same]
  · simp [same]

theorem assignAt_absent {address : Address} (value : α) {nodes : List (Node α)}
    (absent : ∀ other ∈ nodes, other.address ≠ address) :
    assignAt address value nodes = nodes := by
  have unchanged : assignAt address value nodes = nodes.map id := by
    apply List.map_congr_left
    intro node member
    simp [absent node member]
  rw [unchanged, List.map_id]

theorem eraseAt_absent {address : Address} {nodes : List (Node α)}
    (absent : ∀ other ∈ nodes, other.address ≠ address) :
    eraseAt address nodes = nodes := by
  unfold eraseAt
  apply List.filter_eq_self.mpr
  intro node member
  simpa using absent node member

theorem first_append (stop : Position) (left right : List (Node α)) :
    first stop (left ++ right) = first (first stop right) left := by
  cases left <;> rfl

theorem first_of_ne_nil (stop other : Position) {nodes : List (Node α)} (some : nodes ≠ []) :
    first stop nodes = first other nodes := by
  cases nodes with
  | nil =>
      exact absurd rfl some
  | cons node rest =>
      rfl

/-- The first position of a segment depends on its addresses only. -/
theorem first_congr {stop : Position} {nodes others : List (Node α)}
    (same : nodes.map Node.address = others.map Node.address) :
    first stop nodes = first stop others := by
  cases nodes with
  | nil =>
      cases others with
      | nil =>
          rfl
      | cons other rest =>
          simp at same
  | cons node tail =>
      cases others with
      | nil =>
          simp at same
      | cons other rest =>
          simp only [List.map_cons, List.cons.injEq] at same
          simp only [first, same.1]

/-! ### The list object -/

/-- A list object: its identity, the serial number of its next allocation and
its nodes in order. -/
structure Chain (α : Type u) where
  owner : Nat
  supply : Nat
  nodes : List (Node α)
  distinct : (nodes.map Node.address).Nodup
  issued : ∀ node ∈ nodes, node.address.serial < supply

namespace Chain

def empty (owner : Nat) : Chain α :=
  { owner := owner
    supply := 0
    nodes := []
    distinct := List.nodup_nil
    issued := by intro node member; cases member }

def past (chain : Chain α) : Position := .past chain.owner

def start (chain : Chain α) : Position := first chain.past chain.nodes

/-- The nodes an iterator meets on its way to the end; `none` when the position
belongs to no node of this list and is not its past-the-end position. -/
def walk (chain : Chain α) : Position → Option (List (Node α))
  | .node address => suffixAt address chain.nodes
  | .past owner => if owner = chain.owner then some [] else none

/-- Dereferencing: only an element of the list has a value. -/
def value? (chain : Chain α) (position : Position) : Option α :=
  match chain.walk position with
  | some (node :: _) => some node.value
  | _ => none

/-- Increment: only an element of the list has a successor. -/
def after? (chain : Chain α) (position : Position) : Option Position :=
  match chain.walk position with
  | some (_ :: rest) => some (first chain.past rest)
  | _ => none

/-- Decrement: the start of the list has no predecessor. -/
def before? (chain : Chain α) (position : Position) : Option Position :=
  predecessor chain.past position chain.nodes

/-- The address the next allocated node gets. -/
def fresh (chain : Chain α) : Address := ⟨chain.owner, chain.supply⟩

theorem fresh_absent (chain : Chain α) :
    ∀ node ∈ chain.nodes, node.address ≠ chain.fresh := by
  intro node member same
  have bound := chain.issued node member
  rw [same] at bound
  exact Nat.lt_irrefl _ bound

def assign (chain : Chain α) (address : Address) (value : α) : Chain α :=
  { owner := chain.owner
    supply := chain.supply
    nodes := assignAt address value chain.nodes
    distinct := by rw [assignAt_addresses]; exact chain.distinct
    issued := by
      intro node member
      have inAddresses : node.address ∈ chain.nodes.map Node.address := by
        rw [← assignAt_addresses address value]
        exact List.mem_map_of_mem member
      obtain ⟨original, originalMember, same⟩ := List.mem_map.mp inAddresses
      rw [← same]
      exact chain.issued original originalMember }

def erase (chain : Chain α) (address : Address) : Chain α :=
  { owner := chain.owner
    supply := chain.supply
    nodes := eraseAt address chain.nodes
    distinct := chain.distinct.sublist (List.filter_sublist.map _)
    issued := fun node member => chain.issued node (List.mem_of_mem_filter member) }

def pushBack (chain : Chain α) (value : α) : Chain α :=
  { owner := chain.owner
    supply := chain.supply + 1
    nodes := chain.nodes ++ [⟨chain.fresh, value⟩]
    distinct := by
      rw [List.map_append, List.nodup_append]
      refine ⟨chain.distinct, by simp, ?_⟩
      intro address member other otherMember
      obtain ⟨node, nodeMember, rfl⟩ := List.mem_map.mp member
      obtain rfl : other = chain.fresh := by simpa using otherMember
      exact chain.fresh_absent node nodeMember
    issued := by
      intro node member
      rcases List.mem_append.mp member with old | new
      · exact Nat.lt_succ_of_lt (chain.issued node old)
      · obtain rfl := List.mem_singleton.mp new
        exact Nat.lt_succ_self _ }

def pushFront (chain : Chain α) (value : α) : Chain α :=
  { owner := chain.owner
    supply := chain.supply + 1
    nodes := ⟨chain.fresh, value⟩ :: chain.nodes
    distinct := by
      rw [List.map_cons, List.nodup_cons]
      refine ⟨?_, chain.distinct⟩
      intro member
      obtain ⟨node, nodeMember, same⟩ := List.mem_map.mp member
      exact chain.fresh_absent node nodeMember same
    issued := by
      intro node member
      rcases List.mem_cons.mp member with new | old
      · rw [new]
        exact Nat.lt_succ_self _
      · exact Nat.lt_succ_of_lt (chain.issued node old) }

/-- The list object after it has given up all its nodes. -/
def clear (chain : Chain α) : Chain α :=
  { owner := chain.owner
    supply := chain.supply
    nodes := []
    distinct := List.nodup_nil
    issued := by intro node member; cases member }

/-- The list object `chain` holding the nodes of `other`: one half of an
exchange of elements.  Its later allocations stay clear of the adopted nodes. -/
def adopt (chain other : Chain α) : Chain α :=
  { owner := chain.owner
    supply := max chain.supply other.supply
    nodes := other.nodes
    distinct := other.distinct
    issued := fun node member =>
      Nat.lt_of_lt_of_le (other.issued node member) (Nat.le_max_right _ _) }

/-- A copy of the elements of `chain` in a list object of its own. -/
def copy (chain : Chain α) (owner : Nat) : Chain α :=
  chain.nodes.foldl (fun built node => built.pushBack node.value) (Chain.empty owner)

/-! ### Positions in a list that is split at a node -/

section Split

variable {chain : Chain α} {before after : List (Node α)} {node : Node α}

theorem absent_before (split : chain.nodes = before ++ node :: after) :
    ∀ other ∈ before, other.address ≠ node.address := by
  have distinct := chain.distinct
  rw [split, List.map_append, List.nodup_append] at distinct
  intro other member same
  exact distinct.2.2 other.address (List.mem_map_of_mem member)
    node.address (by simp) same

theorem absent_after (split : chain.nodes = before ++ node :: after) :
    ∀ other ∈ after, other.address ≠ node.address := by
  have distinct := chain.distinct
  rw [split, List.map_append, List.nodup_append, List.map_cons, List.nodup_cons] at distinct
  intro other member same
  exact distinct.2.1.1 (same ▸ List.mem_map_of_mem member)

theorem walk_node (split : chain.nodes = before ++ node :: after) :
    chain.walk (.node node.address) = some (node :: after) := by
  unfold walk
  rw [split]
  exact suffixAt_split (absent_before split)

theorem value?_node (split : chain.nodes = before ++ node :: after) :
    chain.value? (.node node.address) = some node.value := by
  simp only [value?, walk_node split]

theorem after?_node (split : chain.nodes = before ++ node :: after) :
    chain.after? (.node node.address) = some (first chain.past after) := by
  simp only [after?, walk_node split]

theorem assign_nodes (split : chain.nodes = before ++ node :: after) (value : α) :
    (chain.assign node.address value).nodes =
      before ++ ⟨node.address, value⟩ :: after := by
  unfold assign
  simp only
  rw [split]
  unfold assignAt
  rw [List.map_append, List.map_cons, if_pos rfl]
  have left := assignAt_absent value (absent_before split)
  have right := assignAt_absent value (absent_after split)
  unfold assignAt at left right
  rw [left, right]

theorem erase_nodes (split : chain.nodes = before ++ node :: after) :
    (chain.erase node.address).nodes = before ++ after := by
  unfold erase
  simp only
  rw [split]
  have left := eraseAt_absent (absent_before split)
  have right := eraseAt_absent (absent_after split)
  unfold eraseAt at left right ⊢
  rw [List.filter_append, List.filter_cons_of_neg (by simp), left, right]

end Split

@[simp] theorem nodes_pushBack (chain : Chain α) (value : α) :
    (chain.pushBack value).nodes = chain.nodes ++ [⟨chain.fresh, value⟩] := rfl

theorem start_pushBack (chain : Chain α) (value : α) :
    (chain.pushBack value).start = first (.node chain.fresh) chain.nodes := by
  rw [start, nodes_pushBack, first_append]
  rfl

/-- Decrementing the position behind a node gives that node. -/
theorem before?_rest {chain : Chain α} {before after : List (Node α)} {node : Node α}
    (split : chain.nodes = before ++ node :: after) :
    chain.before? (first chain.past after) = some (.node node.address) := by
  have distinct := chain.distinct
  unfold before?
  rw [split] at distinct ⊢
  clear split
  induction before with
  | nil =>
      simp [predecessor]
  | cons head rest ih =>
      rw [List.cons_append, List.map_cons, List.nodup_cons] at distinct
      have notYet : first chain.past (rest ++ node :: after) ≠ first chain.past after := by
        intro same
        cases after with
        | nil =>
            cases rest <;> cases same
        | cons next others =>
            have unique := distinct.2
            cases rest with
            | nil =>
                simp only [List.nil_append, first, Position.node.injEq] at same
                simp [same] at unique
            | cons other more =>
                simp only [List.cons_append, first, Position.node.injEq] at same
                simp [same] at unique
      simp only [List.cons_append, predecessor, if_neg notYet]
      exact ih distinct.2

/-- Decrementing the past-the-end position gives the last element. -/
theorem before?_pushBack (chain : Chain α) (value : α) :
    (chain.pushBack value).before? (chain.pushBack value).past =
      some (.node chain.fresh) :=
  before?_rest (nodes_pushBack chain value)

theorem walk_past (chain : Chain α) : chain.walk chain.past = some [] := by
  simp [walk, past]

/-- The start of a list meets all of its nodes. -/
theorem walk_start (chain : Chain α) : chain.walk chain.start = some chain.nodes := by
  unfold start
  cases hNodes : chain.nodes with
  | nil =>
      exact chain.walk_past
  | cons node rest =>
      have split : chain.nodes = [] ++ node :: rest := hNodes
      exact walk_node split

/-- The position behind a prefix meets the rest of the list. -/
theorem walk_rest {chain : Chain α} {before after : List (Node α)}
    (split : chain.nodes = before ++ after) :
    chain.walk (first chain.past after) = some after := by
  cases after with
  | nil =>
      exact chain.walk_past
  | cons node rest =>
      exact walk_node split

/-- An iterator that meets a node points to it. -/
theorem walk_split {chain : Chain α} {position : Position} {node : Node α} {after : List (Node α)}
    (walked : chain.walk position = some (node :: after)) :
    ∃ before, chain.nodes = before ++ node :: after ∧ position = .node node.address := by
  cases position with
  | past owner =>
      unfold walk at walked
      by_cases same : owner = chain.owner
      · simp [same] at walked
      · simp [same] at walked
  | node address =>
      rcases suffixAt_eq_some walked with ⟨before, head, rest, hNodes, hSuffix, hAddress⟩
      cases hSuffix
      exact ⟨before, hNodes, by rw [hAddress]⟩

/-- An iterator that can be dereferenced points to a node. -/
theorem value?_split {chain : Chain α} {position : Position} {value : α}
    (held : chain.value? position = some value) :
    ∃ before node after, chain.nodes = before ++ node :: after ∧
      position = .node node.address ∧ node.value = value := by
  unfold value? at held
  split at held
  · rename_i node after walked
    rcases walk_split walked with ⟨before, hNodes, here⟩
    exact ⟨before, node, after, hNodes, here, Option.some.inj held⟩
  · cases held

/-- An iterator that can be incremented points to a node. -/
theorem after?_split {chain : Chain α} {position following : Position}
    (moved : chain.after? position = some following) :
    ∃ before node after, chain.nodes = before ++ node :: after ∧
      position = .node node.address ∧ following = first chain.past after := by
  unfold after? at moved
  split at moved
  · rename_i node after walked
    rcases walk_split walked with ⟨before, hNodes, here⟩
    exact ⟨before, node, after, hNodes, here, (Option.some.inj moved).symm⟩
  · cases moved

/-- Incrementing an iterator of the list gives an iterator of the list. -/
theorem walk_after? {chain : Chain α} {position following : Position}
    (moved : chain.after? position = some following) :
    ∃ after, chain.walk following = some after := by
  rcases after?_split moved with ⟨before, node, after, hNodes, _here, next⟩
  have split : chain.nodes = (before ++ [node]) ++ after := by
    rw [hNodes]
    simp
  rw [next]
  exact ⟨after, walk_rest split⟩

theorem foldl_pushBack (source : List (Node α)) (chain : Chain α) :
    (source.foldl (fun built node => built.pushBack node.value) chain).past = chain.past ∧
      (source.foldl (fun built node => built.pushBack node.value) chain).nodes.map
          Node.value =
        chain.nodes.map Node.value ++ source.map Node.value := by
  induction source generalizing chain with
  | nil =>
      simp
  | cons node rest ih =>
      obtain ⟨pastEq, valuesEq⟩ := ih (chain.pushBack node.value)
      refine ⟨pastEq, ?_⟩
      rw [List.foldl_cons, valuesEq]
      simp

/-- A copy holds the same elements in the same order. -/
theorem copy_values (chain : Chain α) (owner : Nat) :
    (chain.copy owner).nodes.map Node.value = chain.nodes.map Node.value := by
  have built := (foldl_pushBack chain.nodes (Chain.empty owner)).2
  simpa [copy, empty] using built

@[simp] theorem past_copy (chain : Chain α) (owner : Nat) :
    (chain.copy owner).past = .past owner :=
  (foldl_pushBack chain.nodes (Chain.empty owner)).1

/-! ### What the operations of a list object touch -/

/-- `later` is `chain` after operations of its own: the same list object, whose
nodes are old ones or were allocated by it since. -/
structure Evolves (chain later : Chain α) : Prop where
  owner : later.owner = chain.owner
  supply : chain.supply ≤ later.supply
  nodes : ∀ node ∈ later.nodes, node.address ∈ chain.nodes.map Node.address ∨
    (node.address.home = chain.owner ∧ chain.supply ≤ node.address.serial)

theorem Evolves.refl (chain : Chain α) : Evolves chain chain where
  owner := rfl
  supply := Nat.le_refl _
  nodes _node member := .inl (List.mem_map_of_mem member)

theorem Evolves.trans {chain middle later : Chain α} (left : Evolves chain middle)
    (right : Evolves middle later) : Evolves chain later where
  owner := right.owner.trans left.owner
  supply := Nat.le_trans left.supply right.supply
  nodes node member := by
    rcases right.nodes node member with old | ⟨home, serial⟩
    · rcases List.mem_map.mp old with ⟨original, originalMember, same⟩
      rw [← same]
      exact left.nodes original originalMember
    · exact .inr ⟨home.trans left.owner, Nat.le_trans left.supply serial⟩

/-- An operation that keeps the supply and adds no address. -/
theorem Evolves.of_addresses {chain later : Chain α} (owner : later.owner = chain.owner)
    (supply : later.supply = chain.supply)
    (addresses : later.nodes.map Node.address ⊆ chain.nodes.map Node.address) :
    Evolves chain later where
  owner := owner
  supply := Nat.le_of_eq supply.symm
  nodes _node member := .inl (addresses (List.mem_map_of_mem member))

theorem evolves_assign (chain : Chain α) (address : Address) (value : α) :
    Evolves chain (chain.assign address value) :=
  .of_addresses rfl rfl (by rw [assign, assignAt_addresses]; exact List.Subset.refl _)

theorem evolves_erase (chain : Chain α) (address : Address) :
    Evolves chain (chain.erase address) :=
  .of_addresses rfl rfl (List.filter_sublist.map _).subset

theorem evolves_clear (chain : Chain α) : Evolves chain chain.clear :=
  .of_addresses rfl rfl (List.nil_subset _)

theorem evolves_pushBack (chain : Chain α) (value : α) :
    Evolves chain (chain.pushBack value) where
  owner := rfl
  supply := Nat.le_succ _
  nodes node member := by
    rcases List.mem_append.mp member with old | new
    · exact .inl (List.mem_map_of_mem old)
    · rw [List.mem_singleton.mp new]
      exact .inr ⟨rfl, Nat.le_refl _⟩

theorem evolves_pushFront (chain : Chain α) (value : α) :
    Evolves chain (chain.pushFront value) where
  owner := rfl
  supply := Nat.le_succ _
  nodes node member := by
    rcases List.mem_cons.mp member with new | old
    · rw [new]
      exact .inr ⟨rfl, Nat.le_refl _⟩
    · exact .inl (List.mem_map_of_mem old)

theorem evolves_copy (chain : Chain α) (owner : Nat) :
    Evolves (Chain.empty owner) (chain.copy owner) := by
  unfold copy
  generalize chain.nodes = source
  have built : ∀ start : Chain α, Evolves (Chain.empty owner) start →
      Evolves (Chain.empty owner)
        (source.foldl (fun built node => built.pushBack node.value) start) := by
    induction source with
    | nil =>
        intro start reached
        exact reached
    | cons node rest ih =>
        intro start reached
        exact ih _ (reached.trans (evolves_pushBack start node.value))
  exact built _ (Evolves.refl _)

/-- Two list objects that hold no node in common and never will. -/
structure Apart (left right : Chain α) : Prop where
  owners : left.owner ≠ right.owner
  disjoint : ∀ node ∈ left.nodes, ∀ other ∈ right.nodes, node.address ≠ other.address
  issuedLeft : ∀ other ∈ right.nodes, other.address.home = left.owner →
    other.address.serial < left.supply
  issuedRight : ∀ node ∈ left.nodes, node.address.home = right.owner →
    node.address.serial < right.supply

theorem Apart.symm {left right : Chain α} (apart : Apart left right) : Apart right left where
  owners := apart.owners.symm
  disjoint node member other otherMember same :=
    apart.disjoint other otherMember node member same.symm
  issuedLeft := apart.issuedRight
  issuedRight := apart.issuedLeft

/-- Lists that allocated all of their nodes themselves are apart. -/
theorem Apart.of_owners {first second : Nat} {left right : Chain α} (different : first ≠ second)
    (leftOwn : Evolves (Chain.empty first) left)
    (rightOwn : Evolves (Chain.empty second) right) : Apart left right := by
  have home : ∀ {owner : Nat} {chain : Chain α}, Evolves (Chain.empty owner) chain →
      ∀ node ∈ chain.nodes, node.address.home = owner := by
    intro owner chain own node member
    rcases own.nodes node member with old | new
    · cases old
    · exact new.1
  constructor
  · rw [leftOwn.owner, rightOwn.owner]
    exact different
  · intro node member other otherMember same
    apply different
    rw [← home leftOwn node member, ← home rightOwn other otherMember, same]
  · intro other member atLeft
    rw [home rightOwn other member, leftOwn.owner] at atLeft
    exact absurd atLeft.symm different
  · intro node member atRight
    rw [home leftOwn node member, rightOwn.owner] at atRight
    exact absurd atRight different

theorem Apart.evolves {left later right : Chain α} (apart : Apart left right)
    (evolves : Evolves left later) : Apart later right := by
  constructor
  · rw [evolves.owner]
    exact apart.owners
  · intro node member other otherMember same
    rcases evolves.nodes node member with old | ⟨home, serial⟩
    · rcases List.mem_map.mp old with ⟨original, originalMember, sameOld⟩
      exact apart.disjoint original originalMember other otherMember (sameOld.trans same)
    · rw [same] at home serial
      exact Nat.lt_irrefl _ (Nat.lt_of_le_of_lt serial (apart.issuedLeft other otherMember home))
  · intro other member home
    rw [evolves.owner] at home
    exact Nat.lt_of_lt_of_le (apart.issuedLeft other member home) evolves.supply
  · intro node member home
    rcases evolves.nodes node member with old | ⟨atLeft, _serial⟩
    · rcases List.mem_map.mp old with ⟨original, originalMember, same⟩
      rw [← same] at home ⊢
      exact apart.issuedRight original originalMember home
    · rw [atLeft] at home
      exact absurd home apart.owners

/-- Adopting the nodes of a list that is apart from `right` as well. -/
theorem Apart.adopt {left source right : Chain α} (apart : Apart left right)
    (sourceApart : Apart source right) : Apart (left.adopt source) right where
  owners := apart.owners
  disjoint := sourceApart.disjoint
  issuedLeft other member home :=
    Nat.lt_of_lt_of_le (apart.issuedLeft other member home) (Nat.le_max_left _ _)
  issuedRight := sourceApart.issuedRight

/-- Two list objects that exchange their elements. -/
theorem Apart.exchange {left right : Chain α} (apart : Apart left right) :
    Apart (left.adopt right) (right.adopt left) where
  owners := apart.owners
  disjoint node member other otherMember same :=
    apart.disjoint other otherMember node member same.symm
  issuedLeft other member _home :=
    Nat.lt_of_lt_of_le (left.issued other member) (Nat.le_max_left _ _)
  issuedRight node member _home :=
    Nat.lt_of_lt_of_le (right.issued node member) (Nat.le_max_left _ _)

end Chain

end LinkedList
