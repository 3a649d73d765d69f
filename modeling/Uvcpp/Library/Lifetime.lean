/-
Resources that are closed before they are freed.

They are numbered as they are allocated, and something lists them until they have been
closed.  One that is abandoned is freed at once and stays listed.
-/

import Mathlib.Data.List.Perm.Lattice

structure Lifetimes where
  allocated : Nat
  listed : List Nat
  closing : List Nat
  freed : List Nat
  abandoned : List Nat
deriving DecidableEq

namespace Lifetimes

def empty : Lifetimes :=
  { allocated := 0
    listed := []
    closing := []
    freed := []
    abandoned := [] }

/-- A new resource, whose number was `allocated`. -/
def allocate (l : Lifetimes) : Lifetimes :=
  { l with
    allocated := l.allocated + 1
    listed := l.listed ++ [l.allocated] }

def close (l : Lifetimes) (resource : Nat) : Lifetimes :=
  { l with closing := l.closing ++ [resource] }

/-- The end of a close. -/
def free (l : Lifetimes) (resource : Nat) : Lifetimes :=
  { l with
    listed := l.listed.erase resource
    closing := l.closing.erase resource
    freed := l.freed ++ [resource] }

def abandon (l : Lifetimes) (resource : Nat) : Lifetimes :=
  { l with
    freed := l.freed ++ [resource]
    abandoned := l.abandoned ++ [resource] }

/-- Each resource is in one phase, owned, closing or freed, and freed at most once; and what
is listed is what has not been freed by the end of a close. -/
structure Accounts (l : Lifetimes) (owned : Nat → Prop) : Prop where
  closing : l.closing.Nodup
  freed : l.freed.Nodup
  apart : ∀ resource ∈ l.closing, resource ∉ l.freed
  live : ∀ resource, owned resource → resource ∉ l.closing ∧ resource ∉ l.freed
  cover : ∀ resource, resource < l.allocated ↔
    owned resource ∨ resource ∈ l.closing ∨ resource ∈ l.freed
  abandoned : l.abandoned.Sublist l.freed
  distinct : l.listed.Nodup
  listed : ∀ resource, resource ∈ l.listed ↔
    resource < l.allocated ∧ (resource ∈ l.freed → resource ∈ l.abandoned)

theorem empty_accounts : empty.Accounts fun _ => False := by
  constructor <;> simp [empty]

section Moves

variable {l : Lifetimes} {owned : Nat → Prop} {resource : Nat}

theorem Accounts.congr (accounts : l.Accounts owned) {others : Nat → Prop}
    (same : ∀ resource, others resource ↔ owned resource) : l.Accounts others := by
  have equal : others = owned := funext fun resource => propext (same resource)
  rw [equal]
  exact accounts

theorem Accounts.fresh (accounts : l.Accounts owned) :
    ¬owned l.allocated ∧ l.allocated ∉ l.closing ∧ l.allocated ∉ l.freed := by
  have beyond := mt (accounts.cover l.allocated).mpr (Nat.lt_irrefl _)
  exact ⟨fun own => beyond (.inl own), fun closing => beyond (.inr (.inl closing)),
    fun freed => beyond (.inr (.inr freed))⟩

theorem Accounts.allocate (accounts : l.Accounts owned) :
    l.allocate.Accounts fun resource => owned resource ∨ resource = l.allocated := by
  obtain ⟨_unowned, unclosed, unfreed⟩ := accounts.fresh
  have unlisted : l.allocated ∉ l.listed := by
    intro listed
    exact Nat.lt_irrefl _ ((accounts.listed l.allocated).mp listed).1
  constructor
  · exact accounts.closing
  · exact accounts.freed
  · exact accounts.apart
  · rintro resource (own | rfl)
    · exact accounts.live resource own
    · exact ⟨unclosed, unfreed⟩
  · intro resource
    change resource < l.allocated + 1 ↔ _ ∨ resource ∈ l.closing ∨ resource ∈ l.freed
    rw [Nat.lt_succ_iff_lt_or_eq, accounts.cover]
    grind
  · exact accounts.abandoned
  · exact accounts.distinct.append (List.nodup_singleton _) (by simpa using unlisted)
  · intro resource
    change resource ∈ l.listed ++ [l.allocated] ↔
      resource < l.allocated + 1 ∧ (resource ∈ l.freed → resource ∈ l.abandoned)
    rw [List.mem_append, List.mem_singleton, accounts.listed, Nat.lt_succ_iff_lt_or_eq]
    constructor
    · rintro (⟨below, left⟩ | rfl)
      · exact ⟨.inl below, left⟩
      · exact ⟨.inr rfl, fun freed => absurd freed unfreed⟩
    · rintro ⟨below | new, left⟩
      · exact .inl ⟨below, left⟩
      · exact .inr new

theorem Accounts.close (accounts : l.Accounts owned) (own : owned resource) :
    (l.close resource).Accounts fun other => owned other ∧ other ≠ resource := by
  obtain ⟨unclosed, unfreed⟩ := accounts.live resource own
  constructor
  · exact accounts.closing.append (List.nodup_singleton _) (by simpa using unclosed)
  · exact accounts.freed
  · intro other member
    rcases List.mem_append.mp member with old | new
    · exact accounts.apart other old
    · rw [List.mem_singleton.mp new]
      exact unfreed
  · rintro other ⟨own, different⟩
    obtain ⟨apart, kept⟩ := accounts.live other own
    exact ⟨by simp [Lifetimes.close, apart, different], kept⟩
  · intro other
    change other < l.allocated ↔ _ ∨ other ∈ l.closing ++ [resource] ∨ other ∈ l.freed
    rw [accounts.cover, List.mem_append, List.mem_singleton]
    by_cases same : other = resource
    · subst same
      simp [own]
    · simp [same]
  · exact accounts.abandoned
  · exact accounts.distinct
  · exact accounts.listed

theorem Accounts.free (accounts : l.Accounts owned) (member : resource ∈ l.closing) :
    (l.free resource).Accounts owned := by
  have unfreed := accounts.apart resource member
  constructor
  · exact accounts.closing.erase resource
  · exact accounts.freed.append (List.nodup_singleton _) (by simpa using unfreed)
  · intro other still
    obtain ⟨different, closing⟩ := (accounts.closing.mem_erase_iff).mp still
    simp [Lifetimes.free, accounts.apart other closing, different]
  · intro other own
    obtain ⟨unclosed, kept⟩ := accounts.live other own
    refine ⟨fun still => unclosed (List.mem_of_mem_erase still), ?_⟩
    have different : other ≠ resource := by
      rintro rfl
      exact unclosed member
    simp [Lifetimes.free, kept, different]
  · intro other
    change other < l.allocated ↔
      _ ∨ other ∈ l.closing.erase resource ∨ other ∈ l.freed ++ [resource]
    rw [accounts.cover, accounts.closing.mem_erase_iff, List.mem_append, List.mem_singleton]
    by_cases same : other = resource
    · subst same
      simp [member]
    · simp [same]
  · exact accounts.abandoned.trans (List.sublist_append_left _ _)
  · exact accounts.distinct.erase resource
  · intro other
    change other ∈ l.listed.erase resource ↔
      other < l.allocated ∧ (other ∈ l.freed ++ [resource] → other ∈ l.abandoned)
    rw [accounts.distinct.mem_erase_iff, accounts.listed, List.mem_append, List.mem_singleton]
    constructor
    · rintro ⟨different, below, left⟩
      exact ⟨below, fun freed => left (freed.resolve_right different)⟩
    · rintro ⟨below, left⟩
      refine ⟨?_, below, fun freed => left (.inl freed)⟩
      rintro rfl
      exact unfreed (accounts.abandoned.subset (left (.inr rfl)))

theorem Accounts.abandon (accounts : l.Accounts owned) (own : owned resource) :
    (l.abandon resource).Accounts fun other => owned other ∧ other ≠ resource := by
  obtain ⟨unclosed, unfreed⟩ := accounts.live resource own
  constructor
  · exact accounts.closing
  · exact accounts.freed.append (List.nodup_singleton _) (by simpa using unfreed)
  · intro other member
    have different : other ≠ resource := by
      rintro rfl
      exact unclosed member
    simp [Lifetimes.abandon, accounts.apart other member, different]
  · rintro other ⟨own, different⟩
    obtain ⟨apart, kept⟩ := accounts.live other own
    exact ⟨apart, by simp [Lifetimes.abandon, kept, different]⟩
  · intro other
    change other < l.allocated ↔ _ ∨ other ∈ l.closing ∨ other ∈ l.freed ++ [resource]
    rw [accounts.cover, List.mem_append, List.mem_singleton]
    by_cases same : other = resource
    · subst same
      simp [own]
    · simp [same]
  · exact accounts.abandoned.append (List.Sublist.refl _)
  · exact accounts.distinct
  · intro other
    change other ∈ l.listed ↔ other < l.allocated ∧
      (other ∈ l.freed ++ [resource] → other ∈ l.abandoned ++ [resource])
    rw [accounts.listed, List.mem_append, List.mem_append, List.mem_singleton]
    by_cases same : other = resource
    · subst same
      simp [unfreed]
    · simp [same]

end Moves

/-- A freed resource is listed exactly when it was abandoned. -/
theorem Accounts.listed_freed {l : Lifetimes} {owned : Nat → Prop} (accounts : l.Accounts owned)
    (resource : Nat) :
    resource ∈ l.listed ∧ resource ∈ l.freed ↔ resource ∈ l.abandoned := by
  rw [accounts.listed]
  constructor
  · rintro ⟨⟨_below, left⟩, freed⟩
    exact left freed
  · intro left
    have freed := accounts.abandoned.subset left
    exact ⟨⟨(accounts.cover resource).mpr (.inr (.inr freed)), fun _ => left⟩, freed⟩

end Lifetimes
