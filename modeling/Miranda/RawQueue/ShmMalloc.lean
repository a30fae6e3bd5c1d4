import Mathlib.Algebra.Order.Group.Nat
import Mathlib.Data.List.Basic

/-!
# Allocation of shared memory: `shm_malloc_aligned`

The allocator moves one pointer down, by the length and then to a multiple of the alignment. It
aborts when the pointer reaches the start of the arena, which here gives no result. Addresses wrap
at 64 bits, and the remainder of the alignment is kept in 8 bits. The lock is not modelled.
-/

namespace Miranda.ShmMalloc

structure Core where
  sharedMem : Nat
  msgAlloc : Nat
  deriving DecidableEq

structure Request where
  length : Nat
  alignment : Nat
  deriving DecidableEq

def aos8max (l r : Nat) : Nat := if l > r then l else r

/-- The minimum alignment for a length. -/
def minimum (length : Nat) : Nat :=
  if length ≤ 1 then 1
  else if length ≤ 2 then 2
  else if length ≤ 4 then 4
  else if length ≤ 8 then 8
  else if length ≤ 16 then 16
  else if length ≥ 64 then 64
  else 16

/-- A subtraction of pointers. -/
def minus (pointer amount : Nat) : Nat := (pointer + 2 ^ 64 - amount) % 2 ^ 64

def shmMallocAligned (core : Core) (request : Request) : Option (Nat × Core) :=
  let alignment := aos8max request.alignment (minimum request.length)
  let msgAlloc := minus core.msgAlloc request.length
  let alignExtra := msgAlloc % alignment % 2 ^ 8
  let msg := minus msgAlloc alignExtra
  if msg ≤ core.sharedMem then none else some (msg, { core with msgAlloc := msg })

/-- Calls that all return, with the blocks they return. -/
def mallocs (core : Core) : List Request → Option (List (Nat × Nat) × Core)
  | [] => some ([], core)
  | request :: requests => do
    let (msg, core) ← shmMallocAligned core request
    let (blocks, core) ← mallocs core requests
    return ((msg, request.length) :: blocks, core)

/-- The alignment is a power of two of at most 128, and the length is less than the address of the
arena. -/
def Request.Proper (core : Core) (request : Request) : Prop :=
  (∃ exponent ≤ 7, request.alignment = 2 ^ exponent) ∧ request.length < core.sharedMem

/-- A place for the request in what is left of the arena. -/
structure Place (core : Core) (request : Request) (msg : Nat) : Prop where
  inside : core.sharedMem < msg
  below : msg + request.length ≤ core.msgAlloc
  aligned : request.alignment ∣ msg
  minimal : minimum request.length ∣ msg

section Calls

variable {core after : Core} {request : Request} {msg : Nat}

theorem minimum_power (length : Nat) : ∃ exponent ≤ 6, minimum length = 2 ^ exponent := by
  unfold minimum
  repeat' split
  exacts [⟨0, by decide, rfl⟩, ⟨1, by decide, rfl⟩, ⟨2, by decide, rfl⟩, ⟨3, by decide, rfl⟩,
    ⟨4, by decide, rfl⟩, ⟨6, by decide, rfl⟩, ⟨4, by decide, rfl⟩]

/-- Both alignments divide the larger one, which is one of them. -/
theorem aos8max_spec (proper : request.Proper core) :
    let alignment := aos8max request.alignment (minimum request.length)
    0 < alignment ∧ alignment ≤ 2 ^ 7 ∧ ∀ msg, alignment ∣ msg ↔
      request.alignment ∣ msg ∧ minimum request.length ∣ msg := by
  obtain ⟨⟨first, firstSmall, asked⟩, _⟩ := proper
  obtain ⟨second, secondSmall, least⟩ := minimum_power _
  rw [asked, least]
  dsimp only [aos8max]
  split
  · next larger =>
    have order := (Nat.pow_lt_pow_iff_right (by decide)).mp larger
    exact ⟨Nat.two_pow_pos _, Nat.pow_le_pow_right (by decide) firstSmall, fun msg =>
      (and_iff_left_of_imp (Nat.dvd_trans (Nat.pow_dvd_pow 2 order.le))).symm⟩
  · next smaller =>
    have order := (Nat.pow_le_pow_iff_right (by decide)).mp (Nat.not_lt.mp smaller)
    exact ⟨Nat.two_pow_pos _, Nat.pow_le_pow_right (by decide) (by omega), fun msg =>
      (and_iff_right_of_imp (Nat.dvd_trans (Nat.pow_dvd_pow 2 order))).symm⟩

section

variable (arena : core.sharedMem ≤ core.msgAlloc) (bounded : core.msgAlloc < 2 ^ 64)
  (proper : request.Proper core)
include arena bounded proper

/-- The pointer does not wrap, and it goes to the highest multiple of the alignment. -/
theorem shmMallocAligned_eq :
    let alignment := aos8max request.alignment (minimum request.length)
    let msg := alignment * ((core.msgAlloc - request.length) / alignment)
    shmMallocAligned core request =
      if msg ≤ core.sharedMem then none else some (msg, { core with msgAlloc := msg }) := by
  intro alignment msg
  obtain ⟨positive, small, _⟩ : 0 < alignment ∧ alignment ≤ 2 ^ 7 ∧ _ := aos8max_spec proper
  have short := proper.2
  have lower : minus core.msgAlloc request.length = core.msgAlloc - request.length := by
    unfold minus
    omega
  have split := Nat.div_add_mod (core.msgAlloc - request.length) alignment
  have extra := (Nat.mod_lt (core.msgAlloc - request.length) positive).trans_le
    (small.trans (by decide : 2 ^ 7 ≤ 2 ^ 8))
  have moved : minus (core.msgAlloc - request.length)
      ((core.msgAlloc - request.length) % alignment % 2 ^ 8) = msg := by
    rw [minus]
    omega
  simp only [shmMallocAligned, lower]
  rw [moved]

theorem shmMallocAligned_some
    (returned : shmMallocAligned core request = some (msg, after)) :
    Place core request msg ∧ after = { core with msgAlloc := msg } := by
  rw [shmMallocAligned_eq arena bounded proper] at returned
  split at returned
  · cases returned
  · next above =>
    cases returned
    obtain ⟨aligned, minimal⟩ := ((aos8max_spec proper).2.2 _).mp (Nat.dvd_mul_right
      _ _)
    have below := Nat.mul_div_le (core.msgAlloc - request.length)
      (aos8max request.alignment (minimum request.length))
    have short := proper.2
    exact ⟨⟨Nat.lt_of_not_le above, by omega, aligned, minimal⟩, rfl⟩

/-- A call aborts only if there is no place. -/
theorem shmMallocAligned_none :
    shmMallocAligned core request = none ↔ ¬ ∃ msg, Place core request msg := by
  constructor
  · rintro aborted ⟨msg, place⟩
    rw [shmMallocAligned_eq arena bounded proper] at aborted
    split at aborted
    · next none =>
      obtain ⟨positive, _, divides⟩ := aos8max_spec proper
      obtain ⟨factor, rfl⟩ := (divides msg).mpr ⟨place.aligned, place.minimal⟩
      have room := Nat.le_sub_of_add_le place.below
      rw [Nat.mul_comm, ← Nat.le_div_iff_mul_le positive] at room
      exact absurd place.inside (Nat.not_lt.mpr ((Nat.mul_le_mul_left _ room).trans none))
    · cases aborted
  · intro full
    cases returned : shmMallocAligned core request with
    | none => rfl
    | some result => exact absurd ⟨_, (shmMallocAligned_some arena bounded proper returned).1⟩ full

end

end Calls

/-- The pointer stays inside the arena and below all blocks. -/
theorem mallocs_below {core after : Core} {requests : List Request} {blocks : List (Nat × Nat)}
    (arena : core.sharedMem ≤ core.msgAlloc) (bounded : core.msgAlloc < 2 ^ 64)
    (proper : ∀ request ∈ requests, request.Proper core)
    (returned : mallocs core requests = some (blocks, after)) :
    after.sharedMem = core.sharedMem ∧ core.sharedMem ≤ after.msgAlloc ∧
      after.msgAlloc ≤ core.msgAlloc ∧ ∀ block ∈ blocks, after.msgAlloc ≤ block.1 := by
  induction requests generalizing core blocks with
  | nil =>
    cases returned
    exact ⟨rfl, arena, Nat.le_refl _, nofun⟩
  | cons request requests ih =>
    obtain ⟨now, later⟩ := List.forall_mem_cons.mp proper
    obtain ⟨⟨msg, middle⟩, first, rest⟩ := Option.bind_eq_some_iff.mp returned
    obtain ⟨⟨others, final⟩, recursive, same⟩ := Option.bind_eq_some_iff.mp rest
    cases same
    obtain ⟨place, rfl⟩ := shmMallocAligned_some arena bounded now first
    have down : msg ≤ core.msgAlloc := Nat.le_of_add_right_le place.below
    obtain ⟨arena, lower, upper, belows⟩ := @ih { core with msgAlloc := msg } others
      place.inside.le (down.trans_lt bounded) later recursive
    exact ⟨arena, lower, upper.trans down, List.forall_mem_cons.mpr ⟨upper, belows⟩⟩

/-- Whatever was allocated before, a call returns a new aligned block inside the arena, or there is no
place for one and it aborts.

Proof: by induction on the requests, all blocks lie above the pointer (`mallocs_below`). -/
theorem shm_malloc_blocks_disjoint (sharedMem size : Nat) (bounded : sharedMem + size < 2 ^ 64)
    (requests : List Request) (request : Request) (blocks : List (Nat × Nat)) (core : Core)
    (proper : ∀ other ∈ request :: requests, other.Proper ⟨sharedMem, sharedMem + size⟩)
    (returned : mallocs ⟨sharedMem, sharedMem + size⟩ requests = some (blocks, core)) :
    (∀ msg after, shmMallocAligned core request = some (msg, after) →
      sharedMem < msg ∧ msg + request.length ≤ sharedMem + size ∧ request.alignment ∣ msg ∧
        minimum request.length ∣ msg ∧ ∀ block ∈ blocks, msg + request.length ≤ block.1) ∧
      (shmMallocAligned core request = none ↔ ¬ ∃ msg, Place core request msg) := by
  obtain ⟨now, before⟩ := List.forall_mem_cons.mp proper
  obtain ⟨same, lower, upper, belows⟩ :=
    mallocs_below (Nat.le_add_right _ _) bounded before returned
  dsimp only at same lower upper
  have arena : core.sharedMem ≤ core.msgAlloc := by omega
  have here : request.Proper core := ⟨now.1, by rw [same]; exact now.2⟩
  refine ⟨fun msg after found => ?_, shmMallocAligned_none arena (by omega) here⟩
  obtain ⟨⟨inside, below, aligned, minimal⟩, _⟩ :=
    shmMallocAligned_some arena (by omega) here found
  exact ⟨by omega, by omega, aligned, minimal, fun block member => below.trans (belows block member)⟩

theorem shm_malloc_blocks_disjoint_sample :
    mallocs ⟨4096, 5120⟩ [⟨100, 1⟩] = some ([(4992, 100)], ⟨4096, 4992⟩) ∧
      shmMallocAligned ⟨4096, 4992⟩ ⟨8, 2⟩ = some (4984, ⟨4096, 4984⟩) ∧
      ∀ block ∈ [(4992, 100)], 4984 + 8 ≤ block.1 := by
  have proper : ∀ request ∈ [(⟨8, 2⟩ : Request), ⟨100, 1⟩], request.Proper ⟨4096, 4096 + 1024⟩ := by
    simp only [List.forall_mem_cons, Request.Proper]
    exact ⟨⟨⟨1, by decide, rfl⟩, by decide⟩, ⟨⟨0, by decide, rfl⟩, by decide⟩, nofun⟩
  have blocks := shm_malloc_blocks_disjoint 4096 1024 (by decide) _ _ [(4992, 100)]
    ⟨4096, 4992⟩ proper (by decide)
  exact ⟨by decide, by decide, (blocks.1 4984 ⟨4096, 4984⟩ (by decide)).2.2.2.2⟩

end Miranda.ShmMalloc
