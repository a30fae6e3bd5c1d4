import Miranda.Lib.Runs
import Miranda.LogFile.Accessor

/-!
# Reading pages with read(2)

Files that cannot be mapped are read into a buffer of one page. `read(2)` may return any
part of what is left, and zero at the end of the file; then the rest of the page should
be filled with zeros, so that the buffer shows what a mapping of the page shows.

The loop takes what `read(2)` returned as its input: any number of bytes above zero that
are there and that were asked for, or zero at the end of the file. Errors of `read(2)` end
the program and are left out.

The zeros are put at the start of the buffer and not behind what was read. A page that
ends with the file is therefore right only by chance, except if nothing of it was in the
file, or all.
-/

namespace Miranda.LogFile

open Bytes Runs

/-- The variables of the loop in `MapNextPage`, and the position of the file. -/
structure ReadLoop where
  current : Image
  todo : Nat
  position : Nat

/-- One turn of the loop for what `read(2)` returned, with no result if it cannot return
that. -/
def ReadLoop.turn (file : List UInt8) (loop : ReadLoop) (result : Nat) : Option ReadLoop :=
  if loop.todo = 0 then none
  else if result = 0 then
    if file.length ≤ loop.position then
      some { loop with
        current := store loop.current 0 (List.replicate loop.todo 0)
        todo := 0 }
    else none
  else if result ≤ loop.todo ∧ loop.position + result ≤ file.length then
    some {
      current := store loop.current (kPageSize - loop.todo)
        ((file.drop loop.position).take result)
      todo := loop.todo - result
      position := loop.position + result }
  else none

/-- `MapNextPage` on the path that uses `read(2)`: the buffer it leaves. -/
def mapNextPage (file : List UInt8) (offset : Nat) (current : Image) (results : List Nat) :
    Option Image := do
  let loop ← results.foldlM (ReadLoop.turn file) ⟨current, kPageSize, offset⟩
  if loop.todo = 0 then some loop.current else none

/-- What a mapping of the page shows, with zeros behind the end of the file. -/
def mappedPage (file : List UInt8) (offset : Nat) : Image := fun place =>
  (file[offset + place]?).getD 0

/-- How many bytes of a page are in the file. -/
def inFile (file : List UInt8) (offset : Nat) : Nat := min (file.length - offset) kPageSize

variable {file : List UInt8} {offset : Nat} {old : Image} {loop next : ReadLoop}

/-- The loop after some bytes: it has read them, and may then have seen the end of the
file. -/
def Filled (file : List UInt8) (offset : Nat) (old : Image) (loop : ReadLoop) : Prop :=
  ∃ count, count ≤ inFile file offset ∧
    (loop = ⟨store old 0 ((file.drop offset).take count), kPageSize - count, offset + count⟩ ∨
      file.length ≤ offset + count ∧ count < kPageSize ∧ loop.todo = 0 ∧
        loop.current = store (store old 0 ((file.drop offset).take count)) 0
          (List.replicate (kPageSize - count) 0))

theorem length_slice {count : Nat} (inside : count ≤ inFile file offset) :
    ((file.drop offset).take count).length = count := by
  rw [inFile] at inside
  rw [List.length_take, List.length_drop]
  omega

variable {result : Nat} {results : List Nat} {page : Image} {place : Nat}

/-- A turn goes on filling or sees the end. -/
theorem Filled.turn (filled : Filled file offset old loop)
    (turned : loop.turn file result = some next) : Filled file offset old next := by
  obtain ⟨count, inside, filling | ⟨_, _, finished, _⟩⟩ := filled
  · subst filling
    have length := length_slice inside
    rw [inFile] at inside
    rw [ReadLoop.turn] at turned
    split at turned
    · cases turned
    · next going =>
      dsimp only at going
      split at turned
      · split at turned
        · next ended =>
          cases turned
          exact ⟨count, by rw [inFile]; omega, .inr ⟨ended, by omega, rfl, rfl⟩⟩
        · cases turned
      · split at turned
        · next positive possible =>
          cases turned
          dsimp only at possible
          refine ⟨count + result, by rw [inFile]; omega, .inl ?_⟩
          have joined := store_store old 0 ((file.drop offset).take count)
            (((file.drop offset).drop count).take result)
          rw [length, Nat.zero_add, ← List.take_add, List.drop_drop] at joined
          have start : kPageSize - (kPageSize - count) = count := by omega
          rw [start, joined, Nat.sub_sub, Nat.add_assoc]
        · cases turned
  · rw [ReadLoop.turn, if_pos finished] at turned
    cases turned

theorem filled_run (ran : results.foldlM (ReadLoop.turn file) ⟨old, kPageSize, offset⟩ = some loop) :
    Filled file offset old loop := by
  have start : Filled file offset old ⟨old, kPageSize, offset⟩ := by
    refine ⟨0, Nat.zero_le _, .inl ?_⟩
    rfl
  have run := Run.of_foldlM (fun _ _ _ turned => turned) (.nil _) results ran
  exact run.invariant start fun _ _ _ filled turned => filled.turn turned

/-- Every turn leaves less to do. -/
theorem ReadLoop.turn_lt (turned : loop.turn file result = some next) :
    next.todo < loop.todo := by
  rw [turn] at turned
  split at turned
  · cases turned
  · next going =>
    split at turned
    · split at turned
      · cases turned
        exact Nat.pos_of_ne_zero going
      · cases turned
    · split at turned
      · next positive possible =>
        cases turned
        dsimp only
        omega
      · cases turned

/-- While there is something to do, `read(2)` can return something. -/
theorem ReadLoop.exists_turn (file : List UInt8) (going : loop.todo ≠ 0) :
    ∃ result next, loop.turn file result = some next := by
  rcases Nat.lt_or_ge loop.position file.length with before | ended
  · have possible : 1 ≤ loop.todo ∧ loop.position + 1 ≤ file.length := by omega
    exact ⟨1, _, (if_neg going).trans ((if_neg (by decide)).trans (if_pos possible))⟩
  · exact ⟨0, _, (if_neg going).trans ((if_pos rfl).trans (if_pos ended))⟩

/-- However the file was read so far, the page can be finished. -/
theorem exists_finish (file : List UInt8) (todo : Nat) :
    ∀ loop : ReadLoop, loop.todo = todo →
      ∃ (results : List Nat) (final : ReadLoop),
        results.foldlM (ReadLoop.turn file) loop = some final ∧ final.todo = 0 := by
  induction todo using Nat.strongRecOn with
  | _ todo ih =>
    intro loop isTodo
    by_cases finished : loop.todo = 0
    · exact ⟨[], loop, rfl, finished⟩
    · obtain ⟨result, next, turned⟩ := ReadLoop.exists_turn file finished
      obtain ⟨results, final, ran, isZero⟩ :=
        ih _ (isTodo ▸ ReadLoop.turn_lt turned) next rfl
      refine ⟨result :: results, final, ?_, isZero⟩
      rw [List.foldlM_cons, turned]
      exact ran

theorem exists_page (file : List UInt8) (offset : Nat) (old : Image) :
    ∃ results page, mapNextPage file offset old results = some page := by
  obtain ⟨results, final, ran, isZero⟩ := exists_finish file _ _ rfl
  refine ⟨results, final.current, ?_⟩
  rw [mapNextPage, ran, Option.bind_eq_bind, Option.bind_some, if_pos isZero]

/-- What `MapNextPage` leaves, whatever the parts were that `read(2)` returned. -/
theorem mapNextPage_eq (left : mapNextPage file offset old results = some page) :
    page = store (store old 0 ((file.drop offset).take (inFile file offset))) 0
      (List.replicate (kPageSize - inFile file offset) 0) := by
  obtain ⟨loop, ran, finished⟩ := Option.bind_eq_some_iff.mp left
  split at finished
  · next isZero =>
    cases finished
    obtain ⟨count, inside, filling | ⟨ended, below, _, isPage⟩⟩ := filled_run ran
    · subst filling
      have whole : count = inFile file offset := by
        rw [inFile] at inside ⊢
        dsimp only at isZero
        omega
      have none : kPageSize - inFile file offset = 0 := by
        rw [← whole]
        exact isZero
      rw [none, List.replicate_zero, store_nil, whole]
    · have whole : count = inFile file offset := by
        rw [inFile] at inside ⊢
        omega
      rw [isPage, whole]
  · cases finished

/-- The byte at a place of the page. -/
theorem mapNextPage_place (left : mapNextPage file offset old results = some page)
    (onPage : place < kPageSize) :
    page place =
      if place < kPageSize - inFile file offset then 0
      else if place < inFile file offset then mappedPage file offset place
      else old place := by
  rw [mapNextPage_eq left]
  simp only [store, Nat.not_lt_zero, if_false, Nat.sub_zero, List.getElem?_replicate,
    List.getElem?_take, List.getElem?_drop, mappedPage]
  by_cases zeroed : place < kPageSize - inFile file offset
  · rw [if_pos zeroed, if_pos zeroed]
    rfl
  · rw [if_neg zeroed, if_neg zeroed]
    by_cases read : place < inFile file offset
    · have present : offset + place < file.length := by
        rw [inFile] at read
        omega
      rw [if_pos read, if_pos read, List.getElem?_eq_getElem present]
      rfl
    · rw [if_neg read, if_neg read]
      rfl

theorem mappedPage_inside (inside : place < inFile file offset) :
    file[offset + place]? = some (mappedPage file offset place) := by
  have present : offset + place < file.length := by
    rw [inFile] at inside
    omega
  rw [mappedPage, List.getElem?_eq_getElem present]
  rfl

/-- Behind the end of the file a mapping shows zeros. -/
theorem mappedPage_behind (onPage : place < kPageSize) (behind : inFile file offset ≤ place) :
    mappedPage file offset place = 0 := by
  have absent : file.length ≤ offset + place := by
    rw [inFile] at behind
    omega
  rw [mappedPage, List.getElem?_eq_none absent]
  rfl

/-- Reading a page gives what mapping it shows, exactly if the bytes of the file that the
zeros go over are zeros, and so is what the buffer held behind both.

Proof: place by place, from what the loop leaves there (`mapNextPage_place`). -/
theorem read_page_iff (file : List UInt8) (offset : Nat) (old page : Image) (results : List Nat)
    (left : mapNextPage file offset old results = some page) :
    (∀ place < kPageSize, page place = mappedPage file offset place) ↔
      (∀ place < min (inFile file offset) (kPageSize - inFile file offset),
          file[offset + place]? = some 0) ∧
        ∀ place, max (inFile file offset) (kPageSize - inFile file offset) ≤ place →
          place < kPageSize → old place = 0 := by
  constructor
  · intro same
    constructor
    · intro place inside
      have here := same place (by omega)
      rw [mapNextPage_place left (by omega), if_pos (by omega)] at here
      rw [mappedPage_inside (by omega), ← here]
    · intro place behind onPage
      have here := same place onPage
      rwa [mapNextPage_place left onPage, if_neg (by omega), if_neg (by omega),
        mappedPage_behind onPage (by omega)] at here
  · rintro ⟨zeros, blank⟩ place onPage
    rw [mapNextPage_place left onPage]
    split
    · next zeroed =>
      rcases Nat.lt_or_ge place (inFile file offset) with inside | behind
      · have isZero := zeros place (by omega)
        rw [mappedPage_inside inside] at isZero
        exact (Option.some.inj isZero).symm
      · rw [mappedPage_behind onPage behind]
    · next kept =>
      split
      · rfl
      · next behind =>
        rw [mappedPage_behind onPage (by omega)]
        exact blank place (by omega) onPage

/-- A page that is in the file whole is read right. -/
theorem read_page_iff_whole :
    ∃ results page, mapNextPage (List.replicate 16384 5) 0 blank results = some page ∧
      ∀ place < kPageSize, page place = mappedPage (List.replicate 16384 5) 0 place := by
  obtain ⟨results, page, left⟩ := exists_page _ 0 blank
  have whole : inFile (.replicate 16384 5) 0 = kPageSize := by
    rw [inFile, List.length_replicate]
    rfl
  refine ⟨results, page, left, (read_page_iff _ 0 blank page results left).mpr ⟨?_, ?_⟩⟩
  · rw [whole]
    intro place inside
    omega
  · intro place _ _
    rfl

/-- Of a file with three bytes the first is not shown, but a zero. -/
theorem read_page_loses_bytes :
    ∃ page, mapNextPage [1, 2, 3] 0 blank [2, 1, 0] = some page ∧ page 0 = 0 ∧
      mappedPage [1, 2, 3] 0 0 = 1 := by
  have left : mapNextPage [1, 2, 3] 0 blank [2, 1, 0] = some _ := rfl
  refine ⟨_, left, ?_, rfl⟩
  rw [mapNextPage_place left (by decide), if_pos (by decide)]

end Miranda.LogFile
