import Miranda.Vision.Threshold

/-!
# Blobs: `find_blobs`

Two pointers move over the ranges of a row and of the row above it. Ranges that touch go
into one blob. The blobs are the roots of a disjoint set whose elements carry the ranges
put into them; when two of them become one, their rows are merged. Reading past the end
of a vector is undefined in the source, and here gives no result.
-/

namespace Miranda.Vision

/-! ### `DisjointSet` -/

/-- A negative entry marks a root; others are the number of the parent. -/
structure DisjointSet where
  ufindl : List Int := []
  deriving DecidableEq

namespace DisjointSet

def add (set : DisjointSet) : DisjointSet × Nat :=
  (⟨set.ufindl ++ [-1]⟩, set.ufindl.length)

/-- `find` with its stores to the entries on the way, which then point at the root. The
first argument bounds the depth of the recursion. -/
def findIn : Nat → List Int → Nat → Option (Nat × List Int)
  | 0, _, _ => none
  | fuel + 1, ufindl, bid =>
    match ufindl[bid]? with
    | none => none
    | some tid =>
      if tid ≤ -1 then some (bid, ufindl)
      else
        match findIn fuel ufindl tid.toNat with
        | none => none
        | some (root, stored) => some (root, stored.set bid root)

/-- No element is further from its root than there are elements. -/
def find (set : DisjointSet) (bid : Nat) : Option (Nat × DisjointSet) :=
  (findIn (set.ufindl.length + 1) set.ufindl bid).map fun (root, stored) => (root, ⟨stored⟩)

end DisjointSet

/-! ### `BlobBuilder` -/

structure BlobBuilder where
  img : RangeImage
  mini : Nat
  deriving DecidableEq

/-- Empty rows are appended until there is one with the given number. -/
def growRows (ranges : List (List ImageRange)) (i : Nat) : List (List ImageRange) :=
  ranges ++ List.replicate (i + 1 - ranges.length) []

/-- Two rows into one by their first columns, the second one first where they agree. -/
def mergeRow (cur prev : List ImageRange) : List ImageRange :=
  cur.merge prev fun left right => left.st < right.st

namespace BlobBuilder

def new (i : Nat) : BlobBuilder := ⟨{ mini := i }, i⟩

def add (builder : BlobBuilder) (i : Nat) (rng : ImageRange) : BlobBuilder :=
  let row := i - builder.mini
  { builder with
    img := { builder.img with
      ranges := (growRows builder.img.ranges row).modify row (· ++ [rng]) } }

/-- The rows of another blob from the given one on. -/
def mergeRows (ranges : List (List ImageRange)) (i : Nat) :
    List (List ImageRange) → List (List ImageRange)
  | [] => ranges
  | prev :: rows => mergeRows ((growRows ranges i).modify i (mergeRow · prev)) (i + 1) rows

def merge (builder other : BlobBuilder) : BlobBuilder :=
  { builder with
    img := { builder.img with
      ranges := mergeRows builder.img.ranges (other.mini - builder.mini) other.img.ranges } }

end BlobBuilder

/-! ### `BlobDisjointSet` -/

structure BlobDisjointSet where
  djSet : DisjointSet := {}
  items : List BlobBuilder := []
  deriving DecidableEq

namespace BlobDisjointSet

def addToBlob (blobs : BlobDisjointSet) (bid i : Nat) (rng : ImageRange) :
    Option (Nat × BlobDisjointSet) := do
  let (bid, djSet) ← blobs.djSet.find bid
  let item ← blobs.items[bid]?
  some (bid, ⟨djSet, blobs.items.set bid (item.add i rng)⟩)

def addBlob (blobs : BlobDisjointSet) (i : Nat) (rng : ImageRange) : Nat × BlobDisjointSet :=
  let (djSet, bid) := blobs.djSet.add
  (bid, ⟨djSet, blobs.items ++ [(BlobBuilder.new i).add i rng]⟩)

/-- The blob that starts further down goes into the other one. -/
def mergeInBlob (blobs : BlobDisjointSet) (cbid pbid : Nat) : Option BlobDisjointSet := do
  let (cbid, djSet) ← blobs.djSet.find cbid
  let (pbid, djSet) ← djSet.find pbid
  if cbid ≠ pbid then
    let current ← blobs.items[cbid]?
    let previous ← blobs.items[pbid]?
    if current.mini > previous.mini then
      some ⟨⟨djSet.ufindl.set cbid pbid⟩, blobs.items.set pbid (previous.merge current)⟩
    else some ⟨⟨djSet.ufindl.set pbid cbid⟩, blobs.items.set cbid (current.merge previous)⟩
  else some ⟨djSet, blobs.items⟩

def getBlobs (blobs : BlobDisjointSet) : List RangeImage :=
  (blobs.items.zip blobs.djSet.ufindl).filterMap fun (item, up) =>
    if up < 0 then some item.img else none

end BlobDisjointSet

/-! ### `find_blobs` -/

/-- A range of the row that has no blob yet gets a new one. -/
def place (i : Nat) (rcur : ImageRange) (mj : Nat) (cids : List Nat) (blobs : BlobDisjointSet) :
    List Nat × BlobDisjointSet :=
  if cids.length = mj then
    let (bid, blobs) := blobs.addBlob i rcur
    (cids ++ [bid], blobs)
  else (cids, blobs)

/-- The loop over what is left of the row when the row above is used up. -/
def placeRest (i : Nat) : List ImageRange → Nat → List Nat → BlobDisjointSet →
    List Nat × BlobDisjointSet
  | [], _, cids, blobs => (cids, blobs)
  | rcur :: curs, mj, cids, blobs =>
    let (cids, blobs) := place i rcur mj cids blobs
    placeRest i curs (mj + 1) cids blobs

/-- A range goes into the blob of one that it touches. -/
def touch (i : Nat) (rcur : ImageRange) (pid mj : Nat) (cids : List Nat)
    (blobs : BlobDisjointSet) : Option (List Nat × BlobDisjointSet) :=
  if cids.length > mj then do
    let cid ← cids[mj]?
    let blobs ← blobs.mergeInBlob cid pid
    some (cids, blobs)
  else do
    let (bid, blobs) ← blobs.addToBlob pid i rcur
    some (cids ++ [bid], blobs)

/-- The loop over two rows. What is left of the row above comes with the numbers of its
blobs. -/
def sweep (i : Nat) : List (ImageRange × Nat) → List ImageRange → Nat → List Nat →
    BlobDisjointSet → Option (List Nat × BlobDisjointSet)
  | (rprev, pid) :: prevs, rcur :: curs, mj, cids, blobs =>
    if rcur.last < rprev.st then
      let (cids, blobs) := place i rcur mj cids blobs
      sweep i ((rprev, pid) :: prevs) curs (mj + 1) cids blobs
    else if rprev.last < rcur.st then sweep i prevs (rcur :: curs) mj cids blobs
    else
      match touch i rcur pid mj cids blobs with
      | none => none
      | some (cids, blobs) =>
        if rcur.last < rprev.last then sweep i ((rprev, pid) :: prevs) curs (mj + 1) cids blobs
        else sweep i prevs (rcur :: curs) mj cids blobs
  | _, curs, mj, cids, blobs => some (placeRest i curs mj cids blobs)
  termination_by prevs curs => prevs.length + curs.length

/-- The loop over the rows after the first one. -/
def sweepRows (i : Nat) (pranges : List ImageRange) (pids : List Nat) :
    List (List ImageRange) → BlobDisjointSet → Option BlobDisjointSet
  | [], blobs => some blobs
  | cranges :: rows, blobs => do
    let (cids, blobs) ← sweep i (pranges.zip pids) cranges 0 [] blobs
    sweepRows (i + 1) cranges cids rows blobs

/-- The first row is read without a test that there is one. -/
def findBlobs (rimg : RangeImage) : Option (List RangeImage) :=
  match rimg.ranges with
  | [] => none
  | first :: rows =>
    let (pids, blobs) := placeRest 0 first 0 [] {}
    (sweepRows 1 first pids rows blobs).map BlobDisjointSet.getBlobs

end Miranda.Vision
