import Miranda.Lib.Checked
import Miranda.Lib.Slope
import Miranda.Vision.Pixels
import Mathlib.Algebra.Order.Ring.Abs

/-!
# Drawing lines: `draw_bresham_line`

The two branches of the source are one loop, once along the columns and once along the rows:
it counts the coordinate in which the end points are further apart, the major one, and an error
term tells when the minor one makes a step. The end points are exchanged first if the major
coordinate would fall. What the loop gives to `img_write_char` is collected as well.

Overflow is undefined and has no result. While the loop goes through the points of the line
nothing overflows, as the end points are closer than `2 ^ 29`, if the number of pixels is an `int`
and with it the index of each pixel. But behind the last point the
loop steps once more, in the major coordinate, and in the minor one too if the line is steep
enough, and this last step, which no pixel needs, may leave the type `int`.
-/

namespace Miranda.Vision

open Checked Slope List Option

/-- The coordinate that the loop counts. -/
inductive Axis where
  | x
  | y
  deriving DecidableEq

namespace Axis

def major : Axis → Pt → Int
  | .x, p => p.x
  | .y, p => p.y

def minor : Axis → Pt → Int
  | .x, p => p.y
  | .y, p => p.x

def place : Axis → Int → Int → Pt
  | .x, major, minor => ⟨major, minor⟩
  | .y, major, minor => ⟨minor, major⟩

end Axis

/-- What the loop reads: `dx`, `dy` and `dup`, by the axis. -/
structure Stroke where
  axis : Axis
  dMajor : Int
  dMinor : Int
  dup : Int

/-- The variables of the loop, the image, and the points given to `img_write_char` so far. -/
structure Drawing (α : Type) where
  minor : Int
  error : Int
  outbuf : Image α
  visited : List Pt

section Code

variable {α : Type}

def imgWriteChar (outbuf : Image α) (p : Pt) (color : α) : Option (Image α) :=
  if outbuf.fmt.Inside p then outbuf.setPx p color else some outbuf

/-- The body of the loop. -/
def lineStep (stroke : Stroke) (color : α) (major : Int) (drawing : Drawing α) :
    Option (Drawing α) := do
  let point := stroke.axis.place major drawing.minor
  let outbuf ← imgWriteChar drawing.outbuf point color
  let visited := drawing.visited ++ [point]
  let rise ← checked (stroke.dMinor * 2)
  let error ← checked (drawing.error + rise)
  if 0 < error then
    let way ← checked (stroke.dMajor * 2)
    let error ← checked (error - way)
    let minor ← checked (drawing.minor + stroke.dup)
    return ⟨minor, error, outbuf, visited⟩
  else return ⟨drawing.minor, error, outbuf, visited⟩

def lineLoop (stroke : Stroke) (color : α) (last major : Int) (drawing : Drawing α) :
    Option (Drawing α) :=
  if major ≤ last then
    (lineStep stroke color major drawing).bind fun drawing =>
      if IsInt (major + 1) then lineLoop stroke color last (major + 1) drawing else none
  else some drawing
termination_by (last + 1 - major).toNat

/-- The difference in the minor coordinate, turned around if it is negative. -/
def upward (dMinor : Int) : Option Int := if dMinor < 0 then checked (-dMinor) else some dMinor

/-- A branch of the function. -/
def drawAlong (axis : Axis) (dMajor dMinor : Int) (a b : Pt) (outbuf : Image α) (color : α) :
    Option (Drawing α) := do
  let dup := if dMinor < 0 then -1 else 1
  let dMinor ← upward dMinor
  let length ← checked |dMajor|
  let error ← checked (-length)
  lineLoop ⟨axis, dMajor, dMinor, dup⟩ color (axis.major b) (axis.major a)
    ⟨axis.minor a, error, outbuf, []⟩

/-- The exchange of the end points. -/
def swapEnds (a b : Pt) : Option (Pt × Pt) := do
  let wide ← (checked (b.x - a.x)).bind (checked |·|)
  let high ← (checked (b.y - a.y)).bind (checked |·|)
  if (if wide > high then a.x > b.x else a.y > b.y) then return (b, a) else return (a, b)

/-- The function behind the exchange. -/
def drawOrdered (a b : Pt) (outbuf : Image α) (color : α) : Option (Drawing α) := do
  let dx ← checked (b.x - a.x)
  let dy ← checked (b.y - a.y)
  let wide ← checked |dx|
  let high ← checked |dy|
  if wide > high then drawAlong .x dx dy a b outbuf color
  else drawAlong .y dy dx a b outbuf color

def drawBreshamLine (a b : Pt) (outbuf : Image α) (color : α) : Option (Drawing α) := do
  let (a, b) ← swapEnds a b
  drawOrdered a b outbuf color

end Code

/-! ### What is drawn -/

/-- The major coordinate of a line. -/
def longer (a b : Pt) : Axis := if |b.x - a.x| > |b.y - a.y| then .x else .y

/-- The end points in the order of the loop. -/
def lineEnds (a b : Pt) : Pt × Pt :=
  if (longer a b).major a > (longer a b).major b then (b, a) else (a, b)

/-- The step behind the last point stays within the type `int`. -/
def StepsOut (axis : Axis) (first last : Pt) : Prop :=
  IsInt (axis.major last + 1) ∧
    (2 * |axis.minor last - axis.minor first| ≤ axis.major last - axis.major first ∨
      IsInt (axis.minor last + if axis.minor last - axis.minor first < 0 then -1 else 1))

instance (axis : Axis) (first last : Pt) : Decidable (StepsOut axis first last) :=
  inferInstanceAs (Decidable (_ ∧ _))

/-- The drawing of the line between two points. The line is `minor - minor a` by
`major - major a` as the end points are apart, and a half is compared after multiplying with
twice the way. -/
structure DrawsLine {α : Type} (axis : Axis) (a b : Pt) (outbuf : Image α) (color : α)
    (drawing : Drawing α) : Prop where
  /-- One point for each value of the major coordinate. -/
  majors : drawing.visited.map axis.major =
    (List.range (|axis.major b - axis.major a|.toNat + 1)).map
      fun (k : Nat) => min (axis.major a) (axis.major b) + k
  visits_a : a ∈ drawing.visited
  visits_b : b ∈ drawing.visited
  near : ∀ p ∈ drawing.visited,
    2 * |(axis.minor p - axis.minor a) * (axis.major b - axis.major a) -
      (axis.major p - axis.major a) * (axis.minor b - axis.minor a)| ≤
      |axis.major b - axis.major a|
  neighbours : ∀ (k : Nat) (p q : Pt), drawing.visited[k]? = some p →
    drawing.visited[k + 1]? = some q → p.Neighbour q
  /-- Outside the image there are no pixels. -/
  pixels : ∀ p, drawing.outbuf.getPx p =
    if p ∈ drawing.visited then (outbuf.getPx p).map fun _ => color else outbuf.getPx p
  fmt : drawing.outbuf.fmt = outbuf.fmt

section Writing

variable {α : Type} {outbuf : Image α} {color : α}

/-- The image with a point in the color, if the point is in the image. -/
def paint (color : α) (outbuf : Image α) (p : Pt) : Image α :=
  if outbuf.fmt.Inside p then outbuf.set (outbuf.fmt.offset p) color else outbuf

theorem paint_fmt (p : Pt) : (paint color outbuf p).fmt = outbuf.fmt := by
  rw [paint]
  split
  · rfl
  · rfl

theorem imgWriteChar_eq (small : outbuf.fmt.w * outbuf.fmt.h ≤ intMax) (p : Pt) :
    imgWriteChar outbuf p color = some (paint color outbuf p) := by
  rw [imgWriteChar, paint]
  split
  · next inside => rw [Image.setPx, ImageFormat.index_eq small inside, map_some]
  · rfl

/-- Only a pixel of the image is written. -/
theorem getPx_paint (small : outbuf.fmt.w * outbuf.fmt.h ≤ intMax) (p q : Pt) :
    (paint color outbuf q).getPx p =
      if p = q then (outbuf.getPx p).map fun _ => color else outbuf.getPx p := by
  rw [paint]
  by_cases inside : outbuf.fmt.Inside q
  · rw [if_pos inside, outbuf.getPx_set p color inside small]
    by_cases same : p = q
    · rw [if_pos same, if_pos same, same, Image.getPx, if_pos inside,
        ImageFormat.index_eq small inside, bind_some,
        getElem?_eq_getElem (outbuf.offset_lt inside), map_some]
    · rw [if_neg same, if_neg same]
  · rw [if_neg inside]
    by_cases same : p = q
    · rw [if_pos same, same, Image.getPx, if_neg inside, map_none]
    · rw [if_neg same]

theorem foldl_paint_fmt (points : List Pt) :
    (points.foldl (paint color) outbuf).fmt = outbuf.fmt := by
  induction points generalizing outbuf with
  | nil => rfl
  | cons point points ih =>
    rw [foldl_cons, ih, paint_fmt]

theorem getPx_foldl_paint (small : outbuf.fmt.w * outbuf.fmt.h ≤ intMax) (points : List Pt)
    (p : Pt) : (points.foldl (paint color) outbuf).getPx p =
      if p ∈ points then (outbuf.getPx p).map fun _ => color else outbuf.getPx p := by
  induction points generalizing outbuf with
  | nil => rw [if_neg not_mem_nil, foldl_nil]
  | cons point points ih =>
    rw [foldl_cons, ih (by rwa [paint_fmt]), getPx_paint small]
    by_cases here : p = point
    · rw [if_pos here, if_pos (mem_cons.mpr (.inl here)), Option.map_map]
      exact ite_self _
    · simp [here]

end Writing

section Loop

variable {α : Type} {stroke : Stroke} {start : Pt} {outbuf : Image α} {color : α}

theorem Axis.major_place (axis : Axis) (major minor : Int) :
    axis.major (axis.place major minor) = major := by
  cases axis <;> rfl

theorem Axis.minor_place (axis : Axis) (major minor : Int) :
    axis.minor (axis.place major minor) = minor := by
  cases axis <;> rfl

theorem Axis.place_major_minor (axis : Axis) (p : Pt) :
    axis.place (axis.major p) (axis.minor p) = p := by
  cases axis <;> rfl

/-- The values of a branch. -/
structure Stroke.Level (stroke : Stroke) : Prop where
  nonneg : 0 ≤ stroke.dMinor
  slow : stroke.dMinor ≤ stroke.dMajor
  short : stroke.dMajor < 2 ^ 29
  unit : stroke.dup = 1 ∨ stroke.dup = -1

def Stroke.minorAt (stroke : Stroke) (start : Pt) (k : Nat) : Int :=
  stroke.axis.minor start + stroke.dup * (track stroke.dMajor stroke.dMinor k).steps

def Stroke.point (stroke : Stroke) (start : Pt) (k : Nat) : Pt :=
  stroke.axis.place (stroke.axis.major start + k) (stroke.minorAt start k)

/-- The points of the line that the loop has seen. -/
def Stroke.points (stroke : Stroke) (start : Pt) (count : Nat) : List Pt :=
  (List.range count).map (stroke.point start)

/-- The drawing after a number of rounds of the loop. -/
def Stroke.drawn (stroke : Stroke) (start : Pt) (outbuf : Image α) (color : α) (count : Nat) :
    Drawing α where
  minor := stroke.minorAt start count
  error := (track stroke.dMajor stroke.dMinor count).error
  outbuf := (stroke.points start count).foldl (paint color) outbuf
  visited := stroke.points start count

theorem Stroke.points_succ (stroke : Stroke) (start : Pt) (count : Nat) :
    stroke.points start (count + 1) =
      stroke.points start count ++ [stroke.point start count] := by
  rw [Stroke.points, range_succ, map_append]
  rfl

theorem Stroke.drawn_zero : stroke.drawn start outbuf color 0 =
    ⟨stroke.axis.minor start, -stroke.dMajor, outbuf, []⟩ := by
  rw [Stroke.drawn, Stroke.minorAt, track, Int.mul_zero, Int.add_zero]
  rfl

/-- One round, which is undefined only where the minor coordinate leaves the type. -/
theorem lineStep_drawn (level : stroke.Level)
    (small : outbuf.fmt.w * outbuf.fmt.h ≤ intMax) (count : Nat)
    (isInt : IsInt (stroke.minorAt start count)) :
    lineStep stroke color (stroke.axis.major start + count)
        (stroke.drawn start outbuf color count) =
      if IsInt (stroke.minorAt start (count + 1)) then
        some (stroke.drawn start outbuf color (count + 1))
      else none := by
  obtain ⟨nonneg, slow, short, _⟩ := level
  obtain ⟨lower, upper⟩ := error_bounds nonneg slow count
  have isIntRise : IsInt (stroke.dMinor * 2) := by
    rw [IsInt, intMin, intMax]
    omega
  have isIntError :
      IsInt ((track stroke.dMajor stroke.dMinor count).error + stroke.dMinor * 2) := by
    rw [IsInt, intMin, intMax]
    omega
  have isIntWay : IsInt (stroke.dMajor * 2) := by
    rw [IsInt, intMin, intMax]
    omega
  have isIntBack : IsInt ((track stroke.dMajor stroke.dMinor count).error + stroke.dMinor * 2 -
      stroke.dMajor * 2) := by
    rw [IsInt, intMin, intMax]
    omega
  have written (p : Pt) : imgWriteChar ((stroke.points start count).foldl (paint color) outbuf) p
      color = some (paint color ((stroke.points start count).foldl (paint color) outbuf) p) :=
    imgWriteChar_eq (by rwa [foldl_paint_fmt]) p
  simp only [lineStep, Stroke.drawn, written, checked_of_isInt isIntRise,
    checked_of_isInt isIntError, checked_of_isInt isIntWay, checked_of_isInt isIntBack,
    bind_eq_bind, bind_some]
  by_cases rises : 0 < (track stroke.dMajor stroke.dMinor count).error + stroke.dMinor * 2
  · have next : track _ _ (count + 1) =
        ⟨(track _ _ count).steps + 1,
          (track _ _ count).error + stroke.dMinor * 2 -
            stroke.dMajor * 2⟩ := if_pos rises
    have minor : stroke.minorAt start (count + 1) = stroke.minorAt start count + stroke.dup := by
      rw [Stroke.minorAt, next, Stroke.minorAt, Int.mul_add, Int.mul_one, Int.add_assoc]
    rw [if_pos rises, ← minor, Stroke.points_succ, foldl_append, next]
    by_cases inside : IsInt (stroke.minorAt start (count + 1))
    · rw [checked_of_isInt inside, if_pos inside]
      rfl
    · rw [checked_eq_none inside, if_neg inside]
      rfl
  · have next : track _ _ (count + 1) =
        ⟨(track _ _ count).steps,
          (track _ _ count).error + stroke.dMinor * 2⟩ := if_neg rises
    have minor : stroke.minorAt start (count + 1) = stroke.minorAt start count := by
      rw [Stroke.minorAt, next, Stroke.minorAt]
    rw [if_neg rises, minor, if_pos isInt, Stroke.points_succ, foldl_append, next]
    rfl

/-- Along the line the minor coordinate stays between its values at the ends. -/
theorem Stroke.Level.isInt_minorAt (level : stroke.Level) {count length : Nat}
    (order : count ≤ length) (startMinor : IsInt (stroke.axis.minor start))
    (endMinor : IsInt (stroke.minorAt start length)) : IsInt (stroke.minorAt start count) := by
  have nonneg := steps_nonneg stroke.dMajor stroke.dMinor count
  have mono := steps_monotone stroke.dMajor stroke.dMinor order
  rw [Stroke.minorAt] at endMinor ⊢
  rcases level.unit with up | down
  · rw [up] at endMinor ⊢
    exact startMinor.between endMinor (by omega) (by omega)
  · rw [down] at endMinor ⊢
    exact endMinor.between startMinor (by omega) (by omega)

/-- The loop from one of its rounds on. Before the last round nothing leaves the type. -/
theorem lineLoop_drawn (level : stroke.Level)
    (small : outbuf.fmt.w * outbuf.fmt.h ≤ intMax) {length : Nat}
    (startMajor : IsInt (stroke.axis.major start)) (startMinor : IsInt (stroke.axis.minor start))
    (endMajor : IsInt (stroke.axis.major start + length))
    (endMinor : IsInt (stroke.minorAt start length))
    (left count : Nat) (rounds : count + left = length) :
    lineLoop stroke color (stroke.axis.major start + length) (stroke.axis.major start + count)
        (stroke.drawn start outbuf color count) =
      if IsInt (stroke.axis.major start + length + 1) ∧
          IsInt (stroke.minorAt start (length + 1)) then
        some (stroke.drawn start outbuf color (length + 1))
      else none := by
  have isInt := level.isInt_minorAt (show count ≤ length by omega) startMinor endMinor
  induction left generalizing count with
  | zero =>
    obtain rfl : count = length := rounds
    rw [lineLoop, if_pos (Int.le_refl _), lineStep_drawn level small count isInt]
    by_cases minor : IsInt (stroke.minorAt start (count + 1))
    · rw [if_pos minor, bind_some]
      by_cases major : IsInt (stroke.axis.major start + count + 1)
      · rw [if_pos major, if_pos ⟨major, minor⟩, lineLoop, if_neg (by omega)]
      · rw [if_neg major, if_neg fun both => major both.1]
    · rw [if_neg minor, if_neg fun both => minor both.2]
      rfl
  | succ left ih =>
    have next := level.isInt_minorAt (show count + 1 ≤ length by omega) startMinor endMinor
    have major : IsInt (stroke.axis.major start + count + 1) :=
      startMajor.between endMajor (by omega) (by omega)
    rw [lineLoop, if_pos (by omega), lineStep_drawn level small count isInt, if_pos next,
      bind_some, if_pos major, Int.add_assoc _ (count : Int) 1]
    exact ih (count + 1) (by omega) next

end Loop

/-! ### A branch -/

section Branch

variable {α : Type} {axis : Axis} {a b : Pt} {outbuf : Image α} {color : α}

/-- The loop goes up, its coordinate is the longer one, and nothing is too far away. -/
structure Along (axis : Axis) (a b : Pt) : Prop where
  order : axis.major a ≤ axis.major b
  longer : |axis.minor b - axis.minor a| ≤ axis.major b - axis.major a
  short : axis.major b - axis.major a < 2 ^ 29
  startMajor : IsInt (axis.major a)
  startMinor : IsInt (axis.minor a)
  endMajor : IsInt (axis.major b)
  endMinor : IsInt (axis.minor b)

def strokeOf (axis : Axis) (a b : Pt) : Stroke where
  axis := axis
  dMajor := axis.major b - axis.major a
  dMinor := |axis.minor b - axis.minor a|
  dup := if axis.minor b - axis.minor a < 0 then -1 else 1

theorem dup_mul_dMinor :
    (strokeOf axis a b).dup * (strokeOf axis a b).dMinor = axis.minor b - axis.minor a := by
  show (if axis.minor b - axis.minor a < 0 then -1 else 1) * |axis.minor b - axis.minor a| = _
  by_cases falls : axis.minor b - axis.minor a < 0
  · rw [if_pos falls, abs_of_neg falls, neg_one_mul, neg_neg]
  · rw [if_neg falls, abs_of_nonneg (Int.not_lt.mp falls), one_mul]

def lengthOf (axis : Axis) (a b : Pt) : Nat := (axis.major b - axis.major a).toNat

namespace Along

variable (along : Along axis a b)
include along

theorem level : (strokeOf axis a b).Level where
  nonneg := abs_nonneg _
  slow := along.longer
  short := along.short
  unit := by
    rw [strokeOf]
    split
    · exact .inr rfl
    · exact .inl rfl

theorem whole : (lengthOf axis a b : Int) = axis.major b - axis.major a :=
  Int.toNat_of_nonneg (Int.sub_nonneg_of_le along.order)

theorem minorAt_end : (strokeOf axis a b).minorAt a (lengthOf axis a b) = axis.minor b := by
  rw [Stroke.minorAt, steps_end along.level.nonneg along.level.slow _ along.whole, dup_mul_dMinor]
  exact add_sub_cancel _ _

theorem minorAt_beyond : (strokeOf axis a b).minorAt a (lengthOf axis a b + 1) =
    if 2 * |axis.minor b - axis.minor a| ≤ axis.major b - axis.major a then axis.minor b
    else axis.minor b + if axis.minor b - axis.minor a < 0 then -1 else 1 := by
  have atEnd := along.minorAt_end
  rw [Stroke.minorAt, steps_end along.level.nonneg along.level.slow _ along.whole] at atEnd
  rw [Stroke.minorAt, steps_beyond along.level.nonneg along.level.slow _ along.whole]
  show _ = if 2 * (strokeOf axis a b).dMinor ≤ (strokeOf axis a b).dMajor then _
    else _ + (strokeOf axis a b).dup
  split
  · exact atEnd
  · rw [Int.mul_add, Int.mul_one, ← Int.add_assoc]
    exact congrArg (· + _) atEnd

theorem stepsOut_iff : StepsOut axis a b ↔ IsInt (axis.major b + 1) ∧
    IsInt ((strokeOf axis a b).minorAt a (lengthOf axis a b + 1)) := by
  rw [along.minorAt_beyond]
  refine and_congr_right fun _ => ?_
  by_cases flat : 2 * |axis.minor b - axis.minor a| ≤ axis.major b - axis.major a
  · rw [if_pos flat]
    exact iff_of_true (.inl flat) along.endMinor
  · rw [if_neg flat]
    exact or_iff_right flat

theorem upward_eq :
    upward (axis.minor b - axis.minor a) = some |axis.minor b - axis.minor a| := by
  have slow := along.longer
  have short := along.short
  by_cases falls : axis.minor b - axis.minor a < 0
  · rw [abs_of_neg falls] at slow ⊢
    rw [upward, if_pos falls, checked_of_isInt]
    rw [IsInt, intMin, intMax]
    omega
  · rw [upward, if_neg falls, abs_of_nonneg (Int.not_lt.mp falls)]

theorem drawAlong_eq (small : outbuf.fmt.w * outbuf.fmt.h ≤ intMax) :
    drawAlong axis (axis.major b - axis.major a) (axis.minor b - axis.minor a) a b outbuf color =
    if StepsOut axis a b then
      some ((strokeOf axis a b).drawn a outbuf color (lengthOf axis a b + 1))
    else none := by
  have order := along.order
  have short := along.short
  have arrives : axis.major a + lengthOf axis a b = axis.major b := by
    rw [along.whole]
    omega
  have isIntLength : IsInt (axis.major b - axis.major a) := by
    rw [IsInt, intMin, intMax]
    omega
  have isIntError : IsInt (-(axis.major b - axis.major a)) := by
    rw [IsInt, intMin, intMax]
    omega
  rw [drawAlong, along.upward_eq, abs_of_nonneg (Int.sub_nonneg_of_le order),
    checked_of_isInt isIntLength]
  simp only [bind_eq_bind, bind_some, checked_of_isInt isIntError]
  have endMajor : IsInt ((strokeOf axis a b).axis.major a + lengthOf axis a b) := by
    show IsInt (axis.major a + lengthOf axis a b)
    rw [arrives]
    exact along.endMajor
  have endMinor : IsInt ((strokeOf axis a b).minorAt a (lengthOf axis a b)) := by
    rw [along.minorAt_end]
    exact along.endMinor
  have loop := @lineLoop_drawn α _ a outbuf color along.level small _ along.startMajor
    along.startMinor endMajor endMinor _ 0 (Nat.zero_add _)
  rw [show (strokeOf axis a b).axis.major a + lengthOf axis a b = axis.major b from arrives,
    Stroke.drawn_zero, Int.natCast_zero, Int.add_zero] at loop
  simp only [along.stepsOut_iff]
  exact loop

end Along

/-! ### The line of a branch -/

variable {count : Nat} {p start : Pt} {stroke : Stroke}

theorem mem_points :
    p ∈ stroke.points start count ↔ ∃ k < count, stroke.point start k = p := by
  rw [Stroke.points, List.mem_map]
  exact exists_congr fun _ => and_congr_left' mem_range

theorem getElem?_points {k : Nat} (found : (stroke.points start count)[k]? = some p) :
    p = stroke.point start k := by
  obtain ⟨inside, value⟩ := List.getElem?_eq_some_iff.mp found
  rw [← value]
  simp [Stroke.points]

theorem Axis.neighbour_iff (axis : Axis) (p q : Pt) : p.Neighbour q ↔
    p ≠ q ∧ |axis.major q - axis.major p| ≤ 1 ∧ |axis.minor q - axis.minor p| ≤ 1 := by
  cases axis with
  | x => exact .rfl
  | y => exact and_congr_right' and_comm

theorem point_neighbour (stroke : Stroke) (unit : stroke.dup = 1 ∨ stroke.dup = -1) (start : Pt)
    (k : Nat) : (stroke.point start k).Neighbour (stroke.point start (k + 1)) := by
  have majors : stroke.axis.major (stroke.point start (k + 1)) -
      stroke.axis.major (stroke.point start k) = 1 := by
    rw [Stroke.point, Stroke.point, Axis.major_place, Axis.major_place]
    omega
  refine (stroke.axis.neighbour_iff _ _).mpr ⟨?_, ?_, ?_⟩
  · intro same
    rw [same, Int.sub_self] at majors
    cases majors
  · rw [majors]
    exact Int.le_refl 1
  · rw [Stroke.point, Stroke.point, Axis.minor_place, Axis.minor_place, Stroke.minorAt,
      Stroke.minorAt, add_sub_add_left_eq_sub, ← Int.mul_sub]
    rcases steps_succ _ _ k with same | more
    · rw [same, Int.sub_self, Int.mul_zero]
      decide
    · rw [more, add_sub_cancel_left]
      rcases unit with up | down
      · rw [up]
        decide
      · rw [down]
        decide

namespace Along

variable (along : Along axis a b)
include along

theorem point_end : (strokeOf axis a b).point a (lengthOf axis a b) = b := by
  rw [Stroke.point, along.minorAt_end]
  show axis.place (axis.major a + lengthOf axis a b) _ = b
  rw [along.whole, add_sub_cancel, axis.place_major_minor]

theorem near (k : Nat) :
    2 * |(axis.minor ((strokeOf axis a b).point a k) - axis.minor a) *
        (axis.major b - axis.major a) -
      (axis.major ((strokeOf axis a b).point a k) - axis.major a) *
        (axis.minor b - axis.minor a)| ≤ |axis.major b - axis.major a| := by
  have level := along.level
  obtain ⟨above, below⟩ := steps_near level.nonneg level.slow k
  have minors : axis.minor ((strokeOf axis a b).point a k) - axis.minor a =
      (strokeOf axis a b).dup *
        (track _ _ k).steps :=
    (congrArg (· - axis.minor a) (axis.minor_place _ _)).trans (add_sub_cancel_left _ _)
  have majors : axis.major ((strokeOf axis a b).point a k) - axis.major a = k :=
    (congrArg (· - axis.major a) (axis.major_place _ _)).trans (add_sub_cancel_left _ _)
  have unit : |(strokeOf axis a b).dup| = 1 := by
    rcases level.unit with up | down
    · rw [up, abs_one]
    · rw [down, abs_neg, abs_one]
  rw [minors, majors, ← dup_mul_dMinor, Int.mul_assoc, Int.mul_left_comm (k : Int), ← Int.mul_sub,
    abs_mul, unit, Int.one_mul, abs_of_nonneg (Int.sub_nonneg_of_le along.order)]
  show 2 * |_ * (strokeOf axis a b).dMajor - _| ≤ (strokeOf axis a b).dMajor
  rcases abs_cases ((track (strokeOf axis a b).dMajor (strokeOf axis a b).dMinor k).steps *
    (strokeOf axis a b).dMajor - k * (strokeOf axis a b).dMinor) with ⟨equal, _⟩ | ⟨equal, _⟩
  · omega
  · omega

theorem drawsLine (small : outbuf.fmt.w * outbuf.fmt.h ≤ intMax) :
    DrawsLine axis a b outbuf color
      ((strokeOf axis a b).drawn a outbuf color (lengthOf axis a b + 1)) where
  majors := by
    rw [abs_of_nonneg (Int.sub_nonneg_of_le along.order), min_eq_left along.order]
    show ((List.range _).map _).map _ = _
    rw [List.map_map]
    exact map_congr_left fun k _ => axis.major_place _ _
  visits_a := by
    refine mem_points.mpr ⟨0, Nat.zero_lt_succ _, ?_⟩
    rw [Stroke.point, Stroke.minorAt, track, Int.mul_zero, Int.add_zero, Int.natCast_zero,
      Int.add_zero, Axis.place_major_minor]
  visits_b := mem_points.mpr ⟨lengthOf axis a b, Nat.lt_succ_self _, along.point_end⟩
  near p visited := by
    obtain ⟨k, _, rfl⟩ := mem_points.mp visited
    exact along.near k
  neighbours k p q here next := by
    rw [getElem?_points here, getElem?_points next]
    exact point_neighbour _ along.level.unit a k
  pixels := getPx_foldl_paint small _
  fmt := foldl_paint_fmt _

end Along

theorem DrawsLine.symm {drawing : Drawing α} (draws : DrawsLine axis a b outbuf color drawing) :
    DrawsLine axis b a outbuf color drawing :=
  { draws with
    majors := by
      rw [abs_sub_comm, min_comm]
      exact draws.majors
    visits_a := draws.visits_b
    visits_b := draws.visits_a
    near p visited := by
      have turned : (axis.minor p - axis.minor b) * (axis.major a - axis.major b) -
          (axis.major p - axis.major b) * (axis.minor a - axis.minor b) =
          -((axis.minor p - axis.minor a) * (axis.major b - axis.major a) -
            (axis.major p - axis.major a) * (axis.minor b - axis.minor a)) := by ring
      rw [turned, abs_neg, abs_sub_comm (axis.major a)]
      exact draws.near p visited }

end Branch

/-! ### Any two points -/

section Ends

variable {α : Type} {a b : Pt} {outbuf : Image α} {color : α}

def Pt.Fits (p : Pt) : Prop := IsInt p.x ∧ IsInt p.y

instance (p : Pt) : Decidable p.Fits := inferInstanceAs (Decidable (_ ∧ _))

/-- Points of the type that are closer than `2 ^ 29`. -/
structure Close (a b : Pt) : Prop where
  fits_a : a.Fits
  fits_b : b.Fits
  width : |b.x - a.x| < 2 ^ 29
  height : |b.y - a.y| < 2 ^ 29

theorem longer_comm (a b : Pt) : longer b a = longer a b := by
  rw [longer, longer, abs_sub_comm a.x, abs_sub_comm a.y]

theorem longer_spec (a b : Pt) : |(longer a b).minor b - (longer a b).minor a| ≤
    |(longer a b).major b - (longer a b).major a| := by
  rw [longer]
  split
  · next wide => exact Int.le_of_lt wide
  · next high => exact Int.not_lt.mp high

/-- Points with the same major coordinate are the same. -/
theorem eq_of_major_eq (same : (longer a b).major a = (longer a b).major b) : a = b := by
  have minors := longer_spec a b
  rw [same, Int.sub_self] at minors
  have equal := abs_eq_zero.mp (le_antisymm minors (abs_nonneg _))
  rw [← Axis.place_major_minor _ a, same, ← Int.sub_eq_zero.mp equal,
    Axis.place_major_minor]

theorem lineEnds_comm (a b : Pt) : lineEnds b a = lineEnds a b := by
  rw [lineEnds, lineEnds, longer_comm]
  rcases Int.lt_trichotomy _ _ with less | same | more
  · rw [if_pos less, if_neg (Int.not_lt.mpr less.le)]
  · rw [eq_of_major_eq same]
  · rw [if_neg (Int.not_lt.mpr more.le), if_pos more]

theorem lineEnds_eq (a b : Pt) : lineEnds a b = (a, b) ∧ (longer a b).major a ≤ (longer a b).major b ∨
    lineEnds a b = (b, a) ∧ (longer b a).major b ≤ (longer b a).major a := by
  by_cases falls : (longer a b).major a > (longer a b).major b
  · refine .inr ⟨if_pos falls, ?_⟩
    rw [longer_comm]
    exact falls.le
  · exact .inl ⟨if_neg falls, Int.not_lt.mp falls⟩

theorem isInt_of_abs_lt {value : Int} (small : |value| < 2 ^ 29) : IsInt value ∧ IsInt |value| := by
  have bounds := abs_lt.mp small
  have nonneg := abs_nonneg value
  simp only [IsInt, intMin, intMax]
  omega

section

variable (close : Close a b)
include close

theorem Close.symm : Close b a :=
  ⟨close.fits_b, close.fits_a, abs_sub_comm b.x a.x ▸ close.width,
    abs_sub_comm b.y a.y ▸ close.height⟩

/-- Points in the order of the loop. -/
theorem Close.along (order : (longer a b).major a ≤ (longer a b).major b) :
    Along (longer a b) a b := by
  have spec := longer_spec a b
  obtain ⟨⟨ax, ay⟩, ⟨bx, bY⟩, width, height⟩ := close
  generalize longer a b = axis at order spec
  rw [abs_of_nonneg (a := axis.major b - axis.major a) (Int.sub_nonneg_of_le order)] at spec
  cases axis with
  | x => exact ⟨order, spec, lt_of_abs_lt width, ax, ay, bx, bY⟩
  | y => exact ⟨order, spec, lt_of_abs_lt height, ay, ax, bY, bx⟩

theorem Close.swapEnds_eq : swapEnds a b = some (lineEnds a b) := by
  obtain ⟨isIntX, isIntWidth⟩ := isInt_of_abs_lt close.width
  obtain ⟨isIntY, isIntHeight⟩ := isInt_of_abs_lt close.height
  rw [swapEnds, checked_of_isInt isIntX, checked_of_isInt isIntY]
  simp only [bind_eq_bind, bind_some, checked_of_isInt isIntWidth,
    checked_of_isInt isIntHeight]
  rw [lineEnds, longer]
  by_cases wide : |b.x - a.x| > |b.y - a.y|
  · simp only [if_pos wide]
    exact (apply_ite some _ _ _).symm
  · simp only [if_neg wide]
    exact (apply_ite some _ _ _).symm

theorem Close.drawOrdered_eq : drawOrdered a b outbuf color =
    drawAlong (longer a b) ((longer a b).major b - (longer a b).major a)
      ((longer a b).minor b - (longer a b).minor a) a b outbuf color := by
  obtain ⟨isIntX, isIntWidth⟩ := isInt_of_abs_lt close.width
  obtain ⟨isIntY, isIntHeight⟩ := isInt_of_abs_lt close.height
  simp only [drawOrdered, checked_of_isInt isIntX, checked_of_isInt isIntY,
    bind_eq_bind, bind_some, checked_of_isInt isIntWidth,
    checked_of_isInt isIntHeight]
  rw [longer]
  by_cases wide : |b.x - a.x| > |b.y - a.y|
  · simp only [if_pos wide]
    rfl
  · simp only [if_neg wide]
    rfl

/-- The drawing of points in the order of the loop. -/
theorem Close.drawOrdered_iff (small : outbuf.fmt.w * outbuf.fmt.h ≤ intMax)
    (order : (longer a b).major a ≤ (longer a b).major b) :
    (∃ drawing, drawOrdered a b outbuf color = some drawing ∧
      DrawsLine (longer a b) a b outbuf color drawing) ↔ StepsOut (longer a b) a b := by
  have along := close.along order
  rw [close.drawOrdered_eq, along.drawAlong_eq small]
  constructor
  · rintro ⟨drawing, drawn, _⟩
    by_contra leaves
    rw [if_neg leaves] at drawn
    cases drawn
  · intro stays
    exact ⟨_, if_pos stays, along.drawsLine small⟩

theorem Close.drawBreshamLine_eq : drawBreshamLine a b outbuf color =
    drawOrdered (lineEnds a b).1 (lineEnds a b).2 outbuf color := by
  rw [drawBreshamLine, close.swapEnds_eq]
  rfl

end

end Ends

end Miranda.Vision
