import Mathlib

/-!
# The sections of the visited map

The live map page generates the tiles of a world in sixteen sections, four in a row. A section takes a
quarter of the width and of the height, rounded up, columns from the west and rows from the north, and
ends at the border of the world. Which column a block is in is thus a quotient (`mem_columns_iff`), and
so is its row. The sizes are integers here, as they are exact below 2^53.
-/

namespace Mastermind.VisitMap

/-- The size of a world in blocks. -/
structure WorldInfo where
  width : ℤ
  height : ℤ
  width_pos : 0 < width
  height_pos : 0 < height

/-- A rectangle from one block to another, empty if it starts behind its end. -/
structure Rectangle where
  x1 : ℤ
  z1 : ℤ
  x2 : ℤ
  z2 : ℤ
deriving DecidableEq

/-- The blocks of a rectangle. -/
def Rectangle.blocks (r : Rectangle) : Set (ℤ × ℤ) := Set.Icc r.x1 r.x2 ×ˢ Set.Icc r.z1 r.z2

/-- `Math.ceil(n / 4)`. -/
def quarter (n : ℤ) : ℤ := -(-n / 4)

namespace WorldInfo

variable (w : WorldInfo)

/-- `worldX1`. -/
def worldX1 : ℤ := -(w.width / 2)

/-- `worldZ1`. -/
def worldZ1 : ℤ := -(w.height / 2)

/-- `worldX2`. -/
def worldX2 : ℤ := w.worldX1 + w.width - 1

/-- `worldZ2`. -/
def worldZ2 : ℤ := w.worldZ1 + w.height - 1

/-- The rectangle of `fullVisitCommand`. -/
def whole : Rectangle := ⟨w.worldX1, w.worldZ1, w.worldX2, w.worldZ2⟩

/-- The rectangle of `visitCommand`, of the section that is chosen. -/
def visited (visitSection : Fin 16) : Rectangle :=
  let sectionColumn : ℤ := visitSection.val % 4
  let sectionRow : ℤ := visitSection.val / 4
  let sectionWidth := quarter w.width
  let sectionHeight := quarter w.height
  let visitX1 := w.worldX1 + sectionColumn * sectionWidth
  let visitX2 := min w.worldX2 (visitX1 + sectionWidth - 1)
  let visitZ2 := w.worldZ2 - sectionRow * sectionHeight
  let visitZ1 := max w.worldZ1 (visitZ2 - sectionHeight + 1)
  ⟨visitX1, visitZ1, visitX2, visitZ2⟩

end WorldInfo

/-- A quarter is positive, and four of them are enough. -/
theorem quarter_spec {n : ℤ} (h : 0 < n) : 0 < quarter n ∧ n ≤ 4 * quarter n := by
  unfold quarter
  omega

/-- A range that is cut into pieces of one length from its start: a number is in the piece that its
distance from the start says. -/
theorem mem_columns_iff {start last len c x : ℤ} (hlen : 0 < len) :
    x ∈ Set.Icc (start + c * len) (min last (start + c * len + len - 1)) ↔
      x ≤ last ∧ (x - start) / len = c := by
  rw [Set.mem_Icc, le_min_iff, Int.ediv_eq_iff_of_pos hlen]
  constructor
  · rintro ⟨hfrom, hlast, hto⟩
    exact ⟨hlast, by linarith, by linarith⟩
  · rintro ⟨hlast, hfrom, hto⟩
    exact ⟨by linarith, hlast, by linarith⟩

/-- The same from its end. -/
theorem mem_rows_iff {first last len r z : ℤ} (hlen : 0 < len) :
    z ∈ Set.Icc (max first (last - r * len - len + 1)) (last - r * len) ↔
      first ≤ z ∧ (last - z) / len = r := by
  rw [Set.mem_Icc, max_le_iff, Int.ediv_eq_iff_of_pos hlen]
  constructor
  · rintro ⟨⟨hfirst, hfrom⟩, hto⟩
    exact ⟨hfirst, by linarith, by linarith⟩
  · rintro ⟨hfirst, hfrom, hto⟩
    exact ⟨⟨hfirst, by linarith⟩, by linarith⟩

namespace WorldInfo

variable (w : WorldInfo)

/-- Which column and which row a block of a section is in. -/
theorem mem_visited_iff (s : Fin 16) (x z : ℤ) : (x, z) ∈ (w.visited s).blocks ↔
    (x ≤ w.worldX2 ∧ (x - w.worldX1) / quarter w.width = (s.val : ℤ) % 4) ∧
      w.worldZ1 ≤ z ∧ (w.worldZ2 - z) / quarter w.height = (s.val : ℤ) / 4 := by
  rw [← mem_columns_iff (quarter_spec w.width_pos).1, ← mem_rows_iff (quarter_spec w.height_pos).1]
  exact Iff.rfl

/-- A distance within the range is in one of four pieces. -/
theorem quotient_mem_range {d n : ℤ} (hn : 0 < n) (h : d < n) :
    0 ≤ d ↔ 0 ≤ d / quarter n ∧ d / quarter n < 4 := by
  obtain ⟨hpos, hfour⟩ := quarter_spec hn
  rw [Int.ediv_lt_iff_lt_mul hpos, Int.ediv_nonneg_iff_of_pos hpos]
  exact (and_iff_left (h.trans_le hfour)).symm

/-- The sections have no block in common, and together they are the whole world. -/
theorem visited_partition :
    (Pairwise fun s t => Disjoint (w.visited s).blocks (w.visited t).blocks) ∧
      ⋃ s, (w.visited s).blocks = w.whole.blocks := by
  constructor
  · intro s t hne
    rw [Set.disjoint_left]
    rintro ⟨x, z⟩ hs ht
    obtain ⟨⟨-, hcolumn⟩, -, hrow⟩ := (w.mem_visited_iff s x z).mp hs
    obtain ⟨⟨-, hcolumn'⟩, -, hrow'⟩ := (w.mem_visited_iff t x z).mp ht
    have hsame : s.val = t.val := by omega
    exact hne (Fin.ext hsame)
  · ext ⟨x, z⟩
    have hwhole : (x, z) ∈ w.whole.blocks ↔
        (x ≤ w.worldX2 ∧ 0 ≤ x - w.worldX1) ∧ w.worldZ1 ≤ z ∧ 0 ≤ w.worldZ2 - z := by
      rw [sub_nonneg, sub_nonneg, and_comm (a := x ≤ w.worldX2)]
      exact Iff.rfl
    have hx : x ≤ w.worldX2 → x - w.worldX1 < w.width := by
      unfold worldX2
      omega
    have hz : w.worldZ1 ≤ z → w.worldZ2 - z < w.height := by
      unfold worldZ2
      omega
    rw [Set.mem_iUnion, hwhole]
    constructor
    · rintro ⟨s, hs⟩
      obtain ⟨⟨hlast, hcolumn⟩, hfirst, hrow⟩ := (w.mem_visited_iff s x z).mp hs
      have hlt := s.isLt
      exact ⟨⟨hlast, (quotient_mem_range w.width_pos (hx hlast)).mpr (by omega)⟩, hfirst,
        (quotient_mem_range w.height_pos (hz hfirst)).mpr (by omega)⟩
    · rintro ⟨⟨hlast, hleft⟩, hfirst, hbelow⟩
      obtain ⟨hc, hc'⟩ := (quotient_mem_range w.width_pos (hx hlast)).mp hleft
      obtain ⟨hr, hr'⟩ := (quotient_mem_range w.height_pos (hz hfirst)).mp hbelow
      -- the section of that column and that row
      obtain ⟨c, hcolumn⟩ := Int.eq_ofNat_of_zero_le hc
      obtain ⟨r, hrow⟩ := Int.eq_ofNat_of_zero_le hr
      refine ⟨⟨r * 4 + c, by omega⟩, (w.mem_visited_iff _ x z).mpr ⟨⟨hlast, ?_⟩, hfirst, ?_⟩⟩
      · rw [hcolumn]
        push_cast
        omega
      · rw [hrow]
        push_cast
        omega

end WorldInfo

end Mastermind.VisitMap
