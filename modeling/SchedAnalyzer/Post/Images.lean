import Mathlib.Tactic.IntervalCases
import SchedAnalyzer.Post.Freq
import SchedAnalyzer.Post.GridBars
import SchedAnalyzer.Post.IdleChart

/-! # The images

With `--save-png` the plots go to the cells of an image instead. The idle residencies
are laid out four in a row by a loop that counts rows and columns, the frequencies one
below the other.
-/

namespace SchedAnalyzer

open Foundation.DataFrame

/-! ## Idle residencies -/

/-- `row_pos` and `col` of the loop. -/
structure Cursor where
  rowPos : ℕ
  col : ℕ
  deriving DecidableEq, Repr

/-- The cell that the loop selects, counted from one, and the cursor after it. -/
def Cursor.select (cursor : Cursor) : ℕ × Cursor :=
  if cursor.col = 0 then (cursor.rowPos * 4 - 3, ⟨cursor.rowPos, 1⟩)
  else if cursor.col = 1 then (cursor.rowPos * 4 - 2, ⟨cursor.rowPos, 2⟩)
  else if cursor.col = 2 then (cursor.rowPos * 4 - 1, ⟨cursor.rowPos, 3⟩)
  else (cursor.rowPos * 4 - 0, ⟨cursor.rowPos + 1, 0⟩)

/-- A cell of an image, with what is drawn in it. -/
structure Subplot (Drawn : Type) where
  position : ℕ
  cpu : ℕ
  drawn : Drawn

/-- An image, of rows with the same number of cells. -/
structure Image (Drawn : Type) where
  rows : ℕ
  columns : ℕ
  subplots : List (Subplot Drawn)

/-- `idle.num_rows()`. -/
def numRows (df : Frame ℚ (SeriesCell ℕ)) : ℕ :=
  ((uniqueCpus df).length + 3) / 4

/-- The loop of `idle.plot_residency_matplotlib`. A cell without bars is left blank. -/
def idleSubplots (df : Frame ℚ (SeriesCell ℕ)) (abs : Bool) (cursor : Cursor) :
    List ℕ → List (Subplot (Residency (Frame ℚ (SeriesCell ℕ)) (List (ℚ × ℚ))))
  | [] => []
  | cpu :: rest =>
      let (position, next) := cursor.select
      ⟨position, cpu, genDfDurationGroupby (rowsOfCpu cpu df) .value abs⟩ ::
        idleSubplots df abs next rest

/-- `idle.plot_residency_matplotlib(plt, prefix, abs)`. -/
def idlePlotResidencyMatplotlib (df : Frame ℚ (SeriesCell ℕ)) (abs : Bool) :
    Option (Image (Residency (Frame ℚ (SeriesCell ℕ)) (List (ℚ × ℚ)))) :=
  let numRows := numRows df
  if df.isEmpty then none
  else
    let nrCpus := (uniqueCpus df).length
    some ⟨numRows, 4, idleSubplots df abs ⟨1, 0⟩ (List.range nrCpus)⟩

/-! ## Frequencies -/

/-- The curve of a CPU, with its color of the list. -/
structure FreqCurve where
  color : ℕ
  df : Frame ℚ (SeriesCell ℕ)

/-- The color after one: there are three. -/
def nextColor (i : ℕ) : ℕ :=
  if i + 1 = 3 then 0 else i + 1

/-- The loop of `freq.plot_matplotlib`, from `row_pos` and `i`. -/
def freqSubplots (bounds : Bounds) (dfFreq : Frame ℤ (SeriesCell ℕ)) (rowPos i : ℕ) :
    List ℕ → List (Subplot FreqCurve)
  | [] => []
  | cpu :: rest =>
      let df := convertTs bounds (rowsOfCpu cpu dfFreq) true
      if df.isEmpty then freqSubplots bounds dfFreq rowPos i rest
      else ⟨rowPos, cpu, i, df⟩ :: freqSubplots bounds dfFreq (rowPos + 1) (nextColor i) rest

/-- `freq.plot_matplotlib(plt, prefix)`. -/
def freqPlotMatplotlib (bounds : Bounds) (dfFreq : Frame ℤ (SeriesCell ℕ)) (clusters : List ℕ) :
    Option (Image FreqCurve) :=
  let numRows := clusters.length
  if dfFreq.isEmpty then none
  else some ⟨numRows, 1, freqSubplots bounds dfFreq 1 0 clusters⟩

/-- `freq.plot_tui(plt)`: the CPUs with their curves. -/
def freqPlotTui (bounds : Bounds) (dfFreq : Frame ℤ (SeriesCell ℕ)) (clusters : List ℕ) :
    List (ℕ × Frame ℚ (SeriesCell ℕ)) :=
  if dfFreq.isEmpty then []
  else
    clusters.filterMap fun cpu =>
      let df := convertTs bounds (rowsOfCpu cpu dfFreq) true
      if df.isEmpty then none else some (cpu, df)

/-! ## Layouts -/

/-- The cells of an image are taken one after the other, and there are enough. -/
structure Image.LaidOut {Drawn : Type} (image : Image Drawn) : Prop where
  consecutive : image.subplots.map Subplot.position =
    List.range' 1 image.subplots.length
  fits : image.subplots.length ≤ image.rows * image.columns

section Idle

variable {df : Frame ℚ (SeriesCell ℕ)} {abs : Bool}

/-- The cursor after some cells. -/
def cursorAfter (count : ℕ) : Cursor :=
  ⟨count / 4 + 1, count % 4⟩

/-- One round of the loop takes the next cell. -/
theorem select_cursorAfter (count : ℕ) :
    (cursorAfter count).select = (count + 1, cursorAfter (count + 1)) := by
  obtain ⟨row, col, hcol, rfl⟩ : ∃ row col, col < 4 ∧ count = 4 * row + col :=
    ⟨count / 4, count % 4, Nat.mod_lt _ (by decide), (Nat.div_add_mod count 4).symm⟩
  have hrow : (4 * row + col) / 4 = row := by omega
  have hmod : (4 * row + col) % 4 = col := by omega
  have hnext : (4 * row + col + 1) / 4 = if col = 3 then row + 1 else row := by
    split <;> omega
  have hnextMod : (4 * row + col + 1) % 4 = if col = 3 then 0 else col + 1 := by
    split <;> omega
  rw [cursorAfter, cursorAfter, hrow, hmod, hnext, hnextMod]
  interval_cases col <;> simp [Cursor.select] <;> omega

theorem idleSubplots_eq (cpus : List ℕ) (count : ℕ) :
    idleSubplots df abs (cursorAfter count) cpus =
      cpus.mapIdx fun k cpu =>
        ⟨count + k + 1, cpu, genDfDurationGroupby (rowsOfCpu cpu df) .value abs⟩ := by
  induction cpus generalizing count with
  | nil => rfl
  | cons cpu rest ih =>
      rw [idleSubplots, select_cursorAfter, List.mapIdx_cons]
      simp only [ih, Nat.add_zero]
      congr 2
      funext k
      rw [Nat.add_assoc count 1 k, Nat.add_comm 1 k]

/-- The image of the idle residencies: the CPUs from zero on, each in the cell after its
number, with no row too many, and with the numbers of the chart. -/
structure IdleImage (df : Frame ℚ (SeriesCell ℕ)) (abs : Bool)
    (image : Image (Residency (Frame ℚ (SeriesCell ℕ)) (List (ℚ × ℚ)))) : Prop
    extends image.LaidOut where
  cpus : image.subplots.map Subplot.cpu = List.range (uniqueCpus df).length
  place : ∀ subplot ∈ image.subplots, subplot.position = subplot.cpu + 1
  noRow : (image.rows - 1) * image.columns < image.subplots.length
  bars : ∀ subplot ∈ image.subplots, ∀ state value, subplot.drawn.at state = some value ↔
    (∃ row ∈ df, row.cell .track = some subplot.cpu ∧ row.cell .value = some state) ∧
      idleResidency df subplot.cpu state abs = .result value

/-- The cell of a CPU. -/
def idleCell (df : Frame ℚ (SeriesCell ℕ)) (abs : Bool) (cpu : ℕ) :
    Subplot (Residency (Frame ℚ (SeriesCell ℕ)) (List (ℚ × ℚ))) :=
  ⟨cpu + 1, cpu, genDfDurationGroupby (rowsOfCpu cpu df) .value abs⟩

theorem idleSubplots_range (df : Frame ℚ (SeriesCell ℕ)) (abs : Bool) (count : ℕ) :
    idleSubplots df abs ⟨1, 0⟩ (List.range count) = (List.range count).map (idleCell df abs) := by
  have hstart : (⟨1, 0⟩ : Cursor) = cursorAfter 0 := rfl
  rw [hstart, idleSubplots_eq]
  apply List.ext_getElem
  · simp
  · intro k _ _
    simp [idleCell]

/-- The bars of a CPU are its numbers in the chart, of the states that it was in. -/
theorem at_idleCell_iff (hcomplete : ∀ row ∈ df, row.IsComplete) (cpu : ℕ) (state value : ℚ) :
    (idleCell df abs cpu).drawn.at state = some value ↔
      (∃ row ∈ df, row.cell .track = some cpu ∧ row.cell .value = some state) ∧
        idleResidency df cpu state abs = .result value := by
  have hcovers : CoversMissing .value (rowsOfCpu cpu df) := by
    intro row hrow column hnone
    have hsome := hcomplete row (List.mem_of_mem_filter hrow) column
    rw [hnone] at hsome
    exact Bool.noConfusion hsome
  have hrows : (∃ row ∈ df, row.cell .track = some cpu ∧ row.cell .value = some state) ↔
      ∃ row ∈ rowsOfCpu cpu df, row.cell .value = some state := by
    simp only [rowsOfCpu, List.mem_filter, decide_eq_true_eq, and_assoc]
  rw [hrows, idleCell]
  constructor
  · intro hat
    have hvalue := exists_of_at_genDfDurationGroupby hat
    refine ⟨hvalue, ?_⟩
    rw [at_genDfDurationGroupby hcovers hvalue] at hat
    rw [idleResidency, genDfDurationFiltered, if_neg (not_dropna_isEmpty hcovers hvalue),
      ← Option.some.inj hat, timeAt_eq]
  · rintro ⟨hvalue, hresult⟩
    rw [idleResidency, genDfDurationFiltered, if_neg (not_dropna_isEmpty hcovers hvalue)] at hresult
    rw [at_genDfDurationGroupby hcovers hvalue, timeAt_eq, Residency.result.inj hresult]

theorem idlePlotResidencyMatplotlib_image (hdf : df ≠ []) (hcomplete : ∀ row ∈ df, row.IsComplete)
    (abs : Bool) :
    ∃ image, idlePlotResidencyMatplotlib df abs = some image ∧ IdleImage df abs image := by
  have hpos := uniqueCpus_length_pos hdf fun row hrow => hcomplete row hrow .track
  refine ⟨_, if_neg fun hempty => hdf (List.isEmpty_iff.mp hempty), ⟨?_, ?_⟩, ?_, ?_, ?_, ?_⟩
  all_goals simp only [idleSubplots_range, List.length_map, List.length_range, numRows]
  · rw [List.map_map, List.range'_eq_map_range]
    apply List.map_congr_left
    intro cpu _
    exact Nat.add_comm cpu 1
  · omega
  · rw [List.map_map]
    exact List.map_id _
  · intro subplot hsubplot
    obtain ⟨cpu, -, rfl⟩ := List.mem_map.mp hsubplot
    rfl
  · omega
  · intro subplot hsubplot state value
    obtain ⟨cpu, -, rfl⟩ := List.mem_map.mp hsubplot
    exact at_idleCell_iff hcomplete cpu state value

end Idle

/-- Six CPUs that are idle, each in a state of its own from the start of the trace on. -/
def sixIdleCpus : Frame ℚ (SeriesCell ℕ) :=
  (List.range 6).flatMap fun cpu => [⟨0, fun | .track => some cpu | .value => some cpu⟩,
    ⟨1 / 10000, fun | .track => some cpu | .value => some cpu⟩]

theorem sixIdleCpus_complete : ∀ row ∈ sixIdleCpus, row.IsComplete := by
  intro row hrow column
  obtain ⟨cpu, -, hrow⟩ := List.mem_flatMap.mp hrow
  rcases List.mem_pair.mp hrow with rfl | rfl <;> cases column <;> rfl

/-- They take a row of four cells, and two cells of the next row. -/
example : (idlePlotResidencyMatplotlib sixIdleCpus true).map (fun image =>
    (image.rows, image.subplots.map fun subplot => (subplot.position, subplot.cpu))) =
      some (2, [(1, 0), (2, 1), (3, 2), (4, 3), (5, 4), (6, 5)]) := by
  decide +kernel

theorem idlePlotResidencyMatplotlib_image_sixIdleCpus :
    ∃ image, idlePlotResidencyMatplotlib sixIdleCpus true = some image ∧
      IdleImage sixIdleCpus true image :=
  idlePlotResidencyMatplotlib_image (List.cons_ne_nil _ _) sixIdleCpus_complete true

section Freq

variable {bounds : Bounds} {dfFreq : Frame ℤ (SeriesCell ℕ)}

/-- The curve that is drawn after some others. -/
def freqCell (count : ℕ) (shown : ℕ × Frame ℚ (SeriesCell ℕ)) : Subplot FreqCurve :=
  ⟨count + 1, shown.1, count % 3, shown.2⟩

theorem nextColor_mod (count : ℕ) : nextColor (count % 3) = (count + 1) % 3 := by
  rw [nextColor]
  split <;> omega

/-- The CPUs that have a curve, with it. -/
def curveOf (bounds : Bounds) (dfFreq : Frame ℤ (SeriesCell ℕ)) (cpu : ℕ) :
    Option (ℕ × Frame ℚ (SeriesCell ℕ)) :=
  let df := convertTs bounds (rowsOfCpu cpu dfFreq) true
  if df.isEmpty then none else some (cpu, df)

/-- The loop draws the curves of the other plot one after the other. -/
theorem freqSubplots_eq (clusters : List ℕ) (count : ℕ) :
    freqSubplots bounds dfFreq (count + 1) (count % 3) clusters =
      (clusters.filterMap (curveOf bounds dfFreq)).mapIdx fun k shown =>
        freqCell (count + k) shown := by
  induction clusters generalizing count with
  | nil => rfl
  | cons cpu rest ih =>
      rw [freqSubplots, List.filterMap_cons, curveOf]
      by_cases hempty : (convertTs bounds (rowsOfCpu cpu dfFreq) true).isEmpty = true
      · simp only [if_pos hempty, ih]
      · simp only [if_neg hempty, List.mapIdx_cons, nextColor_mod, ih, Nat.add_zero]
        rw [freqCell]
        congr 2
        funext k shown
        rw [Nat.add_right_comm, Nat.add_assoc]

/-- The image of the frequencies: the curves of the terminal, in its order, one below the
other. Neighbours have different colors. -/
structure FreqImage (shown : List (ℕ × Frame ℚ (SeriesCell ℕ))) (image : Image FreqCurve) : Prop
    extends image.LaidOut where
  curves : image.subplots.map (fun subplot => (subplot.cpu, subplot.drawn.df)) = shown
  color : ∀ subplot ∈ image.subplots, subplot.drawn.color < 3
  neighbours : image.subplots.IsChain fun subplot next => subplot.drawn.color ≠ next.drawn.color

theorem freqPlotMatplotlib_image (hfreq : dfFreq ≠ []) (clusters : List ℕ) :
    ∃ image, freqPlotMatplotlib bounds dfFreq clusters = some image ∧
      FreqImage (freqPlotTui bounds dfFreq clusters) image := by
  have hempty : ¬ dfFreq.isEmpty = true := fun hempty => hfreq (List.isEmpty_iff.mp hempty)
  have hsubplots : freqSubplots bounds dfFreq 1 0 clusters =
      (clusters.filterMap (curveOf bounds dfFreq)).mapIdx freqCell := by
    have hloop : freqSubplots bounds dfFreq (0 + 1) (0 % 3) clusters = _ :=
      freqSubplots_eq clusters 0
    simpa only [Nat.zero_add, Nat.zero_mod] using hloop
  have hshown : freqPlotTui bounds dfFreq clusters =
      clusters.filterMap (curveOf bounds dfFreq) := if_neg hempty
  refine ⟨_, if_neg hempty, ⟨?_, ?_⟩, ?_, ?_, ?_⟩
  all_goals simp only [hsubplots, hshown, List.length_mapIdx]
  · apply List.ext_getElem
    · simp
    · intro k hk _
      simp [freqCell, Nat.add_comm]
  · rw [Nat.mul_one]
    exact List.length_filterMap_le _ _
  · apply List.ext_getElem
    · simp
    · intro k hk _
      simp [freqCell]
  · intro subplot hsubplot
    obtain ⟨k, hk, rfl⟩ := List.getElem_of_mem hsubplot
    rw [List.getElem_mapIdx]
    exact Nat.mod_lt _ (by decide)
  · apply List.isChain_iff_getElem.mpr
    intro k hk
    rw [List.getElem_mapIdx, List.getElem_mapIdx]
    change k % 3 ≠ (k + 1) % 3
    omega

end Freq

/-- Samples of three clusters. That of CPU 2 is behind the last instant of the grid. -/
def clusterSamples : Frame ℤ (SeriesCell ℕ) :=
  [(0, 0), (0, 4), (250000, 2)].map fun sample =>
    ⟨sample.1, fun | .track => some sample.2 | .value => some 1⟩

/-- Its curve is skipped, and the next one takes its cell and its color. -/
example : (freqPlotMatplotlib (Bounds.ofTrace 0 300000) clusterSamples [0, 2, 4]).map
    (fun image => image.subplots.map fun subplot =>
      (subplot.position, subplot.cpu, subplot.drawn.color)) = some [(1, 0, 0), (2, 4, 1)] := by
  decide +kernel

theorem freqPlotMatplotlib_image_clusterSamples :
    ∃ image, freqPlotMatplotlib (Bounds.ofTrace 0 300000) clusterSamples [0, 2, 4] = some image ∧
      FreqImage (freqPlotTui (Bounds.ofTrace 0 300000) clusterSamples [0, 2, 4]) image :=
  freqPlotMatplotlib_image (List.cons_ne_nil _ _) [0, 2, 4]

end SchedAnalyzer
