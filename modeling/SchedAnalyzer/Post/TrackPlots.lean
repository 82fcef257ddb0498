import Mathlib.Data.List.Forall2
import SchedAnalyzer.Post.FreqTaskBars
import SchedAnalyzer.Post.RunningTracks
import SchedAnalyzer.Post.TaskRows

/-! # The reports of a track

`sa_track.py` reports a signal as a plot, a histogram or residencies. Each takes the
tracks that a pattern finds, resamples them, and with a `running` option takes out the
time at which the task of the track does not run.
-/

namespace SchedAnalyzer

open Foundation.CString Foundation.DataFrame Foundation.Lists Foundation.PyString Foundation.Regex

/-- The table of `sa_track.init`, by track. -/
abbrev TrackTable : Type := Frame ℤ (SeriesCell (List Char))

/-- A track as it is reported. -/
abbrev TrackSeries : Type := Frame ℚ (SeriesCell (List Char))

/-- The rows of the task that a track is named after. There are none if the name has no
task, or if the pattern made from it is refused. -/
def trackTaskRows (engine : Engine) (dfStates : Frame ℤ StateCell) (track : List Char) :
    Frame ℤ StateCell :=
  let rows := do
    let (thread, tid) ← decodeTrack track
    let number ← pyInt tid
    getDfTid engine dfStates (String.ofList thread) number
  rows.getD []

/-- `__multiply_df_tid_running(df, track)`: what raises leaves the table as it was. -/
def multiplyTrackRunning (engine : Engine) (bounds : Bounds) (dfStates : Frame ℤ StateCell)
    (df : TrackSeries) (track : List Char) : TrackSeries :=
  multiplyDfTidRunning bounds df (trackTaskRows engine dfStates track)

/-- `df[df.counter_name == track]`. -/
def rowsOfTrack (track : List Char) (df : TrackTable) : TrackTable :=
  df.filter fun row => row.cell .track = some track

/-- `sorted(df[df.counter_name.str.contains(track)].counter_name.unique())`. -/
def subtracks (engine : Engine) (df : TrackTable) (pattern : List Char) :
    Option (List (List Char)) :=
  (engine.compile pattern).map fun found =>
    groupKeys SeriesCol.track (df.filter fun row => (row.cell .track).any found)

/-- The patterns of the loops: without one that has a character, the names of all
tracks are. -/
def reportedPatterns (df : TrackTable) (tracks : List (List Char)) : List (List Char) :=
  if tracks.any fun track => !track.isEmpty then tracks else groupKeys SeriesCol.track df

/-- The tracks that the loops go over. -/
def reportedTracks (engine : Engine) (df : TrackTable) (tracks : List (List Char)) :
    Option (List (List Char)) :=
  ((reportedPatterns df tracks).mapM (subtracks engine df)).map List.flatten

/-- The table of a track that is reported. -/
def reportedSeries (engine : Engine) (bounds : Bounds) (dfStates : Frame ℤ StateCell)
    (df : TrackTable) (multiplyRunning : Bool) (track : List Char) : TrackSeries :=
  let series := convertTs bounds (rowsOfTrack track df) true
  if multiplyRunning then multiplyTrackRunning engine bounds dfStates series track else series

/-- `df.value.value_counts(ascending=True)`. -/
def valueCounts (df : TrackSeries) : List (ℚ × ℕ) :=
  ((unique (df.filterMap fun row => row.cell .value)).map fun value =>
    (value, df.countP fun row => row.cell .value = some value)).insertionSort
      fun first second => first.2 ≤ second.2

section Reports

variable (engine : Engine) (bounds : Bounds) (dfStates : Frame ℤ StateCell) (df : TrackTable)
  (tracks : List (List Char)) (multiplyRunning : Bool)

/-- The loops of the reports, which leave out empty ones. -/
def reports {Report : Type} (report : TrackSeries → Report) (isEmpty : Report → Bool) :
    Option (List (List Char × Report)) :=
  (reportedTracks engine df tracks).map fun names =>
    (names.map fun track =>
      (track, report (reportedSeries engine bounds dfStates df multiplyRunning track))).filter
        fun shown => !isEmpty shown.2

/-- `plot_sa_track_tui(plt, tracks, multiply_running)`. -/
def plotSaTrackTui : Option (List (List Char × TrackSeries)) :=
  reports engine bounds dfStates df tracks multiplyRunning id List.isEmpty

/-- `plot_sa_track_hist_tui(plt, tracks, multiply_running)`: the bars of each table that
is not empty. -/
def plotSaTrackHistTui : Option (List (List Char × List (ℚ × ℕ))) :=
  (reports engine bounds dfStates df tracks multiplyRunning id List.isEmpty).map
    (List.map fun shown => (shown.1, valueCounts shown.2))

/-- `plot_sa_track_residency_tui(plt, tracks, multiply_running, abs)`. -/
def plotSaTrackResidencyTui (abs : Bool) :
    Option (List (List Char × Residency TrackSeries (List (ℚ × ℚ)))) :=
  reports engine bounds dfStates df tracks multiplyRunning
    (fun series => genDfDurationGroupby series .value abs) Residency.isEmpty

end Reports

/-! ## The task of a track -/

section Task

variable {engine : Engine} {bounds : Bounds} {dfStates : Frame ℤ StateCell}

/-- The rows of a track's task are all that the task has, or none. -/
theorem trackTaskRows_cases (engine : Engine) (dfStates : Frame ℤ StateCell)
    (track : List Char) :
    trackTaskRows engine dfStates track = [] ∨
      ∃ task : TaskOnCpu, trackTaskRows engine dfStates track = task.rows dfStates := by
  rw [trackTaskRows]
  cases hdecode : decodeTrack track with
  | none => exact .inl rfl
  | some decoded =>
      obtain ⟨thread, tid⟩ := decoded
      cases hnumber : pyInt tid with
      | none => simp [hnumber]
      | some number =>
          cases hcompile : engine.compile thread with
          | none => simp [hnumber, getDfTid, strContains, hcompile]
          | some found =>
              have hcompile' : engine.compile (String.ofList thread).toList = some found := by
                rwa [String.toList_ofList]
              have hrows := getDfTid_of_compile hcompile' dfStates number
              simp only [Option.bind_eq_bind, Option.bind_some, hnumber, hrows, Option.getD_some]
              by_cases hfound : found (String.ofList thread).toList = true
              · refine .inr ⟨⟨String.ofList thread, number, 0⟩, ?_⟩
                simp only [hfound, Bool.and_true]
                rfl
              · left
                apply List.filter_eq_nil_iff.mpr
                intro row _ hboth
                exact hfound ((Bool.and_eq_true _ _).mp hboth).2

/-- A comm that the name of a track is read back from, and that is searched as it stands. -/
structure TaskComm.IsPlain (comm : TaskComm) : Prop where
  printable : IsPrintable comm.text
  noBlank : ' ' ∉ comm.text
  literal : IsLiteral comm.text

theorem TaskComm.IsPlain.decodeTrack {comm : TaskComm} (hplain : comm.IsPlain)
    (signal : TaskSignal) (pid : Pid) :
    decodeTrack (signal.track comm pid) = some (comm.text, formatNat pid.number) := by
  rw [signal.track_eq]
  apply decodeTrack_of_word _ (notMem_formatNat (by decide)) rfl
  intro c hc
  rcases List.mem_append.mp hc with hcomm | htail
  · obtain ⟨hlow, hhigh⟩ := hplain.printable c hcomm
    apply isWhitespace_of_printable (Nat.lt_of_le_of_ne hlow _) hhigh
    intro heq
    have hc : c = ' ' := Char.toNat_inj.mp heq.symm
    exact hplain.noBlank (hc ▸ hcomm)
  · rcases List.mem_cons.mp htail with rfl | hdigit
    · decide
    · exact isWhitespace_of_isDigit (isDigit_of_mem_formatNat hdigit)

/-- The rows of the task are found by the name of its track. -/
theorem TaskComm.IsPlain.trackTaskRows {comm : TaskComm} (hplain : comm.IsPlain)
    (engine : Engine) (dfStates : Frame ℤ StateCell) (signal : TaskSignal) (pid : Pid) :
    trackTaskRows engine dfStates (signal.track comm pid) =
      dfStates.filter fun row => IsTaskRow (String.ofList comm.text) pid.number row := by
  have hliteral : IsLiteral (String.ofList comm.text).toList := by
    rw [String.toList_ofList]
    exact hplain.literal
  have hrows := findsTask_of_isLiteral hliteral engine dfStates pid.number
  simp only [SchedAnalyzer.trackTaskRows, hplain.decodeTrack signal pid, pyInt_formatNat,
    Option.bind_eq_bind, Option.bind_some]
  rw [hrows, Option.getD_some]

/-- A name without a dash has no task. -/
theorem trackTaskRows_of_notMem {track : List Char} (hdash : '-' ∉ track) (engine : Engine)
    (dfStates : Frame ℤ StateCell) : trackTaskRows engine dfStates track = [] := by
  have hdecode : decodeTrack track = none := by
    rw [decodeTrack]
    cases hfirst : (split track)[0]? with
    | none => rfl
    | some first =>
        have hword : '-' ∉ first := fun hmem => hdash
          (mem_of_mem_splitOnP (List.mem_of_mem_filter (List.mem_of_getElem? hfirst)) '-' hmem)
        have hparts : rsplit '-' first = [first] := by
          rw [rsplit, partitionLast_eq_none hword]
        simp [hparts]
  rw [SchedAnalyzer.trackTaskRows, hdecode]
  rfl

end Task

/-! ## What is reported of a track -/

/-- The samples of each track are in order and have no missing fields. -/
structure TrackSamples (df : TrackTable) : Prop where
  sorted : ∀ track, Sorted (rowsOfTrack track df)
  complete : ∀ row ∈ df, row.IsComplete

section Table

variable {engine : Engine} {bounds : Bounds} {dfStates : Frame ℤ StateCell} {df : TrackTable}
  {multiplyRunning : Bool} {track : List Char}

theorem TrackSamples.complete_rowsOfTrack (hdf : TrackSamples df) (track : List Char) :
    ∀ row ∈ rowsOfTrack track df, row.IsComplete :=
  fun row hrow => hdf.complete row (List.mem_filter.mp hrow).1

theorem TrackSamples.gridTable (hdf : TrackSamples df) (engine : Engine) (bounds : Bounds)
    (dfStates : Frame ℤ StateCell) (multiplyRunning : Bool) (track : List Char) :
    GridTable bounds (reportedSeries engine bounds dfStates df multiplyRunning track) := by
  have hseries := convertTs_gridTable bounds (hdf.sorted track) (hdf.complete_rowsOfTrack track)
  cases multiplyRunning with
  | false => exact hseries
  | true => exact hseries.multiply _

/-- The value of the latest sample, the first one of several at its time. -/
def trackValueAt (df : TrackTable) (track : List Char) (ts : ℤ) : Option ℚ :=
  (firstOfLatest (rowsOfTrack track df) ts).bind fun row => row.cell .value

/-- What is shown of a track at an instant: the latest value. With the `running` option, if
there are states of the task, it is multiplied by the factor of the run, and the process
of the task has a name. -/
structure TrackShows (engine : Engine) (bounds : Bounds) (dfStates : Frame ℤ StateCell)
    (df : TrackTable) (multiplyRunning : Bool) (track : List Char) (ts : ℤ) (value : ℚ) :
    Prop where
  latest : (multiplyRunning = true → trackTaskRows engine dfStates track = []) →
    trackValueAt df track ts = some value
  running : multiplyRunning = true → trackTaskRows engine dfStates track ≠ [] →
    (∃ row ∈ trackTaskRows engine dfStates track, (row.cell .parent).isSome = true) ∧
      ∃ row ∈ trackTaskRows engine dfStates track, ∃ factor,
        RunFactor bounds (trackTaskRows engine dfStates track) row ts factor ∧
          ∃ sample, trackValueAt df track ts = some sample ∧ value = sample * factor

/-- The table of a track shows these values. -/
theorem cellAt_reportedSeries (hdf : TrackSamples df) (htable : TaskTable dfStates) {ts : ℤ}
    (hts : ts ∈ gridWindow bounds) (value : ℚ) :
    cellAt (reportedSeries engine bounds dfStates df multiplyRunning track) .value
        (bounds.seconds ts) = some value ↔
      TrackShows engine bounds dfStates df multiplyRunning track ts value := by
  have hsample : cellAt (convertTs bounds (rowsOfTrack track df) true) .value (bounds.seconds ts) =
      trackValueAt df track ts :=
    cellAt_convertTs (hdf.sorted track) (hdf.complete_rowsOfTrack track) .value hts
  have hseries := convertTs_gridTable bounds (hdf.sorted track) (hdf.complete_rowsOfTrack track)
  cases multiplyRunning with
  | false =>
      rw [reportedSeries, if_neg Bool.false_ne_true, hsample]
      exact ⟨fun hlatest => ⟨fun _ => hlatest, Bool.noConfusion⟩,
        fun hshows => hshows.latest Bool.noConfusion⟩
  | true =>
      rw [reportedSeries, if_pos rfl, multiplyTrackRunning]
      by_cases hnil : trackTaskRows engine dfStates track = []
      · rw [hnil, multiplyDfTidRunning_nil, hsample]
        exact ⟨fun hlatest => ⟨fun _ => hlatest, fun _ hne => absurd hnil hne⟩,
          fun hshows => hshows.latest fun _ => hnil⟩
      · obtain ⟨task, htask⟩ := (trackTaskRows_cases engine dfStates track).resolve_left hnil
        obtain ⟨hrows, parent, hparent⟩ := htable task (htask ▸ hnil)
        have hall : (task.rows dfStates).filter (fun _ => true) = task.rows dfStates :=
          List.filter_eq_self.mpr fun _ _ => rfl
        have hne : (task.rows dfStates).filter (fun _ => true) ≠ [] := by
          rw [hall, ← htask]
          exact hnil
        have hproduct := hrows.cellAt_multiply_filter hseries.toResampled hne (fun _ _ _ => rfl)
          hparent hts value
        rw [hall, hsample] at hproduct
        rw [htask, hproduct]
        obtain ⟨first, hfirst⟩ := List.exists_mem_of_ne_nil _ (htask ▸ hnil)
        constructor
        · rintro ⟨hsome, row, hrow, -, hvalue⟩
          refine ⟨fun hnone => absurd (hnone rfl) hnil, fun _ _ => ?_⟩
          rw [htask]
          exact ⟨⟨first, hfirst, (hparent first hfirst).symm ▸ hsome⟩, row, hrow, hvalue⟩
        · intro hshows
          have hruns := hshows.running rfl hnil
          rw [htask] at hruns
          obtain ⟨⟨named, hnamed, hsome⟩, row, hrow, hvalue⟩ := hruns
          exact ⟨hparent named hnamed ▸ hsome, row, hrow, rfl, hvalue⟩

end Table

/-! ## The plots -/

section Loops

variable {engine : Engine} {df : TrackTable} {tracks : List (List Char)}
  {finds : List (List Char → Bool)}

/-- The tracks that a compiled pattern finds, in alphabetical order. -/
def tracksFound (df : TrackTable) (found : List Char → Bool) : List (List Char) :=
  groupKeys SeriesCol.track (df.filter fun row => (row.cell .track).any found)

theorem mem_tracksFound_iff {found : List Char → Bool} {track : List Char} :
    track ∈ tracksFound df found ↔
      found track = true ∧ ∃ row ∈ df, row.cell .track = some track := by
  rw [tracksFound, mem_groupKeys_iff]
  constructor
  · rintro ⟨row, hrow, htrack⟩
    obtain ⟨hmem, hany⟩ := List.mem_filter.mp hrow
    rw [htrack, Option.any_some] at hany
    exact ⟨hany, row, hmem, htrack⟩
  · rintro ⟨hfound, row, hrow, htrack⟩
    refine ⟨row, List.mem_filter.mpr ⟨hrow, ?_⟩, htrack⟩
    rw [htrack, Option.any_some]
    exact hfound

theorem mapM_subtracks_eq {patterns : List (List Char)}
    (hcompile : patterns.mapM engine.compile = some finds) :
    patterns.mapM (subtracks engine df) = some (finds.map (tracksFound df)) := by
  induction patterns generalizing finds with
  | nil =>
      rw [List.mapM_nil] at hcompile
      cases hcompile
      rfl
  | cons pattern rest ih =>
      rw [List.mapM_cons] at hcompile ⊢
      simp only [Option.bind_eq_bind, Option.pure_def, Option.bind_eq_some_iff,
        Option.some_inj] at hcompile
      obtain ⟨found, hfound, finds, hrest, rfl⟩ := hcompile
      rw [subtracks, hfound, ih hrest]
      rfl

theorem reportedTracks_eq
    (hcompile : (reportedPatterns df tracks).mapM engine.compile = some finds) :
    reportedTracks engine df tracks = some (finds.flatMap (tracksFound df)) := by
  rw [reportedTracks, mapM_subtracks_eq hcompile]
  rfl

/-- A track of the table is met once for each pattern that finds it. -/
theorem count_flatMap_tracksFound {track : List Char}
    (hmem : ∃ row ∈ df, row.cell .track = some track) (finds : List (List Char → Bool)) :
    (finds.flatMap (tracksFound df)).count track = finds.countP fun found => found track := by
  induction finds with
  | nil => rfl
  | cons found rest ih =>
      have hnodup : (tracksFound df found).Nodup := groupKeys_nodup _
      rw [List.flatMap_cons, List.count_append, ih, List.countP_cons, hnodup.count, add_comm]
      simp only [mem_tracksFound_iff, hmem, and_true]

variable (bounds : Bounds) (dfStates : Frame ℤ StateCell) (multiplyRunning : Bool)

/-- A track with the table that is reported of it. -/
def trackPlot (engine : Engine) (df : TrackTable) (track : List Char) :
    List Char × TrackSeries :=
  (track, reportedSeries engine bounds dfStates df multiplyRunning track)

/-- The tracks that are plotted. -/
def plottedTracks (engine : Engine) (df : TrackTable) (finds : List (List Char → Bool)) :
    List (List Char) :=
  (finds.flatMap (tracksFound df)).filter fun track =>
    !(reportedSeries engine bounds dfStates df multiplyRunning track).isEmpty

/-- The reports that are not empty exactly if the plot is not are those of the tracks that
are plotted. -/
theorem reports_eq
    (hcompile : (reportedPatterns df tracks).mapM engine.compile = some finds)
    {Report : Type} {report : TrackSeries → Report} {isEmpty : Report → Bool}
    (hempty : ∀ track,
      isEmpty (report (reportedSeries engine bounds dfStates df multiplyRunning track)) =
        (reportedSeries engine bounds dfStates df multiplyRunning track).isEmpty) :
    reports engine bounds dfStates df tracks multiplyRunning report isEmpty =
      some ((plottedTracks bounds dfStates multiplyRunning engine df finds).map fun track =>
        (track, report (reportedSeries engine bounds dfStates df multiplyRunning track))) := by
  rw [reports, reportedTracks_eq hcompile, Option.map_some, List.filter_map, plottedTracks]
  congr 2
  apply List.filter_congr
  intro track _
  rw [Function.comp_apply, hempty track]

theorem plotSaTrackTui_eq
    (hcompile : (reportedPatterns df tracks).mapM engine.compile = some finds) :
    plotSaTrackTui engine bounds dfStates df tracks multiplyRunning =
      some ((plottedTracks bounds dfStates multiplyRunning engine df finds).map
        (trackPlot bounds dfStates multiplyRunning engine df)) :=
  reports_eq bounds dfStates multiplyRunning hcompile fun _ => rfl

theorem plotSaTrackHistTui_eq
    (hcompile : (reportedPatterns df tracks).mapM engine.compile = some finds) :
    plotSaTrackHistTui engine bounds dfStates df tracks multiplyRunning =
      some ((plottedTracks bounds dfStates multiplyRunning engine df finds).map fun track =>
        (track, valueCounts (reportedSeries engine bounds dfStates df multiplyRunning track))) := by
  rw [plotSaTrackHistTui, reports_eq bounds dfStates multiplyRunning hcompile fun _ => rfl,
    Option.map_some, List.map_map]
  rfl

end Loops

/-- The plots for patterns: each track that shows a value in the window once for each
pattern that finds it, others not, and the curves have what is shown of the tracks. -/
structure ShowsTracks (engine : Engine) (finds : List (List Char → Bool)) (bounds : Bounds)
    (dfStates : Frame ℤ StateCell) (df : TrackTable) (multiplyRunning : Bool)
    (plots : List (List Char × TrackSeries)) : Prop where
  curve : ∀ plot ∈ plots, ∀ ts ∈ gridWindow bounds, ∀ value,
    cellAt plot.2 .value (bounds.seconds ts) = some value ↔
      TrackShows engine bounds dfStates df multiplyRunning plot.1 ts value
  plotted : ∀ track, (∃ ts ∈ gridWindow bounds, ∃ value,
      TrackShows engine bounds dfStates df multiplyRunning track ts value) →
    (plots.map Prod.fst).count track = finds.countP fun found => found track
  nothing : ∀ track, (¬ ∃ ts ∈ gridWindow bounds, ∃ value,
      TrackShows engine bounds dfStates df multiplyRunning track ts value) →
    track ∉ plots.map Prod.fst
  /-- The task is the one that the track was written for. -/
  ofTask : ∀ (signal : TaskSignal) (comm : TaskComm) (pid : Pid), comm.IsPlain →
    trackTaskRows engine dfStates (signal.track comm pid) =
      dfStates.filter fun row => IsTaskRow (String.ofList comm.text) pid.number row
  noTask : ∀ track : List Char, '-' ∉ track → trackTaskRows engine dfStates track = []

section Plots

variable {engine : Engine} {bounds : Bounds} {dfStates : Frame ℤ StateCell} {df : TrackTable}
  {tracks : List (List Char)} {finds : List (List Char → Bool)} {multiplyRunning : Bool}

/-- A track is plotted if it shows a value. -/
theorem reportedSeries_ne_nil_iff (hdf : TrackSamples df) (htable : TaskTable dfStates)
    {track : List Char} :
    reportedSeries engine bounds dfStates df multiplyRunning track ≠ [] ↔
      ∃ ts ∈ gridWindow bounds, ∃ value,
        TrackShows engine bounds dfStates df multiplyRunning track ts value := by
  rw [(hdf.gridTable engine bounds dfStates multiplyRunning track).ne_nil_iff]
  apply exists_congr
  intro ts
  apply and_congr_right
  intro hts
  exact exists_congr (cellAt_reportedSeries hdf htable hts)

theorem TrackShows.exists_row {track : List Char} {ts : ℤ} {value : ℚ}
    (hshows : TrackShows engine bounds dfStates df multiplyRunning track ts value) :
    ∃ row ∈ df, row.cell .track = some track := by
  obtain ⟨sample, hsample⟩ : ∃ sample, trackValueAt df track ts = some sample := by
    by_cases hruns : multiplyRunning = true ∧ trackTaskRows engine dfStates track ≠ []
    · obtain ⟨-, _, _, _, -, sample, hsample, -⟩ := hshows.running hruns.1 hruns.2
      exact ⟨sample, hsample⟩
    · exact ⟨value, hshows.latest fun hmultiply => not_not.mp fun hne => hruns ⟨hmultiply, hne⟩⟩
  obtain ⟨row, hrow, -⟩ := Option.bind_eq_some_iff.mp hsample
  obtain ⟨hmem, htrack⟩ := List.mem_filter.mp (mem_of_firstOfLatest hrow).1
  exact ⟨row, hmem, of_decide_eq_true htrack⟩

/-- Every track that a pattern finds is plotted with the values that it shows. -/
theorem plotSaTrackTui_shows
    (hcompile : (reportedPatterns df tracks).mapM engine.compile = some finds)
    (hdf : TrackSamples df) (htable : TaskTable dfStates) :
    ∃ plots, plotSaTrackTui engine bounds dfStates df tracks multiplyRunning = some plots ∧
      ShowsTracks engine finds bounds dfStates df multiplyRunning plots := by
  have hnames : ((plottedTracks bounds dfStates multiplyRunning engine df finds).map
      (trackPlot bounds dfStates multiplyRunning engine df)).map Prod.fst =
        plottedTracks bounds dfStates multiplyRunning engine df finds := by
    rw [List.map_map]
    exact List.map_id _
  refine ⟨_, plotSaTrackTui_eq bounds dfStates multiplyRunning hcompile, ?_, ?_, ?_, ?_, ?_⟩
  · intro plot hplot ts hts value
    obtain ⟨track, -, rfl⟩ := List.mem_map.mp hplot
    exact cellAt_reportedSeries hdf htable hts value
  · intro track hshows
    have hne := (reportedSeries_ne_nil_iff hdf htable).mpr hshows
    obtain ⟨ts, -, value, hvalue⟩ := hshows
    rw [hnames, plottedTracks, List.count_filter, count_flatMap_tracksFound hvalue.exists_row]
    rw [Bool.not_eq_true', List.isEmpty_eq_false_iff]
    exact hne
  · intro track hshows hmem
    rw [hnames] at hmem
    have hkept := (List.mem_filter.mp hmem).2
    rw [Bool.not_eq_true', List.isEmpty_eq_false_iff] at hkept
    exact hshows ((reportedSeries_ne_nil_iff hdf htable).mp hkept)
  · intro signal comm pid hplain
    exact hplain.trackTaskRows engine dfStates signal pid
  · intro track hdash
    exact trackTaskRows_of_notMem hdash engine dfStates

end Plots

/-! ## Histograms and residencies -/

/-- The histogram of a track: for each value that the curve shows a bar, as high as the
number of instants of the grid, in ascending order. -/
structure HistogramOf (bounds : Bounds) (plot : List Char × TrackSeries)
    (hist : List Char × List (ℚ × ℕ)) : Prop where
  track : hist.1 = plot.1
  bars : ∀ value count, (value, count) ∈ hist.2 ↔ 0 < count ∧
    ((gridWindow bounds).countP fun ts =>
      cellAt plot.2 .value (bounds.seconds ts) = some value) = count
  ascending : hist.2.Pairwise fun first second => first.2 ≤ second.2
  once : (hist.2.map Prod.fst).Nodup

/-- The residencies of a track: a bar for each value that the curve shows. -/
structure ResidencyOf (bounds : Bounds) (abs : Bool) (plot : List Char × TrackSeries)
    (bars : List Char × Residency TrackSeries (List (ℚ × ℚ))) : Prop where
  track : bars.1 = plot.1
  share : ∀ value share, bars.2.at value = some share ↔
    (∃ ts ∈ gridWindow bounds, cellAt plot.2 .value (bounds.seconds ts) = some value) ∧
      instantsShare bounds plot.2 abs value = share

section Histogram

variable {bounds : Bounds} {series : TrackSeries}

theorem mem_valueCounts_iff {value : ℚ} {count : ℕ} :
    (value, count) ∈ valueCounts series ↔
      0 < count ∧ (series.countP fun row => row.cell .value = some value) = count := by
  rw [valueCounts, List.mem_insertionSort, List.mem_map]
  constructor
  · rintro ⟨other, hother, heq⟩
    obtain ⟨rfl, rfl⟩ := Prod.mk.inj heq
    obtain ⟨row, hrow, hvalue⟩ := List.mem_filterMap.mp (mem_unique.mp hother)
    exact ⟨List.countP_pos_iff.mpr ⟨row, hrow, decide_eq_true hvalue⟩, rfl⟩
  · rintro ⟨hpos, rfl⟩
    obtain ⟨row, hrow, hvalue⟩ := List.countP_pos_iff.mp hpos
    exact ⟨value, mem_unique.mpr (List.mem_filterMap.mpr ⟨row, hrow, of_decide_eq_true hvalue⟩),
      rfl⟩

theorem valueCounts_ascending (series : TrackSeries) :
    (valueCounts series).Pairwise fun first second => first.2 ≤ second.2 := by
  have htotal : Std.Total fun first second : ℚ × ℕ => first.2 ≤ second.2 :=
    ⟨fun first second => le_total first.2 second.2⟩
  have htrans : IsTrans (ℚ × ℕ) fun first second => first.2 ≤ second.2 :=
    ⟨fun _ _ _ hle hle' => hle.trans hle'⟩
  exact List.pairwise_insertionSort _ _

theorem valueCounts_nodup (series : TrackSeries) :
    ((valueCounts series).map Prod.fst).Nodup := by
  have hperm := (List.perm_insertionSort (fun first second : ℚ × ℕ => first.2 ≤ second.2)
    ((unique (series.filterMap fun row => row.cell .value)).map fun value =>
      (value, series.countP fun row => row.cell .value = some value))).map Prod.fst
  rw [List.map_map] at hperm
  apply hperm.nodup_iff.mpr
  exact (nodup_unique _).map_on fun _ _ _ _ heq => heq

end Histogram

section Agree

variable {engine : Engine} {bounds : Bounds} {dfStates : Frame ℤ StateCell} {df : TrackTable}
  {tracks : List (List Char)} {finds : List (List Char → Bool)}

/-- The histogram and the residencies are of the tracks that are plotted, in that order, and
count what the curves show. -/
theorem trackReports_agree
    (hcompile : (reportedPatterns df tracks).mapM engine.compile = some finds)
    (hdf : TrackSamples df) (multiplyRunning abs : Bool) :
    ∃ plots hists bars,
      plotSaTrackTui engine bounds dfStates df tracks multiplyRunning = some plots ∧
      plotSaTrackHistTui engine bounds dfStates df tracks multiplyRunning = some hists ∧
      plotSaTrackResidencyTui engine bounds dfStates df tracks multiplyRunning abs = some bars ∧
      List.Forall₂ (HistogramOf bounds) plots hists ∧
      List.Forall₂ (ResidencyOf bounds abs) plots bars := by
  have htable := hdf.gridTable engine bounds dfStates multiplyRunning
  refine ⟨_, _, _, plotSaTrackTui_eq bounds dfStates multiplyRunning hcompile,
    plotSaTrackHistTui_eq bounds dfStates multiplyRunning hcompile,
    reports_eq bounds dfStates multiplyRunning hcompile ?_, ?_, ?_⟩
  · intro track
    rw [Bool.eq_iff_iff, List.isEmpty_iff]
    exact (htable track).isEmpty_genDfDurationGroupby abs
  · rw [List.forall₂_map_left_iff, List.forall₂_map_right_iff, List.forall₂_same]
    intro track htrack
    have hne := (List.mem_filter.mp htrack).2
    rw [Bool.not_eq_true', List.isEmpty_eq_false_iff] at hne
    refine ⟨rfl, ?_, valueCounts_ascending _, valueCounts_nodup _⟩
    intro value count
    rw [mem_valueCounts_iff]
    have hcount := (htable track).countP_eq hne fun cell => cell = some value
    rw [hcount]
    rfl
  · rw [List.forall₂_map_left_iff, List.forall₂_map_right_iff, List.forall₂_same]
    intro track _
    exact ⟨rfl, (htable track).at_genDfDurationGroupby_iff abs⟩

end Agree

/-! ## A track of a thread -/

/-- One sample of the utilization of a thread. -/
def sleeperTrack : TrackTable :=
  [⟨0, fun
    | .track => some "sleeper-7 util_avg".toList
    | .value => some 300⟩]

theorem sleeperTrack_trackSamples : TrackSamples sleeperTrack where
  sorted _ := List.Pairwise.filter _ (List.pairwise_singleton _ _)
  complete := by
    intro row hrow column
    obtain rfl := List.mem_singleton.mp hrow
    cases column <;> rfl

/-- The pattern `util_avg` as a search. -/
def findsUtil (text : List Char) : Bool :=
  "util_avg".toList <:+: text

theorem compile_util :
    (reportedPatterns sleeperTrack ["util_avg".toList]).mapM Engine.basic.compile =
      some [findsUtil] := by
  have hpatterns : reportedPatterns sleeperTrack ["util_avg".toList] = ["util_avg".toList] := rfl
  rw [hpatterns, List.mapM_cons, List.mapM_nil, Engine.basic.literal _ (by decide)]
  rfl

theorem plotSaTrackTui_shows_sleeper :
    ∃ plots, plotSaTrackTui .basic (Bounds.ofTrace 0 300000) sleeperStates sleeperTrack
        ["util_avg".toList] true = some plots ∧
      ShowsTracks .basic [findsUtil] (Bounds.ofTrace 0 300000) sleeperStates sleeperTrack true
        plots :=
  plotSaTrackTui_shows compile_util sleeperTrack_trackSamples sleeperStates_taskTable

theorem trackReports_agree_sleeper :
    ∃ plots hists bars,
      plotSaTrackTui .basic (Bounds.ofTrace 0 300000) sleeperStates sleeperTrack
        ["util_avg".toList] true = some plots ∧
      plotSaTrackHistTui .basic (Bounds.ofTrace 0 300000) sleeperStates sleeperTrack
        ["util_avg".toList] true = some hists ∧
      plotSaTrackResidencyTui .basic (Bounds.ofTrace 0 300000) sleeperStates sleeperTrack
        ["util_avg".toList] true false = some bars ∧
      List.Forall₂ (HistogramOf (Bounds.ofTrace 0 300000)) plots hists ∧
      List.Forall₂ (ResidencyOf (Bounds.ofTrace 0 300000) false) plots bars :=
  trackReports_agree compile_util sleeperTrack_trackSamples true false

end SchedAnalyzer
