import Uppercut.Core.Attribution

/-!
# The tags of metric entries

Metrics travel without the tag of the actor that recorded them, and are merged by name. The
entry that is printed for a sample has the name of the metric where a log entry has the tag.
-/

namespace Uppercut

/-- The entry for a sample. -/
def sampleEntry (app host name : String) (sample : Sample) : MetricEntry where
  «at» := millis sample.1
  «meta» := { host := host, app := app, tag := name }
  val := sample.2

/-- The entry that is printed for a reading. -/
def Reading.entry (app host : String) (reading : Reading) : MetricEntry :=
  sampleEntry app host reading.name reading.sample

section Reports

variable (app host : String)

theorem reportMetrics_cons (name : String) (samples : List Sample) (metrics : Metrics) :
    reportMetrics app host ((name, samples) :: metrics) =
      samples.map (sampleEntry app host name) ++ reportMetrics app host metrics := rfl

/-- Each new sample makes one new entry. -/
theorem reportMetrics_append (metrics : Metrics) (name : String) (samples : List Sample) :
    (reportMetrics app host (metrics.append name samples)).Perm
      (reportMetrics app host metrics ++ samples.map (sampleEntry app host name)) := by
  induction metrics with
  | nil =>
      rw [Metrics.append, reportMetrics_cons]
      exact List.perm_append_comm
  | cons entry metrics ih =>
      obtain ⟨other, known⟩ := entry
      rw [Metrics.append]
      split
      · next same =>
        subst same
        rw [reportMetrics_cons, reportMetrics_cons, List.map_append, List.append_assoc,
          List.append_assoc]
        exact List.Perm.append_left _ List.perm_append_comm
      · rw [reportMetrics_cons, reportMetrics_cons, List.append_assoc]
        exact List.Perm.append_left _ ih

/-- Merging loses no entry. -/
theorem reportMetrics_merge (metrics map : Metrics) :
    (reportMetrics app host (metrics.merge map)).Perm
      (reportMetrics app host metrics ++ reportMetrics app host map) := by
  induction map generalizing metrics with
  | nil => rw [Metrics.merge, List.foldl_nil]; exact (List.append_nil _).symm ▸ List.Perm.refl _
  | cons entry map ih =>
      obtain ⟨name, samples⟩ := entry
      apply (ih (metrics.append name samples)).trans
      rw [reportMetrics_cons, ← List.append_assoc]
      exact (reportMetrics_append app host metrics name samples).append_right _

theorem reportMetrics_merges (maps : List Metrics) (metrics : Metrics) :
    (reportMetrics app host (maps.foldl Metrics.merge metrics)).Perm
      (reportMetrics app host metrics ++ maps.flatMap (reportMetrics app host)) := by
  induction maps generalizing metrics with
  | nil => rw [List.foldl_nil, List.flatMap_nil, List.append_nil]
  | cons map maps ih =>
      rw [List.foldl_cons, List.flatMap_cons, ← List.append_assoc]
      exact (ih _).trans ((reportMetrics_merge app host metrics map).append_right _)

theorem reportMetrics_collect (readings : List Reading) :
    (reportMetrics app host (collect readings)).Perm (readings.map (Reading.entry app host)) := by
  induction readings using List.reverseRecOn with
  | nil => exact List.Perm.refl _
  | append_singleton readings reading ih =>
      rw [collect_append, List.map_append]
      exact (reportMetrics_append app host _ _ _).trans (ih.append_right _)

theorem reportMetrics_batches (batches : List (List Reading)) :
    ((batches.map collect).flatMap (reportMetrics app host)).Perm
      (batches.flatten.map (Reading.entry app host)) := by
  induction batches with
  | nil => exact List.Perm.refl _
  | cons readings batches ih =>
      rw [List.map_cons, List.flatMap_cons, List.flatten_cons, List.map_append]
      exact (reportMetrics_collect app host readings).append ih

theorem reportMetrics_groups (groups : List (List Metrics)) :
    (groups.flatMap fun maps => reportMetrics app host (maps.foldl Metrics.merge [])).Perm
      (groups.flatten.flatMap (reportMetrics app host)) := by
  induction groups with
  | nil => exact List.Perm.refl _
  | cons maps groups ih =>
      rw [List.flatMap_cons, List.flatten_cons, List.flatMap_append]
      exact (reportMetrics_merges app host maps []).append ih

end Reports

section Runs

variable {config : SchedulerConfig} {name host : String} {start : Nat} {s : Runtime}
variable {allowed : Runtime → List Obs → Label → Prop} {h : List Obs}

/-- The batches of samples that were reported make up the entries that were printed. -/
theorem runtime_measured (run : (runtimeMachine config name host start).Run allowed s h) :
    ∃ reported, reported <+: sentReadings h ∧
      (measuredEntries h).Perm (reported.flatten.map (Reading.entry name host)) := by
  obtain ⟨groups, rest, received, _, printed⟩ := loop_metrics (runtime_loop run)
  obtain ⟨_, maps, _, entries⟩ := ofLoop_reports h
  rw [maps] at received
  rw [entries] at printed
  have front : groups.flatten <+: (sentReadings h).map collect := by
    rw [← runtime_collected run]
    exact (received ▸ List.prefix_append _ _ : groups.flatten <+: receivedMaps h).trans
      (runtime_received run).2
  obtain ⟨later, split⟩ := front
  obtain ⟨reported, others, same, made, _⟩ := List.append_eq_map_iff.mp split
  refine ⟨reported, ⟨others, same.symm⟩, ?_⟩
  rw [printed]
  apply (reportMetrics_groups name host groups).trans
  rw [← made]
  exact reportMetrics_batches name host reported

/-- **The tags of metric entries.** Each entry that is printed is for one sample that was recorded
and sent. It has the tag of the actor that recorded it if and only if the metric has that name. -/
theorem metric_tags (run : (runtimeMachine config name host start).Reached s h) :
    ∃ reported readings, reported <+: sentReadings h ∧ readings.Perm reported.flatten ∧
      readings.Subperm (measured h) ∧
      List.Forall₂ (fun entry reading => entry.at = millis reading.sample.1 ∧
        entry.val = reading.sample.2 ∧ (entry.meta.tag = reading.tag ↔ reading.name = reading.tag))
        (measuredEntries h) readings := by
  obtain ⟨reported, front, printed⟩ := runtime_measured run
  have entries : List.Forall₂ (fun (entry : MetricEntry) (reading : Reading) =>
      entry.at = millis reading.sample.1 ∧ entry.val = reading.sample.2 ∧
        (entry.meta.tag = reading.tag ↔ reading.name = reading.tag))
      (reported.flatten.map (Reading.entry name host)) reported.flatten := by
    rw [List.forall₂_map_left_iff, List.forall₂_same]
    exact fun _ _ => ⟨rfl, rfl, Iff.rfl⟩
  obtain ⟨readings, matched, same⟩ := List.perm_comp_forall₂ printed entries
  refine ⟨reported, readings, front, same, ?_, matched⟩
  have sent : reported.flatten.Subperm (sentReadings h).flatten := front.flatten.sublist.subperm
  have kept := (List.sublist_append_left (sentReadings h).flatten (unmerged h)).subperm
  exact same.subperm.trans (sent.trans (kept.trans (Spool.batches_perm (metricSteps h)).subperm))

end Runs

/-- Two actors record the same value, each under one of the names. -/
def sampling (name other : String) : List Label :=
  [Label.call 0 (.spawn "a") 0] ++ turn (.spawn "a" ⟨0⟩) ++
  [Label.call 0 (.spawn "b") 0] ++ turn (.spawn "b" ⟨1⟩) ++
  [Label.call 0 (.send "a" (.of (.other 7))) 0] ++ turn (.queue "a" (letter 2 7)) ++
  [Label.call 0 (.send "b" (.of (.other 8))) 0] ++ turn (.queue "b" (letter 3 8)) ++
  [Label.worker 0 .take, .worker 0 (.call (.metric name 1) 5), .worker 0 (.finish true),
    .worker 0 .advance, .worker 0 .advance, .worker 0 .advance,
    .worker 0 .take, .worker 0 (.call (.metric other 1) 5), .worker 0 (.finish true),
    .worker 0 .advance, .worker 0 .advance] ++
  turn (.return "a" ⟨0⟩ true) ++ turn (.metrics [(name, [(5, 1)])]) ++
  turn (.return "b" ⟨1⟩ true) ++ turn (.metrics [(other, [(5, 1)])])

/-- One worker thread, and a report in each iteration. -/
def eagerReports : SchedulerConfig :=
  { SchedulerConfig.default with
    actorWorkerThreads := 1, metricReportingInterval := 0, metricReportingEnabled := true }

/-- The names are those of the actors. -/
theorem metric_tags_named :
    ∃ s h, (runtimeMachine eagerReports "app" "host" 0).Reached s h ∧
      measured h = [⟨0, "a", ⟨0⟩, "a", (5, 1)⟩, ⟨0, "b", ⟨1⟩, "b", (5, 1)⟩] ∧
      measuredEntries h = [⟨0, ⟨"host", "app", "a"⟩, 1⟩, ⟨0, ⟨"host", "app", "b"⟩, 1⟩] ∧
      ∃ reported readings, reported <+: sentReadings h ∧ readings.Perm reported.flatten ∧
        readings.Subperm (measured h) ∧
        List.Forall₂ (fun entry reading => entry.at = millis reading.sample.1 ∧
          entry.val = reading.sample.2 ∧
            (entry.meta.tag = reading.tag ↔ reading.name = reading.tag))
          (measuredEntries h) readings := by
  have run := Machine.run_replay (runtimeMachine eagerReports "app" "host" 0)
    (fun _ _ _ => True) (sampling "a" "b") (by decide)
  exact ⟨_, _, run, by decide, by decide, metric_tags run⟩

/-- Both actors use one name, and the entries do not tell who recorded what. -/
theorem metric_tags_lost :
    ∃ s h, (runtimeMachine eagerReports "app" "host" 0).Reached s h ∧
      measured h = [⟨0, "a", ⟨0⟩, "load", (5, 1)⟩, ⟨0, "b", ⟨1⟩, "load", (5, 1)⟩] ∧
      measuredEntries h =
        [⟨0, ⟨"host", "app", "load"⟩, 1⟩, ⟨0, ⟨"host", "app", "load"⟩, 1⟩] ∧
      ∀ entry ∈ measuredEntries h, entry.meta.tag ≠ "a" ∧ entry.meta.tag ≠ "b" := by
  have run := Machine.run_replay (runtimeMachine eagerReports "app" "host" 0)
    (fun _ _ _ => True) (sampling "load" "load") (by decide)
  exact ⟨_, _, run, by decide, by decide, by decide⟩

end Uppercut
