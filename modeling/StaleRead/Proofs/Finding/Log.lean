import StaleRead.Proofs.Finding.Order

/-! # Logged pairs and their findings

A log that was only ever added to holds each pair once and one finding for each pair, in
the order of logging. So two such logs of one file that hold the same pairs list the same
findings (`FindingLog.Paired.sorted_eq`).
-/

namespace StaleRead.FindingLog

variable {source : Source} {log : FindingLog}

/-- Each pair is there once, and the findings are those of the pairs, in order. -/
structure Paired (source : Source) (log : FindingLog) : Prop where
  nodup : log.seen.Nodup
  findings : log.findings =
    (log.seen.reverse.map Prod.fst).map (Finding.ofSpan source log.file .useCallback)

theorem paired_ofFile (source : Source) (file : String) : (ofFile file).Paired source :=
  ⟨List.nodup_nil, rfl⟩

@[simp] theorem file_add (source : Source) (log : FindingLog) (message : Message) (read : Span)
    (site? : Option Span) : (log.add source message read site?).2.file = log.file := by
  rw [add]
  split <;> rfl

theorem mem_seen_add (source : Source) (log : FindingLog) (message : Message) (read : Span)
    (site? : Option Span) (pair : Span × Option Span) :
    pair ∈ (log.add source message read site?).2.seen ↔ pair ∈ log.seen ∨ pair = (read, site?) := by
  rw [add]
  split
  · rename_i logged
    exact (or_iff_left_of_imp fun same => same ▸ logged).symm
  · rw [List.mem_cons, or_comm]

theorem Paired.add (paired : log.Paired source) (read : Span) (site? : Option Span) :
    (log.add source .useCallback read site?).2.Paired source := by
  rw [FindingLog.add]
  split
  · exact paired
  · rename_i fresh
    refine ⟨List.nodup_cons.mpr ⟨fresh, paired.nodup⟩, ?_⟩
    simp only [paired.findings, List.reverse_cons, List.map_append, List.map_cons, List.map_nil]

/-- Logs of one file with the same pairs list the same findings. -/
theorem Paired.sorted_eq {other : FindingLog} (paired : log.Paired source)
    (otherPaired : other.Paired source) (file : log.file = other.file)
    (pairs : ∀ pair, pair ∈ log.seen ↔ pair ∈ other.seen) : log.sorted = other.sorted := by
  have perm : log.seen.Perm other.seen :=
    (List.perm_ext_iff_of_nodup paired.nodup otherPaired.nodup).mpr pairs
  have reads : (log.seen.reverse.map Prod.fst).Perm (other.seen.reverse.map Prod.fst) :=
    ((List.reverse_perm _).trans (perm.trans (List.reverse_perm _).symm)).map _
  rw [sorted, sorted, paired.findings, otherPaired.findings, file]
  exact Finding.sortBy_map_ofSpan_eq source other.file .useCallback reads

end StaleRead.FindingLog
