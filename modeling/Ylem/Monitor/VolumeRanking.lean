import Ylem.Lib.Ranks
import Ylem.Lib.Text

/-!
# The volume ranking of the cluster monitor

`ylm_dbmon` runs beside the master database of a volume and reports what `df` and `iostat` print about its disk,
and whether the database answers. `ylm_clmon` collects the reports of all volumes and packs the utilisation, the
space percentage and a random jitter into one score; the list of volumes is sorted by it.

A utilisation loses its last digit on the way, which is taken for a percent sign, so that two of them differ by
at least a tenth or not at all. One tenth counts more than all percentages together and one percent more than the
jitter, so the order is always right (`sorted`). The sign is not: a volume with enough space scores above zero
only if its utilisation is below 100, or exactly 100 with some space percentage to spare
(`soundRanking_iff`).
-/

namespace Ylem

/-! ### The monitor of one database -/

/-- The line that `df` prints about the disk of the database. -/
structure DfLine where
  total : ℕ
  used : ℕ
  avail : ℤ
  perc : ℕ
  perc_le : perc ≤ 100

/-- The utilisation that `iostat` prints, with one or two decimals. -/
structure IostatUtil where
  whole : ℕ
  tenths : Fin 10
  hundredths : Option (Fin 10)

def IostatUtil.text (u : IostatUtil) : Text :=
  Text.decimal u.whole ++ '.' :: Nat.digitChar u.tenths :: (u.hundredths.map fun h => Nat.digitChar h).toList

structure DiskFree where
  total : ℕ
  used : ℕ
  avail : ℤ
  perc : Text
  deriving DecidableEq

/-- The numbers that the monitors keep of a volume. -/
structure VolStat where
  dbquery : Option Bool
  iostat : Option Text
  diskfree : Option DiskFree
  deriving DecidableEq

/-- `{}`. -/
def VolStat.empty : VolStat := ⟨none, none, none⟩

/-- `update_diskstat`; `iostat` has no line for a device that is not found. -/
def VolStat.updateDiskstat (stats : VolStat) (df : DfLine) (util : Option IostatUtil) : VolStat :=
  { stats with
    diskfree := some ⟨df.total, df.used, df.avail, (Text.decimal df.perc ++ ['%']).dropLast⟩
    iostat := (util.map fun u => u.text.dropLast).or stats.iostat }

/-- `update_dbstat`. -/
def VolStat.updateDbstat (stats : VolStat) (answers : Bool) : VolStat := { stats with dbquery := some answers }

/-- What the monitor of a database finds. -/
structure Findings where
  df : DfLine
  util : Option IostatUtil
  answers : Bool

/-- What is kept of it. -/
def Findings.stats (f : Findings) : VolStat := (VolStat.empty.updateDiskstat f.df f.util).updateDbstat f.answers

/-- The answer to a client: the numbers, or an error where they are incomplete. -/
def VolStat.eventWrite (stats : VolStat) : Option VolStat :=
  if stats.diskfree.isSome && stats.iostat.isSome && stats.dbquery.isSome then some stats else none

/-! ### The monitor of the cluster -/

/-- A line of the list of databases. -/
structure MonAddr where
  vol : Text
  tracker : Text

/-- The volumes that are monitored, with what each monitor finds, if it can be reached. -/
structure Cluster where
  addrs : List MonAddr
  nodup : (addrs.map MonAddr.vol).Nodup
  findings : Text → Option Findings

/-- The report on a volume: nothing is known where the monitor is not reached or answers with an error. -/
def Cluster.statsOf (c : Cluster) (vid : Text) : VolStat :=
  ((c.findings vid).bind fun f => f.stats.eventWrite).getD VolStat.empty

/-- `dbmon_collect`. -/
def Cluster.dbmonCollect (c : Cluster) : List (Text × VolStat) := c.addrs.map fun a => (a.vol, c.statsOf a.vol)

def VolStat.util (stats : VolStat) : ℚ := Text.numify (stats.iostat.getD [])

def VolStat.perc (stats : VolStat) : ℚ := Text.numify (stats.diskfree.elim [] DiskFree.perc)

/-- The score without the jitter. -/
def VolStat.score (minfree : ℤ) (stats : VolStat) : ℚ :=
  match stats.dbquery, stats.iostat, stats.diskfree with
  | some status, some _, some diskfree =>
    if status then
      if minfree * 1024 < diskfree.avail then (100 - stats.util) * 10000 + (100 - stats.perc) else 0
    else -1
  | _, _, _ => -1

/-- The jitter, `int(100*rand())/100`, is added to positive scores only. -/
def jittered (score : ℚ) (jitter : Fin 100) : ℚ := if 0 < score then score + (jitter : ℕ) / 100 else score

structure Candidate where
  vol : Text
  score : ℚ
  tracker : Text
  deriving DecidableEq

/-- `reorder_volumes_by_status`. -/
def reorderVolumesByStatus (minfree : ℤ) (jitter : Text → Fin 100) (stats : List (Text × VolStat))
    (monAddrs : List MonAddr) : List Candidate :=
  sortDesc Candidate.score <| stats.filterMap fun (vid, volStat) =>
    (monAddrs.find? fun a => a.vol = vid).map fun a =>
      ⟨vid, jittered (volStat.score minfree) (jitter vid), a.tracker⟩

/-- The list of volumes that clients get. -/
def Cluster.volumes (c : Cluster) (minfree : ℤ) (jitter : Text → Fin 100) : List Candidate :=
  reorderVolumesByStatus minfree jitter c.dbmonCollect c.addrs

/-! ### What the list has to say -/

/-- The database is alive, and has more than the minimum of free space. -/
def VolStat.Usable (minfree : ℤ) (stats : VolStat) : Prop :=
  stats.dbquery = some true ∧ stats.iostat.isSome ∧ ∃ diskfree, stats.diskfree = some diskfree ∧
    minfree * 1024 < diskfree.avail

/-- Less utilised, or as much with less space in use. -/
def VolStat.FreerThan (a b : VolStat) : Prop := a.util < b.util ∨ a.util = b.util ∧ a.perc < b.perc

/-- The volumes of the cluster are all in the list, those that can be used with positive scores and in the order
of their utilisations and percentages, the others with scores that are not positive. -/
structure SoundRanking (c : Cluster) (minfree : ℤ) (res : List Candidate) : Prop where
  complete : (res.map Candidate.vol).Perm (c.addrs.map MonAddr.vol)
  positive : ∀ v ∈ res, (c.statsOf v.vol).Usable minfree → 0 < v.score
  others : ∀ v ∈ res, ¬ (c.statsOf v.vol).Usable minfree → v.score ≤ 0
  sorted : res.Pairwise fun v w => (c.statsOf v.vol).Usable minfree → (c.statsOf w.vol).Usable minfree →
    ¬ (c.statsOf w.vol).FreerThan (c.statsOf v.vol)

/-! ### Reports -/

section Reports

variable {c : Cluster} {f : Findings} {u : IostatUtil} {vid : Text}

theorem util_stats (hutil : f.util = some u) : ∃ n : ℕ, f.stats.util = n / 10 := by
  have hstats : f.stats.util = Text.numify u.text.dropLast := by
    simp only [Findings.stats, VolStat.updateDbstat, VolStat.updateDiskstat, VolStat.util, hutil, Option.map_some,
      Option.some_or, Option.getD_some]
  cases hhundredths : u.hundredths with
  | none =>
    have htext : u.text.dropLast = Text.decimal u.whole ++ '.' :: [] := by
      rw [IostatUtil.text, hhundredths, List.dropLast_append_of_ne_nil (List.cons_ne_nil _ _)]
      rfl
    refine ⟨10 * u.whole, ?_⟩
    rw [hstats, htext, Text.numify_point (by simp)]
    simp [Text.ofDigits]
  | some h =>
    have htext : u.text.dropLast = Text.decimal u.whole ++ '.' :: [Nat.digitChar u.tenths] := by
      rw [IostatUtil.text, hhundredths, List.dropLast_append_of_ne_nil (List.cons_ne_nil _ _)]
      rfl
    refine ⟨10 * u.whole + Text.ofDigits [Nat.digitChar u.tenths], ?_⟩
    rw [hstats, htext, Text.numify_point (by simp)]
    push_cast [List.length_singleton]
    ring

theorem perc_stats (f : Findings) : f.stats.perc = f.df.perc := by
  have htext : (Text.decimal f.df.perc ++ ['%']).dropLast = Text.decimal f.df.perc := List.dropLast_concat
  show Text.numify (Text.decimal f.df.perc ++ ['%']).dropLast = _
  rw [htext, Text.numify_decimal]

theorem findings_of_usable {minfree : ℤ} (h : (c.statsOf vid).Usable minfree) :
    ∃ (f : Findings) (u : IostatUtil), f.util = some u ∧ c.statsOf vid = f.stats := by
  obtain ⟨hstatus, -, -⟩ := h
  unfold Cluster.statsOf at hstatus ⊢
  cases hfindings : c.findings vid with
  | none =>
    rw [hfindings] at hstatus
    exact absurd hstatus (by decide)
  | some f =>
    rw [hfindings] at hstatus
    cases hutil : f.util with
    | none =>
      have hnone : f.stats.eventWrite = none := by
        simp [VolStat.eventWrite, Findings.stats, VolStat.updateDbstat, VolStat.updateDiskstat, hutil, VolStat.empty]
      rw [Option.bind_some, hnone] at hstatus
      exact absurd hstatus (by decide)
    | some u =>
      have hsome : f.stats.eventWrite = some f.stats := by
        simp [VolStat.eventWrite, Findings.stats, VolStat.updateDbstat, VolStat.updateDiskstat, hutil]
      exact ⟨f, u, hutil, by rw [Option.bind_some, hsome, Option.getD_some]⟩

end Reports

/-! ### Scores -/

section Scores

variable {minfree : ℤ} {stats a b : VolStat}

theorem VolStat.Usable.score_eq (h : stats.Usable minfree) :
    stats.score minfree = (100 - stats.util) * 10000 + (100 - stats.perc) := by
  obtain ⟨hstatus, hiostat, diskfree, hdiskfree, havail⟩ := h
  obtain ⟨util, hutil⟩ := Option.isSome_iff_exists.mp hiostat
  rw [VolStat.score, hstatus, hutil, hdiskfree]
  simp only [if_true, if_pos havail]

theorem score_nonpos (h : ¬ stats.Usable minfree) : stats.score minfree ≤ 0 := by
  unfold VolStat.score
  split
  · rename_i status util diskfree hstatus hutil hdiskfree
    split
    · rename_i htrue
      have hfull : ¬ minfree * 1024 < diskfree.avail := fun havail =>
        h ⟨hstatus.trans (congrArg some htrue), by rw [hutil]; rfl, diskfree, hdiskfree, havail⟩
      rw [if_neg hfull]
    · norm_num
  · norm_num

theorem jittered_pos_iff {score : ℚ} {jitter : Fin 100} : 0 < jittered score jitter ↔ 0 < score := by
  unfold jittered
  split
  · rename_i hpos
    exact iff_of_true (by positivity) hpos
  · rfl

theorem le_jittered (score : ℚ) (jitter : Fin 100) : score ≤ jittered score jitter := by
  unfold jittered
  split
  · exact le_add_of_nonneg_right (by positivity)
  · exact le_rfl

theorem jittered_lt (score : ℚ) (jitter : Fin 100) : jittered score jitter < score + 1 := by
  have hjitter : ((jitter : ℕ) : ℚ) < 100 := by exact_mod_cast jitter.isLt
  unfold jittered
  split
  · linarith
  · linarith

theorem score_lt_of_freerThan {m n p q : ℕ} (ha : a.util = m / 10) (hb : b.util = n / 10) (hp : a.perc = p)
    (hq : b.perc = q) (hp' : p ≤ 100) (h : a.FreerThan b) :
    (100 - b.util) * 10000 + (100 - b.perc) + 1 ≤ (100 - a.util) * 10000 + (100 - a.perc) := by
  have hp100 : (p : ℚ) ≤ 100 := by exact_mod_cast hp'
  have hq0 : (0 : ℚ) ≤ q := Nat.cast_nonneg q
  rcases h with hutil | ⟨hutil, hperc⟩
  · rw [ha, hb] at hutil
    have hmn : (m : ℚ) + 1 ≤ n := by
      have hlt : (m : ℚ) < n := by linarith
      exact_mod_cast hlt
    rw [ha, hb, hp, hq]
    linarith
  · rw [hp, hq] at hperc
    have hpq : (p : ℚ) + 1 ≤ q := by exact_mod_cast hperc
    rw [hutil, hp, hq]
    linarith

end Scores

/-! ### The list -/

section Ranking

variable {c : Cluster} {minfree : ℤ} {jitter : Text → Fin 100}

theorem find_monAddr {a : MonAddr} (ha : a ∈ c.addrs) : c.addrs.find? (fun b => b.vol = a.vol) = some a := by
  have hinj := List.inj_on_of_nodup_map c.nodup
  have hsome : (c.addrs.find? fun b => b.vol = a.vol).isSome = true := List.find?_isSome.mpr ⟨a, ha, decide_eq_true rfl⟩
  obtain ⟨b, hb⟩ := Option.isSome_iff_exists.mp hsome
  have hvol : b.vol = a.vol := by simpa using List.find?_some hb
  rw [hb, hinj (List.mem_of_find?_eq_some hb) ha hvol]

theorem volumes_eq (c : Cluster) (minfree : ℤ) (jitter : Text → Fin 100) :
    c.volumes minfree jitter = sortDesc Candidate.score (c.addrs.map fun a =>
      ⟨a.vol, jittered ((c.statsOf a.vol).score minfree) (jitter a.vol), a.tracker⟩) := by
  rw [Cluster.volumes, reorderVolumesByStatus, Cluster.dbmonCollect, List.filterMap_map]
  congr 1
  rw [← List.filterMap_eq_map]
  refine List.filterMap_congr fun a ha => ?_
  simp only [Function.comp_apply, find_monAddr ha, Option.map_some]

theorem score_of_mem {v : Candidate} (hv : v ∈ c.volumes minfree jitter) :
    v.score = jittered ((c.statsOf v.vol).score minfree) (jitter v.vol) := by
  rw [volumes_eq, mem_sortDesc, List.mem_map] at hv
  obtain ⟨a, -, rfl⟩ := hv
  rfl

theorem vols_perm (c : Cluster) (minfree : ℤ) (jitter : Text → Fin 100) :
    ((c.volumes minfree jitter).map Candidate.vol).Perm (c.addrs.map MonAddr.vol) := by
  rw [volumes_eq]
  refine ((perm_sortDesc _ _).map _).trans ?_
  rw [List.map_map]
  exact List.Perm.refl _

theorem score_lt {v w : Candidate} (hv : v ∈ c.volumes minfree jitter) (hw : w ∈ c.volumes minfree jitter)
    (hvu : (c.statsOf v.vol).Usable minfree) (hwu : (c.statsOf w.vol).Usable minfree)
    (h : (c.statsOf w.vol).FreerThan (c.statsOf v.vol)) : v.score < w.score := by
  obtain ⟨f, u, hfu, hf⟩ := findings_of_usable hvu
  obtain ⟨g, u', hgu, hg⟩ := findings_of_usable hwu
  obtain ⟨m, hm⟩ := util_stats hfu
  obtain ⟨n, hn⟩ := util_stats hgu
  have hlt := score_lt_of_freerThan (hg ▸ hn) (hf ▸ hm) (hg ▸ perc_stats g) (hf ▸ perc_stats f) g.df.perc_le h
  rw [score_of_mem hv, score_of_mem hw]
  calc jittered ((c.statsOf v.vol).score minfree) (jitter v.vol)
      < (c.statsOf v.vol).score minfree + 1 := jittered_lt _ _
    _ ≤ (c.statsOf w.vol).score minfree := by
      rw [hvu.score_eq, hwu.score_eq]
      exact hlt
    _ ≤ jittered ((c.statsOf w.vol).score minfree) (jitter w.vol) := le_jittered _ _

theorem score_pos_iff {v : Candidate} (hv : v ∈ c.volumes minfree jitter) (hvu : (c.statsOf v.vol).Usable minfree) :
    0 < v.score ↔ (c.statsOf v.vol).util < 100 ∨ (c.statsOf v.vol).util = 100 ∧ (c.statsOf v.vol).perc < 100 := by
  obtain ⟨f, u, hfu, hf⟩ := findings_of_usable hvu
  obtain ⟨m, hm⟩ := util_stats hfu
  have hperc : (c.statsOf v.vol).perc = f.df.perc := hf ▸ perc_stats f
  have hle : (f.df.perc : ℚ) ≤ 100 := by exact_mod_cast f.df.perc_le
  have hnonneg : (0 : ℚ) ≤ f.df.perc := Nat.cast_nonneg _
  rw [score_of_mem hv, jittered_pos_iff, hvu.score_eq, hperc]
  rw [← hf] at hm
  constructor
  · intro hpos
    rcases lt_trichotomy (c.statsOf v.vol).util 100 with hlt | heq | hgt
    · exact .inl hlt
    · refine .inr ⟨heq, ?_⟩
      rw [heq] at hpos
      linarith
    · rw [hm] at hpos hgt
      have hm1001 : (1001 : ℚ) ≤ m := by
        have hlt : (1000 : ℚ) < m := by linarith
        exact_mod_cast hlt
      linarith
  · rintro (hlt | ⟨heq, hlt⟩)
    · rw [hm] at hlt ⊢
      have hm999 : (m : ℚ) ≤ 999 := by
        have hlt' : m < 1000 := by exact_mod_cast (by linarith : (m : ℚ) < 1000)
        exact_mod_cast Nat.le_of_lt_succ hlt'
      linarith
    · rw [heq]
      linarith

/-- The list is sound exactly if no volume that can be used has a utilisation above 100, or of 100 with no
space left in percent. -/
theorem soundRanking_iff (c : Cluster) (minfree : ℤ) (jitter : Text → Fin 100) :
    SoundRanking c minfree (c.volumes minfree jitter) ↔
      ∀ a ∈ c.addrs, (c.statsOf a.vol).Usable minfree →
        (c.statsOf a.vol).util < 100 ∨ (c.statsOf a.vol).util = 100 ∧ (c.statsOf a.vol).perc < 100 := by
  constructor
  · intro h a ha husable
    have hmem : a.vol ∈ (c.volumes minfree jitter).map Candidate.vol :=
      h.complete.mem_iff.mpr (List.mem_map_of_mem ha)
    obtain ⟨v, hv, hvol⟩ := List.mem_map.mp hmem
    rw [← hvol] at husable ⊢
    exact (score_pos_iff hv husable).mp (h.positive v hv husable)
  · intro h
    refine ⟨vols_perm c minfree jitter, fun v hv husable => ?_, fun v hv hnot => ?_, ?_⟩
    · have hmem : v.vol ∈ c.addrs.map MonAddr.vol :=
        (vols_perm c minfree jitter).mem_iff.mp (List.mem_map_of_mem hv)
      obtain ⟨a, ha, hvol⟩ := List.mem_map.mp hmem
      rw [← hvol] at husable
      exact (score_pos_iff hv (hvol ▸ husable)).mpr (hvol ▸ h a ha husable)
    · rw [score_of_mem hv]
      exact not_lt.mp fun hpos => absurd (jittered_pos_iff.mp hpos) (not_lt.mpr (score_nonpos hnot))
    · have hsorted : (c.volumes minfree jitter).Pairwise fun v w => w.score ≤ v.score :=
        pairwise_sortDesc _ _
      refine hsorted.imp_of_mem fun hv hw hle hvu hwu hfreer => ?_
      exact absurd (score_lt hv hw hvu hwu hfreer) (not_lt.mpr hle)

end Ranking

/-- One volume, whose disk is busy all the time and a little longer, with a terabyte left. -/
def busyVolume : Cluster where
  addrs := [⟨"0".toList, "tracker0".toList⟩]
  nodup := by simp
  findings _ := some ⟨⟨2000000000, 1000000000, 1000000000, 50, by decide⟩, some ⟨100, 2, some 0⟩, true⟩

/-- It is ranked like a volume whose database is dead. -/
theorem busyVolume_unsound : ¬ SoundRanking busyVolume 100 (busyVolume.volumes 100 fun _ => 0) := by
  intro h
  have hstats : busyVolume.statsOf "0".toList =
      ⟨some true, some "100.2".toList, some ⟨2000000000, 1000000000, 1000000000, "50".toList⟩⟩ := by
    decide +kernel
  have husable : (busyVolume.statsOf "0".toList).Usable 100 := by
    rw [hstats]
    exact ⟨rfl, rfl, _, rfl, by decide⟩
  obtain ⟨v, hv, hvol⟩ := List.mem_map.mp (h.complete.mem_iff.mpr (List.mem_map_of_mem (List.mem_singleton_self _)))
  have hvol : v.vol = "0".toList := hvol
  have hpos := (score_pos_iff hv (hvol ▸ husable)).mp (h.positive v hv (hvol ▸ husable))
  have hutil : (busyVolume.statsOf v.vol).util = 1002 / 10 := by
    rw [hvol, hstats]
    decide +kernel
  rw [hutil] at hpos
  norm_num at hpos

end Ylem
