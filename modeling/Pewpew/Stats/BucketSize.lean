import Mathlib.Order.Bounds.Basic
import Pewpew.Config.Duration
import Pewpew.Config.Names
import Pewpew.Stats.Clock

/-! The bucket size that a config file sets, and what the stats channel computes with it. -/
namespace Pewpew.StatsCollector

open SelectParser Fallible Config

/-- A result of `u64` arithmetic. -/
def wrapU64 (overflowChecks : Bool) (n : Nat) : Option Nat :=
  if n < 2 ^ 64 then some n else if overflowChecks then none else some (n % 2 ^ 64)

/-- The delay to the first tick of the bucket timer in `create_stats_channel`, in milliseconds. -/
def nextBucket (overflowChecks : Bool) (startSec bucketSizeSecs : Nat) : Option Nat := do
  let startBucket ← roundTime startSec bucketSizeSecs
  let past ← subU64 overflowChecks startSec startBucket
  let left ← subU64 overflowChecks bucketSizeSecs past
  let millis ← wrapU64 overflowChecks (left * 1000)
  wrapU64 overflowChecks (millis + 1)

/-- Nothing is divided by zero and nothing overflows, a time is rounded down to a multiple of the
bucket size, and the first tick comes within a bucket and a millisecond. -/
structure BucketsDefined (bucketSize start now : Nat) : Prop where
  positive : 0 < bucketSize
  rounds : ∃ time, roundTime now bucketSize = some time ∧
    IsGreatest {m | bucketSize ∣ m ∧ m ≤ now} time
  delay : ∃ millis, nextBucket true start bucketSize = some millis ∧ 0 < millis ∧
    millis ≤ bucketSize * 1000 + 1

variable {bucketSize start now millis : Nat}

theorem isGreatest_round (hb : 0 < bucketSize) :
    IsGreatest {m | bucketSize ∣ m ∧ m ≤ now} (now / bucketSize * bucketSize) := by
  refine ⟨⟨Nat.dvd_mul_left _ _, Nat.div_mul_le_self _ _⟩, ?_⟩
  rintro m ⟨⟨k, rfl⟩, hle⟩
  rw [Nat.mul_comm]
  exact Nat.mul_le_mul_right _ ((Nat.le_div_iff_mul_le hb).mpr (Nat.mul_comm _ k ▸ hle))

theorem wrapU64_checked {n : Nat} : wrapU64 true n = if n < 2 ^ 64 then some n else none := by
  rw [wrapU64, if_pos rfl]

/-- The delay takes the rest of the bucket and a millisecond, as long as that fits. -/
theorem nextBucket_checked (hb : 0 < bucketSize) : nextBucket true start bucketSize =
    if (bucketSize - start % bucketSize) * 1000 + 1 < 2 ^ 64 then
      some ((bucketSize - start % bucketSize) * 1000 + 1) else none := by
  have hpast : start - start / bucketSize * bucketSize = start % bucketSize := by
    rw [Nat.mul_comm, ← Nat.mod_eq_sub_mul_div]
  have hlt : start % bucketSize < bucketSize := Nat.mod_lt _ hb
  simp only [nextBucket, roundTime_pos hb, subU64_checked, wrapU64_checked, Option.bind_eq_bind,
    Option.bind_some, if_pos (Nat.div_mul_le_self start bucketSize), hpast, if_pos hlt.le]
  by_cases hmillis : (bucketSize - start % bucketSize) * 1000 < 2 ^ 64
  · rw [if_pos hmillis, Option.bind_some]
  · rw [if_neg hmillis, if_neg fun hfits => hmillis (Nat.lt_of_succ_lt hfits), Option.bind_none]

/-- The first tick comes a millisecond after the end of the bucket in which the test starts. -/
theorem nextBucket_ends (hb : 0 < bucketSize) (h : nextBucket true start bucketSize = some millis) :
    start * 1000 + millis = (start / bucketSize + 1) * bucketSize * 1000 + 1 := by
  rw [nextBucket_checked hb] at h
  split at h
  · cases h
    have hdiv := Nat.div_add_mod' start bucketSize
    have hlt : start % bucketSize < bucketSize := Nat.mod_lt _ hb
    rw [Nat.add_mul, Nat.one_mul]
    omega
  · cases h

/-- The bucket size is no zero, and what is left of the first bucket fits in milliseconds. -/
def Fits (bucketSize start : Nat) : Prop :=
  0 < bucketSize ∧ bucketSize ≤ start % bucketSize + 18446744073709551

theorem nextBucket_isSome_iff : (nextBucket true start bucketSize).isSome ↔
    Fits bucketSize start := by
  rcases Nat.eq_zero_or_pos bucketSize with rfl | hb
  · simp [nextBucket, roundTime, Fits]
  · rw [nextBucket_checked hb, Fits]
    split
    · simp only [Option.isSome_some, true_iff]
      omega
    · simp only [Option.isSome_none, Bool.false_eq_true, false_iff]
      omega

theorem bucketsDefined_iff_fits : BucketsDefined bucketSize start now ↔ Fits bucketSize start := by
  rw [← nextBucket_isSome_iff]
  constructor
  · rintro ⟨-, -, millis, hdelay, -, -⟩
    rw [hdelay]
    rfl
  · intro h
    have hb : 0 < bucketSize := (nextBucket_isSome_iff.mp h).1
    obtain ⟨millis, hdelay⟩ := Option.isSome_iff_exists.mp h
    refine ⟨hb, ⟨_, roundTime_pos hb, isGreatest_round hb⟩, millis, hdelay, ?_⟩
    rw [nextBucket_checked hb] at hdelay
    split at hdelay
    · cases hdelay
      omega
    · cases hdelay

/-- What `create_stats_channel` makes before its task runs: the delay, and the stats, for which the
clock is read once more. -/
def createStatsChannel (cfg : Setup) (begun created : Clock) : Option (Nat × Stats) := do
  let delay ← nextBucket cfg.overflowChecks begun.epoch cfg.bucketSize
  let stats ← Stats.new cfg created
  return (delay, stats)

/-- The checked build creates the channel without a panic exactly where the bucket size fits. -/
theorem createStatsChannel_isSome_iff {cfg : Setup} {begun created : Clock} :
    (createStatsChannel cfg.checked begun created).isSome ↔ Fits cfg.bucketSize begun.epoch := by
  rw [← nextBucket_isSome_iff]
  constructor
  · intro h
    obtain ⟨made, hmade⟩ := Option.isSome_iff_exists.mp h
    obtain ⟨delay, hdelay, -⟩ := Option.bind_eq_some_iff.mp hmade
    exact Option.isSome_iff_exists.mpr ⟨delay, hdelay⟩
  · intro h
    have hb : 0 < cfg.bucketSize := (nextBucket_isSome_iff.mp h).1
    obtain ⟨delay, hdelay⟩ := Option.isSome_iff_exists.mp h
    have hdelay' : nextBucket cfg.checked.overflowChecks begun.epoch cfg.checked.bucketSize =
        some delay := hdelay
    have hround : roundTime created.epoch cfg.checked.bucketSize = some _ := roundTime_pos hb
    simp only [createStatsChannel, Stats.new, hdelay', hround, Option.map_some,
      Option.bind_eq_bind, Option.bind_some]
    rfl

/-! ### The bucket size of a config file -/

variable {x : Externals} {g : Grammar} {depth : Nat} {v : Values} {configPath : String}
  {envVars : Object} {c : LoadTestPreProcessed}

theorem addLogger_general {lt lt' : LoadTest v} {key : String} {value : LoggerPreProcessed}
    (h : lt.addLogger x g depth key value = .ok lt') :
    lt'.general = lt.general ∧ lt'.vars = lt.vars := by
  simp only [LoadTest.addLogger, bind_ok] at h
  obtain ⟨⟨⟨logger, select⟩, p⟩, -, -, -, h⟩ := h
  cases select with
  | none =>
    cases h
    exact ⟨rfl, rfl⟩
  | some select =>
    cases h
    exact ⟨rfl, rfl⟩

theorem fromConfig_bucketSize {lt : LoadTest v}
    (h : LoadTest.fromConfig x g depth v configPath envVars c = .ok lt) :
    v.duration c.config.general.bucketSize lt.vars = .ok lt.general.bucketSize := by
  simp only [LoadTest.fromConfig, bind_ok] at h
  obtain ⟨vars, -, globalLoadPattern, -, globalHeaders, -, keepalive, -, requestTimeout, -,
    bucketSize, hbucketSize, watchTransitionTime, -, endpoints, -, providers, -, lt', hloggers, -,
    -, h⟩ := h
  cases h
  obtain ⟨hgeneral, hvars⟩ := foldlM_keeps
    (P := fun lt : LoadTest v => lt.general.bucketSize = bucketSize ∧ lt.vars = vars)
    (fun lt logger lt' hlt h => by
      obtain ⟨hgeneral, hvars⟩ := addLogger_general h
      rw [hgeneral, hvars]
      exact hlt)
    ⟨rfl, rfl⟩ hloggers
  rw [hgeneral, hvars]
  exact hbucketSize

/-- The text of `bucket_size` is a duration of so many seconds, as a `u64` counts them. -/
def BucketSizeIs (D : DecimalDigits) (x : Externals) (g : Grammar) (depth : Nat)
    (c : LoadTestPreProcessed) (vars : Object) (seconds : Nat) : Prop :=
  ∃ dur pieces, PreTemplate.evaluate x g depth vars c.config.general.bucketSize = .ok dur ∧
    IsDuration D dur pieces ∧ seconds = totalSeconds D pieces % 2 ^ 64

theorem evaluate_ok {D : DecimalDigits} {b : Build} (hb : b.durations = durationCaptures D)
    {vars : Object} {dur : PreDuration} {seconds : Nat}
    (h : PreDuration.evaluate x g depth vars b dur = .ok seconds) :
    ∃ s, PreTemplate.evaluate x g depth vars dur = .ok s ∧
      (∃ pieces, IsDuration D s pieces) ∧
      ∀ pieces, IsDuration D s pieces → seconds = totalSeconds D pieces % 2 ^ 64 := by
  obtain ⟨s, hs, hseconds⟩ := bind_ok.mp h
  refine ⟨s, parsed_ok.mp hs, ?_⟩
  cases hd : durationFromString b s dur.text.marker with
  | error e =>
    rw [hd] at hseconds
    cases hseconds
  | ok r =>
    rw [hd] at hseconds
    cases hseconds
    exact durationFromString_ok hb hd

/-- The bucket arithmetic of an accepted config is defined exactly where the duration that it sets
is no zero and the rest of the first bucket fits. -/
theorem bucketsDefined_iff {D : DecimalDigits} {b : Build} (hb : b.durations = durationCaptures D)
    {lt : LoadTest (v.withDurations x g depth b)}
    (h : LoadTest.fromConfig x g depth (v.withDurations x g depth b) configPath envVars c =
      .ok lt) :
    (∃ seconds, BucketSizeIs D x g depth c lt.vars seconds) ∧
      ∀ seconds, BucketSizeIs D x g depth c lt.vars seconds → ∀ start now,
        (BucketsDefined lt.general.bucketSize start now ↔ Fits seconds start) := by
  obtain ⟨s, hs, ⟨pieces, hpieces⟩, hall⟩ := evaluate_ok hb (fromConfig_bucketSize h)
  refine ⟨⟨_, s, pieces, hs, hpieces, rfl⟩, ?_⟩
  rintro seconds ⟨s', pieces', hs', hpieces', rfl⟩ start now
  obtain rfl : s = s' := Except.ok.inj (hs.symm.trans hs')
  rw [← hall pieces' hpieces']
  exact bucketsDefined_iff_fits

/-! ### Configs of one endpoint -/

section Sized

/-- An endpoint with a load. -/
def loaded : EndpointPreProcessed :=
  { logsDeclared "" with declare := ∅, logs := [], peakLoad := some (.new ⟨"1hps", ⟨1, 1⟩⟩) }

def sizedConfig (bucketSize : String) : LoadTestPreProcessed where
  config := ⟨.default ⟨1, 1⟩,
    { GeneralConfigPreProcessed.default ⟨1, 1⟩ with bucketSize := .new ⟨bucketSize, ⟨1, 1⟩⟩ }⟩
  endpoints := [loaded]
  loadPattern := some
    ⟨[.linear ⟨none, .new ⟨"100%", ⟨1, 1⟩⟩, .new ⟨"1m", ⟨1, 1⟩⟩⟩], ⟨1, 1⟩⟩
  providers := ∅
  loggers := ∅
  vars := ∅

abbrev sizedValues : Values := Values.plain.withDurations .plain onlyNames 1 arabicBuild

/-- What `loaded` comes to. -/
def loadedEndpoint : Endpoint sizedValues where
  body := .none
  declare := []
  headers := []
  loadPattern := some ()
  logs := []
  maxParallelRequests := none
  method := .get
  noAutoReturns := false
  onDemand := false
  peakLoad := some ()
  provides := []
  providersToStream := .new
  requiredProviders := RequiredProviders.new.extend .new
  requestTimeout := none
  tags := (allTags loaded 0 (.mk [.notExpression "http://localhost"] false)).toList.map
    fun t => (t.1, .mk [.notExpression t.2.text.inner] true)
  url := .mk [.notExpression "http://localhost"] false

theorem loaded_loads : Endpoint.fromPreprocessed .plain onlyNames 1 sizedValues [] (some ()) [] ""
    loaded 0 = .ok loadedEndpoint := by
  simp only [Endpoint.fromPreprocessed, bind_ok, parsed_ok]
  exact ⟨_, rfl, _, rfl, _, rfl, _, rfl, _, asTemplate_text _ _, _, tags_text _ _, _, rfl, _, rfl,
    _, rfl, rfl⟩

theorem evaluate_text (t : PreTemplate) :
    PreTemplate.evaluate .plain onlyNames 1 [] t = .ok t.text.inner := by
  refine bind_ok.mpr ⟨_, asTemplate_text t .new, ?_⟩
  simp [Template.evaluate, evaluatePieces, TemplatePiece.evaluate, Except.bind, Except.map,
    Except.mapError, String.join]

/-- A number of seconds. -/
theorem isDuration_seconds {dur number : String} (htext : dur.toList = number.toList ++ ['s'])
    (hne : number.toList ≠ []) (hdigits : number.toList.all Char.isDigit = true) :
    IsDuration arabicDigits dur [shortPiece number 's' 1] := by
  refine isDuration_short htext hne ?_ (by simp [units] : ("s", 1) ∈ units)
    (.cons (by decide) .nil)
  refine List.all_eq_true.mpr fun c hc => ?_
  simp [arabicDigits, List.all_eq_true.mp hdigits c hc]

theorem evaluate_seconds {dur number : String} (htext : dur.toList = number.toList ++ ['s'])
    (hne : number.toList ≠ []) (hdigits : number.toList.all Char.isDigit = true)
    (hlt : totalSeconds arabicDigits [shortPiece number 's' 1] < 2 ^ 64) :
    PreDuration.evaluate .plain onlyNames 1 [] arabicBuild (.new ⟨dur, ⟨1, 1⟩⟩) =
      .ok (totalSeconds arabicDigits [shortPiece number 's' 1]) := by
  have hp := isDuration_seconds htext hne hdigits
  have hplain : ∀ p ∈ [shortPiece number 's' 1], p.Plain := by
    intro p hp
    obtain rfl := List.mem_singleton.mp hp
    refine ⟨fun c hc => ?_, by simp [shortPiece]⟩
    have hnine := (toNat_of_isDigit (List.all_eq_true.mp hdigits c hc)).2
    omega
  have hsum : durationFromString arabicBuild dur ⟨1, 1⟩ =
      .ok (totalSeconds arabicDigits [shortPiece number 's' 1]) := by
    rw [durationFromString, arabicBuild_durations, durationCaptures_some hp]
    have hall := addCaptures_ok (b := arabicBuild) (t := 0) hp.valid hplain (by omega)
    rw [Nat.zero_add] at hall
    exact hall
  refine bind_ok.mpr ⟨dur, parsed_ok.mpr (evaluate_text _), ?_⟩
  change (durationFromString arabicBuild dur ⟨1, 1⟩).mapError FromConfigError.value = _
  rw [hsum]
  rfl

theorem sizedConfig_loads {dur number : String} (htext : dur.toList = number.toList ++ ['s'])
    (hne : number.toList ≠ []) (hdigits : number.toList.all Char.isDigit = true)
    (hlt : totalSeconds arabicDigits [shortPiece number 's' 1] < 2 ^ 64) :
    ∃ lt, LoadTest.fromConfig .plain onlyNames 1 sizedValues "" [] (sizedConfig dur) = .ok lt ∧
      lt.vars = [] := by
  have hendpoints : (sizedConfig dur).endpoints.zipIdx.mapM (fun e =>
      Endpoint.fromPreprocessed .plain onlyNames 1 sizedValues [] (some ()) [] "" e.1 e.2) =
      .ok [loadedEndpoint] :=
    mapM_ok_iff.mpr (.cons loaded_loads .nil)
  have hninety : "90s".toList = "90".toList ++ ['s'] := rfl
  have hsixty : "60s".toList = "60".toList ++ ['s'] := rfl
  have hkeepalive := evaluate_seconds hninety (by decide) (by decide) (by decide)
  have hrequest := evaluate_seconds hsixty (by decide) (by decide) (by decide)
  simp only [LoadTest.fromConfig, bind_ok]
  refine ⟨_, ⟨_, rfl, _, rfl, _, rfl, _, hkeepalive, _, hrequest, _,
    evaluate_seconds htext hne hdigits hlt, _, rfl, _, hendpoints, _, rfl, _, rfl, (), ?_, rfl⟩,
    rfl⟩
  refine bind_ok.mpr ⟨(), ?_, rfl⟩
  simp only [LoadTest.verifyEndpoint, bind_ok]
  refine ⟨(), rfl, verifyProviders_ok.mpr fun p hp => ?_⟩
  rcases List.mem_append.mp hp with hp | hp
  · have hmem := RequiredProviders.mem_of_mem_toList hp
    rcases RequiredProviders.mem_extend.mp hmem with hmem | hmem
    · exact absurd hmem Std.ExtTreeMap.not_mem_empty
    · exact absurd hmem Std.ExtTreeMap.not_mem_empty
  · cases hp

end Sized

/-- Buckets of a minute. -/
theorem bucketsDefined_iff_minute : ∃ lt,
    LoadTest.fromConfig .plain onlyNames 1 sizedValues "" [] (sizedConfig "60s") = .ok lt ∧
      BucketsDefined lt.general.bucketSize 90 100 := by
  have htext : "60s".toList = "60".toList ++ ['s'] := rfl
  obtain ⟨lt, h, hvars⟩ := sizedConfig_loads htext (by decide) (by decide) (by decide)
  have hseconds : BucketSizeIs arabicDigits .plain onlyNames 1 (sizedConfig "60s") lt.vars 60 := by
    rw [hvars]
    exact ⟨"60s", _, evaluate_text _, isDuration_seconds htext (by decide) (by decide), by decide⟩
  refine ⟨lt, h, ((bucketsDefined_iff arabicBuild_durations h).2 60 hseconds 90 100).mpr ?_⟩
  exact ⟨by decide, by decide⟩

/-- Buckets of no second. -/
theorem not_bucketsDefined : ¬ ∀ (D : DecimalDigits) (b : Build) (x : Externals) (g : Grammar)
    (depth : Nat) (v : Values) (configPath : String) (envVars : Object)
    (c : LoadTestPreProcessed) (lt : LoadTest (v.withDurations x g depth b)),
    b.durations = durationCaptures D →
      LoadTest.fromConfig x g depth (v.withDurations x g depth b) configPath envVars c = .ok lt →
        ∀ start now, BucketsDefined lt.general.bucketSize start now := by
  intro hall
  have htext : "0s".toList = "0".toList ++ ['s'] := rfl
  obtain ⟨lt, h, hvars⟩ := sizedConfig_loads htext (by decide) (by decide) (by decide)
  have hbucket := fromConfig_bucketSize h
  rw [hvars] at hbucket
  have hzero : lt.general.bucketSize = 0 := Except.ok.inj <|
    hbucket.symm.trans (evaluate_seconds htext (by decide) (by decide) (by decide))
  have hpos := (hall _ _ _ _ _ _ _ _ _ lt arabicBuild_durations h 0 0).positive
  rw [hzero] at hpos
  exact absurd hpos (by decide)

end Pewpew.StatsCollector
