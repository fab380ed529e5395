import Pewpew.Library.Iterator
import Pewpew.Providers.CsvRecords
import Pewpew.Providers.FileReader
import Pewpew.Providers.Primer

/-! From a file to the receivers of its provider. -/
namespace Pewpew.FileProvider

open SelectParser Calls Transition ProviderChannel Iterator
open Config (CsvSettings FileProviderPreProcessed)

variable {csv : Csv} {d : StreamDeserializer} {x : Outside} {fp : FileProviderPreProcessed}
  {content : List UInt8} {fuel : Nat}

/-! ### Fuel -/

theorem readOrRewind_mono {p : CsvReader csv} {again again' : CsvReader csv → CsvReader.Called csv}
    (hagain : ∀ q r, again q = some r → again' q = some r)
    {r : Option (Except csv.Error Json) × CsvReader csv}
    (h : p.readOrRewind x again = some r) : p.readOrRewind x again' = some r := by
  unfold CsvReader.readOrRewind at h ⊢
  rcases hread : csv.readRecord p.reader with ⟨e | _ | record, reader⟩ <;> rw [hread] at h
  · exact h
  · by_cases hrepeats : p.repeats = true
    · simp only [if_pos hrepeats] at h ⊢
      cases hpos : p.positions.head? with
      | none =>
        rw [hpos] at h
        exact h
      | some pos =>
        simp only [hpos] at h ⊢
        rcases hseek : csv.seek pos reader with ⟨e | u, reader'⟩ <;> rw [hseek] at h
        · exact h
        · exact hagain _ _ h
    · simp only [if_neg hrepeats] at h ⊢
      exact h
  · exact h

theorem steady_csv (x : Outside) :
    Steady (CsvReader.next x : Nat → CsvReader csv → CsvReader.Called csv) := by
  refine steady_of_mono fun n => ?_
  induction n with
  | zero =>
    intro p r h
    cases h
  | succ n ih =>
    intro p r h
    rw [CsvReader.next] at h ⊢
    cases hrandom : p.random with
    | none =>
      simp only [hrandom] at h ⊢
      exact readOrRewind_mono ih h
    | some k =>
      simp only [hrandom] at h ⊢
      by_cases hempty : p.positions.isEmpty = true
      · rwa [if_pos hempty] at h ⊢
      · rw [if_neg hempty] at h ⊢
        obtain ⟨⟨pos, q⟩, hpick, h⟩ := Option.bind_eq_some_iff.mp h
        refine Option.bind_eq_some_iff.mpr ⟨(pos, q), hpick, ?_⟩
        rcases hseek : csv.seek pos q.reader with ⟨e | u, reader⟩ <;> simp only [hseek] at h ⊢
        · exact h
        · exact readOrRewind_mono ih h

theorem steady_reader : Steady (FileReader.next csv d x) := by
  intro m n r u u' h h'
  cases r with
  | csv p =>
    obtain ⟨a, ha, rfl⟩ := Option.map_eq_some_iff.mp h
    obtain ⟨b, hb, rfl⟩ := Option.map_eq_some_iff.mp h'
    rw [steady_csv x m n p a b ha hb]
  | json p => exact Option.some.inj (h.symm.trans h')
  | line p => exact Option.some.inj (h.symm.trans h')

/-! ### What the readers return -/

theorem csv_inMode (hc : csv.Documented) {p : CsvReader csv}
    (h : CsvReader.new csv x fuel fp content = some (.ok p))
    (hne : fp.repeats = true → records csv fp.csv content ≠ []) :
    ∃ item, InMode fp.repeats fp.random
        ((records csv fp.csv content).map fun row => row.text.map (CsvReader.value x p.headers))
        item ∧
      ∀ k, Returns (CsvReader.next x) ((List.range k).map item) p := by
  cases hrepeats : fp.repeats <;> cases hrandom : fp.random
  · refine ⟨itemAt csv x fp.csv content p.headers, fun i => ?_,
      CsvReader.returns_sequential x hc h hrepeats hrandom⟩
    rw [itemAt, List.getElem?_map]
  · obtain ⟨rows, hperm, hreturns⟩ := CsvReader.returns_random x hc h hrandom hrepeats
    refine ⟨_, ⟨_, hperm.map _, fun i => ?_⟩, hreturns⟩
    rw [List.getElem?_map]
  · refine ⟨_, fun i => ?_, CsvReader.returns_repeated x hc h hrepeats hrandom (hne hrepeats)⟩
    rw [itemAt, List.length_map, List.getElem?_map]
  · obtain ⟨item, hitem, hreturns⟩ := exists_sequence (steady_csv x)
      (CsvReader.returns_random_repeated x hc h hrandom hrepeats (hne hrepeats))
    refine ⟨item, fun i => ?_, hreturns⟩
    obtain ⟨row, hrow, hi⟩ := hitem i
    exact ⟨_, List.mem_map_of_mem hrow, hi⟩

theorem givesAll_inMode {R V : Type} {a : Access R V} {pick : Nat → Nat} {r : R} {vals : List V}
    {p : Provider R} {repeats random : Bool} (hg : GivesAll a pick fuel r vals)
    (h : new a pick fuel r repeats random = some (.ok p)) (hne : repeats = true → vals ≠ []) :
    ∃ item, InMode repeats random (vals.map Except.ok) item ∧
      ∀ k, Returns (fun _ => next a pick) ((List.range k).map item) p := by
  have hnew {q : Provider R} (hq : new a pick fuel r repeats random = some (.ok q)) : q = p := by
    simpa [hq] using h
  cases repeats <;> cases random
  · obtain ⟨q, hq, hresults⟩ := hg.sequential
    obtain rfl := hnew hq
    refine ⟨_, fun i => ?_, fun k => (returns_of_results (hresults k)).2⟩
    rw [List.getElem?_map]
  · obtain ⟨q, hq, l, hperm, hresults⟩ := hg.random
    obtain rfl := hnew hq
    refine ⟨_, ⟨_, hperm.map _, fun i => ?_⟩, fun k => (returns_of_results (hresults k)).2⟩
    rw [List.getElem?_map]
  · obtain ⟨q, hq, hresults⟩ := hg.repeated
    obtain rfl := hnew hq
    refine ⟨_, fun i => ?_, fun k => (returns_of_results (hresults k)).2⟩
    rw [List.length_map, List.getElem?_map]
  · obtain ⟨q, hq, hresults⟩ := hg.randomRepeated
    obtain rfl := hnew hq
    have hsteady : Steady fun _ => next a pick := fun _ _ _ _ _ hr hr' =>
      Option.some.inj (hr.symm.trans hr')
    obtain ⟨item, hitem, hreturns⟩ := exists_sequence (s := q) hsteady
      (P := fun i => ∃ v ∈ vals, i = some (.ok v)) fun k => by
        obtain ⟨items, hitems, hall⟩ := hresults k
        obtain ⟨hlen, hreturns⟩ := returns_of_results hitems
        refine ⟨items, hlen, fun i hi => ?_, hreturns⟩
        have hv := hall i hi
        rwa [if_neg (hne rfl)] at hv
    refine ⟨item, fun i => ?_, hreturns⟩
    obtain ⟨v, hv, hi⟩ := hitem i
    exact ⟨_, List.mem_map_of_mem hv, hi⟩

theorem tokens_inMode (hd : d.Documented) {f : JsonFile d} (hfree : CutFree d x.chunk f) :
    ∃ item, InMode false false (f.tokens.map fun t => Except.ok t.value) item ∧
      ∀ k, Returns (fun _ => next (JsonReader.access d x.chunk) x.pick) ((List.range k).map item)
        ⟨.open f.bytes, [], none, false, 0⟩ := by
  refine ⟨fun i => (f.tokens.map fun t => Except.ok t.value)[i]?, fun _ => rfl, fun k => ?_⟩
  have hresults : results (JsonReader.access d x.chunk) x.pick k
      ⟨.open f.bytes, [], none, false, 0⟩ = some _ :=
    results_sequential (delivers_tokens hd hfree) (Nat.zero_le _) (atToken_open x.chunk f) k
  have hreturns := (returns_of_results hresults).2
  simp only [Nat.zero_add, List.getElem?_map, Option.map_map] at hreturns
  simp only [List.getElem?_map]
  exact hreturns

/-- The values of a file, as its format understands it; those of JSON are given in sequence only,
where no call of `read` cuts a number. -/
def FileHolds (csv : Csv) (d : StreamDeserializer) (x : Outside) (fp : FileProviderPreProcessed)
    (content : List UInt8) : FileReader csv → List (Except (ReadError csv) Json) → Prop
  | .csv p, vals => vals = (records csv fp.csv content).map fun row =>
      (row.text.map (CsvReader.value x p.headers)).mapError .csv
  | .line _, vals => vals = (lines content).map fun line => .ok (x.lineValue line)
  | .json _, vals => fp.repeats = false ∧ fp.random = false ∧ ∃ f : JsonFile d,
      f.bytes = content ∧ CutFree d x.chunk f ∧ vals = f.tokens.map fun t => .ok t.value

theorem reader_inMode (hc : csv.Documented) (hd : d.Documented) {r : FileReader csv}
    (hnew : FileReader.new csv d x fuel fp content = some (.ok r)) (hfuel : content.length < fuel)
    {vals : List (Except (ReadError csv) Json)} (hvals : FileHolds csv d x fp content r vals)
    (hne : fp.repeats = true → vals ≠ []) :
    ∃ item, InMode fp.repeats fp.random vals item ∧
      ∀ k, Returns (FileReader.next csv d x) ((List.range k).map item) r := by
  unfold FileReader.new at hnew
  cases hformat : fp.format with
  | csv =>
    simp only [hformat] at hnew
    obtain ⟨p, hp, rfl⟩ := ok_of_map hnew
    obtain rfl := hvals
    obtain ⟨item, hmode, hreturns⟩ := csv_inMode hc hp fun hr => by simpa using hne hr
    have hvals := hmode.map (·.mapError ReadError.csv)
    rw [List.map_map] at hvals
    refine ⟨_, hvals, fun k => ?_⟩
    have hmap := (hreturns k).map (g := FileReader.next csv d x) FileReader.csv
      (Option.map (·.mapError ReadError.csv)) fun _ _ => rfl
    rwa [List.map_map] at hmap
  | json =>
    simp only [hformat] at hnew
    obtain ⟨p, hp, rfl⟩ := ok_of_map hnew
    obtain ⟨hrepeats, hrandom, f, rfl, hfree, rfl⟩ := hvals
    rw [hrepeats, hrandom] at hp ⊢
    obtain rfl := Except.ok.inj (Option.some.inj hp)
    obtain ⟨item, hmode, hreturns⟩ := tokens_inMode (x := x) hd hfree
    have hvals := hmode.map (·.mapError (ReadError.io : IoError → ReadError csv))
    rw [List.map_map] at hvals
    refine ⟨_, hvals, fun k => ?_⟩
    have hmap := (hreturns k).map (g := FileReader.next csv d x) FileReader.json
      (Option.map (·.mapError ReadError.io)) fun _ _ => rfl
    rwa [List.map_map] at hmap
  | line =>
    simp only [hformat] at hnew
    obtain ⟨p, hp, rfl⟩ := ok_of_map hnew
    obtain rfl := hvals
    have hg : GivesAll (LineReader.access x) x.pick fuel (.open content)
        ((lines content).map x.lineValue) := by
      refine (delivers_lines x content).givesAll (seeks_lines x content) ?_
        ⟨⟨rfl, Nat.zero_le _, rfl⟩, rfl⟩
      rw [List.length_map]
      exact (length_lines_le content).trans_lt hfuel
    obtain ⟨item, hmode, hreturns⟩ := givesAll_inMode hg hp fun hr => by simpa using hne hr
    have hvals := hmode.map (·.mapError (ReadError.io : IoError → ReadError csv))
    rw [List.map_map, List.map_map] at hvals
    refine ⟨_, hvals, fun k => ?_⟩
    have hmap := (hreturns k).map (g := FileReader.next csv d x) FileReader.line
      (Option.map (·.mapError ReadError.io)) fun _ _ => rfl
    rwa [List.map_map] at hmap

/-! ### The provider -/

/-- The tasks that `file` starts, and its channel. -/
def file (fp : FileProviderPreProcessed) (limit : Limit) (r : FileReader csv) :
    Primer.Forward (Primer.Piped (FileReader csv) (ReadError csv) Json) (ReadError csv) Json :=
  .start limit fp.unique (Primer.intoStream r)

/-- In every interleaving of the reading task, the forwarding task and any number of receivers, the
values of the file come to the receivers in the order of the reader's mode: none is lost, and none
comes twice. -/
theorem file_delivers (hc : csv.Documented) (hd : d.Documented) {r : FileReader csv}
    (hnew : FileReader.new csv d x fuel fp content = some (.ok r)) (hfuel : content.length < fuel)
    {vals : List (Except (ReadError csv) Json)} (hvals : FileHolds csv d x fp content r vals)
    (hne : fp.repeats = true → vals ≠ []) (hunique : fp.unique = false) :
    ∃ item, InMode fp.repeats fp.random vals item ∧
      ∀ (limit : Limit) (hash : Json → Nat) (p : Nat) ms s,
        Run (Primer.Step (Primer.Piped.next (FileReader.next csv d x)) hash p) (file fp limit r)
          ms s →
          Primer.Delivered p item s := by
  obtain ⟨item, hmode, hreturns⟩ := reader_inMode hc hd hnew hfuel hvals hne
  refine ⟨item, hmode, fun limit hash p ms s hrun => ?_⟩
  rw [file, hunique] at hrun
  exact Primer.delivered_run steady_reader hreturns hrun

/-- A file of CSV that is read in sequence. -/
def plainFile : FileProviderPreProcessed :=
  { repeatedCsv (.bool false) with repeats := false }

/-- The first record of two is read, forwarded and received. -/
def plainTrace : List (Primer.Move Primer.Side Json) :=
  [.act (.callSender 0 .clone), .poll (.call 1), .poll (.call 1), .poll .receive, .give,
    .act (.sender 1 []), .poll .receive, .act (.sender 1 []), .act (.callReceiver 0 .pollNext),
    .act (.receiver 0 [])]

/-- The reader of the file `a`, `b`. -/
def plainReader : CsvReader plainCsv :=
  ⟨[], none, none, plainCsv.fromReader (builderOf plainFile.csv) [97, 10, 98, 10], false, 0⟩

theorem file_delivers_plain : ∃ item s,
    Run (Primer.Step (Primer.Piped.next (FileReader.next plainCsv nonzeroDigits nothingOutside))
      (fun _ => 0) 1) (file plainFile (.statik 5) (.csv plainReader)) plainTrace s ∧
    s.state.channel.popped.length = 1 ∧ s.hand.isSome = true ∧ Primer.Delivered 1 item s := by
  have hnew : FileReader.new plainCsv nonzeroDigits nothingOutside 5 plainFile [97, 10, 98, 10] =
      some (.ok (.csv plainReader)) := rfl
  obtain ⟨item, -, hall⟩ := file_delivers documented_plainCsv documented_nonzeroDigits hnew
    (by decide) rfl (by simp [plainFile]) rfl
  obtain ⟨s, hrun, hs⟩ := run_of_exec_map
    (Primer.Forward.next (Primer.Piped.next (FileReader.next plainCsv nonzeroDigits nothingOutside))
      (fun _ => 0) 1)
    (file plainFile (.statik 5) (.csv plainReader)) plainTrace
    (fun s => s.state.channel.popped.length == 1 && s.hand.isSome) rfl
  obtain ⟨hpopped, hhand⟩ := Bool.and_eq_true_iff.mp hs
  exact ⟨item, s, hrun, by simpa using hpopped, hhand, hall _ _ _ _ _ hrun⟩

end Pewpew.FileProvider
