import Mathlib.Data.List.Perm.Basic
import Pewpew.Providers.CsvReader

/-! The records that a reader of CSV gives: in sequence, over and over, and at random. -/
namespace Pewpew.FileProvider

open SelectParser Calls
open Config (CsvSettings FileProviderPreProcessed)

variable {csv : Csv} {settings : CsvSettings} {fp : FileProviderPreProcessed}
  {content : List UInt8} {x : Outside} {p q : CsvReader csv} {r r' : csv.Reader}
  {positions : List Position} {fuel k : Nat} {es : List (Row csv.Error)}

/-! ### The records in sequence -/

/-- What `next` returns of a record. -/
def itemAt (csv : Csv) (x : Outside) (settings : CsvSettings) (content : List UInt8)
    (headers : Option (List String)) (i : Nat) : Option (Except csv.Error Json) :=
  (records csv settings content)[i]?.map fun row => row.text.map (CsvReader.value x headers)

/-- In sequence, the reader gives the records and then nothing. -/
theorem CsvReader.returns_sequential (x : Outside) (hc : csv.Documented)
    (h : CsvReader.new csv x fuel fp content = some (.ok p)) (hrepeats : fp.repeats = false)
    (hrandom : fp.random = false) (k : Nat) :
    Returns (CsvReader.next x) ((List.range k).map (itemAt csv x fp.csv content p.headers)) p := by
  have hscans : ¬ Scans fp := not_scans_iff.mpr ⟨hrandom, by simp [hrepeats]⟩
  obtain ⟨r, hopen, hrep, ⟨habs, -⟩ | ⟨-, -, hnorandom, hreader⟩⟩ := new_cases h
  · exact absurd habs hscans
  · rw [List.range_eq_range']
    refine returns_of_step (fun i q => csv.At (builderOf fp.csv) content (firstRecord fp.csv + i)
      q.reader ∧ q.random = none ∧ q.repeats = false ∧ q.headers = p.headers) ?_
      ⟨hreader ▸ openCsv_at hc hopen, hnorandom, hrep.trans hrepeats, rfl⟩ k
    rintro i q ⟨hr, hnone, hend, hheaders⟩
    cases hrow : (records csv fp.csv content)[i]? with
    | some row =>
      obtain ⟨r', hread, hr'⟩ := readOrRewind_row x (CsvReader.next x 0) hc hr hrow
      refine ⟨1, { q with reader := r' }, (next_of_none 0 hnone).trans ?_, hr', hnone, hend,
        hheaders⟩
      rw [hread, itemAt, hrow, hheaders]
      rfl
    | none =>
      obtain ⟨r', hread, hr'⟩ := readOrRewind_end x (CsvReader.next x 0) hc (.inl hend) hr hrow
      refine ⟨1, { q with reader := r' }, (next_of_none 0 hnone).trans ?_, hr', hnone, hend,
        hheaders⟩
      rw [hread, itemAt, hrow]
      rfl

/-- A reader that begins again at the first record, and is at the start. -/
theorem new_repeated (hc : csv.Documented) (h : CsvReader.new csv x fuel fp content = some (.ok p))
    (hrepeats : fp.repeats = true) (hrandom : fp.random = false)
    (hne : records csv fp.csv content ≠ []) :
    p.random = none ∧ p.repeats = true ∧
      csv.At (builderOf fp.csv) content (firstRecord fp.csv) p.reader ∧
      ∃ pos, p.positions.head? = some pos ∧ LandsAt csv fp.csv content 0 pos := by
  obtain ⟨r, hopen, hrep, ⟨-, ⟨r₁, hscan, hreader⟩, hnorandom⟩ |
    ⟨hscans, hpositions, hnorandom, hreader⟩⟩ := new_cases h
  · rw [hrandom] at hscan
    rcases scanRows_first hc (openCsv_at hc hopen) hscan with ⟨-, hnone⟩ | ⟨pos, hpositions, hland⟩
    · exact absurd hnone hne
    · refine ⟨by simpa [hrandom] using hnorandom, hrep.trans hrepeats, ?_, pos,
        by simp [hpositions], hland⟩
      have hr : csv.At (builderOf fp.csv) content (firstRecord fp.csv + 0) r := openCsv_at hc hopen
      rw [← hrandom] at hscan
      obtain ⟨-, k, hr₁⟩ := scanRows_lands hc hr (by simp) hscan
      rcases hreader with ⟨hnil, -⟩ | ⟨pos', hmem, hseek⟩
      · simp [hpositions] at hnil
      · obtain rfl : pos' = pos := by simpa [hpositions] using hmem
        obtain ⟨row, -, hseeks⟩ := hland
        have hr₂ := (hseeks _ _ hr₁).2
        rw [hseek] at hr₂
        exact hr₂
  · have hfirst := (not_scans_iff.mp hscans).2 hrepeats
    rw [if_pos hrepeats] at hpositions
    exact ⟨hnorandom, hrep.trans hrepeats, hreader ▸ openCsv_at hc hopen, 0, by simp [hpositions],
      landsAt_start hc hfirst hne⟩

/-- With `repeat`, it gives the records over and over. -/
theorem CsvReader.returns_repeated (x : Outside) (hc : csv.Documented)
    (h : CsvReader.new csv x fuel fp content = some (.ok p)) (hrepeats : fp.repeats = true)
    (hrandom : fp.random = false) (hne : records csv fp.csv content ≠ []) (k : Nat) :
    Returns (CsvReader.next x) ((List.range k).map fun i =>
      itemAt csv x fp.csv content p.headers (i % (records csv fp.csv content).length)) p := by
  obtain ⟨hnone, hrep, hr, pos, hpos, hland⟩ := new_repeated hc h hrepeats hrandom hne
  have hlen := List.length_pos_iff.mpr hne
  rw [List.range_eq_range']
  refine returns_of_step (fun i q => q.random = none ∧ q.repeats = true ∧
    q.positions.head? = some pos ∧ q.headers = p.headers ∧
    ∃ j, csv.At (builderOf fp.csv) content (firstRecord fp.csv + j) q.reader ∧
      j ≤ (records csv fp.csv content).length ∧
      j % (records csv fp.csv content).length = i % (records csv fp.csv content).length) ?_
    ⟨hnone, hrep, hpos, rfl, 0, hr, Nat.zero_le _, rfl⟩ k
  rintro i q ⟨hnone, hrep, hpos, hheaders, j, hr, hj, hmod⟩
  rcases Nat.lt_or_ge j (records csv fp.csv content).length with hlt | hge
  · have hrow := List.getElem?_eq_getElem hlt
    obtain ⟨r', hread, hr'⟩ := readOrRewind_row x (CsvReader.next x 0) hc hr hrow
    refine ⟨1, { q with reader := r' }, (next_of_none 0 hnone).trans ?_, hnone, hrep, hpos,
      hheaders, j + 1, hr', hlt, ?_⟩
    · rw [hread, itemAt, ← hmod, Nat.mod_eq_of_lt hlt, hrow, hheaders]
      rfl
    · rw [Nat.add_mod, hmod, ← Nat.add_mod]
  · have hend : j = (records csv fp.csv content).length := Nat.le_antisymm hj hge
    have hrow := List.getElem?_eq_none hge
    have hfirst := List.getElem?_eq_getElem hlen
    have hzero : i % (records csv fp.csv content).length = 0 := by rw [← hmod, hend, Nat.mod_self]
    obtain ⟨r', hnext, hr'⟩ := next_rewound x 0 hc hnone hrep hpos hr hrow hland hfirst
    refine ⟨2, { q with reader := r' }, hnext.trans ?_, hnone, hrep, hpos, hheaders, 0 + 1, hr',
      hlen, ?_⟩
    · rw [itemAt, hzero, hfirst, hheaders]
      rfl
    · rw [Nat.add_mod i, hzero, Nat.zero_add, Nat.zero_add, Nat.mod_mod]

/-! ### The records at random -/

/-- At random, the loop records the positions of all rows that it finds. -/
theorem scanRows_all (hc : csv.Documented)
    (hr : csv.At (builderOf settings) content (firstRecord settings + k) r) {found : List Position}
    (h : scanRows csv true fuel positions r = some (.ok (found, r'))) :
    found = positions ++ ((records csv settings content).drop k).map Row.position := by
  induction fuel generalizing k positions r with
  | zero => cases h
  | succ fuel ih =>
    rw [scanRows, if_neg (by simp)] at h
    rcases readByteRecord_cases hc hr with
      ⟨e, r₁, hread⟩ | ⟨r₁, hr₁, ⟨hrow, hread⟩ | ⟨row, hrow, hread⟩⟩
    · rw [hread] at h
      cases h
    · rw [hread] at h
      cases h
      rw [List.drop_eq_nil_of_le (List.getElem?_eq_none_iff.mp hrow), List.map_nil, List.append_nil]
    · rw [hread] at h
      obtain ⟨hlt, rfl⟩ := List.getElem?_eq_some_iff.mp hrow
      rw [ih hr₁ h, List.drop_eq_getElem_cons hlt, List.map_cons, List.append_assoc]
      rfl

/-- A reader at random that is left with these records. -/
structure Drawing (csv : Csv) (settings : CsvSettings) (content : List UInt8)
    (es : List (Row csv.Error)) (p : CsvReader csv) : Prop where
  reader : ∃ k, csv.At (builderOf settings) content (firstRecord settings + k) p.reader
  positions : p.positions = es.map Row.position
  left : ∀ row ∈ es, row ∈ records csv settings content
  random : p.random ≠ none ∨ records csv settings content = []

theorem new_drawing (hc : csv.Documented) (h : CsvReader.new csv x fuel fp content = some (.ok p))
    (hrandom : fp.random = true) :
    p.repeats = fp.repeats ∧ Drawing csv fp.csv content (records csv fp.csv content) p := by
  have hplaced := new_placed hc h fun hrewinds => absurd hrewinds.2.1 (by simp [hrandom])
  obtain ⟨r, hopen, hrep, ⟨-, ⟨r₁, hscan, -⟩, hran⟩ | ⟨hscans, -⟩⟩ := new_cases h
  · have hr : csv.At (builderOf fp.csv) content (firstRecord fp.csv + 0) r := openCsv_at hc hopen
    rw [hrandom] at hscan
    have hpositions : p.positions = (records csv fp.csv content).map Row.position :=
      scanRows_all hc hr hscan
    refine ⟨hrep, hplaced.reader, hpositions, fun row hrow => hrow, ?_⟩
    by_cases hne : records csv fp.csv content = []
    · exact .inr hne
    · left
      simp [hran, hrandom, hpositions, hne]
  · exact absurd (by simp [Scans, hrandom]) hscans

/-- A call gives one of the records that are left, and leaves the others. -/
theorem next_drawn (x : Outside) (hc : csv.Documented) (hp : Drawing csv settings content es p)
    (hne : es ≠ []) (fuel : Nat) :
    ∃ m, ∃ hm : m < es.length, ∃ q, CsvReader.next x (fuel + 1) p =
        some (some (es[m].text.map (CsvReader.value x p.headers)), q) ∧
      q.repeats = p.repeats ∧ q.headers = p.headers ∧
      Drawing csv settings content (if p.repeats then es else es.eraseIdx m) q := by
  obtain ⟨j, hr⟩ := hp.reader
  have hrecords : records csv settings content ≠ [] := by
    obtain ⟨row, hrow⟩ := List.exists_mem_of_ne_nil es hne
    exact List.ne_nil_of_mem (hp.left row hrow)
  have hran : p.random ≠ none := hp.random.resolve_right hrecords
  obtain ⟨n, hrandom⟩ := Option.ne_none_iff_exists'.mp hran
  have hpositions : p.positions ≠ [] := by simpa [hp.positions] using hne
  obtain ⟨m, hm, hpicked⟩ := next_picked x fuel hrandom hpositions hc hr
  have hm' : m < es.length := by simpa [hp.positions] using hm
  have hpos : p.positions[m] = es[m].position := by simp [hp.positions]
  obtain ⟨k, hrow⟩ := List.getElem?_of_mem (hp.left _ (List.getElem_mem hm'))
  obtain ⟨r, hnext, hr'⟩ := hpicked k es[m] (hpos ▸ landsAt_row hc hrow) hrow
  refine ⟨m, hm', _, hnext, rfl, rfl, ⟨_, hr'⟩, ?_, fun row hmem => hp.left row ?_, .inl hran⟩
  · simp only [hp.positions]
    split
    · rfl
    · rw [List.eraseIdx_map]
  · split at hmem
    · exact hmem
    · exact List.mem_of_mem_eraseIdx hmem

/-- Where none is left, a call gives nothing. -/
theorem next_drawn_nil (x : Outside) (hc : csv.Documented) (hp : Drawing csv settings content [] p)
    (fuel : Nat) :
    ∃ q, CsvReader.next x (fuel + 1) p = some (none, q) ∧ Drawing csv settings content [] q := by
  have hpositions : p.positions = [] := hp.positions
  cases hrandom : p.random with
  | some n =>
    refine ⟨p, ?_, hp⟩
    simp [CsvReader.next, hrandom, hpositions]
  | none =>
    obtain ⟨k, hr⟩ := hp.reader
    have hnone : records csv settings content = [] := hp.random.resolve_left fun h => h hrandom
    obtain ⟨r, hread, hr'⟩ := readOrRewind_end x (CsvReader.next x fuel) hc (.inr hpositions) hr
      (by simp [hnone])
    exact ⟨_, (next_of_none _ hrandom).trans hread, ⟨_, hr'⟩, hpositions, hp.left, .inr hnone⟩

theorem drawing_returns (x : Outside) (hc : csv.Documented) (hp : Drawing csv settings content es p)
    (hrepeats : p.repeats = false) : ∃ rows : List (Row csv.Error), rows.Perm es ∧ ∀ k,
      Returns (CsvReader.next x) ((List.range k).map fun i =>
        rows[i]?.map fun row => row.text.map (CsvReader.value x p.headers)) p := by
  induction hlen : es.length generalizing es p with
  | zero =>
    obtain rfl := List.eq_nil_of_length_eq_zero hlen
    refine ⟨[], .nil, fun k => ?_⟩
    have hnothing := returns_replicate (a := none) (Drawing csv settings content [])
      (fun q hq => ⟨1, next_drawn_nil x hc hq 0⟩) hp k
    simpa using hnothing
  | succ n ih =>
    have hne : es ≠ [] := List.ne_nil_of_length_eq_add_one hlen
    obtain ⟨m, hm, q, hnext, hrep, hheaders, hq⟩ := next_drawn x hc hp hne 0
    rw [hrepeats] at hrep
    rw [hrepeats, if_neg Bool.false_ne_true] at hq
    have hleft : (es.eraseIdx m).length = n := by
      rw [List.length_eraseIdx_of_lt hm, hlen, Nat.add_sub_cancel]
    obtain ⟨rows, hperm, hreturns⟩ := ih hq hrep hleft
    refine ⟨es[m] :: rows, (hperm.cons _).trans (List.getElem_cons_eraseIdx_perm hm), fun k => ?_⟩
    cases k with
    | zero => trivial
    | succ k =>
      rw [List.range_succ_eq_map, List.map_cons, List.map_map]
      have hrest := hreturns k
      rw [hheaders] at hrest
      exact ⟨1, q, hnext, hrest⟩

/-- At random, the reader gives each record once, and then nothing. -/
theorem CsvReader.returns_random (x : Outside) (hc : csv.Documented)
    (h : CsvReader.new csv x fuel fp content = some (.ok p)) (hrandom : fp.random = true)
    (hrepeats : fp.repeats = false) :
    ∃ rows : List (Row csv.Error), rows.Perm (records csv fp.csv content) ∧ ∀ k,
      Returns (CsvReader.next x) ((List.range k).map fun i =>
        rows[i]?.map fun row => row.text.map (CsvReader.value x p.headers)) p := by
  obtain ⟨hrep, hp⟩ := new_drawing hc h hrandom
  exact drawing_returns x hc hp (hrep.trans hrepeats)

/-- At random and with `repeat`, each call gives a record. -/
theorem CsvReader.returns_random_repeated (x : Outside) (hc : csv.Documented)
    (h : CsvReader.new csv x fuel fp content = some (.ok p)) (hrandom : fp.random = true)
    (hrepeats : fp.repeats = true) (hne : records csv fp.csv content ≠ []) (k : Nat) :
    ∃ items, items.length = k ∧ (∀ item ∈ items, ∃ row ∈ records csv fp.csv content,
        item = some (row.text.map (CsvReader.value x p.headers))) ∧
      Returns (CsvReader.next x) items p := by
  obtain ⟨hrep, hp⟩ := new_drawing hc h hrandom
  refine exists_returns (fun q => Drawing csv fp.csv content (records csv fp.csv content) q ∧
    q.repeats = true ∧ q.headers = p.headers) ?_ ⟨hp, hrep.trans hrepeats, rfl⟩ k
  rintro q ⟨hq, hrep, hheaders⟩
  obtain ⟨m, hm, q', hnext, hrep', hheaders', hq'⟩ := next_drawn x hc hq hne 0
  rw [hrep, if_pos rfl] at hq'
  rw [hheaders] at hnext
  exact ⟨1, _, q', hnext, ⟨_, List.getElem_mem hm, rfl⟩, hq', hrep'.trans hrep,
    hheaders'.trans hheaders⟩

end Pewpew.FileProvider
