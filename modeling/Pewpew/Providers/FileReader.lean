import Pewpew.Providers.CsvReader
import Pewpew.Providers.JsonChunks

/-! The readers of a file in each of its formats, on files without a record. -/
namespace Pewpew.FileProvider

open SelectParser Calls
open Config (CsvSettings FileProviderPreProcessed)

inductive ReadError (csv : Csv) where
  | io (e : IoError)
  | csv (e : csv.Error)

/-- The reader that `file` makes for the format. -/
inductive FileReader (csv : Csv) where
  | csv (p : CsvReader csv)
  | json (p : Provider JsonReader)
  | line (p : Provider LineReader)

namespace FileReader

variable (csv : Csv) (d : StreamDeserializer) (x : Outside)

def new (fuel : Nat) (fp : FileProviderPreProcessed) (content : List UInt8) :
    Option (Except (ReadError csv) (FileReader csv)) :=
  match fp.format with
  | .csv => (CsvReader.new csv x fuel fp content).map fun r => (r.mapError .csv).map .csv
  | .json =>
    (FileProvider.new (JsonReader.access d x.chunk) x.pick fuel (.open content) fp.repeats
      fp.random).map fun r => (r.mapError .io).map .json
  | .line =>
    (FileProvider.new (LineReader.access x) x.pick fuel (.open content) fp.repeats
      fp.random).map fun r => (r.mapError .io).map .line

/-- `next` of the reader; fuel is for its calls of itself alone. -/
def next (fuel : Nat) : FileReader csv →
    Option (Option (Except (ReadError csv) Json) × FileReader csv)
  | .csv p => (CsvReader.next x fuel p).map fun r => (r.1.map (·.mapError .csv), .csv r.2)
  | .json p =>
    (FileProvider.next (JsonReader.access d x.chunk) x.pick p).map
      fun r => (r.1.map (·.mapError .io), .json r.2)
  | .line p =>
    (FileProvider.next (LineReader.access x) x.pick p).map
      fun r => (r.1.map (·.mapError .io), .line r.2)

/-- Each call of `next` terminates and returns `None`. -/
def NeverGives (r : FileReader csv) : Prop :=
  ∀ k, Returns (next csv d x) (List.replicate k none) r

end FileReader

/-- A file without a record, as its format understands it. -/
def NoRecord (csv : Csv) (fp : FileProviderPreProcessed) (content : List UInt8) : Prop :=
  match fp.format with
  | .csv => records csv fp.csv content = []
  | .json => Blank content
  | .line => content = []

/-! ### Readers of positions and lengths -/

variable {R V : Type} {a : Access R V} {pick : Nat → Nat} {r : R} {p : Provider R} {fuel : Nat}

theorem returns_of_results {k : Nat} {items : List (Item V)}
    (h : results a pick k p = some items) : items.length = k ∧
      Returns (fun _ => next a pick) items p := by
  induction k generalizing p items with
  | zero =>
    cases h
    exact ⟨rfl, trivial⟩
  | succ k ih =>
    rw [results] at h
    obtain ⟨⟨item, p'⟩, hnext, h⟩ := Option.bind_eq_some_iff.mp h
    obtain ⟨rest, hrest, h⟩ := Option.bind_eq_some_iff.mp h
    cases h
    obtain ⟨hlen, hreturns⟩ := ih hrest
    exact ⟨congrArg Nat.succ hlen, 0, p', hnext, hreturns⟩

/-- Where there is no value, no call of `next` gives one. -/
theorem results_of_nothing (hg : ∀ fuel, 0 < fuel → GivesAll a pick fuel r []) {rep random : Bool}
    (h : new a pick fuel r rep random = some (.ok p)) (k : Nat) :
    results a pick k p = some (List.replicate k none) := by
  have hnothing : ((List.range k).map fun _ => (none : Item V)) = List.replicate k none := by
    rw [List.map_const', List.length_range]
  cases random with
  | false =>
    have h' : new a pick 1 r rep false = some (.ok p) := h
    cases rep with
    | false =>
      obtain ⟨p', hp', hresults⟩ := (hg 1 Nat.one_pos).sequential
      obtain rfl : p' = p := by simpa [hp'] using h'
      rw [hresults, ← hnothing]
      rfl
    | true =>
      obtain ⟨p', hp', hresults⟩ := (hg 1 Nat.one_pos).repeated
      obtain rfl : p' = p := by simpa [hp'] using h'
      rw [hresults, ← hnothing]
      rfl
  | true =>
    have hfuel : 0 < fuel := by
      cases fuel with
      | zero => cases h
      | succ fuel => exact Nat.succ_pos fuel
    cases rep with
    | false =>
      obtain ⟨p', hp', l, hl, hresults⟩ := (hg fuel hfuel).random
      obtain rfl : p' = p := by simpa [hp'] using h
      rw [hresults, hl.eq_nil, ← hnothing]
      rfl
    | true =>
      obtain ⟨p', hp', hresults⟩ := (hg fuel hfuel).randomRepeated
      obtain rfl : p' = p := by simpa [hp'] using h
      obtain ⟨items, hitems, hall⟩ := hresults k
      obtain ⟨hlen, -⟩ := returns_of_results hitems
      rw [hitems, ← hlen]
      exact congrArg some (List.eq_replicate_iff.mpr ⟨rfl, fun item hitem => hall item hitem⟩)

/-! ### A file of whitespace -/

variable {csv : Csv} {d : StreamDeserializer} {x : Outside} {chunk : Nat → Nat}
  {content : List UInt8} {s : JsonReader} {fp : FileProviderPreProcessed}

/-- A reader of the file whose buffer holds whitespace. -/
def Spaces (content : List UInt8) (s : JsonReader) : Prop :=
  s.reader.content = content ∧ Blank s.buffer

theorem spaces_refill (hb : Blank content) (hs : Spaces content s) :
    Spaces content (s.refill chunk) := by
  obtain ⟨hcontent, hbuffer⟩ := hs
  refine ⟨hcontent, fun b hmem => ?_⟩
  rcases List.mem_append.mp hmem with hmem | hmem
  · exact hbuffer b hmem
  · refine hb b ?_
    rw [← hcontent]
    exact List.mem_of_mem_drop (List.mem_of_mem_take hmem)

theorem loop_spaces (chunk : Nat → Nat) (hd : d.Documented) (hb : Blank content) (position : Nat)
    (hs : Spaces content s) :
    ∃ s', s.loop d chunk position = some (none, s') ∧ Spaces content s' :=
  loop_blank hd position (Spaces content) (fun _ h => h.2) (fun _ => spaces_refill hb) hs

theorem spaces_seek (hs : Spaces content s) (pos : Nat) : Spaces content (s.seek pos) :=
  ⟨hs.1, by simp [JsonReader.seek, Blank]⟩

theorem givesAll_blank (hd : d.Documented) (hb : Blank content) (hfuel : 0 < fuel) :
    GivesAll (JsonReader.access d chunk) pick fuel (.open content) [] := by
  have hdelivers : Delivers (JsonReader.access d chunk) [] (fun _ => (0, 0))
      (fun _ => Spaces content) := by
    constructor
    · intro j r v _ hv
      cases hv
    · intro r hr
      exact loop_spaces chunk hd hb r.position hr
  have hseeks : Seeks (JsonReader.access d chunk) [] (fun _ => (0, 0)) (fun _ => Spaces content)
      (Spaces content) := by
    constructor
    · exact fun j r hr => hr
    · exact fun pos r hr => spaces_seek hr pos
    · intro j r v _ hv
      cases hv
    · intro r hr
      obtain ⟨s', hloop, hs'⟩ := loop_spaces chunk hd hb 0 (spaces_seek hr 0)
      refine ⟨none, s', ?_, rfl, hs'⟩
      simpa [JsonReader.access, JsonReader.getValue, File.readExact, JsonReader.seek] using hloop
  exact hdelivers.givesAll hseeks hfuel ⟨rfl, by simp [JsonReader.open, Blank]⟩

theorem givesAll_empty (x : Outside) (hfuel : 0 < fuel) :
    GivesAll (LineReader.access x) pick fuel (.open []) [] := by
  refine (delivers_lines x []).givesAll (seeks_lines x []) hfuel ?_
  exact ⟨⟨rfl, Nat.zero_le _, rfl⟩, rfl⟩

/-! ### All readers -/

/-- What a successful result is made of. -/
theorem ok_of_map {E E' A B : Type} {o : Option (Except E A)} {e : E → E'} {f : A → B} {b : B}
    (h : (o.map fun r => (r.mapError e).map f) = some (.ok b)) :
    ∃ a, o = some (.ok a) ∧ b = f a := by
  rcases o with _ | _ | a
  · cases h
  · cases h
  · cases h
    exact ⟨a, rfl, rfl⟩

/-- The reader of a file of CSV without a record, where it does not begin again at the start. -/
theorem CsvReader.returns_none (hc : csv.Documented) {p : CsvReader csv}
    (h : CsvReader.new csv x fuel fp content = some (.ok p))
    (hnone : records csv fp.csv content = []) (hrewinds : ¬ Rewinds fp) (k : Nat) :
    Returns (CsvReader.next x) (List.replicate k none) p := by
  refine returns_replicate (Placed csv fp.csv content) (fun q hq => ?_)
    (new_placed hc h fun hr => absurd hr hrewinds) k
  obtain ⟨item, q', hcall, hitem, hq', -⟩ := next_placed x hc hq 0
  cases item with
  | none => exact ⟨2, q', hcall, hq'⟩
  | some i =>
    obtain ⟨row, hrow, -⟩ := hitem i rfl
    rw [hnone] at hrow
    cases hrow

/-- On a file without a record, each call of `next` returns `None` exactly where it is no reader of
CSV that begins again at the start of the file. -/
theorem FileReader.neverGives_iff (hc : csv.Documented) (hd : d.Documented)
    (hnone : NoRecord csv fp content) {r : FileReader csv}
    (hnew : FileReader.new csv d x fuel fp content = some (.ok r)) :
    FileReader.NeverGives csv d x r ↔ ¬ (fp.format = .csv ∧ Rewinds fp) := by
  unfold FileReader.new at hnew
  unfold NoRecord at hnone
  cases hformat : fp.format with
  | csv =>
    simp only [hformat] at hnew hnone
    obtain ⟨p, hp, rfl⟩ := ok_of_map hnew
    constructor
    · rintro hall ⟨-, hrewinds⟩
      obtain ⟨fuel', r', hcall, -⟩ := hall 1
      simp [FileReader.next, next_eq_none x hc (new_stuck hc hp hrewinds hnone)] at hcall
    · intro hcond k
      have hreturns := CsvReader.returns_none hc hp hnone (fun hr => hcond ⟨rfl, hr⟩) k
      have hmap := hreturns.map (g := FileReader.next csv d x) FileReader.csv
        (Option.map (·.mapError ReadError.csv)) fun _ _ => rfl
      rwa [List.map_replicate] at hmap
  | json =>
    simp only [hformat] at hnew hnone
    obtain ⟨p, hp, rfl⟩ := ok_of_map hnew
    refine iff_of_true (fun k => ?_) (by simp)
    have hresults := results_of_nothing (fun _ => givesAll_blank hd hnone) hp k
    have hmap := (returns_of_results hresults).2.map (g := FileReader.next csv d x) FileReader.json
      (Option.map (·.mapError ReadError.io)) fun _ _ => rfl
    rwa [List.map_replicate] at hmap
  | line =>
    simp only [hformat] at hnew hnone
    subst hnone
    obtain ⟨p, hp, rfl⟩ := ok_of_map hnew
    refine iff_of_true (fun k => ?_) (by simp)
    have hresults := results_of_nothing (fun _ => givesAll_empty x) hp k
    have hmap := (returns_of_results hresults).2.map (g := FileReader.next csv d x) FileReader.line
      (Option.map (·.mapError ReadError.io)) fun _ _ => rfl
    rwa [List.map_replicate] at hmap

/-! ### Rows without quotes -/

/-- Where the reader is; a first row of headers may be `pending`. -/
structure PlainReader where
  rows : List (Row IoError)
  index : Nat
  pending : Bool

def fieldsOf (line : List UInt8) : List String :=
  (line.splitOn 44).map fun field => .ofList (field.map fun b => .ofNat b.toNat)

/-- The lines that are not empty. -/
def rowsFrom (start : Position) : List (List UInt8) → List (Row IoError)
  | [] => []
  | l :: ls =>
    if l = [] then rowsFrom (start + 1) ls
    else ⟨start, .ok (), .ok (fieldsOf l)⟩ :: rowsFrom (start + (l.length + 1)) ls

def PlainReader.start (r : PlainReader) : Nat := if r.pending then 1 else r.index

/-- The crate as far as files of ASCII need it that have neither quotes nor comments, and rows of
one length. -/
def plainCsv : Csv where
  Error := IoError
  Reader := PlainReader
  fromReader b content := ⟨rowsFrom 0 (lines content), 0, b.hasHeaders⟩
  headers r := (r.rows.head?.elim (.ok []) Row.text, { r with index := r.start, pending := false })
  setHeaders _ r := { r with pending := false }
  readByteRecord r := (r.rows[r.start]?.elim (.ok none)
    (fun row => row.bytes.map fun _ => some (some row.position)),
    { r with index := r.start + 1, pending := false })
  readRecord r := (r.rows[r.start]?.elim (.ok none) (fun row => row.text.map some),
    { r with index := r.start + 1, pending := false })
  seek pos r := (.ok (), { r with index := r.rows.findIdx (pos ≤ ·.position), pending := false })
  rows _ content := rowsFrom 0 (lines content)
  Fresh b content r := r = ⟨rowsFrom 0 (lines content), 0, b.hasHeaders⟩
  At _ content j r := r = ⟨rowsFrom 0 (lines content), j, false⟩

theorem le_position {ls : List (List UInt8)} {start : Position} :
    ∀ row ∈ rowsFrom start ls, start ≤ row.position := by
  induction ls generalizing start with
  | nil => simp [rowsFrom]
  | cons l ls ih =>
    intro row hrow
    rw [rowsFrom] at hrow
    split at hrow
    · exact (Nat.le_succ _).trans (ih row hrow)
    · rcases List.mem_cons.mp hrow with rfl | hrow
      · exact Nat.le_refl _
      · exact (Nat.le_add_right _ _).trans (ih row hrow)

theorem pairwise_position (ls : List (List UInt8)) (start : Position) :
    (rowsFrom start ls).Pairwise fun a b => a.position < b.position := by
  induction ls generalizing start with
  | nil => exact .nil
  | cons l ls ih =>
    rw [rowsFrom]
    split
    · exact ih _
    · refine List.pairwise_cons.mpr ⟨fun row hrow => ?_, ih _⟩
      exact (Nat.lt_add_of_pos_right (Nat.succ_pos _)).trans_le (le_position row hrow)

theorem findIdx_position {rows : List (Row IoError)} {k : Nat} {row : Row IoError}
    (hrows : rows.Pairwise fun a b => a.position < b.position) (hrow : rows[k]? = some row) :
    rows.findIdx (row.position ≤ ·.position) = k := by
  obtain ⟨hk, rfl⟩ := List.getElem?_eq_some_iff.mp hrow
  refine (List.findIdx_eq hk).mpr ⟨by simp, fun j hj => ?_⟩
  have hlt := List.pairwise_iff_getElem.mp hrows j k (hj.trans hk) hk hj
  simpa using hlt

theorem documented_plainCsv : plainCsv.Documented where
  fresh b content := rfl
  headers := by
    rintro b content r hb rfl
    exact ⟨rfl, by simp [plainCsv, PlainReader.start, hb]⟩
  setHeaders := by
    rintro b content r hs - rfl
    rfl
  noHeaders := by
    rintro b content r hb rfl
    simp [plainCsv, hb]
  readByteRecord := by
    rintro b content j r rfl
    exact ⟨rfl, rfl⟩
  readRecord := by
    rintro b content j r rfl
    exact ⟨rfl, rfl⟩
  seek := by
    rintro b content j r k row rfl hrow
    refine ⟨rfl, ?_⟩
    have hindex := findIdx_position (pairwise_position _ _) hrow
    exact congrArg (fun i => PlainReader.mk _ i false) hindex
  seekStart := by
    rintro b content j r rfl
    refine ⟨rfl, ?_⟩
    simp only [plainCsv]
    cases rowsFrom 0 (lines content) <;> simp [List.findIdx_cons]

/-- A reader of a file of CSV that is to give its records over and over. -/
def repeatedCsv (headers : Config.CsvHeader) : FileProviderPreProcessed where
  csv := { headers := headers }
  autoReturn := none
  buffer := .default
  format := .csv
  path := .new ⟨"", ⟨1, 1⟩⟩
  random := false
  repeats := true
  unique := false

def nothingOutside : Outside := ⟨fun _ => 1, fun _ => 0, fun _ => "", fun _ => none⟩

/-- The row `a,b` of headers. -/
theorem FileReader.neverGives_iff_headers : ∃ r,
    FileReader.new plainCsv nonzeroDigits nothingOutside 1 (repeatedCsv (.bool true))
      [97, 44, 98, 10] = some (.ok r) ∧
    FileReader.NeverGives plainCsv nonzeroDigits nothingOutside r := by
  have hnone : NoRecord plainCsv (repeatedCsv (.bool true)) [97, 44, 98, 10] := rfl
  have hnew : FileReader.new plainCsv nonzeroDigits nothingOutside 1 (repeatedCsv (.bool true))
      [97, 44, 98, 10] = some (.ok _) := rfl
  refine ⟨_, hnew, ?_⟩
  apply (FileReader.neverGives_iff documented_plainCsv documented_nonzeroDigits hnone hnew).mpr
  simp [Rewinds, repeatedCsv, firstRowHeaders]

/-- An empty file without headers. -/
theorem not_neverGives : ¬ ∀ (csv : Csv) (d : StreamDeserializer) (x : Outside)
    (fp : FileProviderPreProcessed) (content : List UInt8) (fuel : Nat) (r : FileReader csv),
    csv.Documented → d.Documented → NoRecord csv fp content →
      FileReader.new csv d x fuel fp content = some (.ok r) → FileReader.NeverGives csv d x r := by
  intro h
  have hnone : records plainCsv (repeatedCsv (.bool false)).csv [] = [] := rfl
  have hcsv : CsvReader.new plainCsv nothingOutside 1 (repeatedCsv (.bool false)) [] =
      some (.ok _) := rfl
  have hstuck := new_stuck documented_plainCsv hcsv ⟨rfl, rfl, rfl⟩ hnone
  obtain ⟨fuel', r', hcall, -⟩ := h plainCsv nonzeroDigits nothingOutside
    (repeatedCsv (.bool false)) [] 1 (.csv _) documented_plainCsv documented_nonzeroDigits hnone
    rfl 1
  rw [FileReader.next, next_eq_none nothingOutside documented_plainCsv hstuck] at hcall
  cases hcall

end Pewpew.FileProvider
