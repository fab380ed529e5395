import Pewpew.Config.Providers
import Pewpew.Library.Calls
import Pewpew.Providers.LineReader

/-! The reader of a file of CSV: it leaves the rows to the `csv` crate, and keeps the positions of
those to which it may have to return. A panic is `none`, and so is a call without enough fuel. -/
namespace Pewpew.FileProvider

open SelectParser Calls
open Config (CsvHeader CsvSettings FileProviderPreProcessed)

/-- A `csv::Position`: the offset of its byte, the only part of it that a seek looks at. -/
abbrev Position := Nat

/-- What the builder of a `csv::Reader` is told, over its defaults. -/
structure ReaderBuilder where
  comment : Option UInt8 := none
  delimiter : UInt8 := 44
  doubleQuote : Bool := true
  escape : Option UInt8 := none
  hasHeaders : Bool := true
  quote : UInt8 := 34
  terminator : Option UInt8 := none

/-- A row with the position of what comes before it. As a record of bytes it may have the wrong
number of fields, and as one of strings it may besides be no UTF-8. -/
structure Row (E : Type) where
  position : Position
  bytes : Except E Unit
  text : Except E (List String)

/-- The `csv` crate: its readers, the rows of a file, and where a reader is. It has read nothing
yet, or it has dealt with the headers and is before one of the rows. -/
structure Csv where
  Error : Type
  Reader : Type
  fromReader : ReaderBuilder → List UInt8 → Reader
  headers : Reader → Except Error (List String) × Reader
  setHeaders : List String → Reader → Reader
  readByteRecord : Reader → Except Error (Option (Option Position)) × Reader
  readRecord : Reader → Except Error (Option (List String)) × Reader
  seek : Position → Reader → Except Error Unit × Reader
  rows : ReaderBuilder → List UInt8 → List (Row Error)
  Fresh : ReaderBuilder → List UInt8 → Reader → Prop
  At : ReaderBuilder → List UInt8 → Nat → Reader → Prop

structure CsvReader (csv : Csv) where
  positions : List Position
  headers : Option (List String)
  random : Option Nat
  reader : csv.Reader
  repeats : Bool
  samples : Nat

/-- The builder of `new`; with headers of their own, the first row is read as any other. -/
def builderOf (settings : CsvSettings) : ReaderBuilder :=
  let builder : ReaderBuilder := { comment := settings.comment, escape := settings.escape,
                                   terminator := settings.terminator }
  { builder with
    delimiter := settings.delimiter.getD builder.delimiter
    hasHeaders := match settings.headers with
      | .bool b => b
      | .string _ => builder.hasHeaders
    doubleQuote := settings.doubleQuote.getD builder.doubleQuote
    quote := settings.quote.getD builder.quote }

def firstRowHeaders : CsvHeader → Bool
  | .bool b => b
  | .string _ => false

variable {csv : Csv}

/-- The reader of a file with its headers. -/
def openCsv (csv : Csv) (settings : CsvSettings) (content : List UInt8) :
    Except csv.Error (Option (List String) × csv.Reader) :=
  let builder := builderOf settings
  let reader := csv.fromReader builder content
  match settings.headers with
  | .string s =>
    match (csv.headers (csv.fromReader builder s.toUTF8.data.toList)).1 with
    | .error e => .error e
    | .ok headers => .ok (some headers, csv.setHeaders headers reader)
  | .bool true => .ok ((csv.headers reader).1.toOption, (csv.headers reader).2)
  | .bool false => .ok (none, reader)

/-- The loop that records the positions of all rows, or of the first one; it is given fuel. -/
def scanRows (csv : Csv) (random : Bool) : Nat → List Position → csv.Reader →
    Option (Except csv.Error (List Position × csv.Reader))
  | 0, _, _ => none
  | fuel + 1, positions, r =>
    if !random && !positions.isEmpty then some (.ok (positions, r))
    else
      match csv.readByteRecord r with
      | (.ok (some pos), r) => scanRows csv random fuel (positions ++ pos.toList) r
      | (.ok none, r) => some (.ok (positions, r))
      | (.error e, _) => some (.error e)

namespace CsvReader

/-- `new`, for a file that has been opened. -/
def new (csv : Csv) (x : Outside) (fuel : Nat) (fp : FileProviderPreProcessed)
    (content : List UInt8) : Option (Except csv.Error (CsvReader csv)) :=
  match openCsv csv fp.csv content with
  | .error e => some (.error e)
  | .ok (headers, reader) =>
    if fp.random || (firstRowHeaders fp.csv.headers && fp.repeats) then do
      match ← scanRows csv fp.random fuel [] reader with
      | .error e => return .error e
      | .ok (positions, reader) =>
        let random := fp.random && !positions.isEmpty
        let cr : CsvReader csv :=
          { positions, headers, random := if random then some positions.length else none, reader,
            repeats := fp.repeats, samples := if random then 1 else 0 }
        match positions[if random then x.pick 0 % positions.length else 0]? with
        | none => return .ok cr
        | some pos =>
          match csv.seek pos cr.reader with
          | (.error e, _) => return .error e
          | (.ok _, reader) => return .ok { cr with reader }
    else some (.ok ⟨if fp.repeats then [0] else [], headers, none, reader, fp.repeats, 0⟩)

/-- What a record becomes: an object where there are headers, or an array. -/
def value (x : Outside) (headers : Option (List String)) (record : List String) : Json :=
  match headers with
  | some headers => .object (Object.ofEntries (headers.zip (record.map x.strToJson)))
  | none => .array (record.map x.strToJson)

abbrev Called (csv : Csv) := Option (Option (Except csv.Error Json) × CsvReader csv)

/-- The position that `next` picks, which it removes unless the rows repeat. -/
def pickPosition (x : Outside) (n : Nat) (p : CsvReader csv) :
    Option (Position × CsvReader csv) := do
  let i := x.pick p.samples % n % p.positions.length
  let pos ← p.positions[i]?
  return (pos, { p with
    samples := p.samples + 1
    positions := if p.repeats then p.positions else p.positions.eraseIdx i })

/-- The rest of `next`. Where the file has come to an end and the rows repeat, `next` is called
`again` from the first position. -/
def readOrRewind (x : Outside) (again : CsvReader csv → Called csv) (p : CsvReader csv) :
    Called csv :=
  match csv.readRecord p.reader with
  | (.error e, reader) => some (some (.error e), { p with reader })
  | (.ok (some record), reader) => some (some (.ok (value x p.headers record)), { p with reader })
  | (.ok none, reader) =>
    if p.repeats then
      match p.positions.head? with
      | none => some (none, { p with reader })
      | some pos =>
        match csv.seek pos reader with
        | (.error e, reader) => some (some (.error e), { p with reader })
        | (.ok _, reader) => again { p with reader }
    else some (none, { p with reader })

/-- `next`, whose calls of itself take fuel. -/
def next (x : Outside) : Nat → CsvReader csv → Called csv
  | 0, _ => none
  | fuel + 1, p =>
    match p.random with
    | none => p.readOrRewind x (next x fuel)
    | some n =>
      if p.positions.isEmpty then some (none, p)
      else do
        let (pos, p) ← p.pickPosition x n
        match csv.seek pos p.reader with
        | (.error e, reader) => some (some (.error e), { p with reader })
        | (.ok _, reader) => ({ p with reader } : CsvReader csv).readOrRewind x (next x fuel)

end CsvReader

/-! ### Rows and records -/

/-- What the documentation of the crate says, for a file that can be read: rows come one after
another, a first row of headers is not read as a record, and a seek leads to the row of a position,
or to the first row from the start of the file. -/
structure Csv.Documented (csv : Csv) : Prop where
  fresh : ∀ b content, csv.Fresh b content (csv.fromReader b content)
  headers : ∀ b content r, b.hasHeaders = true → csv.Fresh b content r →
    (csv.headers r).1 = (csv.rows b content).head?.elim (.ok []) Row.text ∧
      csv.At b content 1 (csv.headers r).2
  setHeaders : ∀ b content r hs, b.hasHeaders = true → csv.Fresh b content r →
    csv.At b content 0 (csv.setHeaders hs r)
  noHeaders : ∀ b content r, b.hasHeaders = false → csv.Fresh b content r → csv.At b content 0 r
  readByteRecord : ∀ b content j r, csv.At b content j r →
    (csv.readByteRecord r).1 = (csv.rows b content)[j]?.elim (.ok none)
        (fun row => row.bytes.map fun _ => some (some row.position)) ∧
      csv.At b content (j + 1) (csv.readByteRecord r).2
  readRecord : ∀ b content j r, csv.At b content j r →
    (csv.readRecord r).1 = (csv.rows b content)[j]?.elim (.ok none) (fun row => row.text.map some) ∧
      csv.At b content (j + 1) (csv.readRecord r).2
  seek : ∀ b content j r k row, csv.At b content j r → (csv.rows b content)[k]? = some row →
    (csv.seek row.position r).1 = .ok () ∧ csv.At b content k (csv.seek row.position r).2
  seekStart : ∀ b content j r, csv.At b content j r →
    (csv.seek 0 r).1 = .ok () ∧ csv.At b content 0 (csv.seek 0 r).2

/-- The row at which the records start. -/
def firstRecord (settings : CsvSettings) : Nat := if firstRowHeaders settings.headers then 1 else 0

/-- The rows of a file that are records. -/
def records (csv : Csv) (settings : CsvSettings) (content : List UInt8) : List (Row csv.Error) :=
  (csv.rows (builderOf settings) content).drop (firstRecord settings)

/-- From anywhere in the file a seek to the position leads to the record. -/
def LandsAt (csv : Csv) (settings : CsvSettings) (content : List UInt8) (k : Nat)
    (pos : Position) : Prop :=
  ∃ row, (records csv settings content)[k]? = some row ∧
    ∀ j r, csv.At (builderOf settings) content j r → (csv.seek pos r).1 = .ok () ∧
      csv.At (builderOf settings) content (firstRecord settings + k) (csv.seek pos r).2

def Lands (csv : Csv) (settings : CsvSettings) (content : List UInt8) (pos : Position) : Prop :=
  ∃ k, LandsAt csv settings content k pos

/-- A reader that is behind the headers, and whose positions are those of records. -/
structure Placed (csv : Csv) (settings : CsvSettings) (content : List UInt8) (p : CsvReader csv) :
    Prop where
  reader : ∃ k, csv.At (builderOf settings) content (firstRecord settings + k) p.reader
  positions : ∀ pos ∈ p.positions, Lands csv settings content pos

variable {settings : CsvSettings} {fp : FileProviderPreProcessed} {content : List UInt8}
  {x : Outside} {p p' : CsvReader csv} {r r' : csv.Reader} {positions : List Position}
  {random : Bool} {fuel k : Nat}

theorem getElem?_records : (records csv settings content)[k]? =
    (csv.rows (builderOf settings) content)[firstRecord settings + k]? :=
  List.getElem?_drop

theorem landsAt_row (hc : csv.Documented) {row : Row csv.Error}
    (hrow : (records csv settings content)[k]? = some row) :
    LandsAt csv settings content k row.position := by
  refine ⟨row, hrow, fun j r hr => ?_⟩
  rw [getElem?_records] at hrow
  exact hc.seek _ _ _ _ _ _ hr hrow

/-- Where no row is skipped, the start of the file leads to its first record. -/
theorem landsAt_start (hc : csv.Documented) (hfirst : firstRowHeaders settings.headers = false)
    (hne : records csv settings content ≠ []) : LandsAt csv settings content 0 0 := by
  have hzero : firstRecord settings = 0 := by simp [firstRecord, hfirst]
  obtain ⟨row, rest, hrows⟩ := List.exists_cons_of_ne_nil hne
  refine ⟨row, by simp [hrows], fun j r hr => ?_⟩
  rw [hzero]
  exact hc.seekStart _ _ _ _ hr

theorem openCsv_at (hc : csv.Documented) {hs : Option (List String)}
    (h : openCsv csv settings content = .ok (hs, r)) :
    csv.At (builderOf settings) content (firstRecord settings) r := by
  have hfresh := hc.fresh (builderOf settings) content
  unfold openCsv at h
  cases hh : settings.headers with
  | string s =>
    have hb : (builderOf settings).hasHeaders = true := by simp [builderOf, hh]
    have hzero : firstRecord settings = 0 := by simp [firstRecord, firstRowHeaders, hh]
    simp only [hh] at h
    split at h
    · cases h
    · cases h
      rw [hzero]
      exact hc.setHeaders _ _ _ _ hb hfresh
  | bool b =>
    have hb : (builderOf settings).hasHeaders = b := by simp [builderOf, hh]
    cases b with
    | true =>
      have hone : firstRecord settings = 1 := by simp [firstRecord, firstRowHeaders, hh]
      simp only [hh] at h
      cases h
      rw [hone]
      exact (hc.headers _ _ _ hb hfresh).2
    | false =>
      have hzero : firstRecord settings = 0 := by simp [firstRecord, firstRowHeaders, hh]
      simp only [hh] at h
      cases h
      rw [hzero]
      exact hc.noHeaders _ _ _ hb hfresh

/-- What a call of `read_byte_record` gives: an error, nothing behind the records, or the position
of the next one. -/
theorem readByteRecord_cases (hc : csv.Documented)
    (hr : csv.At (builderOf settings) content (firstRecord settings + k) r) :
    (∃ e r₁, csv.readByteRecord r = (.error e, r₁)) ∨
    ∃ r₁, csv.At (builderOf settings) content (firstRecord settings + (k + 1)) r₁ ∧
      ((records csv settings content)[k]? = none ∧ csv.readByteRecord r = (.ok none, r₁) ∨
        ∃ row, (records csv settings content)[k]? = some row ∧
          csv.readByteRecord r = (.ok (some (some row.position)), r₁)) := by
  obtain ⟨hread, hr₁⟩ := hc.readByteRecord _ _ _ _ hr
  rw [← getElem?_records] at hread
  rcases hanswer : csv.readByteRecord r with ⟨answer, r₁⟩
  rw [hanswer] at hread hr₁
  cases hrow : (records csv settings content)[k]? with
  | none =>
    rw [hrow] at hread
    obtain rfl : answer = .ok none := hread
    exact .inr ⟨r₁, hr₁, .inl ⟨rfl, rfl⟩⟩
  | some row =>
    rw [hrow, Option.elim_some] at hread
    cases hbytes : row.bytes with
    | error e =>
      rw [hbytes] at hread
      obtain rfl : answer = .error e := hread
      exact .inl ⟨e, r₁, rfl⟩
    | ok u =>
      rw [hbytes] at hread
      obtain rfl : answer = .ok (some (some row.position)) := hread
      exact .inr ⟨r₁, hr₁, .inr ⟨row, rfl, rfl⟩⟩

/-- The loop records positions of records. -/
theorem scanRows_lands (hc : csv.Documented)
    (hr : csv.At (builderOf settings) content (firstRecord settings + k) r)
    (hpos : ∀ pos ∈ positions, Lands csv settings content pos) {found : List Position}
    (h : scanRows csv random fuel positions r = some (.ok (found, r'))) :
    (∀ pos ∈ found, Lands csv settings content pos) ∧
      ∃ k, csv.At (builderOf settings) content (firstRecord settings + k) r' := by
  induction fuel generalizing k positions r with
  | zero => cases h
  | succ fuel ih =>
    rw [scanRows] at h
    split at h
    · cases h
      exact ⟨hpos, k, hr⟩
    · rcases readByteRecord_cases hc hr with
        ⟨e, r₁, hread⟩ | ⟨r₁, hr₁, ⟨-, hread⟩ | ⟨row, hrow, hread⟩⟩
      · rw [hread] at h
        cases h
      · rw [hread] at h
        cases h
        exact ⟨hpos, k + 1, hr₁⟩
      · rw [hread] at h
        refine ih hr₁ (fun pos hmem => ?_) h
        rcases List.mem_append.mp hmem with hmem | hmem
        · exact hpos pos hmem
        · obtain rfl : pos = row.position := by simpa using hmem
          exact ⟨k, landsAt_row hc hrow⟩

/-- A loop that is not for all rows ends with the first. -/
theorem scanRows_first (hc : csv.Documented)
    (hr : csv.At (builderOf settings) content (firstRecord settings) r) {found : List Position}
    (h : scanRows csv false fuel [] r = some (.ok (found, r'))) :
    found = [] ∧ records csv settings content = [] ∨
      ∃ pos, found = [pos] ∧ LandsAt csv settings content 0 pos := by
  cases fuel with
  | zero => cases h
  | succ fuel =>
    rw [scanRows, if_neg (by simp)] at h
    rcases readByteRecord_cases (k := 0) hc hr with
      ⟨e, r₁, hread⟩ | ⟨r₁, hr₁, ⟨hrow, hread⟩ | ⟨row, hrow, hread⟩⟩
    · rw [hread] at h
      cases h
    · rw [hread] at h
      cases h
      exact .inl ⟨rfl, List.eq_nil_of_length_eq_zero (by simpa using hrow)⟩
    · rw [hread] at h
      right
      refine ⟨row.position, ?_, landsAt_row hc hrow⟩
      cases fuel with
      | zero => cases h
      | succ fuel =>
        change scanRows csv false (fuel + 1) [row.position] r₁ = _ at h
        rw [scanRows, if_pos (by simp)] at h
        cases h
        rfl

theorem scanRows_isSome (hc : csv.Documented)
    (hr : csv.At (builderOf settings) content (firstRecord settings + k) r)
    (hfuel : (records csv settings content).length < k + fuel) :
    k ≤ (records csv settings content).length →
      (scanRows csv random fuel positions r).isSome := by
  induction fuel generalizing k positions r with
  | zero => omega
  | succ fuel ih =>
    intro hk
    rw [scanRows]
    split
    · rfl
    · rcases readByteRecord_cases hc hr with
        ⟨e, r₁, hread⟩ | ⟨r₁, hr₁, ⟨-, hread⟩ | ⟨row, hrow, hread⟩⟩
      · rw [hread]
        rfl
      · rw [hread]
        rfl
      · rw [hread]
        exact ih hr₁ (by omega) (List.getElem?_eq_some_iff.mp hrow).1

/-- The options with which the loop records positions. -/
def Scans (fp : FileProviderPreProcessed) : Prop :=
  (fp.random || (firstRowHeaders fp.csv.headers && fp.repeats)) = true

/-- What `new` makes of the file. -/
theorem new_cases (h : CsvReader.new csv x fuel fp content = some (.ok p)) :
    ∃ r, openCsv csv fp.csv content = .ok (p.headers, r) ∧ p.repeats = fp.repeats ∧
      (Scans fp ∧ (∃ r₁, scanRows csv fp.random fuel [] r = some (.ok (p.positions, r₁)) ∧
          (p.positions = [] ∧ p.reader = r₁ ∨
            ∃ pos ∈ p.positions, csv.seek pos r₁ = (.ok (), p.reader))) ∧
          p.random = (if fp.random && !p.positions.isEmpty then some p.positions.length else none) ∨
        ¬ Scans fp ∧ p.positions = (if fp.repeats then [0] else []) ∧ p.random = none ∧
          p.reader = r) := by
  unfold CsvReader.new at h
  cases hopen : openCsv csv fp.csv content with
  | error e =>
    rw [hopen] at h
    cases h
  | ok opened =>
    obtain ⟨hs, r⟩ := opened
    simp only [hopen] at h
    split at h
    · rename_i hscans
      cases hscan : scanRows csv fp.random fuel [] r with
      | none =>
        rw [hscan] at h
        cases h
      | some result =>
        rw [hscan] at h
        simp only [Option.bind_eq_bind, Option.bind_some] at h
        cases result with
        | error e => cases h
        | ok found =>
          obtain ⟨positions, r₁⟩ := found
          simp only at h
          split at h
          · rename_i hget
            cases h
            refine ⟨r, rfl, rfl, .inl ⟨hscans, ⟨r₁, hscan, .inl ⟨?_, rfl⟩⟩, rfl⟩⟩
            by_contra hne
            have hlen : 0 < positions.length := List.length_pos_iff.mpr hne
            have hge := List.getElem?_eq_none_iff.mp hget
            have hlt := Nat.mod_lt (x.pick 0) hlen
            split at hge <;> omega
          · rename_i pos hget
            split at h
            · cases h
            · rename_i u r₂ hseek
              cases h
              exact ⟨r, rfl, rfl, .inl ⟨hscans, ⟨r₁, hscan, .inr ⟨pos, List.mem_of_getElem? hget,
                hseek⟩⟩, rfl⟩⟩
    · rename_i hscans
      cases h
      exact ⟨r, rfl, rfl, .inr ⟨hscans, rfl, rfl, rfl⟩⟩

/-- The options with which a reader is sent to the start of a file that may have no record. -/
def Rewinds (fp : FileProviderPreProcessed) : Prop :=
  fp.repeats = true ∧ fp.random = false ∧ firstRowHeaders fp.csv.headers = false

theorem not_scans_iff : ¬ Scans fp ↔ fp.random = false ∧
    (fp.repeats = true → firstRowHeaders fp.csv.headers = false) := by
  unfold Scans
  cases fp.random <;> cases fp.repeats <;> simp

theorem new_placed (hc : csv.Documented) (h : CsvReader.new csv x fuel fp content = some (.ok p))
    (hrewinds : Rewinds fp → records csv fp.csv content ≠ []) : Placed csv fp.csv content p := by
  obtain ⟨r, hopen, hrep, ⟨-, ⟨r₁, hscan, hreader⟩, -⟩ | ⟨hscans, hpositions, -, hreader⟩⟩ :=
    new_cases h
  · obtain ⟨hlands, k, hr₁⟩ := scanRows_lands (k := 0) hc (openCsv_at hc hopen) (by simp) hscan
    rcases hreader with ⟨-, hreader⟩ | ⟨pos, hmem, hseek⟩
    · exact ⟨⟨k, hreader ▸ hr₁⟩, hlands⟩
    · obtain ⟨k', row, -, hland⟩ := hlands pos hmem
      obtain ⟨-, hr₂⟩ := hland _ _ hr₁
      rw [hseek] at hr₂
      exact ⟨⟨k', hr₂⟩, hlands⟩
  · refine ⟨⟨0, hreader ▸ openCsv_at hc hopen⟩, fun pos hmem => ?_⟩
    obtain ⟨hrandom, hfirst⟩ := not_scans_iff.mp hscans
    rw [hpositions] at hmem
    split at hmem
    · rename_i hrepeats
      obtain rfl := List.mem_singleton.mp hmem
      exact ⟨0, landsAt_start hc (hfirst hrepeats)
        (hrewinds ⟨hrepeats, hrandom, hfirst hrepeats⟩)⟩
    · cases hmem

/-- `new` returns, with an error or with a reader. -/
theorem CsvReader.new_isSome (x : Outside) (hc : csv.Documented)
    (hfuel : (records csv fp.csv content).length < fuel) :
    (CsvReader.new csv x fuel fp content).isSome := by
  unfold CsvReader.new
  cases hopen : openCsv csv fp.csv content with
  | error e => rfl
  | ok opened =>
    obtain ⟨hs, r⟩ := opened
    simp only
    split
    · have hr : csv.At (builderOf fp.csv) content (firstRecord fp.csv + 0) r := openCsv_at hc hopen
      obtain ⟨result, hresult⟩ : ∃ result, scanRows csv fp.random fuel [] r = some result :=
        Option.isSome_iff_exists.mp (scanRows_isSome hc hr (by omega) (Nat.zero_le _))
      rw [hresult]
      simp only [Option.bind_eq_bind, Option.bind_some]
      cases result with
      | error e => rfl
      | ok found =>
        simp only
        split
        · rfl
        · split <;> rfl
    · rfl

/-! ### The calls of `next` -/

/-- What a call may return: nothing, or a record of the file. -/
def FromRecord (csv : Csv) (x : Outside) (settings : CsvSettings) (content : List UInt8)
    (headers : Option (List String)) (item : Option (Except csv.Error Json)) : Prop :=
  ∀ i, item = some i → ∃ row ∈ records csv settings content,
    i = row.text.map (CsvReader.value x headers)

variable {row : Row csv.Error}

/-- Before a record the reader returns it. -/
theorem readOrRewind_row (x : Outside) (again : CsvReader csv → CsvReader.Called csv)
    (hc : csv.Documented)
    (hr : csv.At (builderOf settings) content (firstRecord settings + k) p.reader)
    (hrow : (records csv settings content)[k]? = some row) :
    ∃ r, p.readOrRewind x again =
        some (some (row.text.map (CsvReader.value x p.headers)), { p with reader := r }) ∧
      csv.At (builderOf settings) content (firstRecord settings + (k + 1)) r := by
  obtain ⟨hread, hr₁⟩ := hc.readRecord _ _ _ _ hr
  rw [← getElem?_records, hrow, Option.elim_some] at hread
  refine ⟨(csv.readRecord p.reader).2, ?_, hr₁⟩
  rcases hanswer : csv.readRecord p.reader with ⟨answer, r₁⟩
  rw [hanswer] at hread
  rw [CsvReader.readOrRewind, hanswer]
  cases htext : row.text with
  | error e =>
    rw [htext] at hread
    obtain rfl : answer = .error e := hread
    rfl
  | ok record =>
    rw [htext] at hread
    obtain rfl : answer = .ok (some record) := hread
    rfl

theorem readRecord_end (hc : csv.Documented)
    (hr : csv.At (builderOf settings) content (firstRecord settings + k) r)
    (hrow : (records csv settings content)[k]? = none) :
    ∃ r₁, csv.readRecord r = (.ok none, r₁) ∧
      csv.At (builderOf settings) content (firstRecord settings + (k + 1)) r₁ := by
  obtain ⟨hread, hr₁⟩ := hc.readRecord _ _ _ _ hr
  rw [← getElem?_records, hrow] at hread
  exact ⟨_, Prod.ext hread rfl, hr₁⟩

/-- Behind the records it returns nothing, where there is no position to go back to. -/
theorem readOrRewind_end (x : Outside) (again : CsvReader csv → CsvReader.Called csv)
    (hc : csv.Documented) (hend : p.repeats = false ∨ p.positions = [])
    (hr : csv.At (builderOf settings) content (firstRecord settings + k) p.reader)
    (hrow : (records csv settings content)[k]? = none) :
    ∃ r, p.readOrRewind x again = some (none, { p with reader := r }) ∧
      csv.At (builderOf settings) content (firstRecord settings + (k + 1)) r := by
  obtain ⟨r₁, hread, hr₁⟩ := readRecord_end hc hr hrow
  refine ⟨r₁, ?_, hr₁⟩
  simp only [CsvReader.readOrRewind, hread]
  rcases hend with hrepeats | hpositions
  · simp [hrepeats]
  · simp [hpositions]

/-- Otherwise `next` is called again from the first position. -/
theorem readOrRewind_again (x : Outside) (again : CsvReader csv → CsvReader.Called csv)
    (hc : csv.Documented) (hrepeats : p.repeats = true) {pos : Position}
    (hpos : p.positions.head? = some pos)
    (hr : csv.At (builderOf settings) content (firstRecord settings + k) p.reader)
    (hrow : (records csv settings content)[k]? = none) {k' : Nat}
    (hland : LandsAt csv settings content k' pos) :
    ∃ r, p.readOrRewind x again = again { p with reader := r } ∧
      csv.At (builderOf settings) content (firstRecord settings + k') r := by
  obtain ⟨r₁, hread, hr₁⟩ := readRecord_end hc hr hrow
  obtain ⟨row, -, hseek⟩ := hland
  obtain ⟨hok, hr₂⟩ := hseek _ _ hr₁
  rcases hsought : csv.seek pos r₁ with ⟨result, r₂⟩
  rw [hsought] at hok hr₂
  obtain rfl : result = .ok () := hok
  refine ⟨r₂, ?_, hr₂⟩
  simp only [CsvReader.readOrRewind, hread, hrepeats, hpos, if_true, hsought]

theorem next_of_none (fuel : Nat) (hrandom : p.random = none) :
    CsvReader.next x (fuel + 1) p = p.readOrRewind x (CsvReader.next x fuel) := by
  rw [CsvReader.next, hrandom]

/-- From the first position the call of `next` by itself returns the record there. -/
theorem next_rewound (x : Outside) (fuel : Nat) (hc : csv.Documented) (hrandom : p.random = none)
    (hrepeats : p.repeats = true) {pos : Position} (hpos : p.positions.head? = some pos)
    (hr : csv.At (builderOf settings) content (firstRecord settings + k) p.reader)
    (hrow : (records csv settings content)[k]? = none) {k' : Nat}
    (hland : LandsAt csv settings content k' pos)
    (hrow' : (records csv settings content)[k']? = some row) :
    ∃ r, CsvReader.next x (fuel + 2) p =
        some (some (row.text.map (CsvReader.value x p.headers)), { p with reader := r }) ∧
      csv.At (builderOf settings) content (firstRecord settings + (k' + 1)) r := by
  obtain ⟨r₁, hagain, hr₁⟩ := readOrRewind_again x (CsvReader.next x (fuel + 1)) hc hrepeats hpos hr
    hrow hland
  obtain ⟨r₂, hread, hr₂⟩ := readOrRewind_row (p := { p with reader := r₁ }) x
    (CsvReader.next x fuel) hc hr₁ hrow'
  refine ⟨r₂, ?_, hr₂⟩
  rw [next_of_none _ hrandom, hagain, next_of_none _ (by exact hrandom)]
  exact hread

theorem pickPosition_spec (x : Outside) (n : Nat) (hne : p.positions ≠ []) :
    ∃ m, ∃ hm : m < p.positions.length, p.pickPosition x n = some (p.positions[m], { p with
      samples := p.samples + 1
      positions := if p.repeats then p.positions else p.positions.eraseIdx m }) := by
  have hlt := Nat.mod_lt (x.pick p.samples % n) (List.length_pos_iff.mpr hne)
  refine ⟨_, hlt, ?_⟩
  simp only [CsvReader.pickPosition, List.getElem?_eq_getElem hlt]
  rfl

/-- At random, `next` returns the record of a position that is left. -/
theorem next_picked (x : Outside) (fuel : Nat) {n : Nat} (hrandom : p.random = some n)
    (hne : p.positions ≠ []) {j : Nat} (hc : csv.Documented)
    (hr : csv.At (builderOf settings) content j p.reader) :
    ∃ m, ∃ hm : m < p.positions.length, ∀ k row,
      LandsAt csv settings content k p.positions[m] →
      (records csv settings content)[k]? = some row →
      ∃ r, CsvReader.next x (fuel + 1) p =
          some (some (row.text.map (CsvReader.value x p.headers)), { p with
            reader := r
            samples := p.samples + 1
            positions := if p.repeats then p.positions else p.positions.eraseIdx m }) ∧
        csv.At (builderOf settings) content (firstRecord settings + (k + 1)) r := by
  obtain ⟨m, hm, hpick⟩ := pickPosition_spec x n hne
  refine ⟨m, hm, ?_⟩
  rintro k row ⟨-, -, hseek⟩ hrow
  obtain ⟨hok, hr₁⟩ := hseek _ _ hr
  rcases hsought : csv.seek p.positions[m] p.reader with ⟨result, r₁⟩
  rw [hsought] at hok hr₁
  obtain rfl : result = .ok () := hok
  obtain ⟨r₂, hread, hr₂⟩ := readOrRewind_row (p := { p with
    reader := r₁
    samples := p.samples + 1
    positions := if p.repeats then p.positions else p.positions.eraseIdx m }) x
    (CsvReader.next x fuel) hc hr₁ hrow
  refine ⟨r₂, ?_, hr₂⟩
  have hempty : p.positions.isEmpty = false := by simpa using hne
  simp only [CsvReader.next, hrandom, hempty, Bool.false_eq_true, if_false, hpick,
    Option.bind_eq_bind, Option.bind_some, hsought] at hread ⊢
  exact hread

/-- Each call returns, with a record or with nothing, and the reader stays in its place. -/
theorem next_placed (x : Outside) (hc : csv.Documented) (hp : Placed csv settings content p)
    (fuel : Nat) :
    ∃ item p', CsvReader.next x (fuel + 2) p = some (item, p') ∧
      FromRecord csv x settings content p.headers item ∧
      Placed csv settings content p' ∧ p'.headers = p.headers := by
  have hrecord {k : Nat} {row : Row csv.Error}
      (hrow : (records csv settings content)[k]? = some row) : FromRecord csv x settings content
        p.headers (some (row.text.map (CsvReader.value x p.headers))) := by
    intro i hi
    exact ⟨row, List.mem_of_getElem? hrow, (Option.some.inj hi).symm⟩
  have hnothing : FromRecord csv x settings content p.headers none := by
    intro i hi
    cases hi
  obtain ⟨k, hr⟩ := hp.reader
  cases hrandom : p.random with
  | none =>
    cases hrow : (records csv settings content)[k]? with
    | some row =>
      obtain ⟨r, hread, hr'⟩ := readOrRewind_row x (CsvReader.next x (fuel + 1)) hc hr hrow
      exact ⟨_, _, (next_of_none _ hrandom).trans hread, hrecord hrow,
        ⟨⟨_, hr'⟩, hp.positions⟩, rfl⟩
    | none =>
      by_cases hend : p.repeats = false ∨ p.positions = []
      · obtain ⟨r, hread, hr'⟩ := readOrRewind_end x (CsvReader.next x (fuel + 1)) hc hend hr hrow
        exact ⟨_, _, (next_of_none _ hrandom).trans hread, hnothing, ⟨⟨_, hr'⟩, hp.positions⟩, rfl⟩
      · rw [not_or, Bool.not_eq_false] at hend
        obtain ⟨hrepeats, hne⟩ := hend
        obtain ⟨pos, rest, hpositions⟩ := List.exists_cons_of_ne_nil hne
        obtain ⟨k', hland⟩ := hp.positions pos (by simp [hpositions])
        obtain ⟨row, hrow', -⟩ := id hland
        obtain ⟨r, hnext, hr'⟩ := next_rewound x fuel hc hrandom hrepeats (by simp [hpositions]) hr
          hrow hland hrow'
        exact ⟨_, _, hnext, hrecord hrow', ⟨⟨_, hr'⟩, hp.positions⟩, rfl⟩
  | some n =>
    by_cases hne : p.positions = []
    · refine ⟨none, p, ?_, hnothing, hp, rfl⟩
      simp [CsvReader.next, hrandom, hne]
    · obtain ⟨m, hm, hpicked⟩ := next_picked x (fuel + 1) hrandom hne hc hr
      obtain ⟨k', hland⟩ := hp.positions _ (List.getElem_mem hm)
      obtain ⟨row, hrow, -⟩ := id hland
      obtain ⟨r, hnext, hr'⟩ := hpicked k' row hland hrow
      refine ⟨_, _, hnext, hrecord hrow, ⟨⟨_, hr'⟩, fun pos hmem => hp.positions pos ?_⟩, rfl⟩
      simp only at hmem
      split at hmem
      · exact hmem
      · exact List.mem_of_mem_eraseIdx hmem

/-! ### A start without a record -/

/-- A reader that is to begin again at the start of a file without a record. -/
structure Stuck (csv : Csv) (settings : CsvSettings) (content : List UInt8) (p : CsvReader csv) :
    Prop where
  reader : ∃ k, csv.At (builderOf settings) content (firstRecord settings + k) p.reader
  random : p.random = none
  repeats : p.repeats = true
  positions : p.positions = [0]
  first : firstRowHeaders settings.headers = false
  none : records csv settings content = []

theorem new_stuck (hc : csv.Documented) (h : CsvReader.new csv x fuel fp content = some (.ok p))
    (hrewinds : Rewinds fp) (hnone : records csv fp.csv content = []) :
    Stuck csv fp.csv content p := by
  obtain ⟨hrep, hrandom, hfirst⟩ := hrewinds
  have hscans : ¬ Scans fp := not_scans_iff.mpr ⟨hrandom, fun _ => hfirst⟩
  obtain ⟨r, hopen, hrepeats, ⟨habs, -⟩ | ⟨-, hpositions, hnorandom, hreader⟩⟩ := new_cases h
  · exact absurd habs hscans
  · rw [hrep, if_pos rfl] at hpositions
    exact ⟨⟨0, hreader ▸ openCsv_at hc hopen⟩, hnorandom, hrepeats.trans hrep, hpositions, hfirst,
      hnone⟩

/-- Its call of `next` comes to the call of itself. -/
theorem next_stuck (x : Outside) (hc : csv.Documented) (hp : Stuck csv settings content p) :
    ∃ p', Stuck csv settings content p' ∧
      ∀ fuel, CsvReader.next x (fuel + 1) p = CsvReader.next x fuel p' := by
  obtain ⟨k, hr⟩ := hp.reader
  have hzero : firstRecord settings = 0 := by simp [firstRecord, hp.first]
  obtain ⟨hread, hr₁⟩ := hc.readRecord _ _ _ _ hr
  rw [← getElem?_records, hp.none] at hread
  obtain ⟨hseek, hr₂⟩ := hc.seekStart _ _ _ _ hr₁
  rcases hanswer : csv.readRecord p.reader with ⟨answer, r₁⟩
  rw [hanswer] at hread hseek hr₂
  obtain rfl : answer = .ok none := hread
  rcases hsought : csv.seek 0 r₁ with ⟨result, r₂⟩
  rw [hsought] at hseek hr₂
  obtain rfl : result = .ok () := hseek
  refine ⟨{ p with reader := r₂ }, ⟨⟨0, ?_⟩, hp.random, hp.repeats, hp.positions, hp.first,
    hp.none⟩, fun fuel => ?_⟩
  · rw [hzero]
    exact hr₂
  · rw [CsvReader.next]
    simp only [hp.random, CsvReader.readOrRewind, hanswer, hp.repeats, if_true, hp.positions,
      List.head?_cons, hsought]

theorem next_eq_none (x : Outside) (hc : csv.Documented) (hp : Stuck csv settings content p)
    (fuel : Nat) : CsvReader.next x fuel p = none :=
  eq_none_of_progress (fun _ => rfl) (Stuck csv settings content) (fun _ => next_stuck x hc) hp fuel

/-- All calls of `next` return exactly where the reader is not to begin again at the start of a
file without a record. What they return are records. -/
theorem CsvReader.returns_iff (hc : csv.Documented)
    (h : CsvReader.new csv x fuel fp content = some (.ok p)) :
    (∀ k, ∃ items, items.length = k ∧
      (∀ item ∈ items, FromRecord csv x fp.csv content p.headers item) ∧
      Returns (CsvReader.next x) items p) ↔
    (Rewinds fp → records csv fp.csv content ≠ []) := by
  constructor
  · intro hall hrewinds hnone
    obtain ⟨items, hlen, -, hreturns⟩ := hall 1
    obtain ⟨item, rest, rfl⟩ := List.exists_cons_of_length_eq_add_one hlen
    obtain ⟨fuel, p', hcall, -⟩ := hreturns
    rw [next_eq_none x hc (new_stuck hc h hrewinds hnone)] at hcall
    cases hcall
  · intro hne k
    refine exists_returns (fun q => Placed csv fp.csv content q ∧ q.headers = p.headers) ?_
      ⟨new_placed hc h hne, rfl⟩ k
    rintro q ⟨hq, hheaders⟩
    obtain ⟨item, q', hcall, hitem, hq', hheaders'⟩ := next_placed x hc hq 0
    rw [hheaders] at hitem hheaders'
    exact ⟨2, item, q', hcall, hitem, hq', hheaders'⟩

end Pewpew.FileProvider
