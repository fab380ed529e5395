import Pewpew.Expression.Json
import Pewpew.Providers.FileProvider
import Mathlib.Data.List.DropRight
import Mathlib.Data.List.TakeWhile

/-! The reader of a file of lines: a buffer that is refilled from the file, drained line by line,
and re-scanned. -/
namespace Pewpew.FileProvider

open SelectParser

/-- What the reader does not decide itself: how many bytes a call of `read` gives, what is picked
at random, and how bytes become a string and a string a value. -/
structure Outside where
  chunk : Nat → Nat
  pick : Nat → Nat
  fromUtf8Lossy : List UInt8 → String
  fromStr : String → Option Json

structure LineReader where
  byteBuffer : List UInt8
  bufDataLen : Nat
  position : Nat
  reader : File

/-- `Vec::resize` with zeros. -/
def resize (buf : List UInt8) (len : Nat) : List UInt8 :=
  buf.take len ++ List.replicate (len - buf.length) 0

/-- Bytes that are written into a buffer from an index on. -/
def overwrite (buf : List UInt8) (start : Nat) (bytes : List UInt8) : List UInt8 :=
  buf.take start ++ bytes ++ buf.drop (start + bytes.length)

/-- `str_to_json`. -/
def Outside.strToJson (x : Outside) (s : String) : Json := (x.fromStr s).getD (.string s)

/-- The value of a raw line, whose line endings are trimmed. -/
def Outside.lineValue (x : Outside) (raw : List UInt8) : Json :=
  x.strToJson (x.fromUtf8Lossy (raw.rdropWhile fun b => b = 10 || b = 13))

/-- One more call of `read`, into the space after the data of the buffer. -/
def LineReader.refill (x : Outside) (s : LineReader) : LineReader :=
  let (bytes, reader) := s.reader.read x.chunk kb8
  { s with byteBuffer := overwrite (resize s.byteBuffer (kb8 + s.bufDataLen)) s.bufDataLen bytes,
           bufDataLen := s.bufDataLen + bytes.length,
           reader := reader }

/-- The value of the first `i` bytes, which are drained together with the byte after them. -/
def LineReader.take (x : Outside) (position i : Nat) (s : LineReader) :
    Option (Got Json × LineReader) :=
  if i + 1 ≤ s.byteBuffer.length then
    some (some (.ok (x.lineValue (s.byteBuffer.take i), position, i)),
      { s with position := s.position + (i + 1),
               byteBuffer := s.byteBuffer.drop (i + 1),
               bufDataLen := s.bufDataLen - min s.bufDataLen (i + 1) })
  else none

theorem unread_refill (x : Outside) (s : LineReader) :
    (s.reader.read x.chunk kb8).1 ++ (s.refill x).reader.unread = s.reader.unread :=
  File.unread_read x.chunk kb8 s.reader

/-- A refill leaves less to read, or it finds the end of the file. -/
theorem refill_decreases (x : Outside) (s : LineReader) :
    (s.refill x).reader.unread.length +
      (if (s.reader.read x.chunk kb8).1.isEmpty then 0 else 1) < s.reader.unread.length + 1 := by
  have hlength := congrArg List.length (unread_refill x s)
  rw [List.length_append] at hlength
  cases hbytes : (s.reader.read x.chunk kb8).1 with
  | nil =>
    simp only [hbytes, List.length_nil] at hlength
    simp only [List.isEmpty_nil, if_true]
    omega
  | cons b bytes =>
    simp only [hbytes, List.length_cons] at hlength
    simp only [List.isEmpty_cons, Bool.false_eq_true, if_false]
    omega

/-- The loop of `get_value`. -/
def LineReader.loop (x : Outside) (position : Nat) (eof : Bool) (s : LineReader) :
    Option (Got Json × LineReader) :=
  if eof = true ∧ s.bufDataLen = 0 then some (none, s)
  else if s.byteBuffer.length < s.bufDataLen then none
  else
    match (s.byteBuffer.take s.bufDataLen).findIdx? (· = 10) with
    | some i => s.take x position i
    | none =>
      if eof then s.take x position s.bufDataLen
      else (s.refill x).loop x position (s.reader.read x.chunk kb8).1.isEmpty
termination_by s.reader.unread.length + if eof then 0 else 1
decreasing_by
  rename_i heof
  simpa [heof] using refill_decreases x s

/-- `get_value`; a size hint makes it read so many bytes first. -/
def LineReader.getValue (x : Outside) (sizeHint : Option Nat) (s : LineReader) :
    Option (Got Json × LineReader) :=
  match sizeHint with
  | some hint =>
    let byteBuffer := s.byteBuffer ++ List.replicate (hint - s.byteBuffer.length) 0
    let s := { s with byteBuffer := byteBuffer, position := s.position + hint }
    match s.reader.readExact hint with
    | .error e => some (some (.error e), s)
    | .ok (bytes, reader) =>
      let s := { s with byteBuffer := overwrite byteBuffer 0 bytes, bufDataLen := hint,
                        reader := reader }
      s.loop x s.position false
  | none => s.loop x s.position false

def LineReader.seek (pos : Nat) (s : LineReader) : LineReader :=
  { s with bufDataLen := 0, reader := { s.reader with offset := pos }, position := pos }

def LineReader.access (x : Outside) : Access LineReader Json :=
  ⟨LineReader.getValue x, LineReader.seek⟩

/-- The reader of `LineReader::new` before it looks at the file. -/
def LineReader.open (content : List UInt8) : LineReader :=
  ⟨List.replicate kb8 0, 0, 0, .open content⟩

/-! ### The lines of a file -/

/-- The lines of a file: each ends with a newline or with the file. -/
def lines : List UInt8 → List (List UInt8)
  | [] => []
  | b :: bs =>
    if b = 10 then [] :: lines bs
    else match lines bs with
      | [] => [[b]]
      | l :: ls => (b :: l) :: ls

example : lines [97, 10, 10, 98] = [[97], [], [98]] := by decide

/-- The first line, and what follows its newline. -/
def firstLine (bs : List UInt8) : List UInt8 := bs.takeWhile (· ≠ 10)

def afterLine (bs : List UInt8) : List UInt8 := bs.drop ((firstLine bs).length + 1)

theorem lines_eq {bs : List UInt8} (h : bs ≠ []) :
    lines bs = firstLine bs :: lines (afterLine bs) := by
  induction bs with
  | nil => exact absurd rfl h
  | cons b bs ih =>
    by_cases hb : b = 10
    · simp [lines, firstLine, afterLine, hb]
    · cases hbs : bs with
      | nil => simp [lines, firstLine, afterLine, hb]
      | cons c cs =>
        rw [lines, if_neg hb, ← hbs, ih (by simp [hbs])]
        simp [firstLine, afterLine, hb]

/-! ### The loop -/

/-- The buffer and the file hold the bytes that are left. -/
structure Holds (content left : List UInt8) (s : LineReader) : Prop where
  content : s.reader.content = content
  length : s.bufDataLen ≤ s.byteBuffer.length
  left : s.byteBuffer.take s.bufDataLen ++ s.reader.unread = left

variable {x : Outside} {content left : List UInt8} {s : LineReader} {position : Nat} {eof : Bool}

theorem firstLine_append {data : List UInt8} {i : Nat} (h : data.findIdx? (· = 10) = some i)
    (rest : List UInt8) : i < data.length ∧ firstLine (data ++ rest) = data.take i := by
  induction data generalizing i with
  | nil => cases h
  | cons b data ih =>
    rw [List.findIdx?_cons] at h
    by_cases hb : b = 10
    · simp only [hb, decide_true, if_true, Option.some.injEq] at h
      subst h
      simp [firstLine, hb]
    · simp only [hb, decide_false, Bool.false_eq_true, if_false, Option.map_eq_some_iff] at h
      obtain ⟨j, hj, rfl⟩ := h
      obtain ⟨hlt, hline⟩ := ih hj
      refine ⟨by simpa using hlt, ?_⟩
      rw [List.take_succ_cons, ← hline]
      simp [firstLine, hb]

theorem firstLine_of_none {data : List UInt8} (h : data.findIdx? (· = 10) = none) :
    firstLine data = data := by
  rw [firstLine, List.takeWhile_eq_self_iff]
  intro b hb
  simpa using List.findIdx?_eq_none_iff.mp h b hb

/-- What the loop gives of the bytes that are left. -/
def got (x : Outside) (position : Nat) (left : List UInt8) : Got Json :=
  if left = [] then none
  else some (.ok (x.lineValue (firstLine left), position, (firstLine left).length))

/-- The position behind the first line. -/
def positionAfter (position : Nat) (left : List UInt8) : Nat :=
  if left = [] then position else position + ((firstLine left).length + 1)

theorem length_overwrite (buf bytes : List UInt8) (start : Nat) :
    buf.length ≤ (overwrite buf start bytes).length := by
  rw [overwrite, List.length_append, List.length_append, List.length_take, List.length_drop]
  omega

theorem take_overwrite (buf bytes : List UInt8) {start : Nat} (h : start ≤ buf.length) :
    (overwrite buf start bytes).take (start + bytes.length) = buf.take start ++ bytes := by
  have hlen : (buf.take start ++ bytes).length = start + bytes.length := by
    rw [List.length_append, List.length_take, Nat.min_eq_left h]
  rw [overwrite, ← hlen, List.take_left]

theorem length_resize (buf : List UInt8) (len : Nat) : (resize buf len).length = len := by
  rw [resize, List.length_append, List.length_take, List.length_replicate]
  omega

theorem take_resize {buf : List UInt8} {start len : Nat} (h : start ≤ buf.length)
    (hlen : start ≤ len) : (resize buf len).take start = buf.take start := by
  have hstart : start ≤ (buf.take len).length := by
    rw [List.length_take]
    omega
  rw [resize, List.take_append_of_le_length hstart, List.take_take, Nat.min_eq_left hlen]

theorem length_refill (x : Outside) (s : LineReader) :
    kb8 + s.bufDataLen ≤ (s.refill x).byteBuffer.length :=
  (length_resize s.byteBuffer _).ge.trans (length_overwrite _ _ _)

/-- A refill moves bytes from the file to the buffer. -/
theorem holds_refill (hh : Holds content left s) : Holds content left (s.refill x) := by
  have hread := unread_refill x s
  have hdata : (s.refill x).byteBuffer.take (s.refill x).bufDataLen =
      s.byteBuffer.take s.bufDataLen ++ (s.reader.read x.chunk kb8).1 := by
    have hstart : s.bufDataLen ≤ (resize s.byteBuffer (kb8 + s.bufDataLen)).length := by
      rw [length_resize]
      exact Nat.le_add_left _ _
    exact (take_overwrite _ _ hstart).trans
      (congrArg (· ++ _) (take_resize hh.length (Nat.le_add_left _ _)))
  refine ⟨hh.content, ?_, ?_⟩
  · have hbytes : (s.reader.read x.chunk kb8).1.length ≤ kb8 := by
      rw [File.read, List.length_take]
      omega
    have hlength := length_refill x s
    change s.bufDataLen + (s.reader.read x.chunk kb8).1.length ≤ _
    omega
  · rw [hdata, List.append_assoc, hread]
    exact hh.left

theorem take_spec {i : Nat} (hh : Holds content left s) (hi : i < s.byteBuffer.length)
    (hline : s.byteBuffer.take i = firstLine left) (hne : left ≠ [])
    (hrest : i < s.bufDataLen ∨ i = s.bufDataLen ∧ s.reader.unread = []) :
    ∃ s', s.take x position i = some (got x position left, s') ∧
      Holds content (afterLine left) s' ∧ s'.position = positionAfter s.position left := by
  have hlen : (firstLine left).length = i := by
    rw [← hline, List.length_take]
    omega
  have hdata : (s.byteBuffer.take s.bufDataLen).length = s.bufDataLen := by
    rw [List.length_take, Nat.min_eq_left hh.length]
  refine ⟨⟨s.byteBuffer.drop (i + 1), s.bufDataLen - min s.bufDataLen (i + 1),
    s.position + (i + 1), s.reader⟩, ?_, ⟨hh.content, ?_, ?_⟩, ?_⟩
  · rw [LineReader.take, if_pos (Nat.succ_le_of_lt hi), got, if_neg hne, ← hline, List.length_take,
      Nat.min_eq_left hi.le]
  · have hlength := hh.length
    simp only [List.length_drop]
    omega
  · rw [afterLine, hlen, ← hh.left]
    rcases hrest with hlt | ⟨heq, hunread⟩
    · rw [List.drop_append_of_le_length (by omega), List.drop_take, Nat.min_eq_right hlt]
    · have hnone : (s.byteBuffer.take s.bufDataLen).drop (i + 1) = [] :=
        List.drop_of_length_le (by omega)
      rw [hunread, List.append_nil, List.append_nil, hnone,
        show s.bufDataLen - min s.bufDataLen (i + 1) = 0 by omega, List.take_zero]
  · rw [positionAfter, if_neg hne, hlen]

theorem loop_spec (hh : Holds content left s)
    (he : eof = true → s.reader.unread = [] ∧ s.bufDataLen < s.byteBuffer.length) :
    ∃ s', s.loop x position eof = some (got x position left, s') ∧
      Holds content (afterLine left) s' ∧ s'.position = positionAfter s.position left := by
  generalize hn : s.reader.unread.length + (if eof then 0 else 1) = n
  induction n using Nat.strong_induction_on generalizing s eof with
  | _ n ih =>
    have hdata : (s.byteBuffer.take s.bufDataLen).length = s.bufDataLen := by
      rw [List.length_take, Nat.min_eq_left hh.length]
    rw [LineReader.loop]
    by_cases hend : eof = true ∧ s.bufDataLen = 0
    · -- nothing is left
      obtain ⟨heof, hzero⟩ := hend
      have hnil : left = [] := by
        rw [← hh.left, hzero, (he heof).1]
        rfl
      subst hnil
      exact ⟨s, if_pos ⟨heof, hzero⟩, hh, rfl⟩
    · rw [if_neg hend, if_neg (by have := hh.length; omega)]
      split
      · rename_i i hfind
        obtain ⟨hlt, hline⟩ := firstLine_append hfind s.reader.unread
        rw [hh.left] at hline
        rw [hdata] at hlt
        refine take_spec hh (by have := hh.length; omega) ?_ ?_ (.inl hlt)
        · rw [hline, List.take_take, Nat.min_eq_left hlt.le]
        · rintro rfl
          have hnil := (List.append_eq_nil_iff.mp hh.left).1
          rw [hnil] at hfind
          cases hfind
      · rename_i hfind
        by_cases heof : eof = true
        · -- the last line has no newline
          obtain ⟨hunread, hlt⟩ := he heof
          have hleft : s.byteBuffer.take s.bufDataLen = left := by
            rw [← hh.left, hunread, List.append_nil]
          rw [if_pos heof]
          refine take_spec hh hlt ?_ ?_ (.inr ⟨rfl, hunread⟩)
          · rw [← hleft, firstLine_of_none hfind]
          · rintro rfl
            rw [hleft] at hdata
            exact hend ⟨heof, hdata.symm⟩
        · rw [if_neg heof]
          have hlt := refill_decreases x s
          rw [if_neg heof] at hn
          refine ih _ (hn ▸ hlt) (holds_refill hh) ?_ rfl
          intro hempty
          have hnil : s.reader.unread = [] := by
            rw [← File.read_eq_nil_iff (by decide : 0 < kb8)]
            exact List.isEmpty_iff.mp hempty
          have hread := unread_refill x s
          rw [hnil] at hread
          refine ⟨(List.append_eq_nil_iff.mp hread).2, ?_⟩
          have hlength := length_refill x s
          have hsame : (s.refill x).bufDataLen = s.bufDataLen := by
            change s.bufDataLen + (s.reader.read x.chunk kb8).1.length = _
            rw [List.isEmpty_iff.mp hempty]
            rfl
          rw [hsame]
          have hpos : 0 < kb8 := by decide
          omega

/-! ### The reader as a whole -/

/-- The bytes after so many lines. -/
def restAt (content : List UInt8) : Nat → List UInt8
  | 0 => content
  | j + 1 => afterLine (restAt content j)

/-- Where the line after so many lines starts: past the end where the last newline is missing. -/
def startAt (content : List UInt8) : Nat → Nat
  | 0 => 0
  | j + 1 => positionAfter (startAt content j) (restAt content j)

theorem drop_startAt (content : List UInt8) (j : Nat) :
    content.drop (startAt content j) = restAt content j := by
  induction j with
  | zero => rfl
  | succ j ih =>
    rw [startAt, restAt, positionAfter, afterLine]
    split
    · rename_i hnil
      rw [ih, hnil, List.drop_nil]
    · rw [← List.drop_drop, ih]

theorem drop_lines (content : List UInt8) (j : Nat) :
    (lines content).drop j = lines (restAt content j) := by
  induction j with
  | zero => rfl
  | succ j ih =>
    rw [← List.drop_drop, ih, restAt]
    by_cases hnil : restAt content j = []
    · simp [hnil, lines, afterLine]
    · rw [lines_eq hnil]
      rfl

theorem getElem?_lines (content : List UInt8) (j : Nat) : (lines content)[j]? =
    if restAt content j = [] then none else some (firstLine (restAt content j)) := by
  have hhead : (lines content)[j]? = (lines (restAt content j))[0]? := by
    rw [← drop_lines, List.getElem?_drop, Nat.add_zero]
  rw [hhead]
  split
  · rename_i hnil
    rw [hnil]
    rfl
  · rename_i hne
    rw [lines_eq hne]
    rfl

theorem length_lines_le (bs : List UInt8) : (lines bs).length ≤ bs.length := by
  induction bs with
  | nil => exact Nat.le_refl _
  | cons b bs ih =>
    rw [lines]
    split
    · exact Nat.succ_le_succ ih
    · cases hbs : lines bs with
      | nil => exact Nat.le_add_left _ _
      | cons l ls =>
        rw [hbs] at ih
        exact Nat.le_succ_of_le ih

theorem getValue_none (hh : Holds content left s) :
    ∃ s', s.getValue x none = some (got x s.position left, s') ∧
      Holds content (afterLine left) s' ∧ s'.position = positionAfter s.position left :=
  loop_spec hh (by simp)

/-- After a seek, the hint of a size that the file has makes no difference. -/
theorem getValue_hint (hs : s.reader.content = content) {p hint : Nat}
    (hhint : hint ≤ (content.drop p).length) :
    ∃ s', (s.seek p).getValue x (some hint) = some (got x (p + hint) (content.drop p), s') ∧
      Holds content (afterLine (content.drop p)) s' ∧
      s'.position = positionAfter (p + hint) (content.drop p) := by
  have hread : (s.seek p).reader.readExact hint =
      .ok ((content.drop p).take hint, ⟨content, p + hint, s.reader.reads⟩) := by
    subst hs
    exact if_pos hhint
  have hlen : ((content.drop p).take hint).length = hint := by
    rw [List.length_take, Nat.min_eq_left hhint]
  simp only [LineReader.getValue, hread]
  refine loop_spec ⟨rfl, ?_, ?_⟩ (by simp)
  · change hint ≤ _
    refine Nat.le_trans ?_ (length_overwrite _ _ _)
    rw [List.length_append, List.length_replicate]
    omega
  · have hdata := take_overwrite (s.byteBuffer ++ List.replicate (hint - s.byteBuffer.length) 0)
      ((content.drop p).take hint) (Nat.zero_le _)
    rw [hlen, Nat.zero_add, List.take_zero, List.nil_append] at hdata
    have hunread : (⟨content, p + hint, s.reader.reads⟩ : File).unread =
        (content.drop p).drop hint := List.drop_drop.symm
    rw [hunread]
    exact (congrArg (· ++ _) hdata).trans (List.take_append_drop _ _)

/-- The reader before a line, at the position of the line. -/
def AtLine (content : List UInt8) (j : Nat) (s : LineReader) : Prop :=
  Holds content (restAt content j) s ∧ s.position = startAt content j

theorem restAt_length (content : List UInt8) : restAt content (lines content).length = [] := by
  by_contra hne
  have hnone := getElem?_lines content (lines content).length
  rw [if_neg hne, List.getElem?_eq_none (Nat.le_refl _)] at hnone
  cases hnone

theorem delivers_lines (x : Outside) (content : List UInt8) :
    Delivers (LineReader.access x) ((lines content).map x.lineValue)
      (fun j => (startAt content j, (firstLine (restAt content j)).length)) (AtLine content) where
  value j s v hs hv := by
    obtain ⟨hh, hposition⟩ := hs
    obtain ⟨s', hget, hh', hposition'⟩ := getValue_none (x := x) hh
    rw [List.getElem?_map, getElem?_lines] at hv
    split at hv
    · cases hv
    · rename_i hne
      cases hv
      refine ⟨s', ?_, hh', ?_⟩
      · rw [got, if_neg hne, hposition] at hget
        exact hget
      · rw [hposition', hposition]
        rfl
  done s hs := by
    rw [List.length_map] at hs ⊢
    obtain ⟨hh, hposition⟩ := hs
    have hnil := restAt_length content
    rw [hnil] at hh
    obtain ⟨s', hget, hh', hposition'⟩ := getValue_none (x := x) hh
    refine ⟨s', hget, ?_, hposition'.trans hposition⟩
    rw [hnil]
    exact hh'

theorem seeks_lines (x : Outside) (content : List UInt8) :
    Seeks (LineReader.access x) ((lines content).map x.lineValue)
      (fun j => (startAt content j, (firstLine (restAt content j)).length)) (AtLine content)
      (fun s => s.reader.content = content) where
  live j s hs := hs.1.content
  seek p s hs := hs
  revisit j s v hs hv := by
    rw [List.getElem?_map, getElem?_lines] at hv
    split at hv
    · cases hv
    · rename_i hne
      cases hv
      have hhint : (firstLine (restAt content j)).length ≤
          (content.drop (startAt content j)).length := by
        rw [drop_startAt]
        exact (List.takeWhile_sublist _).length_le
      obtain ⟨s', hget, hh', -⟩ := getValue_hint (x := x) hs hhint
      rw [drop_startAt, got, if_neg hne] at hget
      exact ⟨_, s', hget, hh'.content⟩
  rewind s hs := by
    obtain ⟨s', hget, hh', hposition'⟩ := getValue_hint (x := x) (p := 0) hs (Nat.zero_le _)
    refine ⟨_, s', hget, ?_, ?_⟩
    · rw [List.getElem?_map, getElem?_lines, List.drop_zero]
      change Option.map _ (got x 0 content) =
        Option.map _ (Option.map _ (if content = [] then _ else _))
      unfold got
      split <;> rfl
    · rw [List.length_map]
      by_cases hnil : content = []
      · subst hnil
        exact ⟨hh', hposition'⟩
      · rw [lines_eq hnil, List.length_cons, Nat.min_eq_left (Nat.le_add_left _ _)]
        exact ⟨hh', hposition'⟩

/-- The reader gives the values of the lines of a file, however the file is read in chunks. -/
theorem givesAll_lines (x : Outside) (content : List UInt8) :
    GivesAll (LineReader.access x) x.pick (content.length + 1) (.open content)
      ((lines content).map x.lineValue) := by
  refine (delivers_lines x content).givesAll (seeks_lines x content) ?_ ?_
  · rw [List.length_map]
    exact Nat.lt_succ_of_le (length_lines_le content)
  · exact ⟨⟨rfl, Nat.zero_le _, rfl⟩, rfl⟩

end Pewpew.FileProvider
